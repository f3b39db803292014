/-
# JSON values

JSON values with integers as their numbers, and the accessors of the reader that the client
uses. An accessor has a default for a value that is missing; on a value of another kind it
throws.
-/

import Yadcc.Lib.Shell
import Mathlib.Tactic

namespace Yadcc.Lib

/-- The bytes of a text. -/
def utf8 (text : String) : Bytes := text.toUTF8.data.toList

inductive Json
  | null
  | bool (b : Bool)
  | int (i : ℤ)
  | string (s : String)
  | array (elements : List Json)
  | object (members : List (String × Json))

namespace Json

/-- What an accessor throws. -/
inductive Fault
  | logicError
  deriving DecidableEq

/-- `operator[]` with a name. -/
def member (name : String) : Json → Except Fault Json
  | null => .ok null
  | object members => .ok ((members.lookup name).getD null)
  | _ => .error .logicError

/-- `operator[]` with an index. -/
def element (i : ℕ) : Json → Except Fault Json
  | null => .ok null
  | array elements => .ok (elements[i]?.getD null)
  | _ => .error .logicError

def size : Json → ℕ
  | array elements => elements.length
  | object members => members.length
  | _ => 0

/-- What an iteration visits. -/
def values : Json → List Json
  | array elements => elements
  | object members => members.map Prod.snd
  | _ => []

def asString : Json → Except Fault String
  | null => .ok ""
  | bool b => .ok (if b then "true" else "false")
  | int i => .ok (toString i)
  | string s => .ok s
  | _ => .error .logicError

/-- `asInt`, with 32 bits. -/
def asInt : Json → Except Fault ℤ
  | null => .ok 0
  | bool b => .ok (if b then 1 else 0)
  | int i => if -2 ^ 31 ≤ i ∧ i < 2 ^ 31 then .ok i else .error .logicError
  | _ => .error .logicError

/-- The number, if `isUInt64`. -/
def asUInt64? : Json → Option ℕ
  | int i => if 0 ≤ i ∧ i < 2 ^ 64 then some i.toNat else none
  | _ => none

@[simp]
theorem asString_string (s : String) : (string s).asString = .ok s := rfl

@[simp]
theorem size_array (elements : List Json) : (array elements).size = elements.length := rfl

@[simp]
theorem values_array (elements : List Json) : (array elements).values = elements := rfl

theorem asInt_int {i : ℤ} (hle : -2 ^ 31 ≤ i) (hlt : i < 2 ^ 31) : (int i).asInt = .ok i :=
  if_pos ⟨hle, hlt⟩

theorem asUInt64?_int {n : ℕ} (h : n < 2 ^ 64) : (int n).asUInt64? = some n := by
  rw [asUInt64?, if_pos (by omega), Int.toNat_natCast]

theorem element_array {elements : List Json} {i : ℕ} {value : Json}
    (h : elements[i]? = some value) : (array elements).element i = .ok value := by
  rw [element, h]
  rfl

/-- A loop whose rounds all succeed. -/
theorem mapM_ok {α β ε : Type} {f : α → Except ε β} {g : α → β} {xs : List α}
    (h : ∀ x ∈ xs, f x = .ok (g x)) : xs.mapM f = .ok (xs.map g) := by
  induction xs with
  | nil => rfl
  | cons x xs ih =>
      obtain ⟨hx, hxs⟩ := List.forall_mem_cons.mp h
      rw [List.mapM_cons, hx, ih hxs]
      rfl

end Json

end Yadcc.Lib
