/-
# Raw access to a byte buffer

`memcpy`, `memmove` and `memset` on one buffer, as an execution sees them: an access that
leaves the buffer is an error, and the buffer remembers the ranges that were accessed. What
the bytes are afterwards is told by one operation on lists, `overwrite`, and by what is read
at each offset of its result.
-/

import Yadcc.Lib.Checked
import Yadcc.Lib.Shell

namespace Yadcc.Lib

/-! ## Overwriting a part of a list -/

section Overwrite

variable {α : Type*} {xs ys : List α} {start i n : ℕ}

/-- Replace the elements from `start` on by `ys`. -/
def overwrite (xs : List α) (start : ℕ) (ys : List α) : List α :=
  xs.take start ++ ys ++ xs.drop (start + ys.length)

/-- `n` elements from `start` on. -/
def slice (xs : List α) (start n : ℕ) : List α := (xs.drop start).take n

theorem length_overwrite (h : start + ys.length ≤ xs.length) :
    (overwrite xs start ys).length = xs.length := by
  simp only [overwrite, List.length_append, List.length_take, List.length_drop]
  omega

theorem getElem?_overwrite (h : start + ys.length ≤ xs.length) :
    (overwrite xs start ys)[i]?
      = if start ≤ i ∧ i < start + ys.length then ys[i - start]? else xs[i]? := by
  have hfront : (xs.take start).length = start := by
    rw [List.length_take]
    omega
  by_cases hbefore : i < start
  · rw [overwrite, List.append_assoc, List.getElem?_append_left (by omega),
      List.getElem?_take_of_lt hbefore, if_neg (by omega)]
  · rw [overwrite, List.append_assoc, List.getElem?_append_right (by omega), hfront]
    by_cases hinside : i < start + ys.length
    · rw [List.getElem?_append_left (by omega), if_pos ⟨by omega, hinside⟩]
    · rw [List.getElem?_append_right (by omega), List.getElem?_drop, if_neg (by omega)]
      congr 1
      omega

/-- Two adjacent parts overwritten one after the other. -/
theorem overwrite_overwrite {zs : List α} (h : start + ys.length ≤ xs.length) :
    overwrite (overwrite xs start ys) (start + ys.length) zs = overwrite xs start (ys ++ zs) := by
  have hfront : (xs.take start ++ ys).length = start + ys.length := by
    rw [List.length_append, List.length_take]
    omega
  have htake : (overwrite xs start ys).take (start + ys.length) = xs.take start ++ ys := by
    rw [overwrite, List.take_left' hfront]
  have hdrop : (overwrite xs start ys).drop (start + ys.length + zs.length)
      = xs.drop (start + (ys ++ zs).length) := by
    rw [overwrite, ← List.drop_drop, List.drop_left' hfront, List.drop_drop, List.length_append,
      Nat.add_assoc]
  rw [overwrite, htake, hdrop, List.append_assoc _ ys, overwrite]

theorem getElem?_slice : (slice xs start n)[i]? = if i < n then xs[start + i]? else none := by
  rw [slice, List.getElem?_take, List.getElem?_drop]

theorem length_slice (h : start + n ≤ xs.length) : (slice xs start n).length = n := by
  rw [slice, List.length_take, List.length_drop]
  omega

theorem slice_congr (h : ∀ i, start ≤ i → i < start + n → xs[i]? = ys[i]?) :
    slice xs start n = slice ys start n := by
  apply List.ext_getElem?
  intro i
  rw [getElem?_slice, getElem?_slice]
  split
  · exact h _ (by omega) (by omega)
  · rfl

theorem slice_overwrite (h : start + ys.length ≤ xs.length) :
    slice (overwrite xs start ys) start ys.length = ys := by
  apply List.ext_getElem?
  intro i
  rw [getElem?_slice]
  split
  · rw [getElem?_overwrite h, if_pos (by omega), Nat.add_sub_cancel_left]
  · rw [List.getElem?_eq_none (by omega)]

end Overwrite

/-! ## Buffers -/

/-- A range of offsets. -/
structure Range where
  start : ℕ
  size : ℕ
  deriving DecidableEq

namespace Range

def Within (r s : Range) : Prop := s.start ≤ r.start ∧ r.start + r.size ≤ s.start + s.size

instance : DecidableRel Within := fun r s =>
  inferInstanceAs (Decidable (s.start ≤ r.start ∧ r.start + r.size ≤ s.start + s.size))

def Contains (r : Range) (i : ℕ) : Prop := r.start ≤ i ∧ i < r.start + r.size

/-- One of the ranges ends before the other begins. -/
def Disjoint (r s : Range) : Prop := r.start + r.size ≤ s.start ∨ s.start + s.size ≤ r.start

end Range

/-- An access outside of the buffer. -/
inductive Overrun
  | overrun
  deriving DecidableEq

structure Buffer where
  bytes : Bytes
  /-- Every range that was read or written. -/
  accesses : List Range
  deriving DecidableEq

namespace Buffer

def ofBytes (bytes : Bytes) : Buffer := ⟨bytes, []⟩

/-- Access `size` bytes at an offset that the program computed. -/
def access (offset : ℤ) (size : ℕ) (b : Buffer) : Except Overrun (Range × Buffer) :=
  if 0 ≤ offset ∧ offset + size ≤ b.bytes.length then
    .ok (⟨offset.toNat, size⟩, { b with accesses := b.accesses ++ [⟨offset.toNat, size⟩] })
  else .error .overrun

/-- Copy bytes of another object into the buffer. -/
def memcpy (dest : ℤ) (src : Bytes) (b : Buffer) : Except Overrun Buffer := do
  let (r, b) ← b.access dest src.length
  return { b with bytes := overwrite b.bytes r.start src }

/-- Copy bytes within the buffer; the two ranges may overlap. -/
def memmove (dest src : ℤ) (n : ℕ) (b : Buffer) : Except Overrun Buffer := do
  let (from_, b) ← b.access src n
  let (to_, b) ← b.access dest n
  return { b with bytes := overwrite b.bytes to_.start (slice b.bytes from_.start n) }

def memset (dest : ℤ) (value : UInt8) (n : ℕ) (b : Buffer) : Except Overrun Buffer := do
  let (r, b) ← b.access dest n
  return { b with bytes := overwrite b.bytes r.start (List.replicate n value) }

variable {b c : Buffer} {offset dest src : ℤ} {n : ℕ} {value : UInt8} {ys : Bytes} {r : Range}

theorem access_ok {start : ℕ} (h : start + n ≤ b.bytes.length) :
    b.access start n
      = .ok (⟨start, n⟩, { b with accesses := b.accesses ++ [⟨start, n⟩] }) := by
  rw [access, if_pos ⟨by omega, by exact_mod_cast h⟩, Int.toNat_natCast]

theorem memcpy_ok {start : ℕ} (h : start + ys.length ≤ b.bytes.length) :
    b.memcpy start ys
      = .ok ⟨overwrite b.bytes start ys, b.accesses ++ [⟨start, ys.length⟩]⟩ := by
  rw [memcpy, access_ok h]
  rfl

theorem memmove_ok {start stop : ℕ} (hstart : start + n ≤ b.bytes.length)
    (hstop : stop + n ≤ b.bytes.length) :
    b.memmove stop start n
      = .ok ⟨overwrite b.bytes stop (slice b.bytes start n),
          b.accesses ++ [⟨start, n⟩, ⟨stop, n⟩]⟩ := by
  have hstop' : stop + n ≤ (Buffer.mk b.bytes (b.accesses ++ [⟨start, n⟩])).bytes.length :=
    hstop
  rw [memmove, access_ok hstart]
  simp only [ok_bind, access_ok hstop', List.append_assoc]
  rfl

theorem memset_ok {start : ℕ} (h : start + n ≤ b.bytes.length) :
    b.memset start value n
      = .ok ⟨overwrite b.bytes start (List.replicate n value), b.accesses ++ [⟨start, n⟩]⟩ := by
  rw [memset, access_ok h]
  rfl

/-- An access that succeeds only adds itself to the accesses. -/
theorem access_eq_ok (h : b.access offset n = .ok (r, c)) :
    r.size = n ∧ c = { b with accesses := b.accesses ++ [r] } := by
  unfold access at h
  split at h
  · cases h
    exact ⟨rfl, rfl⟩
  · cases h

theorem memcpy_accesses (h : b.memcpy dest ys = .ok c) :
    ∃ r : Range, r.size = ys.length ∧ c.accesses = b.accesses ++ [r] := by
  obtain ⟨⟨r, b'⟩, haccess, hrest⟩ := bind_eq_ok.mp h
  obtain ⟨hsize, rfl⟩ := access_eq_ok haccess
  cases hrest
  exact ⟨r, hsize, rfl⟩

theorem memmove_accesses (h : b.memmove dest src n = .ok c) :
    ∃ r s : Range, r.size = n ∧ s.size = n ∧ c.accesses = b.accesses ++ [r, s] := by
  obtain ⟨⟨r, b₁⟩, hread, hrest⟩ := bind_eq_ok.mp h
  obtain ⟨hr, rfl⟩ := access_eq_ok hread
  obtain ⟨⟨s, b₂⟩, hwrite, hrest⟩ := bind_eq_ok.mp hrest
  obtain ⟨hs, rfl⟩ := access_eq_ok hwrite
  cases hrest
  exact ⟨r, s, hr, hs, List.append_assoc _ _ _⟩

theorem memset_accesses (h : b.memset dest value n = .ok c) :
    ∃ r : Range, r.size = n ∧ c.accesses = b.accesses ++ [r] := by
  obtain ⟨⟨r, b'⟩, haccess, hrest⟩ := bind_eq_ok.mp h
  obtain ⟨hsize, rfl⟩ := access_eq_ok haccess
  cases hrest
  exact ⟨r, hsize, rfl⟩

end Buffer

end Yadcc.Lib
