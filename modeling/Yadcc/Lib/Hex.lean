/-
# Hexadecimal digests

A digest is written as two lower-case hexadecimal digits a byte, and texts that are hashed
are put together from a tag, a part of fixed width, a part of any length, and a last part.
This module has what makes such texts readable: the digits determine the bytes, and the
fixed widths determine the parts.
-/

import Yadcc.Lib.Shell

namespace Yadcc.Lib

open Shell (ascii)

/-! ## Digits -/

/-- The lower-case digit of a number below sixteen. -/
def hexDigit (n : ℕ) : UInt8 :=
  if n < 10 then UInt8.ofNat (48 + n) else UInt8.ofNat (87 + n)

def isHexDigit (b : UInt8) : Bool :=
  (48 ≤ b.toNat && b.toNat ≤ 57) || (97 ≤ b.toNat && b.toNat ≤ 102)

/-- The value of a digit. -/
def hexValue (b : UInt8) : ℕ := if b.toNat ≤ 57 then b.toNat - 48 else b.toNat - 87

/-- Each byte as `%02x`. -/
def hexBytes (bytes : Bytes) : Bytes :=
  bytes.flatMap fun b => [hexDigit (b.toNat / 16), hexDigit (b.toNat % 16)]

theorem hexValue_hexDigit : ∀ n < 16, hexValue (hexDigit n) = n := by decide

theorem isHexDigit_hexDigit : ∀ n < 16, isHexDigit (hexDigit n) = true := by decide

@[simp]
theorem hexBytes_nil : hexBytes [] = [] := rfl

@[simp]
theorem hexBytes_cons (b : UInt8) (bytes : Bytes) :
    hexBytes (b :: bytes) =
      hexDigit (b.toNat / 16) :: hexDigit (b.toNat % 16) :: hexBytes bytes := rfl

theorem length_hexBytes (bytes : Bytes) : (hexBytes bytes).length = 2 * bytes.length := by
  induction bytes with
  | nil => rfl
  | cons b bytes ih =>
      rw [hexBytes_cons, List.length_cons, List.length_cons, ih, List.length_cons]
      omega

theorem isHexDigit_of_mem_hexBytes {bytes : Bytes} {c : UInt8} (h : c ∈ hexBytes bytes) :
    isHexDigit c = true := by
  obtain ⟨b, -, hc⟩ := List.mem_flatMap.mp h
  have hb : b.toNat < 256 := b.toNat_lt
  rcases List.mem_pair.mp hc with rfl | rfl
  · exact isHexDigit_hexDigit _ (by omega)
  · exact isHexDigit_hexDigit _ (by omega)

theorem hexDigit_injective {m n : ℕ} (hm : m < 16) (hn : n < 16) (h : hexDigit m = hexDigit n) :
    m = n := by
  rw [← hexValue_hexDigit m hm, h, hexValue_hexDigit n hn]

theorem hexBytes_injective : Function.Injective hexBytes := by
  intro xs
  induction xs with
  | nil =>
      intro ys h
      cases ys with
      | nil => rfl
      | cons y ys => cases h
  | cons x xs ih =>
      intro ys h
      cases ys with
      | nil => cases h
      | cons y ys =>
          have hx : x.toNat < 256 := x.toNat_lt
          have hy : y.toNat < 256 := y.toNat_lt
          rw [hexBytes_cons, hexBytes_cons, List.cons.injEq, List.cons.injEq] at h
          obtain ⟨hhigh, hlow, hrest⟩ := h
          have hdiv := hexDigit_injective (by omega) (by omega) hhigh
          have hmod := hexDigit_injective (by omega) (by omega) hlow
          have hbyte : x = y := by
            apply UInt8.toNat_inj.mp
            omega
          rw [hbyte, ih hrest]

/-! ## Digests -/

/-- A hash function with digests of a fixed number of bytes. -/
structure Hash (width : ℕ) where
  digest : Bytes → Bytes
  length_digest : ∀ text, (digest text).length = width

namespace Hash

variable {width : ℕ} (h : Hash width)

/-- The digest in hexadecimal. -/
def hex (text : Bytes) : Bytes := hexBytes (h.digest text)

theorem length_hex (text : Bytes) : (h.hex text).length = 2 * width := by
  rw [hex, length_hexBytes, h.length_digest]

/-- Texts without a collision have different hexadecimal digests. -/
theorem hex_injOn {h : Hash width} {texts : Set Bytes} (hinj : Set.InjOn h.digest texts) :
    Set.InjOn h.hex texts := by
  intro x hx y hy hxy
  exact hinj hx hy (hexBytes_injective hxy)

end Hash

/-! ## Texts of several parts -/

section Parts

variable {α : Type*} {tag fixed middle last fixed' middle' last' : List α}

/-- A tag, a part of fixed width, a part of any length, and a last part. -/
def framed (tag fixed middle last : List α) : List α := [tag, fixed, middle, last].flatten

theorem framed_eq (tag fixed middle last : List α) :
    framed tag fixed middle last = tag ++ (fixed ++ (middle ++ last)) := by
  simp [framed]

/-- Where the last part is of fixed width as well, all parts are determined. -/
theorem framed_inj (hfixed : fixed.length = fixed'.length) (hlast : last.length = last'.length)
    (h : framed tag fixed middle last = framed tag fixed' middle' last') :
    fixed = fixed' ∧ middle = middle' ∧ last = last' := by
  rw [framed_eq, framed_eq, List.append_cancel_left_eq] at h
  obtain ⟨hfirst, hrest⟩ := List.append_inj h hfixed
  exact ⟨hfirst, List.append_inj' hrest hlast⟩

/-- Texts that end differently differ, whatever stands before. -/
theorem framed_ne_of_last {tag' : List α} {p : α → Prop} {c : α} (hc : middle.getLast? = some c)
    (hp : ¬p c) (hne : last' ≠ []) (hall : ∀ x ∈ last', p x) :
    framed tag fixed middle [] ≠ framed tag' fixed' middle' last' := by
  intro h
  have hend : (framed tag fixed middle []).getLast? = some c := by
    simp [framed_eq, List.getLast?_append, hc]
  have hend' : (framed tag' fixed' middle' last').getLast? = some (last'.getLast hne) := by
    simp [framed_eq, List.getLast?_append, List.getLast?_eq_some_getLast hne]
  rw [h, hend', Option.some.injEq] at hend
  exact hp (hend ▸ hall _ (List.getLast_mem hne))

/-- Texts whose tags begin differently differ. -/
theorem framed_ne_of_tag {a b : α} {tag' : List α} (hab : a ≠ b) :
    framed (a :: tag) fixed middle last ≠ framed (b :: tag') fixed' middle' last' := by
  intro h
  rw [framed_eq, framed_eq, List.cons_append, List.cons_append, List.cons.injEq] at h
  exact hab h.1

end Parts

end Yadcc.Lib
