/-
# Sums and differences of unsigned words

A difference of two unsigned words wraps around below zero. Read back as a signed word it is
right again as long as both words are below half the range, so that clamping it at zero
yields the truncated difference. For longer computations a word stands for an integer modulo
the size of the range, and is read back at the end.
-/

import Mathlib.Tactic

namespace UInt64

theorem toInt_toInt64_sub {x y : UInt64} (hx : x.toNat < 2 ^ 63) (hy : y.toNat < 2 ^ 63) :
    (x - y).toInt64.toInt = x.toNat - y.toNat := by
  have hbmod : (x - y).toInt64.toInt = ((x.toNat : ℤ) - y.toNat).bmod (2 ^ 64) := by
    change (x.toBitVec - y.toBitVec).toInt = _
    rw [BitVec.toInt_sub, BitVec.toInt_eq_toNat_bmod, BitVec.toInt_eq_toNat_bmod,
      Int.bmod_sub_bmod, Int.sub_bmod_bmod]
    rfl
  rw [hbmod]
  apply Int.bmod_eq_of_le
  · omega
  · omega

/-- Clamping a signed word at zero takes the part above zero. -/
theorem toNat_max_zero (i : Int64) : (max i 0).toUInt64.toNat = i.toInt.toNat := by
  have hmax : max i 0 = if i ≤ 0 then 0 else i := rfl
  rw [hmax]
  split
  · next h =>
      have hle : i.toInt ≤ 0 := Int64.le_iff_toInt_le.mp h
      rw [Int.toNat_of_nonpos hle]
      rfl
  · next h =>
      have hle : 0 ≤ i := by
        rw [Int64.le_iff_toInt_le] at h ⊢
        change ¬i.toInt ≤ 0 at h
        change 0 ≤ i.toInt
        omega
      exact Int64.toNat_toUInt64_of_le hle

theorem toNat_clampedSub {x y : UInt64} (hx : x.toNat < 2 ^ 63) (hy : y.toNat < 2 ^ 63) :
    (max (x - y).toInt64 0).toUInt64.toNat = x.toNat - y.toNat := by
  rw [toNat_max_zero, toInt_toInt64_sub hx hy]
  omega

/-- The word is the integer, up to a multiple of the size of the range. -/
def Represents (w : UInt64) (i : ℤ) : Prop := (w.toNat : ℤ) = i % 2 ^ 64

section Represents

variable {v w : UInt64} {i j : ℤ}

theorem represents_toNat (w : UInt64) : Represents w w.toNat := by
  have hlt := w.toNat_lt
  unfold Represents
  omega

theorem Represents.add (hv : Represents v i) (hw : Represents w j) :
    Represents (v + w) (i + j) := by
  unfold Represents at hv hw ⊢
  rw [UInt64.toNat_add]
  omega

theorem Represents.sub (hv : Represents v i) (hw : Represents w j) :
    Represents (v - w) (i - j) := by
  have hlt := w.toNat_lt
  unfold Represents at hv hw ⊢
  rw [UInt64.toNat_sub]
  omega

/-- A sum that is built up in a loop. -/
theorem Represents.foldl {α : Type*} {f : α → UInt64} {g : α → ℤ} (hv : Represents v i)
    (as : List α) (h : ∀ a ∈ as, Represents (f a) (g a)) :
    Represents (as.foldl (fun total a => total + f a) v) (i + (as.map g).sum) := by
  induction as generalizing v i with
  | nil => simpa using hv
  | cons a as ih =>
      obtain ⟨ha, has⟩ := List.forall_mem_cons.mp h
      rw [List.foldl_cons, List.map_cons, List.sum_cons, ← add_assoc]
      exact ih (hv.add ha) has

theorem Represents.toNat (h : Represents w i) (hlower : 0 ≤ i) (hupper : i < 2 ^ 64) :
    (w.toNat : ℤ) = i :=
  Eq.trans h (Int.emod_eq_of_lt hlower hupper)

theorem Represents.toInt (h : Represents w i) (hlower : -2 ^ 63 ≤ i) (hupper : i < 2 ^ 63) :
    w.toInt64.toInt = i := by
  have hbmod : w.toInt64.toInt = (w.toNat : ℤ).bmod (2 ^ 64) :=
    BitVec.toInt_eq_toNat_bmod w.toBitVec
  unfold Represents at h
  rw [hbmod, h, Int.bmod_def]
  split <;> omega

end Represents

end UInt64

namespace UInt32

/-- A small number keeps its value as a 32-bit word. -/
theorem toNat_ofInt {q : ℤ} (hlower : 0 ≤ q) (hupper : q < 2 ^ 32) :
    ((UInt32.ofInt q).toNat : ℤ) = q := by
  rw [UInt32.ofInt, UInt32.toNat_ofNat', Int.emod_eq_of_lt hlower hupper]
  omega

end UInt32
