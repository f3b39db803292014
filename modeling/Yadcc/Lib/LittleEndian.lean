/-
# Numbers as little-endian bytes

A number is written with a fixed count of bytes, the lowest first; what does not fit is lost.
-/

import Mathlib.Tactic

namespace Yadcc.Lib

/-- The low bytes of a number, the lowest first. -/
def littleEndian : ℕ → ℕ → List UInt8
  | 0, _ => []
  | count + 1, n => UInt8.ofNat n :: littleEndian count (n / 256)

def ofLittleEndian : List UInt8 → ℕ
  | [] => 0
  | b :: bytes => b.toNat + 256 * ofLittleEndian bytes

@[simp] theorem length_littleEndian (count n : ℕ) : (littleEndian count n).length = count := by
  induction count generalizing n with
  | zero => rfl
  | succ count ih => rw [littleEndian, List.length_cons, ih]

/-- Reading back yields the number as far as it fits. -/
theorem ofLittleEndian_littleEndian (count n : ℕ) :
    ofLittleEndian (littleEndian count n) = n % 256 ^ count := by
  induction count generalizing n with
  | zero => rw [pow_zero, Nat.mod_one]; rfl
  | succ count ih =>
      calc
        ofLittleEndian (littleEndian (count + 1) n) = n % 256 + 256 * (n / 256 % 256 ^ count) := by
          rw [littleEndian, ofLittleEndian, ih, UInt8.toNat_ofNat']
        _ = n % 256 ^ (count + 1) := by
          rw [pow_succ', Nat.mod_mul]

theorem ofLittleEndian_littleEndian_of_lt {count n : ℕ} (h : n < 256 ^ count) :
    ofLittleEndian (littleEndian count n) = n := by
  rw [ofLittleEndian_littleEndian, Nat.mod_eq_of_lt h]

end Yadcc.Lib
