/-
# The arithmetic of the adaptive target

A put of a key that is remembered in a phantom list moves the adaptive target by the size
of the buffer, scaled with the quotient of the two phantom lists. The code divides, adds
and converts back to `std::size_t` before it clamps. Here the quotients are exact, a
division by zero and a value that `std::size_t` cannot hold are errors, and what makes
every put of a run free of them is a relation between sizes.
-/

import Yadcc.Cache.InMemoryCacheInvariant
import Mathlib.Algebra.Order.Floor.Semifield
import Mathlib.Data.Rat.Floor

namespace Yadcc.Cache

open Yadcc.Lib

/-! ## The computation -/

inductive NumericFault
  | divisionByZero
  | outOfRange
  deriving DecidableEq

/-- How fast the target moves on a hit in a phantom list, by the sizes of that list and
of the other one. -/
def learningRate (own other : ℕ) : Except NumericFault ℚ :=
  if own < other then
    if own = 0 then .error .divisionByZero else .ok (other / own)
  else .ok 1

/-- Conversion to `std::size_t`, which drops the fraction. -/
def toSize (x : ℚ) : Except NumericFault ℕ :=
  if ⌊x⌋₊ < 2 ^ 64 then .ok ⌊x⌋₊ else .error .outOfRange

/-- The adaptive target after a phantom hit, as the code computes it. -/
def updateAdaptive (maxSize : ℕ) (i : PhantomIndex) (bufferSize once moreThanOnce adaptive : ℕ) :
    Except NumericFault ℕ :=
  match i with
  | .one => do
      let ratio ← learningRate once moreThanOnce
      let raised ← toSize (adaptive + bufferSize * ratio)
      return min raised maxSize
  | .two => do
      let ratio ← learningRate moreThanOnce once
      let bufferSize ← toSize (bufferSize * ratio)
      return if bufferSize < adaptive then adaptive - bufferSize else 0

/-- A size times a learning rate. -/
def scaled (own other size : ℕ) : ℕ := if own < other then size * other / own else size

/-- The scaled size is defined and stays below the headroom. -/
def Scalable (own other size headroom : ℕ) : Prop :=
  own < other → 0 < own ∧ size * other < headroom * own

instance (own other size headroom : ℕ) : Decidable (Scalable own other size headroom) :=
  inferInstanceAs (Decidable (_ → _))

/-- Scaling by an exact quotient and dropping the fraction is a division of integers. -/
theorem floor_scaled (base size own other : ℕ) :
    ⌊(base : ℚ) + size * (other / own)⌋₊ = base + size * other / own := by
  have hquotient : (size : ℚ) * (other / own) = ((size * other : ℕ) : ℚ) / own := by
    push_cast
    ring
  rw [hquotient, add_comm, Nat.floor_add_natCast (by positivity), Nat.floor_div_eq_div, add_comm]

/-- A size is scaled without a fault if and only if the lists and the headroom allow it. -/
theorem toSize_scaled_iff {own other size base : ℕ} (hfits : base + size < 2 ^ 64) (v : ℕ) :
    (learningRate own other >>= fun ratio => toSize (base + size * ratio)) = .ok v ↔
      Scalable own other size (2 ^ 64 - base) ∧ v = base + scaled own other size := by
  unfold learningRate scaled
  by_cases hlt : own < other
  · have hscalable : Scalable own other size (2 ^ 64 - base) ↔
        0 < own ∧ size * other < (2 ^ 64 - base) * own := forall_prop_of_true hlt
    rw [if_pos hlt, if_pos hlt, hscalable]
    by_cases hzero : own = 0
    · simp [hzero]
    · have hpos : 0 < own := Nat.pos_of_ne_zero hzero
      have hroom : base + size * other / own < 2 ^ 64 ↔
          size * other < (2 ^ 64 - base) * own := by
        rw [← Nat.div_lt_iff_lt_mul hpos]
        omega
      rw [if_neg hzero, ok_bind]
      unfold toSize
      rw [floor_scaled, ← hroom]
      by_cases hle : base + size * other / own < 2 ^ 64
      · rw [if_pos hle]
        exact ⟨fun h => ⟨⟨hpos, hle⟩, (Except.ok.inj h).symm⟩, fun h => congrArg _ h.2.symm⟩
      · rw [if_neg hle]
        exact iff_of_false (fun h => by cases h) fun h => hle h.1.2
  · have hscalable : Scalable own other size (2 ^ 64 - base) := fun h => absurd h hlt
    have hfloor : ⌊(base : ℚ) + size * 1⌋₊ = base + size := by
      rw [mul_one, ← Nat.cast_add, Nat.floor_natCast]
    rw [if_neg hlt, if_neg hlt, ok_bind]
    unfold toSize
    rw [hfloor, if_pos hfits]
    exact ⟨fun h => ⟨hscalable, (Except.ok.inj h).symm⟩, fun h => congrArg _ h.2.symm⟩

/-- What is done with the scaled size afterwards does not matter. -/
theorem scaled_bind_iff (own other : ℕ) {size base : ℕ} (hfits : base + size < 2 ^ 64) (f : ℕ → ℕ)
    (v : ℕ) : (do
        let ratio ← learningRate own other
        let n ← toSize (base + size * ratio)
        return f n : Except NumericFault ℕ) = .ok v ↔
      Scalable own other size (2 ^ 64 - base) ∧ v = f (base + scaled own other size) := by
  constructor
  · intro h
    obtain ⟨ratio, hratio, h⟩ := bind_eq_ok.mp h
    obtain ⟨n, hn, h⟩ := bind_eq_ok.mp h
    obtain ⟨hscalable, rfl⟩ := (toSize_scaled_iff hfits n).mp (bind_eq_ok.mpr ⟨ratio, hratio, hn⟩)
    exact ⟨hscalable, (Except.ok.inj h).symm⟩
  · rintro ⟨hscalable, rfl⟩
    obtain ⟨ratio, hratio, hn⟩ := bind_eq_ok.mp ((toSize_scaled_iff hfits _).mpr ⟨hscalable, rfl⟩)
    exact bind_eq_ok.mpr ⟨ratio, hratio, bind_eq_ok.mpr ⟨_, hn, rfl⟩⟩

/-- What a phantom hit needs for its computation to go through. -/
def Computable (i : PhantomIndex) (bufferSize once moreThanOnce adaptive : ℕ) : Prop :=
  match i with
  | .one => Scalable once moreThanOnce bufferSize (2 ^ 64 - adaptive)
  | .two => Scalable moreThanOnce once bufferSize (2 ^ 64)

instance (bufferSize once moreThanOnce adaptive : ℕ) :
    ∀ i, Decidable (Computable i bufferSize once moreThanOnce adaptive)
  | .one => inferInstanceAs (Decidable (Scalable ..))
  | .two => inferInstanceAs (Decidable (Scalable ..))

/-- The computation goes through if and only if its scaling does, and then moves the target
as the model of the cache does. -/
theorem updateAdaptive_iff {maxSize bufferSize adaptive : ℕ} (hmax : maxSize < 2 ^ 63)
    (hbuffer : bufferSize ≤ maxSize) (hadaptive : adaptive ≤ maxSize) (i : PhantomIndex)
    (once moreThanOnce v : ℕ) :
    updateAdaptive maxSize i bufferSize once moreThanOnce adaptive = .ok v ↔
      Computable i bufferSize once moreThanOnce adaptive ∧
        v = ratioUpdate.update maxSize i bufferSize once moreThanOnce adaptive := by
  cases i with
  | one => exact scaled_bind_iff once moreThanOnce (by omega) (fun raised => min raised maxSize) v
  | two =>
      have hfits : 0 + bufferSize < 2 ^ 64 := by omega
      have hscaled := scaled_bind_iff moreThanOnce once hfits
        (fun n => if n < adaptive then adaptive - n else 0) v
      simp only [Nat.cast_zero, zero_add, Nat.sub_zero] at hscaled
      exact hscaled

/-! ## Runs -/

/-- A call on the cache. -/
inductive Call
  | put (key : String) (buffer : Buffer)
  | tryGet (key : String)
  | remove (keys : List String)

namespace InMemoryCache

variable {c c' : InMemoryCache}

/-- The call as one of the model, which takes the exact update. -/
def opOf : Call → Op
  | .put key buffer => .put ratioUpdate key buffer
  | .tryGet key => .tryGet key
  | .remove keys => .remove keys

/-- The phantom list in which a call finds its key, if it comes to that, with the size of
the new buffer. -/
def phantomHit (c : InMemoryCache) : Call → Option (PhantomIndex × ℕ)
  | .put key buffer =>
      if buffer.length ≤ c.maxSizeInBytes ∧ c.memoryBufferMapper.lookup key = none then
        (c.phantomEntryMapper.lookup key).map fun found => (found.1, buffer.length)
      else none
  | .tryGet _ => none
  | .remove _ => none

/-- The adaptive target after a phantom hit. -/
def newTarget (c : InMemoryCache) (i : PhantomIndex) (bufferSize : ℕ) : Except NumericFault ℕ :=
  updateAdaptive c.maxSizeInBytes i bufferSize (c.sizeOf .hitOncePhantom)
    (c.sizeOf .moreThanOncePhantom) c.adaptiveSizeOfOnce

theorem phantomHit_cases {key : String} {buffer : Buffer} {i : PhantomIndex} {size : ℕ}
    (h : c.phantomHit (.put key buffer) = some (i, size)) : size = buffer.length ∧
      buffer.length ≤ c.maxSizeInBytes ∧ c.memoryBufferMapper.lookup key = none ∧
      ∃ iter, c.phantomEntryMapper.lookup key = some (i, iter) := by
  simp only [phantomHit] at h
  split at h
  · next hcond =>
      obtain ⟨⟨j, iter⟩, hphantom, heq⟩ := Option.map_eq_some_iff.mp h
      cases heq
      exact ⟨rfl, hcond.1, hcond.2, iter, hphantom⟩
  · cases h

/-- The arithmetic around the adaptive target does what that of the integers does. -/
structure Exact (c : InMemoryCache) (call : Call) : Prop where
  target : ∀ i size, c.phantomHit call = some (i, size) →
    c.newTarget i size = .ok (c.adapted ratioUpdate i size).adaptiveSizeOfOnce ∧
      (c.adapted ratioUpdate i size).adaptiveSizeOfOnce ≤ c.maxSizeInBytes
  adaptive_le : c.adaptiveSizeOfOnce ≤ c.maxSizeInBytes
  twice : 2 * c.maxSizeInBytes < 2 ^ 64

/-- The sizes allow a phantom hit, if the call is one. -/
def Allows (c : InMemoryCache) (call : Call) : Prop :=
  ∀ hit ∈ c.phantomHit call, Computable hit.1 hit.2 (c.sizeOf .hitOncePhantom)
    (c.sizeOf .moreThanOncePhantom) c.adaptiveSizeOfOnce

instance (c : InMemoryCache) (call : Call) : Decidable (c.Allows call) :=
  inferInstanceAs (Decidable (∀ hit ∈ c.phantomHit call, Computable _ _ _ _ _))

theorem phantomHit_le {call : Call} {i : PhantomIndex} {size : ℕ}
    (h : c.phantomHit call = some (i, size)) : size ≤ c.maxSizeInBytes := by
  cases call with
  | put key buffer =>
      obtain ⟨rfl, hsize, -⟩ := phantomHit_cases h
      exact hsize
  | tryGet key => cases h
  | remove keys => cases h

theorem exact_iff_allows (hc : WellFormed c) (hmax : c.maxSizeInBytes < 2 ^ 63) (call : Call) :
    Exact c call ↔ c.Allows call := by
  constructor
  · rintro ⟨htarget, -, -⟩ ⟨i, size⟩ hhit
    have hupdate := (htarget i size hhit).1
    exact ((updateAdaptive_iff hmax (phantomHit_le hhit) hc.adaptive_le i _ _ _).mp hupdate).1
  · intro h
    refine ⟨fun i size hhit => ⟨?_, ?_⟩, hc.adaptive_le, by omega⟩
    · exact (updateAdaptive_iff hmax (phantomHit_le hhit) hc.adaptive_le i _ _ _).mpr
        ⟨h (i, size) hhit, rfl⟩
    · exact (hc.adapted ratioUpdate i size).adaptive_le

/-- What holds of every call of a run, in the state it is made in. -/
def Along (P : InMemoryCache → Call → Prop) : List Call → InMemoryCache → Prop
  | [], _ => True
  | call :: calls, c =>
      P c call ∧ ∀ reply c', apply c (opOf call) = .ok (reply, c') → Along P calls c'

instance decidableAlong (P : InMemoryCache → Call → Prop) [∀ c call, Decidable (P c call)] :
    ∀ calls c, Decidable (Along P calls c)
  | [], _ => .isTrue trivial
  | call :: calls, c =>
      match happly : apply c (opOf call) with
      | .error _ => decidable_of_iff (P c call) (by simp [Along, happly])
      | .ok (_, c') =>
          have := decidableAlong P calls c'
          decidable_of_iff (P c call ∧ Along P calls c') (by simp [Along, happly])

/-- On an invariant that every call keeps, what follows for a call follows for a run. -/
theorem along_mono {P Q : InMemoryCache → Call → Prop} {J : InMemoryCache → Prop}
    (hstep : ∀ c call reply c', J c → apply c (opOf call) = .ok (reply, c') → J c')
    (himp : ∀ c call, J c → P c call → Q c call) (calls : List Call) :
    ∀ {c : InMemoryCache}, J c → Along P calls c → Along Q calls c := by
  induction calls with
  | nil =>
      intro c _ _
      trivial
  | cons call calls ih =>
      rintro c hc ⟨hcall, hcalls⟩
      refine ⟨himp c call hc hcall, fun reply c' happly => ?_⟩
      exact ih (hstep c call reply c' hc happly) (hcalls reply c' happly)

/-- What a run from the empty cache keeps. -/
theorem kept_of_apply (maxSize : ℕ) (c : InMemoryCache) (call : Call) (reply : Reply)
    (c' : InMemoryCache) (h : Invariant c ∧ c.maxSizeInBytes = maxSize)
    (happly : apply c (opOf call) = .ok (reply, c')) :
    Invariant c' ∧ c'.maxSizeInBytes = maxSize := by
  obtain ⟨reply', c₁, happly', hc₁, hsize₁⟩ := apply_ok h.1 (opOf call)
  cases happly.symm.trans happly'
  exact ⟨hc₁, hsize₁.trans h.2⟩

/-- In a run of any calls, with a maximum below two to the 63rd, nothing goes wrong in the
arithmetic if and only if every phantom hit finds sizes that allow it: when the list that
holds the key is the smaller one it is not empty, and the scaled size fits. -/
theorem exact_iff (maxSize : ℕ) (hmax : maxSize < 2 ^ 63) (calls : List Call) :
    Along Exact calls (empty maxSize) ↔ Along Allows calls (empty maxSize) := by
  have hiff : ∀ c call, (Invariant c ∧ c.maxSizeInBytes = maxSize) →
      (Exact c call ↔ Allows c call) := by
    rintro c call ⟨hc, hsize⟩
    exact exact_iff_allows hc.toWellFormed (by omega) call
  constructor
  · exact along_mono (kept_of_apply maxSize) (fun c call hc => (hiff c call hc).mp) calls
      ⟨.empty maxSize, rfl⟩
  · exact along_mono (kept_of_apply maxSize) (fun c call hc => (hiff c call hc).mpr) calls
      ⟨.empty maxSize, rfl⟩

/-- A phantom of one byte against five of the other list. -/
theorem exact_of_one_byte : Along Exact [.put "z" [0], .put "a" [1, 2, 3, 4, 5], .tryGet "a",
    .put "b" [1, 2, 3, 4, 5, 6], .put "b" [1, 2, 3, 4, 5], .put "z" [0]] (empty 10) :=
  (exact_iff 10 (by norm_num) _).mpr (by decide)

/-- With an empty phantom the sixth call divides by zero. -/
theorem division_by_zero_of_empty : (applyAll [.put ratioUpdate "z" [],
      .put ratioUpdate "a" [1, 2, 3, 4, 5], .tryGet "a", .put ratioUpdate "b" [1, 2, 3, 4, 5, 6],
      .put ratioUpdate "b" [1, 2, 3, 4, 5]] (empty 10)).map
        (fun r => (r.2.phantomHit (.put "z" [0]), r.2.newTarget .one 1))
    = .ok (some (.one, 1), .error .divisionByZero) := by
  decide

end InMemoryCache

end Yadcc.Cache
