/-
# The generator of the Bloom filter

The cache server keeps a Bloom filter of its keys. It is told of every new key, remembers
the new keys of the last hour together with the time, and is rebuilt from a list of keys
from time to time. As collecting that list takes a while, a rebuild also adds the keys that
came in recently. The filter itself is a library type of which only two facts are used: an
added key is contained, and what is contained stays so when a key is added.
-/

import Mathlib.Tactic

namespace Yadcc.Cache

/-- A Bloom filter library. -/
structure BloomLibrary where
  Filter : Type
  empty : Filter
  add : String → Filter → Filter
  possiblyContains : Filter → String → Bool

/-- There are no false negatives. -/
structure BloomLibrary.NoFalseNegatives (lib : BloomLibrary) : Prop where
  add_self : ∀ key filter, lib.possiblyContains (lib.add key filter) key = true
  add_of_contains : ∀ key key' filter, lib.possiblyContains filter key' = true →
    lib.possiblyContains (lib.add key filter) key' = true

/-- A filter that stores its keys. -/
def exactFilter : BloomLibrary where
  Filter := List String
  empty := []
  add := List.cons
  possiblyContains := List.contains

theorem exactFilter_noFalseNegatives : exactFilter.NoFalseNegatives where
  add_self key filter := List.elem_iff.mpr (List.mem_cons_self (a := key) (l := filter))
  add_of_contains key _ _ h := List.elem_iff.mpr (List.mem_cons_of_mem key (List.elem_iff.mp h))

/-- Nanoseconds of a monotonic clock. -/
abbrev Time := ℤ

def second : Time := 10 ^ 9

theorem second_pos : 0 < second := by
  norm_num [second]

/-- `newlyPopulatedKeys` are the keys added in the last hour, the newest last. -/
structure BloomFilterGenerator (lib : BloomLibrary) where
  currentBf : lib.Filter
  newlyPopulatedKeys : List (String × Time)

namespace BloomFilterGenerator

variable {lib : BloomLibrary}

/-! ## The generator -/

def kNewlyPopulatedKeyHistory : Time := 3600 * second

/-- Forget what is too old, and collect the keys of the `recent` past, the newest first. The
scan ends at the first older one. The two readings of the clock are taken as one. -/
def unsafeGetNewlyPopulatedKeys (recent now : Time) (gen : BloomFilterGenerator lib) :
    List String × BloomFilterGenerator lib :=
  let since := now - recent
  let keepSince := now - kNewlyPopulatedKeyHistory
  let kept := gen.newlyPopulatedKeys.dropWhile fun e => decide (e.2 < keepSince)
  ((kept.reverse.takeWhile fun e => !decide (e.2 < since)).map Prod.fst,
    { gen with newlyPopulatedKeys := kept })

def addKeys (keys : List String) (filter : lib.Filter) : lib.Filter :=
  keys.foldl (fun filter key => lib.add key filter) filter

/-- Replace the filter by one of `keys` and of the keys that were added lately. -/
def rebuild (keys : List String) (keyGenerationCompensation now : Time)
    (gen : BloomFilterGenerator lib) : BloomFilterGenerator lib :=
  let (compensation, gen) := gen.unsafeGetNewlyPopulatedKeys keyGenerationCompensation now
  { gen with currentBf := addKeys compensation (addKeys keys lib.empty) }

def add (cacheKey : String) (now : Time) (gen : BloomFilterGenerator lib) :
    BloomFilterGenerator lib where
  currentBf := lib.add cacheKey gen.currentBf
  newlyPopulatedKeys := gen.newlyPopulatedKeys ++ [(cacheKey, now)]

def getBloomFilter (gen : BloomFilterGenerator lib) : lib.Filter := gen.currentBf

/-! ## What the filter contains -/

def Contains (gen : BloomFilterGenerator lib) (key : String) : Prop :=
  lib.possiblyContains gen.currentBf key = true

theorem contains_addKeys_of_contains (hlib : lib.NoFalseNegatives) {key : String}
    (keys : List String) {filter : lib.Filter} (h : lib.possiblyContains filter key = true) :
    lib.possiblyContains (addKeys keys filter) key = true := by
  induction keys generalizing filter with
  | nil => exact h
  | cons k keys ih => exact ih (hlib.add_of_contains k key filter h)

theorem contains_addKeys (hlib : lib.NoFalseNegatives) {key : String} {keys : List String}
    (filter : lib.Filter) (h : key ∈ keys) :
    lib.possiblyContains (addKeys keys filter) key = true := by
  induction keys generalizing filter with
  | nil => cases h
  | cons k keys ih =>
      rcases List.mem_cons.mp h with rfl | h
      · exact contains_addKeys_of_contains hlib keys (hlib.add_self key filter)
      · exact ih (lib.add k filter) h

/-- Times do not decrease along the history, and none is in the future. -/
structure Ordered (now : Time) (gen : BloomFilterGenerator lib) : Prop where
  sorted : gen.newlyPopulatedKeys.Pairwise fun e e' => e.2 ≤ e'.2
  past : ∀ e ∈ gen.newlyPopulatedKeys, e.2 ≤ now

/-- The key was added at `since` or later. -/
def AddedSince (since : Time) (gen : BloomFilterGenerator lib) (key : String) : Prop :=
  ∃ time, since ≤ time ∧ (key, time) ∈ gen.newlyPopulatedKeys

instance (since : Time) (gen : BloomFilterGenerator lib) :
    DecidablePred (gen.AddedSince since) := fun key =>
  decidable_of_iff (∃ e ∈ gen.newlyPopulatedKeys, e.1 = key ∧ since ≤ e.2) <| by
    constructor
    · rintro ⟨⟨k, time⟩, hmem, rfl, hle⟩
      exact ⟨time, hle, hmem⟩
    · rintro ⟨time, hle, hmem⟩
      exact ⟨(key, time), hmem, rfl, hle⟩

variable {now : Time} {gen : BloomFilterGenerator lib}

theorem Ordered.mono {now' : Time} (h : gen.Ordered now) (hle : now ≤ now') :
    gen.Ordered now' :=
  ⟨h.sorted, fun e he => (h.past e he).trans hle⟩

theorem Ordered.add (h : gen.Ordered now) (key : String) : (gen.add key now).Ordered now := by
  constructor
  · apply List.pairwise_append.mpr
    refine ⟨h.sorted, List.pairwise_singleton _ _, ?_⟩
    intro e he e' he'
    rw [List.mem_singleton.mp he']
    exact h.past e he
  · intro e he
    rcases List.mem_append.mp he with he | he
    · exact h.past e he
    · rw [List.mem_singleton.mp he]

theorem Ordered.unsafeGetNewlyPopulatedKeys (h : gen.Ordered now) (recent time : Time) :
    (gen.unsafeGetNewlyPopulatedKeys recent time).2.Ordered now := by
  have hsub : (gen.newlyPopulatedKeys.dropWhile fun e =>
      decide (e.2 < time - kNewlyPopulatedKeyHistory)).Sublist gen.newlyPopulatedKeys :=
    List.dropWhile_sublist _
  exact ⟨h.sorted.sublist hsub, fun e he => h.past e (hsub.subset he)⟩

theorem Ordered.rebuild (h : gen.Ordered now) (keys : List String) (compensation time : Time) :
    (gen.rebuild keys compensation time).Ordered now := by
  have hkept := h.unsafeGetNewlyPopulatedKeys compensation time
  exact ⟨hkept.sorted, hkept.past⟩

/-- In a sorted history nothing that is young enough stands among the old entries. -/
theorem mem_dropWhile {history : List (String × Time)} {since : Time} {e : String × Time}
    (hsorted : history.Pairwise fun e e' => e.2 ≤ e'.2) (he : e ∈ history) (hle : since ≤ e.2) :
    e ∈ history.dropWhile fun e => decide (e.2 < since) := by
  induction history with
  | nil => cases he
  | cons first history ih =>
      obtain ⟨hfirst, hsorted⟩ := List.pairwise_cons.mp hsorted
      rw [List.dropWhile_cons]
      split
      · next hold =>
          rcases List.mem_cons.mp he with rfl | he
          · exact absurd (of_decide_eq_true hold) (not_lt.mpr hle)
          · exact ih hsorted he
      · exact he

/-- A scan from the newest entry backwards meets everything that is young enough. -/
theorem mem_takeWhile {history : List (String × Time)} {since : Time} {e : String × Time}
    (hsorted : history.Pairwise fun e e' => e'.2 ≤ e.2) (he : e ∈ history) (hle : since ≤ e.2) :
    e ∈ history.takeWhile fun e => !decide (e.2 < since) := by
  induction history with
  | nil => cases he
  | cons first history ih =>
      obtain ⟨hfirst, hsorted⟩ := List.pairwise_cons.mp hsorted
      have hyoung : since ≤ first.2 := by
        rcases List.mem_cons.mp he with rfl | he
        · exact hle
        · exact hle.trans (hfirst e he)
      rw [List.takeWhile_cons_of_pos (by simpa using hyoung)]
      rcases List.mem_cons.mp he with rfl | he
      · exact List.mem_cons_self
      · exact List.mem_cons_of_mem _ (ih hsorted he)

/-- Keys that were added within the asked-for time and the last hour are collected. -/
theorem mem_newlyPopulatedKeys {since recent time : Time} {key : String} (h : gen.Ordered now)
    (hadded : gen.AddedSince since key) (hrecent : time - recent ≤ since)
    (hhistory : time - kNewlyPopulatedKeyHistory ≤ since) :
    key ∈ (gen.unsafeGetNewlyPopulatedKeys recent time).1 := by
  obtain ⟨added, hsince, hmem⟩ := hadded
  have hkept := mem_dropWhile h.sorted hmem (hhistory.trans hsince)
  have hsorted := (h.unsafeGetNewlyPopulatedKeys recent time).sorted
  have hscan := mem_takeWhile (List.pairwise_reverse.mpr hsorted) (List.mem_reverse.mpr hkept)
    (hrecent.trans hsince)
  exact List.mem_map.mpr ⟨(key, added), hscan, rfl⟩

/-- A rebuilt filter contains the keys it was built from, and what came in since a moment
within the compensation. -/
theorem contains_rebuild (hlib : lib.NoFalseNegatives) {since compensation time : Time}
    {keys : List String} {key : String} (h : gen.Ordered now)
    (hkey : key ∈ keys ∨ gen.AddedSince since key) (hrecent : time - compensation ≤ since)
    (hhistory : time - kNewlyPopulatedKeyHistory ≤ since) :
    (gen.rebuild keys compensation time).Contains key := by
  rcases hkey with hkey | hadded
  · exact contains_addKeys_of_contains hlib _ (contains_addKeys hlib _ hkey)
  · exact contains_addKeys hlib _ (mem_newlyPopulatedKeys h hadded hrecent hhistory)

theorem contains_add (hlib : lib.NoFalseNegatives) (key : String) (time : Time) :
    (gen.add key time).Contains key :=
  hlib.add_self key _

theorem Contains.add (hlib : lib.NoFalseNegatives) {key : String} (h : gen.Contains key)
    (key' : String) (time : Time) : (gen.add key' time).Contains key :=
  hlib.add_of_contains key' key _ h

theorem AddedSince.add {since : Time} {key : String} (h : gen.AddedSince since key)
    (key' : String) (time : Time) : (gen.add key' time).AddedSince since key := by
  obtain ⟨added, hle, hmem⟩ := h
  exact ⟨added, hle, List.mem_append_left _ hmem⟩

theorem addedSince_add {since time : Time} (hle : since ≤ time) (key : String) :
    (gen.add key time).AddedSince since key :=
  ⟨time, hle, List.mem_append_right _ (List.mem_singleton_self _)⟩

end BloomFilterGenerator

end Yadcc.Cache
