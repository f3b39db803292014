/-
# Finite maps in the shape of an unordered map

`AList` already is a list of entries with pairwise distinct keys. What a program
does with an unordered map beyond lookup, insertion and erasure is traversal:
rewriting the mapped values in place, dropping entries by a predicate, and
counting entries. This module adds these three, each with the lookup and counting
equations that make the order of the underlying list irrelevant.
-/

import Mathlib.Data.List.AList
import Mathlib.Tactic

universe u v w

/-- A finite map with values of one type. -/
abbrev UnorderedMap (κ : Type u) (ν : Type v) := AList (fun _ : κ => ν)

namespace AList

variable {κ : Type u} {ν : Type v} {ω : Type w}

/-- Apply `f` to every mapped value; the keys stay. -/
def mapValues (f : κ → ν → ω) (m : UnorderedMap κ ν) : UnorderedMap κ ω :=
  ⟨m.entries.map fun e => ⟨e.1, f e.1 e.2⟩, by
    have hkeys : (m.entries.map fun e => (⟨e.1, f e.1 e.2⟩ : Sigma fun _ : κ => ω)).keys
        = m.entries.keys := by
      simp [List.keys, Function.comp_def]
    unfold List.NodupKeys
    rw [hkeys]
    exact m.nodupKeys⟩

/-- Keep the entries that satisfy `p`. -/
def filterEntries (p : κ → ν → Bool) (m : UnorderedMap κ ν) : UnorderedMap κ ν :=
  ⟨m.entries.filter fun e => p e.1 e.2, m.nodupKeys.sublist List.filter_sublist⟩

/-- The number of entries that satisfy `p`. -/
def count (p : κ → ν → Bool) (m : UnorderedMap κ ν) : ℕ :=
  m.entries.countP fun e => p e.1 e.2

theorem count_mapValues (p : κ → ω → Bool) (f : κ → ν → ω) (m : UnorderedMap κ ν) :
    (m.mapValues f).count p = m.count fun k v => p k (f k v) := by
  simp [count, mapValues, List.countP_map, Function.comp_def]

variable [DecidableEq κ]

theorem lookup_eq_some_iff {m : UnorderedMap κ ν} {k : κ} {v : ν} :
    m.lookup k = some v ↔ ⟨k, v⟩ ∈ m.entries :=
  mem_lookup_iff

theorem lookup_insert_eq (m : UnorderedMap κ ν) (k k' : κ) (v : ν) :
    (m.insert k v).lookup k' = if k' = k then some v else m.lookup k' := by
  split
  · next h => subst h; exact lookup_insert m
  · next h => exact lookup_insert_ne h

theorem lookup_erase_eq (m : UnorderedMap κ ν) (k k' : κ) :
    (m.erase k).lookup k' = if k' = k then none else m.lookup k' := by
  split
  · next h => subst h; exact lookup_erase _ m
  · next h => exact lookup_erase_ne h

@[simp]
theorem lookup_mapValues (f : κ → ν → ω) (m : UnorderedMap κ ν) (k : κ) :
    (m.mapValues f).lookup k = (m.lookup k).map (f k) := by
  cases h : m.lookup k with
  | none =>
      rw [lookup_eq_none, mem_keys] at h
      rw [Option.map_none, lookup_eq_none, mem_keys]
      simpa [mapValues, keys, List.keys, Function.comp_def] using h
  | some v =>
      rw [lookup_eq_some_iff] at h
      rw [Option.map_some, lookup_eq_some_iff]
      exact List.mem_map.mpr ⟨⟨k, v⟩, h, rfl⟩

theorem lookup_filterEntries (p : κ → ν → Bool) (m : UnorderedMap κ ν) (k : κ) :
    (m.filterEntries p).lookup k = (m.lookup k).filter (p k) := by
  ext v
  rw [lookup_eq_some_iff, Option.filter_eq_some_iff, lookup_eq_some_iff]
  simp [filterEntries]

theorem erase_of_lookup_none {m : UnorderedMap κ ν} {k : κ} (h : m.lookup k = none) :
    m.erase k = m := by
  apply AList.ext
  exact List.kerase_of_notMem_keys (lookup_eq_none.mp h)

/-- Change the value of a key, if there is one. -/
def modify (k : κ) (f : ν → ν) (m : UnorderedMap κ ν) : UnorderedMap κ ν :=
  match m.lookup k with
  | none => m
  | some v => m.insert k (f v)

theorem lookup_modify (m : UnorderedMap κ ν) (k k' : κ) (f : ν → ν) :
    (m.modify k f).lookup k' = if k' = k then (m.lookup k).map f else m.lookup k' := by
  unfold modify
  split
  · next h =>
      split
      · next heq => rw [heq, h]; rfl
      · rfl
  · next v h =>
      rw [lookup_insert_eq, h]
      rfl

theorem count_insert (p : κ → ν → Bool) (m : UnorderedMap κ ν) (k : κ) (v : ν) :
    (m.insert k v).count p = (m.erase k).count p + if p k v then 1 else 0 := by
  rw [count, entries_insert, List.countP_cons]
  rfl

/-- Taking out one entry lowers the count by one exactly when the entry is counted. -/
theorem count_erase_add (p : κ → ν → Bool) {m : UnorderedMap κ ν} {k : κ} {v : ν}
    (h : m.lookup k = some v) :
    (m.erase k).count p + (if p k v then 1 else 0) = m.count p := by
  have hmem : k ∈ m.entries.keys := lookup_isSome.mp (by rw [h]; rfl)
  obtain ⟨w, before, after, hnot, hsplit, herase⟩ := List.exists_of_kerase hmem
  have hw : w = v := by
    have hw' : m.lookup k = some w := by
      rw [lookup_eq_some_iff, hsplit]
      simp
    exact Option.some.inj (hw'.symm.trans h)
  subst hw
  change (List.kerase k m.entries).countP _ + _ = _
  rw [herase, count, hsplit, List.countP_append, List.countP_append, List.countP_cons]
  dsimp only
  omega

/-- The count depends only on the entries that satisfy the predicate. -/
theorem count_congr {p : κ → ν → Bool} {m m' : UnorderedMap κ ν}
    (h : ∀ k, (m.lookup k).filter (p k) = (m'.lookup k).filter (p k)) :
    m.count p = m'.count p := by
  have hlength : ∀ n : UnorderedMap κ ν, n.count p = (n.filterEntries p).entries.length := by
    intro n
    exact List.countP_eq_length_filter
  rw [hlength, hlength]
  apply List.Perm.length_eq
  apply List.lookup_ext (m.filterEntries p).nodupKeys (m'.filterEntries p).nodupKeys
  intro k v
  have hk : (m.filterEntries p).lookup k = (m'.filterEntries p).lookup k := by
    rw [lookup_filterEntries, lookup_filterEntries, h]
  change v ∈ (m.filterEntries p).lookup k ↔ v ∈ (m'.filterEntries p).lookup k
  rw [hk]

/-- Counts agree when the predicates agree at every key. -/
theorem count_map_congr {p : κ → ν → Bool} {q : κ → ω → Bool} {m : UnorderedMap κ ν}
    {n : UnorderedMap κ ω} (h : ∀ k, (m.lookup k).map (p k) = (n.lookup k).map (q k)) :
    m.count p = n.count q := by
  have hm : m.count p = (m.mapValues p).count fun _ b => b := by
    rw [count_mapValues]
  have hn : n.count q = (n.mapValues q).count fun _ b => b := by
    rw [count_mapValues]
  rw [hm, hn]
  apply count_congr
  intro k
  rw [lookup_mapValues, lookup_mapValues, h k]

/-- Two predicates that differ at one key count the rest alike. -/
theorem count_add_of_eq_off {p q : κ → ν → Bool} {m : UnorderedMap κ ν} {k : κ} {v : ν}
    (h : m.lookup k = some v) (hoff : ∀ k' v', k' ≠ k → p k' v' = q k' v') :
    m.count p + (if q k v then 1 else 0) = m.count q + (if p k v then 1 else 0) := by
  have herase : (m.erase k).count p = (m.erase k).count q := by
    apply count_map_congr
    intro k'
    rw [lookup_erase_eq]
    split
    · rfl
    · next hk =>
        congr 1
        funext v'
        exact hoff k' v' hk
  rw [← count_erase_add p h, ← count_erase_add q h, herase]
  omega

theorem count_mono {p q : κ → ν → Bool} {m : UnorderedMap κ ν}
    (h : ∀ k v, m.lookup k = some v → p k v = true → q k v = true) :
    m.count p ≤ m.count q := by
  apply List.countP_mono_left
  intro e he hp
  exact h e.1 e.2 (lookup_eq_some_iff.mpr he) hp

/-- A map with fewer entries counts no more of them. -/
theorem count_le_of_lookup (p : κ → ν → Bool) {m m' : UnorderedMap κ ν}
    (h : ∀ k v, m.lookup k = some v → m'.lookup k = some v) : m.count p ≤ m'.count p := by
  have hsub : m.entries ⊆ m'.entries := by
    rintro ⟨k, v⟩ hmem
    exact lookup_eq_some_iff.mp (h k v (lookup_eq_some_iff.mpr hmem))
  exact (m.nodupKeys.nodup.subperm hsub).countP_le _

/-- An entry that satisfies `p` is counted. -/
theorem count_pos {p : κ → ν → Bool} {m : UnorderedMap κ ν} {k : κ} {v : ν}
    (h : m.lookup k = some v) (hp : p k v = true) : 0 < m.count p :=
  List.countP_pos_iff.mpr ⟨⟨k, v⟩, lookup_eq_some_iff.mp h, hp⟩

end AList
