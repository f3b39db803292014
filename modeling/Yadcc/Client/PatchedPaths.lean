/-
# The servant's paths that are left in a patched file

The servant reports where its directory stands in an output file, so that the client can
replace it. It goes on behind the end of a string once it has looked at the first occurrence
in it, whether it reported that one or not. This module tells exactly when every occurrence
is covered, so that a patched file does not name the servant's directory any more.
-/

import Yadcc.Client.CompilationSaas

namespace Yadcc.Client

open Yadcc.Lib
open Yadcc.Lib.Shell (asciiBytes)
open Yadcc.Daemon.Cloud (Location Occurrence Occurrences First findAllPathLocation pathMax
  ne_zero_of_occurs getElem?_of_occurs terminator_unique)

variable {f g pathPrefix desiredPath : Bytes} {locations : List Location}

/-- The locations are in order and apart, each is a string with the prefix, and the beginning
that is replaced covers the beginning of every occurrence whose string ends near enough. When
they are patched, an occurrence of the prefix in such a string has part of a new path in it,
or the place where an empty one is. -/
structure FindsAll (f pathPrefix : Bytes) (locations : List Location) : Prop where
  sorted : locations.Pairwise fun l m => l.position < m.position
  disjoint : locations.Pairwise fun l m => (range l).Disjoint (range m)
  place : ∀ l ∈ locations, Occurrence f pathPrefix l.position (l.position + l.totalSize)
  kept : ∀ l ∈ locations, l.totalSize = pathPrefix.length + l.suffixToKeep
  covered : ∀ p stop, Occurrence f pathPrefix p stop →
    ∃ l ∈ locations, l.position ≤ p ∧ p < l.position + pathPrefix.length
  replaced : ∀ desiredPath g, desiredPath.length ≤ pathPrefix.length →
    Patched f locations desiredPath g → ∀ p stop, Occurrence g pathPrefix p stop →
    ∃ l ∈ locations, p < l.position + desiredPath.length ∧ l.position < p + pathPrefix.length

/-- Where the end of a string is near enough to some occurrence, it is near enough to the first
one in the string, which begins within the first 4 GiB and overlaps the other one. -/
def FirstOnly (f pathPrefix : Bytes) : Prop :=
  ∀ p stop, Occurrence f pathPrefix p stop →
    ∃ q, First f pathPrefix q ∧ Occurrence f pathPrefix q stop ∧ q ≤ p ∧
      p < q + pathPrefix.length ∧ q < 2 ^ 32

/-! ## Patched files -/

section Patched

/-- A prefix occurs where its bytes stand. -/
theorem occurs_of_getElem? {p : ℕ}
    (h : ∀ i < pathPrefix.length, f[p + i]? = pathPrefix[i]?) : pathPrefix <+: f.drop p := by
  rw [List.prefix_iff_eq_take]
  apply List.ext_getElem?
  intro i
  rw [List.getElem?_take, List.getElem?_drop]
  split
  · next hlt => exact (h i hlt).symm
  · next hle => exact List.getElem?_eq_none (by omega)

/-- What stands in a location of a patched file behind the path: the suffix, and then NULs. -/
theorem Patched.behind (hpatched : Patched f locations desiredPath g) {l : Location}
    (hl : l ∈ locations) (hkept : l.totalSize = pathPrefix.length + l.suffixToKeep)
    (hroom : desiredPath.length ≤ pathPrefix.length) (hin : l.position + l.totalSize ≤ f.length) :
    (∀ i, i < l.suffixToKeep → g[l.position + desiredPath.length + i]?
      = f[l.position + pathPrefix.length + i]?) ∧
    ∀ i, l.position + desiredPath.length + l.suffixToKeep ≤ i → i < l.position + l.totalSize →
      g[i]? = some 0 := by
  have hinside := hpatched.inside l hl
  have hsource : l.position + l.totalSize - l.suffixToKeep = l.position + pathPrefix.length := by
    omega
  have hbyte : ∀ j < l.totalSize, g[l.position + j]? = (patched f desiredPath l)[j]? := by
    intro j hj
    rw [← hinside, getElem?_slice, if_pos hj]
  have hslice : (slice f (l.position + pathPrefix.length) l.suffixToKeep).length
      = l.suffixToKeep := length_slice (by omega)
  constructor
  · intro i hi
    rw [Nat.add_assoc, hbyte _ (by omega), patched, hsource, List.append_assoc,
      List.getElem?_append_right (by omega), Nat.add_sub_cancel_left,
      List.getElem?_append_left (by omega), getElem?_slice, if_pos hi]
  · intro i hle hlt
    have hi := hbyte (i - l.position) (by omega)
    rw [Nat.add_sub_cancel' (by omega)] at hi
    rw [hi, patched, hsource, List.getElem?_append_right (by
      rw [List.length_append, hslice]
      omega), List.getElem?_replicate, if_pos (by
      rw [List.length_append, hslice]
      omega)]

/-- A NUL of the file is in no location, so patching leaves it. -/
theorem Patched.zero (hpatched : Patched f locations desiredPath g)
    (hplace : ∀ l ∈ locations, Occurrence f pathPrefix l.position (l.position + l.totalSize))
    {i : ℕ} (hzero : f[i]? = some 0) : g[i]? = some 0 := by
  rw [hpatched.outside i]
  · exact hzero
  · intro l hl hcontains
    exact (hplace l hl).inside i hcontains.1 hcontains.2 hzero

/-- A prefix in a location of a patched file, behind the new path, stood in the suffix that was
kept. -/
theorem Patched.occurrence_inside (hne : pathPrefix ≠ [])
    (hpatched : Patched f locations desiredPath g) {l : Location} (hl : l ∈ locations)
    (hplace : ∀ l ∈ locations, Occurrence f pathPrefix l.position (l.position + l.totalSize))
    (hkept : l.totalSize = pathPrefix.length + l.suffixToKeep)
    (hroom : desiredPath.length ≤ pathPrefix.length) {p stop : ℕ}
    (hoccurrence : Occurrence g pathPrefix p stop) (hbehind : l.position + desiredPath.length ≤ p)
    (hbefore : p < l.position + l.totalSize) :
    ∃ p', l.position + pathPrefix.length ≤ p' ∧ p' < l.position + l.totalSize ∧
      Occurrence f pathPrefix p' (l.position + l.totalSize) := by
  have hoccurs := hplace l hl
  have hin := hoccurs.stop_lt
  obtain ⟨hsuffix, hzeros⟩ := hpatched.behind hl hkept hroom hin.le
  have hend : g[l.position + l.totalSize]? = some 0 :=
    hpatched.zero hplace hoccurs.terminated
  have hshort := hoccurs.short
  have hlong := hoccurrence.long
  have hpositive := List.length_pos_of_ne_nil hne
  -- The prefix has no NUL, so it ends with the suffix at the latest.
  have hfits : p + pathPrefix.length ≤ l.position + desiredPath.length + l.suffixToKeep := by
    by_contra hover
    by_cases hpad : max p (l.position + desiredPath.length + l.suffixToKeep)
        < l.position + l.totalSize
    · exact hoccurrence.inside _ (le_max_left _ _) (by omega)
        (hzeros _ (le_max_right _ _) hpad)
    · exact hoccurrence.inside (l.position + l.totalSize) (by omega) (by omega) hend
  refine ⟨p - desiredPath.length + pathPrefix.length, by omega, by omega, ?_,
    hoccurs.terminated, ?_, by omega, by omega⟩
  · apply occurs_of_getElem?
    intro i hi
    have hold := hsuffix (p - desiredPath.length - l.position + i) (by omega)
    have hleft : l.position + desiredPath.length + (p - desiredPath.length - l.position + i)
        = p + i := by omega
    have hright : l.position + pathPrefix.length + (p - desiredPath.length - l.position + i)
        = p - desiredPath.length + pathPrefix.length + i := by omega
    rw [hleft, hright] at hold
    rw [← hold]
    exact getElem?_of_occurs hi hoccurrence.isPrefix
  · intro i hi hlt
    exact hoccurs.inside i (by omega) hlt

/-- A string of a patched file that begins in no location is a string of the file. -/
theorem Patched.occurrence_outside (hne : pathPrefix ≠ [])
    (hpatched : Patched f locations desiredPath g)
    (hplace : ∀ l ∈ locations, Occurrence f pathPrefix l.position (l.position + l.totalSize))
    (hfirst : ∀ l ∈ locations, First f pathPrefix l.position) {p stop : ℕ}
    (hoccurrence : Occurrence g pathPrefix p stop)
    (hapart : ∀ l ∈ locations, p + pathPrefix.length ≤ l.position ∨
      l.position + l.totalSize ≤ p) :
    Occurrence f pathPrefix p stop := by
  have hlong := hoccurrence.long
  have hpositive := List.length_pos_of_ne_nil hne
  have hbytes : ∀ i, p ≤ i → i < p + pathPrefix.length → g[i]? = f[i]? := by
    intro i hle hlt
    apply hpatched.outside
    intro l hl hcontains
    have := hapart l hl
    simp only [Range.Contains, range] at hcontains
    omega
  have hfront : pathPrefix <+: f.drop p := by
    apply occurs_of_getElem?
    intro i hi
    rw [← hbytes _ (by omega) (by omega)]
    exact getElem?_of_occurs hi hoccurrence.isPrefix
  -- A location that begins in the string would have a NUL before it, which patching keeps.
  have hclear : ∀ l ∈ locations, stop < l.position ∨ l.position + l.totalSize ≤ p := by
    intro l hl
    rcases hapart l hl with hbehind | hbefore
    · left
      by_contra hle
      obtain ⟨i, hi, hlt, hzero⟩ := hfirst l hl p (by omega) hfront
      exact hoccurrence.inside i hi (by omega) (hpatched.zero hplace hzero)
    · exact .inr hbefore
  have hsame : ∀ i, p ≤ i → i ≤ stop → g[i]? = f[i]? := by
    intro i hle hlt
    apply hpatched.outside
    intro l hl hcontains
    have := hclear l hl
    simp only [Range.Contains, range] at hcontains
    omega
  refine ⟨hfront, ?_, ?_, hlong, hoccurrence.short⟩
  · rw [← hsame stop (by omega) le_rfl]
    exact hoccurrence.terminated
  · intro i hle hlt
    rw [← hsame i hle hlt.le]
    exact hoccurrence.inside i hle hlt

instance : Std.Symm fun l m : Location => (range l).Disjoint (range m) where
  symm _ _ h := Or.symm h

/-- Where the locations cover the beginnings of all occurrences, an occurrence in the patched
file meets one of the new paths. -/
theorem Patched.occurrence_meets (hne : pathPrefix ≠ [])
    (hpatched : Patched f locations desiredPath g)
    (hplace : ∀ l ∈ locations, Occurrence f pathPrefix l.position (l.position + l.totalSize))
    (hkept : ∀ l ∈ locations, l.totalSize = pathPrefix.length + l.suffixToKeep)
    (hdisjoint : locations.Pairwise fun l m => (range l).Disjoint (range m))
    (hfirst : ∀ l ∈ locations, First f pathPrefix l.position)
    (hcovered : ∀ p stop, Occurrence f pathPrefix p stop →
      ∃ l ∈ locations, l.position ≤ p ∧ p < l.position + pathPrefix.length)
    (hroom : desiredPath.length ≤ pathPrefix.length) {p stop : ℕ}
    (hoccurrence : Occurrence g pathPrefix p stop) :
    ∃ l ∈ locations, p < l.position + desiredPath.length ∧ l.position < p + pathPrefix.length := by
  by_contra hnone
  have hclear : ∀ l ∈ locations, l.position + desiredPath.length ≤ p ∨
      p + pathPrefix.length ≤ l.position := by
    intro l hl
    by_contra hmeets
    exact hnone ⟨l, hl, by omega⟩
  by_cases hmeets : ∃ l ∈ locations,
      l.position < p + pathPrefix.length ∧ p < l.position + l.totalSize
  · -- The suffix of a location has an occurrence, which no location can cover.
    obtain ⟨l, hl, hlt, hbefore⟩ := hmeets
    have hbehind := hclear l hl
    obtain ⟨p', hle, hlt', hold⟩ := hpatched.occurrence_inside hne hl hplace (hkept l hl) hroom
      hoccurrence (by omega) hbefore
    obtain ⟨m, hm, hmle, hmlt⟩ := hcovered p' _ hold
    have hmlong := (hplace m hm).long
    by_cases heq : l = m
    · subst heq
      omega
    · have hapart := hdisjoint.forall hl hm heq
      simp only [Range.Disjoint, range] at hapart
      omega
  · have hapart : ∀ l ∈ locations, p + pathPrefix.length ≤ l.position ∨
        l.position + l.totalSize ≤ p := by
      intro l hl
      by_contra hin
      exact hmeets ⟨l, hl, by omega⟩
    have hpositive := List.length_pos_of_ne_nil hne
    have hold := hpatched.occurrence_outside hne hplace hfirst hoccurrence hapart
    obtain ⟨l, hl, hle, hlt⟩ := hcovered p stop hold
    have hlong := (hplace l hl).long
    have := hapart l hl
    omega

end Patched

/-! ## Exactly when every occurrence is covered -/

/-- The reported locations, once no position is cut to 32 bits. -/
theorem findsAll_of_exact {rs : List (ℕ × ℕ)} (hne : pathPrefix ≠ [])
    (h : Occurrences f pathPrefix 0 rs) (hfirst : ∀ r ∈ rs, First f pathPrefix r.1)
    (hsmall : ∀ r ∈ rs, r.1 < 2 ^ 32)
    (hcovered : ∀ p stop, Occurrence f pathPrefix p stop →
      ∃ r ∈ rs, r.1 ≤ p ∧ p < r.1 + pathPrefix.length) :
    FindsAll f pathPrefix (reported pathPrefix rs) := by
  have hpositive := List.length_pos_of_ne_nil hne
  have hnumbers : ∀ r ∈ rs, (Daemon.Cloud.location pathPrefix r.1 r.2).position = r.1 ∧
      (Daemon.Cloud.location pathPrefix r.1 r.2).totalSize = r.2 - r.1 ∧
      (Daemon.Cloud.location pathPrefix r.1 r.2).suffixToKeep = r.2 - r.1 - pathPrefix.length := by
    intro r hr
    obtain ⟨hposition, hrest⟩ := (h.1 r hr).1.location
    rw [Nat.mod_eq_of_lt (hsmall r hr)] at hposition
    exact ⟨hposition, hrest⟩
  have hpair : (reported pathPrefix rs).Pairwise fun l m =>
      l.position + l.totalSize ≤ m.position ∧ 0 < l.totalSize := by
    rw [reported, List.pairwise_map]
    apply List.Pairwise.imp_of_mem _ h.2
    intro r s hr hs hrs
    have hlong := (h.1 r hr).1.long
    rw [(hnumbers r hr).1, (hnumbers r hr).2.1, (hnumbers s hs).1]
    omega
  have hplace : ∀ l ∈ reported pathPrefix rs,
      Occurrence f pathPrefix l.position (l.position + l.totalSize) := by
    intro l hl
    obtain ⟨r, hr, rfl⟩ := List.mem_map.mp hl
    have hoccurrence := (h.1 r hr).1
    have hlong := hoccurrence.long
    rw [(hnumbers r hr).1, (hnumbers r hr).2.1, Nat.add_sub_cancel' (by omega)]
    exact hoccurrence
  have hcovered : ∀ p stop, Occurrence f pathPrefix p stop →
      ∃ l ∈ reported pathPrefix rs, l.position ≤ p ∧ p < l.position + pathPrefix.length := by
    intro p stop hoccurrence
    obtain ⟨r, hr, hle, hlt⟩ := hcovered p stop hoccurrence
    refine ⟨_, List.mem_map_of_mem hr, ?_⟩
    rw [(hnumbers r hr).1]
    exact ⟨hle, hlt⟩
  have hdisjoint : (reported pathPrefix rs).Pairwise fun l m =>
      (range l).Disjoint (range m) := hpair.imp fun h => .inl h.1
  have hkept : ∀ l ∈ reported pathPrefix rs,
      l.totalSize = pathPrefix.length + l.suffixToKeep :=
    fun l hl => (reported_bounds h hl).2.1
  have hfirst : ∀ l ∈ reported pathPrefix rs, First f pathPrefix l.position := by
    intro l hl
    obtain ⟨r, hr, rfl⟩ := List.mem_map.mp hl
    rw [(hnumbers r hr).1]
    exact hfirst r hr
  refine ⟨hpair.imp fun h => by omega, hdisjoint, hplace, hkept, hcovered, ?_⟩
  intro desiredPath g hroom hpatched p stop hoccurrence
  exact hpatched.occurrence_meets hne hplace hkept hdisjoint hfirst hcovered hroom hoccurrence

/-- The loop always ends. It covers every occurrence of the prefix whose string ends within
the longest path, exactly if in each such string the first occurrence is near enough to the
end, too, begins within the first 4 GiB, and overlaps all the others. -/
theorem findsAll_iff (f : Bytes) (hne : pathPrefix ≠ []) (hnul : (0 : UInt8) ∉ pathPrefix) :
    (∃ locations, findAllPathLocation f pathPrefix = some locations ∧
      FindsAll f pathPrefix locations) ↔ FirstOnly f pathPrefix := by
  obtain ⟨rs, hfind, h, hmem⟩ := Daemon.Cloud.findAllPathLocation_complete hne hnul f
  have hpositive := List.length_pos_of_ne_nil hne
  -- An occurrence cannot begin in a first one's string unless it is behind it.
  have hapart : ∀ p q, First f pathPrefix p → pathPrefix <+: f.drop q → q < p →
      q + pathPrefix.length ≤ p := by
    intro p q hfirst hoccurs hlt
    obtain ⟨i, hi, hip, hzero⟩ := hfirst q hlt hoccurs
    by_contra hover
    exact ne_zero_of_occurs hnul hoccurs hi (by omega) hzero
  constructor
  · rintro ⟨locations, hlocations, hall⟩
    rw [hfind] at hlocations
    cases hlocations
    -- Each reported string is covered at its beginning, so its position was not cut.
    have hsmall : ∀ r ∈ rs, r.1 < 2 ^ 32 := by
      intro r hr
      obtain ⟨hfirst, hoccurrence⟩ := (hmem r.1 r.2).mp hr
      obtain ⟨l, hl, hle, hlt⟩ := hall.covered _ _ hoccurrence
      have hplace := hall.place l hl
      have heq : l.position = r.1 := by
        by_contra hneq
        have := hapart r.1 l.position hfirst hplace.isPrefix (by omega)
        omega
      obtain ⟨s, hs, rfl⟩ := List.mem_map.mp hl
      rw [(h.1 s hs).1.location.1] at heq
      omega
    intro p stop hoccurrence
    obtain ⟨l, hl, hle, hlt⟩ := hall.covered p stop hoccurrence
    obtain ⟨r, hr, rfl⟩ := List.mem_map.mp hl
    obtain ⟨hfirst, hfound⟩ := (hmem r.1 r.2).mp hr
    rw [hfound.location.1, Nat.mod_eq_of_lt (hsmall r hr)] at hle hlt
    have hlong := hoccurrence.long
    have hlong' := hfound.long
    have hinside : ∀ i, p ≤ i → i < r.2 → f[i]? ≠ some 0 := by
      intro i hi
      exact hfound.inside i (by omega)
    have hstop : r.2 = stop := terminator_unique (by omega) (by omega) hfound.terminated
      hoccurrence.terminated hinside hoccurrence.inside
    exact ⟨r.1, hfirst, hstop ▸ hfound, hle, hlt, hsmall r hr⟩
  · intro honly
    refine ⟨reported pathPrefix rs, hfind, findsAll_of_exact hne h ?_ ?_ ?_⟩
    · intro r hr
      exact ((hmem r.1 r.2).mp hr).1
    · intro r hr
      obtain ⟨hfirst, hoccurrence⟩ := (hmem r.1 r.2).mp hr
      obtain ⟨q, -, hfound, hle, hlt, hsmall⟩ := honly _ _ hoccurrence
      by_contra hlarge
      have := hapart r.1 q hfirst hfound.isPrefix (by omega)
      omega
    · intro p stop hoccurrence
      obtain ⟨q, hfirst, hfound, hle, hlt, -⟩ := honly p stop hoccurrence
      exact ⟨(q, stop), (hmem q stop).mpr ⟨hfirst, hfound⟩, hle, hlt⟩

theorem findsAll_gcno :
    ∃ locations, findAllPathLocation (asciiBytes "x/tmp/b.gcno" ++ [0, 7]) (asciiBytes "/tmp/b")
        = some locations ∧
      FindsAll (asciiBytes "x/tmp/b.gcno" ++ [0, 7]) (asciiBytes "/tmp/b") locations := by
  apply (findsAll_iff _ (by decide) (by decide)).mpr
  intro p stop hoccurrence
  have hp : p = 1 := by
    have hlt : stop < 14 := hoccurrence.stop_lt
    have hlong : p + 6 ≤ stop := hoccurrence.long
    have hp : p < 8 := by omega
    have hoccurs := hoccurrence.isPrefix
    interval_cases p <;> revert hoccurs <;> decide
  subst hp
  refine ⟨1, ?_, hoccurrence, le_rfl, by decide, by decide⟩
  intro q hq hoccurs
  interval_cases q
  exact absurd hoccurs (by decide)

/-- The second path in one string is not covered. -/
theorem not_findsAll_twoPaths :
    findAllPathLocation (asciiBytes "/a:/a" ++ [0]) (asciiBytes "/a") = some [⟨0, 5, 3⟩] ∧
    Occurrence (asciiBytes "/a:/a" ++ [0]) (asciiBytes "/a") 3 5 ∧
    ¬∃ locations, findAllPathLocation (asciiBytes "/a:/a" ++ [0]) (asciiBytes "/a")
        = some locations ∧
      FindsAll (asciiBytes "/a:/a" ++ [0]) (asciiBytes "/a") locations := by
  have hfind : findAllPathLocation (asciiBytes "/a:/a" ++ [0]) (asciiBytes "/a")
      = some [⟨0, 5, 3⟩] := by decide
  have hoccurrence : Occurrence (asciiBytes "/a:/a" ++ [0]) (asciiBytes "/a") 3 5 := by
    refine ⟨by decide, by decide, ?_, by decide, by decide⟩
    intro i hle hlt
    interval_cases i <;> decide
  refine ⟨hfind, hoccurrence, ?_⟩
  rintro ⟨locations, hlocations, hall⟩
  rw [hfind] at hlocations
  cases hlocations
  obtain ⟨l, hl, -, hlt⟩ := hall.covered 3 5 hoccurrence
  rw [List.mem_singleton] at hl
  subst hl
  exact absurd hlt (by decide)

end Yadcc.Client
