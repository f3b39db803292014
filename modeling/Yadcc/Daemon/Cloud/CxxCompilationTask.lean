/-
# Occurrences of the servant's directory in its output files

The compiler leaves the path of the servant's temporary directory in some output files. The
servant looks for every NUL-terminated string that begins with that path and reports where
it stands, how long it is and how much of it follows the prefix, as 32-bit numbers.
-/

import Yadcc.Lib.Text

namespace Yadcc.Daemon.Cloud

open Yadcc.Lib

/-- A place to be patched: where it begins, its length, and the length of the suffix to be
kept. -/
structure Location where
  position : ℕ
  totalSize : ℕ
  suffixToKeep : ℕ
  deriving DecidableEq

def pathMax : ℕ := 4096

/-- The value of a message field of 32 bits. -/
def uint32 (i : ℤ) : ℕ := (i % 2 ^ 32).toNat

/-- The message for an occurrence at `pos` that ends before `stop`. -/
def location (pathPrefix : Bytes) (pos stop : ℕ) : Location where
  position := uint32 pos
  totalSize := uint32 (stop - pos)
  suffixToKeep := uint32 (stop - pos - pathPrefix.length)

/-- The loop of `findAllPathLocation` from `start` on, as the ends of the occurrences; it
gives up after `fuel` rounds. -/
def findLoop (buffer pathPrefix : Bytes) : ℕ → ℕ → Option (List (ℕ × ℕ))
  | 0, _ => none
  | fuel + 1, start =>
      match find pathPrefix (buffer.drop start) with
      | none => some []
      | some offset =>
          let pos := start + offset
          match find [0] (buffer.drop pos) with
          | none => findLoop buffer pathPrefix fuel buffer.length
          | some size =>
              let stop := pos + size
              if pathMax < stop - pos then findLoop buffer pathPrefix fuel stop
              else (findLoop buffer pathPrefix fuel stop).map fun rest => (pos, stop) :: rest

/-- The prefix is checked not to be empty. Without an answer the check fails or the loop
does not end. -/
def findAllPathLocation (buffer pathPrefix : Bytes) : Option (List Location) :=
  if pathPrefix.isEmpty then none
  else (findLoop buffer pathPrefix (buffer.length + 1) 0).map fun occurrences =>
    occurrences.map fun r => location pathPrefix r.1 r.2

/-! ## What is found -/

section Occurrences

variable {buffer pathPrefix : Bytes} {pos stop : ℕ}

/-- The buffer has a string of bounded length with the prefix from `pos` on, and its NUL is
at `stop`. -/
structure Occurrence (buffer pathPrefix : Bytes) (pos stop : ℕ) : Prop where
  isPrefix : pathPrefix <+: buffer.drop pos
  terminated : buffer[stop]? = some 0
  inside : ∀ i, pos ≤ i → i < stop → buffer[i]? ≠ some 0
  long : pos + pathPrefix.length ≤ stop
  short : stop ≤ pos + pathMax

theorem Occurrence.stop_lt (h : Occurrence buffer pathPrefix pos stop) : stop < buffer.length :=
  (List.getElem?_eq_some_iff.mp h.terminated).1

/-- The first NUL behind a place where a prefix without NUL stands. -/
theorem find_terminator {size : ℕ} (hnul : (0 : UInt8) ∉ pathPrefix)
    (hoccurs : pathPrefix <+: buffer.drop pos) (h : find [0] (buffer.drop pos) = some size) :
    buffer[pos + size]? = some 0 ∧ (∀ i, pos ≤ i → i < pos + size → buffer[i]? ≠ some 0) ∧
      pathPrefix.length ≤ size := by
  obtain ⟨-, hzero, hfirst⟩ := find_spec h
  rw [singleton_prefix_drop, List.getElem?_drop] at hzero
  refine ⟨hzero, ?_, ?_⟩
  · intro i hle hlt hi
    apply hfirst (i - pos) (by omega)
    rw [singleton_prefix_drop, List.getElem?_drop, Nat.add_sub_cancel' hle]
    exact hi
  · by_contra hshort
    obtain ⟨rest, hrest⟩ := hoccurs
    have hmem : (pathPrefix ++ rest)[size]? = some 0 := by
      rw [hrest, List.getElem?_drop]
      exact hzero
    rw [List.getElem?_append_left (by omega)] at hmem
    exact hnul (List.mem_of_getElem? hmem)

/-- Occurrences from `start` on, each behind the end of the one before. -/
def Occurrences (buffer pathPrefix : Bytes) (start : ℕ) (rs : List (ℕ × ℕ)) : Prop :=
  (∀ r ∈ rs, Occurrence buffer pathPrefix r.1 r.2 ∧ start ≤ r.1) ∧
    rs.Pairwise fun r s => r.2 ≤ s.1

theorem Occurrences.mono {start start' : ℕ} {rs : List (ℕ × ℕ)} (hle : start' ≤ start)
    (h : Occurrences buffer pathPrefix start rs) : Occurrences buffer pathPrefix start' rs :=
  ⟨fun r hr => ⟨(h.1 r hr).1, hle.trans (h.1 r hr).2⟩, h.2⟩

theorem Occurrences.cons {start : ℕ} {rs : List (ℕ × ℕ)}
    (h : Occurrence buffer pathPrefix pos stop) (hstart : start ≤ pos)
    (hrest : Occurrences buffer pathPrefix stop rs) :
    Occurrences buffer pathPrefix start ((pos, stop) :: rs) := by
  have hlong := h.long
  refine ⟨List.forall_mem_cons.mpr ⟨⟨h, hstart⟩, ?_⟩, List.pairwise_cons.mpr ⟨?_, hrest.2⟩⟩
  · exact (hrest.mono (by omega)).1
  · intro r hr
    exact (hrest.1 r hr).2

/-- With a prefix that is not empty and has no NUL the loop ends, having found
occurrences. Each round begins behind the last one. -/
theorem findLoop_ok (hne : pathPrefix ≠ []) (hnul : (0 : UInt8) ∉ pathPrefix) :
    ∀ fuel start, start ≤ buffer.length → buffer.length < start + fuel →
      ∃ rs, findLoop buffer pathPrefix fuel start = some rs ∧
        Occurrences buffer pathPrefix start rs := by
  intro fuel
  induction fuel with
  | zero =>
      intro start hle hfuel
      omega
  | succ fuel ih =>
      intro start hle hfuel
      have hpositive := List.length_pos_of_ne_nil hne
      rw [findLoop]
      cases hfind : find pathPrefix (buffer.drop start) with
      | none => exact ⟨[], rfl, by simp [Occurrences]⟩
      | some offset =>
          have hlength := length_le_of_find hfind
          obtain ⟨-, hoccurs, -⟩ := find_spec hfind
          rw [List.drop_drop] at hoccurs
          rw [List.length_drop] at hlength
          simp only
          cases hstop : find [0] (buffer.drop (start + offset)) with
          | none =>
              obtain ⟨rs, hrs, hoccurrences⟩ := ih buffer.length le_rfl (by omega)
              exact ⟨rs, hrs, hoccurrences.mono hle⟩
          | some size =>
              obtain ⟨hzero, hinside, hlong⟩ := find_terminator hnul hoccurs hstop
              have hlt := (List.getElem?_eq_some_iff.mp hzero).1
              obtain ⟨rs, hrs, hoccurrences⟩ := ih (start + offset + size) hlt.le (by omega)
              simp only [hrs]
              split
              · exact ⟨rs, rfl, hoccurrences.mono (by omega)⟩
              · next hshort =>
                  have hoccurrence : Occurrence buffer pathPrefix (start + offset)
                      (start + offset + size) :=
                    ⟨hoccurs, hzero, hinside, by omega, by omega⟩
                  exact ⟨_, rfl, .cons hoccurrence (by omega) hoccurrences⟩

theorem findAllPathLocation_ok (hne : pathPrefix ≠ []) (hnul : (0 : UInt8) ∉ pathPrefix)
    (buffer : Bytes) :
    ∃ rs, findAllPathLocation buffer pathPrefix
        = some (rs.map fun r => location pathPrefix r.1 r.2) ∧
      Occurrences buffer pathPrefix 0 rs := by
  have hfuel : buffer.length < 0 + (buffer.length + 1) := by omega
  obtain ⟨rs, hrs, hoccurrences⟩ := findLoop_ok hne hnul _ 0 (Nat.zero_le _) hfuel
  have hempty : pathPrefix.isEmpty = false := by simpa using hne
  refine ⟨rs, ?_, hoccurrences⟩
  rw [findAllPathLocation, hempty, hrs]
  rfl

/-- The numbers of a location: only the position can be cut to 32 bits. -/
theorem Occurrence.location (h : Occurrence buffer pathPrefix pos stop) :
    (location pathPrefix pos stop).position = pos % 2 ^ 32 ∧
      (location pathPrefix pos stop).totalSize = stop - pos ∧
      (location pathPrefix pos stop).suffixToKeep = stop - pos - pathPrefix.length := by
  have hlong := h.long
  have hshort := h.short
  have hmax : pathMax = 4096 := rfl
  refine ⟨?_, ?_, ?_⟩ <;> simp only [Cloud.location, uint32] <;> omega

/-! ## What is not found -/

/-- No occurrence of the prefix stands before `pos` in the same string. -/
def First (buffer pathPrefix : Bytes) (pos : ℕ) : Prop :=
  ∀ q < pos, pathPrefix <+: buffer.drop q → ∃ i, q ≤ i ∧ i < pos ∧ buffer[i]? = some 0

/-- A NUL stands between a place before `start` and an occurrence from there on. -/
def Boundary (buffer pathPrefix : Bytes) (start : ℕ) : Prop :=
  ∀ q < start, ∀ p, start ≤ p → pathPrefix <+: buffer.drop p →
    ∃ i, q ≤ i ∧ i < p ∧ buffer[i]? = some 0

theorem Boundary.first (h : Boundary buffer pathPrefix pos)
    (hoccurs : pathPrefix <+: buffer.drop pos) : First buffer pathPrefix pos := by
  intro q hq _
  exact h q hq pos le_rfl hoccurs

/-- The first byte of a prefix that occurs. -/
theorem getElem?_of_occurs {i : ℕ} (hi : i < pathPrefix.length)
    (hoccurs : pathPrefix <+: buffer.drop pos) : buffer[pos + i]? = pathPrefix[i]? := by
  obtain ⟨rest, hrest⟩ := hoccurs
  rw [← List.getElem?_drop, ← hrest, List.getElem?_append_left hi]

theorem ne_zero_of_occurs (hnul : (0 : UInt8) ∉ pathPrefix)
    (hoccurs : pathPrefix <+: buffer.drop pos) {i : ℕ} (hle : pos ≤ i)
    (hlt : i < pos + pathPrefix.length) : buffer[i]? ≠ some 0 := by
  intro hzero
  have hbyte := getElem?_of_occurs (i := i - pos) (by omega) hoccurs
  rw [Nat.add_sub_cancel' hle, hzero] at hbyte
  exact hnul (List.mem_of_getElem? hbyte.symm)

theorem boundary_of_terminator (hne : pathPrefix ≠ []) (hnul : (0 : UInt8) ∉ pathPrefix)
    (hzero : buffer[stop]? = some 0) : Boundary buffer pathPrefix stop := by
  intro q hq p hp hoccurs
  have hlength := List.length_pos_of_ne_nil hne
  have hne : p ≠ stop := by
    rintro rfl
    exact ne_zero_of_occurs hnul hoccurs le_rfl (by omega) hzero
  exact ⟨stop, by omega, by omega, hzero⟩

theorem boundary_length (hne : pathPrefix ≠ []) :
    Boundary buffer pathPrefix buffer.length := by
  intro q _ p hp hoccurs
  have hlength := hoccurs.length_le
  rw [List.length_drop] at hlength
  have hpositive := List.length_pos_of_ne_nil hne
  omega

/-- The first NUL from a place on. -/
theorem terminator_unique {stop' : ℕ} (hle : pos ≤ stop) (hle' : pos ≤ stop')
    (hzero : buffer[stop]? = some 0) (hzero' : buffer[stop']? = some 0)
    (hinside : ∀ i, pos ≤ i → i < stop → buffer[i]? ≠ some 0)
    (hinside' : ∀ i, pos ≤ i → i < stop' → buffer[i]? ≠ some 0) : stop = stop' := by
  by_contra hne
  rcases Nat.lt_or_gt_of_ne hne with hlt | hlt
  · exact hinside' stop hle hlt hzero
  · exact hinside stop' hle' hlt hzero'

/-- Nothing occurs between the beginning of a search and what it finds. -/
theorem le_of_find {start offset p : ℕ} (hfind : find pathPrefix (buffer.drop start) = some offset)
    (hp : start ≤ p) (hoccurs : pathPrefix <+: buffer.drop p) : start + offset ≤ p := by
  obtain ⟨-, -, hfirst⟩ := find_spec hfind
  by_contra hlt
  apply hfirst (p - start) (by omega)
  rw [List.drop_drop, Nat.add_sub_cancel' hp]
  exact hoccurs

theorem not_occurs_of_find {start : ℕ} (hfind : find pathPrefix (buffer.drop start) = none)
    (hle : start ≤ pos) : ¬Occurrence buffer pathPrefix pos stop := by
  intro h
  have hlt := h.stop_lt
  have hlong := h.long
  have hnone := find_eq_none_iff.mp hfind (pos - start) (by rw [List.length_drop]; omega)
  rw [List.drop_drop, Nat.add_sub_cancel' hle] at hnone
  exact hnone h.isPrefix

/-- Behind a place without a NUL there is no occurrence either. -/
theorem not_occurs_of_unterminated {start : ℕ} (hstop : find [0] (buffer.drop start) = none)
    (hle : start ≤ pos) : ¬Occurrence buffer pathPrefix pos stop := by
  intro h
  have hlt := h.stop_lt
  have hlong := h.long
  have hzero := find_eq_none_iff.mp hstop (stop - start) (by rw [List.length_drop]; omega)
  rw [singleton_prefix_drop, List.getElem?_drop, Nat.add_sub_cancel' (by omega)] at hzero
  exact hzero h.terminated

/-- What a search finds from a boundary on is the first in its string. -/
theorem Boundary.first_of_find {start offset : ℕ} (h : Boundary buffer pathPrefix start)
    (hfind : find pathPrefix (buffer.drop start) = some offset)
    (hoccurs : pathPrefix <+: buffer.drop (start + offset)) :
    First buffer pathPrefix (start + offset) := by
  intro q hq hqoccurs
  have hbefore : q < start := by
    by_contra hle
    have hge := le_of_find hfind (Nat.le_of_not_lt hle) hqoccurs
    omega
  exact h q hbefore _ (Nat.le_add_right start offset) hoccurs

/-- The next first occurrence is the same one, or behind the end of the string. -/
theorem First.eq_or_behind {p : ℕ} (hfirst : First buffer pathPrefix p) (hle : pos ≤ p)
    (hoccurs : pathPrefix <+: buffer.drop pos)
    (hinside : ∀ i, pos ≤ i → i < stop → buffer[i]? ≠ some 0) : p = pos ∨ stop ≤ p := by
  by_contra hneither
  obtain ⟨hneq, hbefore⟩ := not_or.mp hneither
  obtain ⟨i, hi, hip, hzero⟩ := hfirst pos (by omega) hoccurs
  exact hinside i hi (by omega) hzero

theorem Occurrence.stop_eq {stop' : ℕ} (h : Occurrence buffer pathPrefix pos stop)
    (hle : pos ≤ stop') (hzero : buffer[stop']? = some 0)
    (hinside : ∀ i, pos ≤ i → i < stop' → buffer[i]? ≠ some 0) : stop = stop' := by
  have hlong := h.long
  exact terminator_unique (by omega) hle h.terminated hzero h.inside hinside

/-- The loop finds the first occurrence in each string, if its end is near enough, and no
other one. Each round begins at a boundary. -/
theorem mem_findLoop_iff (hne : pathPrefix ≠ []) (hnul : (0 : UInt8) ∉ pathPrefix) :
    ∀ fuel start rs, start ≤ buffer.length → Boundary buffer pathPrefix start →
      findLoop buffer pathPrefix fuel start = some rs →
      ∀ pos stop, (pos, stop) ∈ rs ↔
        start ≤ pos ∧ First buffer pathPrefix pos ∧ Occurrence buffer pathPrefix pos stop := by
  intro fuel
  induction fuel with
  | zero =>
      intro start rs _ _ hrun
      cases hrun
  | succ fuel ih =>
      intro start rs hstart hboundary hrun pos stop
      rw [findLoop] at hrun
      cases hfind : find pathPrefix (buffer.drop start) with
      | none =>
          rw [hfind] at hrun
          cases hrun
          constructor
          · rintro ⟨⟩
          · rintro ⟨hle, -, hoccurrence⟩
            exact absurd hoccurrence (not_occurs_of_find hfind hle)
      | some offset =>
          obtain ⟨hoffset, hoccurs, -⟩ := find_spec hfind
          rw [List.drop_drop] at hoccurs
          rw [hfind] at hrun
          simp only at hrun
          cases hstop : find [0] (buffer.drop (start + offset)) with
          | none =>
              rw [hstop] at hrun
              rw [ih _ _ le_rfl (boundary_length hne) hrun]
              constructor
              · rintro ⟨hle, -, hoccurrence⟩
                exact absurd hoccurrence.stop_lt (by have := hoccurrence.long; omega)
              · rintro ⟨hle, -, hoccurrence⟩
                have hbehind := le_of_find hfind hle hoccurrence.isPrefix
                exact absurd hoccurrence (not_occurs_of_unterminated hstop hbehind)
          | some size =>
              obtain ⟨hzero, hinside, hlong⟩ := find_terminator hnul hoccurs hstop
              have hlt := (List.getElem?_eq_some_iff.mp hzero).1
              have hnext := boundary_of_terminator hne hnul hzero
              -- A first occurrence is the one that was found, or left to the next rounds.
              have hcases : start ≤ pos → First buffer pathPrefix pos →
                  Occurrence buffer pathPrefix pos stop →
                  (pos = start + offset ∧ stop = start + offset + size) ∨
                    start + offset + size ≤ pos := by
                intro hle hfirst hoccurrence
                have hbehind := le_of_find hfind hle hoccurrence.isPrefix
                rcases hfirst.eq_or_behind hbehind hoccurs hinside with rfl | hge
                · exact .inl ⟨rfl, hoccurrence.stop_eq (by omega) hzero hinside⟩
                · exact .inr hge
              rw [hstop] at hrun
              simp only at hrun
              split at hrun
              · next hover =>
                  rw [ih _ _ hlt.le hnext hrun]
                  constructor
                  · rintro ⟨hle, hrest⟩
                    exact ⟨by omega, hrest⟩
                  · rintro ⟨hle, hfirst, hoccurrence⟩
                    rcases hcases hle hfirst hoccurrence with ⟨rfl, rfl⟩ | hge
                    · have hshort := hoccurrence.short
                      omega
                    · exact ⟨hge, hfirst, hoccurrence⟩
              · next hnear =>
                  obtain ⟨rest, hrest, rfl⟩ := Option.map_eq_some_iff.mp hrun
                  rw [List.mem_cons, Prod.mk.injEq, ih _ _ hlt.le hnext hrest]
                  constructor
                  · rintro (⟨rfl, rfl⟩ | ⟨hle, hrest⟩)
                    · exact ⟨by omega, hboundary.first_of_find hfind hoccurs, hoccurs, hzero,
                        hinside, by omega, by omega⟩
                    · exact ⟨by omega, hrest⟩
                  · rintro ⟨hle, hfirst, hoccurrence⟩
                    rcases hcases hle hfirst hoccurrence with hsame | hge
                    · exact .inl hsame
                    · exact .inr ⟨hge, hfirst, hoccurrence⟩

/-- The locations are those of the first occurrences whose end is near enough. -/
theorem findAllPathLocation_complete (hne : pathPrefix ≠ []) (hnul : (0 : UInt8) ∉ pathPrefix)
    (buffer : Bytes) :
    ∃ rs, findAllPathLocation buffer pathPrefix
        = some (rs.map fun r => Cloud.location pathPrefix r.1 r.2) ∧
      Occurrences buffer pathPrefix 0 rs ∧
      ∀ pos stop, (pos, stop) ∈ rs ↔
        First buffer pathPrefix pos ∧ Occurrence buffer pathPrefix pos stop := by
  have hfuel : buffer.length < 0 + (buffer.length + 1) := by omega
  obtain ⟨rs, hrs, hoccurrences⟩ := findLoop_ok hne hnul _ 0 (Nat.zero_le _) hfuel
  have hempty : pathPrefix.isEmpty = false := by simpa using hne
  have hboundary : Boundary buffer pathPrefix 0 := fun q hq => absurd hq (Nat.not_lt_zero q)
  refine ⟨rs, ?_, hoccurrences, ?_⟩
  · rw [findAllPathLocation, hempty, hrs]
    rfl
  · intro pos stop
    rw [mem_findLoop_iff hne hnul _ 0 rs (Nat.zero_le _) hboundary hrs]
    simp

end Occurrences

end Yadcc.Daemon.Cloud
