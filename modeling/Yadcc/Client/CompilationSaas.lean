/-
# Patching the output files of a compilation

The client replaces the servant's directory in the output files by the path that the object
file should have. The new path is copied to the beginning of each location, the suffix that
is to be kept is moved behind it, and the rest of the location is zeroed. The check before
that compares the new path with the whole location, so that a path that is longer than the
servant's passes although the suffix does not fit any more. This module tells exactly when
the copies stay inside the locations.
-/

import Yadcc.Daemon.Cloud.CxxCompilationTask
import Yadcc.Lib.Buffer
import Yadcc.Lib.UnorderedMap

namespace Yadcc.Client

open Yadcc.Lib
open Yadcc.Lib.Shell (asciiBytes)
open Yadcc.Daemon.Cloud (Location Occurrence Occurrences findAllPathLocation pathMax)

/-! ## Patching -/

/-- The value of a `std::size_t` expression. -/
def sizeValue (i : ℤ) : ℕ := (i % 2 ^ 64).toNat

/-- One location. The answer is whether the location has room for the path. -/
def patchLocation (desiredPath : Bytes) (l : Location) (file : Buffer) :
    Except Overrun (Bool × Buffer) :=
  if l.totalSize < desiredPath.length then .ok (false, file)
  else do
    let file ← file.memcpy l.position desiredPath
    let file ← file.memmove (l.position + desiredPath.length)
      (l.position + l.totalSize - l.suffixToKeep) l.suffixToKeep
    let newSize := desiredPath.length + l.suffixToKeep
    let file ← file.memset (l.position + newSize) 0 (sizeValue (l.totalSize - newSize))
    return (true, file)

/-- The locations of one file; the first without room is the last one tried. -/
def patchFile (desiredPath : Bytes) : List Location → Buffer → Except Overrun (Bool × Buffer)
  | [], file => .ok (true, file)
  | l :: locations, file => do
      let (room, file) ← patchLocation desiredPath l file
      if room then patchFile desiredPath locations file else return (false, file)

/-- The output files one after the other, with the extensions that had patches. -/
def patchFiles (patches : UnorderedMap String (List Location)) (desiredPath : Bytes) :
    List (String × Buffer) → Except Overrun (Bool × List String × List (String × Buffer))
  | [] => .ok (true, [], [])
  | (suffix, file) :: files =>
      match patches.lookup suffix with
      | none => do
          let (room, applied, rest) ← patchFiles patches desiredPath files
          return (room, applied, (suffix, file) :: rest)
      | some locations => do
          let (room, file) ← patchFile desiredPath locations file
          if room then
            let (room, applied, rest) ← patchFiles patches desiredPath files
            return (room, suffix :: applied, (suffix, file) :: rest)
          else return (false, [suffix], (suffix, file) :: files)

/-- Whether all patches were applied, and the files. -/
def patchPathOccurrences (outputFiles : List (String × Buffer))
    (patches : UnorderedMap String (List Location)) (desiredPath : Bytes) :
    Except Overrun (Bool × List (String × Buffer)) := do
  let (room, applied, files) ← patchFiles patches desiredPath outputFiles
  return (room && patches.keys.all (applied.contains ·), files)

theorem patchPathOccurrences_single (suffix : String) (file : Buffer)
    (locations : List Location) (desiredPath : Bytes) :
    patchPathOccurrences [(suffix, file)] (AList.singleton suffix locations) desiredPath
      = (patchFile desiredPath locations file).map fun r => (r.1, [(suffix, r.2)]) := by
  have hlookup : (AList.singleton suffix locations : UnorderedMap String _).lookup suffix
      = some locations :=
    List.dlookup_cons_eq (β := fun _ => List Location) [] suffix locations
  simp only [patchPathOccurrences, patchFiles, hlookup]
  cases patchFile desiredPath locations file with
  | error e => rfl
  | ok r =>
      obtain ⟨room, file'⟩ := r
      cases room with
      | false => rfl
      | true => simp [Except.map, AList.keys_singleton]

/-! ## What patching should do -/

/-- The bytes of a location. -/
def range (l : Location) : Range := ⟨l.position, l.totalSize⟩

/-- What a location of file `f` should hold: the path, the suffix, and NULs. -/
def patched (f desiredPath : Bytes) (l : Location) : Bytes :=
  desiredPath ++ slice f (l.position + l.totalSize - l.suffixToKeep) l.suffixToKeep ++
    List.replicate (l.totalSize - desiredPath.length - l.suffixToKeep) 0

/-- File `g` is file `f` with its locations patched. -/
structure Patched (f : Bytes) (locations : List Location) (desiredPath g : Bytes) : Prop where
  length : g.length = f.length
  inside : ∀ l ∈ locations, slice g l.position l.totalSize = patched f desiredPath l
  outside : ∀ i, (∀ l ∈ locations, ¬(range l).Contains i) → g[i]? = f[i]?

/-- Patching a file accesses the locations only, and leaves it patched unless it reports
failure. -/
def PatchesSafely (suffix : String) (f : Bytes) (locations : List Location)
    (desiredPath : Bytes) : Prop :=
  ∃ room g, patchPathOccurrences [(suffix, .ofBytes f)] (AList.singleton suffix locations)
      desiredPath = .ok (room, [(suffix, g)]) ∧
    (∀ r ∈ g.accesses, ∃ l ∈ locations, r.Within (range l)) ∧
    (room = true → Patched f locations desiredPath g.bytes)

/-! ## One location -/

section OneLocation

variable {desiredPath : Bytes} {l : Location} {file g : Buffer} {f : Bytes}

theorem length_patched (hl : l.position + l.totalSize ≤ f.length)
    (hroom : desiredPath.length + l.suffixToKeep ≤ l.totalSize) :
    (patched f desiredPath l).length = l.totalSize := by
  simp only [patched, List.length_append, List.length_replicate]
  rw [length_slice (by omega)]
  omega

/-- What a location should hold depends on the bytes of the location only. -/
theorem patched_congr {f' : Bytes} (hkept : l.suffixToKeep ≤ l.totalSize)
    (h : ∀ i, l.position ≤ i → i < l.position + l.totalSize → f[i]? = f'[i]?) :
    patched f desiredPath l = patched f' desiredPath l := by
  have hslice : slice f (l.position + l.totalSize - l.suffixToKeep) l.suffixToKeep
      = slice f' (l.position + l.totalSize - l.suffixToKeep) l.suffixToKeep := by
    apply slice_congr
    intro i hle hlt
    exact h i (by omega) (by omega)
  rw [patched, patched, hslice]

/-- The three copies stay inside a location that has room for path and suffix, and leave it
patched. -/
theorem patchLocation_ok (hl : l.position + l.totalSize ≤ file.bytes.length)
    (hroom : desiredPath.length + l.suffixToKeep ≤ l.totalSize) (hsize : l.totalSize < 2 ^ 64) :
    ∃ accesses : List Range, (∀ r ∈ accesses, r.Within (range l)) ∧
      patchLocation desiredPath l file = .ok (true,
        ⟨overwrite file.bytes l.position (patched file.bytes desiredPath l),
          file.accesses ++ accesses⟩) := by
  have hpath : l.position + desiredPath.length ≤ file.bytes.length := by omega
  set f₁ := overwrite file.bytes l.position desiredPath with hf₁
  have hlength₁ : f₁.length = file.bytes.length := length_overwrite hpath
  -- The suffix is still the old one when it is moved.
  set source := l.position + l.totalSize - l.suffixToKeep with hsource
  have hsuffix : slice f₁ source l.suffixToKeep = slice file.bytes source l.suffixToKeep := by
    apply slice_congr
    intro i hle hlt
    rw [hf₁, getElem?_overwrite hpath, if_neg (by omega)]
  have hkept : (slice file.bytes source l.suffixToKeep).length = l.suffixToKeep :=
    length_slice (by omega)
  set f₂ := overwrite f₁ (l.position + desiredPath.length)
    (slice file.bytes source l.suffixToKeep) with hf₂
  have hlength₂ : f₂.length = file.bytes.length := by
    rw [hf₂, length_overwrite (by omega), hlength₁]
  have hmerged : f₂ = overwrite file.bytes l.position
      (desiredPath ++ slice file.bytes source l.suffixToKeep) := by
    rw [hf₂, hf₁, overwrite_overwrite hpath]
  have hcleared : overwrite f₂ (l.position + (desiredPath.length + l.suffixToKeep))
      (List.replicate (l.totalSize - desiredPath.length - l.suffixToKeep) 0)
      = overwrite file.bytes l.position (patched file.bytes desiredPath l) := by
    have hfront : (desiredPath ++ slice file.bytes source l.suffixToKeep).length
        = desiredPath.length + l.suffixToKeep := by
      rw [List.length_append, hkept]
    rw [hmerged, ← hfront, overwrite_overwrite (by omega), patched]
  have hzeros : sizeValue (l.totalSize - (desiredPath.length + l.suffixToKeep : ℕ))
      = l.totalSize - desiredPath.length - l.suffixToKeep := by
    unfold sizeValue
    omega
  refine ⟨[⟨l.position, desiredPath.length⟩, ⟨source, l.suffixToKeep⟩,
    ⟨l.position + desiredPath.length, l.suffixToKeep⟩,
    ⟨l.position + (desiredPath.length + l.suffixToKeep),
      l.totalSize - desiredPath.length - l.suffixToKeep⟩], ?_, ?_⟩
  · simp only [List.forall_mem_cons, Range.Within, range]
    exact ⟨by omega, by omega, by omega, by omega, by simp⟩
  · have hread : source + l.suffixToKeep ≤ f₁.length := by omega
    have hwrite : l.position + desiredPath.length + l.suffixToKeep ≤ f₁.length := by omega
    have hclear : l.position + (desiredPath.length + l.suffixToKeep) +
        (l.totalSize - desiredPath.length - l.suffixToKeep) ≤ f₂.length := by omega
    have hsource' : (l.position + l.totalSize - l.suffixToKeep : ℤ) = (source : ℕ) := by omega
    have hmove : Buffer.memmove ((l.position + desiredPath.length : ℕ) : ℤ) (source : ℕ)
        l.suffixToKeep ⟨f₁, file.accesses ++ [⟨l.position, desiredPath.length⟩]⟩ = _ :=
      Buffer.memmove_ok hread hwrite
    have hset : Buffer.memset ((l.position + (desiredPath.length + l.suffixToKeep) : ℕ) : ℤ) 0
        (l.totalSize - desiredPath.length - l.suffixToKeep)
        ⟨f₂, file.accesses ++ [⟨l.position, desiredPath.length⟩] ++
          [⟨source, l.suffixToKeep⟩, ⟨l.position + desiredPath.length, l.suffixToKeep⟩]⟩ = _ :=
      Buffer.memset_ok hclear
    simp only [hsuffix] at hmove
    rw [patchLocation, if_neg (by omega), Buffer.memcpy_ok hpath, ok_bind, hsource',
      ← Nat.cast_add, hmove, ok_bind]
    simp only [← Nat.cast_add, hzeros]
    rw [hset]
    simp only [ok_bind, hcleared, pure_eq_ok, List.append_assoc, List.cons_append,
      List.nil_append]

/-- Whatever happens at a location, what was accessed before stays recorded. -/
theorem patchLocation_accesses {room : Bool}
    (h : patchLocation desiredPath l file = .ok (room, g)) : file.accesses ⊆ g.accesses := by
  unfold patchLocation at h
  split at h
  · cases h
    exact List.Subset.refl _
  · obtain ⟨g₁, hcopy, h⟩ := bind_eq_ok.mp h
    obtain ⟨g₂, hmove, h⟩ := bind_eq_ok.mp h
    obtain ⟨g₃, hset, h⟩ := bind_eq_ok.mp h
    cases h
    obtain ⟨r, -, hr⟩ := Buffer.memcpy_accesses hcopy
    obtain ⟨s, t, -, -, hst⟩ := Buffer.memmove_accesses hmove
    obtain ⟨u, -, hu⟩ := Buffer.memset_accesses hset
    intro a ha
    rw [hu, hst, hr]
    simp [ha]

/-- A path that has room in a location, but not together with the suffix, makes the last
size wrap around. -/
theorem patchLocation_wraps {room : Bool} (hpath : desiredPath.length ≤ l.totalSize)
    (hroom : l.totalSize < desiredPath.length + l.suffixToKeep) (hsmall : l.totalSize < 2 ^ 32)
    (hkept : l.suffixToKeep ≤ l.totalSize) (h : patchLocation desiredPath l file = .ok (room, g)) :
    ∃ r ∈ g.accesses, 2 ^ 32 ≤ r.size := by
  unfold patchLocation at h
  rw [if_neg (by omega)] at h
  obtain ⟨g₁, hcopy, h⟩ := bind_eq_ok.mp h
  obtain ⟨g₂, hmove, h⟩ := bind_eq_ok.mp h
  obtain ⟨g₃, hset, h⟩ := bind_eq_ok.mp h
  cases h
  obtain ⟨r, hsize, hr⟩ := Buffer.memset_accesses hset
  refine ⟨r, by rw [hr]; simp, ?_⟩
  rw [hsize]
  unfold sizeValue
  omega

end OneLocation

/-! ## All locations of a file -/

section AllLocations

variable {desiredPath : Bytes} {locations : List Location} {file : Buffer}

/-- A location in file `f` with room for the path and the suffix. -/
structure Room (f desiredPath : Bytes) (l : Location) : Prop where
  inFile : l.position + l.totalSize ≤ f.length
  fits : desiredPath.length + l.suffixToKeep ≤ l.totalSize
  small : l.totalSize < 2 ^ 32

/-- After the first location, the locations that are disjoint from it are as they were. -/
theorem Patched.cons {f g : Bytes} {l : Location} (hl : Room f desiredPath l)
    (hrooms : ∀ l' ∈ locations, Room f desiredPath l')
    (hdisjoint : ∀ l' ∈ locations, (range l).Disjoint (range l'))
    (h : Patched (overwrite f l.position (patched f desiredPath l)) locations desiredPath g) :
    Patched f (l :: locations) desiredPath g := by
  have hlength := length_patched hl.inFile hl.fits
  have hwritten : l.position + (patched f desiredPath l).length ≤ f.length := by
    rw [hlength]
    exact hl.inFile
  constructor
  · rw [h.length, length_overwrite hwritten]
  · intro l' hl'
    rcases List.mem_cons.mp hl' with rfl | hl'
    · -- The rest of the locations does not touch the first one.
      have hslice : slice g l'.position l'.totalSize
          = slice (overwrite f l'.position (patched f desiredPath l')) l'.position
              l'.totalSize := by
        apply slice_congr
        intro i hle hlt
        apply h.outside i
        intro m hm hcontains
        have hapart := hdisjoint m hm
        simp only [Range.Disjoint, Range.Contains, range] at hapart hcontains
        omega
      have hback := slice_overwrite hwritten
      rw [hlength] at hback
      rw [hslice, hback]
    · rw [h.inside l' hl']
      apply patched_congr (by have hfits := (hrooms l' hl').fits; omega)
      intro i hle hlt
      have hapart := hdisjoint l' hl'
      simp only [Range.Disjoint, range] at hapart
      rw [getElem?_overwrite hwritten, if_neg (by omega)]
  · intro i hi
    obtain ⟨hout, hrest⟩ := List.forall_mem_cons.mp hi
    simp only [Range.Contains, range] at hout
    rw [h.outside i hrest, getElem?_overwrite hwritten, if_neg (by omega)]

/-- Disjoint locations with room are all patched. The induction is on the locations; the
first one leaves room in the others. -/
theorem patchFile_ok (hrooms : ∀ l ∈ locations, Room file.bytes desiredPath l)
    (hdisjoint : locations.Pairwise fun l m => (range l).Disjoint (range m)) :
    ∃ g accesses, patchFile desiredPath locations file
        = .ok (true, ⟨g, file.accesses ++ accesses⟩) ∧
      (∀ r ∈ accesses, ∃ l ∈ locations, r.Within (range l)) ∧
      Patched file.bytes locations desiredPath g := by
  induction locations generalizing file with
  | nil =>
      refine ⟨file.bytes, [], ?_, by simp, rfl, by simp, fun _ _ => rfl⟩
      rw [patchFile, List.append_nil]
  | cons l locations ih =>
      obtain ⟨hl, hrest⟩ := List.forall_mem_cons.mp hrooms
      obtain ⟨hapart, hdisjoint⟩ := List.pairwise_cons.mp hdisjoint
      have hsmall := hl.small
      obtain ⟨accesses, hwithin, hpatch⟩ := patchLocation_ok hl.inFile hl.fits (by omega)
      set file' : Buffer := ⟨overwrite file.bytes l.position (patched file.bytes desiredPath l),
        file.accesses ++ accesses⟩ with hfile'
      have hlength : file'.bytes.length = file.bytes.length := by
        apply length_overwrite
        rw [length_patched hl.inFile hl.fits]
        exact hl.inFile
      have hrooms' : ∀ m ∈ locations, Room file'.bytes desiredPath m := by
        intro m hm
        exact ⟨by rw [hlength]; exact (hrest m hm).inFile, (hrest m hm).fits, (hrest m hm).small⟩
      obtain ⟨g, accesses', hfile, hwithin', hpatched⟩ := ih hrooms' hdisjoint
      refine ⟨g, accesses ++ accesses', ?_, ?_, hpatched.cons hl hrest hapart⟩
      · rw [patchFile, hpatch, ok_bind, ← List.append_assoc]
        exact hfile
      · intro r hr
        rcases List.mem_append.mp hr with hr | hr
        · exact ⟨l, List.mem_cons_self, hwithin r hr⟩
        · obtain ⟨m, hm, hr⟩ := hwithin' r hr
          exact ⟨m, List.mem_cons_of_mem _ hm, hr⟩

theorem patchFile_accesses {room : Bool} {g : Buffer}
    (h : patchFile desiredPath locations file = .ok (room, g)) :
    file.accesses ⊆ g.accesses := by
  induction locations generalizing file with
  | nil =>
      cases h
      exact List.Subset.refl _
  | cons l locations ih =>
      rw [patchFile] at h
      obtain ⟨⟨room', g'⟩, hlocation, h⟩ := bind_eq_ok.mp h
      have hfirst := patchLocation_accesses hlocation
      cases room' with
      | false =>
          cases h
          exact hfirst
      | true => exact List.Subset.trans hfirst (ih h)

end AllLocations

/-! ## Locations found by the servant -/

section Found

variable {f pathPrefix desiredPath : Bytes} {suffix : String} {rs : List (ℕ × ℕ)}

/-- The locations that the servant reports for the occurrences it found. -/
def reported (pathPrefix : Bytes) (rs : List (ℕ × ℕ)) : List Location :=
  rs.map fun r => Daemon.Cloud.location pathPrefix r.1 r.2

/-- The new path is no longer than the servant's, or the first location has no room for it. -/
def Fits (pathPrefix desiredPath : Bytes) (locations : List Location) : Prop :=
  desiredPath.length ≤ pathPrefix.length ∨
    ∀ l ∈ locations.head?, l.totalSize < desiredPath.length

instance (locations : List Location) : Decidable (Fits pathPrefix desiredPath locations) :=
  inferInstanceAs (Decidable (_ ∨ _))

/-- A reported location is in the file, and what it keeps is what follows the prefix. -/
theorem reported_bounds (h : Occurrences f pathPrefix 0 rs) {l : Location}
    (hl : l ∈ reported pathPrefix rs) :
    l.position + l.totalSize ≤ f.length ∧ l.totalSize = pathPrefix.length + l.suffixToKeep ∧
      l.totalSize < 2 ^ 32 := by
  obtain ⟨r, hr, rfl⟩ := List.mem_map.mp hl
  have hoccurrence := (h.1 r hr).1
  obtain ⟨hposition, htotal, hkept⟩ := hoccurrence.location
  have hlong := hoccurrence.long
  have hshort := hoccurrence.short
  have hstop := hoccurrence.stop_lt
  have hmod := Nat.mod_le r.1 (2 ^ 32)
  have hmax : pathMax = 4096 := rfl
  rw [hposition, htotal, hkept]
  omega

/-- In a file of at most 4 GiB no position is cut, so the locations do not overlap. -/
theorem reported_disjoint (h : Occurrences f pathPrefix 0 rs) (hlength : f.length ≤ 2 ^ 32) :
    (reported pathPrefix rs).Pairwise fun l m => (range l).Disjoint (range m) := by
  rw [reported, List.pairwise_map]
  apply List.Pairwise.imp_of_mem _ h.2
  intro r s hr hs hrs
  have hfirst := (h.1 r hr).1
  have hsecond := (h.1 s hs).1
  have hlt := hfirst.stop_lt
  have hlt' := hsecond.stop_lt
  have hlong := hfirst.long
  have hlong' := hsecond.long
  obtain ⟨hposition, htotal, -⟩ := hfirst.location
  obtain ⟨hposition', -, -⟩ := hsecond.location
  rw [Nat.mod_eq_of_lt (by omega)] at hposition hposition'
  simp only [Range.Disjoint, range, hposition, htotal, hposition']
  omega

theorem patchesSafely_of_patchFile {locations : List Location} {room : Bool} {g : Buffer}
    (h : patchFile desiredPath locations (.ofBytes f) = .ok (room, g))
    (hwithin : ∀ r ∈ g.accesses, ∃ l ∈ locations, r.Within (range l))
    (hpatched : room = true → Patched f locations desiredPath g.bytes) :
    PatchesSafely suffix f locations desiredPath := by
  refine ⟨room, g, ?_, hwithin, hpatched⟩
  rw [patchPathOccurrences_single, h]
  rfl

theorem PatchesSafely.patchFile {locations : List Location}
    (h : PatchesSafely suffix f locations desiredPath) :
    ∃ room g, patchFile desiredPath locations (.ofBytes f) = .ok (room, g) ∧
      ∀ r ∈ g.accesses, ∃ l ∈ locations, r.Within (range l) := by
  obtain ⟨room, g, hrun, hwithin, -⟩ := h
  rw [patchPathOccurrences_single] at hrun
  cases hfile : Client.patchFile desiredPath locations (.ofBytes f) with
  | error e =>
      rw [hfile] at hrun
      cases hrun
  | ok r =>
      rw [hfile] at hrun
      cases hrun
      exact ⟨_, _, rfl, hwithin⟩

theorem patchesSafely_of_fits (h : Occurrences f pathPrefix 0 rs)
    (hdisjoint : (reported pathPrefix rs).Pairwise fun l m => (range l).Disjoint (range m))
    (hfits : Fits pathPrefix desiredPath (reported pathPrefix rs)) :
    PatchesSafely suffix f (reported pathPrefix rs) desiredPath := by
  by_cases hrooms : ∀ l ∈ reported pathPrefix rs, Room (Buffer.ofBytes f).bytes desiredPath l
  · obtain ⟨g, accesses, hfile, hwithin, hpatched⟩ := patchFile_ok hrooms hdisjoint
    exact patchesSafely_of_patchFile hfile hwithin fun _ => hpatched
  · have hlong : ¬desiredPath.length ≤ pathPrefix.length := by
      intro hshort
      apply hrooms
      intro l hl
      obtain ⟨hin, htotal, hsmall⟩ := reported_bounds h hl
      exact ⟨hin, by omega, hsmall⟩
    have hfirst := hfits.resolve_left hlong
    cases hlocations : reported pathPrefix rs with
    | nil =>
        rw [hlocations] at hrooms
        exact absurd (by simp) hrooms
    | cons l locations =>
        rw [hlocations] at hfirst
        have hguard : l.totalSize < desiredPath.length := hfirst l rfl
        have hrun : patchFile desiredPath (l :: locations) (.ofBytes f)
            = .ok (false, .ofBytes f) := by
          rw [patchFile, patchLocation, if_pos hguard]
          rfl
        exact patchesSafely_of_patchFile hrun (by simp [Buffer.ofBytes]) (by simp)

/-- A path that is longer than the prefix but passes the check wraps the size of the last
copy around, which leaves every location. -/
theorem fits_of_patchesSafely (h : Occurrences f pathPrefix 0 rs)
    (hsafe : PatchesSafely suffix f (reported pathPrefix rs) desiredPath) :
    Fits pathPrefix desiredPath (reported pathPrefix rs) := by
  by_contra hfits
  obtain ⟨hlong, hguard⟩ := not_or.mp hfits
  cases hlocations : reported pathPrefix rs with
  | nil =>
      rw [hlocations] at hguard
      exact hguard (by simp)
  | cons l locations =>
      have hmem : l ∈ reported pathPrefix rs := by
        rw [hlocations]
        exact List.mem_cons_self
      obtain ⟨-, htotal, hsmall⟩ := reported_bounds h hmem
      have hpath : desiredPath.length ≤ l.totalSize := by
        by_contra hlt
        apply hguard
        rw [hlocations]
        rintro l' ⟨⟩
        omega
      obtain ⟨room, g, hrun, hwithin⟩ := hsafe.patchFile
      rw [hlocations, patchFile] at hrun
      obtain ⟨⟨room', g'⟩, hlocation, hrest⟩ := bind_eq_ok.mp hrun
      obtain ⟨r, hr, hhuge⟩ :=
        patchLocation_wraps hpath (by omega) hsmall (by omega) hlocation
      have hr : r ∈ g.accesses := by
        cases room' with
        | false =>
            cases hrest
            exact hr
        | true => exact patchFile_accesses hrest hr
      obtain ⟨m, hm, hin⟩ := hwithin r hr
      obtain ⟨-, -, hsmall'⟩ := reported_bounds h hm
      simp only [Range.Within, range] at hin
      omega

end Found

/-- Patching with the servant's locations stays inside them and patches the file exactly if
the new path is no longer than the servant's, or fails the check at the first location. Only
a file of more than 4 GiB can have overlapping locations; there the condition is still
necessary. -/
theorem patchPathOccurrences_safe_iff (suffix : String) (f desiredPath : Bytes)
    {pathPrefix : Bytes} (hne : pathPrefix ≠ []) (hnul : (0 : UInt8) ∉ pathPrefix) :
    ∃ locations, findAllPathLocation f pathPrefix = some locations ∧
      (f.length ≤ 2 ^ 32 →
        locations.Pairwise fun l m => (range l).Disjoint (range m)) ∧
      ((locations.Pairwise fun l m => (range l).Disjoint (range m)) →
        (PatchesSafely suffix f locations desiredPath ↔
          Fits pathPrefix desiredPath locations)) ∧
      (PatchesSafely suffix f locations desiredPath →
        Fits pathPrefix desiredPath locations) := by
  obtain ⟨rs, hfind, h⟩ := Daemon.Cloud.findAllPathLocation_ok hne hnul f
  refine ⟨reported pathPrefix rs, hfind, reported_disjoint h, ?_, fits_of_patchesSafely h⟩
  intro hdisjoint
  exact ⟨fits_of_patchesSafely h, patchesSafely_of_fits h hdisjoint⟩

theorem patchPathOccurrences_safe_iff_short :
    PatchesSafely ".gcno" (asciiBytes "x/tmp/b.gcno" ++ [0, 7]) [⟨1, 11, 5⟩]
      (asciiBytes "/src") := by
  obtain ⟨locations, hfind, hdisjoint, hsafe, -⟩ := patchPathOccurrences_safe_iff ".gcno"
    (asciiBytes "x/tmp/b.gcno" ++ [0, 7]) (asciiBytes "/src")
    (by decide : asciiBytes "/tmp/b" ≠ []) (by decide)
  have hlocations : locations = [⟨1, 11, 5⟩] := by
    have hcomputed : findAllPathLocation (asciiBytes "x/tmp/b.gcno" ++ [0, 7])
        (asciiBytes "/tmp/b") = some [⟨1, 11, 5⟩] := by decide
    rw [hcomputed] at hfind
    exact (Option.some.inj hfind).symm
  subst hlocations
  exact (hsafe (hdisjoint (by decide))).mpr (by decide)

/-- A path of the length of a whole location passes the check and overruns the file. -/
theorem patchPathOccurrences_overrun :
    findAllPathLocation (asciiBytes "/ab" ++ [0]) (asciiBytes "/a") = some [⟨0, 3, 1⟩] ∧
    patchFile (asciiBytes "/xy") [⟨0, 3, 1⟩] (.ofBytes (asciiBytes "/ab" ++ [0]))
      = .error .overrun ∧
    ¬PatchesSafely ".gcno" (asciiBytes "/ab" ++ [0]) [⟨0, 3, 1⟩] (asciiBytes "/xy") := by
  have hrun : patchFile (asciiBytes "/xy") [⟨0, 3, 1⟩] (.ofBytes (asciiBytes "/ab" ++ [0]))
      = .error .overrun := rfl
  refine ⟨by decide, hrun, ?_⟩
  intro hsafe
  obtain ⟨room, g, hok, -⟩ := hsafe.patchFile
  rw [hrun] at hok
  cases hok

end Yadcc.Client
