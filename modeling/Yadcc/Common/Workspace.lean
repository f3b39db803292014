/-
# Sanitizing the workspace

At start-up and before each purge the workspace of a shard is walked level by level. What is
not a directory is removed above the level of the files, and directories are removed at it.
What is taken for a directory is found with a bit of the type of the entry. The types are an
enumeration though, and block devices and sockets have that bit, too. This module tells
exactly when the walk succeeds, and what it leaves then.
-/

import Yadcc.Common.DiskCache
import Yadcc.Lib.Checked
import Yadcc.Lib.FileTree

namespace Yadcc

open Yadcc.Lib

/-! ## Directories -/

/-- Checks that end the program, and a counter out of its range. -/
inductive WorkspaceFault
  | openFailed
  | unlinkFailed
  | rmdirFailed
  | levelOverflow
  | diverged
  deriving DecidableEq

def DT_CHR : ℕ := 2
def DT_DIR : ℕ := 4
def DT_BLK : ℕ := 6
def DT_REG : ℕ := 8
def DT_LNK : ℕ := 10
def DT_SOCK : ℕ := 12

/-- `d_type` of an entry. -/
def dType : FileType → ℕ
  | .fifo => 1
  | .charDevice => DT_CHR
  | .directory => DT_DIR
  | .blockDevice => DT_BLK
  | .regular => DT_REG
  | .symlink => DT_LNK
  | .socket => DT_SOCK

/-- The number of the inode is left out. -/
structure DirEntry where
  name : String
  isBlockDev : Bool
  isCharDev : Bool
  isDir : Bool
  isSymlink : Bool
  isRegular : Bool
  isUnixSocket : Bool
  deriving DecidableEq

/-- `!!(type & flag)`. -/
def hasFlag (type : FileType) (flag : ℕ) : Bool := decide (dType type &&& flag ≠ 0)

def dirEntry (ent : String × FileType) : DirEntry where
  name := ent.1
  isBlockDev := hasFlag ent.2 DT_BLK
  isCharDev := hasFlag ent.2 DT_CHR
  isDir := hasFlag ent.2 DT_DIR
  isSymlink := hasFlag ent.2 DT_LNK
  isRegular := hasFlag ent.2 DT_REG
  isUnixSocket := hasFlag ent.2 DT_SOCK

def enumerateDir (path : List String) (t : FileTree) : Except WorkspaceFault (List DirEntry) :=
  match t.readdir path with
  | none => .error .openFailed
  | some ents => .ok (ents.map dirEntry)

/-- Each entry is unlinked; where that says that it is a directory, it is removed first. The
first argument bounds the depth of the recursion. -/
def removeDirs : ℕ → List String → FileTree → Except WorkspaceFault FileTree
  | 0, _, _ => .error .diverged
  | fuel + 1, path, t =>
      match t.readdir path with
      | none => .error .openFailed
      | some ents => do
          let t ← ents.foldlM (fun t ep =>
            match t.unlink (path ++ [ep.1]) with
            | .ok t => .ok t
            | .error .isDirectory => removeDirs fuel (path ++ [ep.1]) t
            | .error .noEntry => .error .unlinkFailed) t
          match t.rmdir path with
          | none => .error .rmdirFailed
          | some t => .ok t

/-! ## The walk -/

/-- One entry of the directory `e`. What stays is appended to `elements`. -/
def sanitizeEntry (atFiles : Bool) (e : List String) (s : FileTree × List (List String))
    (ee : DirEntry) : Except WorkspaceFault (FileTree × List (List String)) :=
  let fullName := e ++ [ee.name]
  if atFiles && ee.isDir then do
    let t ← removeDirs (s.1.height + 1) fullName s.1
    return (t, s.2)
  else if !atFiles && !ee.isDir then
    match s.1.unlink fullName with
    | .error _ => .error .unlinkFailed
    | .ok t => .ok (t, s.2)
  else .ok (s.1, s.2 ++ [fullName])

def sanitizeDir (atFiles : Bool) (s : FileTree × List (List String)) (e : List String) :
    Except WorkspaceFault (FileTree × List (List String)) := do
  let subs ← enumerateDir e s.1
  subs.foldlM (sanitizeEntry atFiles e) s

/-- The loop over the levels. `level` is an `int`: `left` is how often it can still be
incremented. -/
def sanitizeLevels (kLevelToFile : UInt64) : (left level : ℕ) → List (List String) → FileTree →
    Except WorkspaceFault (List (List String) × FileTree)
  | 0, _, _, _ => .error .levelOverflow
  | left + 1, level, dirs, t =>
      if level = kLevelToFile.toNat then .ok (dirs, t)
      else do
        let (t, elements) ←
          dirs.foldlM (sanitizeDir (decide (level + 1 = kLevelToFile.toNat))) (t, [])
        sanitizeLevels kLevelToFile left (level + 1) elements t

def INT_MAX : ℕ := 2 ^ 31 - 1

/-- Paths are relative to the directory of the shard. -/
def sanitizeWorkspaceAndEnumerate (subDirLevel : UInt64) (t : FileTree) :
    Except WorkspaceFault (List (List String) × FileTree) :=
  let kLevelToFile := subDirLevel + 1
  sanitizeLevels kLevelToFile INT_MAX 0 [[]] t

/-! ## What it is for -/

/-- Something else than a directory above the level of the files, or something in (or as) a
directory at this level. -/
def Misplaced (subDirLevel : ℕ) (t : FileTree) (p : List String) : Prop :=
  (p.length ≤ subDirLevel ∧ ∃ type, t.lookup p = some type ∧ type ≠ .directory) ∨
    ∃ d, d <+: p ∧ d.length = subDirLevel + 1 ∧ t.lookup d = some .directory

/-- Exactly what is misplaced is gone, and the files are listed without repetition. -/
structure Sanitized (subDirLevel : ℕ) (t t' : FileTree) (files : List (List String)) : Prop where
  cut : t.Cut (Misplaced subDirLevel t) t'
  nodup : files.Nodup
  mem : ∀ p, p ∈ files ↔
    p.length = subDirLevel + 1 ∧ ∃ type, t.lookup p = some type ∧ type ≠ .directory

/-- The bit of directories, but not one. -/
def TakenForDirectory (type : FileType) : Prop := type = .blockDevice ∨ type = .socket

instance (type : FileType) : Decidable (TakenForDirectory type) :=
  inferInstanceAs (Decidable (_ ∨ _))

/-- Nothing that can be seen by the walk is taken for a directory without being one, and the
counter of the levels does not overflow. -/
structure WalkSucceeds (subDirLevel : ℕ) (t : FileTree) : Prop where
  types : ∀ p type, t.lookup p = some type → p.length ≤ subDirLevel + 1 →
    ¬TakenForDirectory type
  level : subDirLevel + 2 < 2 ^ 31

/-! ## Removing a directory -/

section Remove

/-- Two paths of one length that lead to the same place are the same. -/
theorem eq_of_fronts {x y p : List String} (hx : x <+: p) (hy : y <+: p)
    (hlength : x.length = y.length) : x = y :=
  (List.prefix_of_prefix_length_le hx hy hlength.le).eq_of_length hlength

/-- Below the directory, and not at or below an entry that is still to come. -/
def Gone (path : List String) (ents : List (String × FileType)) (p : List String) : Prop :=
  path <+: p ∧ p ≠ path ∧ ∀ ep ∈ ents, ¬path ++ [ep.1] <+: p

theorem gone_cons {path p : List String} {ep : String × FileType}
    {ents : List (String × FileType)} (hname : ep.1 ∉ ents.map Prod.fst) :
    Gone path (ep :: ents) p ∨ path ++ [ep.1] <+: p ↔ Gone path ents p := by
  constructor
  · rintro (⟨hfront, hne, hnone⟩ | hbelow)
    · exact ⟨hfront, hne, fun e he => hnone e (List.mem_cons_of_mem ep he)⟩
    · refine ⟨(List.prefix_append path _).trans hbelow, ?_, ?_⟩
      · rintro rfl
        have hlength := hbelow.length_le
        rw [List.length_append, List.length_singleton] at hlength
        omega
      · intro e he hother
        have heq := eq_of_fronts hbelow hother (by simp)
        rw [List.append_cancel_left_eq, List.singleton_inj] at heq
        exact hname (heq ▸ List.mem_map_of_mem he)
  · rintro ⟨hfront, hne, hnone⟩
    by_cases hbelow : path ++ [ep.1] <+: p
    · exact Or.inr hbelow
    · refine Or.inl ⟨hfront, hne, ?_⟩
      intro e he
      rcases List.mem_cons.mp he with rfl | he
      · exact hbelow
      · exact hnone e he

/-- In the middle of the removal of a directory: the entries that are still to come are there,
and what is gone from the tree is below the others. -/
structure Removing (path : List String) (t : FileTree) (ents : List (String × FileType))
    (s : FileTree) : Prop where
  entries : ∀ ep ∈ ents, ep ∈ t.entries path
  nodup : (ents.map Prod.fst).Nodup
  cut : t.Cut (Gone path ents) s

section Removing

variable {path : List String} {t s s' : FileTree} {ep : String × FileType}
  {ents : List (String × FileType)}

theorem Removing.start (path : List String) (t : FileTree) :
    Removing path t (t.entries path) t where
  entries ep hep := hep
  nodup := t.nodup_entries path
  cut := by
    refine ⟨?_, fun p _ => rfl⟩
    rintro p ⟨hfront, hne, hnone⟩
    by_contra hnode
    obtain ⟨ep, hep, hbelow⟩ := FileTree.exists_entry hfront hne hnode
    exact hnone ep hep hbelow

theorem Removing.lookup (h : Removing path t (ep :: ents) s) :
    s.lookup (path ++ [ep.1]) = some ep.2 := by
  rw [h.cut.kept]
  · exact FileTree.mem_entries.mp (h.entries ep List.mem_cons_self)
  · rintro ⟨-, -, hnone⟩
    exact hnone ep List.mem_cons_self List.prefix_rfl

theorem Removing.next (h : Removing path t (ep :: ents) s)
    (hcut : s.Cut (path ++ [ep.1] <+: ·) s') : Removing path t ents s' where
  entries e he := h.entries e (List.mem_cons_of_mem ep he)
  nodup := (List.nodup_cons.mp h.nodup).2
  cut := (h.cut.trans hcut).congr fun _ _ => gone_cons (List.nodup_cons.mp h.nodup).1

/-- When no entry is to come, the directory is left, and it is empty. -/
theorem Removing.done (h : Removing path t [] s) (hdir : t.lookup path = some .directory) :
    s.lookup path = some .directory ∧ s.entries path = [] := by
  constructor
  · rw [h.cut.kept path fun hgone => hgone.2.1 rfl]
    exact hdir
  · rw [List.eq_nil_iff_forall_not_mem]
    rintro ⟨name, type⟩ hmem
    have hnone := h.cut.removed (path ++ [name]) ⟨List.prefix_append path _, by simp, nofun⟩
    rw [FileTree.mem_entries.mp hmem] at hnone
    cases hnone

end Removing

/-- A directory is removed with all that is below it, sockets and devices included. The
recursion ends as soon as it is deeper than the tree. -/
theorem removeDirs_ok (fuel : ℕ) : ∀ (path : List String) (t : FileTree), path ≠ [] →
    t.lookup path = some .directory →
    (∀ p, t.lookup p ≠ none → path <+: p → p.length < path.length + fuel) →
    ∃ t', removeDirs fuel path t = .ok t' ∧ t.Cut (path <+: ·) t' := by
  induction fuel with
  | zero =>
      intro path t _ hdir hfuel
      exact absurd (hfuel path (by rw [hdir]; nofun) List.prefix_rfl) (Nat.lt_irrefl _)
  | succ fuel ih =>
      intro path t hpath hdir hfuel
      have hstep : ∀ ep ents s, Removing path t (ep :: ents) s → ∃ s',
          (match s.unlink (path ++ [ep.1]) with
            | .ok t => .ok t
            | .error .isDirectory => removeDirs fuel (path ++ [ep.1]) s
            | .error .noEntry => .error .unlinkFailed) = Except.ok s' ∧
              Removing path t ents s' := by
        intro ep ents s hs
        have hlookup := hs.lookup
        by_cases htype : ep.2 = .directory
        · rw [htype] at hlookup
          rw [FileTree.unlink_directory hlookup]
          obtain ⟨s', hs', hcut⟩ := ih (path ++ [ep.1]) s (by simp) hlookup (by
            intro p hp hfront
            have hnode := hp
            rw [(hs.cut.lookup_ne_none hp).2] at hnode
            have hlt := hfuel p hnode ((List.prefix_append path _).trans hfront)
            rw [List.length_append, List.length_singleton]
            omega)
          exact ⟨s', hs', hs.next hcut⟩
        · obtain ⟨s', hunlink, hcut⟩ := FileTree.unlink_ok hlookup htype
          rw [hunlink]
          exact ⟨s', rfl, hs.next hcut⟩
      obtain ⟨s, hs, hremoving⟩ := foldlM_ok hstep (t.entries path) t (.start path t)
      obtain ⟨hkept, hempty⟩ := hremoving.done hdir
      obtain ⟨t', hrmdir, hlookup⟩ := FileTree.rmdir_ok hpath hkept hempty
      refine ⟨t', ?_, ?_, ?_⟩
      · rw [removeDirs, FileTree.readdir, if_pos hdir]
        dsimp only
        rw [hs, ok_bind, hrmdir]
      · intro p hfront
        rw [hlookup]
        split
        · rfl
        · next hne => exact hremoving.cut.removed p ⟨hfront, hne, nofun⟩
      · intro p hfront
        have hne : p ≠ path := by
          rintro rfl
          exact hfront List.prefix_rfl
        rw [hlookup, if_neg hne, hremoving.cut.kept p fun h => hfront h.1]

end Remove

/-! ## One level -/

section Level

variable {atFiles : Bool} {t t₁ t₂ : FileTree}

theorem hasFlag_dir_iff {type : FileType} :
    hasFlag type DT_DIR = true ↔ type = .directory ∨ TakenForDirectory type := by
  cases type <;> decide

/-- The candidates with the right bit stay and are listed, the others are gone with all that
is below them. -/
structure Swept (atFiles : Bool) (candidates : List String → Prop) (t t' : FileTree)
    (elements : List (List String)) : Prop where
  cut : t.Cut (fun p => ∃ c type, candidates c ∧ c <+: p ∧ t.lookup c = some type ∧
    hasFlag type DT_DIR = atFiles) t'
  nodup : elements.Nodup
  mem : ∀ p, p ∈ elements ↔
    candidates p ∧ ∃ type, t.lookup p = some type ∧ hasFlag type DT_DIR ≠ atFiles

/-- Candidates are not affected by a sweep over candidates that are not above them. -/
theorem Swept.lookup_eq {candidates : List String → Prop} {elements : List (List String)}
    (h : Swept atFiles candidates t t₁ elements) {p : List String}
    (hp : ∀ c, candidates c → ¬c <+: p) : t₁.lookup p = t.lookup p := by
  apply h.cut.kept
  rintro ⟨c, type, hc, hfront, -⟩
  exact hp c hc hfront

theorem Swept.trans {first second : List String → Prop} {elements elements' : List (List String)}
    (h : Swept atFiles first t t₁ elements) (h' : Swept atFiles second t₁ t₂ elements')
    (hapart : ∀ c c', first c → second c' → ¬c <+: c') :
    Swept atFiles (fun p => first p ∨ second p) t t₂ (elements ++ elements') := by
  have hlookup : ∀ c, second c → t₁.lookup c = t.lookup c := fun c hc =>
    h.lookup_eq fun c' hc' => hapart c' c hc' hc
  refine ⟨(h.cut.trans h'.cut).congr ?_, ?_, ?_⟩
  · intro p _
    constructor
    · rintro (⟨c, type, hc, hrest⟩ | ⟨c, type, hc, hfront, htype, hflag⟩)
      · exact ⟨c, type, Or.inl hc, hrest⟩
      · rw [hlookup c hc] at htype
        exact ⟨c, type, Or.inr hc, hfront, htype, hflag⟩
    · rintro ⟨c, type, hc | hc, hfront, htype, hflag⟩
      · exact Or.inl ⟨c, type, hc, hfront, htype, hflag⟩
      · rw [← hlookup c hc] at htype
        exact Or.inr ⟨c, type, hc, hfront, htype, hflag⟩
  · rw [List.nodup_append]
    refine ⟨h.nodup, h'.nodup, ?_⟩
    rintro p hp q hq rfl
    exact hapart p p ((h.mem p).mp hp).1 ((h'.mem p).mp hq).1 List.prefix_rfl
  · intro p
    rw [List.mem_append, h.mem, h'.mem]
    constructor
    · rintro (⟨hp, hrest⟩ | ⟨hp, type, htype, hflag⟩)
      · exact ⟨Or.inl hp, hrest⟩
      · rw [hlookup p hp] at htype
        exact ⟨Or.inr hp, type, htype, hflag⟩
    · rintro ⟨hp | hp, type, htype, hflag⟩
      · exact Or.inl ⟨hp, type, htype, hflag⟩
      · rw [← hlookup p hp] at htype
        exact Or.inr ⟨hp, type, htype, hflag⟩

theorem Swept.congr {candidates candidates' : List String → Prop}
    {elements : List (List String)} (h : Swept atFiles candidates t t₁ elements)
    (heq : ∀ p, t.lookup p ≠ none → (candidates p ↔ candidates' p)) :
    Swept atFiles candidates' t t₁ elements := by
  have hsome : ∀ {p : List String} {type : FileType}, t.lookup p = some type →
      (candidates p ↔ candidates' p) := fun htype => heq _ (by rw [htype]; nofun)
  refine ⟨h.cut.congr ?_, h.nodup, ?_⟩
  · intro p _
    constructor
    · rintro ⟨c, type, hc, hfront, htype, hflag⟩
      exact ⟨c, type, (hsome htype).mp hc, hfront, htype, hflag⟩
    · rintro ⟨c, type, hc, hfront, htype, hflag⟩
      exact ⟨c, type, (hsome htype).mpr hc, hfront, htype, hflag⟩
  · intro p
    rw [h.mem]
    constructor
    · rintro ⟨hc, type, htype, hflag⟩
      exact ⟨(hsome htype).mp hc, type, htype, hflag⟩
    · rintro ⟨hc, type, htype, hflag⟩
      exact ⟨(hsome htype).mpr hc, type, htype, hflag⟩

/-- A part of the walk does its work if the condition holds, and fails if it does not. -/
inductive SweepResult (atFiles : Bool) (good : Prop) (candidates : List String → Prop)
    (s : FileTree × List (List String)) :
    Except WorkspaceFault (FileTree × List (List String)) → Prop
  | ok (hgood : good) (t' : FileTree) (elements : List (List String))
      (h : Swept atFiles candidates s.1 t' elements) :
      SweepResult atFiles good candidates s (.ok (t', s.2 ++ elements))
  | error (hbad : ¬good) (err : WorkspaceFault) : SweepResult atFiles good candidates s (.error err)

variable {good good' : Prop} {first second : List String → Prop}
  {s : FileTree × List (List String)}
  {x : Except WorkspaceFault (FileTree × List (List String))}

theorem SweepResult.congr (h : SweepResult atFiles good first s x) (hgood : good ↔ good')
    (heq : ∀ p, s.1.lookup p ≠ none → (first p ↔ second p)) :
    SweepResult atFiles good' second s x := by
  cases h with
  | ok h t' elements hswept => exact .ok (hgood.mp h) t' elements (hswept.congr heq)
  | error h err => exact .error (fun h' => h (hgood.mpr h')) err

/-- Two parts one after the other, over candidates that are apart. -/
theorem SweepResult.bind {f : FileTree × List (List String) →
      Except WorkspaceFault (FileTree × List (List String))}
    (h : SweepResult atFiles good first s x)
    (hapart : ∀ c c', first c → second c' → ¬c <+: c')
    (hrest : ∀ t' elements, Swept atFiles first s.1 t' elements →
      SweepResult atFiles good' second (t', s.2 ++ elements) (f (t', s.2 ++ elements))) :
    SweepResult atFiles (good ∧ good') (fun p => first p ∨ second p) s (x >>= f) := by
  cases h with
  | error h err => exact .error (fun h' => h h'.1) err
  | ok h t' elements hswept =>
      rw [ok_bind]
      have hresult := hrest t' elements hswept
      generalize f (t', s.2 ++ elements) = y at hresult
      cases hresult with
      | error h' err => exact .error (fun h'' => h' h''.2) err
      | ok h' t'' elements' hswept' =>
          rw [List.append_assoc]
          exact .ok ⟨h, h'⟩ t'' _ (hswept.trans hswept' hapart)

/-- One candidate that is gone. -/
theorem swept_gone {c : List String} {type : FileType} (h : t.lookup c = some type)
    (hflag : hasFlag type DT_DIR = atFiles) (hcut : t.Cut (c <+: ·) t₁) :
    Swept atFiles (· = c) t t₁ [] := by
  refine ⟨hcut.congr ?_, List.nodup_nil, ?_⟩
  · intro p _
    constructor
    · intro hfront
      exact ⟨c, type, rfl, hfront, h, hflag⟩
    · rintro ⟨c', type', rfl, hfront, -⟩
      exact hfront
  · intro p
    simp only [List.not_mem_nil, false_iff]
    rintro ⟨rfl, type', htype', hflag'⟩
    rw [h, Option.some.injEq] at htype'
    exact hflag' (htype' ▸ hflag)

/-- One candidate that stays. -/
theorem swept_stays {c : List String} {type : FileType} (h : t.lookup c = some type)
    (hflag : hasFlag type DT_DIR ≠ atFiles) : Swept atFiles (· = c) t t [c] := by
  refine ⟨⟨?_, fun p _ => rfl⟩, List.nodup_singleton _, ?_⟩
  · rintro p ⟨c', type', rfl, -, htype', hflag'⟩
    rw [h, Option.some.injEq] at htype'
    exact absurd (htype' ▸ hflag') hflag
  · intro p
    rw [List.mem_singleton]
    exact ⟨fun hp => ⟨hp, type, hp ▸ h, hflag⟩, fun hp => hp.1⟩

/-- A part that lists nothing. -/
theorem SweepResult.ok_nil {t' : FileTree} (hgood : good) (h : Swept atFiles first s.1 t' []) :
    SweepResult atFiles good first s (.ok (t', s.2)) := by
  have hresult := SweepResult.ok hgood t' [] h
  rw [List.append_nil] at hresult
  exact hresult

/-- One entry. Only at the level of the files it can go wrong. -/
theorem sanitizeEntry_result (atFiles : Bool) {e : List String} {name : String} {type : FileType}
    (h : s.1.lookup (e ++ [name]) = some type) :
    SweepResult atFiles (atFiles = true → ¬TakenForDirectory type) (· = e ++ [name]) s
      (sanitizeEntry atFiles e s (dirEntry (name, type))) := by
  unfold sanitizeEntry
  have hdir : (dirEntry (name, type)).isDir = hasFlag type DT_DIR := rfl
  have hname : (dirEntry (name, type)).name = name := rfl
  rw [hdir, hname]
  cases hflag : hasFlag type DT_DIR with
  | false =>
      have htype : ¬(type = .directory ∨ TakenForDirectory type) := by
        rw [← hasFlag_dir_iff, hflag]
        nofun
      cases atFiles with
      | false =>
          obtain ⟨t', hunlink, hcut⟩ := FileTree.unlink_ok h fun hd => htype (Or.inl hd)
          rw [if_neg (by decide), if_pos (by decide), hunlink]
          exact .ok_nil nofun (swept_gone h hflag hcut)
      | true => exact .ok (fun _ ht => htype (Or.inr ht)) _ _ (swept_stays h (by rw [hflag]; nofun))
  | true =>
      cases atFiles with
      | false => exact .ok nofun _ _ (swept_stays h (by rw [hflag]; nofun))
      | true =>
          rw [if_pos (by decide)]
          rcases hasFlag_dir_iff.mp hflag with rfl | htaken
          · obtain ⟨t', hremove, hcut⟩ := removeDirs_ok (s.1.height + 1) (e ++ [name]) s.1
              (by simp) h (by
                intro p hp _
                obtain ⟨type', htype'⟩ := Option.ne_none_iff_exists'.mp hp
                have hheight := FileTree.length_le_height htype'
                omega)
            rw [hremove]
            exact .ok_nil (by decide) (swept_gone h hflag hcut)
          · have hfailed : removeDirs (s.1.height + 1) (e ++ [name]) s.1 = .error .openFailed := by
              have hne : s.1.lookup (e ++ [name]) ≠ some .directory := by
                rw [h]
                rintro heq
                cases heq
                exact absurd htaken (by decide)
              rw [removeDirs, FileTree.readdir, if_neg hne]
            rw [hfailed]
            exact .error (fun hgood => hgood rfl htaken) _

/-- The entries of one directory, in any order. -/
theorem sanitizeEntries_result (atFiles : Bool) {e : List String} {ents : List (String × FileType)}
    (hnodup : (ents.map Prod.fst).Nodup)
    (h : ∀ ent ∈ ents, s.1.lookup (e ++ [ent.1]) = some ent.2) :
    SweepResult atFiles (atFiles = true → ∀ ent ∈ ents, ¬TakenForDirectory ent.2)
      (fun p => ∃ ent ∈ ents, p = e ++ [ent.1]) s
      ((ents.map dirEntry).foldlM (sanitizeEntry atFiles e) s) := by
  induction ents generalizing s with
  | nil =>
      apply SweepResult.ok_nil nofun
      refine ⟨⟨?_, fun p _ => rfl⟩, List.nodup_nil, ?_⟩
      · rintro p ⟨c, type, ⟨ent, hent, -⟩, -⟩
        cases hent
      · simp
  | cons ent ents ih =>
      obtain ⟨name, type⟩ := ent
      rw [List.map_cons, List.nodup_cons] at hnodup
      have hhead := sanitizeEntry_result atFiles (h (name, type) List.mem_cons_self)
      have hapart : ∀ c c', c = e ++ [name] → (∃ ent ∈ ents, c' = e ++ [ent.1]) →
          ¬c <+: c' := by
        rintro c c' rfl ⟨ent, hent, rfl⟩ hfront
        have heq := eq_of_fronts hfront List.prefix_rfl (by simp)
        rw [List.append_cancel_left_eq, List.singleton_inj] at heq
        exact hnodup.1 (List.mem_map.mpr ⟨ent, hent, heq.symm⟩)
      have hrest : ∀ t' elements, Swept atFiles (· = e ++ [name]) s.1 t' elements →
          SweepResult atFiles (atFiles = true → ∀ ent ∈ ents, ¬TakenForDirectory ent.2)
            (fun p => ∃ ent ∈ ents, p = e ++ [ent.1]) (t', s.2 ++ elements)
            ((ents.map dirEntry).foldlM (sanitizeEntry atFiles e) (t', s.2 ++ elements)) := by
        intro t' elements hswept
        apply ih hnodup.2
        intro ent hent
        rw [hswept.lookup_eq fun c hc => hapart c _ hc ⟨ent, hent, rfl⟩]
        exact h ent (List.mem_cons_of_mem _ hent)
      rw [List.map_cons, List.foldlM_cons]
      apply (hhead.bind hapart hrest).congr
      · rw [← forall_and]
        refine forall_congr' fun _ => ?_
        rw [List.forall_mem_cons]
      · intro p _
        constructor
        · rintro (rfl | ⟨ent, hent, rfl⟩)
          · exact ⟨_, List.mem_cons_self, rfl⟩
          · exact ⟨ent, List.mem_cons_of_mem _ hent, rfl⟩
        · rintro ⟨ent, hent, rfl⟩
          rcases List.mem_cons.mp hent with rfl | hent
          · exact Or.inl rfl
          · exact Or.inr ⟨ent, hent, rfl⟩

/-- What is to be swept is a directory, and at the level of the files nothing in it is taken
for one. -/
def Sweepable (atFiles : Bool) (t : FileTree) (e : List String) : Prop :=
  t.lookup e = some .directory ∧
    (atFiles = true → ∀ name type, t.lookup (e ++ [name]) = some type → ¬TakenForDirectory type)

theorem sanitizeDir_result (e : List String) :
    SweepResult atFiles (Sweepable atFiles s.1 e) (fun p => ∃ name, p = e ++ [name]) s
      (sanitizeDir atFiles s e) := by
  unfold sanitizeDir enumerateDir FileTree.readdir
  by_cases hdir : s.1.lookup e = some .directory
  · rw [if_pos hdir]
    have hentries := sanitizeEntries_result atFiles (s := s) (e := e)
      (s.1.nodup_entries e) fun ent hent => FileTree.mem_entries.mp hent
    apply hentries.congr
    · constructor
      · intro hgood
        refine ⟨hdir, ?_⟩
        intro hfiles name type htype
        exact hgood hfiles (name, type) (FileTree.mem_entries.mpr htype)
      · intro hgood hfiles ent hent
        exact hgood.2 hfiles ent.1 ent.2 (FileTree.mem_entries.mp hent)
    · intro p hp
      constructor
      · rintro ⟨ent, -, rfl⟩
        exact ⟨ent.1, rfl⟩
      · rintro ⟨name, rfl⟩
        obtain ⟨type, htype⟩ := Option.ne_none_iff_exists'.mp hp
        exact ⟨(name, type), FileTree.mem_entries.mpr htype, rfl⟩
  · rw [if_neg hdir]
    exact .error (fun hgood => hdir hgood.1) _

/-- All directories of one level. None of them lies in the way of another. -/
theorem sanitizeDirs_result (atFiles : Bool) {level : ℕ} {dirs : List (List String)}
    (hnodup : dirs.Nodup) (hlevel : ∀ d ∈ dirs, d.length = level) :
    SweepResult atFiles (∀ d ∈ dirs, Sweepable atFiles s.1 d)
      (fun p => ∃ d ∈ dirs, ∃ name, p = d ++ [name]) s
      (dirs.foldlM (sanitizeDir atFiles) s) := by
  induction dirs generalizing s with
  | nil =>
      apply SweepResult.ok_nil nofun
      refine ⟨⟨?_, fun p _ => rfl⟩, List.nodup_nil, ?_⟩
      · rintro p ⟨c, type, ⟨d, hd, -⟩, -⟩
        cases hd
      · simp
  | cons d dirs ih =>
      rw [List.nodup_cons] at hnodup
      rw [List.forall_mem_cons] at hlevel
      have hapart : ∀ d' ∈ dirs, ∀ p, d' <+: p → ∀ c, (∃ name, c = d ++ [name]) → ¬c <+: p := by
        rintro d' hd' p hp c ⟨name, rfl⟩ hfront
        have heq := eq_of_fronts ((List.prefix_append d [name]).trans hfront) hp
          (by rw [hlevel.1, hlevel.2 d' hd'])
        exact hnodup.1 (heq ▸ hd')
      have hrest : ∀ t' elements,
          Swept atFiles (fun p => ∃ name, p = d ++ [name]) s.1 t' elements →
          SweepResult atFiles (∀ d' ∈ dirs, Sweepable atFiles s.1 d')
            (fun p => ∃ d' ∈ dirs, ∃ name, p = d' ++ [name]) (t', s.2 ++ elements)
            (dirs.foldlM (sanitizeDir atFiles) (t', s.2 ++ elements)) := by
        intro t' elements hswept
        apply (ih hnodup.2 hlevel.2).congr
        · refine forall₂_congr fun d' hd' => ?_
          have hlookup : ∀ p, d' <+: p → t'.lookup p = s.1.lookup p := fun p hp =>
            hswept.lookup_eq (hapart d' hd' p hp)
          unfold Sweepable
          rw [hlookup d' List.prefix_rfl]
          refine and_congr_right fun _ => forall_congr' fun _ => forall₂_congr fun name type => ?_
          rw [hlookup _ (List.prefix_append d' [name])]
        · exact fun p _ => Iff.rfl
      rw [List.foldlM_cons]
      apply ((sanitizeDir_result d).bind ?_ hrest).congr
      · rw [List.forall_mem_cons]
      · intro p _
        simp only [List.mem_cons, exists_eq_or_imp]
      · rintro c c' hc ⟨d', hd', name, rfl⟩
        exact hapart d' hd' _ (List.prefix_append d' [name]) c hc

end Level

/-! ## The whole walk -/

section Walk

variable {t₀ t : FileTree} {level subDirLevel : ℕ} {dirs : List (List String)}

/-- What has been done when the walk gets to a level. -/
structure Walked (t₀ : FileTree) (level : ℕ) (dirs : List (List String)) (t : FileTree) :
    Prop where
  cut : t₀.Cut (fun p => p.length ≤ level ∧
    ∃ type, t₀.lookup p = some type ∧ hasFlag type DT_DIR = false) t
  nodup : dirs.Nodup
  mem : ∀ p, p ∈ dirs ↔
    p.length = level ∧ ∃ type, t₀.lookup p = some type ∧ hasFlag type DT_DIR = true

theorem walked_zero (t₀ : FileTree) : Walked t₀ 0 [[]] t₀ where
  cut := by
    refine ⟨?_, fun p _ => rfl⟩
    rintro p ⟨hlength, type, htype, hflag⟩
    rw [List.eq_nil_of_length_eq_zero (Nat.le_zero.mp hlength)] at htype
    cases htype
    cases hflag
  nodup := List.nodup_singleton _
  mem p := by
    rw [List.mem_singleton]
    constructor
    · rintro rfl
      exact ⟨rfl, .directory, rfl, rfl⟩
    · rintro ⟨hlength, -⟩
      exact List.eq_nil_of_length_eq_zero hlength

/-- Below the level nothing has changed. -/
theorem Walked.lookup_eq (h : Walked t₀ level dirs t) {p : List String}
    (hp : level < p.length) : t.lookup p = t₀.lookup p :=
  h.cut.kept p fun hgone => absurd hgone.1 (Nat.not_le_of_lt hp)

/-- A node right below the level is in one of the directories. -/
theorem Walked.exists_parent (h : Walked t₀ level dirs t) {p : List String}
    (hp : p.length = level + 1) (hnode : t₀.lookup p ≠ none) :
    ∃ d ∈ dirs, ∃ name, p = d ++ [name] := by
  have hne : p ≠ [] := by
    rintro rfl
    cases hp
  have hsplit := List.dropLast_append_getLast hne
  refine ⟨p.dropLast, (h.mem _).mpr ⟨by rw [List.length_dropLast, hp]; rfl, .directory, ?_, rfl⟩,
    p.getLast hne, hsplit.symm⟩
  rw [← hsplit] at hnode
  exact FileTree.lookup_parent hnode

theorem Walked.length_child (h : Walked t₀ level dirs t) {p : List String}
    (hp : ∃ d ∈ dirs, ∃ name, p = d ++ [name]) : p.length = level + 1 := by
  obtain ⟨d, hd, name, rfl⟩ := hp
  rw [List.length_append, ((h.mem d).mp hd).1]
  rfl

/-- The directories of a level can be opened if nothing at it is taken for one. -/
theorem Walked.opened_iff (h : Walked t₀ level dirs t) :
    (∀ d ∈ dirs, t.lookup d = some .directory) ↔
      ∀ p type, t₀.lookup p = some type → p.length = level → ¬TakenForDirectory type := by
  have hkept : ∀ d ∈ dirs, t.lookup d = t₀.lookup d := by
    intro d hd
    obtain ⟨-, type, htype, hflag⟩ := (h.mem d).mp hd
    apply h.cut.kept
    rintro ⟨-, type', htype', hflag'⟩
    rw [htype, Option.some.injEq] at htype'
    rw [← htype', hflag] at hflag'
    cases hflag'
  constructor
  · intro hdirs p type htype hlength htaken
    have hmem : p ∈ dirs := (h.mem p).mpr
      ⟨hlength, type, htype, hasFlag_dir_iff.mpr (Or.inr htaken)⟩
    have hdir := hdirs p hmem
    rw [hkept p hmem, htype, Option.some.injEq] at hdir
    rw [hdir] at htaken
    exact absurd htaken (by decide)
  · intro htypes d hd
    obtain ⟨hlength, type, htype, hflag⟩ := (h.mem d).mp hd
    rw [hkept d hd, htype,
      (hasFlag_dir_iff.mp hflag).resolve_right (htypes d type htype hlength)]

/-- A sweep above the level of the files leads to the next level. -/
theorem Walked.next (h : Walked t₀ level dirs t) {t' : FileTree} {elements : List (List String)}
    (hswept : Swept false (fun p => ∃ d ∈ dirs, ∃ name, p = d ++ [name]) t t' elements) :
    Walked t₀ (level + 1) elements t' := by
  refine ⟨(h.cut.trans hswept.cut).congr ?_, hswept.nodup, ?_⟩
  · intro p hnode
    constructor
    · rintro (⟨hlength, hrest⟩ | ⟨c, type, hc, ⟨rest, rfl⟩, htype, hflag⟩)
      · exact ⟨by omega, hrest⟩
      · have hlength := h.length_child hc
        rw [h.lookup_eq (by omega)] at htype
        -- It is not a directory, so nothing is below it.
        cases rest with
        | nil =>
            rw [List.append_nil]
            exact ⟨hlength.le, type, htype, hflag⟩
        | cons name rest =>
            rw [FileTree.lookup_ancestor hnode, Option.some.injEq] at htype
            rw [← htype] at hflag
            cases hflag
    · rintro ⟨hlength, type, htype, hflag⟩
      rcases Nat.lt_or_ge level p.length with hlt | hle
      · have hp : p.length = level + 1 := by omega
        rw [← h.lookup_eq hlt] at htype
        exact Or.inr ⟨p, type, h.exists_parent hp hnode, List.prefix_rfl, htype, hflag⟩
      · exact Or.inl ⟨hle, type, htype, hflag⟩
  · intro p
    rw [hswept.mem]
    constructor
    · rintro ⟨hp, type, htype, hflag⟩
      have hlength := h.length_child hp
      rw [h.lookup_eq (by omega)] at htype
      exact ⟨hlength, type, htype, by simpa using hflag⟩
    · rintro ⟨hlength, type, htype, hflag⟩
      refine ⟨h.exists_parent hlength (by rw [htype]; nofun), type, ?_, by simpa using hflag⟩
      rw [h.lookup_eq (by omega)]
      exact htype

/-- The sweep at the level of the files finishes the walk. -/
theorem Walked.sanitized (h : Walked t₀ level dirs t) {t' : FileTree}
    {files : List (List String)}
    (hswept : Swept true (fun p => ∃ d ∈ dirs, ∃ name, p = d ++ [name]) t t' files)
    (htypes : ∀ p type, t₀.lookup p = some type → p.length ≤ level + 1 →
      ¬TakenForDirectory type) : Sanitized level t₀ t' files := by
  have hflag_iff : ∀ p type, t₀.lookup p = some type → p.length ≤ level + 1 →
      (hasFlag type DT_DIR = true ↔ type = .directory) := by
    intro p type htype hlength
    rw [hasFlag_dir_iff, or_iff_left (htypes p type htype hlength)]
  refine ⟨(h.cut.trans hswept.cut).congr ?_, hswept.nodup, ?_⟩
  · intro p hnode
    constructor
    · rintro (⟨hlength, type, htype, hflag⟩ | ⟨c, type, hc, hfront, htype, hflag⟩)
      · refine Or.inl ⟨hlength, type, htype, ?_⟩
        rw [ne_eq, ← hflag_iff p type htype (by omega), hflag]
        nofun
      · have hlength := h.length_child hc
        rw [h.lookup_eq (by omega)] at htype
        rw [hflag_iff c type htype hlength.le] at hflag
        exact Or.inr ⟨c, hfront, hlength, hflag ▸ htype⟩
    · rintro (⟨hlength, type, htype, hne⟩ | ⟨d, hfront, hlength, hdir⟩)
      · refine Or.inl ⟨hlength, type, htype, ?_⟩
        rw [ne_eq, ← hflag_iff p type htype (by omega)] at hne
        simpa using hne
      · have hd : t.lookup d = some .directory := by
          rw [h.lookup_eq (by omega)]
          exact hdir
        exact Or.inr ⟨d, .directory, h.exists_parent hlength (by rw [hdir]; nofun), hfront, hd, rfl⟩
  · intro p
    rw [hswept.mem]
    constructor
    · rintro ⟨hp, type, htype, hflag⟩
      have hlength := h.length_child hp
      rw [h.lookup_eq (by omega)] at htype
      rw [ne_eq, hflag_iff p type htype hlength.le] at hflag
      exact ⟨hlength, type, htype, hflag⟩
    · rintro ⟨hlength, type, htype, hne⟩
      refine ⟨h.exists_parent hlength (by rw [htype]; nofun), type, ?_, ?_⟩
      · rw [h.lookup_eq (by omega)]
        exact htype
      · rw [ne_eq, hflag_iff p type htype hlength.le]
        exact hne

/-- The rest of the walk from a level on, by induction on what is left of the counter. -/
theorem sanitizeLevels_result {kLevelToFile : UInt64}
    (hfile : kLevelToFile.toNat = subDirLevel + 1) (left : ℕ) :
    ∀ level dirs t, level ≤ subDirLevel → subDirLevel + 1 < level + left →
    Walked t₀ level dirs t →
    (∀ p type, t₀.lookup p = some type → p.length < level → ¬TakenForDirectory type) →
    ((∀ p type, t₀.lookup p = some type → p.length ≤ subDirLevel + 1 →
        ¬TakenForDirectory type) ∧
      ∃ files t', sanitizeLevels kLevelToFile left level dirs t = .ok (files, t') ∧
        Sanitized subDirLevel t₀ t' files) ∨
    ((∃ p type, t₀.lookup p = some type ∧ p.length ≤ subDirLevel + 1 ∧
        TakenForDirectory type) ∧
      ∃ err, sanitizeLevels kLevelToFile left level dirs t = .error err) := by
  induction left with
  | zero =>
      intro level dirs t hlevel hleft
      omega
  | succ left ih =>
      intro level dirs t hlevel hleft hwalked habove
      have hne : level ≠ kLevelToFile.toNat := by omega
      have hlength : ∀ d ∈ dirs, d.length = level := fun d hd => ((hwalked.mem d).mp hd).1
      have hresult := sanitizeDirs_result (decide (level + 1 = kLevelToFile.toNat)) (s := (t, []))
        hwalked.nodup hlength
      rw [sanitizeLevels, if_neg hne]
      generalize dirs.foldlM (sanitizeDir (decide (level + 1 = kLevelToFile.toNat))) (t, []) = x
        at hresult ⊢
      cases hresult with
      | error hbad err =>
          refine Or.inr ⟨?_, err, rfl⟩
          by_contra hgood
          push Not at hgood
          apply hbad
          intro d hd
          refine ⟨hwalked.opened_iff.mpr (fun p type htype hp => ?_) d hd, ?_⟩
          · exact hgood p type htype (by omega)
          · intro _ name type htype
            rw [hwalked.lookup_eq (by rw [List.length_append, hlength d hd]; simp)] at htype
            apply hgood _ type htype
            rw [List.length_append, hlength d hd, List.length_singleton]
            omega
      | ok hgood t' elements hswept =>
          have hopened := hwalked.opened_iff.mp fun d hd => (hgood d hd).1
          have hbelow : ∀ p type, t₀.lookup p = some type → p.length < level + 1 →
              ¬TakenForDirectory type := by
            intro p type htype hp
            rcases Nat.lt_succ_iff_lt_or_eq.mp hp with hlt | heq
            · exact habove p type htype hlt
            · exact hopened p type htype heq
          rw [ok_bind, List.nil_append]
          dsimp only
          rcases Nat.lt_or_ge level subDirLevel with hlt | hge
          · have hatFiles : decide (level + 1 = kLevelToFile.toNat) = false :=
              decide_eq_false (by omega)
            rw [hatFiles] at hswept
            exact ih (level + 1) elements t' hlt (by omega) (hwalked.next hswept) hbelow
          · obtain rfl : level = subDirLevel := by omega
            have hatFiles : decide (level + 1 = kLevelToFile.toNat) = true :=
              decide_eq_true hfile.symm
            rw [hatFiles] at hswept hgood
            have htypes : ∀ p type, t₀.lookup p = some type → p.length ≤ level + 1 →
                ¬TakenForDirectory type := by
              intro p type htype hp
              rcases Nat.le_succ_iff.mp hp with hle | heq
              · exact hbelow p type htype (by omega)
              · obtain ⟨d, hd, name, rfl⟩ := hwalked.exists_parent heq (by rw [htype]; nofun)
                apply (hgood d hd).2 rfl name type
                rw [hwalked.lookup_eq (by omega)]
                exact htype
            refine Or.inl ⟨htypes, elements, t', ?_, hwalked.sanitized hswept htypes⟩
            cases left with
            | zero => omega
            | succ left => rw [sanitizeLevels, if_pos hfile.symm]

/-- Each level takes an increment of the counter, and one more is made at the exit. -/
theorem lt_of_sanitizeLevels_ok {kLevelToFile : UInt64} {left : ℕ}
    {result : List (List String) × FileTree}
    (h : sanitizeLevels kLevelToFile left level dirs t = .ok result)
    (hlevel : level ≤ kLevelToFile.toNat) : kLevelToFile.toNat < level + left := by
  induction left generalizing level dirs t with
  | zero => cases h
  | succ left ih =>
      rw [sanitizeLevels] at h
      split at h
      · omega
      · obtain ⟨s, -, hrest⟩ := bind_eq_ok.mp h
        have hlt := ih hrest (by omega)
        omega

end Walk

/-- The walk succeeds, removes exactly what is misplaced and returns exactly the files, if and
only if it meets no socket and no block device and its counter is wide enough. -/
theorem sanitizeWorkspaceAndEnumerate_iff (subDirLevel : UInt64) (t : FileTree) :
    (∃ files t', sanitizeWorkspaceAndEnumerate subDirLevel t = .ok (files, t') ∧
      Sanitized subDirLevel.toNat t t' files) ↔ WalkSucceeds subDirLevel.toNat t := by
  have hlt := subDirLevel.toNat_lt
  have hadd : (subDirLevel + 1).toNat = (subDirLevel.toNat + 1) % 2 ^ 64 := by
    rw [UInt64.toNat_add]
    rfl
  constructor
  · rintro ⟨files, t', hok, hsanitized⟩
    have hlevel := lt_of_sanitizeLevels_ok hok (Nat.zero_le _)
    have hnowrap : subDirLevel.toNat + 1 < 2 ^ 64 := by
      by_contra hwrap
      -- The level of the files wraps around to that of the root.
      have hzero : (subDirLevel + 1).toNat = 0 := by omega
      have hfiles : [] ∈ files := by
        change sanitizeLevels (subDirLevel + 1) (2147483646 + 1) 0 [[]] t = _ at hok
        rw [sanitizeLevels, if_pos hzero.symm] at hok
        cases hok
        exact List.mem_cons_self
      have hlength := ((hsanitized.mem []).mp hfiles).1
      rw [List.length_nil] at hlength
      omega
    have hfile : (subDirLevel + 1).toNat = subDirLevel.toNat + 1 := by omega
    have hrange : subDirLevel.toNat + 1 < 0 + INT_MAX := by omega
    rcases sanitizeLevels_result hfile INT_MAX 0 [[]] t (Nat.zero_le _) hrange (walked_zero t)
        (fun p type _ hp => absurd hp (Nat.not_lt_zero _)) with ⟨htypes, -⟩ | ⟨-, err, herror⟩
    · refine ⟨htypes, ?_⟩
      unfold INT_MAX at hrange
      omega
    · rw [sanitizeWorkspaceAndEnumerate, herror] at hok
      cases hok
  · rintro ⟨htypes, hlevel⟩
    have hfile : (subDirLevel + 1).toNat = subDirLevel.toNat + 1 := by omega
    have hrange : subDirLevel.toNat + 1 < 0 + INT_MAX := by
      unfold INT_MAX
      omega
    rcases sanitizeLevels_result hfile INT_MAX 0 [[]] t (Nat.zero_le _) hrange (walked_zero t)
        (fun p type _ hp => absurd hp (Nat.not_lt_zero _)) with
      ⟨-, hresult⟩ | ⟨⟨p, type, htype, hlength, htaken⟩, -⟩
    · exact hresult
    · exact absurd htaken (htypes p type htype hlength)

/-- A file in a sub-directory, a link above it, and a directory with a socket beside it. -/
def mixedWorkspace : FileTree :=
  .ofNodes (((((∅ : UnorderedMap (List String) FileType).insert ["1"] .directory).insert
    ["1", "a"] .regular).insert ["1", "b"] .directory).insert ["1", "b", "s"] .socket |>.insert
    ["x"] .symlink) (by decide)

example : (sanitizeWorkspaceAndEnumerate 1 mixedWorkspace).map
    (fun r => (r.1, r.2.nodes.keys)) = .ok ([["1", "a"]], [["1", "a"], ["1"]]) := by
  decide +kernel

/-- A socket in the directory of the shard. -/
def socketWorkspace : FileTree :=
  .ofNodes ((∅ : UnorderedMap (List String) FileType).insert ["s"] .socket) (by decide)

/-- Above the level of the files a socket is opened as a directory, and at this level it is
removed as one. Both end the program. -/
theorem socketWorkspace_aborts :
    (sanitizeWorkspaceAndEnumerate 1 socketWorkspace).map Prod.fst = .error .openFailed ∧
    (sanitizeWorkspaceAndEnumerate 0 socketWorkspace).map Prod.fst = .error .openFailed := by
  decide +kernel

/-! ## The files of the cache -/

/-- The path of a file below the directory of its shard. -/
def FilePath.components (path : FilePath) : List String :=
  path.dir.subdirs.map toString ++ [path.name]

/-- The files of a shard are the regular files of the tree that have such a path. -/
def HoldsFiles (shard : String) (files : UnorderedMap FilePath File) (t : FileTree) : Prop :=
  ∀ path : FilePath, path.dir.shard = shard →
    (files.lookup path ≠ none ↔ t.lookup path.components = some .regular)

/-- What the cache keeps of its files when the workspace is sanitized is what the walk leaves
in the tree. -/
theorem holdsFiles_sanitizeWorkspace {shard : String} {c : DiskCache} {t t' : FileTree}
    {files : List (List String)} (h : HoldsFiles shard c.files t)
    (hsanitized : Sanitized c.options.subDirLevel t t' files) :
    HoldsFiles shard (c.sanitizeWorkspace shard).files t' := by
  intro path hshard
  have hlength : path.components.length = path.dir.subdirs.length + 1 := by
    simp [FilePath.components]
  have hkept : t.lookup path.components = some .regular →
      (Misplaced c.options.subDirLevel t path.components ↔
        path.dir.subdirs.length ≠ c.options.subDirLevel) := by
    intro hregular
    constructor
    · rintro (⟨hle, -⟩ | ⟨d, ⟨rest, hrest⟩, hd, hdir⟩)
      · omega
      · intro heq
        have hnil : rest = [] := by
          apply List.eq_nil_of_length_eq_zero
          have hsum := congrArg List.length hrest
          rw [List.length_append] at hsum
          omega
        rw [hnil, List.append_nil] at hrest
        rw [hrest, hregular] at hdir
        cases hdir
    · intro hne
      rcases Nat.lt_or_gt_of_ne hne with hlt | hgt
      · exact Or.inl ⟨by omega, .regular, hregular, by decide⟩
      · refine Or.inr ⟨path.components.take (c.options.subDirLevel + 1),
          List.take_prefix _ _, by rw [List.length_take]; omega, ?_⟩
        have hsplit := List.take_append_drop (c.options.subDirLevel + 1) path.components
        cases hdrop : path.components.drop (c.options.subDirLevel + 1) with
        | nil =>
            have hzero := congrArg List.length hdrop
            rw [List.length_drop, List.length_nil] at hzero
            omega
        | cons name rest =>
            rw [hdrop] at hsplit
            have hnode : t.lookup (path.components.take (c.options.subDirLevel + 1) ++
                name :: rest) ≠ none := by
              rw [hsplit, hregular]
              nofun
            exact FileTree.lookup_ancestor hnode
  rw [DiskCache.sanitizeWorkspace, AList.lookup_filterEntries]
  have hfiles := h path hshard
  constructor
  · intro hnode
    obtain ⟨file, hfile⟩ := Option.ne_none_iff_exists'.mp hnode
    obtain ⟨hfile, hlevel⟩ := Option.filter_eq_some_iff.mp hfile
    have hregular := hfiles.mp (by rw [hfile]; nofun)
    have hlevel' : path.dir.subdirs.length = c.options.subDirLevel :=
      of_decide_eq_true hlevel hshard
    rw [hsanitized.cut.kept _ fun hgone => (hkept hregular).mp hgone hlevel']
    exact hregular
  · intro hregular
    obtain ⟨hgone, hlookup⟩ := hsanitized.cut.lookup_ne_none (p := path.components)
      (by rw [hregular]; nofun)
    rw [hlookup] at hregular
    obtain ⟨file, hfile⟩ := Option.ne_none_iff_exists'.mp (hfiles.mpr hregular)
    have hlevel : path.dir.subdirs.length = c.options.subDirLevel := by
      by_contra hne
      exact hgone ((hkept hregular).mpr hne)
    rw [hfile, Option.filter_some, if_pos (decide_eq_true fun _ => hlevel)]
    nofun

end Yadcc
