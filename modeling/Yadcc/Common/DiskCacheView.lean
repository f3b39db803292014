/-
# What matters of a disk cache

Which keys are indexed, and what is in which file. This is what the operations are described
by: what a lookup finds, and what a put and a purge leave.
-/

import Yadcc.Common.DiskCache
import Yadcc.Lib.Checked

namespace Yadcc

open Yadcc.Lib

namespace DiskCache

/-! ## What matters of the state -/

section View

variable {lib : DiskLibrary} {c c' : DiskCache}

def indexed (dir : Directory) (key : String) (c : DiskCache) : Bool :=
  ((c.entriesPerDir.lookup dir).bind fun entries => entries.lookup key).isSome

def contentAt (path : FilePath) (c : DiskCache) : Option Bytes :=
  (c.files.lookup path).map File.content

/-- The shards and the directories are the same. -/
structure SameLayout (c c' : DiskCache) : Prop where
  options : c'.options = c.options
  shardMapper : c'.shardMapper = c.shardMapper
  dirs : ∀ dir, (c'.entriesPerDir.lookup dir).isSome = (c.entriesPerDir.lookup dir).isSome

theorem SameLayout.refl (c : DiskCache) : SameLayout c c := ⟨rfl, rfl, fun _ => rfl⟩

theorem SameLayout.trans {c'' : DiskCache} (h : SameLayout c c') (h' : SameLayout c' c'') :
    SameLayout c c'' :=
  ⟨h'.options.trans h.options, h'.shardMapper.trans h.shardMapper,
    fun dir => (h'.dirs dir).trans (h.dirs dir)⟩

theorem SameLayout.tryGetPathOfKey (h : SameLayout c c') (key : String) :
    c'.tryGetPathOfKey lib key = c.tryGetPathOfKey lib key := by
  unfold DiskCache.tryGetPathOfKey
  rw [h.shardMapper, h.options]

theorem entriesAt_ok {dir : Directory} (h : (c.entriesPerDir.lookup dir).isSome) :
    ∃ entries, c.entriesAt dir = .ok entries ∧ c.entriesPerDir.lookup dir = some entries := by
  obtain ⟨entries, hlookup⟩ := Option.isSome_iff_exists.mp h
  exact ⟨entries, by rw [entriesAt, hlookup], hlookup⟩

theorem indexed_eq {dir : Directory} {entries : UnorderedMap String EntryDesc}
    (h : c.entriesPerDir.lookup dir = some entries) (key : String) :
    c.indexed dir key = (entries.lookup key).isSome := by
  rw [indexed, h]
  rfl

theorem sameLayout_setEntries {dir : Directory} (h : (c.entriesPerDir.lookup dir).isSome)
    (entries : UnorderedMap String EntryDesc) : SameLayout c (c.setEntries dir entries) := by
  refine ⟨rfl, rfl, ?_⟩
  intro d
  rw [setEntries, AList.lookup_insert_eq]
  split
  · next hd => rw [hd, h]; rfl
  · rfl

theorem sameLayout_writeFile (path : FilePath) (file : File) :
    SameLayout c (c.writeFile path file) :=
  ⟨rfl, rfl, fun _ => rfl⟩

theorem indexed_setEntries (dir d : Directory) (entries : UnorderedMap String EntryDesc)
    (key : String) : (c.setEntries dir entries).indexed d key =
      if d = dir then (entries.lookup key).isSome else c.indexed d key := by
  rw [indexed, setEntries, AList.lookup_insert_eq]
  split
  · rfl
  · rfl

theorem contentAt_writeFile (path p : FilePath) (file : File) :
    (c.writeFile path file).contentAt p =
      if p = path then some file.content else c.contentAt p := by
  rw [contentAt, writeFile, AList.lookup_insert_eq]
  split
  · rfl
  · rfl

/-- Every key that is not too long has a place in a directory that is there. -/
structure Laid (lib : DiskLibrary) (c : DiskCache) : Prop where
  path : ∀ key, ∃ path, c.tryGetPathOfKey lib key = .ok path
  dir : ∀ key path, c.tryGetPathOfKey lib key = .ok (some path) →
    (c.entriesPerDir.lookup path.dir).isSome

theorem Laid.of_same (h : Laid lib c) (hsame : SameLayout c c') : Laid lib c' := by
  constructor
  · intro key
    rw [hsame.tryGetPathOfKey]
    exact h.path key
  · intro key path hpath
    rw [hsame.tryGetPathOfKey] at hpath
    rw [hsame.dirs]
    exact h.dir key path hpath

/-- A key that is indexed has its file. -/
structure Consistent (lib : DiskLibrary) (c : DiskCache) : Prop extends Laid lib c where
  present : ∀ dir key, c.indexed dir key = true → ∃ path content,
    c.tryGetPathOfKey lib key = .ok (some path) ∧ path.dir = dir ∧
      c.contentAt path = some content

/-- The name of a path is the one of its key only. -/
theorem getKeyFromPath_of_path (hlib : lib.Lawful) {key : String} {path : FilePath}
    (h : c.tryGetPathOfKey lib key = .ok (some path)) : getKeyFromPath lib path = some key := by
  unfold tryGetPathOfKey at h
  simp only at h
  split at h
  · cases h
  · split at h
    · cases h
    · cases h
      exact hlib.decode_encode key

theorem path_injective (hlib : lib.Lawful) {key key' : String} {path : FilePath}
    (h : c.tryGetPathOfKey lib key = .ok (some path))
    (h' : c.tryGetPathOfKey lib key' = .ok (some path)) : key = key' := by
  have hkey := getKeyFromPath_of_path hlib h
  rw [getKeyFromPath_of_path hlib h'] at hkey
  exact (Option.some.inj hkey).symm

/-! ## Lookups -/

/-- What a lookup finds. -/
def valueOf (lib : DiskLibrary) (key : String) (c : DiskCache) : Option Bytes :=
  match c.tryGetPathOfKey lib key with
  | .ok (some path) =>
      if c.indexed path.dir key then (c.contentAt path).bind (verifyEntryAndCutHeader lib)
      else none
  | _ => none

/-- Nothing but times and sizes may differ. -/
structure SameView (c c' : DiskCache) : Prop extends SameLayout c c' where
  indexed : ∀ dir key, c'.indexed dir key = c.indexed dir key
  contentAt : ∀ path, c'.contentAt path = c.contentAt path

theorem SameView.valueOf (h : SameView c c') (key : String) :
    c'.valueOf lib key = c.valueOf lib key := by
  unfold DiskCache.valueOf
  simp only [h.tryGetPathOfKey, h.indexed, h.contentAt]

theorem Consistent.of_view (h : Consistent lib c) (hview : SameView c c') :
    Consistent lib c' := by
  refine ⟨h.toLaid.of_same hview.toSameLayout, ?_⟩
  intro dir key hkey
  rw [hview.indexed] at hkey
  rw [hview.tryGetPathOfKey]
  obtain ⟨path, content, hpath, hdir, hcontent⟩ := h.present dir key hkey
  exact ⟨path, content, hpath, hdir, by rw [hview.contentAt, hcontent]⟩

theorem Consistent.of_alter (h : Consistent lib c) (path : FilePath) (file : File) :
    Consistent lib (c.writeFile path file) := by
  refine ⟨h.toLaid.of_same (sameLayout_writeFile path file), ?_⟩
  intro dir key hkey
  obtain ⟨p, content, hp, hdir, hcontent⟩ := h.present dir key hkey
  by_cases hpath : p = path
  · exact ⟨p, file.content, hp, hdir, by rw [contentAt_writeFile, if_pos hpath]⟩
  · exact ⟨p, content, hp, hdir, by rw [contentAt_writeFile, if_neg hpath, hcontent]⟩

theorem tryGet_cases (h : Consistent lib c) (now : ℕ) (key : String) :
    ∃ c', c.tryGet lib now key = .ok (c.valueOf lib key, c') ∧ SameView c c' := by
  have hrefl : SameView c c := ⟨.refl c, fun _ _ => rfl, fun _ => rfl⟩
  obtain ⟨path?, hpath⟩ := h.path key
  unfold tryGet valueOf
  rw [hpath]
  cases path? with
  | none => exact ⟨c, rfl, hrefl⟩
  | some path =>
      obtain ⟨entries, hentries, hlookup⟩ := entriesAt_ok (h.dir key path hpath)
      have hindexed := indexed_eq hlookup
      cases hentry : entries.lookup key with
      | none =>
          have hmissing : c.indexed path.dir key = false := by
            rw [hindexed, hentry]
            rfl
          refine ⟨c, ?_, hrefl⟩
          simp only [bind, Except.bind, hentries, hentry, hmissing]
          rfl
      | some cacheEntry =>
          have hthere : c.indexed path.dir key = true := by
            rw [hindexed, hentry]
            rfl
          obtain ⟨path', content, hpath', -, hcontent⟩ := h.present path.dir key hthere
          rw [hpath] at hpath'
          cases hpath'
          obtain ⟨file, hfile, hbytes⟩ := Option.map_eq_some_iff.mp hcontent
          refine ⟨(c.writeFile path { file with modified := now / 10 ^ 9 }).setEntries path.dir
            (entries.insert key { cacheEntry with lastAccessed := now }), ?_, ?_⟩
          · simp only [bind, Except.bind, hentries, hentry, hfile, hthere, hcontent, hbytes]
            rfl
          · have hwritten : SameLayout c
                (c.writeFile path { file with modified := now / 10 ^ 9 }) :=
              sameLayout_writeFile path _
            have hdir := (hwritten.dirs path.dir).trans (h.dir key path hpath)
            refine ⟨hwritten.trans (sameLayout_setEntries hdir _), ?_, ?_⟩
            · intro dir k
              rw [indexed_setEntries]
              split
              · next hdir =>
                  rw [hdir, hindexed, AList.lookup_insert_eq]
                  split
                  · next hk => rw [hk, hentry]; rfl
                  · rfl
              · rfl
            · intro p
              refine (contentAt_writeFile path p _).trans ?_
              split
              · next hp => rw [hp, hcontent, hbytes]
              · rfl

/-! ## Puts -/

/-- What a put leaves in the file of its key. -/
def putContent (lib : DiskLibrary) (opened : Option ℕ) (reserved : Vector UInt8 32)
    (bytes : Bytes) (before : Option Bytes) : Option Bytes :=
  match opened with
  | none => before
  | some 0 => some []
  | some (_ + 1) => some (writeFileHeader lib reserved bytes ++ bytes)

/-- A put changes the index and the file of its key, if it has a path. -/
structure PutEffect (lib : DiskLibrary) (opened : Option ℕ) (reserved : Vector UInt8 32)
    (key : String) (bytes : Bytes) (path : FilePath) (c c' : DiskCache) : Prop
    extends SameLayout c c' where
  indexed : ∀ dir k, c'.indexed dir k =
    if dir = path.dir ∧ k = key then opened.isSome else c.indexed dir k
  contentAt : ∀ p, c'.contentAt p =
    if p = path then putContent lib opened reserved bytes (c.contentAt path) else c.contentAt p

/-- The index of a directory is changed at one key. -/
theorem indexed_setEntries_at {dir : Directory} {entries entries' : UnorderedMap String EntryDesc}
    (hlookup : c.entriesPerDir.lookup dir = some entries) {key : String} {b : Bool}
    (hentries : ∀ k, (entries'.lookup k).isSome = if k = key then b else (entries.lookup k).isSome)
    (d : Directory) (k : String) : (c.setEntries dir entries').indexed d k =
      if d = dir ∧ k = key then b else c.indexed d k := by
  rw [indexed_setEntries]
  by_cases hd : d = dir
  · rw [if_pos hd, hentries, hd, indexed_eq hlookup]
    by_cases hk : k = key
    · rw [if_pos hk, if_pos ⟨rfl, hk⟩]
    · rw [if_neg hk, if_neg fun h => hk h.2]
  · rw [if_neg hd, if_neg fun h => hd h.1]

theorem putLocked_cases (h : Laid lib c) (now : ℕ) (opened : Option ℕ)
    (reserved : Vector UInt8 32) (key : String) (bytes : Bytes) :
    ∃ c', c.putLocked lib now opened reserved key bytes = .ok c' ∧
      ((c.tryGetPathOfKey lib key = .ok none ∧ c' = c) ∨
        ∃ path, c.tryGetPathOfKey lib key = .ok (some path) ∧
          PutEffect lib opened reserved key bytes path c c') := by
  obtain ⟨path?, hpath⟩ := h.path key
  unfold putLocked
  rw [hpath]
  cases path? with
  | none => exact ⟨c, rfl, .inl ⟨rfl, rfl⟩⟩
  | some path =>
      have hdir := h.dir key path hpath
      obtain ⟨entries, hentries, hlookup⟩ := entriesAt_ok hdir
      simp only [bind, Except.bind, hentries]
      set filled := if entries.lookup key = none then entries.insert key ⟨0, now⟩ else entries
        with hfilled
      have hother : ∀ k, k ≠ key → filled.lookup k = entries.lookup k := by
        intro k hk
        rw [hfilled]
        split
        · rw [AList.lookup_insert_eq, if_neg hk]
        · rfl
      have hthere : (filled.lookup key).isSome = true := by
        rw [hfilled]
        split
        · rw [AList.lookup_insert]
          rfl
        · next hsome => exact Option.isSome_iff_ne_none.mpr hsome
      cases opened with
      | none =>
          refine ⟨_, rfl, .inr ⟨path, rfl, sameLayout_setEntries hdir _, ?_, ?_⟩⟩
          · apply indexed_setEntries_at hlookup
            intro k
            rw [AList.lookup_erase_eq]
            split
            · rfl
            · next hk => rw [hother k hk]
          · intro p
            split
            · next hp => rw [hp]; rfl
            · rfl
      | some fd =>
          cases fd with
          | zero =>
              refine ⟨_, rfl, .inr ⟨path, rfl, (sameLayout_setEntries hdir _).trans
                (sameLayout_writeFile path _), ?_, fun p => contentAt_writeFile path p _⟩⟩
              apply indexed_setEntries_at hlookup
              intro k
              split
              · next hk => rw [hk]; exact hthere
              · next hk => rw [hother k hk]
          | succ fd =>
              have hwritten : SameLayout c (c.writeFile path
                  ⟨writeFileHeader lib reserved bytes ++ bytes, now / 10 ^ 9⟩) :=
                sameLayout_writeFile path _
              have hdir := (hwritten.dirs path.dir).trans hdir
              refine ⟨_, rfl, .inr ⟨path, rfl, hwritten.trans (sameLayout_setEntries hdir _),
                ?_, fun p => contentAt_writeFile path p _⟩⟩
              apply indexed_setEntries_at hlookup
              intro k
              rw [AList.lookup_insert_eq]
              split
              · rfl
              · next hk => rw [hother k hk]

/-- As long as `open` does not fail, the locks of a put do not matter. -/
theorem put_eq_putLocked (h : Laid lib c) {opened : Option ℕ} (hopened : opened.isSome)
    (now : ℕ) (reserved : Vector UInt8 32) (key : String) (bytes : Bytes) :
    c.put lib now opened reserved key bytes = c.putLocked lib now opened reserved key bytes := by
  obtain ⟨path?, hpath⟩ := h.path key
  unfold put
  rw [hpath, ok_bind, if_neg]
  rintro ⟨-, rfl⟩
  cases hopened

theorem put_cases (h : Laid lib c) {opened : Option ℕ} (hopened : opened.isSome) (now : ℕ)
    (reserved : Vector UInt8 32) (key : String) (bytes : Bytes) :
    ∃ c', c.put lib now opened reserved key bytes = .ok c' ∧
      ((c.tryGetPathOfKey lib key = .ok none ∧ c' = c) ∨
        ∃ path, c.tryGetPathOfKey lib key = .ok (some path) ∧
          PutEffect lib opened reserved key bytes path c c') := by
  rw [put_eq_putLocked h hopened]
  exact putLocked_cases h now opened reserved key bytes

/-- A put leaves the index in agreement with the files. -/
theorem PutEffect.consistent {opened : Option ℕ} {reserved : Vector UInt8 32} {key : String}
    {bytes : Bytes} {path : FilePath} (hlib : lib.Lawful)
    (hput : PutEffect lib opened reserved key bytes path c c') (h : Consistent lib c)
    (hpath : c.tryGetPathOfKey lib key = .ok (some path)) : Consistent lib c' := by
  refine ⟨h.toLaid.of_same hput.toSameLayout, ?_⟩
  intro dir k hk
  rw [hput.indexed] at hk
  rw [hput.tryGetPathOfKey]
  split at hk
  · next hat =>
      obtain ⟨fd, rfl⟩ := Option.isSome_iff_exists.mp hk
      rw [hat.2]
      refine ⟨path, ?_⟩
      rw [hput.contentAt, if_pos rfl]
      cases fd with
      | zero => exact ⟨_, hpath, hat.1.symm, rfl⟩
      | succ fd => exact ⟨_, hpath, hat.1.symm, rfl⟩
  · next hat =>
      obtain ⟨p, content, hp, hdir, hcontent⟩ := h.present dir k hk
      have hne : p ≠ path := by
        rintro rfl
        exact hat ⟨hdir.symm, path_injective hlib hp hpath⟩
      exact ⟨p, content, hp, hdir, by rw [hput.contentAt, if_neg hne, hcontent]⟩

/-- A put is seen under its own key only. -/
theorem PutEffect.valueOf_ne {opened : Option ℕ} {reserved : Vector UInt8 32} {key : String}
    {bytes : Bytes} {path : FilePath} (hlib : lib.Lawful)
    (hput : PutEffect lib opened reserved key bytes path c c')
    (hpath : c.tryGetPathOfKey lib key = .ok (some path)) {k : String} (hk : k ≠ key) :
    c'.valueOf lib k = c.valueOf lib k := by
  unfold DiskCache.valueOf
  rw [hput.tryGetPathOfKey]
  split
  · next p hp =>
      have hne : p ≠ path := by
        rintro rfl
        exact hk (path_injective hlib hp hpath)
      have hindexed := hput.indexed p.dir k
      rw [if_neg fun hat => hk hat.2] at hindexed
      rw [hindexed, hput.contentAt, if_neg hne]
  · rfl

theorem verifyEntryAndCutHeader_written (reserved : Vector UInt8 32) (bytes : Bytes) :
    verifyEntryAndCutHeader lib (writeFileHeader lib reserved bytes ++ bytes) = some bytes := by
  have hlength : (writeFileHeader lib reserved bytes).length = sizeofFileHeader := by
    simp [writeFileHeader, sizeofFileHeader]
  have hdrop : (writeFileHeader lib reserved bytes ++ bytes).drop sizeofFileHeader = bytes := by
    rw [← hlength, List.drop_left]
  have htake : (writeFileHeader lib reserved bytes ++ bytes).take 32 =
      (lib.blake3 bytes).toList := by
    rw [writeFileHeader, List.append_assoc]
    exact List.take_left' (Vector.length_toList ..)
  unfold verifyEntryAndCutHeader
  rw [hdrop, htake, if_neg (by rw [List.length_append, hlength]; omega), if_neg (by simp)]

/-- What is found under the key of a put. -/
theorem PutEffect.valueOf_self {opened : Option ℕ} {reserved : Vector UInt8 32} {key : String}
    {bytes : Bytes} {path : FilePath}
    (hput : PutEffect lib opened reserved key bytes path c c')
    (hpath : c.tryGetPathOfKey lib key = .ok (some path)) :
    c'.valueOf lib key = if 0 < opened.getD 0 then some bytes else none := by
  unfold DiskCache.valueOf
  rw [hput.tryGetPathOfKey, hpath]
  simp only [hput.indexed, hput.contentAt, and_self, if_true]
  cases opened with
  | none => rfl
  | some fd =>
      cases fd with
      | zero => rfl
      | succ fd => exact verifyEntryAndCutHeader_written reserved bytes

/-! ## Purges -/

/-- The keys that go with a file. -/
def purgedKeys (lib : DiskLibrary) (path : FilePath) (c : DiskCache) : List String :=
  match getKeyFromPath lib path with
  | some key => if c.indexed path.dir key then [key] else []
  | none => []

/-- A file is removed, and the key of its name is no longer in its directory. -/
structure PurgeEffect (lib : DiskLibrary) (path : FilePath) (c c' : DiskCache) : Prop
    extends SameLayout c c' where
  indexed : ∀ dir key, c'.indexed dir key =
    if dir = path.dir ∧ key ∈ c.purgedKeys lib path then false else c.indexed dir key
  contentAt : ∀ p, c'.contentAt p = if p = path then none else c.contentAt p

theorem mem_purgedKeys {path : FilePath} {key : String} : key ∈ c.purgedKeys lib path ↔
    getKeyFromPath lib path = some key ∧ c.indexed path.dir key = true := by
  unfold purgedKeys
  cases hkey : getKeyFromPath lib path with
  | none => simp
  | some k =>
      simp only [Option.some.injEq]
      by_cases hindexed : c.indexed path.dir k
      · rw [if_pos hindexed, List.mem_singleton]
        constructor
        · rintro rfl
          exact ⟨rfl, hindexed⟩
        · rintro ⟨rfl, -⟩
          rfl
      · rw [if_neg hindexed]
        constructor
        · intro hmem
          cases hmem
        · rintro ⟨rfl, h⟩
          exact absurd h hindexed

theorem contentAt_eraseFile (path p : FilePath) :
    ({ c with files := c.files.erase path } : DiskCache).contentAt p =
      if p = path then none else c.contentAt p := by
  rw [contentAt, AList.lookup_erase_eq]
  split
  · rfl
  · rfl

theorem unlink_ok {path : FilePath} {content : Bytes} (h : c.contentAt path = some content) :
    c.unlink path = .ok { c with files := c.files.erase path } := by
  obtain ⟨file, hfile, -⟩ := Option.map_eq_some_iff.mp h
  rw [unlink, hfile]

theorem purgeFile_cases {path : FilePath} {content : Bytes}
    (h : c.contentAt path = some content) :
    ∃ c', c.purgeFile lib path = .ok (c.purgedKeys lib path, c') ∧ PurgeEffect lib path c c' := by
  have hunlink := unlink_ok h
  set erased : DiskCache := { c with files := c.files.erase path } with herased
  have hrest : c.purgedKeys lib path = [] → PurgeEffect lib path c erased := by
    intro hnil
    refine ⟨⟨rfl, rfl, fun _ => rfl⟩, ?_, contentAt_eraseFile path⟩
    intro dir key
    rw [hnil, if_neg fun hat => List.not_mem_nil hat.2]
    rfl
  unfold purgeFile
  split
  · next key entries hkey hentries =>
      have hindexed := indexed_eq hentries
      rw [hunlink]
      by_cases hthere : (entries.lookup key).isSome = true
      · have hkeys : c.purgedKeys lib path = [key] := by
          rw [purgedKeys, hkey]
          exact if_pos ((hindexed key).trans hthere)
        rw [hkeys]
        refine ⟨erased.setEntries path.dir (entries.erase key), ?_, ?_⟩
        · simp only [bind, Except.bind, hthere, if_true]
          rfl
        · have hdir : (erased.entriesPerDir.lookup path.dir).isSome := by
            change (c.entriesPerDir.lookup path.dir).isSome
            rw [hentries]
            rfl
          have hsame : SameLayout c erased := ⟨rfl, rfl, fun _ => rfl⟩
          refine ⟨hsame.trans (sameLayout_setEntries hdir _), ?_, contentAt_eraseFile path⟩
          intro dir k
          simp only [hkeys, List.mem_singleton]
          refine indexed_setEntries_at hentries ?_ dir k
          intro k
          rw [AList.lookup_erase_eq]
          split
          · rfl
          · rfl
      · have hkeys : c.purgedKeys lib path = [] := by
          rw [purgedKeys, hkey]
          exact if_neg (by rw [hindexed]; exact hthere)
        refine ⟨erased, ?_, hrest hkeys⟩
        simp only [bind, Except.bind, hthere, hkeys]
        rfl
  · next hnone =>
      have hkeys : c.purgedKeys lib path = [] := by
        apply List.eq_nil_iff_forall_not_mem.mpr
        intro key hmem
        obtain ⟨hkey, hindexed⟩ := mem_purgedKeys.mp hmem
        cases hentries : c.entriesPerDir.lookup path.dir with
        | none => simp [indexed, hentries] at hindexed
        | some entries => exact hnone key entries hkey hentries
      refine ⟨erased, ?_, hrest hkeys⟩
      rw [hunlink, hkeys]
      rfl

theorem PurgeEffect.consistent {path : FilePath} (hlib : lib.Lawful)
    (hpurge : PurgeEffect lib path c c') (h : Consistent lib c) : Consistent lib c' := by
  refine ⟨h.toLaid.of_same hpurge.toSameLayout, ?_⟩
  intro dir key hkey
  rw [hpurge.indexed] at hkey
  split at hkey
  · cases hkey
  · next hat =>
      obtain ⟨p, content, hp, hdir, hcontent⟩ := h.present dir key hkey
      have hne : p ≠ path := by
        rintro rfl
        refine hat ⟨hdir.symm, mem_purgedKeys.mpr ⟨getKeyFromPath_of_path hlib hp, ?_⟩⟩
        rw [hdir]
        exact hkey
      refine ⟨p, content, ?_, hdir, ?_⟩
      · rw [hpurge.tryGetPathOfKey, hp]
      · rw [hpurge.contentAt, if_neg hne, hcontent]

theorem PurgeEffect.valueOf {path : FilePath} (hlib : lib.Lawful)
    (hpurge : PurgeEffect lib path c c') (h : Consistent lib c) (key : String) :
    c'.valueOf lib key =
      if key ∈ c.purgedKeys lib path then none else c.valueOf lib key := by
  unfold DiskCache.valueOf
  rw [hpurge.tryGetPathOfKey]
  split
  · next p hp =>
      have hindexed := hpurge.indexed p.dir key
      by_cases hmem : key ∈ c.purgedKeys lib path
      · obtain ⟨p', -, hp', hdir, -⟩ := h.present _ _ (mem_purgedKeys.mp hmem).2
        rw [hp] at hp'
        cases hp'
        rw [if_pos ⟨hdir, hmem⟩] at hindexed
        rw [hindexed, if_pos hmem]
        rfl
      · rw [if_neg fun hat => hmem hat.2] at hindexed
        rw [hindexed, if_neg hmem]
        by_cases hpath : p = path
        · subst hpath
          have hmissing : c.indexed p.dir key = false := by
            by_contra hthere
            exact hmem (mem_purgedKeys.mpr
              ⟨getKeyFromPath_of_path hlib hp, by simpa using hthere⟩)
          rw [hmissing]
          rfl
        · rw [hpurge.contentAt, if_neg hpath]
  · split
    · rfl
    · rfl

/-- What a purge leaves: the keys it reports are gone, all others are as before. -/
structure Purged (lib : DiskLibrary) (purged : List String) (c c' : DiskCache) : Prop
    extends SameLayout c c' where
  consistent : Consistent lib c'
  valueOf : ∀ key, c'.valueOf lib key = if key ∈ purged then none else c.valueOf lib key

theorem Purged.refl (h : Consistent lib c) : Purged lib [] c c :=
  ⟨.refl c, h, fun _ => (if_neg List.not_mem_nil).symm⟩

theorem Purged.append {c'' : DiskCache} {first second : List String}
    (h : Purged lib first c c') (h' : Purged lib second c' c'') :
    Purged lib (first ++ second) c c'' := by
  refine ⟨h.toSameLayout.trans h'.toSameLayout, h'.consistent, ?_⟩
  intro key
  rw [h'.valueOf, h.valueOf]
  by_cases hsecond : key ∈ second
  · rw [if_pos hsecond, if_pos (List.mem_append_right first hsecond)]
  · rw [if_neg hsecond]
    by_cases hfirst : key ∈ first
    · rw [if_pos hfirst, if_pos (List.mem_append_left second hfirst)]
    · rw [if_neg hfirst, if_neg]
      simp [hfirst, hsecond]

/-- A loop over files that are there, each listed once, removes one after the other. -/
theorem purgeLoop_cases (hlib : lib.Lawful) (sizeLimit : UInt64) {files : List FileInfo}
    (hnodup : (files.map FileInfo.path).Nodup)
    (hthere : ∀ e ∈ files, (c.contentAt e.path).isSome) (h : Consistent lib c)
    (totalUsed : UInt64) :
    ∃ purged c', purgeLoop lib sizeLimit files totalUsed c = .ok (purged, c') ∧
      Purged lib purged c c' := by
  induction files generalizing c totalUsed with
  | nil => exact ⟨[], c, rfl, .refl h⟩
  | cons e files ih =>
      unfold purgeLoop
      split
      · exact ⟨[], c, rfl, .refl h⟩
      · obtain ⟨content, hcontent⟩ :=
          Option.isSome_iff_exists.mp (hthere e List.mem_cons_self)
        obtain ⟨c₁, hfile, heffect⟩ := @purgeFile_cases lib c e.path content hcontent
        have hfirst : Purged lib (c.purgedKeys lib e.path) c c₁ :=
          ⟨heffect.toSameLayout, heffect.consistent hlib h, heffect.valueOf hlib h⟩
        obtain ⟨hnotin, hrest⟩ := List.nodup_cons.mp hnodup
        have hleft : ∀ e' ∈ files, (c₁.contentAt e'.path).isSome := by
          intro e' he'
          have hne : e'.path ≠ e.path := by
            intro heq
            exact hnotin (heq ▸ List.mem_map_of_mem he')
          rw [heffect.contentAt, if_neg hne]
          exact hthere e' (List.mem_cons_of_mem e he')
        obtain ⟨purged, c₂, hloop, hsecond⟩ :=
          ih hrest hleft hfirst.consistent (totalUsed - .ofNat e.size)
        refine ⟨c.purgedKeys lib e.path ++ purged, c₂, ?_, hfirst.append hsecond⟩
        simp only [bind, Except.bind, hfile, hloop]
        rfl

/-! ## Enumerations -/

theorem length_getSubdirsFor (hash level subDirs : ℕ) :
    (getSubdirsFor hash level subDirs).length = level := by
  induction level generalizing hash with
  | zero => rfl
  | succ level ih => rw [getSubdirsFor, List.length_cons, ih]

theorem length_subdirs_of_path {key : String} {path : FilePath}
    (h : c.tryGetPathOfKey lib key = .ok (some path)) :
    path.dir.subdirs.length = c.options.subDirLevel := by
  unfold tryGetPathOfKey at h
  simp only at h
  split at h
  · cases h
  · split at h
    · cases h
    · cases h
      exact length_getSubdirsFor _ _ _

/-- What is removed from a workspace belongs to no key. -/
theorem contentAt_sanitizeWorkspace (shard : String) {path : FilePath}
    (h : path.dir.subdirs.length = c.options.subDirLevel) :
    (c.sanitizeWorkspace shard).contentAt path = c.contentAt path := by
  rw [contentAt, sanitizeWorkspace, AList.lookup_filterEntries, contentAt]
  cases c.files.lookup path with
  | none => rfl
  | some file => simp [Option.filter, h]

/-- A workspace where every file of the shard is at the level of the files is left as it is. -/
theorem sanitizeWorkspace_eq (shard : String)
    (h : ∀ path file, c.files.lookup path = some file → path.dir.shard = shard →
      path.dir.subdirs.length = c.options.subDirLevel) : c.sanitizeWorkspace shard = c := by
  have hfiles : (c.files.filterEntries fun path _ =>
      decide (path.dir.shard = shard → path.dir.subdirs.length = c.options.subDirLevel)) =
        c.files := by
    apply AList.ext
    apply List.filter_eq_self.mpr
    rintro ⟨path, file⟩ hmem
    rw [decide_eq_true_eq]
    exact h path file (AList.lookup_eq_some_iff.mpr hmem)
  unfold sanitizeWorkspace
  rw [hfiles]

theorem sameLayout_sanitizeWorkspace (shard : String) : SameLayout c (c.sanitizeWorkspace shard) :=
  ⟨rfl, rfl, fun _ => rfl⟩

theorem purged_sanitizeWorkspace (h : Consistent lib c) (shard : String) :
    Purged lib [] c (c.sanitizeWorkspace shard) := by
  have hsame : SameLayout c (c.sanitizeWorkspace shard) := sameLayout_sanitizeWorkspace shard
  refine ⟨hsame, ⟨h.toLaid.of_same hsame, ?_⟩, ?_⟩
  · intro dir key hkey
    obtain ⟨path, content, hpath, hdir, hcontent⟩ := h.present dir key hkey
    refine ⟨path, content, hpath, hdir, ?_⟩
    rw [contentAt_sanitizeWorkspace shard (length_subdirs_of_path hpath), hcontent]
  · intro key
    rw [if_neg List.not_mem_nil]
    unfold DiskCache.valueOf
    rw [hsame.tryGetPathOfKey]
    split
    · next path hpath =>
        rw [contentAt_sanitizeWorkspace shard (length_subdirs_of_path hpath)]
        rfl
    · rfl

/-- An enumeration lists every file of the shard once. -/
structure Listing.Lawful (listing : Listing) : Prop where
  perm : ∀ files, (listing files).Perm files

theorem nodup_fileInfos (shard : String) (files : UnorderedMap FilePath File) :
    ((fileInfos shard files).map FileInfo.path).Nodup := by
  unfold fileInfos
  rw [List.map_map]
  exact (files.nodupKeys.sublist List.filter_sublist)

theorem mem_fileInfos {shard : String} {files : UnorderedMap FilePath File} {info : FileInfo} :
    info ∈ fileInfos shard files ↔ ∃ file, files.lookup info.path = some file ∧
      info.path.dir.shard = shard ∧ info.size = file.content.length ∧
        info.lastUsed = fromTimeT file.modified := by
  unfold fileInfos
  rw [List.mem_map]
  constructor
  · rintro ⟨⟨path, file⟩, hmem, rfl⟩
    rw [List.mem_filter, decide_eq_true_eq] at hmem
    exact ⟨file, AList.lookup_eq_some_iff.mpr hmem.1, hmem.2, rfl, rfl⟩
  · rintro ⟨file, hfile, hshard, hsize, hused⟩
    refine ⟨⟨info.path, file⟩, ?_, ?_⟩
    · rw [List.mem_filter, decide_eq_true_eq]
      exact ⟨AList.lookup_eq_some_iff.mp hfile, hshard⟩
    · cases info
      simp_all

theorem purgeCacheAt_cases (hlib : lib.Lawful) {listing : Listing} (hlisting : listing.Lawful)
    (shard : String) (sizeLimit : UInt64) (h : Consistent lib c) :
    ∃ purged c', c.purgeCacheAt lib listing shard sizeLimit = .ok (purged, c') ∧
      Purged lib purged c c' := by
  have hfirst := purged_sanitizeWorkspace h shard
  set files := lib.sortFiles (listing (fileInfos shard (c.sanitizeWorkspace shard).files))
    with hfiles
  have hperm : files.Perm (fileInfos shard (c.sanitizeWorkspace shard).files) :=
    (hlib.filesPerm _).trans (hlisting.perm _)
  have hnodup : (files.map FileInfo.path).Nodup :=
    (hperm.map FileInfo.path).nodup_iff.mpr (nodup_fileInfos shard _)
  have hthere : ∀ e ∈ files, ((c.sanitizeWorkspace shard).contentAt e.path).isSome := by
    intro e he
    obtain ⟨file, hfile, -⟩ := mem_fileInfos.mp (hperm.mem_iff.mp he)
    rw [contentAt, hfile]
    rfl
  obtain ⟨purged, c', hloop, hpurged⟩ := purgeLoop_cases hlib sizeLimit hnodup hthere
    hfirst.consistent (totalUsed files)
  exact ⟨purged, c', hloop, hfirst.append hpurged⟩

theorem purge_cases (hlib : lib.Lawful) {listing : Listing} (hlisting : listing.Lawful)
    (h : Consistent lib c) :
    ∃ purged c', c.purge lib listing = .ok (purged, c') ∧ Purged lib purged c c' := by
  unfold purge
  suffices hfold : ∀ (shards : List (String × UInt64)) (purged : List String) (c₁ : DiskCache),
      Purged lib purged c c₁ → ∃ purged' c', shards.foldlM (fun acc d => do
        let swept ← purgeCacheAt lib listing d.1 d.2 acc.2
        return (acc.1 ++ swept.1, swept.2)) (purged, c₁) = .ok (purged', c') ∧
          Purged lib purged' c c' by
    exact hfold c.options.shards [] c (.refl h)
  intro shards
  induction shards with
  | nil =>
      intro purged c₁ h₁
      exact ⟨purged, c₁, rfl, h₁⟩
  | cons d shards ih =>
      intro purged c₁ h₁
      obtain ⟨purged', c₂, hat, h₂⟩ :=
        purgeCacheAt_cases hlib hlisting d.1 d.2 h₁.consistent
      obtain ⟨purged'', c', hrest, hpurged⟩ := ih (purged ++ purged') c₂ (h₁.append h₂)
      refine ⟨purged'', c', ?_, hpurged⟩
      simp only [List.foldlM_cons, bind, Except.bind, hat]
      exact hrest

end View

end DiskCache

end Yadcc
