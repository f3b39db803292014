/-
# Opening a disk cache

The constructor builds the ring and the directories, and then indexes the files it finds. A
file that is not where its key belongs now is moved there, deleted or ignored. Moving is
renaming, which fails from one file system to another.
-/

import Yadcc.Common.DiskCacheView

namespace Yadcc

open Yadcc.Lib

/-- What to do with a file that belongs elsewhere. -/
inductive ActionOnMisplacedEntry
  | delete
  | move
  | ignore
  deriving DecidableEq

/-- There is a place for every key: some shard, some level, and some sub-directories. -/
structure DiskOptions.Usable (options : DiskOptions) : Prop where
  shards : options.shards ≠ []
  subDirLevel : options.subDirLevel ≠ 0
  subDirs : options.subDirs ≠ 0

namespace DiskCache

/-! ## The constructor -/

/-- The directories of a shard, if there are levels of them. -/
def initializeWorkspaceAt (path : String) (c : DiskCache) : DiskCache :=
  if c.options.subDirLevel = 0 then c
  else (allSubdirs c.options.subDirLevel c.options.subDirs).foldl
    (fun c subdirs => c.setEntries ⟨path, subdirs⟩ ∅) c

/-- The ring and the directories. The ring may have too many nodes. -/
def initializeCacheDirs (lib : DiskLibrary) (options : DiskOptions)
    (files : UnorderedMap FilePath File) : Option DiskCache :=
  (ConsistentHash.new lib.sort lib.xxHash (getWeightedDirs options.shards)).map
    fun shardMapper => options.shards.foldl (fun c d => c.initializeWorkspaceAt d.1)
      ⟨options, shardMapper, ∅, files⟩

/-- Each shard is on some file system, `device`. -/
def rename (device : String → ℕ) (path path' : FilePath) (c : DiskCache) :
    Except DiskFault DiskCache :=
  match c.files.lookup path with
  | none => .error .renameFailed
  | some file =>
      if device path.dir.shard = device path'.dir.shard then
        .ok { c with files := (c.files.erase path).insert path' file }
      else .error .renameFailed

def indexFile (dir : Directory) (key : String) (file : FileInfo) (c : DiskCache) :
    Except DiskFault DiskCache := do
  let entries ← c.entriesAt dir
  return c.setEntries dir (entries.insert key ⟨file.size, file.lastUsed⟩)

def loadFile (lib : DiskLibrary) (action : ActionOnMisplacedEntry) (device : String → ℕ)
    (c : DiskCache) (file : FileInfo) : Except DiskFault DiskCache := do
  match getKeyFromPath lib file.path with
  | none => return c
  | some key =>
      match ← c.tryGetPathOfKey lib key with
      | none => return c
      | some dstPath =>
          if dstPath.dir = file.path.dir then c.indexFile file.path.dir key file
          else
            match action with
            | .move => do
                let c ← c.rename device file.path dstPath
                c.indexFile dstPath.dir key file
            | .delete => c.unlink file.path
            | .ignore => return c

def loadShard (lib : DiskLibrary) (action : ActionOnMisplacedEntry) (device : String → ℕ)
    (listing : Listing) (c : DiskCache) (shard : String) : Except DiskFault DiskCache :=
  let (files, c) := c.enumerateCacheEntries listing shard
  files.foldlM (loadFile lib action device) c

/-- The constructor, over the files that are on the disk. -/
def new (lib : DiskLibrary) (action : ActionOnMisplacedEntry) (device : String → ℕ)
    (listing : Listing) (options : DiskOptions) (files : UnorderedMap FilePath File) :
    Except DiskFault DiskCache :=
  match initializeCacheDirs lib options files with
  | none => .error .diverged
  | some c => (options.shards.map Prod.fst).foldlM (loadShard lib action device listing) c

/-! ## Shards and directories -/

theorem lookup_getWeightedDirs (directories : List (String × UInt64)) (dir : String) :
    ((getWeightedDirs directories).lookup dir).isSome = decide (dir ∈ directories.map Prod.fst) ∧
      ∀ weight, (getWeightedDirs directories).lookup dir = some weight →
        0 < weight ∧ weight ≤ 2 ^ 37 := by
  induction directories using List.reverseRecOn with
  | nil => simp [getWeightedDirs]
  | append_singleton directories d ih =>
      have hlast : getWeightedDirs (directories ++ [d]) =
          (getWeightedDirs directories).insert d.1
            (if d.2.toNat / 2 ^ 20 / 2 ^ 7 = 0 then 1 else d.2.toNat / 2 ^ 20 / 2 ^ 7) := by
        rw [getWeightedDirs, List.foldl_append]
        rfl
      rw [hlast, AList.lookup_insert_eq, List.map_append, List.map_cons, List.map_nil]
      by_cases hdir : dir = d.1
      · rw [if_pos hdir, hdir]
        refine ⟨by simp, ?_⟩
        intro weight hweight
        cases hweight
        have hsize := d.2.toNat_lt
        split
        · omega
        · omega
      · rw [if_neg hdir]
        refine ⟨?_, ih.2⟩
        rw [ih.1]
        simp [hdir]

/-- The number of virtual nodes of a shard is not too much for 64 bits. -/
theorem virtualNodeSize_getWeightedDirs {directories : List (String × UInt64)} {dir : String}
    {weight : ℕ} (h : (getWeightedDirs directories).lookup dir = some weight) :
    virtualNodeSize weight = weight * kVirtualNodeFactor ∧ 0 < weight := by
  obtain ⟨hpos, hle⟩ := (lookup_getWeightedDirs directories dir).2 weight h
  refine ⟨Nat.mod_eq_of_lt ?_, hpos⟩
  rw [kVirtualNodeFactor]
  omega

theorem mem_allSubdirs {level subDirs : ℕ} {subdirs : List ℕ} :
    subdirs ∈ allSubdirs level subDirs ↔
      subdirs.length = level ∧ ∀ i ∈ subdirs, i < subDirs := by
  induction level generalizing subdirs with
  | zero =>
      rw [allSubdirs, List.mem_singleton, List.length_eq_zero_iff]
      constructor
      · rintro rfl
        simp
      · rintro ⟨rfl, -⟩
        rfl
  | succ level ih =>
      rw [allSubdirs]
      simp only [List.mem_flatMap, List.mem_range, List.mem_map, ih]
      constructor
      · rintro ⟨i, hi, rest, ⟨hlength, hrest⟩, rfl⟩
        refine ⟨by rw [List.length_cons, hlength], ?_⟩
        intro j hj
        rcases List.mem_cons.mp hj with rfl | hj
        · exact hi
        · exact hrest j hj
      · rintro ⟨hlength, hall⟩
        obtain ⟨i, rest, rfl⟩ := List.exists_cons_of_length_eq_add_one hlength
        obtain ⟨hi, hrest⟩ := List.forall_mem_cons.mp hall
        exact ⟨i, hi, rest, ⟨Nat.succ.inj hlength, hrest⟩, rfl⟩

theorem getSubdirsFor_mem {subDirs : ℕ} (h : 0 < subDirs) (hash level : ℕ) :
    getSubdirsFor hash level subDirs ∈ allSubdirs level subDirs := by
  rw [mem_allSubdirs]
  refine ⟨length_getSubdirsFor hash level subDirs, ?_⟩
  induction level generalizing hash with
  | zero =>
      intro i hi
      cases hi
  | succ level ih =>
      intro i hi
      rcases List.mem_cons.mp hi with rfl | hi
      · exact Nat.mod_lt hash h
      · exact ih (hash / subDirs) i hi

section Layout

variable {lib : DiskLibrary} {c c' : DiskCache}

/-- What the index of a directory says of a key. -/
def entryOf (dir : Directory) (key : String) (c : DiskCache) : Option EntryDesc :=
  (c.entriesPerDir.lookup dir).bind fun entries => entries.lookup key

theorem indexed_eq_entryOf (dir : Directory) (key : String) :
    c.indexed dir key = (c.entryOf dir key).isSome := rfl

theorem entryOf_setEntries (dir d : Directory) (entries : UnorderedMap String EntryDesc)
    (key : String) : (c.setEntries dir entries).entryOf d key =
      if d = dir then entries.lookup key else c.entryOf d key := by
  rw [entryOf, setEntries, AList.lookup_insert_eq]
  split
  · rfl
  · rfl

/-- The ring is the one of the shards, and each of their directories has its index. -/
structure LaidOut (lib : DiskLibrary) (c : DiskCache) : Prop where
  ring : ConsistentHash.new lib.sort lib.xxHash (getWeightedDirs c.options.shards) =
    some c.shardMapper
  dirs : ∀ dir, (c.entriesPerDir.lookup dir).isSome = true ↔
    dir.shard ∈ c.options.shards.map Prod.fst ∧ c.options.subDirLevel ≠ 0 ∧
      dir.subdirs ∈ allSubdirs c.options.subDirLevel c.options.subDirs

theorem LaidOut.of_same (h : LaidOut lib c) (hsame : SameLayout c c') : LaidOut lib c' := by
  constructor
  · rw [hsame.options, hsame.shardMapper]
    exact h.ring
  · intro dir
    rw [hsame.dirs, hsame.options]
    exact h.dirs dir

/-- The path of a key is in a directory of some shard. -/
theorem LaidOut.shard_mem (hlib : lib.Lawful) (h : LaidOut lib c) {key : String}
    {path : FilePath} (hpath : c.tryGetPathOfKey lib key = .ok (some path)) :
    path.dir.shard ∈ c.options.shards.map Prod.fst := by
  unfold tryGetPathOfKey at hpath
  simp only at hpath
  split at hpath
  · cases hpath
  · split at hpath
    · cases hpath
    · next shard hshard =>
        cases hpath
        have hweight := ConsistentHash.lookup_of_getNode hlib.ringSort h.ring hshard
        rw [(lookup_getWeightedDirs c.options.shards shard).1, decide_eq_true_eq] at hweight
        exact hweight

theorem subdirs_of_path {key : String} {path : FilePath}
    (h : c.tryGetPathOfKey lib key = .ok (some path)) : path.dir.subdirs =
      getSubdirsFor (lib.xxHash key).toNat c.options.subDirLevel c.options.subDirs := by
  unfold tryGetPathOfKey at h
  simp only at h
  split at h
  · cases h
  · split at h
    · cases h
    · cases h
      rfl

theorem LaidOut.laid (hlib : lib.Lawful) (h : LaidOut lib c) (husable : c.options.Usable) :
    Laid lib c := by
  constructor
  · intro key
    unfold tryGetPathOfKey
    simp only
    split
    · exact ⟨none, rfl⟩
    · obtain ⟨d, hd⟩ := List.exists_mem_of_ne_nil _ husable.shards
      have hsome := (lookup_getWeightedDirs c.options.shards d.1).1
      rw [decide_eq_true (List.mem_map_of_mem hd)] at hsome
      obtain ⟨weight, hweight⟩ := Option.isSome_iff_exists.mp hsome
      have hnode := ConsistentHash.getNode_of_new hlib.ringSort h.ring hweight
        (by
          obtain ⟨hsize, hpos⟩ := virtualNodeSize_getWeightedDirs hweight
          rw [hsize]
          exact Nat.mul_ne_zero hpos.ne' (by decide))
        (lib.xxHash key).toUInt32
      obtain ⟨shard, hshard⟩ := Option.isSome_iff_exists.mp hnode
      rw [hshard]
      exact ⟨_, rfl⟩
  · intro key path hpath
    rw [h.dirs, subdirs_of_path hpath]
    exact ⟨h.shard_mem hlib hpath, husable.subDirLevel,
      getSubdirsFor_mem (Nat.pos_of_ne_zero husable.subDirs) _ _⟩

/-! ## Empty directories -/

/-- Nothing is indexed yet. -/
def Unindexed (c : DiskCache) : Prop :=
  ∀ dir key, c.entryOf dir key = none

/-- Directories are added, with nothing in them. -/
structure DirsAdded (dirs : Directory → Prop) (c c' : DiskCache) : Prop where
  options : c'.options = c.options
  shardMapper : c'.shardMapper = c.shardMapper
  files : c'.files = c.files
  unindexed : Unindexed c → Unindexed c'
  dirs : ∀ dir, (c'.entriesPerDir.lookup dir).isSome = true ↔
    dirs dir ∨ (c.entriesPerDir.lookup dir).isSome = true

theorem dirsAdded_setEntries (dir : Directory) :
    DirsAdded (· = dir) c (c.setEntries dir ∅) := by
  refine ⟨rfl, rfl, rfl, ?_, ?_⟩
  · intro h d key
    rw [entryOf_setEntries]
    split
    · rfl
    · exact h d key
  · intro d
    rw [setEntries, AList.lookup_insert_eq]
    split
    · next hd => simp [hd]
    · next hd => simp [hd]

theorem DirsAdded.trans {c'' : DiskCache} {first second : Directory → Prop}
    (h : DirsAdded first c c') (h' : DirsAdded second c' c'') :
    DirsAdded (fun dir => second dir ∨ first dir) c c'' := by
  refine ⟨h'.options.trans h.options, h'.shardMapper.trans h.shardMapper,
    h'.files.trans h.files, fun hc => h'.unindexed (h.unindexed hc), ?_⟩
  intro dir
  rw [h'.dirs, h.dirs, or_assoc]

theorem DirsAdded.congr {first second : Directory → Prop} (h : DirsAdded first c c')
    (hiff : ∀ dir, first dir ↔ second dir) : DirsAdded second c c' :=
  ⟨h.options, h.shardMapper, h.files, h.unindexed, fun dir => by rw [← hiff, h.dirs]⟩

/-- What a loop over directories adds. -/
theorem dirsAdded_foldl {α : Type} {f : DiskCache → α → DiskCache} {P : α → Directory → Prop}
    (as : List α) (c : DiskCache)
    (hf : ∀ a c', c'.options = c.options → DirsAdded (P a) c' (f c' a)) :
    DirsAdded (fun dir => ∃ a ∈ as, P a dir) c (as.foldl f c) := by
  induction as generalizing c with
  | nil => exact ⟨rfl, rfl, rfl, id, fun dir => by simp⟩
  | cons a as ih =>
      have hfirst := hf a c rfl
      have hrest := ih (f c a) fun b c' hc' => hf b c' (hc'.trans hfirst.options)
      refine (hfirst.trans hrest).congr ?_
      intro dir
      rw [List.exists_mem_cons_iff, or_comm]

theorem dirsAdded_initializeWorkspaceAt (path : String) (c : DiskCache) :
    DirsAdded (fun dir => dir.shard = path ∧ c.options.subDirLevel ≠ 0 ∧
      dir.subdirs ∈ allSubdirs c.options.subDirLevel c.options.subDirs)
      c (c.initializeWorkspaceAt path) := by
  unfold initializeWorkspaceAt
  split
  · next hlevel => exact ⟨rfl, rfl, rfl, id, fun dir => by simp [hlevel]⟩
  · next hlevel =>
      have hfold := dirsAdded_foldl (f := fun c subdirs => c.setEntries ⟨path, subdirs⟩ ∅)
        (P := fun subdirs dir => dir = ⟨path, subdirs⟩)
        (allSubdirs c.options.subDirLevel c.options.subDirs) c
        fun subdirs c' _ => dirsAdded_setEntries ⟨path, subdirs⟩
      refine hfold.congr ?_
      intro dir
      constructor
      · rintro ⟨subdirs, hmem, rfl⟩
        exact ⟨rfl, hlevel, hmem⟩
      · rintro ⟨rfl, -, hmem⟩
        exact ⟨dir.subdirs, hmem, rfl⟩

/-- The first half of the constructor lays out the directories of an empty cache. -/
theorem initializeCacheDirs_cases {options : DiskOptions} {files : UnorderedMap FilePath File}
    (h : initializeCacheDirs lib options files = some c) :
    c.options = options ∧ c.files = files ∧ Unindexed c ∧ LaidOut lib c := by
  obtain ⟨shardMapper, hring, rfl⟩ := Option.map_eq_some_iff.mp h
  have hadded := dirsAdded_foldl (f := fun c (d : String × UInt64) => c.initializeWorkspaceAt d.1)
    (P := fun d dir => dir.shard = d.1 ∧ options.subDirLevel ≠ 0 ∧
      dir.subdirs ∈ allSubdirs options.subDirLevel options.subDirs)
    options.shards ⟨options, shardMapper, ∅, files⟩ (by
      intro d c' hc'
      have hat := dirsAdded_initializeWorkspaceAt d.1 c'
      rw [hc'] at hat
      exact hat)
  refine ⟨hadded.options, hadded.files, hadded.unindexed fun _ _ => rfl, ?_, ?_⟩
  · rw [hadded.options, hadded.shardMapper]
    exact hring
  · intro dir
    rw [hadded.dirs, hadded.options]
    constructor
    · rintro (⟨d, hd, hshard, hrest⟩ | hempty)
      · exact ⟨List.mem_map.mpr ⟨d, hd, hshard.symm⟩, hrest⟩
      · cases hempty
    · rintro ⟨hmem, hrest⟩
      obtain ⟨d, hd, hshard⟩ := List.mem_map.mp hmem
      exact .inl ⟨d, hd, hshard.symm, hrest⟩

theorem initializeCacheDirs_isSome_iff {options : DiskOptions}
    {files : UnorderedMap FilePath File} : (initializeCacheDirs lib options files).isSome ↔
      ∀ dir weight, (getWeightedDirs options.shards).lookup dir = some weight →
        weight * kVirtualNodeFactor < 2 ^ 32 := by
  rw [initializeCacheDirs, Option.isSome_map, ConsistentHash.new_isSome_iff]
  refine forall₃_congr fun dir weight hweight => ?_
  rw [(virtualNodeSize_getWeightedDirs hweight).1]

/-! ## Loading a file -/

/-- A key is indexed as its file says. -/
structure FileIndexed (dir : Directory) (key : String) (file : FileInfo) (c c' : DiskCache) : Prop
    extends SameLayout c c' where
  files : c'.files = c.files
  entryOf : ∀ d k, c'.entryOf d k =
    if d = dir ∧ k = key then some ⟨file.size, file.lastUsed⟩ else c.entryOf d k

theorem indexFile_cases {dir : Directory} (h : (c.entriesPerDir.lookup dir).isSome)
    (key : String) (file : FileInfo) :
    ∃ c', c.indexFile dir key file = .ok c' ∧ FileIndexed dir key file c c' := by
  obtain ⟨entries, hentries, hlookup⟩ := entriesAt_ok h
  refine ⟨c.setEntries dir (entries.insert key ⟨file.size, file.lastUsed⟩), ?_,
    sameLayout_setEntries h _, rfl, ?_⟩
  · rw [indexFile, hentries]
    rfl
  · intro d k
    rw [entryOf_setEntries]
    by_cases hd : d = dir
    · rw [if_pos hd, AList.lookup_insert_eq, entryOf, hd, hlookup]
      by_cases hk : k = key
      · rw [if_pos hk, if_pos ⟨rfl, hk⟩]
      · rw [if_neg hk, if_neg fun hat => hk hat.2]
        rfl
    · rw [if_neg hd, if_neg fun hat => hd hat.1]

/-- The files when one has been moved before its key was indexed. -/
theorem FileIndexed.lookup_moved {dir : Directory} {key : String} {file : FileInfo}
    {path path' : FilePath} {content : File} (h : FileIndexed dir key file
      { c with files := (c.files.erase path').insert path content } c') (q : FilePath) :
    c'.files.lookup q = if q = path then some content
      else if q = path' then none else c.files.lookup q := by
  rw [h.files]
  change AList.lookup q ((c.files.erase path').insert path content) = _
  rw [AList.lookup_insert_eq, AList.lookup_erase_eq]

/-- What loading a file can do. -/
inductive Loaded (lib : DiskLibrary) (action : ActionOnMisplacedEntry) (device : String → ℕ)
    (file : FileInfo) (c : DiskCache) : DiskCache → Prop
  | skipped : (∀ key path, getKeyFromPath lib file.path = some key →
      c.tryGetPathOfKey lib key = .ok (some path) →
        path.dir ≠ file.path.dir ∧ action = .ignore) → Loaded lib action device file c c
  | indexed {key : String} {path : FilePath} {c' : DiskCache} :
      getKeyFromPath lib file.path = some key → c.tryGetPathOfKey lib key = .ok (some path) →
        path.dir = file.path.dir → FileIndexed path.dir key file c c' →
          Loaded lib action device file c c'
  | moved {key : String} {path : FilePath} {content : File} {c' : DiskCache} :
      getKeyFromPath lib file.path = some key → c.tryGetPathOfKey lib key = .ok (some path) →
        path.dir ≠ file.path.dir → action = .move → c.files.lookup file.path = some content →
          device file.path.dir.shard = device path.dir.shard →
            FileIndexed path.dir key file
              { c with files := (c.files.erase file.path).insert path content } c' →
              Loaded lib action device file c c'
  | deleted {key : String} {path : FilePath} :
      getKeyFromPath lib file.path = some key → c.tryGetPathOfKey lib key = .ok (some path) →
        path.dir ≠ file.path.dir → action = .delete →
          Loaded lib action device file c { c with files := c.files.erase file.path }

theorem loadFile_cases (h : Laid lib c) {action : ActionOnMisplacedEntry} {device : String → ℕ}
    {file : FileInfo} (hload : loadFile lib action device c file = .ok c') :
    Loaded lib action device file c c' := by
  unfold loadFile at hload
  split at hload
  · next hkey =>
      cases hload
      exact .skipped fun key path hkey' => by rw [hkey] at hkey'; cases hkey'
  · next key hkey =>
      obtain ⟨path?, hpath, hload⟩ := bind_eq_ok.mp hload
      cases path? with
      | none =>
          cases hload
          refine .skipped ?_
          intro key' path hkey' hpath'
          rw [hkey] at hkey'
          cases hkey'
          rw [hpath] at hpath'
          cases hpath'
      | some path =>
          simp only at hload
          split at hload
          · next hdir =>
              obtain ⟨c₁, hindex, heffect⟩ := indexFile_cases (h.dir key path hpath) key file
              rw [← hdir, hindex] at hload
              cases hload
              exact .indexed hkey hpath hdir heffect
          · next hdir =>
              cases action with
              | move =>
                  obtain ⟨c₁, hrename, hload⟩ := bind_eq_ok.mp hload
                  unfold rename at hrename
                  split at hrename
                  · cases hrename
                  · next content hcontent =>
                      split at hrename
                      · next hdevice =>
                          cases hrename
                          have hthere := h.dir key path hpath
                          obtain ⟨c₂, hindex, heffect⟩ := indexFile_cases
                            (c := { c with files := (c.files.erase file.path).insert path content })
                            hthere key file
                          rw [hindex] at hload
                          cases hload
                          exact .moved hkey hpath hdir rfl hcontent hdevice heffect
                      · cases hrename
              | delete =>
                  simp only at hload
                  unfold unlink at hload
                  split at hload
                  · cases hload
                  · cases hload
                    exact .deleted hkey hpath hdir rfl
              | ignore =>
                  cases hload
                  refine .skipped ?_
                  intro key' path' hkey' hpath'
                  rw [hkey] at hkey'
                  cases hkey'
                  rw [hpath] at hpath'
                  cases hpath'
                  exact ⟨hdir, rfl⟩

/-! ## What the constructor leaves -/

theorem name_of_path {key : String} {path : FilePath}
    (h : c.tryGetPathOfKey lib key = .ok (some path)) : path.name = lib.encodePercent key := by
  unfold tryGetPathOfKey at h
  simp only at h
  split at h
  · cases h
  · split at h
    · cases h
    · cases h
      rfl

/-- Every file that has the name of a key has the name that its key is given. -/
def Canonical (lib : DiskLibrary) (files : UnorderedMap FilePath File) : Prop :=
  ∀ path file key, files.lookup path = some file → getKeyFromPath lib path = some key →
    path.name = lib.encodePercent key

theorem canonical_empty : Canonical lib ∅ := by
  intro path file key hfile
  cases hfile

/-- A cache that is open. -/
structure Opened (lib : DiskLibrary) (c : DiskCache) : Prop
    extends Consistent lib c, LaidOut lib c where
  canonical : Canonical lib c.files

/-- Some files have been loaded, others not yet. -/
structure Loading (lib : DiskLibrary) (files : List FileInfo) (c : DiskCache) : Prop
    extends Opened lib c where
  nodup : (files.map FileInfo.path).Nodup
  there : ∀ file ∈ files, (c.files.lookup file.path).isSome

theorem Consistent.of_files (h : Consistent lib c) (hsame : SameLayout c c')
    (hpresent : ∀ dir key, c'.indexed dir key = true →
      c.indexed dir key = true ∨
        ∃ path, c.tryGetPathOfKey lib key = .ok (some path) ∧ path.dir = dir ∧
          (c'.contentAt path).isSome)
    (hkeep : ∀ key path, c.tryGetPathOfKey lib key = .ok (some path) →
      (c.contentAt path).isSome → (c'.contentAt path).isSome) : Consistent lib c' := by
  refine ⟨h.toLaid.of_same hsame, ?_⟩
  intro dir key hkey
  have hfound : ∃ path, c.tryGetPathOfKey lib key = .ok (some path) ∧ path.dir = dir ∧
      (c'.contentAt path).isSome := by
    rcases hpresent dir key hkey with hindexed | hfound
    · obtain ⟨path, content, hpath, hdir, hcontent⟩ := h.present dir key hindexed
      exact ⟨path, hpath, hdir, hkeep key path hpath (by rw [hcontent]; rfl)⟩
    · exact hfound
  obtain ⟨path, hpath, hdir, hthere⟩ := hfound
  obtain ⟨content, hcontent⟩ := Option.isSome_iff_exists.mp hthere
  exact ⟨path, content, by rw [hsame.tryGetPathOfKey, hpath], hdir, hcontent⟩

/-- The place of a key is the only file of its directory that has its name. -/
theorem path_of_canonical {key : String} {path path' : FilePath} {file : File}
    (hcanonical : Canonical lib c.files) (hfile : c.files.lookup path' = some file)
    (hkey : getKeyFromPath lib path' = some key)
    (hpath : c.tryGetPathOfKey lib key = .ok (some path)) (hdir : path.dir = path'.dir) :
    path = path' := by
  have hname := (name_of_path hpath).trans (hcanonical path' file key hfile hkey).symm
  cases path
  cases path'
  cases hdir
  cases hname
  rfl

section Step

variable {file : FileInfo} {files : List FileInfo} {key : String} {path : FilePath}

theorem Loading.path_ne (h : Loading lib (file :: files) c) {e : FileInfo} (he : e ∈ files) :
    e.path ≠ file.path := by
  intro heq
  exact (List.nodup_cons.mp h.nodup).1 (heq ▸ List.mem_map_of_mem he)

/-- A file that is not where its key belongs is not where any key belongs. -/
theorem path_ne_of_misplaced (hlib : lib.Lawful) (hkey : getKeyFromPath lib file.path = some key)
    (hpath : c.tryGetPathOfKey lib key = .ok (some path)) (hdir : path.dir ≠ file.path.dir)
    {k : String} {p : FilePath} (hp : c.tryGetPathOfKey lib k = .ok (some p)) : p ≠ file.path := by
  intro heq
  have hk := getKeyFromPath_of_path hlib hp
  rw [heq, hkey] at hk
  cases hk
  rw [hpath] at hp
  cases hp
  exact hdir (congrArg FilePath.dir heq)

theorem Loading.indexed (h : Loading lib (file :: files) c)
    (hkey : getKeyFromPath lib file.path = some key)
    (hpath : c.tryGetPathOfKey lib key = .ok (some path)) (hdir : path.dir = file.path.dir)
    (heffect : FileIndexed path.dir key file c c') : Loading lib files c' := by
  have hcontent : ∀ p, c'.contentAt p = c.contentAt p := by
    intro p
    rw [contentAt, heffect.files]
    rfl
  obtain ⟨content, hcontentfile⟩ :=
    Option.isSome_iff_exists.mp (h.there file List.mem_cons_self)
  have hplace := path_of_canonical h.canonical hcontentfile hkey hpath hdir
  refine ⟨⟨h.toConsistent.of_files heffect.toSameLayout ?_ ?_,
    h.toLaidOut.of_same heffect.toSameLayout, ?_⟩, (List.nodup_cons.mp h.nodup).2, ?_⟩
  · intro d k hk
    rw [indexed_eq_entryOf, heffect.entryOf] at hk
    split at hk
    · next hat =>
        refine .inr ⟨path, hat.2 ▸ hpath, hat.1.symm, ?_⟩
        rw [hcontent, contentAt, hplace, hcontentfile]
        rfl
    · exact .inl hk
  · intro k p _ hthere
    rw [hcontent]
    exact hthere
  · rw [heffect.files]
    exact h.canonical
  · intro e he
    rw [heffect.files]
    exact h.there e (List.mem_cons_of_mem file he)

theorem Loading.moved (hlib : lib.Lawful) {content : File} (h : Loading lib (file :: files) c)
    (hkey : getKeyFromPath lib file.path = some key)
    (hpath : c.tryGetPathOfKey lib key = .ok (some path)) (hdir : path.dir ≠ file.path.dir)
    (heffect : FileIndexed path.dir key file
      { c with files := (c.files.erase file.path).insert path content } c') :
    Loading lib files c' := by
  have hlookup := heffect.lookup_moved
  have hsame : SameLayout c c' := ⟨heffect.options, heffect.shardMapper, heffect.dirs⟩
  refine ⟨⟨h.toConsistent.of_files hsame ?_ ?_, h.toLaidOut.of_same hsame, ?_⟩,
    (List.nodup_cons.mp h.nodup).2, ?_⟩
  · intro d k hk
    rw [indexed_eq_entryOf, heffect.entryOf] at hk
    split at hk
    · next hat =>
        refine .inr ⟨path, hat.2 ▸ hpath, hat.1.symm, ?_⟩
        rw [contentAt, hlookup, if_pos rfl]
        rfl
    · exact .inl hk
  · intro k p hp hthere
    rw [contentAt, hlookup]
    split
    · rfl
    · rw [if_neg (path_ne_of_misplaced hlib hkey hpath hdir hp)]
      exact hthere
  · intro p f k hf hk
    rw [hlookup] at hf
    split at hf
    · next hpeq =>
        rw [hpeq, getKeyFromPath_of_path hlib hpath] at hk
        cases hk
        rw [hpeq, name_of_path hpath]
    · split at hf
      · cases hf
      · exact h.canonical p f k hf hk
  · intro e he
    rw [hlookup]
    split
    · rfl
    · rw [if_neg (h.path_ne he)]
      exact h.there e (List.mem_cons_of_mem file he)

theorem Loading.deleted (hlib : lib.Lawful) (h : Loading lib (file :: files) c)
    (hkey : getKeyFromPath lib file.path = some key)
    (hpath : c.tryGetPathOfKey lib key = .ok (some path)) (hdir : path.dir ≠ file.path.dir) :
    Loading lib files { c with files := c.files.erase file.path } := by
  have hlookup : ∀ p, (c.files.erase file.path).lookup p =
      if p = file.path then none else c.files.lookup p := by
    intro p
    rw [AList.lookup_erase_eq]
  have hsame : SameLayout c { c with files := c.files.erase file.path } :=
    ⟨rfl, rfl, fun _ => rfl⟩
  refine ⟨⟨h.toConsistent.of_files hsame (fun d k hk => .inl hk) ?_,
    h.toLaidOut.of_same hsame, ?_⟩, (List.nodup_cons.mp h.nodup).2, ?_⟩
  · intro k p hp hthere
    rw [contentAt_eraseFile, if_neg (path_ne_of_misplaced hlib hkey hpath hdir hp)]
    exact hthere
  · intro p f k hf hk
    rw [hlookup] at hf
    split at hf
    · cases hf
    · exact h.canonical p f k hf hk
  · intro e he
    rw [hlookup, if_neg (h.path_ne he)]
    exact h.there e (List.mem_cons_of_mem file he)

theorem Loading.step (hlib : lib.Lawful) {action : ActionOnMisplacedEntry}
    {device : String → ℕ} (h : Loading lib (file :: files) c)
    (hload : loadFile lib action device c file = .ok c') : Loading lib files c' := by
  cases loadFile_cases h.toLaid hload with
  | skipped =>
      exact ⟨h.toOpened, (List.nodup_cons.mp h.nodup).2,
        fun e he => h.there e (List.mem_cons_of_mem file he)⟩
  | indexed hkey hpath hdir heffect => exact h.indexed hkey hpath hdir heffect
  | moved hkey hpath hdir _ _ _ heffect => exact h.moved hlib hkey hpath hdir heffect
  | deleted hkey hpath hdir _ => exact h.deleted hlib hkey hpath hdir

end Step

/-- The files of a shard are about to be loaded. -/
theorem Opened.loading (h : Opened lib c) {listing : Listing} (hlisting : listing.Lawful)
    (shard : String) :
    Loading lib (listing (fileInfos shard (c.sanitizeWorkspace shard).files))
      (c.sanitizeWorkspace shard) := by
  have hperm := hlisting.perm (fileInfos shard (c.sanitizeWorkspace shard).files)
  refine ⟨⟨(purged_sanitizeWorkspace h.toConsistent shard).consistent,
    h.toLaidOut.of_same (sameLayout_sanitizeWorkspace shard), ?_⟩, ?_, ?_⟩
  · intro path file key hfile hkey
    rw [sanitizeWorkspace, AList.lookup_filterEntries] at hfile
    exact h.canonical path file key (Option.filter_eq_some_iff.mp hfile).1 hkey
  · exact (hperm.map FileInfo.path).nodup_iff.mpr (nodup_fileInfos shard _)
  · intro file hmem
    obtain ⟨content, hcontent, -⟩ := mem_fileInfos.mp (hperm.mem_iff.mp hmem)
    rw [hcontent]
    rfl

/-- The constructor leaves a cache in which each indexed key has its file. -/
theorem opened_of_new (hlib : lib.Lawful) {action : ActionOnMisplacedEntry}
    {device : String → ℕ} {listing : Listing} (hlisting : listing.Lawful)
    {options : DiskOptions} (husable : options.Usable) {files : UnorderedMap FilePath File}
    (hfiles : Canonical lib files) (h : new lib action device listing options files = .ok c) :
    Opened lib c := by
  unfold new at h
  split at h
  · cases h
  · next c₀ hinit =>
      obtain ⟨hoptions, hdisk, hempty, hlaid⟩ := initializeCacheDirs_cases hinit
      have hopened : Opened lib c₀ := by
        refine ⟨⟨hlaid.laid hlib (hoptions ▸ husable), ?_⟩, hlaid, hdisk ▸ hfiles⟩
        intro dir key hkey
        rw [indexed_eq_entryOf, hempty] at hkey
        cases hkey
      refine foldlM_invariant (I := fun _ c => Opened lib c) ?_ hopened h
      intro shard _ c c' hc hload
      have hloading := hc.loading hlisting shard
      have hdone := foldlM_invariant (I := fun files c => Loading lib files c)
        (fun file files c c' hI hstep => hI.step hlib hstep) hloading hload
      exact hdone.toOpened

end Layout

end DiskCache

/-! ## A sample -/

/-- Keys are their own names, and every hash is zero, so that the first shard has all keys. -/
def sampleLibrary : DiskLibrary where
  encodePercent key := key
  decodePercent name := some name
  xxHash _ := 0
  blake3 bytes := Vector.replicate 32 (bytes.headD 0)
  sort nodes := nodes.insertionSort fun x y => x.1 ≤ y.1
  sortFiles files := files.insertionSort fun x y => x.lastUsed ≤ y.lastUsed

theorem lawful_sampleLibrary : sampleLibrary.Lawful := by
  refine ⟨fun _ => rfl, ⟨?_, ?_⟩, ?_, ?_⟩
  · intro nodes
    exact List.perm_insertionSort _ nodes
  · intro nodes
    exact List.pairwise_insertionSort (r := fun x y : VirtualNode => x.1 ≤ y.1) nodes
  · intro files
    exact List.perm_insertionSort _ files
  · intro files
    exact List.pairwise_insertionSort (r := fun x y : FileInfo => x.lastUsed ≤ y.lastUsed) files

/-- One small shard. -/
def sampleOptions : DiskOptions := ⟨[("a", 0)], 1, 1⟩

/-- A shard of the least weight. -/
def sampleRing (shard : String) : ConsistentHash :=
  ⟨List.replicate kVirtualNodeFactor (0, shard)⟩

theorem new_sampleRing : ConsistentHash.new sampleLibrary.sort sampleLibrary.xxHash
    (getWeightedDirs [("a", 0)]) = some (sampleRing "a") := by
  unfold ConsistentHash.new
  have hentries : (getWeightedDirs [("a", 0)]).entries = [⟨"a", 1⟩] := rfl
  rw [hentries, List.mergeSort_singleton]
  decide +kernel

/-- A fresh cache. -/
def sampleCache : DiskCache where
  options := sampleOptions
  shardMapper := sampleRing "a"
  entriesPerDir := (∅ : UnorderedMap Directory _).insert ⟨"a", [0]⟩ ∅
  files := ∅

theorem usable_sampleOptions : sampleOptions.Usable :=
  ⟨List.cons_ne_nil _ _, one_ne_zero, one_ne_zero⟩

theorem new_sampleCache (action : ActionOnMisplacedEntry) (device : String → ℕ) :
    DiskCache.new sampleLibrary action device id sampleOptions ∅ = .ok sampleCache := by
  have hinit : DiskCache.initializeCacheDirs sampleLibrary sampleOptions ∅ =
      some sampleCache := by
    have hring : ConsistentHash.new sampleLibrary.sort sampleLibrary.xxHash
        (getWeightedDirs sampleOptions.shards) = some (sampleRing "a") := new_sampleRing
    rw [DiskCache.initializeCacheDirs, hring]
    rfl
  rw [DiskCache.new, hinit]
  rfl

end Yadcc
