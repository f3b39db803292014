/-
# A disk cache gets more shards

With another list of shards the keys are spread in another way, so that files are not where
their keys belong. The constructor moves them, one after the other, while it lists the shards.
A file is at its old place until it is moved and at its new place afterwards; files that are
moved may be listed before or afterwards. Renaming fails from one file system to another.
-/

import Yadcc.Common.DiskCacheLoad

namespace Yadcc

open Yadcc.Lib

namespace DiskCache

/-! ## The content before -/

/-- A cache as it is used under one list of shards: each key of the index has its file, and
each file has its key in the index. -/
structure Written (lib : DiskLibrary) (c : DiskCache) : Prop extends LaidOut lib c where
  present : ∀ dir key, c.indexed dir key = true → ∃ path file,
    c.tryGetPathOfKey lib key = .ok (some path) ∧ path.dir = dir ∧
      c.files.lookup path = some file
  complete : ∀ path file, c.files.lookup path = some file → ∃ key,
    c.tryGetPathOfKey lib key = .ok (some path) ∧ c.indexed path.dir key = true

/-- The new list of shards has the old ones, with any sizes, and the rest is the same. -/
structure Extends (options options' : DiskOptions) : Prop where
  shards : ∀ d ∈ options.shards, d.1 ∈ options'.shards.map Prod.fst
  subDirLevel : options'.subDirLevel = options.subDirLevel
  subDirs : options'.subDirs = options.subDirs

/-- No shard has too many virtual nodes, and the old and the new shard of each key that has a
file are on one file system. -/
structure Movable (lib : DiskLibrary) (device : String → ℕ) (options' : DiskOptions)
    (c : DiskCache) : Prop where
  weights : ∀ dir weight, (getWeightedDirs options'.shards).lookup dir = some weight →
    weight * kVirtualNodeFactor < 2 ^ 32
  devices : ∀ c' key path path', initializeCacheDirs lib options' c.files = some c' →
    c.tryGetPathOfKey lib key = .ok (some path) → (c.files.lookup path).isSome →
      c'.tryGetPathOfKey lib key = .ok (some path') →
        device path.dir.shard = device path'.dir.shard

section Reshard

variable {lib : DiskLibrary} {device : String → ℕ} {c₀ c c' : DiskCache}

/-! ## Where the files are -/

/-- Each file of the old content is at its old or at its new place. -/
structure Scattered (lib : DiskLibrary) (c₀ c : DiskCache) : Prop where
  origin : ∀ q file, c.files.lookup q = some file → ∃ key p,
    c₀.tryGetPathOfKey lib key = .ok (some p) ∧ c₀.files.lookup p = some file ∧
      (q = p ∨ c.tryGetPathOfKey lib key = .ok (some q))
  present : ∀ key p file, c₀.tryGetPathOfKey lib key = .ok (some p) →
    c₀.files.lookup p = some file →
      ∃ q, c.files.lookup q = some file ∧ getKeyFromPath lib q = some key
  unique : ∀ q q' file file', c.files.lookup q = some file → c.files.lookup q' = some file' →
    getKeyFromPath lib q = getKeyFromPath lib q' → q = q'

/-- The key of a file, its old place and the file there. -/
theorem Scattered.key (hlib : lib.Lawful) (h : Scattered lib c₀ c) {q : FilePath} {file : File}
    (hq : c.files.lookup q = some file) {key : String} (hkey : getKeyFromPath lib q = some key) :
    ∃ p, c₀.tryGetPathOfKey lib key = .ok (some p) ∧ c₀.files.lookup p = some file ∧
      (q = p ∨ c.tryGetPathOfKey lib key = .ok (some q)) := by
  obtain ⟨key', p, hp, hfile, hplace⟩ := h.origin q file hq
  have hkey' : getKeyFromPath lib q = some key' := by
    rcases hplace with rfl | hnew
    · exact getKeyFromPath_of_path hlib hp
    · exact getKeyFromPath_of_path hlib hnew
  rw [hkey] at hkey'
  cases hkey'
  exact ⟨p, hp, hfile, hplace⟩

theorem Scattered.length_subdirs (hextends : Extends c₀.options c.options)
    (h : Scattered lib c₀ c) {q : FilePath} {file : File} (hq : c.files.lookup q = some file) :
    q.dir.subdirs.length = c.options.subDirLevel := by
  obtain ⟨key, p, hp, -, rfl | hnew⟩ := h.origin q file hq
  · rw [length_subdirs_of_path hp, hextends.subDirLevel]
  · exact length_subdirs_of_path hnew

/-- A file is moved to where its key belongs. -/
theorem Scattered.move (hlib : lib.Lawful) (h : Scattered lib c₀ c) (hsame : SameLayout c c')
    {q path : FilePath} {key : String} {file : File} (hq : c.files.lookup q = some file)
    (hkey : getKeyFromPath lib q = some key)
    (hpath : c.tryGetPathOfKey lib key = .ok (some path))
    (hfiles : ∀ p, c'.files.lookup p = if p = path then some file
      else if p = q then none else c.files.lookup p) : Scattered lib c₀ c' := by
  have hpathkey := getKeyFromPath_of_path hlib hpath
  refine ⟨?_, ?_, ?_⟩
  · intro r f hr
    rw [hfiles] at hr
    simp only [hsame.tryGetPathOfKey]
    split at hr
    · next hreq =>
        cases hr
        obtain ⟨p, hp, hfile, -⟩ := h.key hlib hq hkey
        exact ⟨key, p, hp, hfile, .inr (hreq ▸ hpath)⟩
    · split at hr
      · cases hr
      · obtain ⟨k, p, hp, hfile, hplace⟩ := h.origin r f hr
        exact ⟨k, p, hp, hfile, hplace⟩
  · intro k p f hp hfile
    obtain ⟨r, hr, hrkey⟩ := h.present k p f hp hfile
    by_cases hrpath : r = path ∨ r = q
    · have hrq : r = q := by
        rcases hrpath with rfl | rfl
        · exact h.unique r q f file hr hq (hpathkey.trans hkey.symm)
        · rfl
      subst hrq
      rw [hr] at hq
      cases hq
      rw [hkey] at hrkey
      cases hrkey
      exact ⟨path, by rw [hfiles, if_pos rfl], hpathkey⟩
    · obtain ⟨hne, hneq⟩ := not_or.mp hrpath
      exact ⟨r, by rw [hfiles, if_neg hne, if_neg hneq, hr], hrkey⟩
  · intro r r' f f' hr hr' hrkey
    rw [hfiles] at hr hr'
    -- what was not moved and has the key of the file would be the file
    have hother : ∀ {r f}, r ≠ q → c.files.lookup r = some f →
        getKeyFromPath lib r ≠ some key := by
      intro r f hne hr heq
      exact hne (h.unique r q f file hr hq (heq.trans hkey.symm))
    by_cases hrpath : r = path
    · by_cases hrpath' : r' = path
      · rw [hrpath, hrpath']
      · rw [if_neg hrpath'] at hr'
        split at hr'
        · cases hr'
        · next hne => exact absurd (hrkey.symm.trans (hrpath ▸ hpathkey)) (hother hne hr')
    · rw [if_neg hrpath] at hr
      split at hr
      · cases hr
      · next hne =>
          by_cases hrpath' : r' = path
          · exact absurd (hrkey.trans (hrpath' ▸ hpathkey)) (hother hne hr)
          · rw [if_neg hrpath'] at hr'
            split at hr'
            · cases hr'
            · exact h.unique r r' f f' hr hr' hrkey

/-! ## While files are loaded -/

/-- The description of a file in the index. -/
def File.desc (file : File) : EntryDesc := ⟨file.content.length, fromTimeT file.modified⟩

/-- The index describes the files as they are. -/
def Described (lib : DiskLibrary) (c : DiskCache) : Prop :=
  ∀ dir key entry, c.entryOf dir key = some entry → ∃ path file,
    c.tryGetPathOfKey lib key = .ok (some path) ∧ path.dir = dir ∧
      c.files.lookup path = some file ∧ entry = File.desc file

/-- Of the shard at hand, `files` are to be loaded; `rest` are the shards to come. -/
structure Resharding (lib : DiskLibrary) (device : String → ℕ) (c₀ : DiskCache)
    (files : List FileInfo) (rest : List String) (c : DiskCache) : Prop
    extends LaidOut lib c, Scattered lib c₀ c where
  reshards : Extends c₀.options c.options
  laid : (∃ path file, c₀.files.lookup path = some file) → Laid lib c
  nodup : (files.map FileInfo.path).Nodup
  there : ∀ e ∈ files, ∃ file, c.files.lookup e.path = some file ∧
    (⟨e.size, e.lastUsed⟩ : EntryDesc) = File.desc file
  entries : Described lib c
  settled : ∀ q file, c.files.lookup q = some file → q.dir.shard ∉ rest →
    q ∉ files.map FileInfo.path → ∃ key, c.tryGetPathOfKey lib key = .ok (some q) ∧
      (c.entryOf q.dir key).isSome
  moved : ∀ key p p', c₀.tryGetPathOfKey lib key = .ok (some p) →
    (c₀.files.lookup p).isSome → c.tryGetPathOfKey lib key = .ok (some p') →
      device p.dir.shard = device p'.dir.shard ∨ (c.files.lookup p).isSome

/-- A key that has a place under one list of shards has one under the other. -/
theorem exists_path_of_laid (hlaid : Laid lib c) {key : String} {p : FilePath}
    (hp : c₀.tryGetPathOfKey lib key = .ok (some p)) :
    ∃ path, c.tryGetPathOfKey lib key = .ok (some path) := by
  obtain ⟨path?, hpath⟩ := hlaid.path key
  cases path? with
  | some path => exact ⟨path, hpath⟩
  | none =>
      unfold tryGetPathOfKey at hp hpath
      simp only at hp hpath
      split at hpath
      · next hlong =>
          rw [if_pos hlong] at hp
          cases hp
      · split at hpath
        · cases hpath
        · cases hpath

/-- The next file: its key, its old and its new place. -/
theorem Resharding.next (hlib : lib.Lawful) {e : FileInfo} {files : List FileInfo}
    {rest : List String} (h : Resharding lib device c₀ (e :: files) rest c) :
    Laid lib c ∧ ∃ file key p path, c.files.lookup e.path = some file ∧
      (⟨e.size, e.lastUsed⟩ : EntryDesc) = File.desc file ∧
      getKeyFromPath lib e.path = some key ∧ c₀.tryGetPathOfKey lib key = .ok (some p) ∧
      c₀.files.lookup p = some file ∧ c.tryGetPathOfKey lib key = .ok (some path) ∧
      (e.path = p ∨ e.path = path) := by
  obtain ⟨file, hfile, hdesc⟩ := h.there e List.mem_cons_self
  obtain ⟨key, p, hp, hold, hplace⟩ := h.origin e.path file hfile
  have hlaid := h.laid ⟨p, file, hold⟩
  obtain ⟨path, hpath⟩ := exists_path_of_laid hlaid hp
  refine ⟨hlaid, file, key, p, path, hfile, hdesc, ?_, hp, hold, hpath, ?_⟩
  · rcases hplace with heq | hnew
    · exact heq ▸ getKeyFromPath_of_path hlib hp
    · exact getKeyFromPath_of_path hlib hnew
  · rcases hplace with heq | hnew
    · exact .inl heq
    · rw [hpath] at hnew
      cases hnew
      exact .inr rfl

/-- A file in the directory of its key is its file. -/
theorem eq_of_dir_eq {key : String} {p path q : FilePath}
    (hp : c₀.tryGetPathOfKey lib key = .ok (some p))
    (hpath : c.tryGetPathOfKey lib key = .ok (some path)) (hplace : q = p ∨ q = path)
    (hdir : path.dir = q.dir) : q = path := by
  rcases hplace with rfl | rfl
  · have hname := (name_of_path hp).trans (name_of_path hpath).symm
    cases q
    cases path
    cases hname
    cases hdir
    rfl
  · rfl

/-- A file is where its key belongs. -/
theorem Resharding.indexed {e : FileInfo} {files : List FileInfo} {rest : List String}
    (h : Resharding lib device c₀ (e :: files) rest c) (hlaid : Laid lib c) {file : File}
    {key : String} {path : FilePath} (hfile : c.files.lookup e.path = some file)
    (hdesc : (⟨e.size, e.lastUsed⟩ : EntryDesc) = File.desc file)
    (hpath : c.tryGetPathOfKey lib key = .ok (some path)) (heq : e.path = path)
    (heffect : FileIndexed path.dir key e c c') : Resharding lib device c₀ files rest c' := by
  have hnodup := (List.nodup_cons.mp h.nodup).2
  have hsame := heffect.toSameLayout
  refine ⟨h.toLaidOut.of_same hsame, ⟨?_, ?_, ?_⟩, ?_, ?_, hnodup, ?_, ?_, ?_, ?_⟩
  · simp only [heffect.files, hsame.tryGetPathOfKey]
    exact h.origin
  · simp only [heffect.files]
    exact h.present
  · simp only [heffect.files]
    exact h.unique
  · rw [hsame.options]
    exact h.reshards
  · intro hany
    exact hlaid.of_same hsame
  · intro e' he'
    rw [heffect.files]
    exact h.there e' (List.mem_cons_of_mem e he')
  · intro d k entry hentry
    rw [heffect.entryOf] at hentry
    rw [heffect.files]
    simp only [hsame.tryGetPathOfKey]
    split at hentry
    · next hat =>
        cases hentry
        rw [hat.1, hat.2]
        exact ⟨path, file, hpath, rfl, heq ▸ hfile, hdesc⟩
    · exact h.entries d k entry hentry
  · intro q f hq hrest hfiles
    rw [heffect.files] at hq
    simp only [hsame.tryGetPathOfKey, heffect.entryOf]
    by_cases hqe : q = e.path
    · refine ⟨key, by rw [hqe, heq, hpath], ?_⟩
      rw [if_pos ⟨by rw [hqe, heq], rfl⟩]
      rfl
    · obtain ⟨k, hk, hsome⟩ := h.settled q f hq hrest (by
        rw [List.map_cons, List.mem_cons, not_or]
        exact ⟨hqe, hfiles⟩)
      refine ⟨k, hk, ?_⟩
      split
      · rfl
      · exact hsome
  · simp only [heffect.files, hsame.tryGetPathOfKey]
    exact h.moved
/-- A file is moved to where its key belongs. -/
theorem Resharding.move (hlib : lib.Lawful) {e : FileInfo} {files : List FileInfo}
    {rest : List String} (h : Resharding lib device c₀ (e :: files) rest c) (hlaid : Laid lib c)
    {file : File} {key : String} {path : FilePath} (hfile : c.files.lookup e.path = some file)
    (hdesc : (⟨e.size, e.lastUsed⟩ : EntryDesc) = File.desc file)
    (hkey : getKeyFromPath lib e.path = some key)
    (hpath : c.tryGetPathOfKey lib key = .ok (some path)) (hdir : path.dir ≠ e.path.dir)
    (hdevice : device e.path.dir.shard = device path.dir.shard)
    (heffect : FileIndexed path.dir key e
      { c with files := (c.files.erase e.path).insert path file } c') :
    Resharding lib device c₀ files rest c' := by
  obtain ⟨hnotin, hnodup⟩ := List.nodup_cons.mp h.nodup
  have hne : ∀ e' ∈ files, e'.path ≠ e.path := by
    intro e' he' heq
    exact hnotin (heq ▸ List.mem_map_of_mem he')
  have hpathkey := getKeyFromPath_of_path hlib hpath
  have hlookup := heffect.lookup_moved
  have hsame : SameLayout c c' := ⟨heffect.options, heffect.shardMapper, heffect.dirs⟩
  have hscattered := h.toScattered.move hlib hsame hfile hkey hpath hlookup
  have hdifferent : e.path ≠ path := fun heq => hdir (congrArg FilePath.dir heq.symm)
  -- nothing was at the new place
  have hfree : ∀ q f, c.files.lookup q = some f → q ≠ path := by
    rintro q f hq rfl
    exact hdifferent (h.unique e.path q file f hfile hq (hkey.trans hpathkey.symm))
  refine ⟨h.toLaidOut.of_same hsame, hscattered, ?_, ?_, hnodup, ?_, ?_, ?_, ?_⟩
  · rw [hsame.options]
    exact h.reshards
  · intro hany
    exact hlaid.of_same hsame
  · intro e' he'
    obtain ⟨f, hf, hfdesc⟩ := h.there e' (List.mem_cons_of_mem e he')
    exact ⟨f, by rw [hlookup, if_neg (hfree _ f hf), if_neg (hne e' he'), hf], hfdesc⟩
  · intro d k entry hentry
    rw [heffect.entryOf] at hentry
    simp only [hsame.tryGetPathOfKey]
    split at hentry
    · next hat =>
        cases hentry
        rw [hat.1, hat.2]
        exact ⟨path, file, hpath, rfl, by rw [hlookup, if_pos rfl], hdesc⟩
    · next hat =>
        obtain ⟨q, f, hq, hqdir, hf, hentryf⟩ := h.entries d k entry hentry
        have hqe : q ≠ e.path := path_ne_of_misplaced hlib hkey hpath hdir hq
        exact ⟨q, f, hq, hqdir, by rw [hlookup, if_neg (hfree q f hf), if_neg hqe, hf],
          hentryf⟩
  · intro q f hq hrest hfiles
    simp only [hsame.tryGetPathOfKey, heffect.entryOf]
    rw [hlookup] at hq
    split at hq
    · next hqpath =>
        refine ⟨key, by rw [hqpath, hpath], ?_⟩
        rw [if_pos ⟨by rw [hqpath], rfl⟩]
        rfl
    · split at hq
      · cases hq
      · next hqe =>
          obtain ⟨k, hk, hsome⟩ := h.settled q f hq hrest (by
            rw [List.map_cons, List.mem_cons, not_or]
            exact ⟨hqe, hfiles⟩)
          refine ⟨k, hk, ?_⟩
          split
          · rfl
          · exact hsome
  · intro k r r' hr hthere hr'
    rw [hsame.tryGetPathOfKey] at hr'
    rcases h.moved k r r' hr hthere hr' with hdev | hstill
    · exact .inl hdev
    · by_cases hre : r = e.path
      · have hk := getKeyFromPath_of_path hlib hr
        rw [hre, hkey] at hk
        cases hk
        rw [hpath] at hr'
        cases hr'
        exact .inl (by rw [hre, hdevice])
      · refine .inr ?_
        rw [hlookup]
        by_cases hrpath : r = path
        · rw [if_pos hrpath]
          rfl
        · rw [if_neg hrpath, if_neg hre]
          exact hstill

theorem sameLayout_of_loaded {action : ActionOnMisplacedEntry} {file : FileInfo}
    (h : Loaded lib action device file c c') : SameLayout c c' := by
  cases h with
  | skipped _ => exact .refl c
  | indexed _ _ _ heffect => exact heffect.toSameLayout
  | moved _ _ _ _ _ _ heffect => exact ⟨heffect.options, heffect.shardMapper, heffect.dirs⟩
  | deleted _ _ _ _ => exact ⟨rfl, rfl, fun _ => rfl⟩

theorem Resharding.step (hlib : lib.Lawful) {e : FileInfo} {files : List FileInfo}
    {rest : List String} (h : Resharding lib device c₀ (e :: files) rest c)
    (hload : loadFile lib .move device c e = .ok c') :
    Resharding lib device c₀ files rest c' ∧ SameLayout c c' := by
  obtain ⟨hlaid, file, key, p, path, hfile, hdesc, hkey, hp, -, hpath, hplace⟩ := h.next hlib
  have hloaded := loadFile_cases hlaid hload
  refine ⟨?_, sameLayout_of_loaded hloaded⟩
  cases hloaded with
  | skipped hskip => exact absurd (hskip key path hkey hpath).2 (by decide)
  | deleted _ _ _ haction => cases haction
  | @indexed key' path' _ hkey' hpath' hdir heffect =>
      rw [hkey] at hkey'
      cases hkey'
      rw [hpath] at hpath'
      cases hpath'
      exact h.indexed hlaid hfile hdesc hpath (eq_of_dir_eq hp hpath hplace hdir) heffect
  | @moved key' path' content _ hkey' hpath' hdir _ hcontent hdevice heffect =>
      rw [hkey] at hkey'
      cases hkey'
      rw [hpath] at hpath'
      cases hpath'
      rw [hfile] at hcontent
      cases hcontent
      exact h.move hlib hlaid hfile hdesc hkey hpath hdir hdevice heffect

/-- The old and the new place of every key that has a file are on one file system. -/
def SameDevices (lib : DiskLibrary) (device : String → ℕ) (c₀ c : DiskCache) : Prop :=
  ∀ key p path, c₀.tryGetPathOfKey lib key = .ok (some p) → (c₀.files.lookup p).isSome →
    c.tryGetPathOfKey lib key = .ok (some path) → device p.dir.shard = device path.dir.shard

theorem SameDevices.of_same (h : SameDevices lib device c₀ c) (hsame : SameLayout c c') :
    SameDevices lib device c₀ c' := by
  intro key p path hp hthere hpath
  rw [hsame.tryGetPathOfKey] at hpath
  exact h key p path hp hthere hpath

/-- A file can be loaded when its new place is on the file system that it is on. -/
theorem Resharding.loadFile_ok (hlib : lib.Lawful) {e : FileInfo} {files : List FileInfo}
    {rest : List String} (h : Resharding lib device c₀ (e :: files) rest c)
    (hdevices : SameDevices lib device c₀ c) : ∃ c', loadFile lib .move device c e = .ok c' := by
  obtain ⟨hlaid, file, key, p, path, hfile, -, hkey, hp, hold, hpath, hplace⟩ := h.next hlib
  have hdir := hlaid.dir key path hpath
  unfold loadFile
  rw [hkey]
  simp only [hpath, ok_bind]
  split
  · next hsame =>
      obtain ⟨c', hindex, -⟩ := indexFile_cases hdir key e
      rw [hsame] at hindex
      exact ⟨c', hindex⟩
  · next hdifferent =>
      have hepath : e.path = p := by
        rcases hplace with heq | heq
        · exact heq
        · exact absurd (congrArg FilePath.dir heq.symm) hdifferent
      have hdevice : device e.path.dir.shard = device path.dir.shard := by
        rw [hepath]
        exact hdevices key p path hp (by rw [hold]; rfl) hpath
      have hrename : c.rename device e.path path =
          .ok { c with files := (c.files.erase e.path).insert path file } := by
        unfold rename
        rw [hfile]
        exact if_pos hdevice
      obtain ⟨c', hindex, -⟩ := indexFile_cases
        (c := { c with files := (c.files.erase e.path).insert path file }) hdir key e
      exact ⟨c', by rw [hrename, ok_bind, hindex]⟩

/-- A shard is listed. -/
theorem Resharding.list {shard : String} {rest : List String} {listing : Listing}
    (hlisting : listing.Lawful) (h : Resharding lib device c₀ [] (shard :: rest) c) :
    c.enumerateCacheEntries listing shard = (listing (fileInfos shard c.files), c) ∧
      Resharding lib device c₀ (listing (fileInfos shard c.files)) rest c := by
  have hperm := hlisting.perm (fileInfos shard c.files)
  have hsanitized : c.sanitizeWorkspace shard = c :=
    sanitizeWorkspace_eq shard fun q file hq _ => h.length_subdirs h.reshards hq
  constructor
  · unfold enumerateCacheEntries
    rw [hsanitized]
  · refine ⟨h.toLaidOut, h.toScattered, h.reshards, h.laid, ?_, ?_, h.entries, ?_, h.moved⟩
    · exact (hperm.map FileInfo.path).nodup_iff.mpr (nodup_fileInfos shard _)
    · intro e he
      obtain ⟨file, hfile, -, hsize, hused⟩ := mem_fileInfos.mp (hperm.mem_iff.mp he)
      exact ⟨file, hfile, by rw [hsize, hused, File.desc]⟩
    · intro q file hq hrest hfiles
      have hshard : q.dir.shard ≠ shard := by
        intro heq
        refine hfiles (List.mem_map.mpr
          ⟨⟨q, file.content.length, fromTimeT file.modified⟩, hperm.mem_iff.mpr ?_, rfl⟩)
        exact mem_fileInfos.mpr ⟨file, hq, heq, rfl, rfl⟩
      refine h.settled q file hq ?_ List.not_mem_nil
      rw [List.mem_cons, not_or]
      exact ⟨hshard, hrest⟩

theorem Resharding.loadShard (hlib : lib.Lawful) {shard : String} {rest : List String}
    {listing : Listing} (hlisting : listing.Lawful)
    (h : Resharding lib device c₀ [] (shard :: rest) c)
    (hload : DiskCache.loadShard lib .move device listing c shard = .ok c') :
    Resharding lib device c₀ [] rest c' ∧ SameLayout c c' := by
  obtain ⟨henumerate, hlisted⟩ := h.list hlisting
  unfold DiskCache.loadShard at hload
  rw [henumerate] at hload
  refine foldlM_invariant
    (I := fun files c'' => Resharding lib device c₀ files rest c'' ∧ SameLayout c c'')
    ?_ ⟨hlisted, .refl c⟩ hload
  rintro e files c₁ c₂ ⟨hI, hsame⟩ hstep
  obtain ⟨hI', hsame'⟩ := hI.step hlib hstep
  exact ⟨hI', hsame.trans hsame'⟩

theorem Resharding.loadShard_ok (hlib : lib.Lawful) {shard : String} {rest : List String}
    {listing : Listing} (hlisting : listing.Lawful)
    (h : Resharding lib device c₀ [] (shard :: rest) c)
    (hdevices : SameDevices lib device c₀ c) :
    ∃ c', DiskCache.loadShard lib .move device listing c shard = .ok c' := by
  obtain ⟨henumerate, hlisted⟩ := h.list hlisting
  unfold DiskCache.loadShard
  rw [henumerate]
  obtain ⟨c', hload, -⟩ := foldlM_ok (f := loadFile lib .move device)
    (I := fun files c => Resharding lib device c₀ files rest c ∧ SameDevices lib device c₀ c)
    (by
      rintro e files c ⟨hI, hdev⟩
      obtain ⟨c', hload⟩ := hI.loadFile_ok hlib hdev
      obtain ⟨hI', hsame⟩ := hI.step hlib hload
      exact ⟨c', hload, hI', hdev.of_same hsame⟩) _ c ⟨hlisted, hdevices⟩
  exact ⟨c', hload⟩

/-! ## From the old content to the new one -/

theorem Written.usable (h : Written lib c₀) {path : FilePath} {file : File}
    (hfile : c₀.files.lookup path = some file) : c₀.options.Usable := by
  obtain ⟨key, hpath, hindexed⟩ := h.complete path file hfile
  have hdir : (c₀.entriesPerDir.lookup path.dir).isSome := by
    cases hentries : c₀.entriesPerDir.lookup path.dir with
    | none => simp [DiskCache.indexed, hentries] at hindexed
    | some entries => rfl
  obtain ⟨hshard, hlevel, hsubdirs⟩ := (h.dirs path.dir).mp hdir
  refine ⟨?_, hlevel, ?_⟩
  · intro hnil
    rw [hnil] at hshard
    cases hshard
  · obtain ⟨hlength, hall⟩ := mem_allSubdirs.mp hsubdirs
    have hne : path.dir.subdirs ≠ [] := by
      rw [← List.length_pos_iff_ne_nil, hlength]
      exact Nat.pos_of_ne_zero hlevel
    obtain ⟨i, hi⟩ := List.exists_mem_of_ne_nil _ hne
    exact Nat.ne_of_gt (Nat.zero_lt_of_lt (hall i hi))

theorem Extends.usable {options options' : DiskOptions} (h : Extends options options')
    (husable : options.Usable) : options'.Usable := by
  refine ⟨?_, ?_, ?_⟩
  · obtain ⟨d, hd⟩ := List.exists_mem_of_ne_nil _ husable.shards
    intro hnil
    have hmem := h.shards d hd
    rw [hnil] at hmem
    cases hmem
  · rw [h.subDirLevel]
    exact husable.subDirLevel
  · rw [h.subDirs]
    exact husable.subDirs

/-- Before anything is loaded, every file is at its old place. -/
theorem Written.resharding (hlib : lib.Lawful) (h : Written lib c₀) {options' : DiskOptions}
    (hextends : Extends c₀.options options')
    (hinit : initializeCacheDirs lib options' c₀.files = some c) :
    Resharding lib device c₀ [] (options'.shards.map Prod.fst) c := by
  obtain ⟨hoptions, hfiles, hempty, hlaid⟩ := initializeCacheDirs_cases hinit
  refine ⟨hlaid, ⟨?_, ?_, ?_⟩, hoptions ▸ hextends, ?_, List.nodup_nil, ?_, ?_, ?_, ?_⟩
  · intro q file hq
    rw [hfiles] at hq
    obtain ⟨key, hpath, -⟩ := h.complete q file hq
    exact ⟨key, q, hpath, hq, .inl rfl⟩
  · intro key p file hp hfile
    exact ⟨p, by rw [hfiles, hfile], getKeyFromPath_of_path hlib hp⟩
  · intro q q' file file' hq hq' hkey
    rw [hfiles] at hq hq'
    obtain ⟨key, hpath, -⟩ := h.complete q file hq
    obtain ⟨key', hpath', -⟩ := h.complete q' file' hq'
    rw [getKeyFromPath_of_path hlib hpath, getKeyFromPath_of_path hlib hpath'] at hkey
    cases hkey
    rw [hpath] at hpath'
    cases hpath'
    rfl
  · rintro ⟨path, file, hfile⟩
    exact hlaid.laid hlib (hoptions ▸ hextends.usable (h.usable hfile))
  · intro e he
    cases he
  · intro dir key entry hentry
    rw [hempty] at hentry
    cases hentry
  · intro q file hq hrest
    rw [hfiles] at hq
    obtain ⟨key, hpath, -⟩ := h.complete q file hq
    obtain ⟨d, hd, hshard⟩ := List.mem_map.mp (h.toLaidOut.shard_mem hlib hpath)
    exact absurd (hshard ▸ hextends.shards d hd) hrest
  · intro key p p' _ hthere _
    rw [hfiles]
    exact .inr hthere

/-- Afterwards the cache is one that was written under the new list. -/
theorem Resharding.written (h : Resharding lib device c₀ [] [] c) : Written lib c := by
  refine ⟨h.toLaidOut, ?_, ?_⟩
  · intro dir key hkey
    obtain ⟨entry, hentry⟩ := Option.isSome_iff_exists.mp hkey
    obtain ⟨path, file, hpath, hdir, hfile, -⟩ := h.entries dir key entry hentry
    exact ⟨path, file, hpath, hdir, hfile⟩
  · intro path file hfile
    exact h.settled path file hfile List.not_mem_nil List.not_mem_nil

/-- Every file is at its new place, and indexed. -/
theorem Resharding.found (hlib : lib.Lawful) (h : Resharding lib device c₀ [] [] c)
    {key : String} {p : FilePath} {file : File}
    (hp : c₀.tryGetPathOfKey lib key = .ok (some p)) (hfile : c₀.files.lookup p = some file) :
    ∃ path, c.tryGetPathOfKey lib key = .ok (some path) ∧ c.files.lookup path = some file ∧
      c.indexed path.dir key = true := by
  obtain ⟨q, hq, hkey⟩ := h.present key p file hp hfile
  obtain ⟨key', hpath, hindexed⟩ := h.settled q file hq List.not_mem_nil List.not_mem_nil
  rw [getKeyFromPath_of_path hlib hpath] at hkey
  cases hkey
  exact ⟨q, hpath, hq, hindexed⟩

theorem mem_getKeys {key : String} : key ∈ c.getKeys ↔ ∃ dir, c.indexed dir key = true := by
  unfold getKeys DiskCache.indexed
  rw [List.mem_flatMap]
  constructor
  · rintro ⟨⟨dir, entries⟩, hmem, hkey⟩
    refine ⟨dir, ?_⟩
    rw [AList.lookup_eq_some_iff.mpr hmem]
    exact AList.lookup_isSome.mpr hkey
  · rintro ⟨dir, hindexed⟩
    obtain ⟨entry, hentry⟩ := Option.isSome_iff_exists.mp hindexed
    obtain ⟨entries, hentries, hlookup⟩ := Option.bind_eq_some_iff.mp hentry
    refine ⟨⟨dir, entries⟩, AList.lookup_eq_some_iff.mp hentries, ?_⟩
    exact AList.lookup_isSome.mp (by rw [hlookup]; rfl)

/-- The keys are those of the files. -/
theorem Written.mem_getKeys (h : Written lib c) {key : String} : key ∈ c.getKeys ↔
    ∃ path file, c.tryGetPathOfKey lib key = .ok (some path) ∧
      c.files.lookup path = some file ∧ c.indexed path.dir key = true := by
  rw [DiskCache.mem_getKeys]
  constructor
  · rintro ⟨dir, hindexed⟩
    obtain ⟨path, file, hpath, hdir, hfile⟩ := h.present dir key hindexed
    exact ⟨path, file, hpath, hfile, hdir ▸ hindexed⟩
  · rintro ⟨path, -, -, -, hindexed⟩
    exact ⟨path.dir, hindexed⟩

/-- What a file of the old content gives its key. -/
theorem Written.indexed_of_file (hlib : lib.Lawful) (h : Written lib c) {key : String}
    {path : FilePath} {file : File} (hpath : c.tryGetPathOfKey lib key = .ok (some path))
    (hfile : c.files.lookup path = some file) : c.indexed path.dir key = true := by
  obtain ⟨key', hpath', hindexed⟩ := h.complete path file hfile
  rw [path_injective hlib hpath hpath']
  exact hindexed

theorem Resharding.mem_getKeys_iff (hlib : lib.Lawful) (h : Resharding lib device c₀ [] [] c)
    (hwritten : Written lib c₀) {key : String} : key ∈ c.getKeys ↔ key ∈ c₀.getKeys := by
  rw [h.written.mem_getKeys, hwritten.mem_getKeys]
  constructor
  · rintro ⟨path, file, hpath, hfile, -⟩
    obtain ⟨p, hp, hold, -⟩ := h.toScattered.key hlib hfile (getKeyFromPath_of_path hlib hpath)
    exact ⟨p, file, hp, hold, hwritten.indexed_of_file hlib hp hold⟩
  · rintro ⟨p, file, hp, hold, -⟩
    obtain ⟨path, hpath, hfile, hindexed⟩ := h.found hlib hp hold
    exact ⟨path, file, hpath, hfile, hindexed⟩

theorem tryGet_of_indexed {key : String} {path : FilePath} {file : File}
    (hpath : c.tryGetPathOfKey lib key = .ok (some path))
    (hfile : c.files.lookup path = some file) (hindexed : c.indexed path.dir key = true)
    (now : ℕ) :
    ∃ c', c.tryGet lib now key = .ok (verifyEntryAndCutHeader lib file.content, c') := by
  obtain ⟨entry, hentry⟩ := Option.isSome_iff_exists.mp hindexed
  obtain ⟨entries, hentries, hlookup⟩ := Option.bind_eq_some_iff.mp hentry
  have hat : c.entriesAt path.dir = .ok entries := by rw [entriesAt, hentries]
  unfold tryGet
  simp only [hpath, ok_bind, hat, hlookup, hfile]
  exact ⟨_, rfl⟩

theorem Resharding.load {listing : Listing} (hlib : lib.Lawful) (hlisting : listing.Lawful)
    {shards : List String} (h : Resharding lib device c₀ [] shards c)
    (hload : shards.foldlM (DiskCache.loadShard lib .move device listing) c = .ok c') :
    Resharding lib device c₀ [] [] c' ∧ SameLayout c c' := by
  refine foldlM_invariant
    (I := fun shards c'' => Resharding lib device c₀ [] shards c'' ∧ SameLayout c c'')
    ?_ ⟨h, .refl c⟩ hload
  rintro shard rest c₁ c₂ ⟨hI, hsame⟩ hstep
  obtain ⟨hI', hsame'⟩ := hI.loadShard hlib hlisting hstep
  exact ⟨hI', hsame.trans hsame'⟩

theorem Resharding.load_ok {listing : Listing} (hlib : lib.Lawful) (hlisting : listing.Lawful)
    {shards : List String} (h : Resharding lib device c₀ [] shards c)
    (hdevices : SameDevices lib device c₀ c) :
    ∃ c', shards.foldlM (DiskCache.loadShard lib .move device listing) c = .ok c' := by
  obtain ⟨c', hload, -⟩ := foldlM_ok (f := DiskCache.loadShard lib .move device listing)
    (I := fun shards c => Resharding lib device c₀ [] shards c ∧ SameDevices lib device c₀ c)
    (by
      rintro shard rest c ⟨hI, hdev⟩
      obtain ⟨c', hload⟩ := hI.loadShard_ok hlib hlisting hdev
      obtain ⟨hI', hsame⟩ := hI.loadShard hlib hlisting hload
      exact ⟨c', hload, hI', hdev.of_same hsame⟩) shards c ⟨h, hdevices⟩
  exact ⟨c', hload⟩

/-- What the constructor leaves when it succeeds. -/
theorem resharding_of_new (hlib : lib.Lawful) {listing : Listing} (hlisting : listing.Lawful)
    {options' : DiskOptions} (hwritten : Written lib c₀) (hextends : Extends c₀.options options')
    (h : new lib .move device listing options' c₀.files = .ok c) :
    Resharding lib device c₀ [] [] c ∧
      ∃ c₁, initializeCacheDirs lib options' c₀.files = some c₁ ∧ SameLayout c₁ c := by
  unfold new at h
  split at h
  · cases h
  · next c₁ hinit =>
      have hstart : Resharding lib device c₀ [] _ c₁ := hwritten.resharding hlib hextends hinit
      obtain ⟨hdone, hsame⟩ := hstart.load hlib hlisting h
      exact ⟨hdone, c₁, hinit, hsame⟩

/-- The constructor succeeds where renaming does. -/
theorem new_move_ok (hlib : lib.Lawful) {listing : Listing} (hlisting : listing.Lawful)
    {options' : DiskOptions} (hwritten : Written lib c₀) (hextends : Extends c₀.options options')
    (hmovable : Movable lib device options' c₀) :
    ∃ c, new lib .move device listing options' c₀.files = .ok c := by
  obtain ⟨c₁, hinit⟩ := Option.isSome_iff_exists.mp
    ((@initializeCacheDirs_isSome_iff lib options' c₀.files).mpr hmovable.weights)
  have hstart : Resharding lib device c₀ [] _ c₁ := hwritten.resharding hlib hextends hinit
  obtain ⟨c, hload⟩ := hstart.load_ok hlib hlisting
    fun key p path hp hthere hpath => hmovable.devices c₁ key p path hinit hp hthere hpath
  exact ⟨c, by rw [new, hinit]; exact hload⟩

/-- If the constructor succeeds, every file could be moved. -/
theorem movable_of_new (hlib : lib.Lawful) {listing : Listing} (hlisting : listing.Lawful)
    {options' : DiskOptions} (hwritten : Written lib c₀) (hextends : Extends c₀.options options')
    (h : new lib .move device listing options' c₀.files = .ok c) :
    Movable lib device options' c₀ := by
  obtain ⟨hdone, c₁, hinit, hsame⟩ := resharding_of_new hlib hlisting hwritten hextends h
  refine ⟨initializeCacheDirs_isSome_iff.mp (by rw [hinit]; rfl), ?_⟩
  intro c₂ key p path hinit' hp hthere hpath
  rw [hinit] at hinit'
  cases hinit'
  rw [← hsame.tryGetPathOfKey] at hpath
  rcases hdone.moved key p path hp hthere hpath with hdevice | hstill
  · exact hdevice
  · -- a file that is still at its old place belongs there
    obtain ⟨file, hfile⟩ := Option.isSome_iff_exists.mp hstill
    obtain ⟨key', hpath', -⟩ := hdone.settled p file hfile List.not_mem_nil List.not_mem_nil
    have hkey := getKeyFromPath_of_path hlib hp
    rw [getKeyFromPath_of_path hlib hpath'] at hkey
    cases hkey
    rw [hpath] at hpath'
    cases hpath'
    rfl

/-- The shards determine where keys belong. -/
theorem LaidOut.paths (h : LaidOut lib c) (h' : LaidOut lib c')
    (hoptions : c'.options = c.options) (key : String) :
    c'.tryGetPathOfKey lib key = c.tryGetPathOfKey lib key := by
  have hring := h'.ring
  rw [hoptions, h.ring] at hring
  unfold tryGetPathOfKey
  rw [hoptions, Option.some.inj hring]

/-- What the constructor leaves is movable under the same list: nothing has to be moved. -/
theorem movable_again (hlib : lib.Lawful) {listing : Listing} (hlisting : listing.Lawful)
    {options' : DiskOptions} (hwritten : Written lib c₀) (hextends : Extends c₀.options options')
    (h : new lib .move device listing options' c₀.files = .ok c) :
    c.options = options' ∧ Movable lib device options' c := by
  have hmovable := movable_of_new hlib hlisting hwritten hextends h
  obtain ⟨hdone, c₁, hinit, hsame⟩ := resharding_of_new hlib hlisting hwritten hextends h
  have hoptions : c.options = options' :=
    hsame.options.trans (initializeCacheDirs_cases hinit).1
  refine ⟨hoptions, hmovable.weights, ?_⟩
  intro c₂ key p path hinit' hp _ hpath
  obtain ⟨hoptions', -, -, hlaid⟩ := initializeCacheDirs_cases hinit'
  rw [hdone.toLaidOut.paths hlaid (hoptions'.trans hoptions.symm), hp] at hpath
  cases hpath
  rfl

theorem entryOf_iff (hlib : lib.Lawful) (hwritten : Written lib c) (hdescribed : Described lib c)
    {dir : Directory} {key : String} {entry : EntryDesc} :
    c.entryOf dir key = some entry ↔ ∃ path file, c.tryGetPathOfKey lib key = .ok (some path) ∧
      path.dir = dir ∧ c.files.lookup path = some file ∧ entry = File.desc file := by
  refine ⟨hdescribed dir key entry, ?_⟩
  rintro ⟨path, file, hpath, rfl, hfile, rfl⟩
  obtain ⟨entry, hentry⟩ :=
    Option.isSome_iff_exists.mp (hwritten.indexed_of_file hlib hpath hfile)
  obtain ⟨path', file', hpath', -, hfile', rfl⟩ := hdescribed path.dir key entry hentry
  rw [hpath] at hpath'
  cases hpath'
  rw [hfile] at hfile'
  cases hfile'
  exact hentry

/-- Loading files that are where their keys belong changes nothing. -/
theorem Resharding.same (hlib : lib.Lawful) (hwritten : Written lib c)
    (hdescribed : Described lib c) (h : Resharding lib device c [] [] c')
    (hpaths : ∀ key, c'.tryGetPathOfKey lib key = c.tryGetPathOfKey lib key) :
    (∀ path, c'.files.lookup path = c.files.lookup path) ∧
      ∀ dir key, c'.entryOf dir key = c.entryOf dir key := by
  have hfiles : ∀ path, c'.files.lookup path = c.files.lookup path := by
    intro path
    ext file
    constructor
    · intro hfile
      obtain ⟨key, p, hp, hold, heq | hnew⟩ := h.origin path file hfile
      · rw [heq, hold]
      · rw [hpaths, hp] at hnew
        cases hnew
        exact hold
    · intro hfile
      obtain ⟨key, hpath, -⟩ := hwritten.complete path file hfile
      obtain ⟨path', hpath', hfile', -⟩ := h.found hlib hpath hfile
      rw [hpaths, hpath] at hpath'
      cases hpath'
      exact hfile'
  refine ⟨hfiles, ?_⟩
  intro dir key
  ext entry
  rw [entryOf_iff hlib h.written h.entries, entryOf_iff hlib hwritten hdescribed]
  simp only [hpaths, hfiles]

/-- The keys that are there, and what is found under them, are as before; and doing it again
changes nothing. -/
def Resharded (lib : DiskLibrary) (device : String → ℕ) (listing listing' : Listing)
    (options' : DiskOptions) (c₀ : DiskCache) : Prop :=
  ∃ c, new lib .move device listing options' c₀.files = .ok c ∧
    (∀ key, key ∈ c.getKeys ↔ key ∈ c₀.getKeys) ∧
    (∀ key ∈ c₀.getKeys, ∀ now, ∃ value c₁ c₂, c₀.tryGet lib now key = .ok (value, c₁) ∧
      c.tryGet lib now key = .ok (value, c₂)) ∧
    ∃ c', new lib .move device listing' options' c.files = .ok c' ∧
      (∀ path, c'.files.lookup path = c.files.lookup path) ∧
      ∀ dir key, c'.entryOf dir key = c.entryOf dir key

/-- With more shards, moving files keeps what is there exactly when no file has to change its
file system and no shard has too many virtual nodes. -/
theorem resharded_iff (hlib : lib.Lawful) {listing listing' : Listing}
    (hlisting : listing.Lawful) (hlisting' : listing'.Lawful) {options' : DiskOptions}
    (hwritten : Written lib c₀) (hextends : Extends c₀.options options') :
    Resharded lib device listing listing' options' c₀ ↔ Movable lib device options' c₀ := by
  constructor
  · rintro ⟨c, hnew, -⟩
    exact movable_of_new hlib hlisting hwritten hextends hnew
  · intro hmovable
    obtain ⟨c, hnew⟩ := new_move_ok hlib hlisting hwritten hextends hmovable
    obtain ⟨hdone, -⟩ := resharding_of_new hlib hlisting hwritten hextends hnew
    refine ⟨c, hnew, fun key => hdone.mem_getKeys_iff hlib hwritten, ?_, ?_⟩
    · intro key hkey now
      obtain ⟨p, file, hp, hold, hindexed⟩ := hwritten.mem_getKeys.mp hkey
      obtain ⟨path, hpath, hfile, hindexed'⟩ := hdone.found hlib hp hold
      obtain ⟨c₁, hget⟩ := tryGet_of_indexed hp hold hindexed now
      obtain ⟨c₂, hget'⟩ := tryGet_of_indexed hpath hfile hindexed' now
      exact ⟨_, c₁, c₂, hget, hget'⟩
    · obtain ⟨hoptions, hmovable'⟩ :=
        movable_again hlib hlisting hwritten hextends hnew
      have hextends' : Extends c.options options' := by
        rw [hoptions]
        exact ⟨fun d hd => List.mem_map_of_mem hd, rfl, rfl⟩
      obtain ⟨c', hnew'⟩ := new_move_ok hlib hlisting' hdone.written hextends' hmovable'
      obtain ⟨hdone', c₁, hinit, hsame⟩ :=
        resharding_of_new hlib hlisting' hdone.written hextends' hnew'
      refine ⟨c', hnew', hdone'.same hlib hdone.written hdone.entries ?_⟩
      have hoptions' : c'.options = c.options := by
        rw [hsame.options, (initializeCacheDirs_cases hinit).1, hoptions]
      exact hdone.toLaidOut.paths hdone'.toLaidOut hoptions'

/-! ## Caches in use -/

theorem isSome_contentAt {path : FilePath} :
    (c.contentAt path).isSome = (c.files.lookup path).isSome := Option.isSome_map

theorem Written.of_content (h : LaidOut lib c)
    (hpresent : ∀ dir key, c.indexed dir key = true → ∃ path,
      c.tryGetPathOfKey lib key = .ok (some path) ∧ path.dir = dir ∧ (c.contentAt path).isSome)
    (hcomplete : ∀ path, (c.contentAt path).isSome → ∃ key,
      c.tryGetPathOfKey lib key = .ok (some path) ∧ c.indexed path.dir key = true) :
    Written lib c := by
  refine ⟨h, ?_, ?_⟩
  · intro dir key hkey
    obtain ⟨path, hpath, hdir, hsome⟩ := hpresent dir key hkey
    rw [isSome_contentAt] at hsome
    obtain ⟨file, hfile⟩ := Option.isSome_iff_exists.mp hsome
    exact ⟨path, file, hpath, hdir, hfile⟩
  · intro path file hfile
    exact hcomplete path (by rw [isSome_contentAt, hfile]; rfl)

theorem Written.content (h : Written lib c) {dir : Directory} {key : String}
    (hkey : c.indexed dir key = true) : ∃ path,
      c.tryGetPathOfKey lib key = .ok (some path) ∧ path.dir = dir ∧ (c.contentAt path).isSome := by
  obtain ⟨path, file, hpath, hdir, hfile⟩ := h.present dir key hkey
  exact ⟨path, hpath, hdir, by rw [isSome_contentAt, hfile]; rfl⟩

theorem Written.key (h : Written lib c) {path : FilePath} (hpath : (c.contentAt path).isSome) :
    ∃ key, c.tryGetPathOfKey lib key = .ok (some path) ∧ c.indexed path.dir key = true := by
  rw [isSome_contentAt] at hpath
  obtain ⟨file, hfile⟩ := Option.isSome_iff_exists.mp hpath
  exact h.complete path file hfile

theorem Written.put (h : Written lib c) {opened : Option ℕ}
    {reserved : Vector UInt8 32} {key : String} {bytes : Bytes} {path : FilePath}
    (hpath : c.tryGetPathOfKey lib key = .ok (some path)) (hopened : opened.isSome)
    (heffect : PutEffect lib opened reserved key bytes path c c') : Written lib c' := by
  have hcontent : ∀ p, (c'.contentAt p).isSome =
      if p = path then true else (c.contentAt p).isSome := by
    intro p
    rw [heffect.contentAt]
    obtain ⟨fd, rfl⟩ := Option.isSome_iff_exists.mp hopened
    split
    · cases fd with
      | zero => rfl
      | succ fd => rfl
    · rfl
  refine .of_content (h.toLaidOut.of_same heffect.toSameLayout) ?_ ?_
  · intro dir k hk
    rw [heffect.indexed] at hk
    rw [heffect.tryGetPathOfKey]
    split at hk
    · next hat => exact ⟨path, hat.2 ▸ hpath, hat.1.symm, by rw [hcontent, if_pos rfl]⟩
    · obtain ⟨p, hp, hdir, hsome⟩ := h.content hk
      refine ⟨p, hp, hdir, ?_⟩
      rw [hcontent]
      split
      · rfl
      · exact hsome
  · intro p hp
    simp only [heffect.tryGetPathOfKey, heffect.indexed]
    rw [hcontent] at hp
    by_cases hppath : p = path
    · subst hppath
      exact ⟨key, hpath, by rw [if_pos ⟨rfl, rfl⟩, hopened]⟩
    · rw [if_neg hppath] at hp
      obtain ⟨k, hk, hindexed⟩ := h.key hp
      refine ⟨k, hk, ?_⟩
      split
      · exact hopened
      · exact hindexed

theorem Written.of_view (h : Written lib c) (hview : SameView c c') : Written lib c' := by
  refine .of_content (h.toLaidOut.of_same hview.toSameLayout) ?_ ?_
  · intro dir key hkey
    rw [hview.indexed] at hkey
    simp only [hview.tryGetPathOfKey, hview.contentAt]
    exact h.content hkey
  · intro path hpath
    rw [hview.contentAt] at hpath
    simp only [hview.tryGetPathOfKey, hview.indexed]
    exact h.key hpath

theorem Written.purgeFile (hlib : lib.Lawful) (h : Written lib c) {path : FilePath}
    (hthere : (c.contentAt path).isSome) (heffect : PurgeEffect lib path c c') :
    Written lib c' := by
  obtain ⟨owner, howner, -⟩ := h.key hthere
  have hpurged : ∀ {p key}, c.tryGetPathOfKey lib key = .ok (some p) →
      key ∈ c.purgedKeys lib path → p = path := by
    intro p key hp hmem
    have hkey := (mem_purgedKeys.mp hmem).1
    rw [getKeyFromPath_of_path hlib howner] at hkey
    cases hkey
    rw [howner] at hp
    cases hp
    rfl
  refine .of_content (h.toLaidOut.of_same heffect.toSameLayout) ?_ ?_
  · intro dir key hkey
    rw [heffect.indexed] at hkey
    rw [heffect.tryGetPathOfKey]
    split at hkey
    · cases hkey
    · next hat =>
        obtain ⟨p, hp, hdir, hsome⟩ := h.content hkey
        refine ⟨p, hp, hdir, ?_⟩
        have hne : p ≠ path := by
          rintro rfl
          refine hat ⟨hdir.symm, mem_purgedKeys.mpr ⟨getKeyFromPath_of_path hlib hp, ?_⟩⟩
          rw [hdir]
          exact hkey
        rw [heffect.contentAt, if_neg hne]
        exact hsome
  · intro p hp
    rw [heffect.contentAt] at hp
    split at hp
    · cases hp
    · next hne =>
        obtain ⟨key, hkey, hindexed⟩ := h.key hp
        simp only [heffect.tryGetPathOfKey, heffect.indexed]
        refine ⟨key, hkey, ?_⟩
        rw [if_neg fun hat => hne (hpurged hkey hat.2)]
        exact hindexed

theorem isSome_of_purgeFile {path : FilePath} {result : List String × DiskCache}
    (h : c.purgeFile lib path = .ok result) : (c.contentAt path).isSome := by
  have hunlink : ∃ c', c.unlink path = .ok c' := by
    unfold DiskCache.purgeFile at h
    split at h
    · obtain ⟨c', hc', -⟩ := bind_eq_ok.mp h
      exact ⟨c', hc'⟩
    · obtain ⟨c', hc', -⟩ := bind_eq_ok.mp h
      exact ⟨c', hc'⟩
  obtain ⟨c', hc'⟩ := hunlink
  unfold unlink at hc'
  split at hc'
  · cases hc'
  · next file hfile =>
      rw [isSome_contentAt, hfile]
      rfl

theorem Written.purgeLoop (hlib : lib.Lawful) {sizeLimit : UInt64} {files : List FileInfo}
    (h : Written lib c) {totalUsed : UInt64} {purged : List String}
    (hloop : DiskCache.purgeLoop lib sizeLimit files totalUsed c = .ok (purged, c')) :
    Written lib c' := by
  induction files generalizing c totalUsed purged with
  | nil =>
      cases hloop
      exact h
  | cons e files ih =>
      unfold DiskCache.purgeLoop at hloop
      split at hloop
      · cases hloop
        exact h
      · obtain ⟨⟨first, c₁⟩, hfile, hloop⟩ := bind_eq_ok.mp hloop
        obtain ⟨⟨rest, c₂⟩, hrest, hdone⟩ := bind_eq_ok.mp hloop
        cases hdone
        have hthere := isSome_of_purgeFile hfile
        obtain ⟨content, hcontent⟩ := Option.isSome_iff_exists.mp hthere
        obtain ⟨c₁', hfile', heffect⟩ := @purgeFile_cases lib c e.path content hcontent
        rw [hfile] at hfile'
        cases hfile'
        exact ih (h.purgeFile hlib hthere heffect) hrest

theorem Written.purge (hlib : lib.Lawful) {listing : Listing} (h : Written lib c)
    {purged : List String} (hpurge : c.purge lib listing = .ok (purged, c')) :
    Written lib c' := by
  refine foldlM_invariant (I := fun _ s => Written lib s.2) ?_ h hpurge
  rintro d rest s t hs hstep
  obtain ⟨⟨purged, c₁⟩, hat, hdone⟩ := bind_eq_ok.mp hstep
  cases hdone
  have hsanitized : s.2.sanitizeWorkspace d.1 = s.2 := by
    apply sanitizeWorkspace_eq
    intro path file hfile _
    obtain ⟨key, hpath, -⟩ := hs.complete path file hfile
    exact length_subdirs_of_path hpath
  unfold purgeCacheAt enumerateCacheEntries at hat
  rw [hsanitized] at hat
  exact hs.purgeLoop hlib hat

/-- A cache that was opened over an empty disk, and used while its files could be created. -/
inductive Used (lib : DiskLibrary) (options : DiskOptions) : DiskCache → Prop
  | new {action : ActionOnMisplacedEntry} {device : String → ℕ} {listing : Listing}
      {c : DiskCache} : listing.Lawful →
        DiskCache.new lib action device listing options ∅ = .ok c → Used lib options c
  | put {now fd : ℕ} {reserved : Vector UInt8 32} {key : String} {bytes : Bytes}
      {c c' : DiskCache} : Used lib options c →
        c.put lib now (some fd) reserved key bytes = .ok c' → Used lib options c'
  | tryGet {now : ℕ} {key : String} {value : Option Bytes} {c c' : DiskCache} :
      Used lib options c → c.tryGet lib now key = .ok (value, c') → Used lib options c'
  | purge {listing : Listing} {purged : List String} {c c' : DiskCache} : listing.Lawful →
      Used lib options c → c.purge lib listing = .ok (purged, c') → Used lib options c'

/-- There is nothing to load from an empty disk. -/
theorem eq_of_new_empty {action : ActionOnMisplacedEntry} {listing : Listing}
    (hlisting : listing.Lawful) {options : DiskOptions}
    (h : DiskCache.new lib action device listing options ∅ = .ok c) :
    initializeCacheDirs lib options ∅ = some c := by
  unfold DiskCache.new at h
  split at h
  · cases h
  · next c₁ hinit =>
      have hfiles := (initializeCacheDirs_cases hinit).2.1
      have hdone : c = c₁ := by
        refine foldlM_invariant (I := fun _ c => c = c₁) ?_ rfl h
        rintro shard rest c₂ c₃ rfl hload
        have hsanitized : c₂.sanitizeWorkspace shard = c₂ := by
          apply sanitizeWorkspace_eq
          intro path file hfile _
          rw [hfiles] at hfile
          cases hfile
        have hnone : listing (fileInfos shard c₂.files) = [] := by
          rw [hfiles]
          exact List.Perm.eq_nil (hlisting.perm [])
        unfold DiskCache.loadShard enumerateCacheEntries at hload
        simp only [hsanitized, hnone] at hload
        cases hload
        rfl
      rw [hdone, hinit]

/-- What is written by using a cache. -/
theorem Used.written (hlib : lib.Lawful) {options : DiskOptions} (husable : options.Usable)
    (h : Used lib options c) : Consistent lib c ∧ Written lib c := by
  induction h with
  | @new action device listing c hlisting hnew =>
      have hopened := opened_of_new hlib hlisting husable canonical_empty hnew
      obtain ⟨-, hfiles, hempty, -⟩ := initializeCacheDirs_cases (eq_of_new_empty hlisting hnew)
      refine ⟨hopened.toConsistent, hopened.toLaidOut, ?_, ?_⟩
      · intro dir key hkey
        rw [indexed_eq_entryOf, hempty] at hkey
        cases hkey
      · intro path file hfile
        rw [hfiles] at hfile
        cases hfile
  | @put now fd reserved key bytes c c' _ hput ih =>
      obtain ⟨c₁, hput', hcases⟩ :=
        put_cases ih.1.toLaid (Option.isSome_some (a := fd)) now reserved key bytes
      rw [hput] at hput'
      cases hput'
      rcases hcases with ⟨-, rfl⟩ | ⟨path, hpath, heffect⟩
      · exact ih
      · exact ⟨heffect.consistent hlib ih.1 hpath, ih.2.put hpath rfl heffect⟩
  | @tryGet now key value c c' _ hget ih =>
      obtain ⟨c₁, hget', hview⟩ := tryGet_cases ih.1 now key
      rw [hget] at hget'
      cases hget'
      exact ⟨ih.1.of_view hview, ih.2.of_view hview⟩
  | @purge listing purged c c' hlisting _ hpurge ih =>
      obtain ⟨keys, c₁, hpurge', hpurged⟩ := purge_cases hlib hlisting ih.1
      rw [hpurge] at hpurge'
      cases hpurge'
      exact ⟨hpurged.consistent, ih.2.purge hlib hpurge⟩

end Reshard

/-! ## Samples -/

/-- A second small shard, which has all keys. -/
def moreOptions : DiskOptions := ⟨[("a", 0), ("0", 0)], 1, 1⟩

theorem new_moreRing : ConsistentHash.new sampleLibrary.sort sampleLibrary.xxHash
    (getWeightedDirs moreOptions.shards) =
      some ⟨List.replicate kVirtualNodeFactor (0, "0") ++
        List.replicate kVirtualNodeFactor (0, "a")⟩ := by
  unfold ConsistentHash.new
  have hentries : (getWeightedDirs moreOptions.shards).entries = [⟨"0", 1⟩, ⟨"a", 1⟩] := rfl
  have hsorted : ([⟨"0", 1⟩, ⟨"a", 1⟩] : List (Sigma fun _ : String => ℕ)).mergeSort
      (fun x y => decide (x.1 ≤ y.1)) = [⟨"0", 1⟩, ⟨"a", 1⟩] := by
    apply List.mergeSort_of_pairwise
    decide
  rw [hentries, hsorted]
  decide +kernel

/-- The sample with one key. -/
def sampleContent : DiskCache where
  options := sampleOptions
  shardMapper := sampleRing "a"
  entriesPerDir := (∅ : UnorderedMap Directory _).insert ⟨"a", [0]⟩
    ((∅ : UnorderedMap String EntryDesc).insert "k" ⟨65, 1⟩)
  files := (∅ : UnorderedMap FilePath File).insert ⟨⟨"a", [0]⟩, "k"⟩
    ⟨writeFileHeader sampleLibrary (Vector.replicate 32 0) [1] ++ [1], 0⟩

theorem used_sampleContent : Used sampleLibrary sampleOptions sampleContent := by
  have hput : sampleCache.put sampleLibrary 1 (some 3) (Vector.replicate 32 0) "k" [1] =
      .ok sampleContent := rfl
  exact .put (.new ⟨fun _ => .refl _⟩ (new_sampleCache .move fun _ => 0)) hput

theorem written_sampleContent : Written sampleLibrary sampleContent :=
  (used_sampleContent.written lawful_sampleLibrary usable_sampleOptions).2

theorem extends_moreOptions : Extends sampleContent.options moreOptions := by
  refine ⟨?_, rfl, rfl⟩
  intro d hd
  cases List.mem_singleton.mp hd
  exact List.mem_cons_self

/-- On one file system the key is moved. -/
theorem resharded_iff_sample :
    Resharded sampleLibrary (fun _ => 0) id List.reverse moreOptions sampleContent := by
  apply (resharded_iff lawful_sampleLibrary ⟨fun _ => .refl _⟩ ⟨List.reverse_perm⟩
    written_sampleContent extends_moreOptions).mpr
  refine ⟨?_, fun _ _ _ _ _ _ _ _ => rfl⟩
  apply (@initializeCacheDirs_isSome_iff sampleLibrary moreOptions ∅).mp
  rw [initializeCacheDirs, new_moreRing]
  rfl

/-- On two file systems the constructor fails. -/
theorem new_acrossDevices :
    sampleLibrary.Lawful ∧ Written sampleLibrary sampleContent ∧
      Extends sampleContent.options moreOptions ∧
      new sampleLibrary .move (fun shard => if shard = "0" then 0 else 1) id moreOptions
        sampleContent.files = .error .renameFailed ∧
      ¬ Resharded sampleLibrary (fun shard => if shard = "0" then 0 else 1) id id moreOptions
        sampleContent := by
  have hfails : new sampleLibrary .move (fun shard => if shard = "0" then 0 else 1) id
      moreOptions sampleContent.files = .error .renameFailed := by
    rw [new, initializeCacheDirs, new_moreRing]
    rfl
  refine ⟨lawful_sampleLibrary, written_sampleContent, extends_moreOptions, hfails, ?_⟩
  rintro ⟨c, hnew, -⟩
  rw [hfails] at hnew
  cases hnew

end DiskCache

end Yadcc
