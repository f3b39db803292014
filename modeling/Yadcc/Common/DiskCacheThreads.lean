/-
# A disk cache that many threads use

A put and the first half of a lookup are critical sections of the lock of one directory. A
purge lists the files of a shard and asks for the size and the age of each without any lock;
then it looks at the index under the lock of the directory, and removes the file under that
lock if it finds its key, and after it has let go of the lock if it does not. This module has
these steps as a transition system, and determines which of them leave every indexed key with
its file.

The system lists the files of a shard one by one, those that are there at that time. Nothing
stands above the level of the files, as the constructor has removed it and no step creates it.
-/

import Yadcc.Common.DiskCacheLoad
import Yadcc.Lib.Transition

namespace Yadcc

open Yadcc.Lib DiskCache

/-! ## States -/

/-- Where a thread stands in the purge of a shard. -/
inductive PurgePc
  | listing (elements : List FilePath)
  | statting (elements : List FilePath) (infos : List FileInfo)
  | removing (files : List FileInfo) (totalUsed : UInt64)
  | unlinking (e : FileInfo) (files : List FileInfo) (totalUsed : UInt64)

/-- The files that have been listed and are still to be dealt with. -/
def PurgePc.pending : PurgePc → List FilePath
  | .listing elements => elements
  | .statting elements infos => elements ++ infos.map FileInfo.path
  | .removing files _ => files.map FileInfo.path
  | .unlinking e files _ => e.path :: files.map FileInfo.path

/-- A call of `Purge`: the shards that are left, the first of which is being purged. The
history has the files that other calls have removed since this one began and that have not
been created again. -/
structure PurgeCall where
  shards : List (String × UInt64)
  pc : PurgePc
  gone : List FilePath

/-- The cache, and the threads that purge it. Other threads have no state between steps. -/
structure CacheThreads where
  cache : DiskCache
  purges : ℕ → Option PurgeCall

inductive CacheFault
  | disk (fault : DiskFault)
  | lstatFailed

inductive CacheEvent
  | put (now : ℕ) (opened : Option ℕ) (reserved : Vector UInt8 32) (key : String) (bytes : Bytes)
  | tryGet (now : ℕ) (key : String)
  | purge (id : ℕ)
  | readdir (id : ℕ) (path : FilePath)
  | endOfListing (id : ℕ)
  | lstat (id : ℕ)
  | sort (id : ℕ)
  | check (id : ℕ)
  | unlink (id : ℕ)

namespace CacheThreads

def setPurge (id : ℕ) (call : Option PurgeCall) (s : CacheThreads) : CacheThreads :=
  { s with purges := Function.update s.purges id call }

/-- Start with the first of the shards, if there is one. -/
def startShard (shards : List (String × UInt64)) (gone : List FilePath) : Option PurgeCall :=
  match shards with
  | [] => none
  | _ :: _ => some ⟨shards, .listing [], gone⟩

/-- The history after a file was created. -/
def created (path : FilePath) (s : CacheThreads) : CacheThreads :=
  { s with purges := fun id => (s.purges id).map fun call =>
      { call with gone := call.gone.filter (· ≠ path) } }

/-- The history after a call has removed a file. -/
def removed (id : ℕ) (path : FilePath) (s : CacheThreads) : CacheThreads :=
  { s with purges := fun other =>
      if other = id then s.purges other
      else (s.purges other).map fun call => { call with gone := path :: call.gone } }

/-! ## Steps -/

section Steps

variable (lib : DiskLibrary)

/-- The key of a file is in the index of its directory. -/
def KeyIndexed (path : FilePath) (c : DiskCache) : Prop :=
  ∃ key, getKeyFromPath lib path = some key ∧ c.indexed path.dir key = true

/-- The whole call is one critical section. What becomes of the lock of an entry that it erases
is not looked at here. -/
def putStep (now : ℕ) (opened : Option ℕ) (reserved : Vector UInt8 32) (key : String)
    (bytes : Bytes) (s : CacheThreads) : Except CacheFault CacheThreads :=
  match s.cache.putLocked lib now opened reserved key bytes with
  | .error fault => .error (.disk fault)
  | .ok c =>
      match s.cache.tryGetPathOfKey lib key, opened with
      | .ok (some path), some _ => .ok (created path { s with cache := c })
      | _, _ => .ok { s with cache := c }

/-- The file is opened in the critical section and read later, which has no checks. -/
def tryGetStep (now : ℕ) (key : String) (s : CacheThreads) : Except CacheFault CacheThreads :=
  match s.cache.tryGet lib now key with
  | .error fault => .error (.disk fault)
  | .ok (_, c) => .ok { s with cache := c }

/-- Remove a file; `after` is what is done with the index, and where the call goes on. -/
def unlinkStep (id : ℕ) (path : FilePath) (call : PurgeCall) (after : DiskCache → DiskCache)
    (s : CacheThreads) : Except CacheFault CacheThreads :=
  match s.cache.unlink path with
  | .error fault => .error (.disk fault)
  | .ok c => .ok (removed id path (setPurge id (some call) { s with cache := after c }))

/-- The head of the loop over the files, with the critical section. -/
def checkStep (id : ℕ) (limit : UInt64) (shards : List (String × UInt64)) (call : PurgeCall)
    (files : List FileInfo) (totalUsed : UInt64) (s : CacheThreads) :
    Except CacheFault CacheThreads :=
  match files with
  | [] => .ok (setPurge id (startShard shards call.gone) s)
  | e :: files =>
      if belowThreshold totalUsed limit then
        .ok (setPurge id (startShard shards call.gone) s)
      else
        let unlocked : CacheThreads :=
          setPurge id (some { call with pc := .unlinking e files totalUsed }) s
        match getKeyFromPath lib e.path, s.cache.entriesPerDir.lookup e.path.dir with
        | some key, some entries =>
            if (entries.lookup key).isSome then
              unlinkStep id e.path { call with pc := .removing files (totalUsed - .ofNat e.size) }
                (setEntries e.path.dir (entries.erase key)) s
            else .ok unlocked
        | _, _ => .ok unlocked

/-- The steps of a call of `Purge`. -/
def purgeStep (id : ℕ) (call : PurgeCall) (s : CacheThreads) :
    CacheEvent → Option (Except CacheFault CacheThreads)
  | .readdir _ path =>
      match call.shards, call.pc with
      | (shard, _) :: _, .listing elements =>
          if path.dir.shard = shard ∧ path ∉ elements ∧ (s.cache.contentAt path).isSome then
            some (.ok (setPurge id (some { call with pc := .listing (elements ++ [path]) }) s))
          else none
      | _, _ => none
  | .endOfListing _ =>
      match call.pc with
      | .listing elements =>
          some (.ok (setPurge id (some { call with pc := .statting elements [] }) s))
      | _ => none
  | .lstat _ =>
      match call.pc with
      | .statting (path :: elements) infos =>
          match s.cache.files.lookup path with
          | none => some (.error .lstatFailed)
          | some file =>
              let info : FileInfo := ⟨path, file.content.length, fromTimeT file.modified⟩
              some (.ok (setPurge id
                (some { call with pc := .statting elements (infos ++ [info]) }) s))
      | _ => none
  | .sort _ =>
      match call.pc with
      | .statting [] infos =>
          let files := lib.sortFiles infos
          some (.ok (setPurge id
            (some { call with pc := .removing files (DiskCache.totalUsed files) }) s))
      | _ => none
  | .check _ =>
      match call.shards, call.pc with
      | (_, limit) :: shards, .removing files totalUsed =>
          some (checkStep lib id limit shards call files totalUsed s)
      | _, _ => none
  | .unlink _ =>
      match call.pc with
      | .unlinking e files totalUsed =>
          some (unlinkStep id e.path
            { call with pc := .removing files (totalUsed - .ofNat e.size) } (fun c => c) s)
      | _ => none
  | _ => none

/-- Without an answer the event does not happen in this state. -/
def next (s : CacheThreads) (event : CacheEvent) : Option (Except CacheFault CacheThreads) :=
  match event with
  | .put now opened reserved key bytes => some (putStep lib now opened reserved key bytes s)
  | .tryGet now key => some (tryGetStep lib now key s)
  | .purge id =>
      match s.purges id with
      | none => some (.ok (setPurge id (startShard s.cache.options.shards []) s))
      | some _ => none
  | .readdir id _ | .endOfListing id | .lstat id | .sort id | .check id | .unlink id =>
      (s.purges id).bind fun call => purgeStep lib id call s event

def Step (s : CacheThreads) (event : CacheEvent) (t : CacheThreads) : Prop :=
  next lib s event = some (.ok t)

end Steps

/-! ## What should hold -/

section Properties

variable (lib : DiskLibrary)

/-- Every indexed key has its file. -/
def FilesPresent (c : DiskCache) : Prop :=
  ∀ dir key, c.indexed dir key = true → ∃ path, c.tryGetPathOfKey lib key = .ok (some path) ∧
    path.dir = dir ∧ (c.contentAt path).isSome

/-- A purge does not ask for a file that others have removed since it was listed, and it does
not remove one without the lock; nor does it so remove a file whose key is in the index by
now. -/
def Undisturbed (s : CacheThreads) : CacheEvent → Prop
  | .lstat id => ∀ call path elements infos, s.purges id = some call →
      call.pc = .statting (path :: elements) infos → path ∉ call.gone
  | .unlink id => ∀ call e files totalUsed, s.purges id = some call →
      call.pc = .unlinking e files totalUsed →
        e.path ∉ call.gone ∧ ¬ KeyIndexed lib e.path s.cache
  | _ => True

/-- If the file is named after a key, it is so in the way of the cache. -/
def Named (path : FilePath) : Prop :=
  ∀ key, getKeyFromPath lib path = some key → path.name = lib.encodePercent key

/-- What a call relies on: its files are there, but for those that others have removed. -/
structure CallSound (c : DiskCache) (call : PurgeCall) : Prop where
  nodup : call.pc.pending.Nodup
  named : ∀ path ∈ call.pc.pending, Named lib path
  there : ∀ path ∈ call.pc.pending, path ∉ call.gone → (c.contentAt path).isSome
  gone : ∀ path ∈ call.gone, c.contentAt path = none

structure Sound (s : CacheThreads) : Prop where
  consistent : Consistent lib s.cache
  canonical : Canonical lib s.cache.files
  calls : ∀ id call, s.purges id = some call → CallSound lib s.cache call

end Properties

section Steps

variable {lib : DiskLibrary} {s : CacheThreads} {c c' : DiskCache} {call call' : PurgeCall}
  {id : ℕ} {path : FilePath}

/-! ## The files -/

theorem FilesPresent.of_consistent (h : Consistent lib c) : FilesPresent lib c := by
  intro dir key hkey
  obtain ⟨path, content, hpath, hdir, hcontent⟩ := h.present dir key hkey
  exact ⟨path, hpath, hdir, by rw [hcontent]; rfl⟩

theorem named_of_path (hlib : lib.Lawful) {key : String}
    (h : c.tryGetPathOfKey lib key = .ok (some path)) : Named lib path := by
  intro key' hkey'
  rw [getKeyFromPath_of_path hlib h, Option.some.injEq] at hkey'
  rw [name_of_path h, hkey']

theorem named_of_canonical (h : Canonical lib c.files) (hthere : (c.contentAt path).isSome) :
    Named lib path := by
  intro key hkey
  rw [contentAt, Option.isSome_map] at hthere
  obtain ⟨file, hfile⟩ := Option.isSome_iff_exists.mp hthere
  exact h path file key hfile hkey

theorem canonical_of_contentAt (h : Canonical lib c.files)
    (hkeep : ∀ p, (c'.contentAt p).isSome → (c.contentAt p).isSome ∨ Named lib p) :
    Canonical lib c'.files := by
  intro p file key hfile hkey
  have hthere : (c'.contentAt p).isSome := by
    rw [contentAt, hfile]
    rfl
  rcases hkeep p hthere with hold | hnamed
  · exact named_of_canonical h hold key hkey
  · exact hnamed key hkey

/-- The file of an indexed key is the one that has its name. -/
theorem path_of_indexed (h : FilesPresent lib c) (hnamed : Named lib path) {key : String}
    (hkey : getKeyFromPath lib path = some key) (hindexed : c.indexed path.dir key = true) :
    c.tryGetPathOfKey lib key = .ok (some path) ∧ (c.contentAt path).isSome := by
  obtain ⟨path', hpath', hdir, hthere⟩ := h path.dir key hindexed
  have hname : path'.name = path.name := (name_of_path hpath').trans (hnamed key hkey).symm
  have hsame : path' = path := by
    cases path'
    cases path
    cases hdir
    cases hname
    rfl
  exact ⟨hsame ▸ hpath', hsame ▸ hthere⟩

/-- Removing a file together with its key. -/
theorem purgeEffect_of_indexed {key : String} {entries : UnorderedMap String EntryDesc}
    {content : Bytes} (hkey : getKeyFromPath lib path = some key)
    (hentries : c.entriesPerDir.lookup path.dir = some entries)
    (hthere : (entries.lookup key).isSome = true) (hcontent : c.contentAt path = some content) :
    PurgeEffect lib path c (setEntries path.dir (entries.erase key)
      { c with files := c.files.erase path }) := by
  obtain ⟨c', hpurge, heffect⟩ : ∃ c', c.purgeFile lib path = .ok (c.purgedKeys lib path, c') ∧
      PurgeEffect lib path c c' := purgeFile_cases hcontent
  have hsame : c.purgeFile lib path = .ok ([key], setEntries path.dir (entries.erase key)
      { c with files := c.files.erase path }) := by
    unfold purgeFile
    rw [hkey, hentries]
    simp only [unlink_ok hcontent, bind, Except.bind, hthere, if_true]
    rfl
  rw [hsame, Except.ok.injEq, Prod.mk.injEq] at hpurge
  exact hpurge.2 ▸ heffect

/-- Removing a file whose key is not in the index. -/
theorem purgeEffect_of_not_indexed (hnot : ¬ KeyIndexed lib path c) :
    PurgeEffect lib path c { c with files := c.files.erase path } := by
  refine ⟨⟨rfl, rfl, fun _ => rfl⟩, ?_, contentAt_eraseFile path⟩
  intro dir key
  rw [if_neg]
  · rfl
  · rintro ⟨-, hmem⟩
    exact hnot ⟨key, mem_purgedKeys.mp hmem⟩

/-! ## The calls -/

theorem CallSound.of_contentAt (h : CallSound lib c call)
    (hsame : ∀ p, c'.contentAt p = c.contentAt p) : CallSound lib c' call where
  nodup := h.nodup
  named := h.named
  there p hp hgone := by
    rw [hsame]
    exact h.there p hp hgone
  gone p hp := by
    rw [hsame]
    exact h.gone p hp

/-- After a file was created. -/
theorem CallSound.created (h : CallSound lib c call) {content : Bytes}
    (heffect : ∀ p, c'.contentAt p = if p = path then some content else c.contentAt p) :
    CallSound lib c' { call with gone := call.gone.filter (· ≠ path) } where
  nodup := h.nodup
  named := h.named
  there p hp hgone := by
    rw [heffect]
    split
    · rfl
    · next hne =>
        refine h.there p hp fun hmem => hgone (List.mem_filter.mpr ⟨hmem, ?_⟩)
        simpa using hne
  gone p hp := by
    obtain ⟨hmem, hne⟩ := List.mem_filter.mp hp
    rw [heffect, if_neg (by simpa using hne)]
    exact h.gone p hmem

/-- After another call has removed a file. -/
theorem CallSound.lost (h : CallSound lib c call)
    (heffect : ∀ p, c'.contentAt p = if p = path then none else c.contentAt p) :
    CallSound lib c' { call with gone := path :: call.gone } where
  nodup := h.nodup
  named := h.named
  there p hp hgone := by
    rw [List.mem_cons, not_or] at hgone
    obtain ⟨hne, hold⟩ := hgone
    rw [heffect, if_neg hne]
    exact h.there p hp hold
  gone p hp := by
    rw [heffect]
    split
    · rfl
    · next hne =>
        rcases List.mem_cons.mp hp with rfl | hmem
        · exact absurd rfl hne
        · exact h.gone p hmem

/-- After the call itself has removed a file that it does not have on its list any more. -/
theorem CallSound.own (h : CallSound lib c call) (hpending : call.pc.pending =
    path :: call'.pc.pending) (hgone : call'.gone = call.gone)
    (heffect : ∀ p, c'.contentAt p = if p = path then none else c.contentAt p) :
    CallSound lib c' call' := by
  have hnodup := h.nodup
  rw [hpending, List.nodup_cons] at hnodup
  have hlisted : ∀ p ∈ call'.pc.pending, p ∈ call.pc.pending := by
    intro p hp
    rw [hpending]
    exact List.mem_cons_of_mem path hp
  refine ⟨hnodup.2, fun p hp => h.named p (hlisted p hp), ?_, ?_⟩
  · intro p hp hnot
    rw [heffect, if_neg]
    · exact h.there p (hlisted p hp) (hgone ▸ hnot)
    · rintro rfl
      exact hnodup.1 hp
  · intro p hp
    rw [heffect]
    split
    · rfl
    · exact h.gone p (hgone ▸ hp)

/-- The call goes on with the same files. -/
theorem CallSound.of_perm (h : CallSound lib c call)
    (hpending : call'.pc.pending.Perm call.pc.pending) (hgone : call'.gone = call.gone) :
    CallSound lib c call' where
  nodup := hpending.nodup_iff.mpr h.nodup
  named p hp := h.named p (hpending.mem_iff.mp hp)
  there p hp hnot := h.there p (hpending.mem_iff.mp hp) (hgone ▸ hnot)
  gone p hp := h.gone p (hgone ▸ hp)

theorem callSound_startShard {shards : List (String × UInt64)} {gone : List FilePath}
    (hgone : ∀ path ∈ gone, c.contentAt path = none)
    (hstart : startShard shards gone = some call) : CallSound lib c call := by
  cases shards with
  | nil => cases hstart
  | cons shard shards =>
      cases hstart
      exact ⟨List.nodup_nil, fun _ hp => absurd hp List.not_mem_nil,
        fun _ hp => absurd hp List.not_mem_nil, hgone⟩

theorem Sound.setPurge (h : Sound lib s) {call? : Option PurgeCall}
    (hcall : ∀ call, call? = some call → CallSound lib s.cache call) :
    Sound lib (setPurge id call? s) := by
  refine ⟨h.consistent, h.canonical, ?_⟩
  intro other call hother
  have hupdate : Function.update s.purges id call? other = some call := hother
  rw [Function.update_apply] at hupdate
  split at hupdate
  · exact hcall call hupdate
  · exact h.calls other call hupdate

/-! ## The steps -/

theorem Sound.putStep (hlib : lib.Lawful) (h : Sound lib s) (now : ℕ) (opened : Option ℕ)
    (reserved : Vector UInt8 32) (key : String) (bytes : Bytes) :
    ∃ t, putStep lib now opened reserved key bytes s = .ok t ∧ Sound lib t := by
  obtain ⟨c', hput, hcases⟩ :=
    putLocked_cases h.consistent.toLaid now opened reserved key bytes
  unfold CacheThreads.putStep
  rw [hput]
  rcases hcases with ⟨hpath, rfl⟩ | ⟨path, hpath, heffect⟩
  · simp only [hpath]
    exact ⟨_, rfl, h⟩
  · have hconsistent := heffect.consistent hlib h.consistent hpath
    have hcanonical : Canonical lib c'.files := by
      refine canonical_of_contentAt h.canonical fun p hp => ?_
      rw [heffect.contentAt] at hp
      split at hp
      · next heq => exact .inr (heq ▸ named_of_path hlib hpath)
      · exact .inl hp
    cases opened with
    | none =>
        simp only [hpath]
        refine ⟨_, rfl, hconsistent, hcanonical, fun id call hcall => ?_⟩
        refine (h.calls id call hcall).of_contentAt fun p => ?_
        rw [heffect.contentAt]
        split
        · next heq => rw [heq]; rfl
        · rfl
    | some fd =>
        simp only [hpath]
        obtain ⟨content, hcontent⟩ : ∃ content, putContent lib (some fd) reserved bytes
            (s.cache.contentAt path) = some content := by
          cases fd with
          | zero => exact ⟨_, rfl⟩
          | succ fd => exact ⟨_, rfl⟩
        have hcontents : ∀ p, c'.contentAt p =
            if p = path then some content else s.cache.contentAt p := by
          intro p
          rw [heffect.contentAt, hcontent]
        refine ⟨_, rfl, hconsistent, hcanonical, fun id call hcall => ?_⟩
        obtain ⟨call₀, hcall₀, rfl⟩ := Option.map_eq_some_iff.mp hcall
        exact (h.calls id call₀ hcall₀).created hcontents

theorem Sound.tryGetStep (h : Sound lib s) (now : ℕ) (key : String) :
    ∃ t, tryGetStep lib now key s = .ok t ∧ Sound lib t := by
  obtain ⟨c', hget, hview⟩ := tryGet_cases h.consistent now key
  unfold CacheThreads.tryGetStep
  rw [hget]
  refine ⟨_, rfl, h.consistent.of_view hview, ?_, fun id call hcall => ?_⟩
  · refine canonical_of_contentAt h.canonical fun p hp => .inl ?_
    rwa [hview.contentAt] at hp
  · exact (h.calls id call hcall).of_contentAt hview.contentAt

/-- A file that a call has listed is removed, with its key if that is in the index. -/
theorem Sound.removed (hlib : lib.Lawful) (h : Sound lib s) (hcall : s.purges id = some call)
    (hpending : call.pc.pending = path :: call'.pc.pending) (hgone : call'.gone = call.gone)
    (heffect : PurgeEffect lib path s.cache c') :
    Sound lib (removed id path (CacheThreads.setPurge id (some call') { s with cache := c' })) := by
  refine ⟨heffect.consistent hlib h.consistent, ?_, ?_⟩
  · refine canonical_of_contentAt h.canonical fun p hp => .inl ?_
    have hleft : (c'.contentAt p).isSome := hp
    rw [heffect.contentAt] at hleft
    split at hleft
    · cases hleft
    · exact hleft
  · intro other call₁ hother
    by_cases hid : other = id
    · have hown : call' = call₁ := by
        simpa [CacheThreads.removed, CacheThreads.setPurge, hid] using hother
      rw [← hown]
      exact (h.calls id call hcall).own hpending hgone heffect.contentAt
    · have hmap : (s.purges other).map (fun call => { call with gone := path :: call.gone }) =
          some call₁ := by
        simpa [CacheThreads.removed, CacheThreads.setPurge, hid] using hother
      obtain ⟨call₂, hcall₂, rfl⟩ := Option.map_eq_some_iff.mp hmap
      exact (h.calls other call₂ hcall₂).lost heffect.contentAt

/-- The loop goes on to the next file, or to the next shard. -/
theorem Sound.checkStep (hlib : lib.Lawful) (h : Sound lib s) (hcall : s.purges id = some call)
    {files : List FileInfo} {totalUsed : UInt64} (hpc : call.pc = .removing files totalUsed)
    (limit : UInt64) (shards : List (String × UInt64)) :
    ∃ t, checkStep lib id limit shards call files totalUsed s = .ok t ∧ Sound lib t := by
  have hsound := h.calls id call hcall
  have hstart : Sound lib (CacheThreads.setPurge id (startShard shards call.gone) s) :=
    h.setPurge fun call' hcall' => callSound_startShard hsound.gone hcall'
  cases files with
  | nil => exact ⟨_, rfl, hstart⟩
  | cons e files =>
      have hunlocked : Sound lib (CacheThreads.setPurge id
          (some { call with pc := .unlinking e files totalUsed }) s) := by
        refine h.setPurge fun call' hcall' => ?_
        cases hcall'
        refine hsound.of_perm ?_ rfl
        rw [hpc]
        exact .refl _
      rw [CacheThreads.checkStep]
      split_ifs
      · exact ⟨_, rfl, hstart⟩
      · split
        · next key entries hkey hentries =>
            split_ifs with hthere
            · have hlisted : e.path ∈ call.pc.pending := by
                rw [hpc]
                exact List.mem_cons_self
              have hindexed : s.cache.indexed e.path.dir key = true := by
                rw [indexed_eq hentries]
                exact hthere
              obtain ⟨content, hcontent⟩ := Option.isSome_iff_exists.mp
                (path_of_indexed (.of_consistent h.consistent) (hsound.named _ hlisted) hkey
                  hindexed).2
              have heffect := purgeEffect_of_indexed hkey hentries hthere hcontent
              rw [unlinkStep, unlink_ok hcontent]
              refine ⟨_, rfl, h.removed hlib hcall ?_ rfl heffect⟩
              rw [hpc]
              rfl
            · exact ⟨_, rfl, hunlocked⟩
        · exact ⟨_, rfl, hunlocked⟩

/-- A file is removed without the lock. -/
theorem Sound.unlinkStep (hlib : lib.Lawful) (h : Sound lib s) (hcall : s.purges id = some call)
    {e : FileInfo} {files : List FileInfo} {totalUsed total : UInt64}
    (hpc : call.pc = .unlinking e files totalUsed) (hgone : e.path ∉ call.gone)
    (hnot : ¬ KeyIndexed lib e.path s.cache) :
    ∃ t, unlinkStep id e.path { call with pc := .removing files total } (fun c => c) s = .ok t ∧
      Sound lib t := by
  have hlisted : e.path ∈ call.pc.pending := by
    rw [hpc]
    exact List.mem_cons_self
  obtain ⟨content, hcontent⟩ :=
    Option.isSome_iff_exists.mp ((h.calls id call hcall).there e.path hlisted hgone)
  rw [CacheThreads.unlinkStep, unlink_ok hcontent]
  refine ⟨_, rfl, h.removed hlib hcall ?_ rfl (purgeEffect_of_not_indexed hnot)⟩
  rw [hpc]
  rfl

/-- A file that is removed without the lock, although it is gone or its key is in the index by
now. -/
theorem Sound.unlinkStep_disturbed (h : Sound lib s) (hcall : s.purges id = some call)
    {e : FileInfo} {files : List FileInfo} {totalUsed total : UInt64}
    (hpc : call.pc = .unlinking e files totalUsed)
    (hdisturbed : e.path ∈ call.gone ∨ KeyIndexed lib e.path s.cache) :
    ¬ ∃ t, CacheThreads.unlinkStep id e.path { call with pc := .removing files total }
      (fun c => c) s = .ok t ∧ FilesPresent lib t.cache := by
  rintro ⟨t, hstep, hpresent⟩
  cases hfile : s.cache.files.lookup e.path with
  | none =>
      rw [CacheThreads.unlinkStep, unlink, hfile] at hstep
      cases hstep
  | some file =>
      have hcontent : s.cache.contentAt e.path = some file.content := by
        rw [contentAt, hfile]
        rfl
      rcases hdisturbed with hgone | ⟨key, hkey, hindexed⟩
      · rw [(h.calls id call hcall).gone e.path hgone] at hcontent
        cases hcontent
      · rw [CacheThreads.unlinkStep, unlink_ok hcontent] at hstep
        cases hstep
        have hlisted : e.path ∈ call.pc.pending := by
          rw [hpc]
          exact List.mem_cons_self
        have hthere := (path_of_indexed hpresent ((h.calls id call hcall).named _ hlisted) hkey
          hindexed).2
        have hmissing := @contentAt_eraseFile s.cache e.path e.path
        rw [if_pos rfl] at hmissing
        have hnone : (none : Option Bytes).isSome = true := hmissing ▸ hthere
        cases hnone

/-- A call asks for the size and the age of a file. -/
theorem Sound.lstat (h : Sound lib s) (hcall : s.purges id = some call)
    {elements : List FilePath} {infos : List FileInfo}
    (hpc : call.pc = .statting (path :: elements) infos) (hgone : path ∉ call.gone) :
    ∃ file, s.cache.files.lookup path = some file ∧
      Sound lib (CacheThreads.setPurge id (some { call with
        pc := .statting elements
          (infos ++ [⟨path, file.content.length, fromTimeT file.modified⟩]) }) s) := by
  have hsound := h.calls id call hcall
  have hlisted : path ∈ call.pc.pending := by
    rw [hpc]
    exact List.mem_cons_self
  have hthere := hsound.there path hlisted hgone
  rw [contentAt, Option.isSome_map] at hthere
  obtain ⟨file, hfile⟩ := Option.isSome_iff_exists.mp hthere
  refine ⟨file, hfile, h.setPurge fun call' hcall' => ?_⟩
  cases hcall'
  refine hsound.of_perm ?_ rfl
  rw [hpc]
  simp only [PurgePc.pending, List.map_append, List.map_cons, List.map_nil, List.cons_append]
  rw [← List.append_assoc]
  exact List.perm_append_singleton path _

/-- The next file of the shard is listed. -/
theorem Sound.readdir (h : Sound lib s) (hcall : s.purges id = some call)
    {elements : List FilePath} (hpc : call.pc = .listing elements) (hnew : path ∉ elements)
    (hthere : (s.cache.contentAt path).isSome) :
    Sound lib (CacheThreads.setPurge id
      (some { call with pc := .listing (elements ++ [path]) }) s) := by
  have hsound := h.calls id call hcall
  have hpending : call.pc.pending = elements := by
    rw [hpc]
    rfl
  refine h.setPurge fun call' hcall' => ?_
  cases hcall'
  have hmem : ∀ p ∈ elements ++ [path], p ∈ call.pc.pending ∨ p = path := by
    intro p hp
    rw [hpending]
    simpa using hp
  refine ⟨?_, ?_, ?_, hsound.gone⟩
  · have hnodup := hsound.nodup
    rw [hpending] at hnodup
    exact (List.perm_append_singleton path elements).nodup_iff.mpr
      (List.nodup_cons.mpr ⟨hnew, hnodup⟩)
  · intro p hp
    rcases hmem p hp with hold | rfl
    · exact hsound.named p hold
    · exact named_of_canonical h.canonical hthere
  · intro p hp hnot
    rcases hmem p hp with hold | rfl
    · exact hsound.there p hold hnot
    · exact hthere

/-- Where a step meets the condition, it succeeds and leaves everything sound; where it does
not, it fails a check, or leaves a key without its file. -/
def Decided (lib : DiskLibrary) (s : CacheThreads) (event : CacheEvent)
    (r : Except CacheFault CacheThreads) : Prop :=
  (Undisturbed lib s event → ∃ t, r = .ok t ∧ Sound lib t) ∧
    (¬ Undisturbed lib s event → ¬ ∃ t, r = .ok t ∧ FilesPresent lib t.cache)

/-- Most steps meet the condition in any state. -/
theorem decided_of_sound {event : CacheEvent} {r : Except CacheFault CacheThreads}
    (hundisturbed : Undisturbed lib s event) (hsound : ∃ t, r = .ok t ∧ Sound lib t) :
    Decided lib s event r :=
  ⟨fun _ => hsound, fun hnot => absurd hundisturbed hnot⟩

/-- A call goes on with the same files. -/
theorem Sound.goOn (h : Sound lib s) (hcall : s.purges id = some call) {pc : PurgePc}
    (hperm : pc.pending.Perm call.pc.pending) :
    Sound lib (CacheThreads.setPurge id (some { call with pc }) s) := by
  refine h.setPurge fun call' hcall' => ?_
  cases hcall'
  exact (h.calls id call hcall).of_perm hperm rfl

theorem Sound.decided_lstat (h : Sound lib s) (hcall : s.purges id = some call)
    {elements : List FilePath} {infos : List FileInfo}
    (hpc : call.pc = .statting (path :: elements) infos) {r : Except CacheFault CacheThreads}
    (hstep : purgeStep lib id call s (.lstat id) = some r) : Decided lib s (.lstat id) r := by
  rw [purgeStep, hpc] at hstep
  dsimp only at hstep
  constructor
  · intro hclear
    obtain ⟨file, hfile, hsound⟩ := h.lstat hcall hpc (hclear _ _ _ _ hcall hpc)
    rw [hfile] at hstep
    cases hstep
    exact ⟨_, rfl, hsound⟩
  · rintro hnot ⟨t, rfl, -⟩
    refine hnot fun call' path' elements' infos' hcall' hpc' hgone => ?_
    rw [hcall, Option.some.injEq] at hcall'
    subst hcall'
    rw [hpc] at hpc'
    cases hpc'
    have hnone := (h.calls id call hcall).gone path hgone
    rw [contentAt, Option.map_eq_none_iff] at hnone
    rw [hnone] at hstep
    cases hstep

theorem Sound.decided_unlink (hlib : lib.Lawful) (h : Sound lib s)
    (hcall : s.purges id = some call) {e : FileInfo} {files : List FileInfo}
    {totalUsed total : UInt64}
    (hpc : call.pc = .unlinking e files totalUsed) : Decided lib s (.unlink id)
      (CacheThreads.unlinkStep id e.path { call with pc := .removing files total } (fun c => c)
        s) := by
  constructor
  · intro hclear
    obtain ⟨hgone, hnot⟩ := hclear _ _ _ _ hcall hpc
    exact h.unlinkStep hlib hcall hpc hgone hnot
  · intro hnot
    refine h.unlinkStep_disturbed hcall hpc ?_
    by_contra hclear
    rw [not_or] at hclear
    refine hnot fun call' e' files' totalUsed' hcall' hpc' => ?_
    rw [hcall, Option.some.injEq] at hcall'
    subst hcall'
    rw [hpc] at hpc'
    cases hpc'
    exact hclear

theorem Sound.next (hlib : lib.Lawful) (h : Sound lib s) {event : CacheEvent}
    {r : Except CacheFault CacheThreads} (hnext : next lib s event = some r) :
    Decided lib s event r := by
  cases event with
  | put now opened reserved key bytes =>
      cases hnext
      exact decided_of_sound trivial (h.putStep hlib now opened reserved key bytes)
  | tryGet now key =>
      cases hnext
      exact decided_of_sound trivial (h.tryGetStep now key)
  | purge id =>
      rw [CacheThreads.next] at hnext
      split at hnext
      · cases hnext
        refine decided_of_sound trivial ⟨_, rfl, h.setPurge fun call hcall => ?_⟩
        exact callSound_startShard (fun _ hp => absurd hp List.not_mem_nil) hcall
      · cases hnext
  | readdir id path =>
      obtain ⟨call, hcall, hstep⟩ := Option.bind_eq_some_iff.mp hnext
      rw [purgeStep] at hstep
      split at hstep
      · next elements _ hpc =>
          split_ifs at hstep with hlist
          cases hstep
          exact decided_of_sound trivial ⟨_, rfl, h.readdir hcall hpc hlist.2.1 hlist.2.2⟩
      · cases hstep
  | endOfListing id =>
      obtain ⟨call, hcall, hstep⟩ := Option.bind_eq_some_iff.mp hnext
      rw [purgeStep] at hstep
      split at hstep
      · next elements hpc =>
          cases hstep
          refine decided_of_sound trivial ⟨_, rfl, h.goOn hcall ?_⟩
          rw [hpc]
          simp [PurgePc.pending]
      · cases hstep
  | lstat id =>
      obtain ⟨call, hcall, hstep⟩ := Option.bind_eq_some_iff.mp hnext
      have hlstat := hstep
      rw [purgeStep] at hstep
      split at hstep
      · next path elements infos hpc => exact h.decided_lstat hcall hpc hlstat
      · cases hstep
  | sort id =>
      obtain ⟨call, hcall, hstep⟩ := Option.bind_eq_some_iff.mp hnext
      rw [purgeStep] at hstep
      split at hstep
      · next infos hpc =>
          cases hstep
          refine decided_of_sound trivial ⟨_, rfl, h.goOn hcall ?_⟩
          rw [hpc]
          exact (hlib.filesPerm infos).map FileInfo.path
      · cases hstep
  | check id =>
      obtain ⟨call, hcall, hstep⟩ := Option.bind_eq_some_iff.mp hnext
      rw [purgeStep] at hstep
      split at hstep
      · next limit shards files totalUsed _ hpc =>
          cases hstep
          exact decided_of_sound trivial (h.checkStep hlib hcall hpc limit shards)
      · cases hstep
  | unlink id =>
      obtain ⟨call, hcall, hstep⟩ := Option.bind_eq_some_iff.mp hnext
      rw [purgeStep] at hstep
      split at hstep
      · next e files totalUsed hpc =>
          cases hstep
          exact h.decided_unlink hlib hcall hpc
      · cases hstep

/-! ## Runs -/

theorem Sound.of_opened (h : Opened lib c) : Sound lib ⟨c, fun _ => none⟩ where
  consistent := h.toConsistent
  canonical := h.canonical
  calls _ _ hcall := nomatch hcall

/-- From a cache that the constructor has opened, over files that are named as the cache names
them: as long as no purge asks for a listed file that others have removed, or removes one
without the lock that others have removed or whose key is in the index by now, every indexed
key has its file; and of the steps that are possible, exactly those that meet the condition
fail no check and leave every indexed key with its file. -/
theorem filesPresent_of_run (hlib : lib.Lawful) {action : ActionOnMisplacedEntry}
    {device : String → ℕ} {listing : Listing} (hlisting : listing.Lawful) {options : DiskOptions}
    (husable : options.Usable) {files : UnorderedMap FilePath File}
    (hfiles : Canonical lib files) (hnew : new lib action device listing options files = .ok c)
    {events : List CacheEvent}
    (run : Run (Guarded (Step lib) (Undisturbed lib)) ⟨c, fun _ => none⟩ events s) :
    FilesPresent lib s.cache ∧
      ∀ event r, next lib s event = some r →
        (Undisturbed lib s event ↔ ∃ t, r = .ok t ∧ FilesPresent lib t.cache) := by
  have hsound : Sound lib s := by
    refine run.invariant (I := Sound lib) ?_
      (.of_opened (opened_of_new hlib hlisting husable hfiles hnew))
    rintro s event t hs ⟨hstep, hclear⟩
    obtain ⟨t', ht', hsound⟩ := (hs.next hlib hstep).1 hclear
    cases ht'
    exact hsound
  refine ⟨.of_consistent hsound.consistent, fun event r hnext => ?_⟩
  obtain ⟨hclear, hdisturbed⟩ := hsound.next hlib hnext
  constructor
  · intro h
    obtain ⟨t, ht, hsound⟩ := hclear h
    exact ⟨t, ht, .of_consistent hsound.consistent⟩
  · intro h
    by_contra hnot
    exact hdisturbed hnot h

end Steps

/-! ## Purges that get in the way -/

/-- The state after a step that succeeds. -/
def advance (lib : DiskLibrary) (s : CacheThreads) (event : CacheEvent) : Option CacheThreads :=
  match next lib s event with
  | some (.ok t) => some t
  | _ => none

theorem step_of_advance {lib : DiskLibrary} (s : CacheThreads) (event : CacheEvent)
    (t : CacheThreads) (h : advance lib s event = some t) : Step lib s event t := by
  rw [advance] at h
  split at h
  · next t' hnext =>
      cases h
      exact hnext
  · cases h

def sampleStart : CacheThreads := ⟨sampleCache, fun _ => none⟩

/-- A put of the key `k`, whose file can be created or not. -/
def putEvent (opened : Option ℕ) : CacheEvent :=
  .put 1 opened (Vector.replicate 32 0) "k" [1]

/-- Where the sample has the key `k`. -/
def kPath : FilePath := ⟨⟨"a", [0]⟩, "k"⟩

/-- A call up to its first look at the index. -/
def upToCheck (id : ℕ) : List CacheEvent :=
  [.purge id, .readdir id kPath, .endOfListing id, .lstat id, .sort id, .check id]

/-- A purge that nobody disturbs removes the file and its key. -/
theorem filesPresent_of_run_alone : ∃ s,
    Run (Guarded (Step sampleLibrary) (Undisturbed sampleLibrary)) sampleStart
      (putEvent (some 3) :: upToCheck 1) s ∧
    s.cache.files.lookup kPath = none ∧ FilesPresent sampleLibrary s.cache := by
  obtain ⟨s, run, hgone⟩ : ∃ s,
      Run (Guarded (Step sampleLibrary) (Undisturbed sampleLibrary)) sampleStart
        (putEvent (some 3) :: upToCheck 1) s ∧ s.cache.files.lookup kPath = none := by
    refine ⟨_, .cons ⟨rfl, trivial⟩ (.cons ⟨rfl, trivial⟩ (.cons ⟨rfl, trivial⟩
      (.cons ⟨rfl, trivial⟩ (.cons ⟨rfl, ?_⟩ (.cons ⟨rfl, trivial⟩
        (.cons ⟨rfl, trivial⟩ (.nil _))))))), rfl⟩
    intro call path elements infos hcall hpc
    cases hcall
    cases hpc
    exact List.not_mem_nil
  exact ⟨s, run, hgone, (filesPresent_of_run lawful_sampleLibrary ⟨fun _ => .refl _⟩
    usable_sampleOptions canonical_empty (new_sampleCache .delete fun _ => 0) run).1⟩

/-- The second call has listed the file before the first one removes it. -/
def overlapping : List CacheEvent :=
  [putEvent (some 3), .purge 2, .readdir 2 kPath, .endOfListing 2] ++ upToCheck 1

/-- The key is put again after the call has not found it in the index. -/
def putBetween : List CacheEvent :=
  [putEvent (some 3), putEvent none] ++ upToCheck 1 ++ [putEvent (some 3), .unlink 1]

/-- Two purges at a time end the daemon; and a put while a single purge goes on can leave a key
in the index whose file is removed, which ends the daemon at the next lookup. -/
theorem aborted_and_lost :
    (∃ s, new sampleLibrary .delete (fun _ => 0) id sampleOptions ∅ = .ok sampleStart.cache ∧
      Run (Step sampleLibrary) sampleStart overlapping s ∧
      next sampleLibrary s (.lstat 2) = some (.error .lstatFailed)) ∧
    (∃ s, Run (Step sampleLibrary) sampleStart putBetween s ∧
      ¬ FilesPresent sampleLibrary s.cache ∧
      next sampleLibrary s (.tryGet 2 "k") = some (.error (.disk .openFailed))) := by
  refine ⟨⟨_, new_sampleCache .delete fun _ => 0, .of_follow step_of_advance rfl, rfl⟩,
    ⟨_, .of_follow step_of_advance rfl, ?_, rfl⟩⟩
  intro hpresent
  obtain ⟨path, hpath, -, hthere⟩ := hpresent ⟨"a", [0]⟩ "k" rfl
  cases hpath
  cases hthere

end CacheThreads

end Yadcc
