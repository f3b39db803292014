/-
# The disk cache as a map

Whatever is stored last under a key is what a lookup may find there. A file that was not
written, that was purged or that was altered from outside may be missing, but nothing else is
found in its place, as long as nobody gives other bytes the checksum that they have. The map
that the cache refines knows for each key what was put last, and whether that is sure to be
there. Nothing is said of a put that could not create its file.
-/

import Yadcc.Common.DiskCacheLoad
import Yadcc.Lib.Transition

namespace Yadcc

open Yadcc.Lib

namespace DiskCache

/-! ## Operations -/

/-- What is done to the cache, and what is done to its files from outside. -/
inductive Operation
  | put (now : ℕ) (opened : Option ℕ) (reserved : Vector UInt8 32) (key : String)
      (bytes : Bytes)
  | tryGet (now : ℕ) (key : String)
  | purge (listing : Listing)
  | alter (path : FilePath) (file : File)

inductive Response
  | done
  | value (bytes : Option Bytes)
  | purged (keys : List String)
  deriving DecidableEq

def perform (lib : DiskLibrary) (c : DiskCache) :
    Operation → Except DiskFault (Response × DiskCache)
  | .put now opened reserved key bytes => do
      let c ← c.put lib now opened reserved key bytes
      return (.done, c)
  | .tryGet now key => do
      let (bytes, c) ← c.tryGet lib now key
      return (.value bytes, c)
  | .purge listing => do
      let (keys, c) ← c.purge lib listing
      return (.purged keys, c)
  | .alter path file => return (.done, c.writeFile path file)

/-- The keys that an operation is about. -/
def Operation.Concerns (lib : DiskLibrary) (key : String) : Operation → Prop
  | .put _ _ _ key' _ => key = key'
  | .tryGet _ key' => key = key'
  | .purge _ => True
  | .alter path _ => getKeyFromPath lib path = some key

/-! ## The map -/

/-- What was put last, and whether it is sure to be there. -/
structure PlainMap where
  last : String → Option Bytes
  sure : String → Bool

/-- A put creates its file and writes it: its key has a path, and `open` gives a descriptor
other than zero. -/
def creates (lib : DiskLibrary) (key : String) (opened : Option ℕ) (c : DiskCache) : Bool :=
  match c.tryGetPathOfKey lib key with
  | .ok (some _) => decide (0 < opened.getD 0)
  | _ => false

/-- The map after an operation, by what it was asked and what it answered. -/
def PlainMap.after (lib : DiskLibrary) (c : DiskCache) (m : PlainMap) :
    Operation → Response → PlainMap
  | .put _ opened _ key bytes, _ =>
      { last := Function.update m.last key (some bytes)
        sure := Function.update m.sure key (c.creates lib key opened) }
  | .purge _, .purged keys => { m with sure := fun key => m.sure key && !decide (key ∈ keys) }
  | .alter path _, _ =>
      { m with sure := fun key => m.sure key && getKeyFromPath lib path != some key }
  | _, _ => m

/-- The map of a cache at the start: what it has. -/
def toPlainMap (lib : DiskLibrary) (c : DiskCache) : PlainMap :=
  ⟨fun key => c.valueOf lib key, fun key => (c.valueOf lib key).isSome⟩

/-- What an operation must be: its bytes are among those whose checksums differ, `open` gives a
put some descriptor, a listing lists what is there, and a file that is altered is there. -/
def Valid (contents : Set Bytes) (c : DiskCache) : Operation → Prop
  | .put _ opened _ _ bytes => opened.isSome ∧ bytes ∈ contents
  | .tryGet _ _ => True
  | .purge listing => listing.Lawful
  | .alter path file =>
      (c.contentAt path).isSome ∧ file.content.drop sizeofFileHeader ∈ contents

/-- A step of the cache, and the step of the map beside it. -/
def Step (lib : DiskLibrary) (contents : Set Bytes) (s : DiskCache × PlainMap) (op : Operation)
    (t : DiskCache × PlainMap) : Prop :=
  Valid contents s.1 op ∧ ∃ response,
    perform lib s.1 op = .ok (response, t.1) ∧ t.2 = s.2.after lib s.1 op response

/-- If an altered file passes the check, its checksum is that of what was put last. -/
def Unforged (lib : DiskLibrary) (s : DiskCache × PlainMap) : Operation → Prop
  | .alter path file => ∀ key bytes, s.1.tryGetPathOfKey lib key = .ok (some path) →
      verifyEntryAndCutHeader lib file.content = some bytes → ∃ last,
        s.2.last key = some last ∧ file.content.take 32 = (lib.blake3 last).toList
  | _ => True

/-! ## Refinement -/

section Refinement

variable {lib : DiskLibrary} {contents : Set Bytes}

/-- The cache has nothing but what was put last, and it has that where it is sure to. -/
structure Refines (lib : DiskLibrary) (contents : Set Bytes) (s : DiskCache × PlainMap) : Prop
    extends Consistent lib s.1 where
  contents : ∀ key bytes, s.2.last key = some bytes → bytes ∈ contents
  last : ∀ key bytes, s.1.valueOf lib key = some bytes → s.2.last key = some bytes
  sure : ∀ key, s.2.sure key = true → (s.1.valueOf lib key).isSome

theorem refines_toPlainMap {c : DiskCache} (h : Consistent lib c)
    (hcontents : ∀ key bytes, c.valueOf lib key = some bytes → bytes ∈ contents) :
    Refines lib contents (c, c.toPlainMap lib) :=
  ⟨h, hcontents, fun _ _ h => h, fun _ h => h⟩

/-- What passes the check has its checksum at its head. -/
theorem take_of_verify {buffer bytes : Bytes}
    (h : verifyEntryAndCutHeader lib buffer = some bytes) :
    bytes = buffer.drop sizeofFileHeader ∧ buffer.take 32 = (lib.blake3 bytes).toList := by
  unfold verifyEntryAndCutHeader at h
  split at h
  · cases h
  · split at h
    · cases h
    · next hchecksum =>
        cases h
        exact ⟨rfl, not_not.mp hchecksum⟩

theorem Refines.put {s : DiskCache × PlainMap} (hlib : lib.Lawful) (h : Refines lib contents s)
    {now : ℕ} {opened : Option ℕ} {reserved : Vector UInt8 32} {key : String} {bytes : Bytes}
    (hopened : opened.isSome) (hbytes : bytes ∈ contents) {c : DiskCache}
    (hput : s.1.put lib now opened reserved key bytes = .ok c) :
    Refines lib contents (c, s.2.after lib s.1 (.put now opened reserved key bytes) .done) := by
  have hlast : ∀ k b, Function.update s.2.last key (some bytes) k = some b → b ∈ contents := by
    intro k b hb
    by_cases hk : k = key
    · subst hk
      rw [Function.update_self] at hb
      cases hb
      exact hbytes
    · rw [Function.update_of_ne hk] at hb
      exact h.contents k b hb
  obtain ⟨c', hput', hcases⟩ := put_cases h.toLaid hopened now reserved key bytes
  rw [hput] at hput'
  cases hput'
  rcases hcases with ⟨hpath, rfl⟩ | ⟨path, hpath, heffect⟩
  · -- a key that is too long is never found
    have hnone : s.1.valueOf lib key = none := by
      rw [valueOf, hpath]
    have hcreates : s.1.creates lib key opened = false := by
      rw [creates, hpath]
    refine ⟨h.toConsistent, hlast, ?_, ?_⟩
    · intro k b hb
      have hk : k ≠ key := by
        rintro rfl
        rw [hnone] at hb
        cases hb
      exact (Function.update_of_ne hk _ _).trans (h.last k b hb)
    · intro k hk
      change Function.update s.2.sure key (s.1.creates lib key opened) k = true at hk
      by_cases hkey : k = key
      · subst hkey
        rw [Function.update_self, hcreates] at hk
        cases hk
      · rw [Function.update_of_ne hkey] at hk
        exact h.sure k hk
  · have hself := heffect.valueOf_self hpath
    refine ⟨heffect.consistent hlib h.toConsistent hpath, hlast, ?_, ?_⟩
    · intro k b hb
      by_cases hk : k = key
      · subst hk
        rw [hself] at hb
        split at hb
        · cases hb
          exact Function.update_self ..
        · cases hb
      · rw [heffect.valueOf_ne hlib hpath hk] at hb
        exact (Function.update_of_ne hk _ _).trans (h.last k b hb)
    · intro k hk
      change Function.update s.2.sure key (s.1.creates lib key opened) k = true at hk
      by_cases hkey : k = key
      · subst hkey
        rw [Function.update_self, creates, hpath, decide_eq_true_eq] at hk
        rw [hself, if_pos hk]
        rfl
      · rw [Function.update_of_ne hkey] at hk
        rw [heffect.valueOf_ne hlib hpath hkey]
        exact h.sure k hk

theorem Refines.tryGet {s : DiskCache × PlainMap} (h : Refines lib contents s) {now : ℕ}
    {key : String} {value : Option Bytes} {c : DiskCache}
    (hget : s.1.tryGet lib now key = .ok (value, c)) : Refines lib contents (c, s.2) := by
  obtain ⟨c', hget', hview⟩ := tryGet_cases h.toConsistent now key
  rw [hget] at hget'
  cases hget'
  refine ⟨h.toConsistent.of_view hview, h.contents, ?_, ?_⟩
  · intro k b hb
    rw [hview.valueOf] at hb
    exact h.last k b hb
  · intro k hk
    rw [hview.valueOf]
    exact h.sure k hk

theorem Refines.purge {s : DiskCache × PlainMap} (hlib : lib.Lawful)
    (h : Refines lib contents s) {listing : Listing} (hlisting : listing.Lawful)
    {keys : List String} {c : DiskCache} (hpurge : s.1.purge lib listing = .ok (keys, c)) :
    Refines lib contents (c, s.2.after lib s.1 (.purge listing) (.purged keys)) := by
  obtain ⟨keys', c', hpurge', hpurged⟩ := purge_cases hlib hlisting h.toConsistent
  rw [hpurge] at hpurge'
  cases hpurge'
  refine ⟨hpurged.consistent, h.contents, ?_, ?_⟩
  · intro k b hb
    rw [hpurged.valueOf] at hb
    split at hb
    · cases hb
    · exact h.last k b hb
  · intro k hk
    change (s.2.sure k && !decide (k ∈ keys)) = true at hk
    rw [Bool.and_eq_true, Bool.not_eq_true', decide_eq_false_iff_not] at hk
    rw [hpurged.valueOf, if_neg hk.2]
    exact h.sure k hk.1

/-- Altering a file changes nothing for a key whose file is another one. -/
theorem valueOf_alter {c : DiskCache} {path : FilePath} (file : File) {key : String}
    (hkey : c.tryGetPathOfKey lib key ≠ .ok (some path)) :
    (c.writeFile path file).valueOf lib key = c.valueOf lib key := by
  unfold valueOf
  rw [(sameLayout_writeFile path file).tryGetPathOfKey]
  split
  · next p hp =>
      have hne : p ≠ path := by
        rintro rfl
        exact hkey hp
      rw [contentAt_writeFile, if_neg hne]
      rfl
  · rfl

/-- An altered file that passes the check has the bytes that were put last, as no others have
their checksum. -/
theorem Refines.alter {s : DiskCache × PlainMap} (hlib : lib.Lawful)
    (hfree : Set.InjOn lib.blake3 contents) (h : Refines lib contents s) {path : FilePath}
    {file : File} (hvalid : Valid contents s.1 (.alter path file))
    (hunforged : Unforged lib s (.alter path file)) :
    Refines lib contents (s.1.writeFile path file,
      s.2.after lib s.1 (.alter path file) .done) := by
  refine ⟨h.toConsistent.of_alter path file, h.contents, ?_, ?_⟩
  · intro key bytes hbytes
    by_cases hkey : s.1.tryGetPathOfKey lib key = .ok (some path)
    · have hverify : verifyEntryAndCutHeader lib file.content = some bytes := by
        unfold valueOf at hbytes
        rw [(sameLayout_writeFile path file).tryGetPathOfKey, hkey] at hbytes
        simp only [contentAt_writeFile, if_true, Option.bind_some] at hbytes
        split at hbytes
        · exact hbytes
        · cases hbytes
      obtain ⟨last, hlast, hchecksum⟩ := hunforged key bytes hkey hverify
      obtain ⟨hbody, htake⟩ := take_of_verify hverify
      have hblake : lib.blake3 bytes = lib.blake3 last :=
        Vector.toList_inj.mp (htake.symm.trans hchecksum)
      have hmem : bytes ∈ contents := hbody ▸ hvalid.2
      rw [hfree hmem (h.contents key last hlast) hblake]
      exact hlast
    · rw [valueOf_alter file hkey] at hbytes
      exact h.last key bytes hbytes
  · intro key hsure
    change (s.2.sure key && getKeyFromPath lib path != some key) = true at hsure
    rw [Bool.and_eq_true, bne_iff_ne] at hsure
    have hkey : s.1.tryGetPathOfKey lib key ≠ .ok (some path) :=
      fun hpath => hsure.2 (getKeyFromPath_of_path hlib hpath)
    rw [valueOf_alter file hkey]
    exact h.sure key hsure.1

theorem Refines.step (hlib : lib.Lawful) (hfree : Set.InjOn lib.blake3 contents)
    {s t : DiskCache × PlainMap} {op : Operation} (h : Refines lib contents s)
    (hstep : Guarded (Step lib contents) (Unforged lib) s op t) : Refines lib contents t := by
  obtain ⟨⟨hvalid, response, hperform, hafter⟩, hunforged⟩ := hstep
  obtain ⟨c', m'⟩ := t
  dsimp only at hperform hafter
  subst hafter
  cases op with
  | put now opened reserved key bytes =>
      obtain ⟨c, hput, hdone⟩ := bind_eq_ok.mp hperform
      cases hdone
      exact h.put hlib hvalid.1 hvalid.2 hput
  | tryGet now key =>
      obtain ⟨⟨value, c⟩, hget, hdone⟩ := bind_eq_ok.mp hperform
      cases hdone
      exact h.tryGet hget
  | purge listing =>
      obtain ⟨⟨keys, c⟩, hpurge, hdone⟩ := bind_eq_ok.mp hperform
      cases hdone
      exact h.purge hlib hvalid hpurge
  | alter path file =>
      cases hperform
      exact h.alter hlib hfree hvalid hunforged

/-- No operation fails a check. -/
theorem perform_ok (hlib : lib.Lawful) {c : DiskCache} (h : Consistent lib c) {op : Operation}
    (hvalid : Valid contents c op) :
    ∃ response c', perform lib c op = .ok (response, c') := by
  cases op with
  | put now opened reserved key bytes =>
      obtain ⟨c', hput, -⟩ := put_cases h.toLaid hvalid.1 now reserved key bytes
      exact ⟨.done, c', by rw [perform, hput]; rfl⟩
  | tryGet now key =>
      obtain ⟨c', hget, -⟩ := tryGet_cases h now key
      exact ⟨.value _, c', by rw [perform, hget]; rfl⟩
  | purge listing =>
      obtain ⟨keys, c', hpurge, -⟩ := purge_cases hlib hvalid h
      exact ⟨.purged keys, c', by rw [perform, hpurge]; rfl⟩
  | alter path file => exact ⟨.done, _, rfl⟩

/-- An operation changes nothing for the keys it is not about. -/
theorem valueOf_perform (hlib : lib.Lawful) {c c' : DiskCache} (h : Consistent lib c)
    {op : Operation} {response : Response} (hvalid : Valid contents c op)
    (hperform : perform lib c op = .ok (response, c')) {key : String}
    (hkey : ¬ op.Concerns lib key) : c'.valueOf lib key = c.valueOf lib key := by
  cases op with
  | put now opened reserved key' bytes =>
      obtain ⟨c₁, hput, hdone⟩ := bind_eq_ok.mp hperform
      cases hdone
      obtain ⟨c₂, hput', hcases⟩ := put_cases h.toLaid hvalid.1 now reserved key' bytes
      rw [hput] at hput'
      cases hput'
      rcases hcases with ⟨-, rfl⟩ | ⟨path, hpath, heffect⟩
      · rfl
      · exact heffect.valueOf_ne hlib hpath hkey
  | tryGet now key' =>
      obtain ⟨⟨value, c₁⟩, hget, hdone⟩ := bind_eq_ok.mp hperform
      cases hdone
      obtain ⟨c₂, hget', hview⟩ := tryGet_cases h now key'
      rw [hget] at hget'
      cases hget'
      exact hview.valueOf key
  | purge listing => exact absurd trivial hkey
  | alter path file =>
      cases hperform
      exact valueOf_alter file fun hpath => hkey (getKeyFromPath_of_path hlib hpath)

theorem Consistent.of_perform (hlib : lib.Lawful) {c c' : DiskCache} (h : Consistent lib c)
    {op : Operation} {response : Response} (hvalid : Valid contents c op)
    (hperform : perform lib c op = .ok (response, c')) : Consistent lib c' := by
  cases op with
  | put now opened reserved key bytes =>
      obtain ⟨c₁, hput, hdone⟩ := bind_eq_ok.mp hperform
      cases hdone
      obtain ⟨c₂, hput', hcases⟩ := put_cases h.toLaid hvalid.1 now reserved key bytes
      rw [hput] at hput'
      cases hput'
      rcases hcases with ⟨-, rfl⟩ | ⟨path, hpath, heffect⟩
      · exact h
      · exact heffect.consistent hlib h hpath
  | tryGet now key =>
      obtain ⟨⟨value, c₁⟩, hget, hdone⟩ := bind_eq_ok.mp hperform
      cases hdone
      obtain ⟨c₂, hget', hview⟩ := tryGet_cases h now key
      rw [hget] at hget'
      cases hget'
      exact h.of_view hview
  | purge listing =>
      obtain ⟨⟨keys, c₁⟩, hpurge, hdone⟩ := bind_eq_ok.mp hperform
      cases hdone
      obtain ⟨keys', c₂, hpurge', hpurged⟩ := purge_cases hlib hvalid h
      rw [hpurge] at hpurge'
      cases hpurge'
      exact hpurged.consistent
  | alter path file =>
      cases hperform
      exact h.of_alter path file

/-- From a cache that was opened, however it is used as long as its puts can open their files,
and whatever happens to these: no operation fails a check; a lookup returns nothing or what was
put last, and it returns that where it is sure to be there; and no operation changes what is
returned for a key that it is not about. -/
theorem refines_of_run (hlib : lib.Lawful) (hfree : Set.InjOn lib.blake3 contents)
    {action : ActionOnMisplacedEntry} {device : String → ℕ} {listing : Listing}
    (hlisting : listing.Lawful) {options : DiskOptions} (husable : options.Usable)
    {files : UnorderedMap FilePath File} (hfiles : Canonical lib files) {c : DiskCache}
    (hnew : new lib action device listing options files = .ok c)
    (hcontents : ∀ key bytes, c.valueOf lib key = some bytes → bytes ∈ contents)
    {ops : List Operation} {s : DiskCache × PlainMap}
    (run : Run (Guarded (Step lib contents) (Unforged lib)) (c, c.toPlainMap lib) ops s) :
    (∀ op, Valid contents s.1 op → ∃ response c', perform lib s.1 op = .ok (response, c')) ∧
    (∀ now key, ∃ value c', s.1.tryGet lib now key = .ok (value, c') ∧
      (value = none ∨ value = s.2.last key) ∧
      (s.2.sure key = true → value = s.2.last key ∧ value.isSome)) ∧
    (∀ op t now key, Step lib contents s op t → ¬ op.Concerns lib key →
      (t.1.tryGet lib now key).map Prod.fst = (s.1.tryGet lib now key).map Prod.fst) := by
  have hopened := opened_of_new hlib hlisting husable hfiles hnew
  have h : Refines lib contents s :=
    run.invariant (fun _ _ _ hs hstep => hs.step hlib hfree hstep)
      (refines_toPlainMap hopened.toConsistent hcontents)
  refine ⟨fun op hvalid => perform_ok hlib h.toConsistent hvalid, ?_, ?_⟩
  · intro now key
    obtain ⟨c', hget, -⟩ := tryGet_cases h.toConsistent now key
    refine ⟨s.1.valueOf lib key, c', hget, ?_, ?_⟩
    · cases hvalue : s.1.valueOf lib key with
      | none => exact .inl rfl
      | some bytes => exact .inr (h.last key bytes hvalue).symm
    · intro hsure
      have hthere := h.sure key hsure
      obtain ⟨bytes, hbytes⟩ := Option.isSome_iff_exists.mp hthere
      exact ⟨by rw [hbytes, h.last key bytes hbytes], hthere⟩
  · rintro op ⟨c', m'⟩ now key ⟨hvalid, response, hperform, -⟩ hkey
    have hsame := valueOf_perform hlib h.toConsistent hvalid hperform hkey
    have hconsistent := h.toConsistent.of_perform hlib hvalid hperform
    obtain ⟨c₁, hget, -⟩ := tryGet_cases h.toConsistent now key
    obtain ⟨c₂, hget', -⟩ := tryGet_cases hconsistent now key
    rw [hget, hget', hsame]
    rfl

end Refinement

/-! ## Samples -/

def sampleContents : Set Bytes := {[], [1], [2]}

theorem injOn_sampleContents : Set.InjOn sampleLibrary.blake3 sampleContents := by
  rintro a (rfl | rfl | rfl) b (rfl | rfl | rfl) h
  all_goals first | rfl | exact absurd h (by decide)

/-- Where the sample has the key `k`. -/
def samplePath : FilePath := ⟨⟨"a", [0]⟩, "k"⟩

/-- The file that a put of one byte leaves. -/
def sampleFile (byte : UInt8) : File :=
  ⟨writeFileHeader sampleLibrary (Vector.replicate 32 0) [byte] ++ [byte], 0⟩

def samplePut (byte : UInt8) : Operation :=
  .put 1 (some 3) (Vector.replicate 32 0) "k" [byte]

/-- The state after an operation. -/
def performed (s : DiskCache × PlainMap) (op : Operation) : DiskCache × PlainMap :=
  match perform sampleLibrary s.1 op with
  | .ok (response, c) => (c, s.2.after sampleLibrary s.1 op response)
  | .error _ => s

theorem step_performed {s : DiskCache × PlainMap} {op : Operation}
    (hvalid : Valid sampleContents s.1 op) (hok : (perform sampleLibrary s.1 op).isOk = true) :
    Step sampleLibrary sampleContents s op (performed s op) := by
  refine ⟨hvalid, ?_⟩
  unfold performed
  cases hperform : perform sampleLibrary s.1 op with
  | error e =>
      rw [hperform] at hok
      cases hok
  | ok result => exact ⟨result.1, rfl, rfl⟩

/-- The sample after a put. -/
def samplePlain : DiskCache × PlainMap :=
  performed (sampleCache, sampleCache.toPlainMap sampleLibrary) (samplePut 1)

theorem step_samplePut : Step sampleLibrary sampleContents
    (sampleCache, sampleCache.toPlainMap sampleLibrary) (samplePut 1) samplePlain :=
  step_performed ⟨rfl, .inr (.inl rfl)⟩ rfl

theorem valueOf_sampleCache (key : String) : sampleCache.valueOf sampleLibrary key = none := by
  unfold valueOf
  split
  · next path _ =>
      have hnone : sampleCache.contentAt path = none := rfl
      rw [hnone]
      exact ite_self none
  · rfl

/-- The file of the key loses its last byte. -/
theorem refines_of_run_truncated : ∃ s : DiskCache × PlainMap,
    s.2.last "k" = some [1] ∧ (∀ op, Valid sampleContents s.1 op →
      ∃ response c', perform sampleLibrary s.1 op = .ok (response, c')) := by
  have htruncate : Step sampleLibrary sampleContents samplePlain
      (.alter samplePath ⟨(sampleFile 1).content.dropLast, 2⟩) _ :=
    step_performed ⟨rfl, .inl rfl⟩ rfl
  have hunforged : Unforged sampleLibrary samplePlain
      (.alter samplePath ⟨(sampleFile 1).content.dropLast, 2⟩) := by
    intro key bytes _ hverify
    have hnone : verifyEntryAndCutHeader sampleLibrary (sampleFile 1).content.dropLast = none := by
      decide +kernel
    rw [hnone] at hverify
    cases hverify
  exact ⟨_, rfl, (refines_of_run lawful_sampleLibrary injOn_sampleContents
    ⟨fun _ => .refl _⟩ usable_sampleOptions canonical_empty
    (new_sampleCache .delete fun _ => 0)
    (fun key bytes h => by rw [valueOf_sampleCache] at h; cases h)
    (.cons ⟨step_samplePut, trivial⟩ (.cons ⟨htruncate, hunforged⟩ (.nil _)))).1⟩

/-- A file may be overwritten with an older file of the same key, whose checksum is right; and
without levels of directories, there is no place for any key. -/
theorem tryGet_overwritten :
    sampleLibrary.Lawful ∧ Set.InjOn sampleLibrary.blake3 sampleContents ∧
    (∃ c ops s c', new sampleLibrary .delete (fun _ => 0) id sampleOptions ∅ = .ok c ∧
      Run (Step sampleLibrary sampleContents) (c, c.toPlainMap sampleLibrary) ops s ∧
      s.1.tryGet sampleLibrary 9 "k" = .ok (some [1], c') ∧ s.2.last "k" = some [2]) ∧
    (∃ c, new sampleLibrary .delete (fun _ => 0) id { sampleOptions with subDirLevel := 0 } ∅ =
      .ok c ∧ perform sampleLibrary c (samplePut 1) = .error .noSuchDirectory) := by
  have hput : Step sampleLibrary sampleContents samplePlain (samplePut 2)
      (performed samplePlain (samplePut 2)) :=
    step_performed ⟨rfl, .inr (.inr rfl)⟩ rfl
  have halter : Step sampleLibrary sampleContents (performed samplePlain (samplePut 2))
      (.alter samplePath (sampleFile 1)) _ :=
    step_performed ⟨rfl, .inr (.inl rfl)⟩ rfl
  refine ⟨lawful_sampleLibrary, injOn_sampleContents, ?_, ?_⟩
  · exact ⟨sampleCache, _, _, _, new_sampleCache .delete fun _ => 0,
      .cons step_samplePut (.cons hput (.cons halter (.nil _))), rfl, rfl⟩
  · refine ⟨⟨{ sampleOptions with subDirLevel := 0 }, sampleRing "a", ∅, ∅⟩, ?_, rfl⟩
    have hring : ConsistentHash.new sampleLibrary.sort sampleLibrary.xxHash
        (getWeightedDirs sampleOptions.shards) = some (sampleRing "a") := new_sampleRing
    rw [new, initializeCacheDirs, hring]
    rfl

end DiskCache

end Yadcc
