/-
# What a purge of a shard deletes

The files of a shard are removed from the least recently used on, together with their keys,
until what is left is below the threshold. What is removed is a prefix of the files in the
order of their last use, the shortest one that is enough; the index follows the files; and a
second purge finds nothing to do. Sizes are added up in 64 bits and compared with the threshold
in doubles, and times are counted in 64 bits of nanoseconds. For limits below 384 TiB, sizes that
add up, and times up to the year 2262, this is exact; beyond that it is not.
-/

import Yadcc.Common.DiskCacheLoad
import Yadcc.Lib.Double

namespace Yadcc

open Yadcc.Lib

/-! ## The threshold -/

/-- Nineteen twentieths of a limit. -/
def Below (limit used : ℕ) : Prop := 20 * used < 19 * limit

namespace DiskCache

/-- The constant is a bit less than nineteen twentieths. -/
theorem hasValue_kDiscardThreshold : HasValue kDiscardThreshold (19 / 20 - 1 / (5 * 2 ^ 52)) := by
  have hbits : kDiscardThreshold =
      .ofModel (.pack (.finite .positive 8556839292003942 (-53) (by decide))) := by
    decide +kernel
  have hnormal : IsNormal 8556839292003942 (-53) :=
    ⟨by norm_num, by norm_num, by norm_num, by norm_num⟩
  have hvalue : (19 / 20 - 1 / (5 * 2 ^ 52) : ℚ) = (8556839292003942 : ℕ) * 2 ^ (-53 : ℤ) := by
    norm_num
  have hunpack := unpack_pack (by decide) hnormal
  rw [hvalue]
  exact .normal (by rw [hbits]; exact hunpack) hnormal

/-- For a limit that is not too large, the product with the constant is off by a 32nd at most,
and it is not rounded beyond a natural number. -/
theorem hasValue_threshold {limit : UInt64} (hlimit : limit.toNat < 3 * 2 ^ 47) :
    ∃ r, HasValue (limit.toFloat * kDiscardThreshold) r ∧
      limit.toNat * (19 / 20 - 1 / (5 * 2 ^ 52)) ≤ r + 1 / 32 ∧
      ∀ s : ℕ, limit.toNat * (19 / 20 - 1 / (5 * 2 ^ 52)) ≤ (s : ℚ) → r ≤ s := by
  have hlimit' : (limit.toNat : ℚ) < 3 * 2 ^ 47 := by exact_mod_cast hlimit
  have hupper : (limit.toNat : ℚ) * (19 / 20 - 1 / (5 * 2 ^ 52)) < 2 ^ (-3 + 52 : ℤ) := by
    norm_num1
    linarith
  have hrange : (2 : ℚ) ^ (-3 + 52 : ℤ) ≤ 2 ^ (1022 : ℤ) :=
    zpow_le_zpow_right₀ one_le_two (by norm_num)
  have hleast : (limit.toNat : ℚ) * (19 / 20 - 1 / (5 * 2 ^ 52)) ≠ 0 →
      (2 : ℚ) ^ (-1022 : ℤ) ≤ limit.toNat * (19 / 20 - 1 / (5 * 2 ^ 52)) := by
    intro hne
    have hpos : 1 ≤ limit.toNat := Nat.one_le_iff_ne_zero.mpr fun hzero => by simp [hzero] at hne
    have hone : (1 : ℚ) ≤ limit.toNat := by exact_mod_cast hpos
    calc
      (2 : ℚ) ^ (-1022 : ℤ) ≤ 2 ^ (-1 : ℤ) := zpow_le_zpow_right₀ one_le_two (by norm_num)
      _ ≤ limit.toNat * (19 / 20 - 1 / (5 * 2 ^ 52)) := by
        norm_num1
        linarith
  obtain ⟨r, hr, hnearest⟩ := (hasValue_toFloat_small (by omega)).mul hasValue_kDiscardThreshold
    hleast (hupper.trans_le hrange)
  refine ⟨r, hr, ?_⟩
  rcases hnearest with ⟨hzero, rfl⟩ | ⟨unit, hrounds⟩
  · rw [hzero]
    exact ⟨by norm_num, fun s _ => Nat.cast_nonneg s⟩
  · have hunit := hrounds.unit_lt hupper
    constructor
    · have hnear := hrounds.notBelow
      have hsmall : (2 : ℚ) ^ unit ≤ 2 ^ (-4 : ℤ) := zpow_le_zpow_right₀ one_le_two (by omega)
      norm_num1 at hsmall
      linarith
    · intro s hs
      refine hrounds.le_multiple ?_ hs
      simpa using exists_multiple (by omega : unit ≤ 0) s

/-- For a limit that is not too large, the comparison is exact. -/
theorem belowThreshold_iff {limit : UInt64} (hlimit : limit.toNat < 3 * 2 ^ 47) (used : UInt64) :
    belowThreshold used limit = true ↔ Below limit.toNat used.toNat := by
  have hlimit' : (limit.toNat : ℚ) < 3 * 2 ^ 47 := by exact_mod_cast hlimit
  obtain ⟨r, hr, hnear, hkept⟩ := hasValue_threshold hlimit
  rw [belowThreshold, decide_eq_true_iff]
  rcases Nat.lt_or_ge used.toNat (2 ^ 53) with hused | hused
  · rw [(hasValue_toFloat_small hused).lt_iff hr]
    constructor
    · intro hlt
      have hnot := mt (hkept used.toNat) (not_le.mpr hlt)
      rw [not_le] at hnot
      have hbelow : (20 * used.toNat : ℚ) < 19 * limit.toNat := by
        norm_num1 at hnot
        linarith
      exact_mod_cast hbelow
    · intro hbelow
      have hone : (20 * used.toNat + 1 : ℚ) ≤ 19 * limit.toNat := by exact_mod_cast hbelow
      norm_num1 at hnear hlimit'
      linarith
  · obtain ⟨u, hu, hlarge⟩ := hasValue_toFloat_large hused
    rw [hu.lt_iff hr, Below]
    have hrlarge : r ≤ 2 ^ 53 := by
      have hle := hkept (2 ^ 53) (by
        push_cast
        norm_num1 at hlimit' ⊢
        linarith)
      exact_mod_cast hle
    exact iff_of_false (by linarith) (by omega)
end DiskCache

/-! ## The shortest part that is enough -/

def usedBytes (files : List FileInfo) : ℕ := (files.map FileInfo.size).sum

/-- `deleted` is the shortest part to remove from the front of `deleted ++ kept`: the bytes of
the rest are few enough, or there is no rest, and with less removed they are not. -/
structure Shortest (fits : ℕ → Prop) (deleted kept : List FileInfo) : Prop where
  enough : kept = [] ∨ fits (usedBytes kept)
  least : ∀ first rest, first ++ rest = deleted ++ kept → first.length < deleted.length →
    ¬ fits (usedBytes rest)

section Shortest

variable {fits : ℕ → Prop} {deleted kept : List FileInfo}

theorem shortest_nil (h : kept = [] ∨ fits (usedBytes kept)) : Shortest fits [] kept :=
  ⟨h, fun _ _ _ hlt => absurd hlt (Nat.not_lt_zero _)⟩

theorem Shortest.cons {e : FileInfo} (h : Shortest fits deleted kept)
    (hover : ¬ fits (usedBytes (e :: (deleted ++ kept)))) : Shortest fits (e :: deleted) kept := by
  refine ⟨h.enough, fun first rest hsplit hlt => ?_⟩
  cases first with
  | nil =>
      rw [List.nil_append, List.cons_append] at hsplit
      rw [hsplit]
      exact hover
  | cons e' first =>
      rw [List.cons_append, List.cons_append, List.cons.injEq] at hsplit
      exact h.least first rest hsplit.2 (by simpa using hlt)

theorem usedBytes_append (files files' : List FileInfo) :
    usedBytes (files ++ files') = usedBytes files + usedBytes files' := by
  rw [usedBytes, List.map_append, List.sum_append]
  rfl

/-- Only what can be left of the files matters. -/
theorem Shortest.congr {fits' : ℕ → Prop} (h : Shortest fits deleted kept)
    (hiff : ∀ used ≤ usedBytes (deleted ++ kept), fits used ↔ fits' used) :
    Shortest fits' deleted kept where
  enough := by
    rw [← hiff _ (by rw [usedBytes_append]; exact Nat.le_add_left _ _)]
    exact h.enough
  least first rest hsplit hlt := by
    rw [← hiff _ (by rw [← hsplit, usedBytes_append]; exact Nat.le_add_left _ _)]
    exact h.least first rest hsplit hlt

end Shortest

namespace DiskCache

variable {lib : DiskLibrary} {c c' : DiskCache}

/-! ## One file -/

theorem purgeFile_files {path : FilePath} {purged : List String}
    (h : c.purgeFile lib path = .ok (purged, c')) : c'.files = c.files.erase path := by
  have hunlink : ∀ {c₁ : DiskCache}, c.unlink path = .ok c₁ → c₁.files = c.files.erase path := by
    intro c₁ hunlink
    unfold unlink at hunlink
    split at hunlink
    · cases hunlink
    · cases hunlink
      rfl
  unfold purgeFile at h
  split at h
  · obtain ⟨c₁, hc₁, h⟩ := bind_eq_ok.mp h
    have hfiles := hunlink hc₁
    split at h
    · cases h
      exact hfiles
    · cases h
      exact hfiles
  · obtain ⟨c₁, hc₁, h⟩ := bind_eq_ok.mp h
    cases h
    exact hunlink hc₁

/-- No two names in one directory are those of the same key. -/
def DistinctKeys (lib : DiskLibrary) (files : List FileInfo) : Prop :=
  ∀ e ∈ files, ∀ e' ∈ files, ∀ key, e.path.dir = e'.path.dir →
    getKeyFromPath lib e.path = some key → getKeyFromPath lib e'.path = some key →
    e.path = e'.path

/-- What is left after files were removed together with their keys. -/
structure Deleted (lib : DiskLibrary) (deleted : List FileInfo) (c c' : DiskCache) : Prop where
  options : c'.options = c.options
  files : ∀ path, c'.files.lookup path =
    if path ∈ deleted.map FileInfo.path then none else c.files.lookup path
  indexed : ∀ dir key, c'.indexed dir key = true ↔ c.indexed dir key = true ∧
    ∀ e ∈ deleted, e.path.dir = dir → getKeyFromPath lib e.path ≠ some key

theorem Deleted.refl (lib : DiskLibrary) (c : DiskCache) : Deleted lib [] c c := by
  refine ⟨rfl, fun _ => rfl, fun dir key => ?_⟩
  simp

theorem Deleted.cons {e : FileInfo} {deleted : List FileInfo} {c₁ : DiskCache}
    (hfiles : c₁.files = c.files.erase e.path) (heffect : PurgeEffect lib e.path c c₁)
    (h : Deleted lib deleted c₁ c') : Deleted lib (e :: deleted) c c' := by
  refine ⟨h.options.trans heffect.options, fun path => ?_, fun dir key => ?_⟩
  · rw [h.files, hfiles, AList.lookup_erase_eq, List.map_cons]
    by_cases hmem : path ∈ deleted.map FileInfo.path
    · rw [if_pos hmem, if_pos (List.mem_cons_of_mem _ hmem)]
    · by_cases heq : path = e.path
      · rw [if_neg hmem, if_pos heq, if_pos (heq ▸ List.mem_cons_self)]
      · rw [if_neg hmem, if_neg heq, if_neg (List.not_mem_cons_of_ne_of_not_mem heq hmem)]
  · rw [h.indexed, heffect.indexed]
    have hfirst : (if dir = e.path.dir ∧ key ∈ c.purgedKeys lib e.path then false
        else c.indexed dir key) = true ↔ c.indexed dir key = true ∧
          (e.path.dir = dir → getKeyFromPath lib e.path ≠ some key) := by
      simp only [mem_purgedKeys]
      by_cases hdir : dir = e.path.dir
      · subst hdir
        by_cases hkey : getKeyFromPath lib e.path = some key
        · simp [hkey]
        · simp [hkey]
      · rw [if_neg fun hat => hdir hat.1]
        simp [Ne.symm hdir]
    rw [hfirst, and_assoc, List.forall_mem_cons]

/-! ## The loop -/

/-- The sum of the sizes is below the threshold, as the source computes it. -/
def FitsBelow (limit : UInt64) (used : ℕ) : Prop := belowThreshold (.ofNat used) limit = true

theorem totalUsed_eq (files : List FileInfo) : totalUsed files = .ofNat (usedBytes files) := by
  suffices hfold : ∀ used : UInt64,
      files.foldl (fun totalUsed e => totalUsed + .ofNat e.size) used =
        used + .ofNat (usedBytes files) by
    rw [totalUsed, hfold, UInt64.zero_add]
  induction files with
  | nil => exact fun used => (UInt64.add_zero used).symm
  | cons e files ih =>
      intro used
      rw [List.foldl_cons, ih, UInt64.add_assoc, ← UInt64.ofNat_add]
      rfl

/-- The loop removes the shortest prefix that is enough, and reports the keys that go with it. -/
theorem purgeLoop_shortest (limit : UInt64) {files : List FileInfo}
    (hnodup : (files.map FileInfo.path).Nodup)
    (hthere : ∀ e ∈ files, (c.files.lookup e.path).isSome) (hdistinct : DistinctKeys lib files) :
    ∃ deleted kept c', files = deleted ++ kept ∧ Shortest (FitsBelow limit) deleted kept ∧
      Deleted lib deleted c c' ∧ purgeLoop lib limit files (.ofNat (usedBytes files)) c
        = .ok (deleted.flatMap fun e => c.purgedKeys lib e.path, c') := by
  induction files generalizing c with
  | nil => exact ⟨[], [], c, rfl, shortest_nil (.inl rfl), .refl lib c, rfl⟩
  | cons e files ih =>
      unfold purgeLoop
      by_cases hbelow : belowThreshold (.ofNat (usedBytes (e :: files))) limit = true
      · refine ⟨[], e :: files, c, rfl, shortest_nil (.inr hbelow), .refl lib c, ?_⟩
        rw [if_pos hbelow]
        rfl
      · obtain ⟨hnotin, hrest⟩ := List.nodup_cons.mp hnodup
        have hhere := hthere e List.mem_cons_self
        obtain ⟨content, hcontent⟩ : ∃ content, c.contentAt e.path = some content := by
          obtain ⟨file, hfile⟩ := Option.isSome_iff_exists.mp hhere
          exact ⟨file.content, by rw [contentAt, hfile]; rfl⟩
        obtain ⟨c₁, hfile, heffect⟩ := @purgeFile_cases lib c e.path content hcontent
        have hfiles := purgeFile_files hfile
        have hne : ∀ e' ∈ files, e'.path ≠ e.path := fun e' he' heq =>
          hnotin (heq ▸ List.mem_map_of_mem he')
        have hkeep : ∀ e' ∈ files, (c₁.files.lookup e'.path).isSome := by
          intro e' he'
          rw [hfiles, AList.lookup_erase_ne (hne e' he')]
          exact hthere e' (List.mem_cons_of_mem e he')
        have hdistinct' : DistinctKeys lib files := fun e₁ h₁ e₂ h₂ =>
          hdistinct e₁ (List.mem_cons_of_mem e h₁) e₂ (List.mem_cons_of_mem e h₂)
        -- the keys of the other files are indexed as before
        have hsame : ∀ e' ∈ files, c₁.purgedKeys lib e'.path = c.purgedKeys lib e'.path := by
          intro e' he'
          unfold purgedKeys
          cases hkey : getKeyFromPath lib e'.path with
          | none => rfl
          | some key =>
              have hkept : c₁.indexed e'.path.dir key = c.indexed e'.path.dir key := by
                rw [heffect.indexed, if_neg]
                rintro ⟨hdir, hmem⟩
                exact hne e' he' (hdistinct e' (List.mem_cons_of_mem e he') e List.mem_cons_self
                  key hdir hkey (mem_purgedKeys.mp hmem).1)
              dsimp only
              rw [hkept]
        obtain ⟨deleted, kept, c₂, rfl, hshortest, hdeleted, hloop⟩ := ih hrest hkeep hdistinct'
        refine ⟨e :: deleted, kept, c₂, rfl, hshortest.cons hbelow,
          hdeleted.cons hfiles heffect, ?_⟩
        have hused : UInt64.ofNat (usedBytes (e :: (deleted ++ kept))) - .ofNat e.size =
            .ofNat (usedBytes (deleted ++ kept)) := by
          have hsum : usedBytes (e :: (deleted ++ kept)) =
              e.size + usedBytes (deleted ++ kept) := rfl
          rw [hsum, UInt64.ofNat_add, UInt64.add_comm, UInt64.add_sub_cancel]
        have hkeys : (deleted.flatMap fun e => c₁.purgedKeys lib e.path)
            = deleted.flatMap fun e => c.purgedKeys lib e.path :=
          List.flatMap_congr fun e' he' => hsame e' (List.mem_append_left _ he')
        rw [if_neg hbelow, hfile, ok_bind, hused]
        dsimp only
        rw [hloop, ok_bind, hkeys]
        rfl

/-! ## A purge -/

theorem usedBytes_perm {files files' : List FileInfo} (h : files.Perm files') :
    usedBytes files = usedBytes files' :=
  (h.map FileInfo.size).sum_eq

theorem fileInfos_sanitizeWorkspace (shard : String) {e : FileInfo}
    (h : e ∈ fileInfos shard (c.sanitizeWorkspace shard).files) :
    e ∈ fileInfos shard c.files ∧ e.path.dir.subdirs.length = c.options.subDirLevel := by
  obtain ⟨file, hfile, hshard, hsize, hused⟩ := mem_fileInfos.mp h
  rw [sanitizeWorkspace, AList.lookup_filterEntries] at hfile
  obtain ⟨hfile, hlevel⟩ := Option.filter_eq_some_iff.mp hfile
  exact ⟨mem_fileInfos.mpr ⟨file, hfile, hshard, hsize, hused⟩, of_decide_eq_true hlevel hshard⟩

/-- The files that are left of a shard. -/
theorem Deleted.fileInfos_perm {deleted kept : List FileInfo} {shard : String}
    (h : Deleted lib deleted c c') (hperm : (deleted ++ kept).Perm (fileInfos shard c.files)) :
    kept.Perm (fileInfos shard c'.files) := by
  have hnodup : ((deleted ++ kept).map FileInfo.path).Nodup :=
    (hperm.map FileInfo.path).nodup_iff.mpr (nodup_fileInfos shard c.files)
  rw [List.map_append] at hnodup
  obtain ⟨-, hkept, hdisjoint⟩ := List.nodup_append.mp hnodup
  refine (List.perm_ext_iff_of_nodup hkept.of_map (nodup_fileInfos shard c'.files).of_map).mpr
    fun e => ?_
  have hmem : e ∈ deleted ++ kept ↔ e ∈ fileInfos shard c.files := hperm.mem_iff
  rw [mem_fileInfos] at hmem ⊢
  rw [h.files]
  constructor
  · intro he
    have hnot : e.path ∉ deleted.map FileInfo.path := fun hin =>
      hdisjoint e.path hin e.path (List.mem_map_of_mem he) rfl
    rw [if_neg hnot]
    exact hmem.mp (List.mem_append_right _ he)
  · rintro ⟨file, hfile, hrest⟩
    split at hfile
    · cases hfile
    · next hnot =>
        rcases List.mem_append.mp (hmem.mpr ⟨file, hfile, hrest⟩) with hin | hin
        · exact absurd (List.mem_map_of_mem hin) hnot
        · exact hin

/-- If the files are few enough, nothing is removed. -/
theorem purgeCacheAt_of_enough (hlib : lib.Lawful) {listing : Listing} (hlisting : listing.Lawful)
    {shard : String} {limit : UInt64} {kept : List FileInfo}
    (hsanitized : c.sanitizeWorkspace shard = c) (hperm : kept.Perm (fileInfos shard c.files))
    (henough : kept = [] ∨ FitsBelow limit (usedBytes kept)) :
    c.purgeCacheAt lib listing shard limit = .ok ([], c) := by
  have hfiles : (lib.sortFiles (listing (fileInfos shard c.files))).Perm kept :=
    ((hlib.filesPerm _).trans (hlisting.perm _)).trans hperm.symm
  unfold purgeCacheAt enumerateCacheEntries
  simp only [hsanitized, totalUsed_eq]
  rw [usedBytes_perm hfiles]
  cases hsorted : lib.sortFiles (listing (fileInfos shard c.files)) with
  | nil => rfl
  | cons e files =>
      rw [hsorted] at hfiles
      have hbelow : belowThreshold (.ofNat (usedBytes kept)) limit = true := by
        refine henough.resolve_left fun hnil => ?_
        rw [hnil] at hfiles
        exact List.cons_ne_nil _ _ hfiles.eq_nil
      unfold purgeLoop
      rw [if_pos hbelow]

/-- What a purge of a shard leaves: `deleted` and `kept` are its files at the level of the
entries, in the order of their last use. -/
structure PurgedAt (lib : DiskLibrary) (shard : String) (limit : UInt64)
    (deleted kept : List FileInfo) (c c' : DiskCache) : Prop where
  perm : (deleted ++ kept).Perm (fileInfos shard (c.sanitizeWorkspace shard).files)
  sorted : (deleted ++ kept).Pairwise fun x y => x.lastUsed ≤ y.lastUsed
  shortest : Shortest (FitsBelow limit) deleted kept
  effect : Deleted lib deleted (c.sanitizeWorkspace shard) c'

theorem purgeCacheAt_purgedAt (hlib : lib.Lawful) {listing : Listing} (hlisting : listing.Lawful)
    (shard : String) (limit : UInt64) (c : DiskCache)
    (hdistinct : DistinctKeys lib (fileInfos shard c.files)) :
    ∃ deleted kept c', c.purgeCacheAt lib listing shard limit
        = .ok (deleted.flatMap fun e => c.purgedKeys lib e.path, c') ∧
      PurgedAt lib shard limit deleted kept c c' := by
  set c₀ := c.sanitizeWorkspace shard with hc₀
  set files := lib.sortFiles (listing (fileInfos shard c₀.files)) with hfiles
  have hperm : files.Perm (fileInfos shard c₀.files) :=
    (hlib.filesPerm _).trans (hlisting.perm _)
  have hnodup : (files.map FileInfo.path).Nodup :=
    (hperm.map FileInfo.path).nodup_iff.mpr (nodup_fileInfos shard _)
  have hmem : ∀ e ∈ files, e ∈ fileInfos shard c₀.files := fun e he => hperm.mem_iff.mp he
  have hthere : ∀ e ∈ files, (c₀.files.lookup e.path).isSome := by
    intro e he
    obtain ⟨file, hfile, -⟩ := mem_fileInfos.mp (hmem e he)
    rw [hfile]
    rfl
  have hdistinct₀ : DistinctKeys lib files := fun e he e' he' =>
    hdistinct e (fileInfos_sanitizeWorkspace shard (hmem e he)).1 e'
      (fileInfos_sanitizeWorkspace shard (hmem e' he')).1
  obtain ⟨deleted, kept, c', hsplit, hshortest, hdeleted, hloop⟩ :=
    purgeLoop_shortest limit hnodup hthere hdistinct₀
  refine ⟨deleted, kept, c', ?_, hsplit ▸ hperm, hsplit ▸ hlib.filesSorted _, hshortest, hdeleted⟩
  rw [← totalUsed_eq] at hloop
  exact hloop

/-- What is left is at the level of the entries. -/
theorem PurgedAt.sanitizeWorkspace_eq {shard : String} {limit : UInt64}
    {deleted kept : List FileInfo} (h : PurgedAt lib shard limit deleted kept c c') :
    c'.sanitizeWorkspace shard = c' := by
  refine DiskCache.sanitizeWorkspace_eq shard fun path file hfile hshard => ?_
  rw [h.effect.files] at hfile
  split at hfile
  · cases hfile
  · have hinfo : (⟨path, file.content.length, fromTimeT file.modified⟩ : FileInfo)
        ∈ fileInfos shard (c.sanitizeWorkspace shard).files :=
      mem_fileInfos.mpr ⟨file, hfile, hshard, rfl, rfl⟩
    rw [h.effect.options]
    exact (fileInfos_sanitizeWorkspace shard hinfo).2

/-- Seconds that are less than 2⁶³ nanoseconds are counted in these. -/
theorem fromTimeT_eq {t : ℤ} (h : |t * 10 ^ 9| < 2 ^ 63) : fromTimeT t = t * 10 ^ 9 := by
  obtain ⟨hlower, hupper⟩ := abs_lt.mp h
  exact Int.bmod_eq_of_le (by omega) (by omega)

/-- A purge of a shard removes the shortest prefix, in the order of their last use, of the
files at the level of the entries that brings the rest below the threshold, or all of them;
their keys and no others leave the index, and those that were in it are reported. A second
purge removes nothing. If the sizes add up to less than 2⁶⁴ bytes and the limit is less than
384 TiB, the threshold is the exact one; and if a time is less than 2⁶³ nanoseconds from the
epoch, it is the one of the last change. -/
theorem purgeCacheAt_shortest (hlib : lib.Lawful) {listing : Listing} (hlisting : listing.Lawful)
    (shard : String) (limit : UInt64) (c : DiskCache)
    (hdistinct : DistinctKeys lib (fileInfos shard c.files)) :
    ∃ deleted kept c', c.purgeCacheAt lib listing shard limit
        = .ok (deleted.flatMap fun e => c.purgedKeys lib e.path, c') ∧
      (deleted ++ kept).Perm (fileInfos shard (c.sanitizeWorkspace shard).files) ∧
      (deleted ++ kept).Pairwise (fun x y => x.lastUsed ≤ y.lastUsed) ∧
      Shortest (FitsBelow limit) deleted kept ∧
      (∀ e ∈ deleted, ∀ e' ∈ kept, e.lastUsed ≤ e'.lastUsed) ∧
      Deleted lib deleted (c.sanitizeWorkspace shard) c' ∧
      (∀ listing' : Listing, listing'.Lawful →
        c'.purgeCacheAt lib listing' shard limit = .ok ([], c')) ∧
      (usedBytes (deleted ++ kept) < 2 ^ 64 → limit.toNat < 3 * 2 ^ 47 →
        Shortest (Below limit.toNat) deleted kept) ∧
      (∀ e ∈ deleted ++ kept, ∃ file, c.files.lookup e.path = some file ∧
        (|file.modified * 10 ^ 9| < 2 ^ 63 → e.lastUsed = file.modified * 10 ^ 9)) := by
  obtain ⟨deleted, kept, c', hpurge, h⟩ :=
    purgeCacheAt_purgedAt hlib hlisting shard limit c hdistinct
  refine ⟨deleted, kept, c', hpurge, h.perm, h.sorted, h.shortest,
    (List.pairwise_append.mp h.sorted).2.2, h.effect, ?_, ?_, ?_⟩
  · intro listing' hlisting'
    exact purgeCacheAt_of_enough hlib hlisting' h.sanitizeWorkspace_eq
      (h.effect.fileInfos_perm h.perm) h.shortest.enough
  · intro hsizes hlimit
    refine h.shortest.congr fun used hused => ?_
    rw [FitsBelow, belowThreshold_iff hlimit, UInt64.toNat_ofNat_of_lt' (by
      rw [UInt64.size]
      omega)]
  · intro e he
    obtain ⟨file, hfile, -, -, hused⟩ :=
      mem_fileInfos.mp (fileInfos_sanitizeWorkspace shard (h.perm.mem_iff.mp he)).1
    exact ⟨file, hfile, fun htime => hused.trans (fromTimeT_eq htime)⟩

/-- The sample with three files, of which the first is not indexed. -/
def filledCache : DiskCache :=
  { sampleCache with
    entriesPerDir := (∅ : UnorderedMap Directory _).insert ⟨"a", [0]⟩
      (((∅ : UnorderedMap String EntryDesc).insert "old" ⟨10, 2⟩).insert "new" ⟨9, 3⟩)
    files := (((∅ : UnorderedMap FilePath File).insert ⟨⟨"a", [0]⟩, "new"⟩
      ⟨List.replicate 9 0, 3⟩).insert ⟨⟨"a", [0]⟩, "old"⟩ ⟨List.replicate 10 0, 2⟩).insert
        ⟨⟨"a", [0]⟩, "stray"⟩ ⟨List.replicate 5 0, 1⟩ }

theorem distinctKeys_sampleLibrary (files : List FileInfo) : DistinctKeys sampleLibrary files := by
  intro e he e' he' key hdir hkey hkey'
  have hname : e.path.name = e'.path.name := Option.some.inj (hkey.trans hkey'.symm)
  calc
    e.path = ⟨e.path.dir, e.path.name⟩ := rfl
    _ = e'.path := by rw [hdir, hname]

/-- With room for twenty bytes the two older files go, the last one of which is indexed. -/
theorem purgeCacheAt_shortest_sample : ∃ c',
    filledCache.purgeCacheAt sampleLibrary id "a" 20 = .ok (["old"], c') ∧
      c'.purgeCacheAt sampleLibrary id "a" 20 = .ok ([], c') := by
  have hdistinct := distinctKeys_sampleLibrary (fileInfos "a" filledCache.files)
  have hid : Listing.Lawful id := ⟨fun _ => .refl _⟩
  obtain ⟨deleted, kept, c', hpurge, -, -, -, -, -, hagain, -⟩ :=
    purgeCacheAt_shortest lawful_sampleLibrary hid "a" 20 filledCache hdistinct
  have hfirst : (filledCache.purgeCacheAt sampleLibrary id "a" 20).map Prod.fst = .ok ["old"] :=
    rfl
  rw [hpurge] at hfirst
  have hkeys : (deleted.flatMap fun e => filledCache.purgedKeys sampleLibrary e.path) = ["old"] :=
    Except.ok.inj hfirst
  exact ⟨c', hkeys ▸ hpurge, hagain id hid⟩

/-- The sample with a file that is not indexed. -/
def oneFile (size : ℕ) : DiskCache :=
  { sampleCache with
    files := (∅ : UnorderedMap FilePath File).insert ⟨⟨"a", [0]⟩, "k"⟩ ⟨List.replicate size 0, 1⟩ }

theorem fileInfos_oneFile (size : ℕ) :
    fileInfos "a" ((oneFile size).sanitizeWorkspace "a").files =
      [⟨⟨⟨"a", [0]⟩, "k"⟩, size, 10 ^ 9⟩] := by
  have hinfos : fileInfos "a" ((oneFile size).sanitizeWorkspace "a").files =
      [⟨⟨⟨"a", [0]⟩, "k"⟩, (List.replicate size (0 : UInt8)).length, 10 ^ 9⟩] := rfl
  rw [hinfos, List.length_replicate]

/-- The file is below the threshold, but it is not when this is computed in doubles. -/
theorem deleted_of_rounded : ∃ c',
    (oneFile 401101841812699).purgeCacheAt sampleLibrary id "a" 422212465065999 = .ok ([], c') ∧
      c'.files.lookup ⟨⟨"a", [0]⟩, "k"⟩ = none := by
  have hover : belowThreshold 401101841812699 422212465065999 = false := by decide +kernel
  generalize hsize : 401101841812699 = size
  obtain ⟨deleted, kept, c', hpurge, h⟩ := purgeCacheAt_purgedAt lawful_sampleLibrary
    ⟨fun _ => .refl _⟩ "a" 422212465065999 (oneFile size) (distinctKeys_sampleLibrary _)
  have hperm := h.perm
  rw [fileInfos_oneFile, List.perm_singleton, List.append_eq_singleton_iff] at hperm
  rcases hperm with ⟨rfl, rfl⟩ | ⟨rfl, rfl⟩
  · have hbelow := h.shortest.enough.resolve_left (List.cons_ne_nil _ _)
    rw [FitsBelow, ← hsize] at hbelow
    exact absurd hbelow (Bool.eq_false_iff.mp hover)
  · refine ⟨c', hpurge, ?_⟩
    rw [h.effect.files]
    exact if_pos (List.mem_singleton_self _)

/-- The sample with three files that are not indexed, two of which are of one size. -/
def threeFiles (large small : ℕ) : DiskCache :=
  { sampleCache with
    files := (((∅ : UnorderedMap FilePath File).insert ⟨⟨"a", [0]⟩, "k"⟩
      ⟨List.replicate large 0, 1⟩).insert ⟨⟨"a", [0]⟩, "l"⟩ ⟨List.replicate large 0, 2⟩).insert
        ⟨⟨"a", [0]⟩, "m"⟩ ⟨List.replicate small 0, 3⟩ }

theorem sanitizeWorkspace_threeFiles (large small : ℕ) :
    (threeFiles large small).sanitizeWorkspace "a" = threeFiles large small := rfl

theorem usedBytes_threeFiles (large small : ℕ) :
    usedBytes (fileInfos "a" ((threeFiles large small).sanitizeWorkspace "a").files) =
      small + (large + large) := by
  have hused : usedBytes (fileInfos "a" ((threeFiles large small).sanitizeWorkspace "a").files) =
      (List.replicate small (0 : UInt8)).length + ((List.replicate large (0 : UInt8)).length +
        ((List.replicate large (0 : UInt8)).length + 0)) := rfl
  rw [hused, List.length_replicate, List.length_replicate, Nat.add_zero]

/-- The sizes add up to 2⁶⁴ + 8 bytes, of which 8 are seen. -/
theorem kept_of_overflow : ∃ c',
    (threeFiles (2 ^ 63 - 1) 10).purgeCacheAt sampleLibrary id "a" 20 = .ok ([], c') ∧
      ∀ path, c'.files.lookup path = (threeFiles (2 ^ 63 - 1) 10).files.lookup path := by
  have hfits : FitsBelow 20 (10 + (2 ^ 63 - 1 + (2 ^ 63 - 1))) := by
    unfold FitsBelow
    decide +kernel
  generalize 2 ^ 63 - 1 = large at *
  obtain ⟨deleted, kept, c', hpurge, h⟩ := purgeCacheAt_purgedAt lawful_sampleLibrary
    ⟨fun _ => .refl _⟩ "a" 20 (threeFiles large 10) (distinctKeys_sampleLibrary _)
  rw [← usedBytes_threeFiles, ← usedBytes_perm h.perm] at hfits
  cases deleted with
  | nil =>
      refine ⟨c', hpurge, fun path => ?_⟩
      rw [h.effect.files, sanitizeWorkspace_threeFiles]
      exact if_neg List.not_mem_nil
  | cons e deleted => exact absurd hfits (h.shortest.least [] _ rfl (Nat.succ_pos _))

/-- The sample with a file of the year 2264 and one of the year 1970. -/
def futureFile : DiskCache :=
  { sampleCache with
    files := ((∅ : UnorderedMap FilePath File).insert ⟨⟨"a", [0]⟩, "new"⟩
      ⟨List.replicate 10 0, 9300000000⟩).insert ⟨⟨"a", [0]⟩, "old"⟩ ⟨List.replicate 10 0, 1⟩ }

/-- For large limits the threshold is not exact, sizes that add up to more than 64 bits can hold
are taken for few bytes, and a file whose time is more than that goes first. -/
theorem purgeCacheAt_inexact :
    (Below 422212465065999 401101841812699 ∧ ∃ c',
      (oneFile 401101841812699).purgeCacheAt sampleLibrary id "a" 422212465065999 = .ok ([], c') ∧
        c'.files.lookup ⟨⟨"a", [0]⟩, "k"⟩ = none) ∧
    (¬ Below 20 (10 + (2 ^ 63 - 1 + (2 ^ 63 - 1))) ∧ ∃ c',
      (threeFiles (2 ^ 63 - 1) 10).purgeCacheAt sampleLibrary id "a" 20 = .ok ([], c') ∧
        ∀ path, c'.files.lookup path = (threeFiles (2 ^ 63 - 1) 10).files.lookup path) ∧
    (futureFile.purgeCacheAt sampleLibrary id "a" 20).map
      (fun result => ((result.2.files.lookup ⟨⟨"a", [0]⟩, "new"⟩).isSome,
        (result.2.files.lookup ⟨⟨"a", [0]⟩, "old"⟩).isSome)) = .ok (false, true) := by
  refine ⟨⟨?_, deleted_of_rounded⟩, ⟨?_, kept_of_overflow⟩, rfl⟩
  · unfold Below
    norm_num
  · unfold Below
    norm_num

end DiskCache

end Yadcc
