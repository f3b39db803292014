/-
# The format of a cache entry

An entry is a header of twelve bytes, a message about the result of the compilation, and the
packed files. The header has the sizes of the two parts; the message has a digest of the
files. The message and hash libraries are parameters.
-/

import Yadcc.Lib.LittleEndian
import Yadcc.Lib.Shell

namespace Yadcc.Daemon

open Yadcc.Lib

/-! ## Writing and parsing -/

/-- A compilation result in the cache. The extra information is a message of its own. -/
structure CacheEntry where
  exitCode : Int32
  standardOutput : Bytes
  standardError : Bytes
  extraInfo : Bytes
  files : Bytes
  deriving DecidableEq

structure CacheMeta where
  exitCode : Int32
  standardOutput : Bytes
  standardError : Bytes
  extraInfo : Bytes
  filesDigest : Bytes
  deriving DecidableEq

/-- The message library for `CacheMeta`, and the hash function. -/
structure CacheLibrary where
  serialize : CacheMeta → Bytes
  parse : Bytes → Option CacheMeta
  blake3 : Bytes → Bytes

/-- Messages are read back, and no two contents have the same hash. -/
structure CacheLibrary.Lawful (lib : CacheLibrary) : Prop where
  parse_serialize : ∀ message, lib.parse (lib.serialize message) = some message
  blake3_injective : Function.Injective lib.blake3

def sizeofCacheEntryHeader : ℕ := 12

variable (lib : CacheLibrary)

def CacheEntry.message (result : CacheEntry) : CacheMeta where
  exitCode := result.exitCode
  standardOutput := result.standardOutput
  standardError := result.standardError
  extraInfo := result.extraInfo
  filesDigest := lib.blake3 result.files

/-- The last field of the header is not set; it has the value that is there by chance. -/
def writeCacheEntry (compressionAlgorithm : UInt32) (result : CacheEntry) : Bytes :=
  let message := lib.serialize (result.message lib)
  littleEndian 4 message.length ++ littleEndian 4 result.files.length ++
    littleEndian 4 compressionAlgorithm.toNat ++ message ++ result.files

/-- Cut an entry into its message and its files. -/
def cutCacheEntry (buffer : Bytes) : Option (CacheMeta × Bytes) :=
  if buffer.length < sizeofCacheEntryHeader then none
  else
    let metaSize := ofLittleEndian (buffer.take 4)
    let filesSize := ofLittleEndian ((buffer.drop 4).take 4)
    if buffer.length < sizeofCacheEntryHeader + metaSize + filesSize then none
    else
      let buffer := buffer.drop sizeofCacheEntryHeader
      let files := (buffer.drop metaSize).take filesSize
      (lib.parse (buffer.take metaSize)).map fun message => (message, files)

def tryParseCacheEntry (buffer : Bytes) : Option CacheEntry :=
  match cutCacheEntry lib buffer with
  | none => none
  | some (message, files) =>
      if lib.blake3 files ≠ message.filesDigest then none
      else some
        { exitCode := message.exitCode
          standardOutput := message.standardOutput
          standardError := message.standardError
          extraInfo := message.extraInfo
          files }

/-- The digest of the files as an entry records it. -/
def recordedDigest (buffer : Bytes) : Option Bytes :=
  (cutCacheEntry lib buffer).map fun cut => cut.1.filesDigest

/-- No digest can be read in the bytes, or it is not that of other files. -/
def NotForged (files buffer : Bytes) : Prop :=
  ∀ files', files' ≠ files → recordedDigest lib buffer ≠ some (lib.blake3 files')

/-! ## What is written is parsed -/

/-- The header of an entry. -/
def CacheEntry.header (compressionAlgorithm : UInt32) (result : CacheEntry) : Bytes :=
  littleEndian 4 (lib.serialize (result.message lib)).length ++
    littleEndian 4 result.files.length ++ littleEndian 4 compressionAlgorithm.toNat

variable {lib}

theorem length_writeCacheEntry (compressionAlgorithm : UInt32) (result : CacheEntry) :
    (writeCacheEntry lib compressionAlgorithm result).length =
      sizeofCacheEntryHeader + (lib.serialize (result.message lib)).length +
        result.files.length := by
  simp only [writeCacheEntry, List.length_append, length_littleEndian, sizeofCacheEntryHeader]

/-- Bytes in front of which two sizes stand are cut by these. -/
theorem cutCacheEntry_of_sizes {metaSize filesSize : ℕ} {buffer : Bytes}
    (hmeta : metaSize < 2 ^ 32) (hfiles : filesSize < 2 ^ 32)
    (h : littleEndian 4 metaSize ++ littleEndian 4 filesSize <+: buffer) :
    cutCacheEntry lib buffer =
      if buffer.length < sizeofCacheEntryHeader + metaSize + filesSize then none
      else (lib.parse ((buffer.drop sizeofCacheEntryHeader).take metaSize)).map fun message =>
        (message, ((buffer.drop sizeofCacheEntryHeader).drop metaSize).take filesSize) := by
  obtain ⟨rest, rfl⟩ := h
  rw [List.append_assoc]
  have htake : (littleEndian 4 metaSize ++ (littleEndian 4 filesSize ++ rest)).take 4 =
      littleEndian 4 metaSize := by simp
  have hdrop : ((littleEndian 4 metaSize ++ (littleEndian 4 filesSize ++ rest)).drop 4).take 4 =
      littleEndian 4 filesSize := by simp
  unfold cutCacheEntry
  rw [htake, hdrop, ofLittleEndian_littleEndian_of_lt hmeta,
    ofLittleEndian_littleEndian_of_lt hfiles]
  split
  · next hshort => rw [if_pos (by omega)]
  · rfl

theorem writeCacheEntry_eq (compressionAlgorithm : UInt32) (result : CacheEntry) :
    writeCacheEntry lib compressionAlgorithm result =
      result.header lib compressionAlgorithm ++
        (lib.serialize (result.message lib) ++ result.files) :=
  List.append_assoc _ _ _

/-- An entry without its files. -/
theorem front_writeCacheEntry (compressionAlgorithm : UInt32) (result : CacheEntry) :
    (writeCacheEntry lib compressionAlgorithm result).take
        ((writeCacheEntry lib compressionAlgorithm result).length - result.files.length) =
      result.header lib compressionAlgorithm ++ lib.serialize (result.message lib) := by
  rw [writeCacheEntry_eq, ← List.append_assoc, List.length_append, Nat.add_sub_cancel,
    List.take_left]

/-- Behind the header and the message of an entry, the files are what is there, as long as it
is not too short. -/
theorem cutCacheEntry_damaged (hlib : lib.Lawful) {compressionAlgorithm : UInt32}
    {result : CacheEntry}
    (hsize : (writeCacheEntry lib compressionAlgorithm result).length < 2 ^ 32)
    (damaged : Bytes) :
    cutCacheEntry lib (result.header lib compressionAlgorithm ++
        (lib.serialize (result.message lib) ++ damaged)) =
      if damaged.length < result.files.length then none
      else some (result.message lib, damaged.take result.files.length) := by
  rw [length_writeCacheEntry] at hsize
  have hheader : (result.header lib compressionAlgorithm).length =
      sizeofCacheEntryHeader := by
    simp [CacheEntry.header, sizeofCacheEntryHeader]
  have hprefix : littleEndian 4 (lib.serialize (result.message lib)).length ++
      littleEndian 4 result.files.length <+: result.header lib compressionAlgorithm ++
        (lib.serialize (result.message lib) ++ damaged) :=
    (List.prefix_append _ _).trans (List.prefix_append _ _)
  rw [cutCacheEntry_of_sizes (by omega) (by omega) hprefix, List.drop_left' hheader,
    List.take_left, List.drop_left, hlib.parse_serialize, List.length_append, List.length_append,
    hheader]
  congr 1
  rw [eq_iff_iff]
  omega

/-- An entry whose sizes fit is cut where it was put together. -/
theorem cutCacheEntry_writeCacheEntry (hlib : lib.Lawful) {compressionAlgorithm : UInt32}
    {result : CacheEntry}
    (hsize : (writeCacheEntry lib compressionAlgorithm result).length < 2 ^ 32) :
    cutCacheEntry lib (writeCacheEntry lib compressionAlgorithm result) =
      some (result.message lib, result.files) := by
  rw [writeCacheEntry_eq, cutCacheEntry_damaged hlib hsize, if_neg (lt_irrefl _),
    List.take_length]

theorem tryParseCacheEntry_writeCacheEntry (hlib : lib.Lawful) {compressionAlgorithm : UInt32}
    {result : CacheEntry}
    (hsize : (writeCacheEntry lib compressionAlgorithm result).length < 2 ^ 32) :
    tryParseCacheEntry lib (writeCacheEntry lib compressionAlgorithm result) = some result := by
  unfold tryParseCacheEntry
  rw [cutCacheEntry_writeCacheEntry hlib hsize]
  exact if_neg (not_not.mpr rfl)

/-! ## What is parsed was recorded -/

/-- The files of a parsed entry have the digest that the entry records. -/
theorem recordedDigest_of_tryParse {buffer : Bytes} {result : CacheEntry}
    (h : tryParseCacheEntry lib buffer = some result) :
    recordedDigest lib buffer = some (lib.blake3 result.files) := by
  unfold tryParseCacheEntry at h
  unfold recordedDigest
  split at h
  · cases h
  · next message files hcut =>
      split at h
      · cases h
      · next hdigest =>
          cases h
          rw [hcut, Option.map_some, not_not.mp hdigest]

/-- Bytes that are not forged are refused or yield the files. -/
theorem NotForged.tryParse {files buffer : Bytes} (h : NotForged lib files buffer) :
    tryParseCacheEntry lib buffer = none ∨
      ∃ parsed, tryParseCacheEntry lib buffer = some parsed ∧ parsed.files = files := by
  cases hbuffer : tryParseCacheEntry lib buffer with
  | none => exact .inl rfl
  | some parsed =>
      refine .inr ⟨parsed, rfl, ?_⟩
      by_contra hne
      exact h parsed.files hne (recordedDigest_of_tryParse hbuffer)

/-- An entry from which bytes at the end are missing is refused. -/
theorem tryParseCacheEntry_truncated {compressionAlgorithm : UInt32} {result : CacheEntry}
    (hsize : (writeCacheEntry lib compressionAlgorithm result).length < 2 ^ 32) {n : ℕ}
    (hn : n < (writeCacheEntry lib compressionAlgorithm result).length) :
    tryParseCacheEntry lib ((writeCacheEntry lib compressionAlgorithm result).take n) = none := by
  have hlength : ((writeCacheEntry lib compressionAlgorithm result).take n).length = n :=
    List.length_take_of_le hn.le
  have hcut : cutCacheEntry lib ((writeCacheEntry lib compressionAlgorithm result).take n) =
      none := by
    by_cases hshort : n < sizeofCacheEntryHeader
    · unfold cutCacheEntry
      rw [if_pos (hlength.trans_lt hshort)]
    · rw [sizeofCacheEntryHeader] at hshort
      rw [length_writeCacheEntry] at hsize hn
      have hprefix : littleEndian 4 (lib.serialize (result.message lib)).length ++
          littleEndian 4 result.files.length <+:
            (writeCacheEntry lib compressionAlgorithm result).take n := by
        rw [List.prefix_take_iff]
        constructor
        · rw [writeCacheEntry_eq, CacheEntry.header, List.append_assoc _ (littleEndian 4 _)]
          exact List.prefix_append _ _
        · simp only [List.length_append, length_littleEndian]
          omega
      rw [cutCacheEntry_of_sizes (by omega) (by omega) hprefix, hlength]
      exact if_pos hn
  unfold tryParseCacheEntry
  rw [hcut]

/-- Whatever stands behind the message, the digest that is recorded is that of the files. -/
theorem notForged_damaged (hlib : lib.Lawful) {compressionAlgorithm : UInt32}
    {result : CacheEntry}
    (hsize : (writeCacheEntry lib compressionAlgorithm result).length < 2 ^ 32)
    (damaged : Bytes) :
    NotForged lib result.files (result.header lib compressionAlgorithm ++
      (lib.serialize (result.message lib) ++ damaged)) := by
  intro files' hne
  rw [recordedDigest, cutCacheEntry_damaged hlib hsize]
  split
  · exact nofun
  · intro heq
    exact hne (hlib.blake3_injective (Option.some.inj heq)).symm

end Yadcc.Daemon
