/-
# The disk cache

Entries are files, spread over shards and their sub-directories by the hash of the key and
named by the percent-encoded key. A file is a header of 64 bytes, of which the first 32 are
the checksum of the rest. An index tells for each directory which keys it has. The disk is
part of the state: a file has its bytes and the time of its last change. A path is its shard,
its sub-directories and its name, as an encoded key has no slash. A purge adds the sizes up in
64 bits, and compares the sum with a limit in floating point.
-/

import Yadcc.Common.ConsistentHash
import Yadcc.Lib.Shell

namespace Yadcc

open Yadcc.Lib

/-! ## Data -/

/-- The sub-directories of a shard that lead to a file. -/
structure Directory where
  shard : String
  subdirs : List ℕ
  deriving DecidableEq

structure FilePath where
  dir : Directory
  name : String
  deriving DecidableEq

/-- The bytes, and `st_mtime` in seconds. -/
structure File where
  content : Bytes
  modified : ℤ
  deriving DecidableEq

/-- The time of the last use is in nanoseconds. -/
structure FileInfo where
  path : FilePath
  size : ℕ
  lastUsed : ℤ
  deriving DecidableEq

/-- What is taken from libraries: encoding of keys, hashes, and `std::sort` of the ring and of
files by their last use. -/
structure DiskLibrary where
  encodePercent : String → String
  decodePercent : String → Option String
  xxHash : String → UInt64
  blake3 : Bytes → Vector UInt8 32
  sort : List VirtualNode → List VirtualNode
  sortFiles : List FileInfo → List FileInfo

structure DiskLibrary.Lawful (lib : DiskLibrary) : Prop where
  decode_encode : ∀ key, lib.decodePercent (lib.encodePercent key) = some key
  ringSort : RingSort lib.sort
  filesPerm : ∀ files, (lib.sortFiles files).Perm files
  filesSorted : ∀ files, (lib.sortFiles files).Pairwise fun x y => x.lastUsed ≤ y.lastUsed

structure EntryDesc where
  fileSize : ℕ
  lastAccessed : ℤ
  deriving DecidableEq

/-- Shards with their sizes in bytes. -/
structure DiskOptions where
  shards : List (String × UInt64)
  subDirLevel : ℕ
  subDirs : ℕ

/-- Checks that end the daemon. `destroyedLock` is a lock that is let go of after it was
destroyed. -/
inductive DiskFault
  | noShards
  | noSuchDirectory
  | openFailed
  | unlinkFailed
  | renameFailed
  | destroyedLock
  | diverged
  deriving DecidableEq

structure DiskCache where
  options : DiskOptions
  shardMapper : ConsistentHash
  entriesPerDir : UnorderedMap Directory (UnorderedMap String EntryDesc)
  files : UnorderedMap FilePath File

/-! ## Files -/

/-- `system_clock::from_time_t`: seconds to nanoseconds, in 64 bits. -/
def fromTimeT (t : ℤ) : ℤ := Int.bmod (t * 10 ^ 9) (2 ^ 64)

def sizeofFileHeader : ℕ := 64

/-- The rest of the header is not set. -/
def writeFileHeader (lib : DiskLibrary) (reserved : Vector UInt8 32) (buffer : Bytes) : Bytes :=
  (lib.blake3 buffer).toList ++ reserved.toList

def verifyEntryAndCutHeader (lib : DiskLibrary) (buffer : Bytes) : Option Bytes :=
  if buffer.length < sizeofFileHeader then none
  else if buffer.take 32 ≠ (lib.blake3 (buffer.drop sizeofFileHeader)).toList then none
  else some (buffer.drop sizeofFileHeader)

/-! ## Paths -/

def PATH_MAX : ℕ := 4096

def getSubdirsFor (hash : ℕ) : ℕ → ℕ → List ℕ
  | 0, _ => []
  | level + 1, subDirs => hash % subDirs :: getSubdirsFor (hash / subDirs) level subDirs

def getKeyFromPath (lib : DiskLibrary) (path : FilePath) : Option String :=
  lib.decodePercent path.name

/-- Sub-directories at the level of the files. -/
def allSubdirs : ℕ → ℕ → List (List ℕ)
  | 0, _ => [[]]
  | level + 1, subDirs =>
      (List.range subDirs).flatMap fun i => (allSubdirs level subDirs).map (i :: ·)

def getWeightedDirs (directories : List (String × UInt64)) : UnorderedMap String ℕ :=
  directories.foldl (fun weightedDirs d =>
    let weight := d.2.toNat / 2 ^ 20 / 2 ^ 7
    weightedDirs.insert d.1 (if weight = 0 then 1 else weight)) ∅

namespace DiskCache

/-- No path is a key that is too long. -/
def tryGetPathOfKey (lib : DiskLibrary) (key : String) (c : DiskCache) :
    Except DiskFault (Option FilePath) :=
  let marshalled := lib.encodePercent key
  if PATH_MAX < marshalled.utf8ByteSize then .ok none
  else
    let hash := lib.xxHash key
    match c.shardMapper.getNode hash.toUInt32 with
    | none => .error .noShards
    | some shard =>
        let subdirs := getSubdirsFor hash.toNat c.options.subDirLevel c.options.subDirs
        .ok (some ⟨⟨shard, subdirs⟩, marshalled⟩)

/-- The index of a directory, `at`. -/
def entriesAt (dir : Directory) (c : DiskCache) :
    Except DiskFault (UnorderedMap String EntryDesc) :=
  match c.entriesPerDir.lookup dir with
  | none => .error .noSuchDirectory
  | some entries => .ok entries

def setEntries (dir : Directory) (entries : UnorderedMap String EntryDesc) (c : DiskCache) :
    DiskCache :=
  { c with entriesPerDir := c.entriesPerDir.insert dir entries }

def writeFile (path : FilePath) (file : File) (c : DiskCache) : DiskCache :=
  { c with files := c.files.insert path file }

/-! ## Operations -/

/-- The clock `now` is in nanoseconds since the epoch. -/
def tryGet (lib : DiskLibrary) (now : ℕ) (key : String) (c : DiskCache) :
    Except DiskFault (Option Bytes × DiskCache) := do
  match ← c.tryGetPathOfKey lib key with
  | none => return (none, c)
  | some path =>
      let entries ← c.entriesAt path.dir
      match entries.lookup key with
      | none => return (none, c)
      | some cacheEntry =>
          match c.files.lookup path with
          | none => .error .openFailed
          | some file =>
              let c := c.writeFile path { file with modified := now / 10 ^ 9 }
              let c := c.setEntries path.dir
                (entries.insert key { cacheEntry with lastAccessed := now })
              return (verifyEntryAndCutHeader lib file.content, c)

/-- What a put does to the index and the files. `opened` is the result of `open`: a file
descriptor, or none. If it is there, the file is there too and empty; but descriptor zero is
taken for a failure too. -/
def putLocked (lib : DiskLibrary) (now : ℕ) (opened : Option ℕ) (reserved : Vector UInt8 32)
    (key : String) (bytes : Bytes) (c : DiskCache) : Except DiskFault DiskCache := do
  match ← c.tryGetPathOfKey lib key with
  | none => return c
  | some path =>
      let entries ← c.entriesAt path.dir
      let entries :=
        if entries.lookup key = none then entries.insert key ⟨0, now⟩ else entries
      match opened with
      | none => return c.setEntries path.dir (entries.erase key)
      | some 0 => return (c.setEntries path.dir entries).writeFile path ⟨[], now / 10 ^ 9⟩
      | some (_ + 1) =>
          let content := writeFileHeader lib reserved bytes ++ bytes
          let c := c.writeFile path ⟨content, now / 10 ^ 9⟩
          let entry := (entries.lookup key).getD ⟨0, now⟩
          return c.setEntries path.dir
            (entries.insert key { entry with fileSize := content.length })

/-- If `open` fails, the entry is erased whose lock is held, and then that lock is let go of. -/
def put (lib : DiskLibrary) (now : ℕ) (opened : Option ℕ) (reserved : Vector UInt8 32)
    (key : String) (bytes : Bytes) (c : DiskCache) : Except DiskFault DiskCache := do
  let path ← c.tryGetPathOfKey lib key
  if path.isSome ∧ opened = none then .error .destroyedLock
  else c.putLocked lib now opened reserved key bytes

def getKeys (c : DiskCache) : List String :=
  c.entriesPerDir.entries.flatMap fun e => e.2.keys

/-! ## Enumerating -/

/-- Remove what is in the shard, but not at the level of the files. -/
def sanitizeWorkspace (shard : String) (c : DiskCache) : DiskCache :=
  { c with files := c.files.filterEntries fun path _ =>
      decide (path.dir.shard = shard → path.dir.subdirs.length = c.options.subDirLevel) }

/-- The files of a shard. -/
def fileInfos (shard : String) (files : UnorderedMap FilePath File) : List FileInfo :=
  (files.entries.filter fun e => decide (e.1.dir.shard = shard)).map fun e =>
    ⟨e.1, e.2.content.length, fromTimeT e.2.modified⟩

/-- The order in which the system lists files. -/
abbrev Listing := List FileInfo → List FileInfo

/-- Sanitize the workspace first. -/
def enumerateCacheEntries (listing : Listing) (shard : String) (c : DiskCache) :
    List FileInfo × DiskCache :=
  let c := c.sanitizeWorkspace shard
  (listing (fileInfos shard c.files), c)

/-! ## Purging -/

def unlink (path : FilePath) (c : DiskCache) : Except DiskFault DiskCache :=
  match c.files.lookup path with
  | none => .error .unlinkFailed
  | some _ => .ok { c with files := c.files.erase path }

/-- Remove a file, and its key from the index if it is there. -/
def purgeFile (lib : DiskLibrary) (path : FilePath) (c : DiskCache) :
    Except DiskFault (List String × DiskCache) := do
  match getKeyFromPath lib path, c.entriesPerDir.lookup path.dir with
  | some key, some entries =>
      let c ← c.unlink path
      if (entries.lookup key).isSome then
        return ([key], c.setEntries path.dir (entries.erase key))
      else return ([], c)
  | _, _ =>
      let c ← c.unlink path
      return ([], c)

def kDiscardThreshold : Float := 0.95

def belowThreshold (totalUsed sizeLimit : UInt64) : Bool :=
  decide (totalUsed.toFloat < sizeLimit.toFloat * kDiscardThreshold)

/-- Remove files from the oldest on, until what is left is below the threshold. -/
def purgeLoop (lib : DiskLibrary) (sizeLimit : UInt64) : List FileInfo → UInt64 → DiskCache →
    Except DiskFault (List String × DiskCache)
  | [], _, c => .ok ([], c)
  | e :: files, totalUsed, c =>
      if belowThreshold totalUsed sizeLimit then .ok ([], c)
      else do
        let (purged, c) ← c.purgeFile lib e.path
        let (purged', c) ← purgeLoop lib sizeLimit files (totalUsed - .ofNat e.size) c
        return (purged ++ purged', c)

/-- The bytes that files use, as far as they fit in 64 bits. -/
def totalUsed (files : List FileInfo) : UInt64 :=
  files.foldl (fun totalUsed e => totalUsed + .ofNat e.size) 0

def purgeCacheAt (lib : DiskLibrary) (listing : Listing) (shard : String) (sizeLimit : UInt64)
    (c : DiskCache) : Except DiskFault (List String × DiskCache) :=
  let (files, c) := c.enumerateCacheEntries listing shard
  let files := lib.sortFiles files
  purgeLoop lib sizeLimit files (totalUsed files) c

/-- Purge the shards one after the other. The list of what was purged is thrown away by the
source. -/
def purge (lib : DiskLibrary) (listing : Listing) (c : DiskCache) :
    Except DiskFault (List String × DiskCache) :=
  c.options.shards.foldlM (fun (purged, c) (shard, limit) => do
    let (purged', c) ← c.purgeCacheAt lib listing shard limit
    return (purged ++ purged', c)) ([], c)

end DiskCache

end Yadcc
