/-
# Completing a task of another machine

When the command of a remote task has ended, the task prepares what goes back: its output,
its files, compressed and packed, and some extra information, which for C++ says where the
files contain the name of the servant's directory. If all went well, the same is written to
the cache. The libraries for messages, compression and packing are parameters.
-/

import Yadcc.Daemon.CacheFormat
import Yadcc.Daemon.Cloud.CxxCompilationTask
import Yadcc.Daemon.Local.DistributedTaskDispatcher
import Yadcc.Lib.UnorderedMap

namespace Yadcc.Daemon.Cloud

open Yadcc.Lib

/-! ## Data -/

structure CxxCompilationExtraInfo where
  fileNamePatches : UnorderedMap String (List Location)

/-- The libraries. `packFrom` and `unpackTo` wrap the extra information of a C++ task into a
message of any type and back; `writeKeyedBuffers` packs named buffers into one. -/
structure TaskLibrary extends CacheLibrary where
  packFrom : CxxCompilationExtraInfo → Bytes
  unpackTo : Bytes → Option CxxCompilationExtraInfo
  typeUrl : Bytes → String
  compress : Bytes → Bytes
  writeKeyedBuffers : List (String × Bytes) → Bytes
  tryParseKeyedBuffers : Bytes → Option (List (String × Bytes))

/-- Messages and packed buffers are read back, and hashes do not collide. -/
structure TaskLibrary.Lawful (lib : TaskLibrary) : Prop
    extends CacheLibrary.Lawful lib.toCacheLibrary where
  tryParse_writeKeyed : ∀ files,
    lib.tryParseKeyedBuffers (lib.writeKeyedBuffers files) = some files

/-- An error code, which is not zero, with its message. -/
structure Status where
  code : Int32
  message : Bytes
  deriving DecidableEq

structure OobOutput where
  extraInfo : Bytes
  files : List (String × Bytes)

/-- What a kind of task implements: its out-of-band output, which may fail, or abort the
daemon (`none`), and its cache key, if it is cacheable. -/
structure TaskHooks where
  getOobOutput : Int32 → Bytes → Bytes → Option (Except Status OobOutput)
  getCacheKey : Option String

structure RemoteTask where
  exitCode : Int32
  stdout : Bytes
  stderr : Bytes
  extraInfo : Bytes
  filePack : Bytes
  deriving DecidableEq

/-! ## Completion -/

variable (lib : TaskLibrary)

/-- The task afterwards, and the entry that it gives to the cache writer. -/
def onCompletion (hooks : TaskHooks) (exitCode : Int32) (standardOutput standardError : Bytes) :
    Option (RemoteTask × Option (String × CacheEntry)) := do
  let oob ← hooks.getOobOutput exitCode standardOutput standardError
  match oob with
  | .error status =>
      if status.code = 0 then none
      else some (⟨status.code, [], status.message, [], []⟩, none)
  | .ok oob =>
      let files := oob.files.map fun file => (file.1, lib.compress file.2)
      let task : RemoteTask :=
        ⟨exitCode, standardOutput, standardError, oob.extraInfo, lib.writeKeyedBuffers files⟩
      match hooks.getCacheKey with
      | none => some (task, none)
      | some key =>
          if exitCode = 0 then
            let entry : CacheEntry :=
              ⟨task.exitCode, task.stdout, task.stderr, task.extraInfo, task.filePack⟩
            some (task, some (key, entry))
          else some (task, none)

/-- The attachment of the request that stores an entry, if one is sent. -/
def asyncWrite (cacheEnabled : Bool) (compressionAlgorithm : UInt32) (key : String)
    (entry : CacheEntry) : Option (String × Bytes) :=
  if cacheEnabled = false then none
  else if entry.exitCode ≠ 0 then none
  else some (key, writeCacheEntry lib.toCacheLibrary compressionAlgorithm entry)

/-- The response to a delegate that waits for a task that is done. -/
def waitForCompilationOutput (task : RemoteTask) : Local.CompilationOutput where
  status := .done
  exitCode := task.exitCode.toInt
  output := task.stdout
  error := task.stderr
  extraInfo := task.extraInfo
  attachment := task.filePack

/-! ## C++ tasks -/

/-- What a C++ task knows when its compiler has ended: its directory, the part of the paths
below it that is the same for all files, the files found there, and its cache key. -/
structure CxxCompilationTask where
  workspaceDir : Bytes
  temporaryDirExtraDepth : String
  outputFiles : List (String × Bytes)
  cacheKey : Option String

def CxxCompilationTask.relativePathPrefix (task : CxxCompilationTask) : String :=
  task.temporaryDirExtraDepth ++ "/output"

/-- The rest of a name behind a prefix that it is checked to have. -/
def suffixBehind (pathPrefix name : String) : Option String :=
  if pathPrefix.toList.isPrefixOf name.toList then
    some (String.ofList (name.toList.drop pathPrefix.length))
  else none

def CxxCompilationTask.locations (task : CxxCompilationTask) (file : Bytes) :
    Option (List Location) :=
  findAllPathLocation file
    (task.workspaceDir ++ Shell.asciiBytes ("/" ++ task.relativePathPrefix))

/-- The places to be patched, by the suffix of the file. -/
def CxxCompilationTask.fileNamePatches (task : CxxCompilationTask) :
    Option (UnorderedMap String (List Location)) :=
  task.outputFiles.foldlM (fun patches file => do
    let suffix ← suffixBehind task.relativePathPrefix file.1
    let locations ← task.locations file.2
    some (patches.insert suffix locations)) ∅

def CxxCompilationTask.getOobOutput (task : CxxCompilationTask) (exitCode : Int32) :
    Option (Except Status OobOutput) :=
  if exitCode ≠ 0 then some (.ok ⟨[], []⟩)
  else do
    let patches ← task.fileNamePatches
    let files ← task.outputFiles.mapM fun file =>
      (suffixBehind task.relativePathPrefix file.1).map fun suffix => (suffix, file.2)
    some (.ok ⟨lib.packFrom ⟨patches⟩, files⟩)

def CxxCompilationTask.hooks (task : CxxCompilationTask) : TaskHooks where
  getOobOutput exitCode _ _ := task.getOobOutput lib exitCode
  getCacheKey := task.cacheKey

/-! ## What is written -/

variable {lib}

/-- A task that writes to the cache has succeeded, and writes what it will answer. -/
theorem entry_of_onCompletion {hooks : TaskHooks} {exitCode : Int32}
    {standardOutput standardError : Bytes} {task : RemoteTask} {key : String} {entry : CacheEntry}
    (h : onCompletion lib hooks exitCode standardOutput standardError =
      some (task, some (key, entry))) :
    task.exitCode = 0 ∧
      entry = ⟨0, task.stdout, task.stderr, task.extraInfo, task.filePack⟩ ∧
      ∃ files, task.filePack = lib.writeKeyedBuffers files := by
  obtain ⟨oob, -, h⟩ := Option.bind_eq_some_iff.mp h
  cases oob with
  | error status =>
      simp only at h
      split at h
      · cases h
      · cases h
  | ok oob =>
      simp only at h
      split at h
      · cases h
      · next key' hkey =>
          split at h
          · next hzero =>
              cases h
              exact ⟨hzero, by rw [hzero], _, rfl⟩
          · cases h

end Yadcc.Daemon.Cloud
