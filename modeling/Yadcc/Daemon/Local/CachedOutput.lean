/-
# Answering from the cache

A delegate that may use the cache looks there first; otherwise it waits for a servant. Either
way it ends up with an output, from which it builds the response to its client. The question
is whether the client can tell the difference, and what becomes of an entry that was damaged.
-/

import Yadcc.Daemon.Cloud.RemoteTask

namespace Yadcc.Daemon.Local

open Yadcc.Lib Yadcc.Daemon.Cloud

variable (lib : TaskLibrary)

/-! ## Two ways to an output -/

/-- Look up an entry, unless the Bloom filter says that there is none. -/
def tryRead (entries : UnorderedMap String Bytes) (mayContain : Bool) (key : String) :
    Option CacheEntry :=
  if mayContain = false then none
  else (entries.lookup key).bind (tryParseCacheEntry lib.toCacheLibrary)

def tryParseFiles (bytes : Bytes) : Option (List (String × Bytes)) :=
  lib.tryParseKeyedBuffers bytes

/-- The output of a hit. -/
def outputOfEntry (entry : CacheEntry) : Option DistributedTaskOutput :=
  (tryParseFiles lib entry.files).map fun files =>
    { exitCode := 0
      standardOutput := entry.standardOutput
      standardError := entry.standardError
      extraInfo := entry.extraInfo
      outputFiles := files }

def tryReadCacheIfAllowed (cacheSetting : CacheControl) (read : String → Option CacheEntry)
    (cacheKey : String) : Option DistributedTaskOutput :=
  (if cacheSetting = .allow then read cacheKey else none).bind (outputOfEntry lib)

/-- The dispatcher of a delegate, with its packing library. -/
def dispatcherConfig (debuggingAlwaysUseServantAt : String) : DispatcherConfig where
  debuggingAlwaysUseServantAt := debuggingAlwaysUseServantAt
  tryParseFiles := tryParseFiles lib

/-! ## The response -/

structure WaitForCxxTaskResponse where
  exitCode : ℤ
  output : Bytes
  error : Bytes
  fileExtensions : List String
  patches : List (List Location)
  deriving DecidableEq

/-- The response with its files, or an HTTP status. There is no extra information unless the
compilation succeeded. -/
def rebuildOutput (output : DistributedTaskOutput) :
    Except (ℕ × String) (WaitForCxxTaskResponse × List Bytes) :=
  if output.exitCode < 0 then
    .ok (⟨output.exitCode, output.standardOutput, output.standardError, [], []⟩, [])
  else
    match if output.exitCode = 0 then lib.unpackTo output.extraInfo else some ⟨∅⟩ with
    | none =>
        .error (500, "Unexpected: Malformed C++ compilation info. Got message of type [" ++
          lib.typeUrl output.extraInfo ++ "].")
    | some compInfo =>
        .ok (⟨output.exitCode, output.standardOutput, output.standardError,
          output.outputFiles.map Prod.fst,
          output.outputFiles.map fun file => (compInfo.fileNamePatches.lookup file.1).getD []⟩,
          output.outputFiles.map Prod.snd)

/-! ## A hit is as good as the servant -/

section Hit

variable {lib} {hooks : TaskHooks} {exitCode : Int32} {standardOutput standardError : Bytes}
  {task : RemoteTask} {key : String} {entry : CacheEntry}

/-- What the delegate reads from the cache and what it would get from the servant. -/
theorem output_of_onCompletion (hlib : lib.Lawful)
    (hcompleted : onCompletion lib hooks exitCode standardOutput standardError =
      some (task, some (key, entry))) (debuggingAlwaysUseServantAt : String) :
    ∃ output, outputOfEntry lib entry = some output ∧
      waitServantForTask (dispatcherConfig lib debuggingAlwaysUseServantAt)
        (some (waitForCompilationOutput task)) = .ok output := by
  obtain ⟨hzero, hentry, files, hpack⟩ := entry_of_onCompletion hcompleted
  have hparse : tryParseFiles lib task.filePack = some files := by
    rw [hpack]
    exact hlib.tryParse_writeKeyed files
  refine ⟨⟨0, task.stdout, task.stderr, task.extraInfo, files⟩, ?_, ?_⟩
  · rw [hentry, outputOfEntry, hparse]
    rfl
  · have hcode : task.exitCode.toInt = 0 := by
      rw [hzero]
      rfl
    simp only [waitServantForTask, waitForCompilationOutput, dispatcherConfig, hcode, hparse,
      if_true]

/-- The response built from a hit is the one built from the servant's answer. A damaged entry is
refused or yields the files, unless it has become one that records the digest of other files.
So it is if bytes are missing at its end, whatever stands behind its message, and if no message
can be read in it. -/
theorem cacheHit_eq_wait (hlib : lib.Lawful)
    (hcompleted : onCompletion lib hooks exitCode standardOutput standardError =
      some (task, some (key, entry)))
    {cacheEnabled : Bool} {compressionAlgorithm : UInt32} {bytes : Bytes}
    (hwritten : asyncWrite lib cacheEnabled compressionAlgorithm key entry = some (key, bytes))
    (hsize : bytes.length ≤ 512 * 2 ^ 20) {entries : UnorderedMap String Bytes}
    (hcached : entries.lookup key = some bytes) (debuggingAlwaysUseServantAt : String) :
    (∃ response,
      (tryReadCacheIfAllowed lib .allow (tryRead lib entries true) key).map (rebuildOutput lib) =
        some response ∧
      (waitServantForTask (dispatcherConfig lib debuggingAlwaysUseServantAt)
        (some (waitForCompilationOutput task))).map (rebuildOutput lib) = .ok response) ∧
    (∀ corrupted, NotForged lib.toCacheLibrary entry.files corrupted →
      tryParseCacheEntry lib.toCacheLibrary corrupted = none ∨
        ∃ parsed, tryParseCacheEntry lib.toCacheLibrary corrupted = some parsed ∧
          parsed.files = entry.files) ∧
    (∀ corrupted, recordedDigest lib.toCacheLibrary corrupted = none →
      NotForged lib.toCacheLibrary entry.files corrupted) ∧
    (∀ damaged, NotForged lib.toCacheLibrary entry.files
      (bytes.take (bytes.length - entry.files.length) ++ damaged)) ∧
    ∀ n < bytes.length, tryParseCacheEntry lib.toCacheLibrary (bytes.take n) = none := by
  have hbytes : writeCacheEntry lib.toCacheLibrary compressionAlgorithm entry = bytes := by
    unfold asyncWrite at hwritten
    split at hwritten
    · cases hwritten
    · split at hwritten
      · cases hwritten
      · cases hwritten
        rfl
  have hword : (writeCacheEntry lib.toCacheLibrary compressionAlgorithm entry).length < 2 ^ 32 := by
    rw [hbytes]
    omega
  have hparsed : tryParseCacheEntry lib.toCacheLibrary bytes = some entry := by
    rw [← hbytes]
    exact tryParseCacheEntry_writeCacheEntry hlib.toLawful hword
  refine ⟨?_, fun _ h => h.tryParse, ?_, ?_, ?_⟩
  · obtain ⟨output, hhit, hwait⟩ :=
      output_of_onCompletion hlib hcompleted debuggingAlwaysUseServantAt
    refine ⟨rebuildOutput lib output, ?_, ?_⟩
    · have hread : tryRead lib entries true key = some entry := by
        rw [tryRead, if_neg Bool.noConfusion, hcached]
        exact hparsed
      rw [tryReadCacheIfAllowed, if_pos rfl, hread]
      exact congrArg (Option.map (rebuildOutput lib)) hhit
    · rw [hwait]
      rfl
  · intro corrupted hnone files' _
    rw [hnone]
    exact nofun
  · intro damaged
    rw [← hbytes, front_writeCacheEntry, List.append_assoc]
    exact notForged_damaged hlib.toLawful hword damaged
  · rw [← hbytes]
    exact fun n hn => tryParseCacheEntry_truncated hword hn

end Hit

/-! ## A library -/

/-- Lists of numbers as bytes: a number is told by as many ones, a two behind it, and a three
behind each list. -/
def encodeWords (words : List (List ℕ)) : Bytes :=
  words.flatMap fun word => (word.flatMap fun n => List.replicate n 1 ++ [2]) ++ [3]

/-- Read on from the number `n` in the list `word`. -/
def decodeWords : ℕ → List ℕ → Bytes → Option (List (List ℕ))
  | 0, [], [] => some []
  | n, word, 1 :: bytes => decodeWords (n + 1) word bytes
  | n, word, 2 :: bytes => decodeWords 0 (word ++ [n]) bytes
  | 0, word, 3 :: bytes => (decodeWords 0 [] bytes).map (word :: ·)
  | _, _, _ => none

theorem decodeWords_one (n : ℕ) (word : List ℕ) (bytes : Bytes) :
    decodeWords n word (1 :: bytes) = decodeWords (n + 1) word bytes := by
  cases n with
  | zero => cases word <;> rfl
  | succ n => rfl

theorem decodeWords_two (n : ℕ) (word : List ℕ) (bytes : Bytes) :
    decodeWords n word (2 :: bytes) = decodeWords 0 (word ++ [n]) bytes := by
  cases n with
  | zero => cases word <;> rfl
  | succ n => rfl

theorem decodeWords_three (word : List ℕ) (bytes : Bytes) :
    decodeWords 0 word (3 :: bytes) = (decodeWords 0 [] bytes).map (word :: ·) := by
  cases word <;> rfl

theorem decodeWords_replicate (n k : ℕ) (word : List ℕ) (bytes : Bytes) :
    decodeWords n word (List.replicate k 1 ++ bytes) = decodeWords (n + k) word bytes := by
  induction k generalizing n with
  | zero => rfl
  | succ k ih =>
      rw [List.replicate_succ, List.cons_append, decodeWords_one, ih]
      congr 1
      omega

theorem decodeWords_word (word word' : List ℕ) (bytes : Bytes) :
    decodeWords 0 word' ((word.flatMap fun n => List.replicate n 1 ++ [2]) ++ bytes) =
      decodeWords 0 (word' ++ word) bytes := by
  induction word generalizing word' with
  | nil => rw [List.append_nil]; rfl
  | cons n word ih =>
      rw [List.flatMap_cons, List.append_assoc, List.append_assoc, decodeWords_replicate,
        List.singleton_append, decodeWords_two, ih, Nat.zero_add, List.append_assoc]
      rfl

theorem decodeWords_encodeWords (words : List (List ℕ)) :
    decodeWords 0 [] (encodeWords words) = some words := by
  induction words with
  | nil => rfl
  | cons word words ih =>
      have hcons : encodeWords (word :: words) =
          (word.flatMap fun n => List.replicate n 1 ++ [2]) ++ (3 :: encodeWords words) := by
        simp [encodeWords]
      rw [hcons, decodeWords_word, List.nil_append, decodeWords_three, ih]
      rfl

def ofByte (b : UInt8) : ℕ := b.toNat

def nameWord (name : String) : List ℕ := name.toList.map Char.toNat

def wordName (word : List ℕ) : String := String.ofList (word.map Char.ofNat)

theorem wordName_nameWord (name : String) : wordName (nameWord name) = name := by
  have hchars : (name.toList.map Char.toNat).map Char.ofNat = name.toList := by
    rw [List.map_map]
    exact List.map_id'' Char.ofNat_toNat _
  rw [wordName, nameWord, hchars, String.ofList_toList]

theorem ofNat_ofByte (bytes : Bytes) : (bytes.map ofByte).map UInt8.ofNat = bytes := by
  rw [List.map_map]
  exact List.map_id'' (fun _ => UInt8.ofNat_toNat) _

/-- Names and contents in turn. -/
def wordFiles : List (List ℕ) → List (String × Bytes)
  | name :: file :: words => (wordName name, file.map UInt8.ofNat) :: wordFiles words
  | _ => []

def fileWords (files : List (String × Bytes)) : List (List ℕ) :=
  files.flatMap fun file => [nameWord file.1, file.2.map ofByte]

theorem wordFiles_fileWords (files : List (String × Bytes)) :
    wordFiles (fileWords files) = files := by
  induction files with
  | nil => rfl
  | cons file files ih =>
      have hcons : fileWords (file :: files) =
          nameWord file.1 :: file.2.map ofByte :: fileWords files := rfl
      rw [hcons, wordFiles, ih, wordName_nameWord, ofNat_ofByte]

def messageWords (message : CacheMeta) : List (List ℕ) :=
  [[message.exitCode.toUInt32.toNat], message.standardOutput.map ofByte,
    message.standardError.map ofByte, message.extraInfo.map ofByte,
    message.filesDigest.map ofByte]

def wordsMessage : List (List ℕ) → Option CacheMeta
  | [[exitCode], standardOutput, standardError, extraInfo, filesDigest] =>
      some ⟨(UInt32.ofNat exitCode).toInt32, standardOutput.map UInt8.ofNat,
        standardError.map UInt8.ofNat, extraInfo.map UInt8.ofNat, filesDigest.map UInt8.ofNat⟩
  | _ => none

theorem wordsMessage_messageWords (message : CacheMeta) :
    wordsMessage (messageWords message) = some message := by
  simp only [messageWords, wordsMessage, ofNat_ofByte, UInt32.ofNat_toNat]
  rfl

/-- A library whose digest is the content itself, and which keeps of the extra information
only that there is some. -/
def sampleLibrary : TaskLibrary where
  serialize message := encodeWords (messageWords message)
  parse bytes := (decodeWords 0 [] bytes).bind wordsMessage
  blake3 := id
  packFrom _ := [1]
  unpackTo bytes := if bytes = [] then none else some ⟨∅⟩
  typeUrl _ := ""
  compress := id
  writeKeyedBuffers files := encodeWords (fileWords files)
  tryParseKeyedBuffers bytes := (decodeWords 0 [] bytes).map wordFiles

theorem sampleLibrary_lawful : sampleLibrary.Lawful where
  parse_serialize message := by
    show (decodeWords 0 [] (encodeWords (messageWords message))).bind wordsMessage = some message
    rw [decodeWords_encodeWords]
    exact wordsMessage_messageWords message
  blake3_injective := Function.injective_id
  tryParse_writeKeyed files := by
    show (decodeWords 0 [] (encodeWords (fileWords files))).map wordFiles = some files
    rw [decodeWords_encodeWords, Option.map_some, wordFiles_fileWords]

/-- A task with one output file, in which the directory does not occur. -/
def sampleTask : CxxCompilationTask where
  workspaceDir := Shell.asciiBytes "/d"
  temporaryDirExtraDepth := "A"
  outputFiles := [("A/output.o", [127, 69])]
  cacheKey := some "k"

def sampleEntry (object : Bytes) : CacheEntry where
  exitCode := 0
  standardOutput := [111]
  standardError := []
  extraInfo := [1]
  files := encodeWords (fileWords [(".o", object)])

def sampleBytes : Bytes := writeCacheEntry sampleLibrary.toCacheLibrary 0 (sampleEntry [127, 69])

/-- The task when its compiler has ended. -/
def sampleCompleted : RemoteTask where
  exitCode := 0
  stdout := [111]
  stderr := []
  extraInfo := [1]
  filePack := encodeWords (fileWords [(".o", [127, 69])])

theorem onCompletion_sampleTask :
    onCompletion sampleLibrary (sampleTask.hooks sampleLibrary) 0 [111] [] =
      some (sampleCompleted, some ("k", sampleEntry [127, 69])) := by
  decide +kernel

theorem cacheHit_eq_wait_sampleTask :
    (∃ response,
      (tryReadCacheIfAllowed sampleLibrary .allow
        (tryRead sampleLibrary (AList.insert "k" sampleBytes ∅) true) "k").map
          (rebuildOutput sampleLibrary) = some response ∧
      (waitServantForTask (dispatcherConfig sampleLibrary "")
        (some (waitForCompilationOutput sampleCompleted))).map (rebuildOutput sampleLibrary) =
          .ok response) ∧
    tryParseCacheEntry sampleLibrary.toCacheLibrary (sampleBytes.take 30) = none := by
  have hwritten : asyncWrite sampleLibrary true 0 "k" (sampleEntry [127, 69]) =
      some ("k", sampleBytes) := rfl
  have hsize : sampleBytes.length ≤ 512 * 2 ^ 20 := by decide +kernel
  have hcached : (AList.insert "k" sampleBytes ∅ : UnorderedMap String Bytes).lookup "k" =
      some sampleBytes := AList.lookup_insert _
  obtain ⟨hresponse, -, -, -, htruncated⟩ := cacheHit_eq_wait sampleLibrary_lawful
    onCompletion_sampleTask hwritten hsize hcached ""
  exact ⟨hresponse, htruncated 30 (by decide +kernel)⟩

/-- An entry may be overwritten by one of other files, with their digest. -/
theorem tryParseCacheEntry_forged :
    ¬∀ lib : TaskLibrary, lib.Lawful → ∀ (entry : CacheEntry) (corrupted : Bytes),
      tryParseCacheEntry lib.toCacheLibrary corrupted = none ∨
        ∃ parsed, tryParseCacheEntry lib.toCacheLibrary corrupted = some parsed ∧
          parsed.files = entry.files := by
  intro hclaim
  have hparsed : tryParseCacheEntry sampleLibrary.toCacheLibrary sampleBytes =
      some (sampleEntry [127, 69]) :=
    tryParseCacheEntry_writeCacheEntry sampleLibrary_lawful.toLawful (by decide +kernel)
  rcases hclaim sampleLibrary sampleLibrary_lawful (sampleEntry [0]) sampleBytes with
    hnone | ⟨parsed, hsome, hfiles⟩
  · rw [hparsed] at hnone
    cases hnone
  · rw [hparsed] at hsome
    cases hsome
    exact absurd hfiles (by decide +kernel)

end Yadcc.Daemon.Local
