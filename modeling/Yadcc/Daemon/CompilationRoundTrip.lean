/-
# A result on its way from the compiler to the client

The servant compresses and packs the files of a task, the delegate unpacks them and answers
the client with JSON in front of the compressed files, and the client takes the answer apart.
This module follows a result through the three programs: what the client ends up with is what
the compiler left, whether the delegate has it from the servant or from the cache. Texts are
JSON strings on the way, so the compiler's output has to be UTF-8.
-/

import Yadcc.Client.WaitForCompilation
import Yadcc.Daemon.Local.CachedOutput
import Yadcc.Daemon.Local.MultiChunk
import Yadcc.Daemon.Local.TaskRegistry

namespace Yadcc

open Yadcc.Lib Yadcc.Daemon Yadcc.Daemon.Cloud
open Yadcc.Client (CompilationResult)

/-! ## The delegate's answer -/

namespace Daemon.Local

def locationJson (location : Location) : Json :=
  .object [("position", .int location.position), ("total_size", .int location.totalSize),
    ("suffix_to_keep", .int location.suffixToKeep)]

def locationsJson (locations : List Location) : Json :=
  .object [("locations", .array (locations.map locationJson))]

/-- The message as JSON, with its two texts. Fields keep their names and are there always. -/
def WaitForCxxTaskResponse.toJson (response : WaitForCxxTaskResponse) (output error : String) :
    Json :=
  .object [("exit_code", .int response.exitCode), ("output", .string output),
    ("error", .string error),
    ("file_extensions", .array (response.fileExtensions.map .string)),
    ("patches", .array (response.patches.map locationsJson))]

end Daemon.Local

open Yadcc.Daemon.Local (WaitForCxxTaskResponse)

/-- The libraries on the way of a result: those of the servant and the delegate, the writer and
the reader of JSON, and the client's decompression. -/
structure ResultLibrary extends TaskLibrary where
  writeMessageAsJson : WaitForCxxTaskResponse → Bytes
  readJson : Bytes → Option Json
  decompress : Bytes → Option Bytes

structure ResultLibrary.Documented (lib : ResultLibrary) : Prop where
  lawful : lib.toTaskLibrary.Lawful
  unpackTo_packFrom : ∀ info, lib.unpackTo (lib.packFrom info) = some info
  compress_ne_nil : ∀ file, lib.compress file ≠ []
  decompress_compress : ∀ file, lib.decompress (lib.compress file) = some file
  readJson_nil : lib.readJson [] = none
  readJson_write : ∀ (response : WaitForCxxTaskResponse) output error,
    utf8 output = response.output → utf8 error = response.error →
      lib.readJson (lib.writeMessageAsJson response) = some (response.toJson output error)

/-- What the client uses of it. -/
def ResultLibrary.client (lib : ResultLibrary) : Client.ResponseLibrary :=
  ⟨lib.readJson, lib.decompress⟩

variable (lib : ResultLibrary)

namespace Daemon.Local

def writeMultiChunkResponse (message : WaitForCxxTaskResponse) (bytes : List Bytes) : Bytes :=
  makeMultiChunk (lib.writeMessageAsJson message :: bytes)

/-- The longest wait that the handler accepts, in milliseconds. -/
def kMaximumWaitableTime : ℕ := 10000

/-- `WaitForTaskGeneric` behind the parsing of its request, given how the wait for the task
ends: the status and the body of the answer. -/
def waitForTaskGeneric (millisecondsToWait : ℕ)
    (waitResult : Except WaitStatus DistributedTaskOutput) : ℤ × Bytes :=
  if kMaximumWaitableTime < millisecondsToWait then
    (400, Shell.asciiBytes "Unacceptable `milliseconds_to_wait`.")
  else
    match waitResult with
    | .error .timeout => (503, [])
    | .error .notFound => (404, [])
    | .ok output =>
        match rebuildOutput lib.toTaskLibrary output with
        | .ok (message, bytes) => (200, writeMultiChunkResponse lib message bytes)
        | .error (code, message) => (code, utf8 message)

end Daemon.Local

/-- The wait that the client asks for, in milliseconds. -/
def Client.millisecondsToWait : ℕ := 10000

/-! ## Reading an answer -/

section Reading

open Yadcc.Daemon.Local Yadcc.Client

variable {lib} {response : WaitForCxxTaskResponse} {output error : String}

@[simp]
theorem member_exitCode : (response.toJson output error).member "exit_code" =
    .ok (.int response.exitCode) := rfl

@[simp]
theorem member_output : (response.toJson output error).member "output" = .ok (.string output) := by
  simp [WaitForCxxTaskResponse.toJson, Json.member, List.lookup_cons]

@[simp]
theorem member_error : (response.toJson output error).member "error" = .ok (.string error) := by
  simp [WaitForCxxTaskResponse.toJson, Json.member, List.lookup_cons]

@[simp]
theorem member_fileExtensions : (response.toJson output error).member "file_extensions" =
    .ok (.array (response.fileExtensions.map .string)) := by
  simp [WaitForCxxTaskResponse.toJson, Json.member, List.lookup_cons]

@[simp]
theorem member_patches : (response.toJson output error).member "patches" =
    .ok (.array (response.patches.map locationsJson)) := by
  simp [WaitForCxxTaskResponse.toJson, Json.member, List.lookup_cons]

theorem finishResult_toJson (hle : -2 ^ 31 ≤ response.exitCode) (hlt : response.exitCode < 2 ^ 31)
    (files : List (String × Bytes)) :
    finishResult (response.toJson output error) files =
      .ok ⟨response.exitCode, output, error, files⟩ := by
  rw [finishResult, member_exitCode, ok_bind, Json.asInt_int hle hlt, ok_bind, member_output,
    ok_bind, Json.asString_string, ok_bind, member_error, ok_bind, Json.asString_string]
  rfl

theorem fileExtension_toJson {i : ℕ} {ext : String} (h : response.fileExtensions[i]? = some ext) :
    fileExtension (response.toJson output error) i = .ok ext := by
  have helement : (response.fileExtensions.map Json.string)[i]? = some (.string ext) := by
    rw [List.getElem?_map, h]
    rfl
  rw [fileExtension, member_fileExtensions, ok_bind, Json.element_array helement]
  rfl

/-- A file behind the JSON. -/
theorem outputFile_eq (hlib : lib.Documented) {front : Bytes} {files : List (String × Bytes)}
    (hextensions : response.fileExtensions = files.map Prod.fst) {i : ℕ} (hi : i < files.length) :
    outputFile lib.client (front :: files.map fun file => lib.compress file.2)
      (response.toJson output error) i = .ok files[i] := by
  have hext : response.fileExtensions[i]? = some files[i].1 := by
    rw [hextensions, List.getElem?_map, List.getElem?_eq_getElem hi]
    rfl
  have hpart : (front :: files.map fun file => lib.compress file.2)[i + 1]? =
      some (lib.compress files[i].2) := by
    rw [List.getElem?_cons_succ, List.getElem?_map, List.getElem?_eq_getElem hi]
    rfl
  have hfile : lib.client.decompress (lib.compress files[i].2) = some files[i].2 :=
    hlib.decompress_compress _
  rw [outputFile, fileExtension_toJson hext, hpart]
  simp only [hfile]
  rfl

theorem outputFiles_eq (hlib : lib.Documented) {front : Bytes} {files : List (String × Bytes)}
    (hextensions : response.fileExtensions = files.map Prod.fst) :
    (List.range files.length).mapM (outputFile lib.client
      (front :: files.map fun file => lib.compress file.2) (response.toJson output error)) =
      .ok files := by
  have hrounds : ∀ i ∈ List.range files.length, outputFile lib.client
      (front :: files.map fun file => lib.compress file.2) (response.toJson output error) i =
        .ok (files[i]?.getD default) := by
    intro i hi
    have hlt := List.mem_range.mp hi
    rw [outputFile_eq hlib hextensions hlt, List.getElem?_eq_getElem hlt]
    rfl
  rw [Json.mapM_ok hrounds]
  congr 1
  apply List.ext_getElem
  · simp
  · intro i _ hi
    simp [hi]

/-! The places to be patched. -/

theorem parseLocation_locationJson {location : Location} (hposition : location.position < 2 ^ 64)
    (htotal : location.totalSize < 2 ^ 64) (hsuffix : location.suffixToKeep < 2 ^ 64) :
    parseLocation (locationJson location) = .ok (some location) := by
  have hmembers : (locationJson location).member "position" = .ok (.int location.position) ∧
      (locationJson location).member "total_size" = .ok (.int location.totalSize) ∧
      (locationJson location).member "suffix_to_keep" = .ok (.int location.suffixToKeep) := by
    simp [locationJson, Json.member, List.lookup_cons]
  obtain ⟨hp, ht, hs⟩ := hmembers
  rw [parseLocation, hp, ok_bind, ht, ok_bind, hs, ok_bind, Json.asUInt64?_int hposition,
    Json.asUInt64?_int htotal, Json.asUInt64?_int hsuffix]
  rfl

/-- Numbers of 64 bits. -/
def Sendable (location : Location) : Prop :=
  location.position < 2 ^ 64 ∧ location.totalSize < 2 ^ 64 ∧ location.suffixToKeep < 2 ^ 64

/-- The client's table of the places that were sent with their extensions. -/
def received (sent : List (String × List Location)) : PatchLocations :=
  sent.foldl (fun locations e => e.2.foldl (fun locations => locations.add e.1) locations) ∅

theorem addPatches_map (ext : String) {patches : List Location} (h : ∀ l ∈ patches, Sendable l)
    (locations : PatchLocations) :
    addPatches ext (patches.map locationJson) locations =
      .ok (some (patches.foldl (fun locations => locations.add ext) locations)) := by
  induction patches generalizing locations with
  | nil => rfl
  | cons l patches ih =>
      obtain ⟨⟨hposition, htotal, hsuffix⟩, hrest⟩ := List.forall_mem_cons.mp h
      rw [List.map_cons, addPatches, parseLocation_locationJson hposition htotal hsuffix, ok_bind]
      exact ih hrest (locations.add ext l)

theorem filePatches_toJson {i : ℕ} {patches : List Location}
    (h : response.patches[i]? = some patches) :
    filePatches (response.toJson output error) i = .ok (patches.map locationJson) := by
  have helement : (response.patches.map locationsJson)[i]? = some (locationsJson patches) := by
    rw [List.getElem?_map, h]
    rfl
  rw [filePatches, member_patches, ok_bind, Json.element_array helement]
  rfl

/-- The rounds of the loop behind those for `before`. -/
theorem collectPatches_append {before after : List (String × List Location)}
    (hextensions : response.fileExtensions = (before ++ after).map Prod.fst)
    (hpatches : response.patches = (before ++ after).map Prod.snd)
    (h : ∀ e ∈ after, ∀ l ∈ e.2, Sendable l) (locations : PatchLocations) :
    collectPatches (response.toJson output error) after.length before.length locations =
      .ok (some (after.foldl (fun locations e =>
        e.2.foldl (fun locations => locations.add e.1) locations) locations)) := by
  induction after generalizing before locations with
  | nil => rfl
  | cons e after ih =>
      obtain ⟨hsendable, hrest⟩ := List.forall_mem_cons.mp h
      have hext : response.fileExtensions[before.length]? = some e.1 := by
        rw [hextensions]
        simp
      have hpatch : response.patches[before.length]? = some e.2 := by
        rw [hpatches]
        simp
      rw [List.length_cons, collectPatches, fileExtension_toJson hext, ok_bind,
        filePatches_toJson hpatch, ok_bind, addPatches_map e.1 hsendable, ok_bind, List.foldl_cons]
      have hmove : before ++ e :: after = before ++ [e] ++ after := by simp
      rw [hmove] at hextensions hpatches
      have hlength : before.length + 1 = (before ++ [e]).length := by simp
      simp only
      rw [hlength]
      exact ih hextensions hpatches hrest _

end Reading

/-! ## A delegate's answer is read by the client -/

namespace Daemon.Local

open Yadcc.Client

variable {lib}

/-- What the client makes of the files once it has them. -/
def finished (exitCode : ℤ) (output error : String) (files : List (String × Bytes))
    (sent : List (String × List Location)) (desiredPath : Option Bytes) :
    Except ResponseFault CompilationResult :=
  match desiredPath with
  | none => .ok ⟨exitCode, output, error, files⟩
  | some desiredPath => do
      let (applied, buffers) ← (patchPathOccurrences
        (files.map fun file => (file.1, Buffer.ofBytes file.2)) (received sent)
        desiredPath).mapError .overrun
      if applied then
        .ok ⟨exitCode, output, error, buffers.map fun file => (file.1, file.2.bytes)⟩
      else .ok (.failed (-3))

/-- The client reads from a message with its files what the delegate wrote. -/
theorem parseCompilationResult_writeMultiChunkResponse (hlib : lib.Documented)
    {response : WaitForCxxTaskResponse} {output error : String}
    (houtput : utf8 output = response.output) (herror : utf8 error = response.error)
    (hle : -2 ^ 31 ≤ response.exitCode) (hlt : response.exitCode < 2 ^ 31)
    {files : List (String × Bytes)} (hextensions : response.fileExtensions = files.map Prod.fst)
    {patches : List (List Location)} (hpatches : response.patches = patches)
    (hlength : patches.length = files.length) (hsendable : ∀ ls ∈ patches, ∀ l ∈ ls, Sendable l)
    (hfits : (writeMultiChunkResponse lib response
      (files.map fun file => lib.compress file.2)).length ≤ longMax) (desiredPath : Option Bytes) :
    parseCompilationResult lib.client desiredPath
        (writeMultiChunkResponse lib response (files.map fun file => lib.compress file.2)) =
      finished response.exitCode output error files ((files.map Prod.fst).zip patches)
        desiredPath := by
  have hread := hlib.readJson_write response output error houtput herror
  have hparts : ∀ part ∈ lib.writeMessageAsJson response ::
      files.map (fun file => lib.compress file.2), part ≠ [] := by
    intro part hpart hnil
    rcases List.mem_cons.mp hpart with rfl | hpart
    · rw [hnil, hlib.readJson_nil] at hread
      cases hread
    · obtain ⟨file, -, rfl⟩ := List.mem_map.mp hpart
      exact hlib.compress_ne_nil _ hnil
  have hparsed : Client.tryParseMultiChunk (writeMultiChunkResponse lib response
      (files.map fun file => lib.compress file.2)) = .ok (some (lib.writeMessageAsJson response ::
        files.map fun file => lib.compress file.2)) :=
    tryParseMultiChunk_makeMultiChunk hparts hfits
  have hjson : lib.client.readJson (lib.writeMessageAsJson response) =
      some (response.toJson output error) := hread
  have hcount : (Json.array (response.fileExtensions.map Json.string)).size = files.length := by
    simp [hextensions]
  simp only [parseCompilationResult, hparsed, Except.mapError, ok_bind, hjson,
    member_fileExtensions, hcount, outputFiles_eq hlib hextensions]
  cases desiredPath with
  | none =>
      simp only [finishResult_toJson hle hlt]
      rfl
  | some desiredPath =>
      have hsent : ((files.map Prod.fst).zip patches).length = files.length := by
        simp [hlength]
      have hfst : ((files.map Prod.fst).zip patches).map Prod.fst = response.fileExtensions := by
        rw [hextensions, List.map_fst_zip (by simp [hlength])]
      have hsnd : ((files.map Prod.fst).zip patches).map Prod.snd = response.patches := by
        rw [hpatches, List.map_snd_zip (by simp [hlength])]
      have hcollect := @collectPatches_append response output error []
        ((files.map Prod.fst).zip patches) hfst.symm hsnd.symm
        (fun e he => hsendable e.2 (List.of_mem_zip he).2) ∅
      rw [hsent] at hcollect
      have hcollect : collectPatches (response.toJson output error) files.length 0 ∅ =
          .ok (some (received ((files.map Prod.fst).zip patches))) := hcollect
      simp only [patchedResult, hcollect, Except.mapError, ok_bind, finished,
        finishResult_toJson hle hlt]
      rfl

end Daemon.Local

/-! ## From the compiler to the client -/

section Arrival

open Yadcc.Daemon.Local Yadcc.Client

theorem append_of_suffixBehind {pathPrefix name suffix : String}
    (h : suffixBehind pathPrefix name = some suffix) : pathPrefix ++ suffix = name := by
  unfold suffixBehind at h
  split at h
  · next hprefix =>
      cases h
      obtain ⟨rest, hrest⟩ := List.isPrefixOf_iff_prefix.mp hprefix
      apply String.ext
      rw [String.toList_append, String.toList_ofList, ← hrest, ← String.length_toList,
        List.drop_left]
  · cases h

/-- The files of a task by their suffixes. -/
theorem outputFiles_of_mapM {task : Cloud.CxxCompilationTask} {files : List (String × Bytes)}
    (h : (task.outputFiles.mapM fun file =>
      (suffixBehind task.relativePathPrefix file.1).map fun suffix => (suffix, file.2)) =
        some files) :
    files.map (fun file => (task.relativePathPrefix ++ file.1, file.2)) = task.outputFiles := by
  generalize task.outputFiles = outputFiles at h
  induction outputFiles generalizing files with
  | nil =>
      cases h
      rfl
  | cons file outputFiles ih =>
      rw [List.mapM_cons] at h
      obtain ⟨first, hfirst, h⟩ := Option.bind_eq_some_iff.mp h
      obtain ⟨rest, hrest, h⟩ := Option.bind_eq_some_iff.mp h
      obtain ⟨suffix, hsuffix, rfl⟩ := Option.map_eq_some_iff.mp hfirst
      cases h
      rw [List.map_cons, ih hrest, append_of_suffixBehind hsuffix]

theorem sendable_of_locations {task : Cloud.CxxCompilationTask} {file : Bytes}
    {locations : List Location} (h : task.locations file = some locations) :
    ∀ l ∈ locations, Sendable l := by
  have huint32 : ∀ i : ℤ, uint32 i < 2 ^ 64 := by
    intro i
    unfold uint32
    omega
  unfold CxxCompilationTask.locations findAllPathLocation at h
  split at h
  · cases h
  · obtain ⟨occurrences, -, rfl⟩ := Option.map_eq_some_iff.mp h
    intro l hl
    obtain ⟨r, -, rfl⟩ := List.mem_map.mp hl
    simp only [Sendable, location]
    exact ⟨huint32 _, huint32 _, huint32 _⟩

/-- The places that a servant reports are numbers of 32 bits. -/
theorem sendable_of_fileNamePatches {task : Cloud.CxxCompilationTask} {patches : PatchLocations}
    (h : task.fileNamePatches = some patches) (ext : String) :
    ∀ l ∈ (patches.lookup ext).getD [], Sendable l := by
  have hfold : ∀ (files : List (String × Bytes)) (before after : PatchLocations),
      (∀ l ∈ (before.lookup ext).getD [], Sendable l) →
      files.foldlM (fun patches file => do
        let suffix ← suffixBehind task.relativePathPrefix file.1
        let locations ← task.locations file.2
        some (patches.insert suffix locations)) before = some after →
      ∀ l ∈ (after.lookup ext).getD [], Sendable l := by
    intro files
    induction files with
    | nil =>
        intro before after hbefore hafter
        cases hafter
        exact hbefore
    | cons file files ih =>
        intro before after hbefore hafter
        rw [List.foldlM_cons] at hafter
        obtain ⟨next, hnext, hafter⟩ := Option.bind_eq_some_iff.mp hafter
        obtain ⟨suffix, -, hnext⟩ := Option.bind_eq_some_iff.mp hnext
        obtain ⟨locations, hlocations, hnext⟩ := Option.bind_eq_some_iff.mp hnext
        cases hnext
        refine ih _ after ?_ hafter
        rw [AList.lookup_insert_eq]
        split
        · exact sendable_of_locations hlocations
        · exact hbefore
  exact hfold task.outputFiles ∅ patches (by simp) h

/-- What the delegate answers, and how the client takes it, once the delegate has an output. -/
theorem onWaitAnswer_of_rebuildOutput {lib : ResultLibrary} (hlib : lib.Documented)
    {result : DistributedTaskOutput} {output error : String} {files : List (String × Bytes)}
    {patches : List (List Location)}
    (hrebuild : rebuildOutput lib.toTaskLibrary result =
      .ok (⟨result.exitCode, utf8 output, utf8 error, files.map Prod.fst, patches⟩,
        files.map fun file => lib.compress file.2))
    (hle : -2 ^ 31 ≤ result.exitCode) (hlt : result.exitCode < 2 ^ 31)
    (hlength : patches.length = files.length) (hsendable : ∀ ls ∈ patches, ∀ l ∈ ls, Sendable l)
    (hfits : (waitForTaskGeneric lib millisecondsToWait (.ok result)).2.length ≤ longMax)
    (desiredPath : Option Bytes) :
    onWaitAnswer lib.client desiredPath (waitForTaskGeneric lib millisecondsToWait (.ok result)).1
        (waitForTaskGeneric lib millisecondsToWait (.ok result)).2 =
      some <$> finished result.exitCode output error files ((files.map Prod.fst).zip patches)
        desiredPath := by
  have hanswer : waitForTaskGeneric lib millisecondsToWait (.ok result) =
      (200, writeMultiChunkResponse lib
        ⟨result.exitCode, utf8 output, utf8 error, files.map Prod.fst, patches⟩
        (files.map fun file => lib.compress file.2)) := by
    rw [waitForTaskGeneric, if_neg (by decide)]
    simp only [hrebuild]
  rw [hanswer] at hfits ⊢
  rw [onWaitAnswer_ok,
    parseCompilationResult_writeMultiChunkResponse hlib rfl rfl hle hlt rfl rfl hlength
      hsendable hfits]

/-- A C++ task that has ended without killing the servant keeps what its compiler left. -/
theorem onCompletion_cases {lib : TaskLibrary} {task : Cloud.CxxCompilationTask}
    {exitCode : Int32} {standardOutput standardError : Bytes} {remote : RemoteTask}
    {entry : Option (String × CacheEntry)}
    (hcompleted : onCompletion lib (task.hooks lib) exitCode standardOutput standardError =
      some (remote, entry)) :
    ∃ oob, task.getOobOutput lib exitCode = some (.ok oob) ∧
      remote = ⟨exitCode, standardOutput, standardError, oob.extraInfo,
        lib.writeKeyedBuffers (oob.files.map fun file => (file.1, lib.compress file.2))⟩ := by
  obtain ⟨oob, hoob, hrest⟩ := Option.bind_eq_some_iff.mp hcompleted
  have hoob : task.getOobOutput lib exitCode = some oob := hoob
  cases oob with
  | error status =>
      exfalso
      unfold CxxCompilationTask.getOobOutput at hoob
      split at hoob
      · cases hoob
      · obtain ⟨patches, -, hoob⟩ := Option.bind_eq_some_iff.mp hoob
        obtain ⟨files, -, hoob⟩ := Option.bind_eq_some_iff.mp hoob
        cases hoob
  | ok oob =>
      refine ⟨oob, hoob, ?_⟩
      simp only at hrest
      split at hrest
      · cases hrest
        rfl
      · split at hrest
        · cases hrest
          rfl
        · cases hrest
          rfl

/-- The out-of-band output: the files by their suffixes, and the places to be patched in
them. -/
theorem getOobOutput_cases {lib : ResultLibrary} {task : Cloud.CxxCompilationTask}
    {exitCode : Int32} {oob : OobOutput}
    (h : task.getOobOutput lib.toTaskLibrary exitCode = some (.ok oob)) :
    oob.files.map (fun file => (task.relativePathPrefix ++ file.1, file.2)) =
      (if exitCode = 0 then task.outputFiles else []) ∧
    (exitCode ≠ 0 → oob.files = []) ∧
    (exitCode = 0 → ∃ patches, task.fileNamePatches = some patches ∧
      oob.extraInfo = lib.packFrom ⟨patches⟩) := by
  unfold CxxCompilationTask.getOobOutput at h
  split at h
  · next hne =>
      cases h
      exact ⟨by rw [if_neg hne]; rfl, fun _ => rfl, fun hzero => absurd hzero hne⟩
  · next hzero =>
      rw [ne_eq, not_not] at hzero
      obtain ⟨patches, hpatches, h⟩ := Option.bind_eq_some_iff.mp h
      obtain ⟨files, hfiles, h⟩ := Option.bind_eq_some_iff.mp h
      cases h
      exact ⟨by rw [if_pos hzero]; exact outputFiles_of_mapM hfiles,
        fun hne => absurd hzero hne, fun _ => ⟨patches, hpatches, rfl⟩⟩

/-- What comes of a task at the delegate. -/
theorem waitServantForTask_completed {lib : ResultLibrary} (hlib : lib.Documented)
    {task : Cloud.CxxCompilationTask} {exitCode : Int32} {standardOutput standardError : Bytes}
    {remote : RemoteTask} {entry : Option (String × CacheEntry)}
    (hcompleted : onCompletion lib.toTaskLibrary (task.hooks lib.toTaskLibrary) exitCode
      standardOutput standardError = some (remote, entry))
    (debuggingAlwaysUseServantAt : String) :
    ∃ (result : DistributedTaskOutput) (files : List (String × Bytes))
      (patches : List (List Location)),
      waitServantForTask (dispatcherConfig lib.toTaskLibrary debuggingAlwaysUseServantAt)
        (some (waitForCompilationOutput remote)) = .ok result ∧
      files.map (fun file => (task.relativePathPrefix ++ file.1, file.2)) =
        (if exitCode = 0 then task.outputFiles else []) ∧
      result.exitCode = exitCode.toInt ∧
      rebuildOutput lib.toTaskLibrary result =
        .ok (⟨result.exitCode, standardOutput, standardError, files.map Prod.fst, patches⟩,
          files.map fun file => lib.compress file.2) ∧
      patches.length = files.length ∧ (∀ ls ∈ patches, ∀ l ∈ ls, Sendable l) := by
  obtain ⟨oob, hoob, rfl⟩ := onCompletion_cases hcompleted
  obtain ⟨hfiles, hnone, hinfo⟩ := getOobOutput_cases hoob
  by_cases hzero : exitCode = 0
  · obtain ⟨patches, hpatches, hextra⟩ := hinfo hzero
    have hcode : exitCode.toInt = 0 := by rw [hzero]; rfl
    have hparse := hlib.lawful.tryParse_writeKeyed
      (oob.files.map fun file => (file.1, lib.compress file.2))
    refine ⟨⟨0, standardOutput, standardError, oob.extraInfo,
      oob.files.map fun file => (file.1, lib.compress file.2)⟩, oob.files,
      oob.files.map fun file => (patches.lookup file.1).getD [], ?_, hfiles, hcode.symm, ?_,
      List.length_map _, ?_⟩
    · simp only [waitServantForTask, waitForCompilationOutput, hcode, if_true, dispatcherConfig,
        tryParseFiles, hparse]
    · have hunpack : lib.unpackTo oob.extraInfo = some ⟨patches⟩ := by
        rw [hextra, hlib.unpackTo_packFrom]
      simp [rebuildOutput, hunpack, List.map_map, Function.comp_def]
    · intro ls hls
      obtain ⟨file, -, rfl⟩ := List.mem_map.mp hls
      exact sendable_of_fileNamePatches hpatches file.1
  · have hcode : exitCode.toInt ≠ 0 := fun h => hzero (Int32.toInt_inj.mp h)
    rw [hnone hzero] at hfiles
    refine ⟨⟨exitCode.toInt, standardOutput, standardError, oob.extraInfo, []⟩, [], [], ?_, hfiles,
      rfl, ?_, rfl, by simp⟩
    · simp only [waitServantForTask, waitForCompilationOutput]
      exact if_neg hcode
    · rw [rebuildOutput]
      split
      · rfl
      · rfl

end Arrival

/-! ## A library -/

namespace CompilationRoundTrip

open Yadcc.Daemon.Local

def readText (bytes : Bytes) : String :=
  (String.fromUTF8? ⟨bytes.toArray⟩).getD ""

theorem readText_utf8 (text : String) : readText (utf8 text) = text := by
  have hbytes : (⟨(utf8 text).toArray⟩ : ByteArray) = text.toByteArray := by
    simp [utf8]
  rw [readText, hbytes, String.fromUTF8?, dif_pos text.isValidUTF8]
  rfl

def locationsWord (locations : List Location) : List ℕ :=
  locations.flatMap fun l => [l.position, l.totalSize, l.suffixToKeep]

def wordLocations : List ℕ → List Location
  | position :: totalSize :: suffixToKeep :: word =>
      ⟨position, totalSize, suffixToKeep⟩ :: wordLocations word
  | _ => []

theorem wordLocations_locationsWord (locations : List Location) :
    wordLocations (locationsWord locations) = locations := by
  induction locations with
  | nil => rfl
  | cons l locations ih =>
      show (⟨l.position, l.totalSize, l.suffixToKeep⟩ : Location) ::
        wordLocations (locationsWord locations) = _
      rw [ih]

/-- Names and places in turn. -/
def patchWords (patches : List (Sigma fun _ : String => List Location)) : List (List ℕ) :=
  patches.flatMap fun e => [nameWord e.1, locationsWord e.2]

def wordPatches : List (List ℕ) → List (Sigma fun _ : String => List Location)
  | name :: locations :: words => ⟨wordName name, wordLocations locations⟩ :: wordPatches words
  | _ => []

theorem wordPatches_patchWords (patches : List (Sigma fun _ : String => List Location)) :
    wordPatches (patchWords patches) = patches := by
  induction patches with
  | nil => rfl
  | cons e patches ih =>
      show (⟨wordName (nameWord e.1), wordLocations (locationsWord e.2)⟩ :
        Sigma fun _ : String => List Location) :: wordPatches (patchWords patches) = _
      rw [ih, wordName_nameWord, wordLocations_locationsWord]

def responseWords (response : WaitForCxxTaskResponse) : List (List ℕ) :=
  [if response.exitCode < 0 then 1 else 0, response.exitCode.natAbs,
    response.fileExtensions.length] :: response.output.map ofByte :: response.error.map ofByte ::
      (response.fileExtensions.map nameWord ++ response.patches.map locationsWord)

/-- The response with its texts as JSON. -/
def wordsJson : List (List ℕ) → Option Json
  | [negative, exitCode, files] :: output :: error :: words =>
      some (WaitForCxxTaskResponse.toJson
        { exitCode := if negative = 1 then -exitCode else exitCode
          output := []
          error := []
          fileExtensions := (words.take files).map wordName
          patches := (words.drop files).map wordLocations }
        (readText (output.map UInt8.ofNat)) (readText (error.map UInt8.ofNat)))
  | _ => none

theorem wordsJson_responseWords {response : WaitForCxxTaskResponse} {output error : String}
    (houtput : utf8 output = response.output) (herror : utf8 error = response.error) :
    wordsJson (responseWords response) = some (response.toJson output error) := by
  have hsign : (if (if response.exitCode < 0 then 1 else 0) = 1 then
      -(response.exitCode.natAbs : ℤ) else response.exitCode.natAbs) = response.exitCode := by
    by_cases hneg : response.exitCode < 0
    · simp only [hneg, if_true]
      omega
    · simp only [hneg, if_false, zero_ne_one]
      omega
  have hextensions : (response.fileExtensions.map nameWord).map wordName =
      response.fileExtensions := by
    rw [List.map_map]
    exact List.map_id'' wordName_nameWord _
  have hpatches : (response.patches.map locationsWord).map wordLocations = response.patches := by
    rw [List.map_map]
    exact List.map_id'' wordLocations_locationsWord _
  have hlength : response.fileExtensions.length =
      (response.fileExtensions.map nameWord).length := (List.length_map _).symm
  simp only [responseWords, wordsJson, ofNat_ofByte]
  rw [hsign, hlength, List.take_left, List.drop_left, hextensions, hpatches, ← houtput, ← herror,
    readText_utf8, readText_utf8]
  rfl

/-- A library that keeps everything of a message. -/
def library : ResultLibrary where
  toTaskLibrary :=
    { Daemon.Local.sampleLibrary with
      packFrom := fun info => encodeWords (patchWords info.fileNamePatches.entries)
      unpackTo := fun bytes =>
        (decodeWords 0 [] bytes).bind fun words =>
          if h : (wordPatches words).keys.Nodup then some ⟨⟨wordPatches words, h⟩⟩ else none
      compress := fun file => 1 :: file }
  writeMessageAsJson response := encodeWords (responseWords response)
  readJson bytes := (decodeWords 0 [] bytes).bind wordsJson
  decompress := List.tail?

theorem library_documented : library.Documented where
  lawful :=
    { parse_serialize := sampleLibrary_lawful.parse_serialize
      blake3_injective := sampleLibrary_lawful.blake3_injective
      tryParse_writeKeyed := sampleLibrary_lawful.tryParse_writeKeyed }
  unpackTo_packFrom info := by
    show (decodeWords 0 [] (encodeWords (patchWords info.fileNamePatches.entries))).bind _ = _
    rw [decodeWords_encodeWords, Option.bind_some]
    simp only [wordPatches_patchWords]
    exact dif_pos info.fileNamePatches.nodupKeys
  compress_ne_nil file := List.cons_ne_nil 1 file
  decompress_compress _ := rfl
  readJson_nil := rfl
  readJson_write response output error houtput herror := by
    show (decodeWords 0 [] (encodeWords (responseWords response))).bind wordsJson = _
    rw [decodeWords_encodeWords, Option.bind_some, wordsJson_responseWords houtput herror]

/-- The task when its compiler has ended with a remark. -/
def completed : RemoteTask where
  exitCode := 0
  stdout := utf8 "o"
  stderr := utf8 ""
  extraInfo := library.packFrom ⟨AList.singleton ".o" []⟩
  filePack := library.writeKeyedBuffers [(".o", [1, 127, 69])]

theorem onCompletion_sampleTask : onCompletion library.toTaskLibrary
    (sampleTask.hooks library.toTaskLibrary) 0 (utf8 "o") (utf8 "") =
      some (completed, some ("k", ⟨completed.exitCode, completed.stdout, completed.stderr,
        completed.extraInfo, completed.filePack⟩)) := by
  decide +kernel

end CompilationRoundTrip

end Yadcc
