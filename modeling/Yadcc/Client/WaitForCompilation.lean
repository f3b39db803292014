/-
# Waiting for a compilation

The client asks the daemon for the result of its task until there is one. An answer is a
multi-chunk message with JSON in front and the compressed files behind it. The client trusts
the daemon with it: a wrong kind of value, a missing file or one that does not decompress ends
the program. The readers of JSON and of compressed files are parameters.
-/

import Yadcc.Client.CompilationSaas
import Yadcc.Client.MultiChunk
import Yadcc.Client.OutputFiles
import Yadcc.Lib.Json

namespace Yadcc.Client

open Yadcc.Lib
open Yadcc.Lib.Shell (asciiBytes)
open Yadcc.Daemon.Cloud (Location)

/-- Files are named by their suffixes. -/
structure CompilationResult where
  exitCode : ℤ
  output : String
  error : String
  outputFiles : List (String × Bytes)
  deriving DecidableEq

/-- A result of the client itself. -/
def CompilationResult.failed (exitCode : ℤ) : CompilationResult := ⟨exitCode, "", "", []⟩

/-- How an answer ends the program. -/
inductive ResponseFault
  | pastEnd (fault : PastEnd)
  | json (fault : Json.Fault)
  | outOfRange
  | decompression
  | overrun (fault : Overrun)

structure ResponseLibrary where
  readJson : Bytes → Option Json
  decompress : Bytes → Option Bytes

/-! ## The parts of an answer -/

def fileExtension (jsv : Json) (i : ℕ) : Except Json.Fault String := do
  let fileExtensions ← jsv.member "file_extensions"
  let extension ← fileExtensions.element i
  extension.asString

/-- The places to be patched in a file, as they were sent. -/
def filePatches (jsv : Json) (i : ℕ) : Except Json.Fault (List Json) := do
  let patches ← jsv.member "patches"
  let patch ← patches.element i
  let locations ← patch.member "locations"
  return locations.values

def parseLocation (location : Json) : Except Json.Fault (Option Location) := do
  let position ← location.member "position"
  let totalSize ← location.member "total_size"
  let suffixToKeep ← location.member "suffix_to_keep"
  match position.asUInt64?, totalSize.asUInt64?, suffixToKeep.asUInt64? with
  | some position, some totalSize, some suffixToKeep =>
      return some ⟨position, totalSize, suffixToKeep⟩
  | _, _, _ => return none

abbrev PatchLocations := UnorderedMap String (List Location)

/-- `locations[ext].emplace_back`. -/
def PatchLocations.add (locations : PatchLocations) (ext : String) (location : Location) :
    PatchLocations :=
  locations.insert ext ((locations.lookup ext).getD [] ++ [location])

/-- The places of one file; without an answer one of them is malformed. -/
def addPatches (ext : String) :
    List Json → PatchLocations → Except Json.Fault (Option PatchLocations)
  | [], locations => .ok (some locations)
  | patch :: patches, locations => do
      match ← parseLocation patch with
      | none => return none
      | some location => addPatches ext patches (locations.add ext location)

/-- The places of the files from the `i`-th on. -/
def collectPatches (jsv : Json) :
    (files i : ℕ) → PatchLocations → Except Json.Fault (Option PatchLocations)
  | 0, _, locations => .ok (some locations)
  | files + 1, i, locations => do
      let ext ← fileExtension jsv i
      let patches ← filePatches jsv i
      match ← addPatches ext patches locations with
      | none => return none
      | some locations => collectPatches jsv files (i + 1) locations

def finishResult (jsv : Json) (outputFiles : List (String × Bytes)) :
    Except Json.Fault CompilationResult := do
  let exitCode ← (← jsv.member "exit_code").asInt
  let output ← (← jsv.member "output").asString
  let error ← (← jsv.member "error").asString
  return { exitCode, output, error, outputFiles }

/-! ## Answers -/

variable (lib : ResponseLibrary)

/-- A file of the answer. The first part is the JSON. -/
def outputFile (parsed : List Bytes) (jsv : Json) (i : ℕ) :
    Except ResponseFault (String × Bytes) := do
  let path ← (fileExtension jsv i).mapError .json
  match parsed[i + 1]? with
  | none => .error .outOfRange
  | some part =>
      match lib.decompress part with
      | none => .error .decompression
      | some decompressed => return (path, decompressed)

/-- The result of the patched files. -/
def patchedResult (jsv : Json) (files : ℕ) (outputFiles : List (String × Bytes))
    (desiredPath : Bytes) : Except ResponseFault CompilationResult := do
  match ← (collectPatches jsv files 0 ∅).mapError .json with
  | none => return .failed (-2)
  | some locations =>
      let buffers := outputFiles.map fun file => (file.1, Buffer.ofBytes file.2)
      let (applied, buffers) ←
        (patchPathOccurrences buffers locations desiredPath).mapError .overrun
      if applied then
        (finishResult jsv (buffers.map fun file => (file.1, file.2.bytes))).mapError .json
      else return .failed (-3)

/-- The body of an answer with status 200. `patchedAt` is the path to be patched into the files,
if they are to be patched. -/
def parseCompilationResult (patchedAt : Option Bytes) (body : Bytes) :
    Except ResponseFault CompilationResult := do
  match ← (tryParseMultiChunk body).mapError .pastEnd with
  | none => return .failed (-1)
  | some [] => return .failed (-1)
  | some (front :: chunks) =>
      match lib.readJson front with
      | none => return .failed (-1)
      | some jsv =>
          let fileExtensions ← (jsv.member "file_extensions").mapError .json
          let outputFiles ←
            (List.range fileExtensions.size).mapM (outputFile lib (front :: chunks) jsv)
          match patchedAt with
          | some desiredPath => patchedResult jsv fileExtensions.size outputFiles desiredPath
          | none => (finishResult jsv outputFiles).mapError .json

/-- The path that is patched into the files when coverage is asked for. -/
def patchedAt (args : CompilerArgs) (cwd outputFile : Bytes) : Option Bytes :=
  if (args.tryGet (asciiBytes "--coverage")).isSome ∨
      (args.tryGet (asciiBytes "-ftest-coverage")).isSome then
    some (getExpectedPath cwd outputFile)
  else none

/-- An answer to a request for the result. Without a result the client asks again. -/
def onWaitAnswer (desiredPath : Option Bytes) (status : ℤ) (body : Bytes) :
    Except ResponseFault (Option CompilationResult) :=
  if status = 503 then .ok none
  else if status = 404 then .ok (some (.failed (-1)))
  else if status ≠ 200 then .ok (some (.failed (-1)))
  else some <$> parseCompilationResult lib desiredPath body

theorem onWaitAnswer_ok (desiredPath : Option Bytes) (body : Bytes) :
    onWaitAnswer lib desiredPath 200 body =
      some <$> parseCompilationResult lib desiredPath body := by
  rw [onWaitAnswer, if_neg (by decide), if_neg (by decide), if_neg (by decide)]

/-- `WaitForCompilationTask`, given the daemon's answers to come. Without a result the last one
of them was not the last. -/
def waitForCompilationTask (desiredPath : Option Bytes) :
    List (ℤ × Bytes) → Except ResponseFault (Option CompilationResult)
  | [] => .ok none
  | (status, body) :: answers => do
      match ← onWaitAnswer lib desiredPath status body with
      | none => waitForCompilationTask desiredPath answers
      | some result => return some result

end Yadcc.Client
