/-
# One identity for a task in three programs

The client hashes the source that it has preprocessed, the delegate puts that digest together
with those of the compiler and the arguments, and the servant does the same with a digest of
its own, of what it has decompressed. This module follows a submission through the three
programs and tells when the digests and the cache keys of the delegate and of a servant are
equal. Messages, compression and the transport of requests are parameters.
-/

import Yadcc.Client.RewriteFile
import Yadcc.Daemon.Cloud.RemoteTask
import Yadcc.Daemon.TaskDigest

namespace Yadcc

open Yadcc.Lib Yadcc.Daemon
open Yadcc.Lib.Shell (ascii asciiBytes)
open Yadcc.Daemon.Cloud (Status)

/-! ## The client's request -/

namespace Daemon.Local

structure FileDesc where
  path : Bytes
  size : UInt64
  timestamp : UInt64

structure SubmitCxxTaskRequest where
  requestorProcessId : Int32
  sourcePath : Bytes
  sourceDigest : Bytes
  compilerInvocationArguments : Bytes
  cacheControl : Int32
  compiler : FileDesc

end Daemon.Local

open Yadcc.Daemon.Local (SubmitCxxTaskRequest)

/-- The libraries of a submission. A request travels as JSON in front of an attachment, in a
body that the client writes and the daemon parses. -/
structure SubmissionLibrary extends DigestLibrary where
  compress : List Bytes → Bytes
  decompress : Bytes → Option Bytes
  Body : Type
  writeRequest : SubmitCxxTaskRequest → Bytes → Body
  tryParseRequest : Body → Except Status (SubmitCxxTaskRequest × List Bytes)

/-- Compression and transport are undone by their inverses. -/
structure SubmissionLibrary.Documented (lib : SubmissionLibrary) : Prop
    extends DigestLibrary.Documented lib.toDigestLibrary where
  decompress_compress : ∀ writes, lib.decompress (lib.compress writes) = some writes.flatten
  tryParse_write : ∀ request attachment,
    lib.tryParseRequest (lib.writeRequest request attachment) = .ok (request, [attachment])

variable (lib : SubmissionLibrary)

namespace Client

def CacheControl.toInt : CacheControl → Int32
  | .disallow => 0
  | .allow => 1
  | .refill => 2

/-- The body of the request. -/
def submitCompilationTask (pid : Int32) (mtime size : UInt64) (args : CompilerArgs)
    (rewrittenSource : RewriteResult) : lib.Body :=
  lib.writeRequest
    { requestorProcessId := pid
      sourcePath := rewrittenSource.sourcePath
      sourceDigest := rewrittenSource.sourceDigest
      compilerInvocationArguments := invocationArguments args rewrittenSource
      cacheControl := CacheControl.toInt rewrittenSource.cacheControl
      compiler := ⟨args.compiler, size, mtime⟩ }
    rewrittenSource.zstdRewritten

end Client

/-! ## The delegate's task -/

namespace Daemon.Cloud

structure QueueCxxCompilationTaskRequest where
  token : Bytes
  taskGrantId : ℕ
  envDesc : EnvironmentDesc
  sourcePath : Bytes
  invocationArguments : Bytes
  compressionAlgorithm : UInt32
  disallowCacheFill : Bool

def compressionAlgorithmZstd : UInt32 := 2

end Daemon.Cloud

namespace Daemon.Local

open Yadcc.Daemon.Cloud (QueueCxxCompilationTaskRequest)

structure FileDigest where
  size : UInt64
  mtime : UInt64
  hash : Bytes

abbrev FileDigestCache := UnorderedMap Bytes FileDigest

/-- The path is checked to be absolute. -/
def FileDigestCache.tryGet (self : FileDigestCache) (path : Bytes) (size mtime : UInt64) :
    Option (Option Bytes) :=
  if path.head? = some (ascii '/') then
    match self.lookup path with
    | some desc =>
        if desc.size = size ∧ desc.mtime = mtime then some (some desc.hash) else some none
    | none => some none
  else none

structure CxxCompilationTask where
  requestorPid : Int32
  cacheControl : CacheControl
  envDesc : EnvironmentDesc
  sourcePath : Bytes
  invocationArguments : Bytes
  sourceDigest : Bytes
  preprocessedSource : Bytes

/-- The value of an `int` that has been checked to be 0, 1 or 2. -/
def CacheControl.ofInt (value : Int32) : CacheControl :=
  if value = 0 then .disallow else if value = 1 then .allow else .refill

namespace CxxCompilationTask

/-- Without an answer the path of the compiler fails a check, or there is no attachment to be
taken. -/
def prepare (fileDigests : FileDigestCache) (request : SubmitCxxTaskRequest)
    (bytes : List Bytes) : Option (Except Status CxxCompilationTask) :=
  if request.requestorProcessId ≤ 1 ∨ request.sourcePath.isEmpty ∨
      request.compilerInvocationArguments.isEmpty ∨
      (request.cacheControl < 0 ∨ request.cacheControl > 2) ∨
      (request.cacheControl ≠ 0 ∧ request.sourceDigest.isEmpty) then
    some (.error ⟨400, asciiBytes "Invalid arguments."⟩)
  else
    match fileDigests.tryGet request.compiler.path request.compiler.size
        request.compiler.timestamp with
    | none => none
    | some none => some (.error ⟨400, asciiBytes "Compiler digest is unknown."⟩)
    | some (some fileDigest) =>
        match bytes with
        | [] => none
        | preprocessedSource :: _ =>
            some (.ok
              { requestorPid := request.requestorProcessId
                cacheControl := CacheControl.ofInt request.cacheControl
                envDesc := ⟨fileDigest⟩
                sourcePath := request.sourcePath
                invocationArguments := request.compilerInvocationArguments
                sourceDigest := request.sourceDigest
                preprocessedSource })

/-- The request to the servant with its attachment. -/
def startTask (task : CxxCompilationTask) (token : Bytes) (grantId : ℕ) :
    QueueCxxCompilationTaskRequest × Bytes :=
  ({ token
     taskGrantId := grantId
     envDesc := task.envDesc
     sourcePath := task.sourcePath
     invocationArguments := task.invocationArguments
     compressionAlgorithm := Cloud.compressionAlgorithmZstd
     disallowCacheFill := task.cacheControl == .disallow }, task.preprocessedSource)

def getDigest (task : CxxCompilationTask) : Bytes :=
  getCxxTaskDigest lib.toDigestLibrary task.envDesc task.invocationArguments task.sourceDigest

def getCacheKey (task : CxxCompilationTask) : Bytes :=
  getCxxCacheEntryKey lib.toDigestLibrary task.envDesc task.invocationArguments task.sourceDigest

end CxxCompilationTask

/-- The handler of a submission, up to the preparation of the task. -/
def submitCxxTask (fileDigests : FileDigestCache) (body : lib.Body) :
    Option (Except Status CxxCompilationTask) :=
  match lib.tryParseRequest body with
  | .error status => some (.error status)
  | .ok (request, bytes) => CxxCompilationTask.prepare fileDigests request bytes

end Daemon.Local

/-! ## The servant's task -/

namespace Daemon.Cloud

def nameMax : ℕ := 255

/-- Thirty bytes are left for the user of the path. -/
def kMaxPath : ℕ := pathMax - 30

/-- Append directories until the path is long enough. -/
def growPath (path : Bytes) : Bytes :=
  if path.length + 1 < kMaxPath then
    growPath (path ++ (List.replicate (min nameMax (kMaxPath - path.length - 1)) (ascii 'A') ++
      asciiBytes "/"))
  else path
termination_by kMaxPath - path.length
decreasing_by
  simp only [List.length_append, List.length_replicate, nameMax]
  omega

def makeLongLongRelativePathWith (basePath salt : Bytes) : Bytes :=
  (growPath (basePath ++ asciiBytes "/" ++ salt ++ asciiBytes "/")).dropLast.drop
    (basePath.length + 1)

def kMacros : List String := ["__TIME__", "__DATE__", "__TIMESTAMP__"]

/-- A task is cacheable if its source has none of the macros, or its arguments define all. -/
def verifyTaskCachability (allowCache : Bool) (arguments buffer : Bytes) : Bool :=
  if !allowCache then false
  else if kMacros.all fun e => (find (asciiBytes ("-D" ++ e ++ "=")) arguments).isSome then true
  else kMacros.all fun e => (find (asciiBytes e) buffer).isNone

/-- A C++ task that is ready to be queued. The flag is the value of the future that tells
whether the result may be written to the cache. -/
structure PreparedTask where
  workspaceDir : Bytes
  sourcePath : Bytes
  commandLine : Bytes
  source : Bytes
  envDesc : EnvironmentDesc
  invocationArguments : Bytes
  sourceDigest : Bytes
  writeCache : Bool
  temporaryDirExtraDepth : Bytes

namespace PreparedTask

/-- The registered compilers are given by their digests. -/
def prepare (compilerPaths : UnorderedMap Bytes Bytes) (workspaceDir : Bytes)
    (request : QueueCxxCompilationTaskRequest) (attachment : Bytes) :
    Except Status PreparedTask :=
  match compilerPaths.lookup request.envDesc.compilerDigest with
  | none =>
      .error ⟨1002,
        asciiBytes "The requested environment is not available at this server."⟩
  | some compiler =>
      if request.compressionAlgorithm ≠ compressionAlgorithmZstd then
        .error ⟨1005, asciiBytes "Compression algorithm not supported."⟩
      else
        match lib.decompress attachment with
        | none => .error ⟨1005, asciiBytes "Failed to decompress source code."⟩
        | some source =>
            let sourceDigest := lib.encodeHex (lib.blake3.digest source)
            let temporaryDirExtraDepth := makeLongLongRelativePathWith workspaceDir sourceDigest
            .ok
              { workspaceDir
                sourcePath := request.sourcePath
                commandLine := Client.servantCommandLine compiler request.invocationArguments
                  workspaceDir temporaryDirExtraDepth
                source
                envDesc := request.envDesc
                invocationArguments := request.invocationArguments
                sourceDigest
                writeCache := verifyTaskCachability (!request.disallowCacheFill)
                  request.invocationArguments source
                temporaryDirExtraDepth }

def getDigest (task : PreparedTask) : Bytes :=
  getCxxTaskDigest lib.toDigestLibrary task.envDesc task.invocationArguments task.sourceDigest

def getCacheKey (task : PreparedTask) : Option Bytes :=
  if task.writeCache then
    some (getCxxCacheEntryKey lib.toDigestLibrary task.envDesc task.invocationArguments
      task.sourceDigest)
  else none

end PreparedTask

end Daemon.Cloud

/-! ## A submission -/

/-- What a submission depends on: the compiler's arguments, what commands leave, the user's
choice, the process, and the compiler's file. -/
structure Submission where
  args : Client.CompilerArgs
  execute : Client.RewrittenArgs → Client.Execution
  cacheControl : Client.CacheControl
  pid : Int32
  mtime : UInt64
  size : UInt64

namespace Submission

/-- The submission of `source` is accepted by the delegate as the task `d`. -/
structure Submitted (fileDigests : Daemon.Local.FileDigestCache) (sub : Submission)
    (source : Bytes) (d : Daemon.Local.CxxCompilationTask) : Prop where
  preprocessed : Client.preprocessed sub.execute sub.args = some source
  accepted : ∃ rewritten : Client.RewriteResult,
    Client.rewriteFile lib.blake3 lib.compress sub.execute sub.cacheControl sub.args =
      some (some rewritten) ∧
    Daemon.Local.submitCxxTask lib fileDigests
      (Client.submitCompilationTask lib sub.pid sub.mtime sub.size sub.args rewritten) =
        some (.ok d)

/-- The texts that are hashed for a task of the delegate or of a servant. -/
def hashedTexts (envDesc : EnvironmentDesc) (invocationArguments sourceDigest source : Bytes) :
    Set Bytes :=
  {source, taskText envDesc invocationArguments sourceDigest,
    cacheEntryText envDesc invocationArguments sourceDigest}

end Submission

variable {lib}

/-! ## The shape of the arguments -/

namespace Client

/-- What is added last comes last, where the file names are dropped. -/
theorem CompilerArgs.rewrite_concat (args : CompilerArgs) (remove removePrefix add : List Bytes)
    (last : Bytes) :
    (args.rewrite remove removePrefix (add ++ [last]) false).args =
      (args.rewrite remove removePrefix add false).args ++ [last] := by
  simp [CompilerArgs.rewrite]

/-- A command line ends where its last argument does. -/
theorem RewrittenArgs.toCommandLine_concat {r : RewrittenArgs} {front : List Bytes} {last : Bytes}
    (h : r.args = front ++ [last]) (withProgram : Bool) :
    ∃ before, r.toCommandLine withProgram = before ++ escapeCommandArgument last := by
  have hblank : asciiBytes " " = [ascii ' '] := rfl
  rw [RewrittenArgs.toCommandLine, h, List.flatMap_append, List.flatMap_singleton, hblank,
    ← List.append_assoc, ← List.append_assoc, List.dropLast_concat]
  exact ⟨_, rfl⟩

theorem escapeCommandArgument_dash : escapeCommandArgument (asciiBytes "-") = [ascii '-'] := by
  decide

/-- The last argument is the one that makes the compiler read its standard input. -/
theorem getLast?_invocationArguments (args : CompilerArgs) (rewrittenSource : RewriteResult) :
    (invocationArguments args rewrittenSource).getLast? = some (ascii '-') := by
  have hlast := args.rewrite_concat (kIgnoredArgs.map asciiBytes)
    (kIgnoredArgPrefixes.map asciiBytes)
    [asciiBytes "-fpreprocessed",
      if rewrittenSource.directivesOnly then asciiBytes "-fdirectives-only" else [],
      asciiBytes "-x", rewrittenSource.language] (asciiBytes "-")
  obtain ⟨before, hbefore⟩ := RewrittenArgs.toCommandLine_concat hlast false
  rw [escapeCommandArgument_dash] at hbefore
  have hline : invocationArguments args rewrittenSource = before ++ [ascii '-'] := hbefore
  rw [hline, List.getLast?_concat]

/-- The numbers that the daemon reads back are in the range that it checks. -/
theorem CacheControl.ofInt_toInt_eq_disallow (cacheControl : CacheControl) :
    Daemon.Local.CacheControl.ofInt (CacheControl.toInt cacheControl) = .disallow ↔
      cacheControl = .disallow := by
  cases cacheControl with
  | disallow => decide
  | allow => decide
  | refill => decide

end Client

/-! ## What the delegate's task holds -/

namespace Daemon.Local

variable {fileDigests : FileDigestCache}

theorem FileDigestCache.lookup_of_tryGet {path hash : Bytes} {size mtime : UInt64}
    (h : fileDigests.tryGet path size mtime = some (some hash)) :
    ∃ desc, fileDigests.lookup path = some desc ∧ desc.hash = hash := by
  rw [tryGet] at h
  split_ifs at h
  split at h
  · next desc hlookup =>
      split_ifs at h
      · cases h
        exact ⟨desc, hlookup, rfl⟩
      · cases h
  · cases h

/-- A task that is accepted holds what the request says, the compiler's digest from the cache
and the first attachment. -/
theorem CxxCompilationTask.prepare_spec {request : SubmitCxxTaskRequest} {bytes : List Bytes}
    {d : CxxCompilationTask} (h : prepare fileDigests request bytes = some (.ok d)) :
    (∃ path desc, fileDigests.lookup path = some desc ∧ d.envDesc = ⟨desc.hash⟩) ∧
      d.cacheControl = CacheControl.ofInt request.cacheControl ∧
      d.invocationArguments = request.compilerInvocationArguments ∧
      d.sourceDigest = request.sourceDigest ∧ bytes.head? = some d.preprocessedSource := by
  rw [prepare] at h
  split_ifs at h
  · cases h
  split at h
  · cases h
  · cases h
  · next fileDigest hget =>
      obtain ⟨desc, hlookup, hhash⟩ := FileDigestCache.lookup_of_tryGet hget
      cases bytes with
      | nil => cases h
      | cons preprocessedSource rest =>
          cases h
          exact ⟨⟨_, desc, hlookup, by rw [hhash]⟩, rfl, rfl, rfl, rfl⟩

end Daemon.Local

namespace Submission

/-- What a delegate's task holds of the submission it was made of. -/
structure Delegated (lib : SubmissionLibrary) (cacheControl : Client.CacheControl) (source : Bytes)
    (d : Daemon.Local.CxxCompilationTask) : Prop where
  compiler : IsDigest d.envDesc.compilerDigest
  disallowed : d.cacheControl = .disallow ↔ cacheControl = .disallow
  arguments : d.invocationArguments.getLast? = some (ascii '-')
  sourceDigest :
    d.sourceDigest = Client.digestUnlessDisallowed lib.blake3 cacheControl source
  attachment : lib.decompress d.preprocessedSource = some source

theorem Submitted.delegated (hlib : lib.Documented) {fileDigests : Daemon.Local.FileDigestCache}
    {sub : Submission} {source : Bytes} {d : Daemon.Local.CxxCompilationTask}
    (hfile : ∀ path desc, fileDigests.lookup path = some desc → IsDigest desc.hash)
    (h : Submitted lib fileDigests sub source d) : Delegated lib sub.cacheControl source d := by
  obtain ⟨rewritten, hrewrite, haccepted⟩ := h.accepted
  obtain ⟨writes, hwrites, hcompressed, hcontrol, hdigest⟩ := Client.rewriteFile_spec hrewrite
  have hsource : writes.flatten = source := by
    rw [h.preprocessed, Option.some.injEq] at hwrites
    exact hwrites.symm
  rw [Daemon.Local.submitCxxTask, Client.submitCompilationTask, hlib.tryParse_write] at haccepted
  obtain ⟨⟨path, desc, hlookup, henv⟩, hcache, harguments, hsourceDigest, hattachment⟩ :=
    Daemon.Local.CxxCompilationTask.prepare_spec haccepted
  constructor
  · rw [henv]
    exact hfile path desc hlookup
  · rw [hcache, hcontrol]
    exact Client.CacheControl.ofInt_toInt_eq_disallow sub.cacheControl
  · rw [harguments]
    exact Client.getLast?_invocationArguments sub.args rewritten
  · rw [hsourceDigest, hdigest, hsource]
  · rw [List.head?_cons, Option.some.injEq] at hattachment
    rw [← hattachment, hcompressed, hlib.decompress_compress, hsource]

end Submission

/-! ## What a servant's task holds -/

namespace Daemon.Cloud

variable {compilerPaths : UnorderedMap Bytes Bytes} {workspaceDir attachment : Bytes}
  {request : QueueCxxCompilationTaskRequest} {s : PreparedTask}

/-- What a servant's task holds of the request it was prepared from. -/
structure PreparedFrom (lib : SubmissionLibrary) (request : QueueCxxCompilationTaskRequest)
    (attachment : Bytes) (s : PreparedTask) : Prop where
  envDesc : s.envDesc = request.envDesc
  arguments : s.invocationArguments = request.invocationArguments
  source : lib.decompress attachment = some s.source
  sourceDigest : s.sourceDigest = lib.blake3.hex s.source

theorem PreparedTask.prepare_spec (hlib : lib.Documented)
    (h : prepare lib compilerPaths workspaceDir request attachment = .ok s) :
    PreparedFrom lib request attachment s ∧
      ∃ path, compilerPaths.lookup s.envDesc.compilerDigest = some path := by
  rw [prepare] at h
  split at h
  · cases h
  · next compiler hcompiler =>
      split_ifs at h
      split at h
      · cases h
      · next source hsource =>
          cases h
          exact ⟨⟨rfl, rfl, hsource, hlib.encodeHex _⟩, compiler, hcompiler⟩

/-- A task has a cache key only if its request allows the cache to be filled. -/
theorem PreparedTask.eq_of_getCacheKey {key : Bytes} (h : s.getCacheKey lib = some key) :
    key = getCxxCacheEntryKey lib.toDigestLibrary s.envDesc s.invocationArguments
      s.sourceDigest := by
  rw [getCacheKey] at h
  split_ifs at h
  cases h
  rfl

end Daemon.Cloud

/-! ## Identity -/

namespace Submission

section Identity

variable {sub : Submission} {source : Bytes} {d : Daemon.Local.CxxCompilationTask}
  {s : Daemon.Cloud.PreparedTask} {request : Daemon.Cloud.QueueCxxCompilationTaskRequest}
  {attachment : Bytes} {texts : Set Bytes} {cacheControl : Client.CacheControl}

/-- The delegate's task that was sent to the servant has the same parts there, unless caching
is disallowed. -/
theorem Delegated.parts_eq (h : Delegated lib cacheControl source d)
    (hs : Daemon.Cloud.PreparedFrom lib request attachment s)
    (hcached : cacheControl ≠ .disallow) {token : Bytes} {grantId : ℕ}
    (hstart : d.startTask token grantId = (request, attachment)) :
    s.envDesc = d.envDesc ∧ s.invocationArguments = d.invocationArguments ∧
      s.sourceDigest = d.sourceDigest := by
  cases hstart
  have hsource : s.source = source := by
    have hsame := hs.source.symm.trans h.attachment
    exact Option.some.inj hsame
  refine ⟨hs.envDesc, hs.arguments, ?_⟩
  rw [hs.sourceDigest, hsource, h.sourceDigest, Client.digestUnlessDisallowed, if_neg hcached]

/-- Texts of the delegate and of a servant, behind the same tag, are equal only if caching is
allowed and all parts and the sources are equal. -/
theorem Delegated.eq_of_framed_eq (h : Delegated lib cacheControl source d)
    (hs : Daemon.Cloud.PreparedFrom lib request attachment s)
    (hcompiler : IsDigest s.envDesc.compilerDigest)
    (hfree : Set.InjOn lib.blake3.digest texts) (hsource : source ∈ texts)
    (hsource' : s.source ∈ texts) {tag : Bytes}
    (htext : framed tag d.envDesc.compilerDigest d.invocationArguments d.sourceDigest =
      framed tag s.envDesc.compilerDigest s.invocationArguments s.sourceDigest) :
    cacheControl ≠ .disallow ∧ d.envDesc = s.envDesc ∧
      d.invocationArguments = s.invocationArguments ∧ source = s.source := by
  have hdigest : IsDigest s.sourceDigest := by
    rw [hs.sourceDigest]
    exact isDigest_hex lib.blake3 s.source
  have hd := h.sourceDigest
  rw [Client.digestUnlessDisallowed] at hd
  by_cases hdisallow : cacheControl = .disallow
  · rw [if_pos hdisallow] at hd
    rw [hd] at htext
    exact absurd htext (framed_ne_of_empty h.arguments (by decide) hdigest)
  · rw [if_neg hdisallow] at hd
    have hdigest' : IsDigest d.sourceDigest := by
      rw [hd]
      exact isDigest_hex lib.blake3 source
    obtain ⟨henv, harguments, hsame⟩ :=
      parts_eq_of_framed_eq h.compiler hcompiler hdigest' hdigest htext
    rw [hd, hs.sourceDigest] at hsame
    exact ⟨hdisallow, henv, harguments, Hash.hex_injOn hfree hsource hsource' hsame⟩

/-- As long as no two of the texts that are hashed collide: a servant that was sent the task
of a submission with caching allowed has the delegate's digest and fills the delegate's cache
key; whatever a servant has prepared, equal digests or keys mean that compiler, arguments and
source are equal; a submission with caching disallowed shares neither with any task of a
servant; and no digest of a task is the digest of a cache key. -/
theorem task_identity (hlib : lib.Documented) {fileDigests : Daemon.Local.FileDigestCache}
    {compilerPaths : UnorderedMap Bytes Bytes} {workspaceDir : Bytes}
    (hfile : ∀ path desc, fileDigests.lookup path = some desc → IsDigest desc.hash)
    (hcompilers : ∀ digest path, compilerPaths.lookup digest = some path → IsDigest digest)
    (hsubmitted : Submitted lib fileDigests sub source d)
    (hprepared :
      Daemon.Cloud.PreparedTask.prepare lib compilerPaths workspaceDir request attachment = .ok s)
    (hfree : Set.InjOn lib.blake3.digest texts)
    (hd : hashedTexts d.envDesc d.invocationArguments d.sourceDigest source ⊆ texts)
    (hs : hashedTexts s.envDesc s.invocationArguments s.sourceDigest s.source ⊆ texts) :
    (sub.cacheControl ≠ .disallow →
      (∃ token grantId, d.startTask token grantId = (request, attachment)) →
      s.getDigest lib = d.getDigest lib ∧
        ∀ key, s.getCacheKey lib = some key → key = d.getCacheKey lib) ∧
    (d.getDigest lib = s.getDigest lib ∨ s.getCacheKey lib = some (d.getCacheKey lib) →
      d.envDesc = s.envDesc ∧ d.invocationArguments = s.invocationArguments ∧
        source = s.source) ∧
    (sub.cacheControl = .disallow →
      d.getDigest lib ≠ s.getDigest lib ∧ s.getCacheKey lib ≠ some (d.getCacheKey lib)) ∧
    ∀ envDesc arguments sourceDigest envDesc' arguments' sourceDigest',
      taskText envDesc arguments sourceDigest ∈ texts →
      cacheEntryText envDesc' arguments' sourceDigest' ∈ texts →
      getCxxTaskDigest lib.toDigestLibrary envDesc arguments sourceDigest ≠
        cacheEntryDigest lib.toDigestLibrary envDesc' arguments' sourceDigest' := by
  have hdelegated := hsubmitted.delegated hlib hfile
  obtain ⟨hfrom, path, hlookup⟩ := Daemon.Cloud.PreparedTask.prepare_spec hlib hprepared
  have hcompiler := hcompilers _ _ hlookup
  have hequal : d.getDigest lib = s.getDigest lib ∨ s.getCacheKey lib = some (d.getCacheKey lib) →
      sub.cacheControl ≠ .disallow ∧ d.envDesc = s.envDesc ∧
        d.invocationArguments = s.invocationArguments ∧ source = s.source := by
    rintro (hdigest | hkey)
    · have htext := taskText_eq_of_digest_eq hlib.toDocumented hfree (hd (by simp [hashedTexts]))
        (hs (by simp [hashedTexts])) hdigest
      exact hdelegated.eq_of_framed_eq hfrom hcompiler hfree (hd (by simp [hashedTexts]))
        (hs (by simp [hashedTexts])) htext
    · have htext := cacheEntryText_eq_of_key_eq hlib.toDocumented hfree
        (hd (by simp [hashedTexts])) (hs (by simp [hashedTexts]))
        (Daemon.Cloud.PreparedTask.eq_of_getCacheKey hkey)
      exact hdelegated.eq_of_framed_eq hfrom hcompiler hfree (hd (by simp [hashedTexts]))
        (hs (by simp [hashedTexts])) htext
  refine ⟨?_, fun h => (hequal h).2, ?_, ?_⟩
  · rintro hcached ⟨token, grantId, hstart⟩
    obtain ⟨henv, harguments, hdigest⟩ := hdelegated.parts_eq hfrom hcached hstart
    constructor
    · rw [Daemon.Cloud.PreparedTask.getDigest, henv, harguments, hdigest,
        Daemon.Local.CxxCompilationTask.getDigest]
    · intro key hkey
      rw [Daemon.Cloud.PreparedTask.eq_of_getCacheKey hkey, henv, harguments, hdigest,
        Daemon.Local.CxxCompilationTask.getCacheKey]
  · intro hdisallow
    exact ⟨fun h => (hequal (.inl h)).1 hdisallow, fun h => (hequal (.inr h)).1 hdisallow⟩
  · intro envDesc arguments sourceDigest envDesc' arguments' sourceDigest' hx hy
    exact getCxxTaskDigest_ne_cacheEntryDigest hlib.toDocumented hfree hx hy

end Identity

/-! ## A submission and its task -/

/-- What is written to the standard input of the compiler. -/
def sampleSource : Bytes := asciiBytes "int x;\n"

def sampleArguments : Bytes := asciiBytes "-c -O2 -fpreprocessed -fdirectives-only -x c++ -"

/-- The digest of an empty file. -/
def sampleEnvDesc : EnvironmentDesc :=
  ⟨asciiBytes "af1349b9f5f9a1a6a0404dea36dcc9499bcb25c9adc112b7cc9a93cae41f3262"⟩

def sampleSourceDigest : Bytes :=
  asciiBytes "083aa968c0a898c4c106b0c89991b17e5c035e5cc040e2b180c2d7149f9561df"

/-- BLAKE3 of the three texts below. -/
def sampleHash : Hash 32 where
  digest text :=
    if text = sampleSource then
      [0x08, 0x3a, 0xa9, 0x68, 0xc0, 0xa8, 0x98, 0xc4, 0xc1, 0x06, 0xb0, 0xc8, 0x99, 0x91, 0xb1,
        0x7e, 0x5c, 0x03, 0x5e, 0x5c, 0xc0, 0x40, 0xe2, 0xb1, 0x80, 0xc2, 0xd7, 0x14, 0x9f, 0x95,
        0x61, 0xdf]
    else if text = taskText sampleEnvDesc sampleArguments sampleSourceDigest then
      [0xc5, 0x80, 0xa5, 0x7a, 0xde, 0x5d, 0xf1, 0xf5, 0x66, 0xd2, 0xd2, 0xbe, 0x57, 0x31, 0xf9,
        0x07, 0x3d, 0x19, 0x6c, 0xe1, 0xbd, 0x17, 0xa9, 0x8d, 0xf6, 0xdf, 0x11, 0xb0, 0x15, 0x72,
        0x44, 0xfc]
    else
      [0x14, 0xad, 0x0b, 0x86, 0xcb, 0xe4, 0x30, 0x8e, 0x29, 0x1c, 0x73, 0xf4, 0x8a, 0x85, 0x10,
        0x8e, 0xb4, 0xbf, 0x2b, 0xb7, 0x9b, 0xb5, 0x8c, 0x3a, 0xa7, 0xc9, 0xc5, 0x74, 0x27, 0xa2,
        0x5e, 0x51]
  length_digest := by
    intro text
    split_ifs
    · rfl
    · rfl
    · rfl

/-- Sources are stored, and requests are passed on as they are. -/
def sampleLibrary : SubmissionLibrary where
  blake3 := sampleHash
  encodeHex := hexBytes
  compress := List.flatten
  decompress := some
  Body := SubmitCxxTaskRequest × Bytes
  writeRequest request attachment := (request, attachment)
  tryParseRequest body := .ok (body.1, [body.2])

theorem sampleLibrary_documented : sampleLibrary.Documented where
  encodeHex _ := rfl
  decompress_compress _ := rfl
  tryParse_write _ _ := rfl

/-- `g++ -c -O2 a.cc` with the cache allowed. -/
def sampleSubmission : Submission where
  args := ⟨asciiBytes "/usr/bin/g++", [(asciiBytes "-c", []), (asciiBytes "-O2", [])],
    [asciiBytes "a.cc"]⟩
  execute _ := ⟨0, [sampleSource]⟩
  cacheControl := .allow
  pid := 100
  mtime := 1
  size := 2

def sampleFileDigests : Daemon.Local.FileDigestCache :=
  AList.singleton (asciiBytes "/usr/bin/g++") ⟨2, 1, sampleEnvDesc.compilerDigest⟩

def sampleTask : Daemon.Local.CxxCompilationTask where
  requestorPid := 100
  cacheControl := .allow
  envDesc := sampleEnvDesc
  sourcePath := asciiBytes "a.cc"
  invocationArguments := sampleArguments
  sourceDigest := sampleSourceDigest
  preprocessedSource := sampleSource

def sampleCompilerPaths : UnorderedMap Bytes Bytes :=
  AList.singleton sampleEnvDesc.compilerDigest (asciiBytes "/usr/bin/g++")

def samplePrepared : Daemon.Cloud.PreparedTask where
  workspaceDir := asciiBytes "/tmp/1"
  sourcePath := asciiBytes "a.cc"
  commandLine := Client.servantCommandLine (asciiBytes "/usr/bin/g++") sampleArguments
    (asciiBytes "/tmp/1")
    (Daemon.Cloud.makeLongLongRelativePathWith (asciiBytes "/tmp/1") sampleSourceDigest)
  source := sampleSource
  envDesc := sampleEnvDesc
  invocationArguments := sampleArguments
  sourceDigest := sampleSourceDigest
  writeCache := true
  temporaryDirExtraDepth :=
    Daemon.Cloud.makeLongLongRelativePathWith (asciiBytes "/tmp/1") sampleSourceDigest

theorem sampleHash_source : hexBytes (sampleHash.digest sampleSource) = sampleSourceDigest := by
  decide

theorem isDigest_sampleEnvDesc : IsDigest sampleEnvDesc.compilerDigest :=
  ⟨rfl, List.all_eq_true.mp rfl⟩

theorem sampleSubmission_submitted :
    Submitted sampleLibrary sampleFileDigests sampleSubmission sampleSource sampleTask where
  preprocessed := rfl
  accepted := by
    refine ⟨⟨asciiBytes "c++", asciiBytes "a.cc", true, .allow, sampleSource,
      hexBytes (sampleHash.digest sampleSource)⟩, rfl, ?_⟩
    rw [sampleHash_source]
    rfl

theorem samplePrepared_prepared :
    Daemon.Cloud.PreparedTask.prepare sampleLibrary sampleCompilerPaths (asciiBytes "/tmp/1")
      (sampleTask.startTask (asciiBytes "token") 7).1 sampleSource = .ok samplePrepared := by
  have hcompiler : sampleCompilerPaths.lookup
      (sampleTask.startTask (asciiBytes "token") 7).1.envDesc.compilerDigest =
        some (asciiBytes "/usr/bin/g++") :=
    AList.mem_lookup_iff.mpr (List.mem_singleton_self _)
  have hdigest : sampleLibrary.encodeHex (sampleLibrary.blake3.digest sampleSource) =
      sampleSourceDigest := sampleHash_source
  have hwrite : Daemon.Cloud.verifyTaskCachability true sampleArguments sampleSource = true := by
    decide
  rw [Daemon.Cloud.PreparedTask.prepare, hcompiler]
  simp only [sampleLibrary] at hdigest ⊢
  rw [hdigest]
  exact congrArg (fun b => Except.ok { samplePrepared with writeCache := b }) hwrite

/-- The three texts differ in their first bytes. -/
theorem head?_sampleTexts :
    sampleSource.head? = some (ascii 'i') ∧
    (taskText sampleEnvDesc sampleArguments sampleSourceDigest).head? = some (ascii 'c') ∧
    (cacheEntryText sampleEnvDesc sampleArguments sampleSourceDigest).head? = some (ascii 'u') :=
  ⟨rfl, rfl, rfl⟩

/-- So they have different digests. -/
theorem sampleHash_injOn : Set.InjOn sampleHash.digest
    (hashedTexts sampleEnvDesc sampleArguments sampleSourceDigest sampleSource) := by
  obtain ⟨hi, hc, hu⟩ := head?_sampleTexts
  have hne : taskText sampleEnvDesc sampleArguments sampleSourceDigest ≠ sampleSource := by
    intro heq
    rw [heq, hi] at hc
    exact absurd hc (by decide)
  have hne' : cacheEntryText sampleEnvDesc sampleArguments sampleSourceDigest ≠ sampleSource := by
    intro heq
    rw [heq, hi] at hu
    exact absurd hu (by decide)
  have hne'' : cacheEntryText sampleEnvDesc sampleArguments sampleSourceDigest ≠
      taskText sampleEnvDesc sampleArguments sampleSourceDigest := by
    intro heq
    rw [heq, hc] at hu
    exact absurd hu (by decide)
  have htask : sampleHash.digest sampleSource ≠
      sampleHash.digest (taskText sampleEnvDesc sampleArguments sampleSourceDigest) := by
    simp [sampleHash, hne]
  have hentry : sampleHash.digest sampleSource ≠
      sampleHash.digest (cacheEntryText sampleEnvDesc sampleArguments sampleSourceDigest) := by
    simp [sampleHash, hne', hne'']
  have hboth : sampleHash.digest (taskText sampleEnvDesc sampleArguments sampleSourceDigest) ≠
      sampleHash.digest (cacheEntryText sampleEnvDesc sampleArguments sampleSourceDigest) := by
    simp [sampleHash, hne, hne', hne'']
  rintro x (rfl | rfl | rfl) y (rfl | rfl | rfl) h
  · rfl
  · exact absurd h htask
  · exact absurd h hentry
  · exact absurd h.symm htask
  · rfl
  · exact absurd h hboth
  · exact absurd h.symm hentry
  · exact absurd h.symm hboth
  · rfl

theorem task_identity_sample :
    samplePrepared.getDigest sampleLibrary = sampleTask.getDigest sampleLibrary ∧
      samplePrepared.getCacheKey sampleLibrary = some (sampleTask.getCacheKey sampleLibrary) := by
  have hfile : ∀ path desc, sampleFileDigests.lookup path = some desc → IsDigest desc.hash := by
    intro path desc hlookup
    have hdesc := AList.mem_lookup_iff.mp hlookup
    rw [sampleFileDigests, AList.singleton_entries, List.mem_singleton] at hdesc
    cases hdesc
    exact isDigest_sampleEnvDesc
  have hcompilers : ∀ digest path, sampleCompilerPaths.lookup digest = some path →
      IsDigest digest := by
    intro digest path hlookup
    have hdesc := AList.mem_lookup_iff.mp hlookup
    rw [sampleCompilerPaths, AList.singleton_entries, List.mem_singleton] at hdesc
    cases hdesc
    exact isDigest_sampleEnvDesc
  have hsame := (task_identity sampleLibrary_documented hfile hcompilers sampleSubmission_submitted
    samplePrepared_prepared sampleHash_injOn subset_rfl subset_rfl).1 (by decide)
      ⟨asciiBytes "token", 7, rfl⟩
  exact ⟨hsame.1, congrArg some (hsame.2 _ rfl)⟩

end Submission

end Yadcc
