/-
# Compiling elsewhere, or not at all

What a compiler makes of its words and its input is a parameter. It may depend on the moment, but
not if the source has none of the time macros or the arguments define them all. The client's
compilation then has a meaning: its own compiler, its own words, and the preprocessed source.
A servant gives that meaning to the client, through its shell and all the formats on the way,
and so does the cache, whoever has filled it and whenever.
-/

import Yadcc.Client.CommandLine
import Yadcc.Client.RewriteRuns
import Yadcc.Daemon.CompilationRoundTrip
import Yadcc.Daemon.TaskIdentity

namespace Yadcc

open Yadcc.Lib Yadcc.Daemon Yadcc.Daemon.Cloud
open Yadcc.Lib.Shell (ascii asciiBytes role shellWords readWords read_blank)
open Yadcc.Client (CompilationResult CompilerArgs RewriteResult RewrittenArgs Survives PlainWord
  submittedArgs)
open Yadcc.Daemon.Local (DistributedTaskOutput dispatcherConfig)

/-! ## The servant's words -/

namespace Client

/-- Arguments that survive are the compiler's words on the servant. -/
theorem shellWords_servantCommandLine {r : RewrittenArgs} (hsurvive : ∀ a ∈ r.args, Survives a)
    {compiler workspaceDir extraDepth : Bytes} (hcompiler : PlainWord compiler)
    (houtput : PlainWord (outputPath workspaceDir extraDepth)) :
    shellWords (servantCommandLine compiler (r.toCommandLine false) workspaceDir extraDepth) =
      some (compiler :: (r.args ++ [asciiBytes "-o", outputPath workspaceDir extraDepth])) := by
  have hminus : PlainWord (asciiBytes "-o") := ⟨by decide, forall_mem_of_all (by decide)⟩
  have hline : servantCommandLine compiler (r.toCommandLine false) workspaceDir extraDepth =
      compiler ++ ascii ' ' :: (commandText r.args ++ ascii ' ' ::
        (asciiBytes "-o" ++ ascii ' ' :: (outputPath workspaceDir extraDepth ++ []))) := by
    simp [servantCommandLine, toCommandLine_eq, asciiBytes]
  have hend : readWords .unquoted none (ascii ' ' ::
      (asciiBytes "-o" ++ ascii ' ' :: (outputPath workspaceDir extraDepth ++ []))) =
        some [asciiBytes "-o", outputPath workspaceDir extraDepth] := by
    rw [read_blank, read_plainWord hminus (.inr ⟨_, rfl⟩), read_blank,
      read_plainWord houtput (.inl rfl)]
    rfl
  have hrendered : Rendered (ascii ' ' ::
      (asciiBytes "-o" ++ ascii ' ' :: (outputPath workspaceDir extraDepth ++ []))) :=
    .blank (PlainWord.rendered hminus.2 (.blank (PlainWord.rendered houtput.2 .nil)))
  rw [shellWords, hline, read_plainWord hcompiler (.inr ⟨_, rfl⟩), read_blank,
    (read_arguments_iff (.inr ⟨_, rfl⟩) hrendered hend).mpr hsurvive]
  rfl

/-- The digits of a digest need no quoting. -/
theorem plain_of_isHexDigit {b : UInt8} (h : isHexDigit b = true) :
    role b = .ordinary ∧ controlEscape b = none := by
  have hdigits : b ∈ (List.range 16).map hexDigit := by
    have hb : b = UInt8.ofNat b.toNat := (UInt8.ofNat_toNat).symm
    simp only [isHexDigit, Bool.or_eq_true, Bool.and_eq_true, decide_eq_true_eq] at h
    rw [hb]
    generalize b.toNat = n at h
    rcases h with ⟨hlow, hhigh⟩ | ⟨hlow, hhigh⟩
    · interval_cases n
      all_goals decide
    · interval_cases n
      all_goals decide
  exact forall_mem_of_all (p := fun b => role b = .ordinary ∧ controlEscape b = none)
    (by decide +kernel) b hdigits

theorem mem_growPath (path : Bytes) {b : UInt8} (h : b ∈ growPath path) :
    b ∈ path ∨ b = ascii 'A' ∨ b = ascii '/' := by
  induction path using growPath.induct with
  | case1 path hshort ih =>
      rw [growPath, if_pos hshort] at h
      have hmem := ih h
      simp only [List.mem_append, List.mem_replicate] at hmem
      rcases hmem with (hpath | ⟨-, hletter⟩ | hslash) | hrest
      · exact .inl hpath
      · exact .inr (.inl hletter)
      · exact .inr (.inr (List.mem_singleton.mp hslash))
      · exact .inr hrest
  | case2 path hlong =>
      rw [growPath, if_neg hlong] at h
      exact .inl h

/-- The path of the output files needs no quoting where that of the workspace needs none. -/
theorem plainWord_outputPath {workspaceDir salt : Bytes} (hdir : PlainWord workspaceDir)
    (hsalt : IsDigest salt) :
    PlainWord (outputPath workspaceDir (makeLongLongRelativePathWith workspaceDir salt)) := by
  have hslash : ∀ b ∈ asciiBytes "/", role b = .ordinary ∧ controlEscape b = none :=
    forall_mem_of_all (by decide)
  have hname : ∀ b ∈ asciiBytes "/output.o", role b = .ordinary ∧ controlEscape b = none :=
    forall_mem_of_all (by decide)
  have hdepth : ∀ b ∈ makeLongLongRelativePathWith workspaceDir salt,
      role b = .ordinary ∧ controlEscape b = none := by
    intro b hb
    have hgrown := List.mem_of_mem_dropLast (List.mem_of_mem_drop hb)
    rcases mem_growPath _ hgrown with hstart | rfl | rfl
    · simp only [List.mem_append] at hstart
      rcases hstart with ((hb | hb) | hb) | hb
      · exact hdir.2 b hb
      · exact hslash b hb
      · exact plain_of_isHexDigit (hsalt.2 b hb)
      · exact hslash b hb
    · decide
    · decide
  constructor
  · simp [outputPath, asciiBytes]
  · intro b hb
    simp only [outputPath, List.mem_append] at hb
    rcases hb with ((hb | hb) | hb) | hb
    · exact hdir.2 b hb
    · exact hslash b hb
    · exact hdepth b hb
    · exact hname b hb

end Client

/-! ## Compilers -/

/-- What a compiler leaves, with its files by their suffixes. -/
structure Compilation where
  exitCode : Int32
  output : String
  error : String
  files : List (String × Bytes)

/-- Compilers, by their digests. -/
structure Toolchain where
  Moment : Type
  compile : Moment → Bytes → List Bytes → Bytes → Compilation

/-- Nothing depends on the moment where the servant sees no use of the time. -/
def Toolchain.Timeless (toolchain : Toolchain) : Prop :=
  ∀ (r : RewrittenArgs) (source : Bytes), (∀ a ∈ r.args, Survives a) →
    verifyTaskCachability true (r.toCommandLine false) source = true →
    ∀ moment moment' digest, toolchain.compile moment digest r.args source =
      toolchain.compile moment' digest r.args source

/-- What the client ends up with. There are no files of a compilation that fails. -/
def Compilation.delivered (c : Compilation) : CompilationResult where
  exitCode := c.exitCode.toInt
  output := c.output
  error := c.error
  outputFiles := if c.exitCode = 0 then c.files else []

structure CompilationLibrary where
  submission : SubmissionLibrary
  result : ResultLibrary

structure CompilationLibrary.Documented (lib : CompilationLibrary) : Prop where
  submission : lib.submission.Documented
  result : lib.result.Documented

variable (lib : CompilationLibrary)

/-- The delegate has accepted a submission, whose arguments survive the servant's shell. -/
structure Accepted (fileDigests : Daemon.Local.FileDigestCache) (sub : Submission)
    (rewritten : RewriteResult) (source : Bytes) (d : Daemon.Local.CxxCompilationTask) : Prop where
  digests : ∀ path desc, fileDigests.lookup path = some desc → IsDigest desc.hash
  preprocessed : Client.rewriteFile lib.submission.blake3 lib.submission.compress sub.execute
    sub.cacheControl sub.args = some (some rewritten)
  survive : ∀ a ∈ (submittedArgs sub.args rewritten).args, Survives a
  submitted : sub.Submitted lib.submission fileDigests source d

/-- A servant has prepared a task and run it at a moment, with the compiler that its shell has
found, and is about to complete it with what that has left. -/
structure Ran (toolchain : Toolchain) (moment : toolchain.Moment)
    (compilerPaths : UnorderedMap Bytes Bytes) (request : QueueCxxCompilationTaskRequest)
    (attachment : Bytes) (s : PreparedTask) (task : Cloud.CxxCompilationTask) (c : Compilation) :
    Prop where
  prepared : ∃ workspaceDir, PlainWord workspaceDir ∧
    PreparedTask.prepare lib.submission compilerPaths workspaceDir request attachment = .ok s
  compilers : ∀ digest path, compilerPaths.lookup digest = some path → PlainWord path
  words : ∃ compiler words,
    shellWords s.commandLine = some (compiler :: (words ++
      [asciiBytes "-o", Client.outputPath s.workspaceDir s.temporaryDirExtraDepth])) ∧
    c = toolchain.compile moment s.envDesc.compilerDigest words s.source
  files : task.outputFiles =
    c.files.map fun file => (task.relativePathPrefix ++ file.1, file.2)
  cacheKey : task.cacheKey.map utf8 = s.getCacheKey lib.submission

/-! ## From a compilation to the client -/

section Delivery

open Yadcc.Daemon.Local Yadcc.Client

/-- What a completed task left arrives, from the servant or from the cache. -/
theorem delivered_of_completed {lib : ResultLibrary} (hlib : lib.Documented)
    {task : Cloud.CxxCompilationTask} {c : Compilation} {remote : RemoteTask}
    {entry : Option (String × CacheEntry)}
    (hfiles : task.outputFiles =
      c.files.map fun file => (task.relativePathPrefix ++ file.1, file.2))
    (hcompleted : onCompletion lib.toTaskLibrary (task.hooks lib.toTaskLibrary) c.exitCode
      (utf8 c.output) (utf8 c.error) = some (remote, entry))
    (debuggingAlwaysUseServantAt : String) :
    ∃ result : DistributedTaskOutput,
      waitServantForTask (dispatcherConfig lib.toTaskLibrary debuggingAlwaysUseServantAt)
        (some (waitForCompilationOutput remote)) = .ok result ∧
      (∀ key e, entry = some (key, e) → outputOfEntry lib.toTaskLibrary e = some result) ∧
      ((waitForTaskGeneric lib millisecondsToWait (.ok result)).2.length ≤ longMax →
        onWaitAnswer lib.client none (waitForTaskGeneric lib millisecondsToWait (.ok result)).1
          (waitForTaskGeneric lib millisecondsToWait (.ok result)).2 =
            .ok (some c.delivered)) := by
  obtain ⟨result, files, patches, hwait, hsame, hcode, hrebuild, hlength, hsendable⟩ :=
    waitServantForTask_completed hlib hcompleted debuggingAlwaysUseServantAt
  have hall : files = if c.exitCode = 0 then c.files else [] := by
    have hinjective : Function.Injective fun file : String × Bytes =>
        (task.relativePathPrefix ++ file.1, file.2) := by
      intro file file' heq
      obtain ⟨hname, hbytes⟩ := Prod.mk.inj heq
      exact Prod.ext ((String.append_right_inj _).mp hname) hbytes
    refine List.map_injective_iff.mpr hinjective ?_
    rw [hsame, hfiles]
    split_ifs
    · rfl
    · rfl
  refine ⟨result, hwait, ?_, fun hfits => ?_⟩
  · rintro key e rfl
    obtain ⟨result', hhit, hwait'⟩ :=
      output_of_onCompletion hlib.lawful hcompleted debuggingAlwaysUseServantAt
    rw [hwait] at hwait'
    cases hwait'
    exact hhit
  · have hrange := c.exitCode.toInt_lt
    have hrange' := c.exitCode.le_toInt
    rw [← hcode] at hrange hrange'
    rw [onWaitAnswer_of_rebuildOutput hlib hrebuild hrange' hrange hlength hsendable hfits none,
      Compilation.delivered, ← hall, hcode]
    rfl

end Delivery

/-! ## From the client to a compilation -/

theorem verifyTaskCachability_true {allowCache : Bool} {arguments buffer : Bytes}
    (h : verifyTaskCachability allowCache arguments buffer = true) :
    verifyTaskCachability true arguments buffer = true := by
  cases allowCache with
  | true => exact h
  | false => cases h

/-- The command of a prepared task, with the registered compiler, its output, and its check. -/
theorem command_of_prepare {lib : SubmissionLibrary} (hlib : lib.Documented)
    {compilerPaths : UnorderedMap Bytes Bytes}
    {workspaceDir attachment : Bytes} {request : QueueCxxCompilationTaskRequest} {s : PreparedTask}
    (h : PreparedTask.prepare lib compilerPaths workspaceDir request attachment = .ok s) :
    (∃ compiler, compilerPaths.lookup s.envDesc.compilerDigest = some compiler ∧
      s.commandLine = Client.servantCommandLine compiler s.invocationArguments s.workspaceDir
        s.temporaryDirExtraDepth) ∧
      (PlainWord workspaceDir →
        PlainWord (Client.outputPath s.workspaceDir s.temporaryDirExtraDepth)) ∧
      (s.writeCache = true →
        verifyTaskCachability true s.invocationArguments s.source = true) := by
  rw [PreparedTask.prepare] at h
  split at h
  · cases h
  · next compiler hcompiler =>
      split_ifs at h
      split at h
      · cases h
      · next source hsource =>
          cases h
          refine ⟨⟨compiler, hcompiler, rfl⟩, fun hdir => ?_, verifyTaskCachability_true⟩
          refine Client.plainWord_outputPath hdir ?_
          rw [hlib.encodeHex]
          exact isDigest_hex lib.blake3 source

/-- The arguments of the delegate's task are those that the client has rewritten. -/
theorem Submission.Submitted.arguments {lib : SubmissionLibrary} (hlib : lib.Documented)
    {fileDigests : Daemon.Local.FileDigestCache} {sub : Submission} {source : Bytes}
    {d : Daemon.Local.CxxCompilationTask} (h : Submitted lib fileDigests sub source d)
    {rewritten : RewriteResult}
    (hrewritten : Client.rewriteFile lib.blake3 lib.compress sub.execute sub.cacheControl sub.args =
      some (some rewritten)) :
    d.invocationArguments = (submittedArgs sub.args rewritten).toCommandLine false := by
  obtain ⟨rewritten', hrewritten', haccepted⟩ := h.accepted
  rw [hrewritten] at hrewritten'
  cases hrewritten'
  rw [Daemon.Local.submitCxxTask, Client.submitCompilationTask, hlib.tryParse_write] at haccepted
  exact (Daemon.Local.CxxCompilationTask.prepare_spec haccepted).2.2.1

section Meaning

variable {lib} {toolchain : Toolchain} {moment : toolchain.Moment}
  {compilerPaths : UnorderedMap Bytes Bytes} {request : QueueCxxCompilationTaskRequest}
  {attachment : Bytes} {s : PreparedTask} {task : Cloud.CxxCompilationTask} {c : Compilation}
  {r : RewrittenArgs}

/-- A servant runs its compiler with the words that the client has meant. -/
theorem Ran.eq (hlib : lib.Documented)
    (h : Ran lib toolchain moment compilerPaths request attachment s task c)
    (hsurvive : ∀ a ∈ r.args, Survives a)
    (harguments : s.invocationArguments = r.toCommandLine false) :
    c = toolchain.compile moment s.envDesc.compilerDigest r.args s.source := by
  obtain ⟨workspaceDir, hdir, hprepared⟩ := h.prepared
  obtain ⟨⟨compiler, hcompiler, hcommand⟩, houtput, -⟩ :=
    command_of_prepare hlib.submission hprepared
  obtain ⟨compiler', words, hwords, hcompilation⟩ := h.words
  rw [hcommand, harguments, Client.shellWords_servantCommandLine hsurvive
    (h.compilers _ _ hcompiler) (houtput hdir)] at hwords
  obtain ⟨-, hrest⟩ := List.cons.inj (Option.some.inj hwords)
  rw [hcompilation, List.append_cancel_right hrest]

variable {fileDigests : Daemon.Local.FileDigestCache} {sub : Submission}
  {rewritten : RewriteResult} {source : Bytes} {d : Daemon.Local.CxxCompilationTask}
  {remote : RemoteTask}

/-- The key of an entry is that of its task. -/
theorem cacheKey_of_onCompletion {hooks : TaskHooks} {exitCode : Int32}
    {standardOutput standardError : Bytes} {key : String} {e : CacheEntry}
    (h : onCompletion lib.result.toTaskLibrary hooks exitCode standardOutput standardError =
      some (remote, some (key, e))) : hooks.getCacheKey = some key := by
  obtain ⟨oob, -, h⟩ := Option.bind_eq_some_iff.mp h
  cases oob with
  | error status =>
      simp only at h
      split at h
      · cases h
      · cases h
  | ok oob =>
      simp only at h
      split at h
      · cases h
      · next key' hkey =>
          split at h
          · cases h
            exact hkey
          · cases h

/-- What was written to the cache is read back. -/
theorem tryRead_of_asyncWrite {lib : TaskLibrary} (hlib : lib.Lawful) {cacheEnabled : Bool}
    {compressionAlgorithm : UInt32} {key : String} {e : CacheEntry} {bytes : Bytes}
    (hwritten : asyncWrite lib cacheEnabled compressionAlgorithm key e = some (key, bytes))
    (hsize : bytes.length ≤ 512 * 2 ^ 20) {entries : UnorderedMap String Bytes}
    (hcached : entries.lookup key = some bytes) :
    Daemon.Local.tryRead lib entries true key = some e := by
  have hbytes : writeCacheEntry lib.toCacheLibrary compressionAlgorithm e = bytes := by
    unfold asyncWrite at hwritten
    split at hwritten
    · cases hwritten
    · split at hwritten
      · cases hwritten
      · cases hwritten
        rfl
  rw [Daemon.Local.tryRead, if_neg Bool.noConfusion, hcached, Option.bind_some, ← hbytes]
  rw [← hbytes] at hsize
  exact tryParseCacheEntry_writeCacheEntry hlib.toLawful (by omega)

end Meaning

/-! ## A compiler with a clock -/

namespace RemoteCompilation

open Yadcc.Submission
open CompilationRoundTrip (library library_documented completed)

/-- It writes the time into the object file of what is not to be cached. -/
def toolchain : Toolchain where
  Moment := UInt8
  compile moment _ words source :=
    { exitCode := 0
      output := "o"
      error := ""
      files :=
        [(".o", if verifyTaskCachability true (Client.commandText words) source then [127, 69]
          else [127, moment])] }

theorem toolchain_timeless : toolchain.Timeless := by
  intro r source hsurvive hcheck moment moment' digest
  rw [Client.toCommandLine_eq] at hcheck
  simp [toolchain, hcheck]

/-- The words of `sampleArguments`. -/
def sampleWords : List Bytes :=
  ["-c", "-O2", "-fpreprocessed", "-fdirectives-only", "-x", "c++", "-"].map asciiBytes

/-- The submission does not use the time. -/
theorem sampleCompilation_eq (moment : UInt8) :
    toolchain.compile moment sampleEnvDesc.compilerDigest sampleWords sampleSource =
      ⟨0, "o", "", [(".o", [127, 69])]⟩ := by
  have hcheck :
      verifyTaskCachability true (Client.commandText sampleWords) sampleSource = true := by
    decide +kernel
  simp [toolchain, hcheck]

def sampleLibrary : CompilationLibrary := ⟨Submission.sampleLibrary, library⟩

theorem sampleLibrary_documented : sampleLibrary.Documented :=
  ⟨Submission.sampleLibrary_documented, library_documented⟩

theorem sampleWords_survive : ∀ a ∈ sampleWords, Survives a := by
  have hall : ∀ a ∈ sampleWords, a ≠ [] ∧
      (∀ b ∈ a, Client.controlEscape b = none ∧ b ≠ ascii '\'' ∧ b ≠ ascii '|') ∧
      Client.tildePrefix a = false := by
    decide +kernel
  exact hall

def sampleRewritten : RewriteResult :=
  ⟨asciiBytes "c++", asciiBytes "a.cc", true, .allow, sampleSource,
    hexBytes (sampleHash.digest sampleSource)⟩

def sampleKey : String :=
  "yadcc-cxx2-entry-14ad0b86cbe4308e291c73f48a85108eb4bf2bb79bb58c3aa7c9c57427a25e51"

/-- The task of the servant when its compiler has ended. -/
def sampleTask : Cloud.CxxCompilationTask :=
  { Daemon.Local.sampleTask with cacheKey := some sampleKey }

def sampleEntry : CacheEntry :=
  ⟨completed.exitCode, completed.stdout, completed.stderr, completed.extraInfo, completed.filePack⟩

theorem sampleKey_eq :
    utf8 sampleKey = Submission.sampleTask.getCacheKey Submission.sampleLibrary := by
  decide +kernel

theorem sampleAccepted :
    Accepted sampleLibrary sampleFileDigests sampleSubmission sampleRewritten sampleSource
      Submission.sampleTask where
  digests := by
    intro path desc hlookup
    have hdesc := AList.mem_lookup_iff.mp hlookup
    rw [sampleFileDigests, AList.singleton_entries, List.mem_singleton] at hdesc
    cases hdesc
    exact isDigest_sampleEnvDesc
  preprocessed := rfl
  survive := sampleWords_survive
  submitted := sampleSubmission_submitted

/-- The compiler is run seven ticks after midnight. -/
theorem sampleRan : Ran sampleLibrary toolchain (7 : UInt8) sampleCompilerPaths
    (Submission.sampleTask.startTask (asciiBytes "token") 7).1 sampleSource samplePrepared
      sampleTask ⟨0, "o", "", [(".o", [127, 69])]⟩ where
  prepared := ⟨asciiBytes "/tmp/1", ⟨by decide, Client.forall_mem_of_all (by decide)⟩,
    samplePrepared_prepared⟩
  compilers := by
    intro digest path hlookup
    have hdesc := AList.mem_lookup_iff.mp hlookup
    rw [sampleCompilerPaths, AList.singleton_entries, List.mem_singleton] at hdesc
    cases hdesc
    exact ⟨by decide, Client.forall_mem_of_all (by decide)⟩
  words := by
    refine ⟨asciiBytes "/usr/bin/g++", sampleWords, ?_, (sampleCompilation_eq 7).symm⟩
    have harguments : sampleArguments =
        (⟨[], sampleWords⟩ : RewrittenArgs).toCommandLine false := by
      decide +kernel
    rw [samplePrepared, harguments]
    exact Client.shellWords_servantCommandLine sampleWords_survive
      ⟨by decide, Client.forall_mem_of_all (by decide)⟩
      (Client.plainWord_outputPath ⟨by decide, Client.forall_mem_of_all (by decide)⟩
        (by decide +kernel))
  files := by decide +kernel
  cacheKey := congrArg some sampleKey_eq

/-- Of a source that uses the time there would be another object file. -/
example : (toolchain.compile (7 : UInt8) sampleEnvDesc.compilerDigest sampleWords
    (asciiBytes "__TIME__")).files = [(".o", [127, 7])] := by
  decide +kernel

theorem onCompletion_sampleTask :
    onCompletion library.toTaskLibrary (sampleTask.hooks library.toTaskLibrary) 0 (utf8 "o")
      (utf8 "") = some (completed, some (sampleKey, sampleEntry)) := by
  decide +kernel

def sampleBytes : Bytes := writeCacheEntry library.toCacheLibrary 0 sampleEntry

end RemoteCompilation

end Yadcc
