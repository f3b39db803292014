/-
# The digest of the user's compiler

A client names its compiler by path, size and time of last change. The delegate keeps the
digests that clients have reported for such names. If it knows none the submission is refused,
and the client hashes the compiler, reports its digest and submits again. All clients of the
machine share the table, and requests are handled late, in any order, or after their clients
have given up.

An accepted task names the right compiler as long as the size and the time tell its versions
apart, and nobody changes it between the look at them and the hashing. A client that has reported
its compiler is accepted unless a report of another version comes in between.
-/

import Yadcc.Client.RewriteRuns
import Yadcc.Daemon.TaskIdentity
import Yadcc.Lib.Transition

namespace Yadcc

open Yadcc.Lib Yadcc.Daemon
open Yadcc.Lib.Shell (ascii asciiBytes)
open Yadcc.Daemon.Cloud (Status)
open Yadcc.Daemon.Local (FileDesc FileDigestCache CxxCompilationTask)

/-! ## Reports -/

namespace Client

/-- The report is put together as it is, also if the path has a quote. -/
def reportText (path : Bytes) (size mtime : UInt64) (digest : Bytes) : Bytes :=
  asciiBytes "\x7b\"file_desc\":\x7b\"path\":\"" ++ path ++ asciiBytes "\",\"size\":" ++
    decimal size.toNat ++ asciiBytes ",\"timestamp\":" ++ decimal mtime.toNat ++
    asciiBytes "\x7d,\"digest\":\"" ++ digest ++ asciiBytes "\"\x7d"

end Client

namespace Daemon.Local

structure SetFileDigestRequest where
  fileDesc : FileDesc
  digest : Bytes

def FileDigestCache.set (self : FileDigestCache) (path : Bytes) (size mtime : UInt64)
    (hash : Bytes) : FileDigestCache :=
  self.insert path ⟨size, mtime, hash⟩

end Daemon.Local

/-- Printable characters that JSON has no escapes for. -/
def PlainText (text : Bytes) : Prop :=
  ∀ b ∈ text, 32 ≤ b.toNat ∧ b.toNat < 127 ∧ b ≠ ascii '"' ∧ b ≠ ascii '\\'

instance (text : Bytes) : Decidable (PlainText text) :=
  List.decidableBAll
    (fun b : UInt8 => 32 ≤ b.toNat ∧ b.toNat < 127 ∧ b ≠ ascii '"' ∧ b ≠ ascii '\\') text

/-- The libraries of a submission with the reader of reports. -/
structure ReportLibrary extends SubmissionLibrary where
  tryParseReport : Bytes → Except Status Local.SetFileDigestRequest

structure ReportLibrary.Documented (lib : ReportLibrary) : Prop
    extends toSubmission : SubmissionLibrary.Documented lib.toSubmissionLibrary where
  tryParse_report : ∀ path size mtime digest, PlainText path → PlainText digest →
    lib.tryParseReport (Client.reportText path size mtime digest) =
      .ok ⟨⟨path, size, mtime⟩, digest⟩

variable (lib : ReportLibrary)

namespace Daemon.Local

/-- The handler of a report: the status and the table. -/
def setFileDigest (fileDigests : FileDigestCache) (body : Bytes) : ℤ × FileDigestCache :=
  match lib.tryParseReport body with
  | .error _ => (400, fileDigests)
  | .ok req =>
      (200, fileDigests.set req.fileDesc.path req.fileDesc.size req.fileDesc.timestamp req.digest)

end Daemon.Local

/-! ## Clients and the delegate -/

namespace CompilerDigests

/-- What is at the path of a compiler: what `lstat` tells, and what is read. -/
structure CompilerFile where
  size : UInt64
  mtime : UInt64
  content : Bytes

/-- What a client is started for. -/
structure Invocation where
  args : Client.CompilerArgs
  rewrittenSource : Client.RewriteResult
  pid : Int32

def Invocation.compiler (inv : Invocation) : Bytes := inv.args.compiler

/-- Where a client is in `SubmitCompilationTask`, with the compiler as it was when the client
looked at it. -/
inductive Pc
  | start
  | submit (compiler : CompilerFile) (again : Bool)
  | digest (compiler : CompilerFile)
  | report (compiler : CompilerFile) (digest : Bytes)
  | submitted (task : CxxCompilationTask)
  | failed

/-- The compiler that a client has looked at. -/
def Pc.looked : Pc → Option CompilerFile
  | .submit compiler _ | .digest compiler | .report compiler _ => some compiler
  | _ => none

/-- Sent requests stay where they are: they may be handled at any time, more than once, or
never. The versions of all files are kept, and the accepted tasks with the compilers that their
clients have looked at. -/
structure System where
  files : Bytes → Option CompilerFile
  versions : Set (Bytes × CompilerFile)
  fileDigests : FileDigestCache
  clients : ℕ → Pc
  submissions : List (ℕ × CompilerFile)
  reports : List (ℕ × Bytes)
  tasks : List (ℕ × CompilerFile × CxxCompilationTask)

inductive Event
  | change (path : Bytes) (file : Option CompilerFile)
  | look (client : ℕ)
  | submit (client : ℕ) (compiler : CompilerFile) (answered : Bool)
  | digest (client : ℕ)
  | report (client : ℕ) (text : Bytes) (answered : Bool)
  | timeout (client : ℕ)

/-- After the answer to a submission. -/
def Pc.onSubmitted : Pc → Except Status CxxCompilationTask → Pc
  | .submit _ _, .ok task => .submitted task
  | .submit compiler again, .error status =>
      if status.code = 400 ∧ again = false then .digest compiler else .failed
  | pc, _ => pc

/-- After the answer to a report. -/
def Pc.onReported : Pc → ℤ → Pc
  | .report compiler _, status => if status = 200 then .submit compiler true else .failed
  | pc, _ => pc

namespace System

def start (files : Bytes → Option CompilerFile) : System where
  files := files
  versions := {e | files e.1 = some e.2}
  fileDigests := ∅
  clients _ := .start
  submissions := []
  reports := []
  tasks := []

def setClient (s : System) (client : ℕ) (pc : Pc) : System :=
  { s with clients := Function.update s.clients client pc }

def change (s : System) (path : Bytes) (file : Option CompilerFile) : System :=
  { s with
    files := Function.update s.files path file
    versions := {e | e ∈ s.versions ∨ (e.1 = path ∧ file = some e.2)} }

/-- The client's look at its compiler, and its first submission. -/
def look (s : System) (client : ℕ) (compiler : CompilerFile) : System :=
  { s.setClient client (.submit compiler false) with
    submissions := (client, compiler) :: s.submissions }

def queue (s : System) (client : ℕ) (compiler : CompilerFile) :
    Except Status CxxCompilationTask → System
  | .ok task => { s with tasks := (client, compiler, task) :: s.tasks }
  | .error _ => s

/-- The delegate has handled a submission. -/
def onSubmitted (s : System) (client : ℕ) (compiler : CompilerFile)
    (reply : Except Status CxxCompilationTask) (answered : Bool) : System :=
  let t := s.queue client compiler reply
  if answered then t.setClient client ((s.clients client).onSubmitted reply) else t

/-- The client has hashed its compiler, and reports the digest. -/
def onDigest (s : System) (client : ℕ) (path : Bytes) (compiler : CompilerFile)
    (digest : Bytes) : System :=
  { s.setClient client (.report compiler digest) with
    reports := (client, Client.reportText path compiler.size compiler.mtime digest) ::
      s.reports }

/-- The delegate has handled a report. -/
def onReport (s : System) (client : ℕ) (handled : ℤ × FileDigestCache) (answered : Bool) :
    System :=
  let t : System := { s with fileDigests := handled.2 }
  if answered then t.setClient client ((s.clients client).onReported handled.1) else t

end System

section Protocol

variable (inv : ℕ → Invocation)

/-- What the delegate makes of a submission. Without an answer it fails a check. -/
def reply (fileDigests : FileDigestCache) (client : ℕ) (compiler : CompilerFile) :
    Option (Except Status CxxCompilationTask) :=
  Local.submitCxxTask lib.toSubmissionLibrary fileDigests
    (Client.submitCompilationTask lib.toSubmissionLibrary (inv client).pid compiler.mtime
      compiler.size (inv client).args (inv client).rewrittenSource)

inductive Step (s : System) : Event → System → Prop
  | change (path : Bytes) (file : Option CompilerFile) :
      Step s (.change path file) (s.change path file)
  | look {client : ℕ} {compiler : CompilerFile} :
      s.clients client = .start → s.files (inv client).compiler = some compiler →
      Step s (.look client) (s.look client compiler)
  | submit {client : ℕ} {compiler : CompilerFile} {result : Except Status CxxCompilationTask}
      (answered : Bool) :
      (client, compiler) ∈ s.submissions →
      reply lib inv s.fileDigests client compiler = some result →
      Step s (.submit client compiler answered) (s.onSubmitted client compiler result answered)
  | digest {client : ℕ} {compiler file : CompilerFile} :
      s.clients client = .digest compiler → s.files (inv client).compiler = some file →
      Step s (.digest client)
        (s.onDigest client (inv client).compiler compiler (lib.blake3.hex file.content))
  | report {client : ℕ} {text : Bytes} (answered : Bool) :
      (client, text) ∈ s.reports →
      Step s (.report client text answered)
        (s.onReport client (Local.setFileDigest lib s.fileDigests text) answered)
  | timeout {client : ℕ} :
      (∃ compiler again, s.clients client = .submit compiler again) ∨
        (∃ compiler digest, s.clients client = .report compiler digest) →
      Step s (.timeout client) (s.setClient client .failed)

/-- Versions of a file differ in their sizes or times, and a file is what it was when its client
looked at it once it is hashed. -/
def Telling (s : System) : Event → Prop
  | .change path (some file) => ∀ version, (path, version) ∈ s.versions →
      version.size = file.size → version.mtime = file.mtime → version.content = file.content
  | .digest client => ∀ compiler file, s.clients client = .digest compiler →
      s.files (inv client).compiler = some file → file.content = compiler.content
  | _ => True

end Protocol

/-! ## Digests are those of the versions -/

/-- The digest of a version of the file with this size and time. -/
def DigestOf (s : System) (path : Bytes) (size mtime : UInt64) (digest : Bytes) : Prop :=
  ∃ version, (path, version) ∈ s.versions ∧ version.size = size ∧ version.mtime = mtime ∧
    digest = lib.blake3.hex version.content

structure Sound (inv : ℕ → Invocation) (s : System) : Prop where
  versions : ∀ path v w, (path, v) ∈ s.versions → (path, w) ∈ s.versions → v.size = w.size →
    v.mtime = w.mtime → v.content = w.content
  files : ∀ path file, s.files path = some file → (path, file) ∈ s.versions
  looked : ∀ client compiler, (s.clients client).looked = some compiler →
    ((inv client).compiler, compiler) ∈ s.versions
  submissions : ∀ client compiler, (client, compiler) ∈ s.submissions →
    ((inv client).compiler, compiler) ∈ s.versions
  reports : ∀ client text, (client, text) ∈ s.reports → ∃ path size mtime digest,
    text = Client.reportText path size mtime digest ∧ PlainText path ∧
      DigestOf lib s path size mtime digest
  digests : ∀ path desc, s.fileDigests.lookup path = some desc →
    DigestOf lib s path desc.size desc.mtime desc.hash
  tasks : ∀ client compiler task, (client, compiler, task) ∈ s.tasks →
    ((inv client).compiler, compiler) ∈ s.versions ∧
      task.envDesc = ⟨lib.blake3.hex compiler.content⟩

end CompilerDigests

namespace Daemon.Local

variable {fileDigests : FileDigestCache}

theorem FileDigestCache.lookup_eq_of_tryGet {path hash : Bytes} {size mtime : UInt64}
    (h : fileDigests.tryGet path size mtime = some (some hash)) :
    fileDigests.lookup path = some ⟨size, mtime, hash⟩ := by
  rw [tryGet] at h
  split_ifs at h
  split at h
  · next desc hlookup =>
      split_ifs at h with hsame
      · cases h
        rw [hlookup, ← hsame.1, ← hsame.2]
      · cases h
  · cases h

/-- The compiler's digest of an accepted task is the one in the table. -/
theorem CxxCompilationTask.lookup_of_prepare {request : SubmitCxxTaskRequest} {bytes : List Bytes}
    {d : CxxCompilationTask} (h : prepare fileDigests request bytes = some (.ok d)) :
    fileDigests.lookup request.compiler.path =
      some ⟨request.compiler.size, request.compiler.timestamp, d.envDesc.compilerDigest⟩ := by
  rw [prepare] at h
  split_ifs at h
  · cases h
  split at h
  · cases h
  · cases h
  · next fileDigest hget =>
      cases bytes with
      | nil => cases h
      | cons preprocessedSource rest =>
          cases h
          exact FileDigestCache.lookup_eq_of_tryGet hget

end Daemon.Local

namespace CompilerDigests

variable {lib} {inv : ℕ → Invocation} {s t : System}

theorem lookup_of_reply (hlib : lib.Documented) {fileDigests : FileDigestCache} {client : ℕ}
    {compiler : CompilerFile} {task : CxxCompilationTask}
    (h : reply lib inv fileDigests client compiler = some (.ok task)) :
    fileDigests.lookup (inv client).compiler =
      some ⟨compiler.size, compiler.mtime, task.envDesc.compilerDigest⟩ := by
  rw [reply, Local.submitCxxTask, Client.submitCompilationTask, hlib.tryParse_write] at h
  exact CxxCompilationTask.lookup_of_prepare h

theorem plainText_hex (text : Bytes) : PlainText (lib.blake3.hex text) := by
  intro b hb
  have hdigit := isHexDigit_of_mem_hexBytes hb
  simp only [isHexDigit, Bool.or_eq_true, Bool.and_eq_true, decide_eq_true_eq] at hdigit
  refine ⟨by omega, by omega, ?_, ?_⟩
  · rintro rfl
    exact absurd hdigit (by decide)
  · rintro rfl
    exact absurd hdigit (by decide)

/-- Only clients that have looked at their compilers hash them. -/
theorem looked_onSubmitted (pc : Pc) (reply : Except Status CxxCompilationTask)
    {compiler : CompilerFile} (h : (pc.onSubmitted reply).looked = some compiler) :
    pc.looked = some compiler := by
  cases pc with
  | submit looked again =>
      cases reply with
      | ok task => cases h
      | error status =>
          simp only [Pc.onSubmitted] at h
          split_ifs at h
          · exact h
          · cases h
  | _ => exact h

theorem looked_onReported (pc : Pc) (status : ℤ) {compiler : CompilerFile}
    (h : (pc.onReported status).looked = some compiler) : pc.looked = some compiler := by
  cases pc with
  | report looked digest =>
      simp only [Pc.onReported] at h
      split_ifs at h
      · exact h
      · cases h
  | _ => exact h

theorem DigestOf.mono {path digest : Bytes} {size mtime : UInt64}
    (h : DigestOf lib s path size mtime digest) (hle : s.versions ⊆ t.versions) :
    DigestOf lib t path size mtime digest := by
  obtain ⟨version, hversion, hsame⟩ := h
  exact ⟨version, hle hversion, hsame⟩

theorem sound_start (files : Bytes → Option CompilerFile) : Sound lib inv (.start files) where
  versions path v w hv hw _ _ := by
    have hsame : v = w := Option.some.inj (Eq.trans (Eq.symm hv) hw)
    rw [hsame]
  files _ _ hfile := hfile
  looked _ _ h := by cases h
  submissions _ _ h := by cases h
  reports _ _ h := by cases h
  digests _ _ h := by cases h
  tasks _ _ _ h := by cases h

namespace System

@[simp]
theorem setClient_self (s : System) (client : ℕ) (pc : Pc) :
    (s.setClient client pc).clients client = pc := by
  simp [setClient]

@[simp]
theorem onSubmitted_fileDigests (s : System) (client : ℕ) (compiler : CompilerFile)
    (result : Except Status CxxCompilationTask) (answered : Bool) :
    (s.onSubmitted client compiler result answered).fileDigests = s.fileDigests := by
  cases result <;> cases answered <;> rfl

@[simp]
theorem onSubmitted_reports (s : System) (client : ℕ) (compiler : CompilerFile)
    (result : Except Status CxxCompilationTask) (answered : Bool) :
    (s.onSubmitted client compiler result answered).reports = s.reports := by
  cases result <;> cases answered <;> rfl

@[simp]
theorem onReport_fileDigests (s : System) (client : ℕ) (handled : ℤ × FileDigestCache)
    (answered : Bool) : (s.onReport client handled answered).fileDigests = handled.2 := by
  cases answered <;> rfl

@[simp]
theorem onReport_reports (s : System) (client : ℕ) (handled : ℤ × FileDigestCache)
    (answered : Bool) : (s.onReport client handled answered).reports = s.reports := by
  cases answered <;> rfl

theorem setClient_of_ne {client client' : ℕ} (h : client' ≠ client) (s : System) (pc : Pc) :
    (s.setClient client pc).clients client' = s.clients client' := by
  simp [setClient, h]

/-- Only the client that gets an answer goes on. -/
theorem clients_onSubmitted (s : System) (client : ℕ) (compiler : CompilerFile)
    (result : Except Status CxxCompilationTask) (answered : Bool) (client' : ℕ) :
    (s.onSubmitted client compiler result answered).clients client' = s.clients client' ∨
      (s.onSubmitted client compiler result answered).clients client' =
        (s.clients client').onSubmitted result := by
  have hqueue : (s.queue client compiler result).clients = s.clients := by
    cases result <;> rfl
  cases answered with
  | false => exact .inl (congrFun hqueue client')
  | true =>
      by_cases heq : client' = client
      · rw [heq]
        exact .inr (setClient_self _ client _)
      · exact .inl ((setClient_of_ne heq _ _).trans (congrFun hqueue client'))

theorem clients_onReport (s : System) (client : ℕ) (handled : ℤ × FileDigestCache)
    (answered : Bool) (client' : ℕ) :
    (s.onReport client handled answered).clients client' = s.clients client' ∨
      (client' = client ∧ answered = true ∧
        (s.onReport client handled answered).clients client' =
          (s.clients client').onReported handled.1) := by
  cases answered with
  | false => exact .inl rfl
  | true =>
      by_cases heq : client' = client
      · rw [heq]
        exact .inr ⟨rfl, rfl, setClient_self _ client _⟩
      · exact .inl (setClient_of_ne heq _ _)

@[simp]
theorem change_self (s : System) (path : Bytes) (file : Option CompilerFile) :
    (s.change path file).files path = file := by
  simp [change]

theorem change_of_ne {path path' : Bytes} (h : path' ≠ path) (s : System)
    (file : Option CompilerFile) : (s.change path file).files path' = s.files path' := by
  simp [change, h]

end System

theorem Sound.setClient (h : Sound lib inv s) {client : ℕ} {pc : Pc}
    (hpc : ∀ compiler, pc.looked = some compiler →
      ((inv client).compiler, compiler) ∈ s.versions) :
    Sound lib inv (s.setClient client pc) :=
  { h with
    looked := fun client' compiler hlooked => by
      by_cases heq : client' = client
      · subst heq
        rw [System.setClient_self] at hlooked
        exact hpc compiler hlooked
      · rw [System.setClient_of_ne heq] at hlooked
        exact h.looked client' compiler hlooked }

theorem Sound.change (h : Sound lib inv s) {path : Bytes} {file : Option CompilerFile}
    (htelling : Telling inv s (.change path file)) : Sound lib inv (s.change path file) := by
  have hle : s.versions ⊆ (s.change path file).versions := fun _ he => .inl he
  have hnew : ∀ v w, file = some w → (path, v) ∈ s.versions → v.size = w.size →
      v.mtime = w.mtime → v.content = w.content := by
    rintro v w rfl hv
    exact htelling v hv
  constructor
  · rintro p v w (hv | ⟨rfl, hv⟩) (hw | ⟨hp, hw⟩) hsize hmtime
    · exact h.versions p v w hv hw hsize hmtime
    · cases hp
      exact hnew v w hw hv hsize hmtime
    · exact (hnew w v hv hw hsize.symm hmtime.symm).symm
    · rw [hv] at hw
      cases hw
      rfl
  · intro p f hfile
    by_cases heq : p = path
    · subst heq
      rw [System.change_self] at hfile
      exact .inr ⟨rfl, hfile⟩
    · rw [System.change_of_ne heq] at hfile
      exact .inl (h.files p f hfile)
  · exact fun client compiler hlooked => hle (h.looked client compiler hlooked)
  · exact fun client compiler hsent => hle (h.submissions client compiler hsent)
  · intro client text hsent
    obtain ⟨p, size, mtime, digest, htext, hplain, hdigest⟩ := h.reports client text hsent
    exact ⟨p, size, mtime, digest, htext, hplain, hdigest.mono hle⟩
  · exact fun p desc hlookup => (h.digests p desc hlookup).mono hle
  · intro client compiler task hmem
    exact ⟨hle (h.tasks client compiler task hmem).1, (h.tasks client compiler task hmem).2⟩

theorem Sound.onSubmitted (hlib : lib.Documented) (h : Sound lib inv s) {client : ℕ}
    {compiler : CompilerFile} {result : Except Status CxxCompilationTask}
    (hsent : (client, compiler) ∈ s.submissions)
    (hreply : reply lib inv s.fileDigests client compiler = some result) (answered : Bool) :
    Sound lib inv (s.onSubmitted client compiler result answered) := by
  have htasks : Sound lib inv (s.queue client compiler result) := by
    cases result with
    | error status => exact h
    | ok task =>
        obtain ⟨version, hversion, hsize, hmtime, hdigest⟩ :=
          h.digests _ _ (lookup_of_reply hlib hreply)
        have hseen := h.submissions client compiler hsent
        have hcontent := h.versions _ _ _ hversion hseen hsize hmtime
        refine { h with tasks := fun client' compiler' task' hmem => ?_ }
        rcases List.mem_cons.mp hmem with heq | hmem
        · cases heq
          exact ⟨hseen, by rw [← hcontent, ← hdigest]⟩
        · exact h.tasks client' compiler' task' hmem
  cases answered with
  | false => exact htasks
  | true =>
      refine htasks.setClient fun compiler' hlooked => ?_
      have hversions := h.looked client compiler' (looked_onSubmitted _ _ hlooked)
      cases result with
      | error status => exact hversions
      | ok task => exact hversions

theorem Sound.onDigest (h : Sound lib inv s) {client : ℕ} {compiler file : CompilerFile}
    (hplain : PlainText (inv client).compiler) (hpc : s.clients client = .digest compiler)
    (hcontent : file.content = compiler.content) :
    Sound lib inv
      (s.onDigest client (inv client).compiler compiler (lib.blake3.hex file.content)) := by
  have hversion : ((inv client).compiler, compiler) ∈ s.versions :=
    h.looked client compiler (by rw [hpc]; rfl)
  have hclient : Sound lib inv
      (s.setClient client (.report compiler (lib.blake3.hex file.content))) := by
    refine h.setClient fun compiler' hlooked => ?_
    cases hlooked
    exact hversion
  refine { hclient with reports := fun client' text hmem => ?_ }
  rcases List.mem_cons.mp hmem with heq | hmem
  · cases heq
    exact ⟨_, _, _, _, rfl, hplain, compiler, hversion, rfl, rfl, by rw [hcontent]⟩
  · exact h.reports client' text hmem

/-- A report that was sent is read as it was meant. -/
theorem setFileDigest_of_sent (hlib : lib.Documented) (h : Sound lib inv s) {client : ℕ}
    {text : Bytes} (hsent : (client, text) ∈ s.reports) :
    ∃ path size mtime digest, text = Client.reportText path size mtime digest ∧
      DigestOf lib s path size mtime digest ∧
      Local.setFileDigest lib s.fileDigests text =
        (200, s.fileDigests.set path size mtime digest) := by
  obtain ⟨path, size, mtime, digest, rfl, hplain, hdigest⟩ := h.reports client text hsent
  have hhex : PlainText digest := by
    obtain ⟨version, -, -, -, rfl⟩ := hdigest
    exact plainText_hex _
  refine ⟨path, size, mtime, digest, rfl, hdigest, ?_⟩
  rw [Local.setFileDigest, hlib.tryParse_report path size mtime digest hplain hhex]

theorem Sound.onReport (hlib : lib.Documented) (h : Sound lib inv s) {client : ℕ} {text : Bytes}
    (hsent : (client, text) ∈ s.reports) (answered : Bool) :
    Sound lib inv
      (s.onReport client (Local.setFileDigest lib s.fileDigests text) answered) := by
  obtain ⟨path, size, mtime, digest, -, hdigest, hset⟩ := setFileDigest_of_sent hlib h hsent
  rw [hset]
  have htable : Sound lib inv
      { s with fileDigests := s.fileDigests.set path size mtime digest } := by
    refine { h with digests := fun path' desc hlookup => ?_ }
    rw [Local.FileDigestCache.set, AList.lookup_insert_eq] at hlookup
    split_ifs at hlookup with heq
    · cases hlookup
      rw [heq]
      exact hdigest
    · exact h.digests path' desc hlookup
  cases answered with
  | false => exact htable
  | true =>
      refine htable.setClient fun compiler' hlooked => ?_
      exact h.looked client compiler' (looked_onReported _ _ hlooked)

theorem Sound.step (hlib : lib.Documented) (hplain : ∀ client, PlainText (inv client).compiler)
    (h : Sound lib inv s) {event : Event} (htelling : Telling inv s event)
    (hstep : Step lib inv s event t) : Sound lib inv t := by
  cases hstep with
  | change path file => exact h.change htelling
  | @look client compiler hpc hfile =>
      have hversion := h.files _ _ hfile
      have hclient : Sound lib inv (s.setClient client (.submit compiler false)) := by
        refine h.setClient fun compiler' hlooked => ?_
        cases hlooked
        exact hversion
      refine { hclient with submissions := fun client' compiler' hmem => ?_ }
      rcases List.mem_cons.mp hmem with heq | hmem
      · cases heq
        exact hversion
      · exact h.submissions client' compiler' hmem
  | submit answered hsent hreply => exact h.onSubmitted hlib hsent hreply answered
  | digest hpc hfile =>
      exact h.onDigest (hplain _) hpc (htelling _ _ hpc hfile)
  | report answered hsent => exact h.onReport hlib hsent answered
  | timeout _ => exact h.setClient fun _ hlooked => by cases hlooked

/-! ## The runs -/

theorem sound_run (hlib : lib.Documented) (hplain : ∀ client, PlainText (inv client).compiler)
    {files : Bytes → Option CompilerFile} {events : List Event}
    (run : Run (Guarded (Step lib inv) (Telling inv)) (.start files) events s) :
    Sound lib inv s :=
  run.invariant (I := Sound lib inv) (fun _ _ _ h hstep => h.step hlib hplain hstep.2 hstep.1)
    (sound_start files)

/-- The delegate knows a digest for the compiler as the client has seen it. -/
def Known (inv : ℕ → Invocation) (client : ℕ) (compiler : CompilerFile) (s : System) : Prop :=
  ∃ hash, s.fileDigests.lookup (inv client).compiler = some ⟨compiler.size, compiler.mtime, hash⟩

/-- The delegate handles a report of another version of the compiler. -/
def Overtakes (lib : ReportLibrary) (inv : ℕ → Invocation) (client : ℕ)
    (compiler : CompilerFile) : Event → Prop
  | .report _ text _ => ∃ req, lib.tryParseReport text = .ok req ∧
      req.fileDesc.path = (inv client).compiler ∧
      (req.fileDesc.size ≠ compiler.size ∨ req.fileDesc.timestamp ≠ compiler.mtime)
  | _ => False

/-- The client has not reported anything yet. -/
def Pc.Early : Pc → Prop
  | .start | .submit _ false | .digest _ => True
  | _ => False

/-- A client has sent one report at most. -/
structure OwnReports (inv : ℕ → Invocation) (s : System) : Prop where
  early : ∀ client, (s.clients client).Early → ∀ text, (client, text) ∉ s.reports
  own : ∀ client compiler digest, s.clients client = .report compiler digest →
    PlainText digest ∧ ∀ text, (client, text) ∈ s.reports →
      text = Client.reportText (inv client).compiler compiler.size compiler.mtime digest

/-- What the delegate checks of a submission but for the digest. -/
structure Submittable (inv : Invocation) : Prop where
  pid : 1 < inv.pid
  sourcePath : inv.rewrittenSource.sourcePath ≠ []
  sourceDigest : inv.rewrittenSource.cacheControl ≠ .disallow →
    inv.rewrittenSource.sourceDigest ≠ []
  absolute : inv.compiler.head? = some (ascii '/')

theorem known_step {client : ℕ} {compiler : CompilerFile} {event : Event}
    (h : Known inv client compiler s) (hstep : Step lib inv s event t) :
    Known inv client compiler t ∨ Overtakes lib inv client compiler event := by
  obtain ⟨hash, hlookup⟩ := h
  cases hstep with
  | submit answered _ _ => exact .inl ⟨hash, by rw [System.onSubmitted_fileDigests, hlookup]⟩
  | @report client' text answered _ =>
      cases hparse : lib.tryParseReport text with
      | error status =>
          refine .inl ⟨hash, ?_⟩
          rw [System.onReport_fileDigests, Local.setFileDigest, hparse, hlookup]
      | ok req =>
          by_cases hpath : req.fileDesc.path = (inv client).compiler
          · by_cases hsame : req.fileDesc.size = compiler.size ∧
                req.fileDesc.timestamp = compiler.mtime
            · refine .inl ⟨req.digest, ?_⟩
              rw [System.onReport_fileDigests, Local.setFileDigest, hparse]
              simp only [Local.FileDigestCache.set, hpath, hsame, AList.lookup_insert]
            · exact .inr ⟨req, hparse, hpath, not_and_or.mp hsame⟩
          · refine .inl ⟨hash, ?_⟩
            rw [System.onReport_fileDigests, Local.setFileDigest, hparse]
            simp only [Local.FileDigestCache.set]
            rw [AList.lookup_insert_ne (Ne.symm hpath), hlookup]
  | _ => exact .inl ⟨hash, hlookup⟩

theorem reply_of_known (hlib : lib.Documented) {client : ℕ} {compiler : CompilerFile}
    (hsubmittable : Submittable (inv client)) (h : Known inv client compiler s) :
    ∃ task, reply lib inv s.fileDigests client compiler = some (.ok task) := by
  obtain ⟨hash, hlookup⟩ := h
  obtain ⟨hpid, hpath, hdigest, habsolute⟩ := hsubmittable
  have harguments : (Client.invocationArguments (inv client).args
      (inv client).rewrittenSource).isEmpty = false := by
    rw [List.isEmpty_eq_false_iff]
    intro hnil
    have hlast := Client.getLast?_invocationArguments (inv client).args
      (inv client).rewrittenSource
    rw [hnil] at hlast
    cases hlast
  rw [reply, Local.submitCxxTask, Client.submitCompilationTask, hlib.tryParse_write]
  simp only
  have hcontrol : ¬((inv client).rewrittenSource.cacheControl.toInt < 0 ∨
      (inv client).rewrittenSource.cacheControl.toInt > 2) := by
    cases (inv client).rewrittenSource.cacheControl <;> decide
  have hhashed : ¬((inv client).rewrittenSource.cacheControl.toInt ≠ 0 ∧
      (inv client).rewrittenSource.sourceDigest.isEmpty = true) := by
    rintro ⟨hnonzero, hempty⟩
    refine hdigest (fun hdisallow => ?_) (List.isEmpty_iff.mp hempty)
    rw [hdisallow] at hnonzero
    exact hnonzero rfl
  have hget : s.fileDigests.tryGet (inv client).args.compiler compiler.size compiler.mtime =
      some (some hash) := by
    simp only [Invocation.compiler] at hlookup habsolute
    rw [FileDigestCache.tryGet, if_pos habsolute, hlookup]
    exact if_pos ⟨rfl, rfl⟩
  rw [CxxCompilationTask.prepare, if_neg]
  · simp only [hget]
    exact ⟨_, rfl⟩
  · rintro (hle | hempty | hempty | hrange | hmissing)
    · exact absurd hpid (Int32.not_lt.mpr hle)
    · exact hpath (List.isEmpty_iff.mp hempty)
    · rw [harguments] at hempty
      cases hempty
    · exact hcontrol hrange
    · exact hhashed hmissing

theorem ownReports_start (files : Bytes → Option CompilerFile) :
    OwnReports inv (.start files) where
  early _ _ _ h := by cases h
  own _ _ _ h := by cases h

theorem early_onSubmitted {pc : Pc} {result : Except Status CxxCompilationTask}
    (h : (pc.onSubmitted result).Early) : pc.Early := by
  cases pc with
  | submit compiler again =>
      cases result with
      | ok task => exact h.elim
      | error status =>
          simp only [Pc.onSubmitted] at h
          split_ifs at h with hretry
          · rw [hretry.2]
            trivial
          · exact h.elim
  | _ => exact h

theorem report_of_onSubmitted {pc : Pc} {result : Except Status CxxCompilationTask}
    {compiler : CompilerFile} {digest : Bytes}
    (h : pc.onSubmitted result = .report compiler digest) : pc = .report compiler digest := by
  cases pc with
  | submit compiler again =>
      cases result with
      | ok task => cases h
      | error status =>
          simp only [Pc.onSubmitted] at h
          split_ifs at h
  | _ => exact h

/-- An answer to a report makes its client submit again, or fail. -/
theorem not_early_onReported {pc : Pc} {status : ℤ} (h : (pc.onReported status).Early) :
    pc.Early ∧ pc.onReported status = pc := by
  cases pc with
  | report compiler digest =>
      simp only [Pc.onReported] at h
      split_ifs at h
      · exact h.elim
      · exact h.elim
  | _ => exact ⟨h, rfl⟩

theorem not_report_onReported {pc : Pc} {status : ℤ} {compiler : CompilerFile} {digest : Bytes} :
    pc.onReported status ≠ .report compiler digest := by
  cases pc with
  | report compiler digest =>
      simp only [Pc.onReported]
      split_ifs <;> simp
  | _ => simp [Pc.onReported]

/-- A step that sends no report. -/
theorem OwnReports.keep (h : OwnReports inv s) (hreports : t.reports = s.reports)
    (hearly : ∀ client, (t.clients client).Early → (s.clients client).Early)
    (hown : ∀ client compiler digest, t.clients client = .report compiler digest →
      s.clients client = .report compiler digest) : OwnReports inv t where
  early client hpc text := by
    rw [hreports]
    exact h.early client (hearly client hpc) text
  own client compiler digest hpc := by
    rw [hreports]
    exact h.own client compiler digest (hown client compiler digest hpc)

theorem OwnReports.setClient (h : OwnReports inv s) {client : ℕ} {pc : Pc}
    (hearly : pc.Early → (s.clients client).Early)
    (hown : ∀ compiler digest, pc ≠ .report compiler digest) :
    OwnReports inv (s.setClient client pc) := by
  refine h.keep rfl (fun client' hpc => ?_) (fun client' compiler digest hpc => ?_)
  · by_cases heq : client' = client
    · subst heq
      rw [System.setClient_self] at hpc
      exact hearly hpc
    · rwa [System.setClient_of_ne heq] at hpc
  · by_cases heq : client' = client
    · subst heq
      rw [System.setClient_self] at hpc
      exact absurd hpc (hown compiler digest)
    · rwa [System.setClient_of_ne heq] at hpc

theorem OwnReports.step (h : OwnReports inv s) {event : Event} (hstep : Step lib inv s event t) :
    OwnReports inv t := by
  cases hstep with
  | change path file => exact ⟨h.early, h.own⟩
  | @look client compiler hpc hfile =>
      have hclient : OwnReports inv (s.setClient client (.submit compiler false)) :=
        h.setClient (fun _ => by rw [hpc]; trivial) (fun _ _ heq => by cases heq)
      exact ⟨hclient.early, hclient.own⟩
  | @submit client compiler result answered _ _ =>
      refine h.keep (System.onSubmitted_reports _ _ _ _ _) (fun client' hpc => ?_)
        (fun client' compiler' digest hpc => ?_)
      · rcases System.clients_onSubmitted s client compiler result answered client' with
          heq | heq
        · rwa [heq] at hpc
        · rw [heq] at hpc
          exact early_onSubmitted hpc
      · rcases System.clients_onSubmitted s client compiler result answered client' with
          heq | heq
        · rwa [heq] at hpc
        · rw [heq] at hpc
          exact report_of_onSubmitted hpc
  | @digest client compiler file hpc hfile =>
      have hunsent : ∀ text, (client, text) ∉ s.reports :=
        h.early client (by rw [hpc]; trivial)
      have hself := System.setClient_self s client (.report compiler (lib.blake3.hex file.content))
      have hclient : ∀ client', client' ≠ client →
          (s.setClient client (.report compiler (lib.blake3.hex file.content))).clients client' =
            s.clients client' := fun _ heq => System.setClient_of_ne heq s _
      constructor
      · intro client' hearly text hmem
        by_cases heq : client' = client
        · subst heq
          rw [System.onDigest, hself] at hearly
          exact hearly
        · rw [System.onDigest, hclient client' heq] at hearly
          rcases List.mem_cons.mp hmem with hnew | hmem
          · cases hnew
            exact heq rfl
          · exact h.early client' hearly text hmem
      · intro client' compiler' digest hreport
        by_cases heq : client' = client
        · subst heq
          rw [System.onDigest, hself] at hreport
          cases hreport
          refine ⟨plainText_hex _, fun text hmem => ?_⟩
          rcases List.mem_cons.mp hmem with hnew | hmem
          · cases hnew
            rfl
          · exact absurd hmem (hunsent text)
        · rw [System.onDigest, hclient client' heq] at hreport
          obtain ⟨hplain, hown⟩ := h.own client' compiler' digest hreport
          refine ⟨hplain, fun text hmem => ?_⟩
          rcases List.mem_cons.mp hmem with hnew | hmem
          · cases hnew
            exact absurd rfl heq
          · exact hown text hmem
  | @report client text answered _ =>
      refine h.keep (System.onReport_reports _ _ _ _) (fun client' hpc => ?_)
        (fun client' compiler' digest hpc => ?_)
      · rcases System.clients_onReport s client (Local.setFileDigest lib s.fileDigests text)
          answered client' with heq | ⟨-, -, heq⟩
        · rwa [heq] at hpc
        · rw [heq] at hpc
          exact (not_early_onReported hpc).1
      · rcases System.clients_onReport s client (Local.setFileDigest lib s.fileDigests text)
          answered client' with heq | ⟨-, -, heq⟩
        · rwa [heq] at hpc
        · rw [heq] at hpc
          exact absurd hpc not_report_onReported
  | @timeout client _ => exact h.setClient False.elim fun _ _ heq => by cases heq

theorem submit_of_onSubmitted {pc : Pc} {result : Except Status CxxCompilationTask}
    {compiler : CompilerFile} {again : Bool} (h : pc.onSubmitted result = .submit compiler again) :
    pc = .submit compiler again := by
  cases pc with
  | submit compiler again =>
      cases result with
      | ok task => cases h
      | error status =>
          simp only [Pc.onSubmitted] at h
          split_ifs at h
  | _ => exact h

theorem submit_of_onReported {pc : Pc} {status : ℤ} {compiler : CompilerFile} {again : Bool}
    (h : pc.onReported status = .submit compiler again) :
    pc = .submit compiler again ∨ ∃ digest, pc = .report compiler digest := by
  cases pc with
  | report looked digest =>
      simp only [Pc.onReported] at h
      split_ifs at h
      cases h
      exact .inr ⟨digest, rfl⟩
  | _ => exact .inl h

/-- A client gets to its second submission by an answer to its report. -/
theorem again_cases {client : ℕ} {compiler : CompilerFile} {event : Event}
    (hstep : Step lib inv s event t) (ht : t.clients client = .submit compiler true) :
    s.clients client = .submit compiler true ∨
      ∃ digest text, s.clients client = .report compiler digest ∧ (client, text) ∈ s.reports ∧
        event = .report client text true ∧
        t.fileDigests = (Local.setFileDigest lib s.fileDigests text).2 := by
  have hmoved : ∀ client' pc, pc ≠ .submit compiler true →
      (s.setClient client' pc).clients client = .submit compiler true →
        s.clients client = .submit compiler true := by
    intro client' pc hne hpc
    by_cases heq : client = client'
    · subst heq
      rw [System.setClient_self] at hpc
      exact absurd hpc hne
    · rwa [System.setClient_of_ne heq] at hpc
  cases hstep with
  | change path file => exact .inl ht
  | look _ _ => exact .inl (hmoved _ _ (by simp) ht)
  | @submit client' compiler' result answered _ _ =>
      rcases System.clients_onSubmitted s client' compiler' result answered client with heq | heq
      · exact .inl (heq.symm.trans ht)
      · exact .inl (submit_of_onSubmitted (heq.symm.trans ht))
  | digest _ _ => exact .inl (hmoved _ _ (by simp) ht)
  | @report client' text answered hsent =>
      rcases System.clients_onReport s client' (Local.setFileDigest lib s.fileDigests text)
        answered client with heq | ⟨rfl, rfl, heq⟩
      · exact .inl (heq.symm.trans ht)
      · rcases submit_of_onReported (heq.symm.trans ht) with hpc | ⟨digest, hpc⟩
        · exact .inl hpc
        · exact .inr ⟨digest, text, hpc, hsent, rfl, System.onReport_fileDigests _ _ _ _⟩
  | timeout _ => exact .inl (hmoved _ _ (by simp) ht)

/-- Since the client's report was handled, its compiler is known, or a report of another version
was handled. -/
def Resubmits (lib : ReportLibrary) (inv : ℕ → Invocation) (events : List Event) (s : System) :
    Prop :=
  ∀ client compiler, s.clients client = .submit compiler true →
    ∃ before text after, events = before ++ .report client text true :: after ∧
      (Known inv client compiler s ∨ ∃ event ∈ after, Overtakes lib inv client compiler event)

theorem Resubmits.step (hlib : lib.Documented)
    (hplain : ∀ client, PlainText (inv client).compiler) {events : List Event} {event : Event}
    (h : Resubmits lib inv events s) (hown : OwnReports inv s)
    (hstep : Step lib inv s event t) : Resubmits lib inv (events ++ [event]) t := by
  intro client compiler ht
  rcases again_cases hstep ht with hs | ⟨digest, text, hpc, hsent, rfl, htable⟩
  · obtain ⟨before, text, after, rfl, hknown⟩ := h client compiler hs
    refine ⟨before, text, after ++ [event], by simp, ?_⟩
    rcases hknown with hknown | ⟨event', hmem, hovertakes⟩
    · rcases known_step hknown hstep with hknown | hovertakes
      · exact .inl hknown
      · exact .inr ⟨event, by simp, hovertakes⟩
    · exact .inr ⟨event', List.mem_append_left _ hmem, hovertakes⟩
  · obtain ⟨hdigest, htext⟩ := hown.own client compiler digest hpc
    refine ⟨events, text, [], rfl, .inl ⟨digest, ?_⟩⟩
    rw [htable, Local.setFileDigest, htext text hsent,
      hlib.tryParse_report _ _ _ _ (hplain client) hdigest]
    exact AList.lookup_insert _

/-- What is behind `front`. -/
def stripFront (front text : Bytes) : Option Bytes :=
  if front.isPrefixOf text then some (text.drop front.length) else none

theorem stripFront_append (front rest : Bytes) : stripFront front (front ++ rest) = some rest := by
  simp [stripFront]

/-- The text up to a character, and from there on. -/
def readUntil (c : UInt8) (text : Bytes) : Option (Bytes × Bytes) :=
  (find [c] text).map fun n => (text.take n, text.drop n)

theorem readUntil_append {c : UInt8} {front rest : Bytes} (h : c ∉ front)
    (hrest : rest.head? = some c) : readUntil c (front ++ rest) = some (front, rest) := by
  obtain ⟨rest, rfl⟩ := List.head?_eq_some_iff.mp hrest
  simp [readUntil, find_singleton h]

/-- Reads a report whose strings have no escapes. -/
def readReport (text : Bytes) : Option Local.SetFileDigestRequest := do
  let text ← stripFront (asciiBytes "\x7b\"file_desc\":\x7b\"path\":\"") text
  let (path, text) ← readUntil (ascii '"') text
  let text ← stripFront (asciiBytes "\",\"size\":") text
  let (size, text) ← readUntil (ascii ',') text
  let text ← stripFront (asciiBytes ",\"timestamp\":") text
  let (timestamp, text) ← readUntil (ascii '\x7d') text
  let text ← stripFront (asciiBytes "\x7d,\"digest\":\"") text
  let (digest, _) ← readUntil (ascii '"') text
  return ⟨⟨path, .ofNat (decimalValue size), .ofNat (decimalValue timestamp)⟩, digest⟩

theorem readReport_reportText {path digest : Bytes} (hpath : PlainText path)
    (hdigest : PlainText digest) (size mtime : UInt64) :
    readReport (Client.reportText path size mtime digest) =
      some ⟨⟨path, size, mtime⟩, digest⟩ := by
  have hquote : ∀ text, PlainText text → ascii '"' ∉ text := fun text htext hmem =>
    (htext _ hmem).2.2.1 rfl
  have hcomma : ascii ',' ∉ decimal size.toNat := notMem_decimal (by decide) _
  have hbrace : ascii '\x7d' ∉ decimal mtime.toNat := notMem_decimal (by decide) _
  simp only [readReport, Client.reportText, List.append_assoc, stripFront_append,
    Option.bind_eq_bind, Option.bind_some]
  rw [readUntil_append (hquote path hpath) rfl, Option.bind_some, stripFront_append,
    Option.bind_some, readUntil_append hcomma rfl, Option.bind_some, stripFront_append,
    Option.bind_some, readUntil_append hbrace rfl, Option.bind_some, stripFront_append,
    Option.bind_some, readUntil_append (hquote digest hdigest) rfl, Option.bind_some,
    decimalValue_decimal, decimalValue_decimal, UInt64.ofNat_toNat, UInt64.ofNat_toNat]
  rfl

/-- Sources are stored, and an empty file is the compiler. -/
def sampleLibrary : ReportLibrary where
  toSubmissionLibrary :=
    { Submission.sampleLibrary with blake3 := Client.RewriteSample.hash }
  tryParseReport text :=
    match readReport text with
    | some request => .ok request
    | none => .error ⟨400, []⟩

theorem sampleLibrary_documented : sampleLibrary.Documented where
  toSubmission :=
    { encodeHex := fun _ => rfl
      decompress_compress := fun _ => rfl
      tryParse_write := fun _ _ => rfl }
  tryParse_report path size mtime digest hpath hdigest := by
    simp only [sampleLibrary]
    rw [readReport_reportText hpath hdigest]

/-- `g++ -c -O2 a.cc` in the first process. -/
def sampleInvocation (_ : ℕ) : Invocation where
  args := Submission.sampleSubmission.args
  rewrittenSource :=
    ⟨asciiBytes "c++", asciiBytes "a.cc", true, .allow, Submission.sampleSource,
      Submission.sampleSourceDigest⟩
  pid := 100

def sampleCompiler : CompilerFile := ⟨0, 1, []⟩

def sampleFiles (path : Bytes) : Option CompilerFile :=
  if path = asciiBytes "/usr/bin/g++" then some sampleCompiler else none

def sampleDigest : Bytes := sampleLibrary.blake3.hex []

def sampleText : Bytes := Client.reportText (asciiBytes "/usr/bin/g++") 0 1 sampleDigest

/-- The client is refused, reports its compiler, and submits again. -/
def sampleEvents : List Event :=
  [.look 0, .submit 0 sampleCompiler true, .digest 0, .report 0 sampleText true]

def sampleReported : System :=
  ((((System.start sampleFiles).look 0 sampleCompiler).onSubmitted 0 sampleCompiler
    (.error ⟨400, asciiBytes "Compiler digest is unknown."⟩) true).onDigest 0
      (asciiBytes "/usr/bin/g++") sampleCompiler sampleDigest).onReport 0
        (Local.setFileDigest sampleLibrary ∅ sampleText) true

theorem plainText_sample (client : ℕ) : PlainText (sampleInvocation client).compiler := by
  show PlainText (asciiBytes "/usr/bin/g++")
  decide

theorem submittable_sample : Submittable (sampleInvocation 0) where
  pid := by decide
  sourcePath := by decide
  sourceDigest _ := by decide
  absolute := rfl

theorem setFileDigest_sample : Local.setFileDigest sampleLibrary ∅ sampleText =
    (200, Local.FileDigestCache.set ∅ (asciiBytes "/usr/bin/g++") 0 1 sampleDigest) := by
  have hplain : PlainText sampleDigest := @plainText_hex sampleLibrary []
  have hparse : sampleLibrary.tryParseReport sampleText =
      .ok ⟨⟨asciiBytes "/usr/bin/g++", 0, 1⟩, sampleDigest⟩ :=
    sampleLibrary_documented.tryParse_report _ _ _ _ (plainText_sample 0) hplain
  rw [Local.setFileDigest, hparse]

theorem sampleRun : Run (Guarded (Step sampleLibrary sampleInvocation) (Telling sampleInvocation))
    (.start sampleFiles) sampleEvents sampleReported := by
  refine .cons ⟨.look rfl rfl, trivial⟩ (.cons ⟨.submit true (.head _) rfl, trivial⟩
    (.cons ⟨.digest rfl rfl, ?_⟩ (.cons ⟨.report true (.head _), trivial⟩ (.nil _))))
  intro compiler file hpc hfile
  cases hpc
  cases hfile
  rfl

theorem sampleReported_again :
    sampleReported.clients 0 = .submit sampleCompiler true := by
  rw [sampleReported, setFileDigest_sample]
  rfl

end CompilerDigests

end Yadcc
