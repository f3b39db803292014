/-
# The compilation driver

The client preprocesses the source, has it compiled in the cloud, and falls back to the
compiler of its own machine whenever something does not work out: at once if the task cannot
be distributed, after a bounded number of attempts if the cloud fails, and also if the
compilation itself failed there. The compiler of the machine runs under a quota.

What the driver meets is nondeterministic: the labels of its steps say what it asked for and
what came back. The questions are what a run that ends has done, and for how long the driver
goes on.
-/

import Yadcc.Client.RewriteFile
import Yadcc.Client.WaitForCompilation
import Yadcc.Lib.Transition

namespace Yadcc.Client

open Yadcc.Lib
open Yadcc.Lib.Shell (asciiBytes)

def kLightweightArgs : List Bytes := ["-dumpversion", "-dumpmachine", "-E"].map asciiBytes

def isLightweightTask (treatSourceFromStdinAsLightweight : Bool) (args : CompilerArgs) : Bool :=
  kLightweightArgs.any (fun e => (args.tryGet e).isSome) ||
    treatSourceFromStdinAsLightweight && (args.tryGet (asciiBytes "-")).isSome

/-- What is printed of a text with `%s`. -/
def cString (text : Bytes) : Bytes := text.takeWhile (· ≠ 0)

namespace Entry

/-- What does not change during a run. `request` is the body that a source is submitted with,
`distributable` the answer of `IsCompilerInvocationDistributable`, and the destination is the
object file. -/
structure Invocation where
  lib : ResponseLibrary
  request : RewriteResult → Bytes
  args : CompilerArgs
  distributable : Bool
  treatSourceFromStdinAsLightweight : Bool
  compileOnCloudSizeThreshold : ℕ
  cwd : Bytes
  destination : Bytes

/-- Where the driver stands: in front of what it does next, or at its end. -/
inductive Pc
  | rewrite (retry : Bool)
  | submit (rewritten : RewriteResult)
  | report (rewritten : RewriteResult)
  | resubmit (rewritten : RewriteResult)
  | wait (taskId : String)
  | tryQuota
  | acquire (lightweight : Bool)
  | native
  | release (exitCode : ℤ)
  | deliver (result : CompilationResult)
  | exited (exitCode : ℤ)
  | died

structure State where
  pc : Pc
  retriesLeft : ℤ

/-- What is asked for and what comes of it. Statuses and bodies are those of the daemon's
answers; a compiler that was killed has no exit code. -/
inductive Event
  | rewrite (result : Option RewriteResult)
  | submit (request : Bytes) (status : ℤ) (answer : Bytes)
  | reportDigest (status : ℤ)
  | wait (taskId : String) (status : ℤ) (answer : Bytes)
  | tryAcquireQuota (granted : Bool)
  | acquireQuota (lightweight granted : Bool)
  | runNatively (exitCode : Option ℤ)
  | releaseQuota
  | deliver (output error : Bytes) (files : List (Bytes × Bytes))

namespace Invocation

variable (inv : Invocation)

/-- Run the compiler of this machine once there is a quota. -/
def passthrough : Pc :=
  .acquire (isLightweightTask inv.treatSourceFromStdinAsLightweight inv.args)

def start : State where
  pc := if inv.distributable then .rewrite false else inv.passthrough
  retriesLeft := 5

/-- The size counts for the first attempt only. An empty source fails a check. -/
def onRewritten (retry : Bool) : Option RewriteResult → Pc
  | none => inv.passthrough
  | some rewritten =>
      if retry = false ∧ rewritten.zstdRewritten.length < inv.compileOnCloudSizeThreshold then
        inv.passthrough
      else if rewritten.zstdRewritten.isEmpty then .died
      else .submit rewritten

/-- A compilation in the cloud has come to its end. -/
def onResult (result : CompilationResult) : Pc :=
  if result.exitCode < 0 ∨ result.exitCode = 127 then .tryQuota
  else if result.exitCode ≠ 0 then inv.passthrough
  else .deliver result

/-- The answer to a submission that is not made again. -/
def onSubmitted (status : ℤ) (answer : Bytes) : Pc :=
  if status ≠ 200 then inv.onResult (.failed (-1))
  else
    match inv.lib.readJson answer with
    | none => inv.onResult (.failed (-1))
    | some jsv =>
        match jsv.member "task_id" >>= Json.asString with
        | .ok taskId => .wait taskId
        | .error _ => .died

def onAnswer (taskId : String) (status : ℤ) (answer : Bytes) : Pc :=
  match onWaitAnswer inv.lib (patchedAt inv.args inv.cwd inv.destination) status answer with
  | .error _ => .died
  | .ok none => .wait taskId
  | .ok (some result) => inv.onResult result

/-- The fallback after a failure of the cloud: the compiler of this machine if there is a quota
at once, another attempt if there is one left, the compiler of this machine in any case. -/
def onQuota (granted : Bool) (retriesLeft : ℤ) : State :=
  if granted then ⟨.native, retriesLeft⟩
  else if retriesLeft ≠ 0 then ⟨.rewrite true, retriesLeft - 1⟩
  else ⟨inv.passthrough, retriesLeft - 1⟩

/-- What is done with a result. -/
def delivery (result : CompilationResult) : Event :=
  .deliver (cString (utf8 result.output)) (cString (utf8 result.error))
    (writeCompilationResults inv.destination
      (result.outputFiles.map fun file => (utf8 file.1, file.2)))

end Invocation

inductive Step (inv : Invocation) : State → Event → State → Prop
  | rewrite {s : State} {retry : Bool} (result : Option RewriteResult) : s.pc = .rewrite retry →
      Step inv s (.rewrite result) { s with pc := inv.onRewritten retry result }
  | submit {s : State} {rewritten : RewriteResult} (status : ℤ) (answer : Bytes) :
      s.pc = .submit rewritten →
      Step inv s (.submit (inv.request rewritten) status answer)
        { s with pc := if status = 400 then .report rewritten else inv.onSubmitted status answer }
  | report {s : State} {rewritten : RewriteResult} (status : ℤ) : s.pc = .report rewritten →
      Step inv s (.reportDigest status)
        { s with pc :=
          if status ≠ 200 then inv.onResult (.failed (-1)) else .resubmit rewritten }
  | resubmit {s : State} {rewritten : RewriteResult} (status : ℤ) (answer : Bytes) :
      s.pc = .resubmit rewritten →
      Step inv s (.submit (inv.request rewritten) status answer)
        { s with pc := inv.onSubmitted status answer }
  | wait {s : State} {taskId : String} (status : ℤ) (answer : Bytes) : s.pc = .wait taskId →
      Step inv s (.wait taskId status answer) { s with pc := inv.onAnswer taskId status answer }
  | tryQuota {s : State} (granted : Bool) : s.pc = .tryQuota →
      Step inv s (.tryAcquireQuota granted) (inv.onQuota granted s.retriesLeft)
  | acquire {s : State} {lightweight : Bool} (granted : Bool) : s.pc = .acquire lightweight →
      Step inv s (.acquireQuota lightweight granted)
        { s with pc := if granted then .native else .acquire lightweight }
  | native {s : State} (exitCode : Option ℤ) : s.pc = .native →
      Step inv s (.runNatively exitCode)
        { s with pc := exitCode.elim .died .release }
  | release {s : State} {exitCode : ℤ} : s.pc = .release exitCode →
      Step inv s .releaseQuota { s with pc := .exited exitCode }
  | deliver {s : State} {result : CompilationResult} : s.pc = .deliver result →
      Step inv s (inv.delivery result) { s with pc := .exited 0 }

/-! ## What a run has done -/

/-- Events that take or leave nothing: no quota, no result, no compiler of this machine. -/
def Event.IsQuiet : Event → Prop
  | .tryAcquireQuota granted | .acquireQuota _ granted => granted = false
  | .runNatively _ | .releaseQuota | .deliver _ _ _ => False
  | _ => True

def Quiet (events : List Event) : Prop := ∀ e ∈ events, e.IsQuiet

/-- A quota is granted. -/
inductive Grant : Event → Prop
  | tryAcquire : Grant (.tryAcquireQuota true)
  | acquire (lightweight : Bool) : Grant (.acquireQuota lightweight true)

/-- The daemon has accepted a source under a name, at once or after it was told the digest of
the compiler. The body of the request is the same in both cases. -/
inductive Accepted (inv : Invocation) (rewritten : RewriteResult) (taskId : String) :
    List Event → Prop
  | once {answer : Bytes} {jsv : Json} : inv.lib.readJson answer = some jsv →
      jsv.member "task_id" >>= Json.asString = .ok taskId →
      Accepted inv rewritten taskId [.submit (inv.request rewritten) 200 answer]
  | twice {refusal answer : Bytes} {jsv : Json} : inv.lib.readJson answer = some jsv →
      jsv.member "task_id" >>= Json.asString = .ok taskId →
      Accepted inv rewritten taskId [.submit (inv.request rewritten) 400 refusal,
        .reportDigest 200, .submit (inv.request rewritten) 200 answer]

/-- A source, accepted under a name, is waited for. -/
def Waited (inv : Invocation) (taskId : String) (events : List Event) : Prop :=
  ∃ before rewritten submission waits, Quiet before ∧
    Accepted inv rewritten taskId submission ∧
    (∀ e ∈ waits, ∃ answer, e = .wait taskId 503 answer) ∧
    events = before ++ .rewrite (some rewritten) :: submission ++ waits

/-- The result of a compilation that succeeded has been received: it is the one of the task
that the last source was accepted as. -/
def Received (inv : Invocation) (result : CompilationResult) (events : List Event) : Prop :=
  ∃ taskId before answer, Waited inv taskId before ∧
    events = before ++ [.wait taskId 200 answer] ∧ result.exitCode = 0 ∧
    parseCompilationResult inv.lib (patchedAt inv.args inv.cwd inv.destination) answer = .ok result

/-- The compiler of this machine has run once, under a quota, and nothing was delivered. -/
def RanNatively (exitCode : ℤ) (events : List Event) : Prop :=
  ∃ before grant, Quiet before ∧ Grant grant ∧
    events = before ++ [grant, .runNatively (some exitCode), .releaseQuota]

/-- A result of the cloud has been delivered, and no other compiler has run. -/
def Delivered (inv : Invocation) (events : List Event) : Prop :=
  ∃ result before, Received inv result before ∧ events = before ++ [inv.delivery result]

/-- What the events so far are when the driver stands somewhere. -/
def Trace (inv : Invocation) (events : List Event) : Pc → Prop
  | .rewrite _ | .tryQuota | .acquire _ => Quiet events
  | .submit rewritten => ∃ before, Quiet before ∧ events = before ++ [.rewrite (some rewritten)]
  | .report rewritten => ∃ before refusal, Quiet before ∧
      events = before ++ [.rewrite (some rewritten), .submit (inv.request rewritten) 400 refusal]
  | .resubmit rewritten => ∃ before refusal, Quiet before ∧
      events = before ++ [.rewrite (some rewritten), .submit (inv.request rewritten) 400 refusal,
        .reportDigest 200]
  | .wait taskId => Waited inv taskId events
  | .deliver result => Received inv result events
  | .native => ∃ before grant, Quiet before ∧ Grant grant ∧ events = before ++ [grant]
  | .release exitCode => ∃ before grant, Quiet before ∧ Grant grant ∧
      events = before ++ [grant, .runNatively (some exitCode)]
  | .exited exitCode => RanNatively exitCode events ∨ (exitCode = 0 ∧ Delivered inv events)
  | .died => True

section Runs

variable {inv : Invocation} {s t : State} {event : Event} {events : List Event}

@[simp]
theorem quiet_nil : Quiet [] := List.forall_mem_nil _

@[simp]
theorem quiet_cons : Quiet (event :: events) ↔ event.IsQuiet ∧ Quiet events :=
  List.forall_mem_cons

@[simp]
theorem quiet_append {events' : List Event} :
    Quiet (events ++ events') ↔ Quiet events ∧ Quiet events' :=
  List.forall_mem_append

theorem Accepted.quiet {rewritten : RewriteResult} {taskId : String}
    (h : Accepted inv rewritten taskId events) : Quiet events := by
  cases h with
  | once _ _ => simp [Event.IsQuiet]
  | twice _ _ => simp [Event.IsQuiet]

theorem Waited.quiet {taskId : String} (h : Waited inv taskId events) : Quiet events := by
  obtain ⟨before, rewritten, submission, waits, hbefore, haccepted, hwaits, rfl⟩ := h
  have hwaits : Quiet waits := by
    intro e he
    obtain ⟨answer, rfl⟩ := hwaits e he
    trivial
  rw [quiet_append, quiet_append, quiet_cons]
  exact ⟨⟨hbefore, trivial, haccepted.quiet⟩, hwaits⟩

/-- Another request for the result of the same task. -/
theorem Waited.concat {taskId : String} (h : Waited inv taskId events) (answer : Bytes) :
    Waited inv taskId (events ++ [.wait taskId 503 answer]) := by
  obtain ⟨before, rewritten, submission, waits, hbefore, haccepted, hwaits, rfl⟩ := h
  refine ⟨before, rewritten, submission, waits ++ [.wait taskId 503 answer], hbefore, haccepted,
    ?_, (List.append_assoc ..)⟩
  intro e he
  rcases List.mem_append.mp he with he | he
  · exact hwaits e he
  · exact ⟨answer, List.mem_singleton.mp he⟩

/-- After a result: the cloud has failed, or the compilation, or the result is delivered. -/
theorem trace_onResult {result : CompilationResult} (hquiet : Quiet events)
    (hreceived : result.exitCode = 0 → Received inv result events) :
    Trace inv events (inv.onResult result) := by
  unfold Invocation.onResult
  split
  · exact hquiet
  · split
    · exact hquiet
    · next hzero => exact hreceived (not_not.mp hzero)

theorem trace_failed (hquiet : Quiet events) :
    Trace inv events (inv.onResult (.failed (-1))) :=
  trace_onResult hquiet fun hzero => absurd hzero (by decide)

theorem trace_onSubmitted {status : ℤ} {answer : Bytes} (hquiet : Quiet events)
    (haccepted : ∀ jsv taskId, status = 200 → inv.lib.readJson answer = some jsv →
      jsv.member "task_id" >>= Json.asString = .ok taskId → Waited inv taskId events) :
    Trace inv events (inv.onSubmitted status answer) := by
  unfold Invocation.onSubmitted
  split
  · exact trace_failed hquiet
  · next hstatus =>
      split
      · exact trace_failed hquiet
      · next jsv hjsv =>
          split
          · next taskId htask => exact haccepted jsv taskId (not_not.mp hstatus) hjsv htask
          · trivial

/-- An answer with a result has status 200, or the result is that the cloud failed. -/
theorem trace_onAnswer {taskId : String} (hwaited : Waited inv taskId events) (status : ℤ)
    (answer : Bytes) : Trace inv (events ++ [.wait taskId status answer])
      (inv.onAnswer taskId status answer) := by
  have hquiet : Quiet (events ++ [.wait taskId status answer]) := by
    simp [hwaited.quiet, Event.IsQuiet]
  unfold Invocation.onAnswer onWaitAnswer
  split_ifs with h503 h404 h200
  · rw [h503]
    exact hwaited.concat answer
  · exact trace_failed hquiet
  · exact trace_failed hquiet
  · rw [not_not] at h200
    subst h200
    cases hparse : parseCompilationResult inv.lib (patchedAt inv.args inv.cwd inv.destination)
      answer with
    | error fault => trivial
    | ok result =>
        exact trace_onResult hquiet fun hzero =>
          ⟨taskId, events, answer, hwaited, rfl, hzero, hparse⟩

theorem trace_step (h : Trace inv events s.pc) (hstep : Step inv s event t) :
    Trace inv (events ++ [event]) t.pc := by
  cases hstep with
  | @rewrite retry result hpc =>
      rw [hpc] at h
      have hquiet : Quiet (events ++ [.rewrite result]) :=
        quiet_append.mpr ⟨h, by simp [Event.IsQuiet]⟩
      cases result with
      | none => exact hquiet
      | some rewritten =>
          show Trace inv _ (inv.onRewritten retry (some rewritten))
          simp only [Invocation.onRewritten]
          split
          · exact hquiet
          · split
            · trivial
            · exact ⟨events, h, rfl⟩
  | @submit rewritten status answer hpc =>
      rw [hpc] at h
      obtain ⟨before, hbefore, rfl⟩ := h
      rw [List.append_assoc]
      show Trace inv _ (if status = 400 then _ else _)
      split
      · next hstatus =>
          subst hstatus
          exact ⟨before, answer, hbefore, rfl⟩
      · refine trace_onSubmitted (by simp [hbefore, Event.IsQuiet])
          fun jsv taskId hstatus hjsv htask => ?_
        subst hstatus
        exact ⟨before, rewritten, _, [], hbefore, .once hjsv htask, List.forall_mem_nil _, by simp⟩
  | @report rewritten status hpc =>
      rw [hpc] at h
      obtain ⟨before, refusal, hbefore, rfl⟩ := h
      rw [List.append_assoc]
      show Trace inv _ (if status ≠ 200 then _ else _)
      split
      · exact trace_failed (by simp [hbefore, Event.IsQuiet])
      · next hstatus =>
          rw [not_not] at hstatus
          subst hstatus
          exact ⟨before, refusal, hbefore, rfl⟩
  | @resubmit rewritten status answer hpc =>
      rw [hpc] at h
      obtain ⟨before, refusal, hbefore, rfl⟩ := h
      rw [List.append_assoc]
      refine trace_onSubmitted (by simp [hbefore, Event.IsQuiet])
        fun jsv taskId hstatus hjsv htask => ?_
      subst hstatus
      have haccepted := @Accepted.twice inv rewritten taskId refusal answer jsv hjsv htask
      exact ⟨before, rewritten, _, [], hbefore, haccepted, List.forall_mem_nil _, by simp⟩
  | @wait taskId status answer hpc =>
      rw [hpc] at h
      exact trace_onAnswer h status answer
  | @tryQuota granted hpc =>
      rw [hpc] at h
      unfold Invocation.onQuota
      cases granted with
      | true => exact ⟨events, _, h, .tryAcquire, rfl⟩
      | false =>
          have hquiet : Quiet (events ++ [.tryAcquireQuota false]) :=
            quiet_append.mpr ⟨h, by simp [Event.IsQuiet]⟩
          simp only [Bool.false_eq_true, if_false]
          split
          · exact hquiet
          · exact hquiet
  | @acquire lightweight granted hpc =>
      rw [hpc] at h
      cases granted with
      | true => exact ⟨events, _, h, .acquire lightweight, rfl⟩
      | false => exact quiet_append.mpr ⟨h, by simp [Event.IsQuiet]⟩
  | @native exitCode hpc =>
      rw [hpc] at h
      obtain ⟨before, grant, hbefore, hgrant, rfl⟩ := h
      cases exitCode with
      | none => trivial
      | some exitCode => exact ⟨before, grant, hbefore, hgrant, List.append_assoc ..⟩
  | @release exitCode hpc =>
      rw [hpc] at h
      obtain ⟨before, grant, hbefore, hgrant, rfl⟩ := h
      exact .inl ⟨before, grant, hbefore, hgrant, List.append_assoc ..⟩
  | @deliver result hpc =>
      rw [hpc] at h
      exact .inr ⟨rfl, result, events, h, rfl⟩

theorem trace_start (inv : Invocation) : Trace inv [] inv.start.pc := by
  unfold Invocation.start
  dsimp only
  split
  · exact quiet_nil
  · exact quiet_nil

/-- What the daemon makes the driver wait for is not counted: refused quotas on the way to the
compiler of this machine, and results that are not ready. -/
def Event.work : Event → ℕ
  | .acquireQuota _ false => 0
  | .wait _ status _ => if status = 503 then 0 else 1
  | _ => 1

/-- The work that is left at most, apart from attempts to come. -/
def Pc.rank : Pc → ℕ
  | .rewrite _ => 9
  | .submit _ => 8
  | .report _ => 7
  | .resubmit _ => 6
  | .wait _ => 5
  | .tryQuota => 4
  | .acquire _ => 3
  | .native => 2
  | .release _ => 1
  | .deliver _ => 1
  | .exited _ => 0
  | .died => 0

def State.rank (s : State) : ℕ := s.pc.rank + 6 * s.retriesLeft.toNat

theorem rank_onResult (result : CompilationResult) : (inv.onResult result).rank ≤ 4 := by
  unfold Invocation.onResult
  split_ifs
  · exact le_rfl
  · show 3 ≤ 4
    omega
  · show 1 ≤ 4
    omega

theorem rank_onSubmitted (status : ℤ) (answer : Bytes) :
    (inv.onSubmitted status answer).rank ≤ 5 := by
  unfold Invocation.onSubmitted
  split
  · exact (rank_onResult _).trans (by omega)
  · split
    · exact (rank_onResult _).trans (by omega)
    · split
      · exact le_rfl
      · exact Nat.zero_le _

theorem rank_onRewritten (retry : Bool) (result : Option RewriteResult) :
    (inv.onRewritten retry result).rank ≤ 8 := by
  cases result with
  | none =>
      show 3 ≤ 8
      omega
  | some rewritten =>
      simp only [Invocation.onRewritten]
      split_ifs
      · show 3 ≤ 8
        omega
      · exact Nat.zero_le _
      · exact le_rfl

theorem rank_onAnswer (taskId : String) (status : ℤ) (answer : Bytes) :
    (Event.wait taskId status answer).work + (inv.onAnswer taskId status answer).rank ≤ 5 := by
  unfold Invocation.onAnswer onWaitAnswer
  by_cases h503 : status = 503
  · rw [if_pos h503, Event.work, if_pos h503]
    exact le_rfl
  · rw [if_neg h503, Event.work, if_neg h503]
    have hresult : ∀ result, 1 + (inv.onResult result).rank ≤ 5 := fun result =>
      Nat.add_le_add_left (rank_onResult result) 1
    split_ifs
    · exact hresult _
    · exact hresult _
    · cases parseCompilationResult inv.lib (patchedAt inv.args inv.cwd inv.destination) answer with
      | error fault =>
          show 1 + 0 ≤ 5
          omega
      | ok result => exact hresult result

/-- Only the place has changed. -/
theorem rank_le_of_pc {pc pc' : Pc} (hpc : s.pc = pc) (h : event.work + pc'.rank ≤ pc.rank) :
    event.work + State.rank { s with pc := pc' } ≤ s.rank := by
  simp only [State.rank, hpc]
  omega

/-- There are attempts left, or the driver is on its way to the end. -/
def Budgeted (s : State) : Prop := 0 ≤ s.retriesLeft ∨ s.pc.rank ≤ 3

/-- Work lowers the rank. -/
theorem rank_step (h : Budgeted s) (hstep : Step inv s event t) :
    event.work + t.rank ≤ s.rank := by
  cases hstep with
  | @rewrite retry result hpc =>
      have hrank : (inv.onRewritten retry result).rank ≤ 8 := rank_onRewritten retry result
      exact rank_le_of_pc hpc (Nat.add_le_add_left hrank 1)
  | @submit rewritten status answer hpc =>
      refine rank_le_of_pc hpc ?_
      have hrank : (inv.onSubmitted status answer).rank ≤ 5 := rank_onSubmitted status answer
      split
      · exact le_rfl
      · show 1 + _ ≤ 8
        omega
  | @report rewritten status hpc =>
      refine rank_le_of_pc hpc ?_
      have hrank : (inv.onResult (.failed (-1))).rank ≤ 4 := rank_onResult (.failed (-1))
      split
      · show 1 + _ ≤ 7
        omega
      · exact le_rfl
  | @resubmit rewritten status answer hpc =>
      have hrank : (inv.onSubmitted status answer).rank ≤ 5 := rank_onSubmitted status answer
      exact rank_le_of_pc hpc (Nat.add_le_add_left hrank 1)
  | @wait taskId status answer hpc => exact rank_le_of_pc hpc (rank_onAnswer taskId status answer)
  | @tryQuota granted hpc =>
      have hleft : 0 ≤ s.retriesLeft := h.resolve_right (by rw [hpc]; decide)
      unfold Invocation.onQuota State.rank
      rw [hpc]
      cases granted with
      | true =>
          show 1 + (2 + 6 * s.retriesLeft.toNat) ≤ 4 + 6 * s.retriesLeft.toNat
          omega
      | false =>
          simp only [Bool.false_eq_true, if_false]
          split
          · show 1 + (9 + 6 * (s.retriesLeft - 1).toNat) ≤ 4 + 6 * s.retriesLeft.toNat
            omega
          · show 1 + (3 + 6 * (s.retriesLeft - 1).toNat) ≤ 4 + 6 * s.retriesLeft.toNat
            omega
  | @acquire lightweight granted hpc =>
      refine rank_le_of_pc hpc ?_
      cases granted with
      | true => exact le_rfl
      | false => exact le_rfl
  | @native exitCode hpc =>
      refine rank_le_of_pc hpc ?_
      cases exitCode with
      | none =>
          show 1 + 0 ≤ 2
          omega
      | some exitCode => exact le_rfl
  | release hpc => exact rank_le_of_pc hpc le_rfl
  | deliver hpc => exact rank_le_of_pc hpc le_rfl

theorem budgeted_step (h : Budgeted s) (hstep : Step inv s event t) : Budgeted t := by
  have hrank : t.retriesLeft = s.retriesLeft → t.rank ≤ s.rank → Budgeted t := by
    intro hleft hle
    rcases h with hnonneg | hend
    · exact .inl (hleft ▸ hnonneg)
    · refine .inr ?_
      simp only [State.rank, hleft] at hle
      omega
  have hle : t.rank ≤ s.rank := by
    have hwork := rank_step h hstep
    omega
  cases hstep with
  | tryQuota granted hpc =>
      have hleft : 0 ≤ s.retriesLeft := h.resolve_right (by rw [hpc]; decide)
      unfold Invocation.onQuota
      split_ifs
      · exact .inl hleft
      · exact .inl (show 0 ≤ s.retriesLeft - 1 by omega)
      · exact .inr le_rfl
  | rewrite _ _ => exact hrank rfl hle
  | submit _ _ _ => exact hrank rfl hle
  | report _ _ => exact hrank rfl hle
  | resubmit _ _ _ => exact hrank rfl hle
  | wait _ _ _ => exact hrank rfl hle
  | acquire _ _ => exact hrank rfl hle
  | native _ _ => exact hrank rfl hle
  | release _ => exact hrank rfl hle
  | deliver _ => exact hrank rfl hle

end Runs

/-! ## A run -/

/-- An invocation that is not distributable. -/
def sampleInvocation : Invocation where
  lib := ⟨fun _ => none, fun _ => none⟩
  request _ := []
  args := ⟨asciiBytes "/usr/bin/g++", [(asciiBytes "--version", [])], []⟩
  distributable := false
  treatSourceFromStdinAsLightweight := true
  compileOnCloudSizeThreshold := 8192
  cwd := asciiBytes "/home"
  destination := []

def sampleEvents : List Event :=
  [.acquireQuota false false, .acquireQuota false true, .runNatively (some 3), .releaseQuota]

theorem sampleRun :
    Lib.Run (Step sampleInvocation) sampleInvocation.start sampleEvents ⟨.exited 3, 5⟩ :=
  .cons (.acquire false rfl) (.cons (.acquire true rfl)
    (.cons (.native (some 3) rfl) (.cons (.release rfl) (.nil _))))

end Entry

end Yadcc.Client
