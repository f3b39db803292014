/-
# What a delegated task comes to

`PerformOneTask` has three ways to a result: the cache, a task that a servant is running
already, and a servant of its own. All of them leave early in places, and all share one
output that is filled in as failed before. However the calls come out, and whenever the
task is aborted, the task is completed once, with one of four outputs that can be read off
the results the fiber got.
-/

import Yadcc.Daemon.Local.DistributedTaskDispatcher

namespace Yadcc.Daemon.Local

open Yadcc.Lib

namespace Event

/-- What a poll in the event came to. -/
def pollResult (cfg : DispatcherConfig) :
    Event → Option (Except ServantWaitStatus DistributedTaskOutput)
  | .poll result => some (waitServantForTask cfg result)
  | _ => none

/-- The cache entry that the event brings. -/
def cacheEntry : Event → Option DistributedTaskOutput
  | .readCache entry => entry
  | _ => none

/-- Whether the fiber looks at the `aborted` flag. -/
def looks : Event → Bool
  | .checkGrant => true
  | .checkWait => true
  | _ => false

/-- Whether the event is the call of `OnCompletion`. -/
def completes : Event → Bool
  | .complete _ => true
  | _ => false

end Event

namespace Fiber

/-! ## The outcome -/

/-- The results of the polls that were made. -/
def pollResults (cfg : DispatcherConfig) (events : List Event) :
    List (Except ServantWaitStatus DistributedTaskOutput) :=
  events.filterMap (Event.pollResult cfg)

/-- The result of reading the cache. -/
def cacheHit (cacheSetting : CacheControl) (events : List Event) :
    Option DistributedTaskOutput :=
  if cacheSetting = .allow then
    (events.findSome? Event.cacheEntry).map fun output => { output with exitCode := 0 }
  else none

/-- A result that ends the wait. -/
def decisive : Except ServantWaitStatus DistributedTaskOutput → Bool
  | .ok _ => true
  | .error .failed => true
  | .error _ => false

/-- A failure of the delegate's own. -/
def failedOutput (exitCode : ℤ) : DistributedTaskOutput := ⟨exitCode, [], [], [], []⟩

/-- What the task comes to. -/
def outcome (cfg : DispatcherConfig) (cacheSetting : CacheControl) (events : List Event) :
    DistributedTaskOutput :=
  match cacheHit cacheSetting events with
  | some output => output
  | none =>
      match (pollResults cfg events).find? decisive with
      | some (.ok output) => output
      | some (.error _) => failedOutput (-125)
      | none => failedOutput (-126)

/-- The fiber has looked at the `aborted` flag when it was set. -/
def AbortObserved (events : List Event) : Prop :=
  ∃ before look after, events = before ++ look :: after ∧ look.looks = true ∧
    Event.abort ∈ before

/-- So many RPC errors in a row. -/
def rpcErrors (count : ℕ) : List (Except ServantWaitStatus DistributedTaskOutput) :=
  List.replicate count (.error .rpcError)

/-- What holds before a poll is made: nothing has ended the wait so far. -/
structure Undecided (cfg : DispatcherConfig) (cacheSetting : CacheControl)
    (events : List Event) : Prop where
  missed : cacheHit cacheSetting events = none
  pending : ∀ result ∈ pollResults cfg events, decisive result = false
  patient : ¬ rpcErrors RpcRetries <:+: pollResults cfg events
  unobserved : ¬ AbortObserved events

/-- A poll is only made while nothing has ended the wait. -/
def PolledInTime (cfg : DispatcherConfig) (cacheSetting : CacheControl)
    (events : List Event) : Prop :=
  ∀ before result after, events = before ++ .poll result :: after →
    Undecided cfg cacheSetting before

/-- Why the fiber gives up without a decisive result: it saw that the task was aborted,
it could not start the task, or its last polls all were RPC errors. -/
def GaveUp (cfg : DispatcherConfig) (events : List Event) : Prop :=
  AbortObserved events ∨ (∃ now, Event.startTask none now ∈ events) ∨
    rpcErrors RpcRetries <:+ pollResults cfg events

/-- A performed task: completed once, with the outcome of what the fiber got. -/
structure Performed (cfg : DispatcherConfig) (cacheSetting : CacheControl)
    (events : List Event) (f : Fiber) : Prop where
  completions : f.completions = [outcome cfg cacheSetting events]
  state : f.task.state = .done
  once : events.countP Event.completes = 1
  inTime : PolledInTime cfg cacheSetting events
  gaveUp : cacheHit cacheSetting events = none →
    (∀ result ∈ pollResults cfg events, decisive result = false) → GaveUp cfg events

/-! ## One more event -/

variable {cfg : DispatcherConfig} {cacheSetting : CacheControl} {events : List Event}
  {event : Event} {f f' : Fiber}

theorem append_singleton_eq_split {α : Type} {as before after : List α} {a b : α}
    (h : as ++ [a] = before ++ b :: after) : (before = as ∧ b = a) ∨
      ∃ after', as = before ++ b :: after' := by
  rcases List.eq_nil_or_concat after with rfl | ⟨after', c, rfl⟩
  · obtain ⟨hbefore, hb⟩ := List.append_inj' h rfl
    cases hb
    exact .inl ⟨hbefore.symm, rfl⟩
  · right
    have hsplit : as ++ [a] = (before ++ b :: after') ++ [c] := by simpa using h
    exact ⟨after', (List.append_inj' hsplit rfl).1⟩

theorem pollResults_append : pollResults cfg (events ++ [event]) =
    pollResults cfg events ++ (event.pollResult cfg).toList := by
  rw [pollResults, List.filterMap_append, ← pollResults]
  cases h : event.pollResult cfg with
  | none => simp [h]
  | some result => simp [h]

theorem cacheHit_append (h : event.cacheEntry = none) :
    cacheHit cacheSetting (events ++ [event]) = cacheHit cacheSetting events := by
  unfold cacheHit
  rw [List.findSome?_append]
  simp [h]

/-- Events other than a read of the cache and a poll have no part in the outcome. -/
theorem outcome_append (hentry : event.cacheEntry = none) (hpoll : event.pollResult cfg = none) :
    outcome cfg cacheSetting (events ++ [event]) = outcome cfg cacheSetting events := by
  unfold outcome
  rw [cacheHit_append hentry, pollResults_append, hpoll, Option.toList_none, List.append_nil]

theorem abortObserved_append : AbortObserved (events ++ [event]) ↔
    AbortObserved events ∨ event.looks = true ∧ Event.abort ∈ events := by
  constructor
  · rintro ⟨before, look, after, hsplit, hlook, habort⟩
    rcases append_singleton_eq_split hsplit with ⟨rfl, rfl⟩ | ⟨after', hevents⟩
    · exact .inr ⟨hlook, habort⟩
    · exact .inl ⟨before, look, after', hevents, hlook, habort⟩
  · rintro (⟨before, look, after, hevents, hlook, habort⟩ | ⟨hlook, habort⟩)
    · exact ⟨before, look, after ++ [event], by rw [hevents]; simp, hlook, habort⟩
    · exact ⟨events, event, [], rfl, hlook, habort⟩

theorem PolledInTime.append (h : PolledInTime cfg cacheSetting events)
    (hpoll : (event.pollResult cfg).isSome → Undecided cfg cacheSetting events) :
    PolledInTime cfg cacheSetting (events ++ [event]) := by
  intro before result after hsplit
  rcases append_singleton_eq_split hsplit with ⟨rfl, rfl⟩ | ⟨after', hevents⟩
  · exact hpoll rfl
  · exact h before result after' hevents

theorem GaveUp.append (h : GaveUp cfg events) (hpoll : event.pollResult cfg = none) :
    GaveUp cfg (events ++ [event]) := by
  rcases h with hobserved | ⟨now, hstart⟩ | herrors
  · exact .inl (abortObserved_append.mpr (.inl hobserved))
  · exact .inr (.inl ⟨now, List.mem_append_left _ hstart⟩)
  · right
    right
    rw [pollResults_append, hpoll, Option.toList_none, List.append_nil]
    exact herrors

/-! ## The budget of retries -/

/-- With `retriesLeft` retries the last results are as many RPC errors as were spent. -/
def Budget (retriesLeft : ℕ)
    (results : List (Except ServantWaitStatus DistributedTaskOutput)) : Prop :=
  ∃ spent, spent + retriesLeft = RpcRetries ∧ rpcErrors spent <:+ results ∧
    ¬ rpcErrors (spent + 1) <:+ results ∧
    (retriesLeft ≠ 0 → ¬ rpcErrors RpcRetries <:+: results)

variable {results : List (Except ServantWaitStatus DistributedTaskOutput)} {retriesLeft : ℕ}

theorem rpcErrors_suffix_append (count : ℕ) :
    rpcErrors (count + 1) <:+ results ++ [.error .rpcError] ↔ rpcErrors count <:+ results := by
  rw [rpcErrors, List.replicate_succ', List.suffix_concat_iff]
  constructor
  · rintro (hnil | ⟨rest, heq, hsuffix⟩)
    · exact absurd hnil (by simp)
    · rw [← (List.append_inj' heq rfl).1] at hsuffix
      exact hsuffix
  · intro h
    exact .inr ⟨_, rfl, h⟩

theorem not_rpcErrors_suffix_append {result : Except ServantWaitStatus DistributedTaskOutput}
    (h : result ≠ .error .rpcError) (count : ℕ) :
    ¬ rpcErrors (count + 1) <:+ results ++ [result] := by
  rw [rpcErrors, List.replicate_succ', List.suffix_concat_iff]
  rintro (hnil | ⟨rest, heq, -⟩)
  · exact absurd hnil (by simp)
  · cases (List.append_inj' heq rfl).2
    exact h rfl

theorem budget_nil : Budget RpcRetries [] := by
  refine ⟨0, rfl, List.suffix_rfl, ?_, fun _ => ?_⟩
  · intro h
    cases List.suffix_nil.mp h
  · intro h
    cases List.infix_nil.mp h

/-- A servant that answers is given all retries again. -/
theorem Budget.running (h : Budget (retriesLeft + 1) results) :
    Budget RpcRetries (results ++ [.error .running]) := by
  obtain ⟨spent, -, -, -, hpatient⟩ := h
  have hrunning : (.error .running : Except ServantWaitStatus DistributedTaskOutput) ≠
      .error .rpcError := by simp
  refine ⟨0, rfl, List.nil_suffix, not_rpcErrors_suffix_append hrunning 0, fun _ => ?_⟩
  rw [List.infix_concat_iff]
  rintro (hsuffix | hinfix)
  · exact not_rpcErrors_suffix_append hrunning 3 hsuffix
  · exact hpatient (Nat.succ_ne_zero _) hinfix

/-- An RPC error spends one. -/
theorem Budget.rpcError (h : Budget (retriesLeft + 1) results) :
    Budget retriesLeft (results ++ [.error .rpcError]) := by
  obtain ⟨spent, hsum, hspent, hmore, hpatient⟩ := h
  refine ⟨spent + 1, by omega, (rpcErrors_suffix_append spent).mpr hspent, ?_, fun hleft => ?_⟩
  · rw [rpcErrors_suffix_append]
    exact hmore
  · rw [List.infix_concat_iff]
    rintro (hsuffix | hinfix)
    · -- Four errors at the end would be more than were spent.
      have hthree : rpcErrors 3 <:+ results := (rpcErrors_suffix_append 3).mp hsuffix
      have hle : spent + 1 ≤ 3 := by
        rw [RpcRetries] at hsum
        omega
      have hfewer : rpcErrors (spent + 1) <:+ rpcErrors 3 := by
        rw [rpcErrors, rpcErrors, List.suffix_replicate_iff]
        simpa using hle
      exact hmore (hfewer.trans hthree)
    · exact hpatient (Nat.succ_ne_zero _) hinfix

/-- Without retries the last results are the RPC errors that took them. -/
theorem Budget.exhausted (h : Budget 0 results) : rpcErrors RpcRetries <:+ results := by
  obtain ⟨spent, hsum, hspent, -⟩ := h
  rw [← hsum]
  exact hspent

/-! ## The invariant -/

/-- A task that has not been completed. -/
structure Open (f : Fiber) : Prop where
  completions : f.completions = []
  state : f.task.state ≠ .done

/-- The task before anything has decided its outcome. -/
structure Running (cacheSetting : CacheControl) (events : List Event) (f : Fiber) : Prop
    extends Open f where
  output : f.task.output = failedOutput (-126)
  missed : cacheHit cacheSetting events = none
  unobserved : ¬ AbortObserved events

/-- The outcome is decided, and nothing is left but to give back what is held. -/
structure Leaving (cfg : DispatcherConfig) (cacheSetting : CacheControl) (events : List Event)
    (f : Fiber) : Prop where
  output : f.task.output = outcome cfg cacheSetting events
  gaveUp : cacheHit cacheSetting events = none →
    (∀ result ∈ pollResults cfg events, decisive result = false) → GaveUp cfg events

/-- What the fiber has come to, by the point where it stands. -/
def Stage (cfg : DispatcherConfig) (cacheSetting : CacheControl) (events : List Event)
    (f : Fiber) : Prop :=
  match f.pc with
  | .readingCache =>
      Running cacheSetting events f ∧ pollResults cfg events = [] ∧
        events.findSome? Event.cacheEntry = none
  | .waiting _ retriesLeft =>
      Running cacheSetting events f ∧
        (∀ result ∈ pollResults cfg events, decisive result = false) ∧
        Budget retriesLeft (pollResults cfg events)
  | .polling _ retriesLeft =>
      Running cacheSetting events f ∧
        (∀ result ∈ pollResults cfg events, decisive result = false) ∧
        Budget (retriesLeft + 1) (pollResults cfg events)
  | .freeing _ => Open f ∧ Leaving cfg cacheSetting events f
  | .freeingGrant _ => Open f ∧ Leaving cfg cacheSetting events f
  | .completing => Open f ∧ Leaving cfg cacheSetting events f
  | .done =>
      f.completions = [f.task.output] ∧ f.task.state = .done ∧
        Leaving cfg cacheSetting events f
  | _ => Running cacheSetting events f ∧ pollResults cfg events = []

structure Inv (cfg : DispatcherConfig) (cacheSetting : CacheControl) (events : List Event)
    (f : Fiber) : Prop where
  setting : f.task.cacheSetting = cacheSetting
  aborted : f.task.aborted = true ↔ Event.abort ∈ events
  inTime : PolledInTime cfg cacheSetting events
  once : events.countP Event.completes = if f.pc = .done then 1 else 0
  stage : Stage cfg cacheSetting events f

/-- An event that tells nothing, and the same task: the stage is as before. -/
theorem Running.append (h : Running cacheSetting events f) (hentry : event.cacheEntry = none)
    (hlook : event.looks = true → Event.abort ∉ events) (hopen : Open f')
    (houtput : f'.task.output = f.task.output) :
    Running cacheSetting (events ++ [event]) f' where
  toOpen := hopen
  output := houtput.trans h.output
  missed := (cacheHit_append hentry).trans h.missed
  unobserved := by
    rw [abortObserved_append]
    rintro (hobserved | ⟨hlooks, habort⟩)
    · exact h.unobserved hobserved
    · exact hlook hlooks habort

theorem Leaving.append (h : Leaving cfg cacheSetting events f) (hentry : event.cacheEntry = none)
    (hpoll : event.pollResult cfg = none) (houtput : f'.task.output = f.task.output) :
    Leaving cfg cacheSetting (events ++ [event]) f' where
  output := by rw [outcome_append hentry hpoll, houtput, h.output]
  gaveUp := by
    rw [cacheHit_append hentry, pollResults_append, hpoll, Option.toList_none, List.append_nil]
    intro hmissed hpending
    exact (h.gaveUp hmissed hpending).append hpoll

/-- Giving up without a decisive result leaves the task failed as it was filled in. -/
theorem Running.leaving (h : Running cacheSetting events f)
    (hpending : ∀ result ∈ pollResults cfg events, decisive result = false)
    (hentry : event.cacheEntry = none) (hpoll : event.pollResult cfg = none)
    (houtput : f'.task.output = f.task.output) (hgave : GaveUp cfg (events ++ [event])) :
    Leaving cfg cacheSetting (events ++ [event]) f' where
  output := by
    have hnone : (pollResults cfg events).find? decisive = none :=
      List.find?_eq_none.mpr fun result hresult => by simp [hpending result hresult]
    rw [outcome_append hentry hpoll, houtput, h.output, outcome, h.missed]
    dsimp only
    rw [hnone]
  gaveUp _ _ := hgave

/-- The first decisive poll decides the outcome. -/
theorem Running.decided (h : Running cacheSetting events f)
    (hpending : ∀ result ∈ pollResults cfg events, decisive result = false)
    {poll : Option CompilationOutput} {result : Except ServantWaitStatus DistributedTaskOutput}
    (hresult : waitServantForTask cfg poll = result) (hdecisive : decisive result = true)
    (houtput : f'.task.output =
      match result with
      | .ok output => output
      | .error _ => failedOutput (-125)) :
    Leaving cfg cacheSetting (events ++ [.poll poll]) f' := by
  have hpoll : Event.pollResult cfg (.poll poll) = some result := congrArg some hresult
  have hnone : (pollResults cfg events).find? decisive = none :=
    List.find?_eq_none.mpr fun result hresult => by simp [hpending result hresult]
  have hfind : (pollResults cfg (events ++ [.poll poll])).find? decisive = some result := by
    rw [pollResults_append, hpoll, List.find?_append, hnone, Option.toList_some,
      List.find?_cons_of_pos hdecisive]
    rfl
  constructor
  · rw [houtput, outcome, cacheHit_append rfl, h.missed]
    dsimp only
    rw [hfind]
    cases result with
    | ok output => rfl
    | error status => rfl
  · intro _ hall
    have hmem := List.mem_of_find?_eq_some hfind
    rw [hall result hmem] at hdecisive
    cases hdecisive

/-- A step of the code before the end, that neither completes the task nor aborts it. -/
theorem Inv.next (h : Inv cfg cacheSetting events f) (hpc : f.pc ≠ .done) (hpc' : f'.pc ≠ .done)
    (habort : event ≠ .abort) (hcompletes : event.completes = false)
    (hsetting : f'.task.cacheSetting = f.task.cacheSetting)
    (haborted : f'.task.aborted = f.task.aborted)
    (hpoll : (event.pollResult cfg).isSome → Undecided cfg cacheSetting events)
    (hstage : Stage cfg cacheSetting (events ++ [event]) f') :
    Inv cfg cacheSetting (events ++ [event]) f' where
  setting := hsetting.trans h.setting
  aborted := by
    rw [haborted, h.aborted, List.mem_append, List.mem_singleton]
    exact ⟨.inl, fun hmem => hmem.resolve_right habort.symm⟩
  inTime := h.inTime.append hpoll
  once := by
    have honce := h.once
    rw [if_neg hpc] at honce
    rw [List.countP_append, honce, if_neg hpc']
    simp [hcompletes]
  stage := hstage

theorem not_polled (h : event.pollResult cfg = none) :
    (event.pollResult cfg).isSome → Undecided cfg cacheSetting events := by
  rw [h]
  exact fun hsome => nomatch hsome

theorem polled_nil (hnil : pollResults cfg events = []) (hpoll : event.pollResult cfg = none) :
    pollResults cfg (events ++ [event]) = [] := by
  rw [pollResults_append, hnil, hpoll]
  rfl

theorem polled_same (hpoll : event.pollResult cfg = none) :
    pollResults cfg (events ++ [event]) = pollResults cfg events := by
  rw [pollResults_append, hpoll, Option.toList_none, List.append_nil]

theorem Inv.readCache (h : Inv cfg cacheSetting events f) (entry : Option DistributedTaskOutput)
    (hpc : f.pc = .readingCache) :
    Inv cfg cacheSetting (events ++ [.readCache entry]) (f.readCache entry) := by
  have hstage := h.stage
  simp only [Stage, hpc] at hstage
  obtain ⟨hrunning, hnil, hentries⟩ := hstage
  have hpolled : pollResults cfg (events ++ [.readCache entry]) = [] := polled_nil hnil rfl
  have hfound : (events ++ [Event.readCache entry]).findSome? Event.cacheEntry = entry := by
    rw [List.findSome?_append, hentries]
    simp [Event.cacheEntry]
  have hunobserved : ¬ AbortObserved (events ++ [.readCache entry]) := by
    rw [abortObserved_append]
    rintro (hobserved | ⟨hlooks, -⟩)
    · exact hrunning.unobserved hobserved
    · cases hlooks
  by_cases hhit : ∃ output, entry = some output ∧ f.task.cacheSetting = .allow
  · obtain ⟨output, rfl, hallow⟩ := hhit
    have hf' : f.readCache (some output) =
        (f.setOutput { output with exitCode := 0 }).setPc .completing := if_pos hallow
    rw [hf']
    refine h.next (by rw [hpc]; simp) (fun heq => nomatch heq) (fun heq => nomatch heq) rfl rfl rfl
      (not_polled rfl) ?_
    have hcache : cacheHit cacheSetting (events ++ [.readCache (some output)]) =
        some { output with exitCode := 0 } := by
      rw [cacheHit, if_pos (h.setting ▸ hallow), hfound]
      rfl
    refine ⟨⟨hrunning.completions, hrunning.state⟩, ?_, ?_⟩
    · rw [outcome, hcache]
      rfl
    · intro hmissed
      rw [hcache] at hmissed
      cases hmissed
  · have hf' : f.readCache entry = f.setPc .findingTask := by
      cases entry with
      | none => rfl
      | some output => exact if_neg fun hallow => hhit ⟨output, rfl, hallow⟩
    rw [hf']
    refine h.next (by rw [hpc]; simp) (fun heq => nomatch heq) (fun heq => nomatch heq) rfl rfl rfl
      (not_polled rfl) ?_
    refine ⟨⟨⟨hrunning.completions, hrunning.state⟩, hrunning.output, ?_, hunobserved⟩, hpolled⟩
    unfold cacheHit
    split
    · next hallow =>
        rw [hfound]
        cases entry with
        | none => rfl
        | some output => exact absurd ⟨output, rfl, h.setting.trans hallow⟩ hhit
    · rfl

theorem Inv.poll (h : Inv cfg cacheSetting events f) {held : Held}
    (result : Option CompilationOutput) (hpc : f.pc = .polling held retriesLeft) :
    Inv cfg cacheSetting (events ++ [.poll result]) (f.poll cfg held retriesLeft result) := by
  have hstage := h.stage
  simp only [Stage, hpc] at hstage
  obtain ⟨hrunning, hpending, hbudget⟩ := hstage
  have hopen : Open f := hrunning.toOpen
  have hundecided : Undecided cfg cacheSetting events := by
    obtain ⟨spent, -, -, -, hpatient⟩ := hbudget
    exact ⟨hrunning.missed, hpending, hpatient (Nat.succ_ne_zero _), hrunning.unobserved⟩
  have hpolled : ∀ status, waitServantForTask cfg result = .error status →
      pollResults cfg (events ++ [.poll result]) = pollResults cfg events ++ [.error status] := by
    intro status hstatus
    rw [pollResults_append, Event.pollResult, hstatus, Option.toList_some]
  have hwaits : ∀ status, decisive (.error status) = false →
      waitServantForTask cfg result = .error status →
      ∀ r ∈ pollResults cfg (events ++ [.poll result]), decisive r = false := by
    intro status hdecisive hstatus r hr
    rw [hpolled status hstatus, List.mem_append, List.mem_singleton] at hr
    rcases hr with hr | rfl
    · exact hpending r hr
    · exact hdecisive
  unfold Fiber.poll
  cases hresult : waitServantForTask cfg result with
  | ok output =>
      refine h.next (by rw [hpc]; simp) (fun heq => nomatch heq) (fun heq => nomatch heq) rfl rfl
        rfl (fun _ => hundecided) ?_
      exact ⟨⟨hopen.completions, hopen.state⟩, hrunning.decided hpending hresult rfl rfl⟩
  | error status =>
      cases status with
      | running =>
          refine h.next (by rw [hpc]; simp) (fun heq => nomatch heq) (fun heq => nomatch heq) rfl
            rfl rfl (fun _ => hundecided) ?_
          refine ⟨hrunning.append rfl nofun ⟨hopen.completions, hopen.state⟩ rfl,
            hwaits .running rfl hresult, ?_⟩
          rw [hpolled .running hresult]
          exact hbudget.running
      | rpcError =>
          refine h.next (by rw [hpc]; simp) (fun heq => nomatch heq) (fun heq => nomatch heq) rfl
            rfl rfl (fun _ => hundecided) ?_
          refine ⟨hrunning.append rfl nofun ⟨hopen.completions, hopen.state⟩ rfl,
            hwaits .rpcError rfl hresult, ?_⟩
          rw [hpolled .rpcError hresult]
          exact hbudget.rpcError
      | failed =>
          refine h.next (by rw [hpc]; simp) (fun heq => nomatch heq) (fun heq => nomatch heq) rfl
            rfl rfl (fun _ => hundecided) ?_
          refine ⟨⟨hopen.completions, hopen.state⟩, hrunning.decided hpending hresult rfl ?_⟩
          -- Only the exit code is written, over an output that has nothing else.
          change { f.task.output with exitCode := -125 } = failedOutput (-125)
          rw [hrunning.output]
          rfl

theorem Inv.checkWait (h : Inv cfg cacheSetting events f) {held : Held}
    (hpc : f.pc = .waiting held retriesLeft) :
    Inv cfg cacheSetting (events ++ [.checkWait]) (f.checkWait held retriesLeft) := by
  have hstage := h.stage
  simp only [Stage, hpc] at hstage
  obtain ⟨hrunning, hpending, hbudget⟩ := hstage
  have hopen : Open f := hrunning.toOpen
  have hpolled : pollResults cfg (events ++ [.checkWait]) = pollResults cfg events :=
    polled_same rfl
  unfold Fiber.checkWait
  by_cases hleave : retriesLeft = 0 ∨ f.task.aborted = true
  · rw [if_pos hleave]
    refine h.next (by rw [hpc]; simp) (fun heq => nomatch heq) (fun heq => nomatch heq) rfl rfl rfl
      (not_polled rfl) ?_
    refine ⟨⟨hopen.completions, hopen.state⟩, hrunning.leaving hpending rfl rfl rfl ?_⟩
    rcases hleave with rfl | haborted
    · right
      right
      rw [hpolled]
      exact hbudget.exhausted
    · exact .inl (abortObserved_append.mpr (.inr ⟨rfl, h.aborted.mp haborted⟩))
  · rw [if_neg hleave]
    obtain ⟨hleft, habort⟩ := not_or.mp hleave
    refine h.next (by rw [hpc]; simp) (fun heq => nomatch heq) (fun heq => nomatch heq) rfl rfl rfl
      (not_polled rfl) ?_
    refine ⟨hrunning.append rfl (fun _ hmem => habort (h.aborted.mpr hmem))
      ⟨hopen.completions, hopen.state⟩ rfl, ?_, ?_⟩
    · rw [hpolled]
      exact hpending
    · rw [hpolled, Nat.sub_add_cancel (Nat.pos_of_ne_zero hleft)]
      exact hbudget

theorem Inv.checkGrant (h : Inv cfg cacheSetting events f) (hpc : f.pc = .gettingGrant) :
    Inv cfg cacheSetting (events ++ [.checkGrant]) f.checkGrant := by
  have hstage := h.stage
  simp only [Stage, hpc] at hstage
  obtain ⟨hrunning, hnil⟩ := hstage
  have hopen : Open f := hrunning.toOpen
  have hpolled : pollResults cfg (events ++ [.checkGrant]) = [] := polled_nil hnil rfl
  unfold Fiber.checkGrant
  by_cases haborted : f.task.aborted = true
  · rw [if_pos haborted]
    refine h.next (by rw [hpc]; simp) (fun heq => nomatch heq) (fun heq => nomatch heq) rfl rfl rfl
      (not_polled rfl) ?_
    refine ⟨⟨hopen.completions, hopen.state⟩, hrunning.leaving ?_ rfl rfl rfl ?_⟩
    · rw [hnil]
      exact nofun
    · exact .inl (abortObserved_append.mpr (.inr ⟨rfl, h.aborted.mp haborted⟩))
  · rw [if_neg haborted]
    refine h.next (by rw [hpc]; simp) (fun heq => nomatch heq) (fun heq => nomatch heq) rfl rfl rfl
      (not_polled rfl) ?_
    exact ⟨hrunning.append rfl (fun _ hmem => haborted (h.aborted.mpr hmem))
      ⟨hopen.completions, hopen.state⟩ rfl, hpolled⟩

/-- A step from one point before the wait for a servant to another one. -/
theorem Inv.early (h : Inv cfg cacheSetting events f) (hpc : f.pc ≠ .done) (hpc' : f'.pc ≠ .done)
    (hevent : event ≠ .abort ∧ event.completes = false ∧ event.cacheEntry = none ∧
      event.pollResult cfg = none ∧ event.looks = false)
    (htask : f'.task.cacheSetting = f.task.cacheSetting ∧ f'.task.aborted = f.task.aborted ∧
      f'.task.output = f.task.output)
    (hrunning : Running cacheSetting events f) (hopen : Open f')
    (hstage : Running cacheSetting (events ++ [event]) f' →
      pollResults cfg (events ++ [event]) = pollResults cfg events →
      Stage cfg cacheSetting (events ++ [event]) f') :
    Inv cfg cacheSetting (events ++ [event]) f' := by
  obtain ⟨habort, hcompletes, hentry, hpoll, hlook⟩ := hevent
  obtain ⟨hsetting, haborted, houtput⟩ := htask
  refine h.next hpc hpc' habort hcompletes hsetting haborted (not_polled hpoll) ?_
  refine hstage (hrunning.append hentry ?_ hopen houtput) (polled_same hpoll)
  rw [hlook]
  exact nofun

/-- A step of the code that gives back what the fiber holds. -/
theorem Inv.leave (h : Inv cfg cacheSetting events f) (hpc : f.pc ≠ .done) (hpc' : f'.pc ≠ .done)
    (hevent : event ≠ .abort ∧ event.completes = false ∧ event.cacheEntry = none ∧
      event.pollResult cfg = none)
    (htask : f'.task = f.task) (hleaving : Leaving cfg cacheSetting events f)
    (hstage : Leaving cfg cacheSetting (events ++ [event]) f' →
      Stage cfg cacheSetting (events ++ [event]) f') :
    Inv cfg cacheSetting (events ++ [event]) f' := by
  obtain ⟨habort, hcompletes, hentry, hpoll⟩ := hevent
  refine h.next hpc hpc' habort hcompletes ?_ ?_ (not_polled hpoll) ?_
  · rw [htask]
  · rw [htask]
  · exact hstage (hleaving.append hentry hpoll (by rw [htask]))

theorem Inv.complete (h : Inv cfg cacheSetting events f) (now : TimePoint)
    (hpc : f.pc = .completing) :
    Inv cfg cacheSetting (events ++ [.complete now]) (f.complete now) := by
  have hstage := h.stage
  simp only [Stage, hpc] at hstage
  obtain ⟨hopen, hleaving⟩ := hstage
  have honce := h.once
  rw [if_neg (by rw [hpc]; simp)] at honce
  refine ⟨h.setting, ?_, h.inTime.append (not_polled rfl), ?_, ?_, rfl, ?_⟩
  · change f.task.aborted = true ↔ _
    rw [h.aborted]
    simp
  · have hdone : (f.complete now).pc = .done := rfl
    rw [List.countP_append, honce, if_pos hdone]
    rfl
  · change f.completions ++ [f.task.output] = [f.task.output]
    rw [hopen.completions, List.nil_append]
  · exact hleaving.append rfl rfl rfl

/-- The flag of the task is set. -/
theorem Inv.abort (h : Inv cfg cacheSetting events f) :
    Inv cfg cacheSetting (events ++ [.abort]) f.abort := by
  have hpolled : pollResults cfg (events ++ [.abort]) = pollResults cfg events := polled_same rfl
  have hkept : Running cacheSetting events f → Running cacheSetting (events ++ [.abort]) f.abort :=
    fun hrunning => hrunning.append rfl nofun ⟨hrunning.completions, hrunning.state⟩ rfl
  have hleft : Leaving cfg cacheSetting events f →
      Leaving cfg cacheSetting (events ++ [.abort]) f.abort :=
    fun hleaving => hleaving.append rfl rfl rfl
  have hstage := h.stage
  have honce := h.once
  refine ⟨h.setting, ?_, h.inTime.append (not_polled rfl), ?_, ?_⟩
  · exact iff_of_true rfl (List.mem_append_right _ List.mem_cons_self)
  · rw [List.countP_append, honce]
    rfl
  · have hpc : f.abort.pc = f.pc := rfl
    unfold Stage at hstage ⊢
    rw [hpc, hpolled]
    cases hat : f.pc with
    | readingCache =>
        simp only [hat] at hstage
        refine ⟨hkept hstage.1, hstage.2.1, ?_⟩
        rw [List.findSome?_append, hstage.2.2]
        rfl
    | waiting held retriesLeft =>
        simp only [hat] at hstage
        exact ⟨hkept hstage.1, hstage.2⟩
    | polling held retriesLeft =>
        simp only [hat] at hstage
        exact ⟨hkept hstage.1, hstage.2⟩
    | freeing held =>
        simp only [hat] at hstage
        exact ⟨⟨hstage.1.completions, hstage.1.state⟩, hleft hstage.2⟩
    | freeingGrant grantId =>
        simp only [hat] at hstage
        exact ⟨⟨hstage.1.completions, hstage.1.state⟩, hleft hstage.2⟩
    | completing =>
        simp only [hat] at hstage
        exact ⟨⟨hstage.1.completions, hstage.1.state⟩, hleft hstage.2⟩
    | done =>
        simp only [hat] at hstage
        exact ⟨hstage.1, hstage.2.1, hleft hstage.2.2⟩
    | findingTask =>
        simp only [hat] at hstage
        exact ⟨hkept hstage.1, hstage.2⟩
    | referencing running =>
        simp only [hat] at hstage
        exact ⟨hkept hstage.1, hstage.2⟩
    | gettingGrant =>
        simp only [hat] at hstage
        exact ⟨hkept hstage.1, hstage.2⟩
    | awaitingGrant =>
        simp only [hat] at hstage
        exact ⟨hkept hstage.1, hstage.2⟩
    | starting grant =>
        simp only [hat] at hstage
        exact ⟨hkept hstage.1, hstage.2⟩

theorem Inv.step (h : Inv cfg cacheSetting events f) (hstep : Step cfg f event f') :
    Inv cfg cacheSetting (events ++ [event]) f' := by
  have hstage := h.stage
  cases took_of_step hstep with
  | abort => exact h.abort
  | readCache entry hpc => exact h.readCache entry hpc
  | checkGrant hpc => exact h.checkGrant hpc
  | checkWait held retriesLeft hpc => exact h.checkWait hpc
  | poll held retriesLeft result hpc => exact h.poll result hpc
  | complete now hpc => exact h.complete now hpc
  | findTask running hpc =>
      simp only [Stage, hpc] at hstage
      obtain ⟨hrunning, hnil⟩ := hstage
      cases running with
      | none =>
          exact h.early (by rw [hpc]; simp) (fun heq => nomatch heq) ⟨nofun, rfl, rfl, rfl, rfl⟩
            ⟨rfl, rfl, rfl⟩ hrunning ⟨hrunning.completions, hrunning.state⟩
            fun hnext hpolled => ⟨hnext, hpolled.trans hnil⟩
      | some running =>
          exact h.early (by rw [hpc]; simp) (fun heq => nomatch heq) ⟨nofun, rfl, rfl, rfl, rfl⟩
            ⟨rfl, rfl, rfl⟩ hrunning ⟨hrunning.completions, hrunning.state⟩
            fun hnext hpolled => ⟨hnext, hpolled.trans hnil⟩
  | referenceTask running ok now hpc =>
      simp only [Stage, hpc] at hstage
      obtain ⟨hrunning, hnil⟩ := hstage
      cases ok with
      | false =>
          exact h.early (by rw [hpc]; simp) (fun heq => nomatch heq) ⟨nofun, rfl, rfl, rfl, rfl⟩
            ⟨rfl, rfl, rfl⟩ hrunning ⟨hrunning.completions, hrunning.state⟩
            fun hnext hpolled => ⟨hnext, hpolled.trans hnil⟩
      | true =>
          refine h.early (by rw [hpc]; simp) (fun heq => nomatch heq) ⟨nofun, rfl, rfl, rfl, rfl⟩
            ⟨rfl, rfl, rfl⟩ hrunning ⟨hrunning.completions, fun heq => nomatch heq⟩ ?_
          intro hnext hpolled
          refine ⟨hnext, ?_, ?_⟩
          · rw [hpolled, hnil]
            exact nofun
          · rw [hpolled, hnil]
            exact budget_nil
  | getGrant grant now hpc =>
      simp only [Stage, hpc] at hstage
      obtain ⟨hrunning, hnil⟩ := hstage
      cases grant with
      | none =>
          exact h.early (by rw [hpc]; simp) (fun heq => nomatch heq) ⟨nofun, rfl, rfl, rfl, rfl⟩
            ⟨rfl, rfl, rfl⟩ hrunning ⟨hrunning.completions, hrunning.state⟩
            fun hnext hpolled => ⟨hnext, hpolled.trans hnil⟩
      | some grant =>
          exact h.early (by rw [hpc]; simp) (fun heq => nomatch heq) ⟨nofun, rfl, rfl, rfl, rfl⟩
            ⟨rfl, rfl, rfl⟩ hrunning ⟨hrunning.completions, fun heq => nomatch heq⟩
            fun hnext hpolled => ⟨hnext, hpolled.trans hnil⟩
  | startTask grant servantTaskId now hpc =>
      simp only [Stage, hpc] at hstage
      obtain ⟨hrunning, hnil⟩ := hstage
      cases servantTaskId with
      | none =>
          refine h.next (by rw [hpc]; simp) (fun heq => nomatch heq) nofun rfl rfl rfl
            (not_polled rfl) ?_
          refine ⟨⟨hrunning.completions, hrunning.state⟩, hrunning.leaving ?_ rfl rfl rfl ?_⟩
          · rw [hnil]
            exact nofun
          · exact .inr (.inl ⟨now, List.mem_append_right _ List.mem_cons_self⟩)
      | some servantTaskId =>
          refine h.early (by rw [hpc]; simp) (fun heq => nomatch heq) ⟨nofun, rfl, rfl, rfl, rfl⟩
            ⟨rfl, rfl, rfl⟩ hrunning ⟨hrunning.completions, fun heq => nomatch heq⟩ ?_
          intro hnext hpolled
          refine ⟨hnext, ?_, ?_⟩
          · rw [hpolled, hnil]
            exact nofun
          · rw [hpolled, hnil]
            exact budget_nil
  | freeServantTask held hpc =>
      simp only [Stage, hpc] at hstage
      obtain ⟨hopen, hleaving⟩ := hstage
      cases held with
      | referenced running =>
          exact h.leave (by rw [hpc]; simp) (fun heq => nomatch heq) ⟨nofun, rfl, rfl, rfl⟩ rfl
            hleaving fun hnext => ⟨⟨hopen.completions, hopen.state⟩, hnext⟩
      | started grant servantTaskId =>
          exact h.leave (by rw [hpc]; simp) (fun heq => nomatch heq) ⟨nofun, rfl, rfl, rfl⟩ rfl
            hleaving fun hnext => ⟨⟨hopen.completions, hopen.state⟩, hnext⟩
  | freeGrant grantId hpc =>
      simp only [Stage, hpc] at hstage
      obtain ⟨hopen, hleaving⟩ := hstage
      exact h.leave (by rw [hpc]; simp) (fun heq => nomatch heq) ⟨nofun, rfl, rfl, rfl⟩ rfl
        hleaving fun hnext => ⟨⟨hopen.completions, hopen.state⟩, hnext⟩

theorem inv_queued {taskId : ℕ} {digest : String} {startDeadline now : TimePoint} :
    Inv cfg cacheSetting [] (queued taskId digest cacheSetting startDeadline now) where
  setting := rfl
  aborted := iff_of_false Bool.false_ne_true List.not_mem_nil
  inTime := by
    intro before result after hsplit
    cases before with
    | nil => cases hsplit
    | cons event before => cases hsplit
  once := rfl
  stage := by
    have hmissed : cacheHit cacheSetting [] = none := by
      unfold cacheHit
      split
      · rfl
      · rfl
    have hunobserved : ¬ AbortObserved [] := by
      rintro ⟨before, look, after, hsplit, -, habort⟩
      cases before with
      | nil => cases habort
      | cons event before => cases hsplit
    exact ⟨⟨⟨rfl, fun heq => nomatch heq⟩, rfl, hmissed, hunobserved⟩, rfl, rfl⟩

/-! ## Termination -/

/-- A bound on the steps that are left once the task is aborted. -/
def stepsLeft : Pc → ℕ
  | .readingCache => 10
  | .findingTask => 9
  | .referencing _ => 8
  | .awaitingGrant => 8
  | .gettingGrant => 7
  | .starting _ => 6
  | .polling _ _ => 5
  | .waiting _ _ => 4
  | .freeing _ => 3
  | .freeingGrant _ => 2
  | .completing => 1
  | .done => 0

theorem stepsLeft_step (haborted : f.task.aborted = true) (hstep : Step cfg f event f') :
    f'.task.aborted = true ∧
      stepsLeft f'.pc + (if event = .abort then 0 else 1) ≤ stepsLeft f.pc := by
  cases took_of_step hstep with
  | abort => exact ⟨rfl, le_refl _⟩
  | readCache entry hpc =>
      rw [hpc]
      unfold readCache
      split
      · exact ⟨haborted, by simp [setPc, stepsLeft]⟩
      · split
        · exact ⟨haborted, by simp [setPc, setOutput, stepsLeft]⟩
        · exact ⟨haborted, by simp [setPc, stepsLeft]⟩
  | findTask running hpc =>
      rw [hpc]
      cases running with
      | none => exact ⟨haborted, by simp [findTask, setPc, stepsLeft]⟩
      | some running => exact ⟨haborted, by simp [findTask, setPc, stepsLeft]⟩
  | referenceTask running ok now hpc =>
      rw [hpc]
      cases ok with
      | false => exact ⟨haborted, by simp [referenceTask, setPc, stepsLeft]⟩
      | true => exact ⟨haborted, by simp [referenceTask, stepsLeft]⟩
  | checkGrant hpc =>
      rw [hpc, checkGrant, if_pos haborted]
      exact ⟨haborted, by simp [setPc, stepsLeft]⟩
  | getGrant grant now hpc =>
      rw [hpc]
      cases grant with
      | none => exact ⟨haborted, by simp [getGrant, setPc, stepsLeft]⟩
      | some grant => exact ⟨haborted, by simp [getGrant, stepsLeft]⟩
  | startTask grant servantTaskId now hpc =>
      rw [hpc]
      cases servantTaskId with
      | none => exact ⟨haborted, by simp [startTask, setPc, stepsLeft]⟩
      | some servantTaskId => exact ⟨haborted, by simp [startTask, stepsLeft]⟩
  | checkWait held retriesLeft hpc =>
      rw [hpc, checkWait, if_pos (.inr haborted)]
      exact ⟨haborted, by simp [setPc, stepsLeft]⟩
  | poll held retriesLeft result hpc =>
      rw [hpc]
      unfold poll
      split
      · exact ⟨haborted, by simp [setPc, stepsLeft]⟩
      · exact ⟨haborted, by simp [setPc, stepsLeft]⟩
      · exact ⟨haborted, by simp [setPc, setOutput, stepsLeft]⟩
      · exact ⟨haborted, by simp [setPc, setOutput, stepsLeft]⟩
  | freeServantTask held hpc =>
      rw [hpc]
      cases held with
      | referenced running => exact ⟨haborted, by simp [freeServantTask, stepsLeft]⟩
      | started grant servantTaskId => exact ⟨haborted, by simp [freeServantTask, stepsLeft]⟩
  | freeGrant grantId hpc =>
      rw [hpc]
      exact ⟨haborted, by simp [freeGrant, stepsLeft]⟩
  | complete now hpc =>
      rw [hpc]
      exact ⟨haborted, by simp [complete, stepsLeft]⟩

/-- Once its task is aborted a fiber makes a bounded number of steps. -/
theorem steps_of_aborted (haborted : f.task.aborted = true) (run : Run (Step cfg) f events f') :
    stepsLeft f'.pc + events.countP (fun event => decide (event ≠ .abort)) ≤
      stepsLeft f.pc := by
  induction run with
  | nil f => exact le_refl _
  | @cons f g f' event events hstep _ ih =>
      obtain ⟨haborted', hless⟩ := stepsLeft_step haborted hstep
      have hrest := ih haborted'
      rw [List.countP_cons]
      by_cases habort : event = .abort
      · rw [if_pos habort] at hless
        rw [if_neg (by simp [habort])]
        omega
      · rw [if_neg habort] at hless
        rw [if_pos (by simp [habort])]
        omega

/-- Wherever the fiber stands, whatever it waits for takes it on. -/
theorem not_stuck (h : f.pc ≠ .done) : ∃ event f', event ≠ .abort ∧ Step cfg f event f' := by
  unfold Step next
  cases hpc : f.pc with
  | readingCache => exact ⟨.readCache none, _, nofun, rfl⟩
  | findingTask => exact ⟨.findTask none, _, nofun, rfl⟩
  | referencing running => exact ⟨.referenceTask false 0, _, nofun, rfl⟩
  | gettingGrant => exact ⟨.checkGrant, _, nofun, rfl⟩
  | awaitingGrant => exact ⟨.getGrant none 0, _, nofun, rfl⟩
  | starting grant => exact ⟨.startTask none 0, _, nofun, rfl⟩
  | waiting held retriesLeft => exact ⟨.checkWait, _, nofun, rfl⟩
  | polling held retriesLeft => exact ⟨.poll none, _, nofun, rfl⟩
  | freeing held => exact ⟨.freeServantTask, _, nofun, rfl⟩
  | freeingGrant grantId => exact ⟨.freeGrant, _, nofun, rfl⟩
  | completing => exact ⟨.complete 0, _, nofun, rfl⟩
  | done => exact absurd hpc h

/-! ## Every task is performed once -/

/-- A fiber that has not got to its end has not completed its task. -/
theorem Inv.open_of_not_done (h : Inv cfg cacheSetting events f) (hpc : f.pc ≠ .done) :
    Open f := by
  have hstage := h.stage
  rw [Stage] at hstage
  cases hstands : f.pc with
  | readingCache =>
      rw [hstands] at hstage
      exact hstage.1.toOpen
  | findingTask =>
      rw [hstands] at hstage
      exact hstage.1.toOpen
  | referencing running =>
      rw [hstands] at hstage
      exact hstage.1.toOpen
  | gettingGrant =>
      rw [hstands] at hstage
      exact hstage.1.toOpen
  | awaitingGrant =>
      rw [hstands] at hstage
      exact hstage.1.toOpen
  | starting grant =>
      rw [hstands] at hstage
      exact hstage.1.toOpen
  | waiting held retriesLeft =>
      rw [hstands] at hstage
      exact hstage.1.toOpen
  | polling held retriesLeft =>
      rw [hstands] at hstage
      exact hstage.1.toOpen
  | freeing held =>
      rw [hstands] at hstage
      exact hstage.1
  | freeingGrant grantId =>
      rw [hstands] at hstage
      exact hstage.1
  | completing =>
      rw [hstands] at hstage
      exact hstage.1
  | done => exact absurd hstands hpc

/-- Whatever the cache, the servants and the scheduler answer, and whenever the task is
aborted: at the end the task has been completed once, with the outcome of the results that
the fiber got, and before the end it has not been. The fiber never gets stuck, and when
the task is aborted it gets to its end in a bounded number of steps. -/
theorem performed_once {taskId : ℕ} {digest : String} {startDeadline now : TimePoint}
    (run : Run (Step cfg) (queued taskId digest cacheSetting startDeadline now) events f) :
    (f.pc = .done → Performed cfg cacheSetting events f) ∧
      (f.pc ≠ .done → Open f ∧ events.countP Event.completes = 0 ∧
        PolledInTime cfg cacheSetting events ∧
        ∃ event f', event ≠ .abort ∧ Step cfg f event f') ∧
      (Event.abort ∈ events → ∀ events' f', Run (Step cfg) f events' f' →
        events'.countP (fun event => decide (event ≠ .abort)) ≤ 10) := by
  have hinv : Inv cfg cacheSetting events f :=
    run.invariant_labels inv_queued fun _ _ _ _ h hstep => h.step hstep
  refine ⟨?_, ?_, ?_⟩
  · intro hdone
    have hstage := hinv.stage
    have honce := hinv.once
    simp only [Stage, hdone] at hstage
    rw [if_pos hdone] at honce
    obtain ⟨hcompletions, hstate, hleaving⟩ := hstage
    refine ⟨?_, hstate, honce, hinv.inTime, hleaving.gaveUp⟩
    rw [hcompletions, hleaving.output]
  · intro hpc
    have honce := hinv.once
    rw [if_neg hpc] at honce
    exact ⟨hinv.open_of_not_done hpc, honce, hinv.inTime, not_stuck hpc⟩
  · intro habort events' f' run'
    have hbound := steps_of_aborted (hinv.aborted.mpr habort) run'
    have hle : stepsLeft f.pc ≤ 10 := by
      cases f.pc with
      | readingCache => exact le_refl 10
      | findingTask => exact Nat.le_succ 9
      | referencing running => exact Nat.le_add_right 8 2
      | gettingGrant => exact Nat.le_add_right 7 3
      | awaitingGrant => exact Nat.le_add_right 8 2
      | starting grant => exact Nat.le_add_right 6 4
      | waiting held retriesLeft => exact Nat.le_add_right 4 6
      | polling held retriesLeft => exact Nat.le_add_right 5 5
      | freeing held => exact Nat.le_add_right 3 7
      | freeingGrant grantId => exact Nat.le_add_right 2 8
      | completing => exact Nat.le_add_right 1 9
      | done => exact Nat.zero_le 10
    omega

/-- Files are what a response has attached. -/
def sampleConfig : DispatcherConfig := ⟨"", fun attachment => some [(".o", attachment)]⟩

/-- Nothing is cached or running elsewhere; the servant is busy, out of reach, and done. -/
def startedEvents : List Event :=
  [.readCache none, .findTask none, .checkGrant, .getGrant (some ⟨5, "10.0.0.1:8335"⟩) 1,
    .startTask (some 7) 2, .checkWait, .poll (some ⟨.running, 0, [], [], [], []⟩), .checkWait,
    .poll none, .checkWait, .poll (some ⟨.done, 0, [1], [2], [3], [4]⟩), .freeServantTask,
    .freeGrant, .complete 3]

theorem performed_once_started :
    ∃ f, Run (Step sampleConfig) (queued 1 "d" .refill 9 0) startedEvents f ∧
      f.completions = [⟨0, [1], [2], [3], [(".o", [4])]⟩] := by
  have hsome : (follow (next sampleConfig) startedEvents (queued 1 "d" .refill 9 0)).isSome := rfl
  obtain ⟨f, hf⟩ := Option.isSome_iff_exists.mp hsome
  have run : Run (Step sampleConfig) (queued 1 "d" .refill 9 0) startedEvents f :=
    Run.of_follow (fun _ _ _ h => h) hf
  have hdone : f.pc = .done := by
    have hpc : (follow (next sampleConfig) startedEvents (queued 1 "d" .refill 9 0)).map
        Fiber.pc = some .done := rfl
    rw [hf] at hpc
    exact Option.some.inj hpc
  exact ⟨f, run, ((performed_once run).1 hdone).completions⟩

end Fiber

end Yadcc.Daemon.Local
