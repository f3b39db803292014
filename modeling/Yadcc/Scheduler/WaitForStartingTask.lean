/-
# A request for grants

`WaitForStartingTask` asks the dispatcher for one grant after the other, each in a critical
section of its own, and collects them in its response. In between the dispatcher does what
others ask of it. A response that the handler fails is not delivered, so every grant
collected until then is lost to the client.
-/

import Yadcc.Scheduler.Heartbeat

namespace Yadcc.Scheduler

open Yadcc.Lib

structure WaitForStartingTaskRequest where
  token : String
  millisecondsToWait : UInt32
  nextKeepAliveInMs : UInt32
  minVersion : UInt32
  envDesc : EnvironmentDesc
  immediateReqs : UInt32
  prefetchReqs : UInt32

namespace StartingTask

/-- Where the handler stands. In the loops it is in its `i`-th call, before a look at the
servants or waiting to be notified. -/
inductive Pc
  | entered
  | immediate (i : ℕ) (waiting : Bool)
  | prefetch (i : ℕ) (waiting : Bool)
  | finishing
  | answered
  | failed (status : Status)
  deriving DecidableEq

end StartingTask

/-- The handler of one request; `grants` are those of the response. -/
structure StartingTask where
  request : WaitForStartingTaskRequest
  requestorIp : String
  now : Time
  pc : StartingTask.Pc
  grants : List TaskAllocation

namespace StartingTask

open TaskDispatcher (Op Reply StartAttempt)

def start (request : WaitForStartingTaskRequest) (requestorIp : String) : StartingTask where
  request
  requestorIp
  now := 0
  pc := .entered
  grants := []

def personality (h : StartingTask) : TaskPersonality where
  requestorIp := h.requestorIp
  minVersion := h.request.minVersion
  envDesc := h.request.envDesc

def maxWait (h : StartingTask) : Time := SchedulerService.milliseconds h.request.millisecondsToWait

def nextKeepAlive (h : StartingTask) : Time :=
  SchedulerService.milliseconds h.request.nextKeepAliveInMs

/-- The condition of the second loop. -/
def prefetchFrom (h : StartingTask) (i : ℕ) : Pc :=
  if i = h.request.prefetchReqs.toNat then .finishing else .prefetch i false

/-- The condition of the first loop. -/
def immediateFrom (h : StartingTask) (i : ℕ) : Pc :=
  if i = h.request.immediateReqs.toNat then h.prefetchFrom 0 else .immediate i false

/-- The checks of the request, and the start of the first loop. -/
def enter (cfg : ServiceConfig) (now : Time) (h : StartingTask) : StartingTask :=
  if !cfg.isUserVerifier.verify h.request.token then
    { h with pc := .failed .accessDenied }
  else if 10000000000 < h.maxWait ∨ 30000000000 < h.nextKeepAlive then
    { h with pc := .failed .invalidArgument }
  else { h with pc := h.immediateFrom 0, now }

/-- What a look at the servants means to the `i`-th call of the first loop. -/
def immediateLook (i : ℕ) (result : StartAttempt) (h : StartingTask) : StartingTask :=
  match result with
  | .environmentNotFound => { h with pc := .failed .environmentNotAvailable }
  | .noServantFree => { h with pc := .immediate i true }
  | .allocated allocation =>
      { h with
        pc := h.immediateFrom (i + 1)
        grants := h.grants ++ [allocation] }

/-- And to the `i`-th call of the second loop. -/
def prefetchLook (i : ℕ) (result : StartAttempt) (h : StartingTask) : StartingTask :=
  match result with
  | .environmentNotFound => { h with pc := .finishing }
  | .noServantFree => { h with pc := .prefetch i true }
  | .allocated allocation =>
      { h with
        pc := h.prefetchFrom (i + 1)
        grants := h.grants ++ [allocation] }

/-- The deadline of the call the handler is in. Only the first call may wait. -/
def deadline (h : StartingTask) : Time :=
  match h.pc with
  | .immediate i _ => h.now + if i = 0 then h.maxWait else 0
  | _ => h.now + if h.grants = [] then h.maxWait else 0

def finish (h : StartingTask) : StartingTask :=
  { h with pc := if h.grants = [] then .failed .noQuotaAvailable else .answered }

/-! ## Steps -/

/-- A step of the handler with the clock readings it makes and what its look came to, or a
step of the dispatcher on behalf of others. -/
inductive Event
  | enter (now : Time)
  | look (now now' : Time) (result : StartAttempt)
  | timeout (now : Time)
  | finish
  | others (op : Op) (reply : Reply)

/-- The handler with the dispatcher. -/
structure System where
  dispatcher : TaskDispatcher
  handler : StartingTask

/-- One look of `WaitForStartingNewTask` for the handler. -/
def System.attempt (cfg : ServiceConfig) (prefetching : Bool) (now now' : Time) (s : System) :
    Except DispatcherFault (StartAttempt × TaskDispatcher) :=
  s.dispatcher.waitForStartingNewTask cfg.dispatcher s.handler.personality
    s.handler.nextKeepAlive prefetching now now'

inductive Step (cfg : ServiceConfig) : System → Event → System → Prop
  | enter {s : System} (now : Time) : s.handler.pc = .entered →
      Step cfg s (.enter now) { s with handler := s.handler.enter cfg now }
  | immediate {s : System} {i : ℕ} {waiting : Bool} {result : StartAttempt}
      {dispatcher : TaskDispatcher} (now now' : Time) : s.handler.pc = .immediate i waiting →
      s.attempt cfg false now now' = .ok (result, dispatcher) →
      Step cfg s (.look now now' result) ⟨dispatcher, s.handler.immediateLook i result⟩
  | prefetch {s : System} {i : ℕ} {waiting : Bool} {result : StartAttempt}
      {dispatcher : TaskDispatcher} (now now' : Time) : s.handler.pc = .prefetch i waiting →
      s.attempt cfg true now now' = .ok (result, dispatcher) →
      Step cfg s (.look now now' result) ⟨dispatcher, s.handler.prefetchLook i result⟩
  | immediateTimeout {s : System} {i : ℕ} (now : Time) : s.handler.pc = .immediate i true →
      s.handler.deadline ≤ now →
      Step cfg s (.timeout now)
        { s with handler := { s.handler with pc := s.handler.prefetchFrom 0 } }
  | prefetchTimeout {s : System} {i : ℕ} (now : Time) : s.handler.pc = .prefetch i true →
      s.handler.deadline ≤ now →
      Step cfg s (.timeout now) { s with handler := { s.handler with pc := .finishing } }
  | finish {s : System} : s.handler.pc = .finishing →
      Step cfg s .finish { s with handler := s.handler.finish }
  | others {s : System} {op : Op} {reply : Reply} {dispatcher : TaskDispatcher} :
      TaskDispatcher.Step cfg.dispatcher s.dispatcher (op, reply) dispatcher →
      Step cfg s (.others op reply) { s with dispatcher }

/-- The grants that a sequence of steps made for the handler. -/
def allocated (events : List Event) : List TaskAllocation :=
  events.filterMap fun
    | .look _ _ (.allocated allocation) => some allocation
    | _ => none

/-- No grant was made for a request that failed, and an answer has all that were made. -/
def Delivered (events : List Event) (h : StartingTask) : Prop :=
  match h.pc with
  | .failed _ => allocated events = []
  | .answered => h.grants = allocated events
  | _ => True

/-- While a call of the first loop looks at the servants after earlier calls got grants,
some servant has the environment. -/
def EnvironmentStays (s : System) : Event → Prop
  | .look _ _ _ =>
      match s.handler.pc with
      | .immediate _ _ => s.handler.grants ≠ [] →
          s.dispatcher.unsafeEnumerateEligibleServants s.handler.personality ≠ []
      | _ => True
  | _ => True

/-! ## What a step does to the response -/

variable {cfg : ServiceConfig} {s t : System} {event : Event} {events : List Event}

/-- Where a look finds no environment, no servant has it. -/
theorem System.attempt_environmentNotFound {prefetching : Bool} {now now' : Time}
    {dispatcher : TaskDispatcher} : s.attempt cfg prefetching now now' =
      .ok (.environmentNotFound, dispatcher) →
    s.dispatcher.unsafeEnumerateEligibleServants s.handler.personality = [] := by
  intro h
  unfold System.attempt TaskDispatcher.waitForStartingNewTask at h
  by_contra hsome
  dsimp only at h
  rw [if_neg hsome] at h
  split at h
  · cases h
  · obtain ⟨pick, -, hrest⟩ := bind_eq_ok.mp h
    split_ifs at hrest
    cases hrest

/-- Only servants with the environment have capacity for the request. -/
theorem System.attempt_of_none {prefetching : Bool} {now now' : Time} {result : StartAttempt}
    {dispatcher : TaskDispatcher}
    (hnone : s.dispatcher.unsafeEnumerateEligibleServants s.handler.personality = [])
    (h : s.attempt cfg prefetching now now' = .ok (result, dispatcher)) :
    result = .environmentNotFound := by
  unfold System.attempt TaskDispatcher.waitForStartingNewTask at h
  dsimp only at h
  rw [if_pos hnone] at h
  cases h
  rfl

theorem step_unique {t' : System} (h : Step cfg s event t) (h' : Step cfg s event t') :
    t = t' := by
  cases h with
  | enter now hpc =>
      cases h' with
      | enter _ _ => rfl
  | immediate now now' hpc hlook =>
      cases h' with
      | immediate _ _ hpc' hlook' =>
          cases hpc.symm.trans hpc'
          cases hlook.symm.trans hlook'
          rfl
      | prefetch _ _ hpc' _ => cases hpc.symm.trans hpc'
  | prefetch now now' hpc hlook =>
      cases h' with
      | immediate _ _ hpc' _ => cases hpc.symm.trans hpc'
      | prefetch _ _ hpc' hlook' =>
          cases hpc.symm.trans hpc'
          cases hlook.symm.trans hlook'
          rfl
  | immediateTimeout now hpc hdeadline =>
      cases h' with
      | immediateTimeout _ _ _ => rfl
      | prefetchTimeout _ hpc' _ => cases hpc.symm.trans hpc'
  | prefetchTimeout now hpc hdeadline =>
      cases h' with
      | immediateTimeout _ hpc' _ => cases hpc.symm.trans hpc'
      | prefetchTimeout _ _ _ => rfl
  | finish hpc =>
      cases h' with
      | finish _ => rfl
  | others hstep =>
      cases h' with
      | others hstep' =>
          cases hstep.symm.trans hstep'
          rfl

/-- The loops end in a call, at the other loop or at the end. -/
theorem prefetchFrom_ne (h : StartingTask) (i : ℕ) :
    (∀ status, h.prefetchFrom i ≠ .failed status) ∧ h.prefetchFrom i ≠ .answered ∧
      h.prefetchFrom i ≠ .entered := by
  unfold prefetchFrom
  split
  · exact ⟨nofun, nofun, nofun⟩
  · exact ⟨nofun, nofun, nofun⟩

theorem immediateFrom_ne (h : StartingTask) (i : ℕ) :
    (∀ status, h.immediateFrom i ≠ .failed status) ∧ h.immediateFrom i ≠ .answered ∧
      h.immediateFrom i ≠ .entered := by
  unfold immediateFrom
  split
  · exact h.prefetchFrom_ne 0
  · exact ⟨nofun, nofun, nofun⟩

theorem finish_ne (h : StartingTask) : h.finish.pc ≠ .entered := by
  show (if h.grants = [] then Pc.failed .noQuotaAvailable else .answered) ≠ .entered
  split
  · exact nofun
  · exact nofun

theorem grants_enter (h : StartingTask) (cfg : ServiceConfig) (now : Time) :
    (h.enter cfg now).grants = h.grants := by
  unfold enter
  split
  · rfl
  · split
    · rfl
    · rfl

/-! ## What a run delivers -/

/-- A step of the handler adds what was allocated for it to the response. -/
theorem grants_step (h : Step cfg s event t) :
    t.handler.grants = s.handler.grants ++ allocated [event] := by
  cases h with
  | enter now hpc => exact (grants_enter ..).trans (List.append_nil _).symm
  | @immediate i waiting result dispatcher now now' hpc hlook =>
      cases result with
      | environmentNotFound => exact (List.append_nil _).symm
      | noServantFree => exact (List.append_nil _).symm
      | allocated allocation => rfl
  | @prefetch i waiting result dispatcher now now' hpc hlook =>
      cases result with
      | environmentNotFound => exact (List.append_nil _).symm
      | noServantFree => exact (List.append_nil _).symm
      | allocated allocation => rfl
  | immediateTimeout now hpc hdeadline => exact (List.append_nil _).symm
  | prefetchTimeout now hpc hdeadline => exact (List.append_nil _).symm
  | finish hpc => exact (List.append_nil _).symm
  | others hstep => exact (List.append_nil _).symm

/-- The request was failed. -/
def IsFailed (h : StartingTask) : Prop := ∃ status, h.pc = .failed status

/-- The handler has ended. -/
def IsOver (h : StartingTask) : Prop := IsFailed h ∨ h.pc = .answered

theorem not_isFailed_of_ne {h : StartingTask} (pc : Pc) (hpc : h.pc = pc)
    (hne : ∀ status, pc ≠ .failed status) : ¬ IsFailed h := by
  rintro ⟨status, heq⟩
  exact hne status (hpc.symm.trans heq)

/-- A handler that has ended does nothing more, and its environment no longer matters. -/
theorem step_of_isOver (h : Step cfg s event t) (hover : IsOver s.handler) :
    t.handler = s.handler ∧ EnvironmentStays s event := by
  have hcontra : ∀ pc, s.handler.pc = pc → (∀ status, pc ≠ .failed status) → pc ≠ .answered →
      False := by
    rintro pc hpc hfailed hanswered
    rcases hover with ⟨status, heq⟩ | heq
    · exact hfailed status (hpc.symm.trans heq)
    · exact hanswered (hpc.symm.trans heq)
  cases h with
  | enter now hpc => exact (hcontra _ hpc nofun nofun).elim
  | immediate now now' hpc hlook => exact (hcontra _ hpc nofun nofun).elim
  | prefetch now now' hpc hlook => exact (hcontra _ hpc nofun nofun).elim
  | immediateTimeout now hpc hdeadline => exact (hcontra _ hpc nofun nofun).elim
  | prefetchTimeout now hpc hdeadline => exact (hcontra _ hpc nofun nofun).elim
  | finish hpc => exact (hcontra _ hpc nofun nofun).elim
  | others hstep => exact ⟨rfl, trivial⟩

/-- Before its end a handler fails a request that has grants where the environment is gone in
the first loop, and nowhere else. -/
theorem isFailed_step (h : Step cfg s event t) (hover : ¬ IsOver s.handler)
    (hentered : s.handler.pc = .entered → s.handler.grants = []) :
    IsFailed t.handler ∧ t.handler.grants ≠ [] ↔ ¬ EnvironmentStays s event := by
  cases h with
  | enter now hpc =>
      refine iff_of_false ?_ (fun hgone => hgone trivial)
      rintro ⟨-, hgrants⟩
      exact hgrants ((grants_enter ..).trans (hentered hpc))
  | @immediate i waiting result dispatcher now now' hpc hlook =>
      have hstays : EnvironmentStays s (.look now now' result) ↔ (s.handler.grants ≠ [] →
          s.dispatcher.unsafeEnumerateEligibleServants s.handler.personality ≠ []) := by
        simp only [EnvironmentStays, hpc]
      rw [hstays, Classical.not_imp, not_not]
      cases result with
      | environmentNotFound =>
          have hnone := System.attempt_environmentNotFound hlook
          exact ⟨fun h => ⟨h.2, hnone⟩, fun h => ⟨⟨_, rfl⟩, h.1⟩⟩
      | noServantFree =>
          refine iff_of_false (fun h => not_isFailed_of_ne (.immediate i true) rfl nofun h.1) ?_
          rintro ⟨-, hnone⟩
          cases System.attempt_of_none hnone hlook
      | allocated allocation =>
          refine iff_of_false
            (fun h => not_isFailed_of_ne _ rfl (s.handler.immediateFrom_ne (i + 1)).1 h.1) ?_
          rintro ⟨-, hnone⟩
          cases System.attempt_of_none hnone hlook
  | @prefetch i waiting result dispatcher now now' hpc hlook =>
      have hstays : EnvironmentStays s (.look now now' result) := by
        simp only [EnvironmentStays, hpc]
      refine iff_of_false ?_ (fun hgone => hgone hstays)
      rintro ⟨hfailed, -⟩
      cases result with
      | environmentNotFound => exact not_isFailed_of_ne .finishing rfl nofun hfailed
      | noServantFree => exact not_isFailed_of_ne (.prefetch i true) rfl nofun hfailed
      | allocated allocation =>
          exact not_isFailed_of_ne _ rfl (s.handler.prefetchFrom_ne (i + 1)).1 hfailed
  | immediateTimeout now hpc hdeadline =>
      exact iff_of_false
        (fun h => not_isFailed_of_ne _ rfl (s.handler.prefetchFrom_ne 0).1 h.1)
        (fun hgone => hgone trivial)
  | prefetchTimeout now hpc hdeadline =>
      exact iff_of_false (fun h => not_isFailed_of_ne .finishing rfl nofun h.1)
        (fun hgone => hgone trivial)
  | finish hpc =>
      refine iff_of_false ?_ (fun hgone => hgone trivial)
      rintro ⟨⟨status, hfailed⟩, hgrants⟩
      have hanswered : s.handler.finish.pc = .answered := if_neg hgrants
      rw [hanswered] at hfailed
      cases hfailed
  | others hstep =>
      exact iff_of_false (fun h => hover (.inl h.1)) (fun hgone => hgone trivial)

/-- A step does not lead back to the checks of the request. -/
theorem entered_step (h : Step cfg s event t) (hentered : t.handler.pc = .entered) :
    s.handler.pc = .entered ∧ t.handler.grants = s.handler.grants := by
  cases h with
  | enter now hpc => exact ⟨hpc, grants_enter s.handler cfg now⟩
  | @immediate i waiting result dispatcher now now' hpc hlook =>
      cases result with
      | environmentNotFound => nomatch hentered
      | noServantFree => nomatch hentered
      | allocated allocation =>
          exact ((s.handler.immediateFrom_ne (i + 1)).2.2 hentered).elim
  | @prefetch i waiting result dispatcher now now' hpc hlook =>
      cases result with
      | environmentNotFound => nomatch hentered
      | noServantFree => nomatch hentered
      | allocated allocation => exact ((s.handler.prefetchFrom_ne (i + 1)).2.2 hentered).elim
  | immediateTimeout now hpc hdeadline =>
      exact ((s.handler.prefetchFrom_ne 0).2.2 hentered).elim
  | prefetchTimeout now hpc hdeadline => nomatch hentered
  | finish hpc => exact (s.handler.finish_ne hentered).elim
  | others hstep => exact ⟨hentered, rfl⟩

/-- What a run has done to the handler: its response has what was allocated for it, and it
lost that exactly where the environment did not stay. -/
structure Progress (cfg : ServiceConfig) (init : System) (events : List Event) (s : System) :
    Prop where
  run : Run (Step cfg) init events s
  grants : s.handler.grants = allocated events
  entered : s.handler.pc = .entered → s.handler.grants = []
  lost : IsFailed s.handler ∧ s.handler.grants ≠ [] ↔
    ¬ Run (Guarded (Step cfg) EnvironmentStays) init events s

theorem progress_step {init : System} (hprogress : Progress cfg init events s)
    (h : Step cfg s event t) : Progress cfg init (events ++ [event]) t where
  run := hprogress.run.append (.cons h (.nil t))
  grants := by
    rw [grants_step h, hprogress.grants]
    exact (List.filterMap_append ..).symm
  entered := by
    intro hentered
    have hbefore := entered_step h hentered
    rw [hbefore.2]
    exact hprogress.entered hbefore.1
  lost := by
    have hunique : ∀ s event t t', Step cfg s event t → Step cfg s event t' → t = t' :=
      fun _ _ _ _ => step_unique
    rw [Run.guarded_concat_iff hunique hprogress.run h, not_and_or, ← hprogress.lost]
    by_cases hover : IsOver s.handler
    · have hsame := step_of_isOver h hover
      rw [hsame.1]
      exact ⟨.inl, fun hlost => hlost.resolve_right (fun hgone => hgone hsame.2)⟩
    · rw [isFailed_step h hover hprogress.entered]
      exact ⟨.inr, fun hlost => hlost.resolve_left (fun hfailed => hover (.inl hfailed.1))⟩

/-- An answer has all grants, so it is the failures that lose them. -/
theorem delivered_iff_of_grants {h : StartingTask} (hgrants : h.grants = allocated events) :
    Delivered events h ↔ ¬ (IsFailed h ∧ h.grants ≠ []) := by
  cases hpc : h.pc with
  | failed status =>
      have hfailed : IsFailed h := ⟨status, hpc⟩
      simp only [Delivered, hpc, hfailed, true_and, not_not, hgrants]
  | answered =>
      simp only [Delivered, hpc, hgrants, true_iff]
      exact fun hlost => not_isFailed_of_ne _ hpc (fun _ heq => nomatch heq) hlost.1
  | entered =>
      simp only [Delivered, hpc, true_iff]
      exact fun hlost => not_isFailed_of_ne _ hpc (fun _ heq => nomatch heq) hlost.1
  | immediate i waiting =>
      simp only [Delivered, hpc, true_iff]
      exact fun hlost => not_isFailed_of_ne _ hpc (fun _ heq => nomatch heq) hlost.1
  | prefetch i waiting =>
      simp only [Delivered, hpc, true_iff]
      exact fun hlost => not_isFailed_of_ne _ hpc (fun _ heq => nomatch heq) hlost.1
  | finishing =>
      simp only [Delivered, hpc, true_iff]
      exact fun hlost => not_isFailed_of_ne _ hpc (fun _ heq => nomatch heq) hlost.1

/-- A request delivers the grants made for it exactly in the runs in which its environment
stays while it has grants. -/
theorem delivered_iff {d : TaskDispatcher} {request : WaitForStartingTaskRequest}
    {requestorIp : String} (run : Run (Step cfg) ⟨d, start request requestorIp⟩ events t) :
    Delivered events t.handler ↔
      Run (Guarded (Step cfg) EnvironmentStays) ⟨d, start request requestorIp⟩ events t := by
  have hprogress : Progress cfg ⟨d, start request requestorIp⟩ events t := by
    refine Run.invariant_labels (I := Progress cfg ⟨d, start request requestorIp⟩) ?_
      (fun _ _ _ _ => progress_step) run
    refine ⟨.nil _, rfl, fun _ => rfl, iff_of_false ?_ (fun hrun => hrun (.nil _))⟩
    rintro ⟨-, hgrants⟩
    exact hgrants rfl
  rw [delivered_iff_of_grants hprogress.grants, hprogress.lost, not_not]

/-! ## An environment that leaves -/

/-- The step of an event as a partial function. -/
def next (cfg : ServiceConfig) (s : System) : Event → Option System
  | .enter now =>
      if s.handler.pc = .entered then some { s with handler := s.handler.enter cfg now }
      else none
  | .look now now' result =>
      match s.handler.pc with
      | .immediate i _ =>
          match s.attempt cfg false now now' with
          | .ok (found, dispatcher) =>
              if found = result then some ⟨dispatcher, s.handler.immediateLook i result⟩ else none
          | .error _ => none
      | .prefetch i _ =>
          match s.attempt cfg true now now' with
          | .ok (found, dispatcher) =>
              if found = result then some ⟨dispatcher, s.handler.prefetchLook i result⟩ else none
          | .error _ => none
      | _ => none
  | .timeout now =>
      match s.handler.pc with
      | .immediate _ true =>
          if s.handler.deadline ≤ now then
            some { s with handler := { s.handler with pc := s.handler.prefetchFrom 0 } }
          else none
      | .prefetch _ true =>
          if s.handler.deadline ≤ now then
            some { s with handler := { s.handler with pc := .finishing } }
          else none
      | _ => none
  | .finish =>
      if s.handler.pc = .finishing then some { s with handler := s.handler.finish } else none
  | .others op reply =>
      (TaskDispatcher.next cfg.dispatcher s.dispatcher (op, reply)).map fun dispatcher =>
        { s with dispatcher }

theorem step_of_next (s : System) (event : Event) (t : System) (h : next cfg s event = some t) :
    Step cfg s event t := by
  cases event with
  | enter now =>
      obtain ⟨hpc, ht⟩ := Option.ite_none_right_eq_some.mp h
      cases ht
      exact .enter now hpc
  | look now now' result =>
      simp only [next] at h
      split at h
      · next hpc =>
          split at h
          · next hlook =>
              split at h
              · next hresult =>
                  cases h
                  exact .immediate now now' hpc (hresult ▸ hlook)
              · cases h
          · cases h
      · next hpc =>
          split at h
          · next hlook =>
              split at h
              · next hresult =>
                  cases h
                  exact .prefetch now now' hpc (hresult ▸ hlook)
              · cases h
          · cases h
      · cases h
  | timeout now =>
      simp only [next] at h
      split at h
      · next hpc =>
          obtain ⟨hdeadline, ht⟩ := Option.ite_none_right_eq_some.mp h
          cases ht
          exact .immediateTimeout now hpc hdeadline
      · next hpc =>
          obtain ⟨hdeadline, ht⟩ := Option.ite_none_right_eq_some.mp h
          cases ht
          exact .prefetchTimeout now hpc hdeadline
      · cases h
  | finish =>
      obtain ⟨hpc, ht⟩ := Option.ite_none_right_eq_some.mp h
      cases ht
      exact .finish hpc
  | others op reply =>
      obtain ⟨dispatcher, hnext, rfl⟩ := Option.map_eq_some_iff.mp h
      exact .others (TaskDispatcher.step_of_next _ _ _ hnext)

/-- Two grants are wanted at once. -/
def twoGrants : WaitForStartingTaskRequest where
  token := "user"
  millisecondsToWait := 1000
  nextKeepAliveInMs := 1000
  minVersion := 0
  envDesc := ⟨"gcc-8"⟩
  immediateReqs := 2
  prefetchReqs := 0

/-- A servant of the environment has registered before the request. -/
def oneServant : System where
  dispatcher := TaskDispatcher.empty.keepServantAlive
    (TaskDispatcher.sampleServant "10.0.0.1:8335") 100 0 0
  handler := start twoGrants "10.0.0.9"

def bothGranted : List Event :=
  [.enter 0, .look 0 0 (.allocated ⟨0, "10.0.0.1:8335"⟩),
    .look 0 0 (.allocated ⟨1, "10.0.0.1:8335"⟩), .finish]

theorem delivered_both :
    ∃ t, t.handler.grants.length = 2 ∧
      (Delivered bothGranted t.handler ↔
        Run (Guarded (Step SchedulerService.sampleServiceConfig) EnvironmentStays) oneServant
          bothGranted t) := by
  have hend : (follow (next SchedulerService.sampleServiceConfig) bothGranted oneServant).map
      (fun t => t.handler.grants.length) = some 2 := by decide
  obtain ⟨t, hfollow, hlength⟩ := Option.map_eq_some_iff.mp hend
  exact ⟨t, hlength, delivered_iff (Run.of_follow step_of_next hfollow)⟩

/-- The servant has no more capacity to give when it reports again after the first grant. -/
def secondRefused : List Event :=
  [.enter 0, .look 0 0 (.allocated ⟨0, "10.0.0.1:8335"⟩),
    .others (.keepServantAlive
      { TaskDispatcher.sampleServant "10.0.0.1:8335" with maxTasks := 0 } 100 1 1) .done,
    .look 1 1 .environmentNotFound]

/-- The first grant of a request for two is in no response, since the second call fails. -/
theorem grant_lost :
    ¬ ∀ (d : TaskDispatcher) (request : WaitForStartingTaskRequest) (requestorIp : String)
      (events : List Event) (t : System),
      Run (Step SchedulerService.sampleServiceConfig) ⟨d, start request requestorIp⟩ events t →
      Delivered events t.handler := by
  intro h
  have hend : (follow (next SchedulerService.sampleServiceConfig) secondRefused oneServant).map
      (fun t => t.handler.pc) = some (.failed .environmentNotAvailable) := by decide
  obtain ⟨t, hfollow, hpc⟩ := Option.map_eq_some_iff.mp hend
  have hdelivered := h _ _ _ secondRefused t (Run.of_follow step_of_next hfollow)
  simp only [Delivered, hpc] at hdelivered
  cases hdelivered

end StartingTask

end Yadcc.Scheduler
