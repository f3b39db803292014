/-
# Waiting for a servant

A call of `WaitForStartingNewTask` that finds no servant free waits on a condition variable
until it is notified or its deadline passes, and it looks again only if it was notified. Any
number of calls wait at the same time, and what they wait for comes from operations of
others: a grant is freed, or a servant reports more capacity.
-/

import Yadcc.Lib.Transition
import Yadcc.Scheduler.TaskDispatcherInvariant

namespace Yadcc.Scheduler

open Yadcc.Lib

namespace TaskDispatcher

/-- Whether `UnsafeFreeTasks` comes to its end, where it notifies. -/
def unsafeFreeTasksNotifies : List UInt64 → UnorderedMap UInt64 TaskDesc → Bool
  | [], _ => true
  | taskId :: rest, tasks =>
      match tasks.lookup taskId with
      | none => false
      | some _ => unsafeFreeTasksNotifies rest (tasks.erase taskId)

/-- Whether an operation notifies the waiting calls. -/
def notifies (s : TaskDispatcher) : Op → Bool
  | .freeTask taskId => unsafeFreeTasksNotifies [taskId] s.tasks
  | .notifyServantRunningTasks servantLocation tasks =>
      match s.findServant servantLocation with
      | none => false
      | some servant =>
          unsafeFreeTasksNotifies
            (s.sweeping fun taskId task => task.belongingServant == servant && task.zombie &&
              !(tasks.map (·.taskGrantId)).contains taskId) s.tasks
  | .onExpirationTimer now =>
      let s := s.removeExpiredServants now
      unsafeFreeTasksNotifies
        (s.sweeping fun _ task => !s.servants.contains task.belongingServant) s.tasks
  | .waitForStartingNewTask _ _ _ _ _ => false
  | .keepTaskAlive _ _ _ => false
  | .keepServantAlive _ _ _ _ => false

/-- The servants that are eligible and free for a request. -/
def ready (cfg : DispatcherConfig) (s : TaskDispatcher) (personality : TaskPersonality) :
    List ServantPtr :=
  s.unsafeEnumerateFreeServants cfg (s.unsafeEnumerateEligibleServants personality)

/-- Some servant becomes eligible and free for a request. -/
def MakesReady (cfg : DispatcherConfig) (s t : TaskDispatcher) (personality : TaskPersonality) :
    Prop :=
  ∃ r ∈ t.ready cfg personality, r ∉ s.ready cfg personality

/-! ## What makes a servant ready -/

variable {cfg : DispatcherConfig} {s t : TaskDispatcher}

theorem unsafeFreeTasksNotifies_of_known {ids : List UInt64} {tasks : UnorderedMap UInt64 TaskDesc}
    (hnodup : ids.Nodup) (hknown : ∀ k ∈ ids, (tasks.lookup k).isSome) :
    unsafeFreeTasksNotifies ids tasks = true := by
  induction ids generalizing tasks with
  | nil => rfl
  | cons taskId rest ih =>
      obtain ⟨hnot, hrest⟩ := List.nodup_cons.mp hnodup
      obtain ⟨task, htask⟩ := Option.isSome_iff_exists.mp (hknown taskId List.mem_cons_self)
      rw [unsafeFreeTasksNotifies, htask]
      refine ih hrest fun k hk => ?_
      have hne : k ≠ taskId := fun heq => hnot (heq ▸ hk)
      rw [AList.lookup_erase_ne hne]
      exact hknown k (List.mem_cons_of_mem _ hk)

/-- A sweep knows all grants that it frees, so it notifies, also when there are none. -/
theorem sweeping_notifies (s : TaskDispatcher) (p : UInt64 → TaskDesc → Bool) :
    unsafeFreeTasksNotifies (s.sweeping p) s.tasks = true := by
  refine unsafeFreeTasksNotifies_of_known (AList.keys_nodup _) fun k hk => ?_
  obtain ⟨task, htask, -⟩ := mem_sweeping.mp hk
  exact Option.isSome_of_eq_some htask

/-- An operation that does not notify leaves the servants as they are, a heartbeat and a
grant apart. -/
theorem servants_of_not_notifies {op : Op} {reply : Reply}
    (hwait : ∀ personality expiresIn prefetching now now',
      op ≠ .waitForStartingNewTask personality expiresIn prefetching now now')
    (halive : ∀ servant expiresIn now now', op ≠ .keepServantAlive servant expiresIn now now')
    (hquiet : s.notifies op = false) (h : s.apply cfg op = .ok (reply, t)) :
    t.heap = s.heap ∧ t.servants = s.servants := by
  cases op with
  | waitForStartingNewTask personality expiresIn prefetching now now' =>
      exact absurd rfl (hwait personality expiresIn prefetching now now')
  | keepServantAlive servant expiresIn now now' =>
      exact absurd rfl (halive servant expiresIn now now')
  | keepTaskAlive taskId newExpiresIn now =>
      simp only [apply, keepTaskAlive] at h
      split at h
      · cases h
        exact ⟨rfl, rfl⟩
      · split at h
        · cases h
          exact ⟨rfl, rfl⟩
        · cases h
          exact ⟨rfl, rfl⟩
  | freeTask taskId =>
      simp only [notifies, unsafeFreeTasksNotifies] at hquiet
      split at hquiet
      · next hunknown =>
          simp only [apply, freeTask, unsafeFreeTasks, hunknown] at h
          cases h
          exact ⟨rfl, rfl⟩
      · cases hquiet
  | notifyServantRunningTasks location tasks =>
      simp only [notifies] at hquiet
      split at hquiet
      · next hunknown =>
          simp only [apply, notifyServantRunningTasks, hunknown] at h
          cases h
          exact ⟨rfl, rfl⟩
      · rw [sweeping_notifies] at hquiet
        cases hquiet
  | onExpirationTimer now =>
      have hloud : s.notifies (.onExpirationTimer now) = true :=
        sweeping_notifies (s.removeExpiredServants now) _
      rw [hloud] at hquiet
      cases hquiet

/-- What is ready for a request depends on the descriptors of the registered servants. -/
theorem ready_eq (hheap : t.heap = s.heap) (hservants : t.servants = s.servants)
    (personality : TaskPersonality) : t.ready cfg personality = s.ready cfg personality := by
  unfold ready unsafeEnumerateFreeServants unsafeEnumerateEligibleServants
  rw [hheap, hservants]

theorem not_makesReady_of_eq (hheap : t.heap = s.heap) (hservants : t.servants = s.servants)
    (personality : TaskPersonality) : ¬ MakesReady cfg s t personality := by
  rintro ⟨r, hr, hnot⟩
  rw [ready_eq hheap hservants] at hr
  exact hnot hr

/-- A grant takes room on a servant that had room, for any request. -/
theorem not_makesReady_of_look {personality : TaskPersonality} {expiresIn : Time}
    {prefetching : Bool} {now now' : Time} {result : StartAttempt}
    (h : s.waitForStartingNewTask cfg personality expiresIn prefetching now now' =
      .ok (result, t)) (other : TaskPersonality) : ¬ MakesReady cfg s t other := by
  rcases waitForStartingNewTask_cases h with ⟨-, rfl⟩ | ⟨pick, hpick, -, -, rfl⟩
  · exact not_makesReady_of_eq rfl rfl other
  · rintro ⟨r, hr, hnot⟩
    have hpersonality : ∀ r, ((s.grantTask pick personality expiresIn prefetching now now').heap
        r).personality = (s.heap r).personality := by
      intro r
      show ((s.setDesc pick _).heap r).personality = _
      rw [setDesc_heap]
      split
      · next heq => rw [heq]
      · rfl
    have hservants : (s.grantTask pick personality expiresIn prefetching now now').servants =
        s.servants := rfl
    have heligible : r ∈ s.unsafeEnumerateEligibleServants other := by
      have := (List.mem_filter.mp hr).1
      simpa only [unsafeEnumerateEligibleServants, hpersonality, hservants] using this
    refine hnot (List.mem_filter.mpr ⟨heligible, ?_⟩)
    by_cases heq : r = pick
    · rw [heq]
      exact (List.mem_filter.mp hpick).2
    · have hroom := (List.mem_filter.mp hr).2
      have hsame : (s.grantTask pick personality expiresIn prefetching now now').heap r
          = s.heap r := by
        show (s.setDesc pick _).heap r = _
        rw [setDesc_heap, if_neg heq]
      rwa [hsame] at hroom

/-- Where no servant is ready and a step makes none ready, none is. -/
theorem ready_nil {personality : TaskPersonality} (hnone : s.ready cfg personality = [])
    (hnot : ¬ MakesReady cfg s t personality) : t.ready cfg personality = [] := by
  rw [List.eq_nil_iff_forall_not_mem]
  intro r hr
  refine hnot ⟨r, hr, ?_⟩
  rw [hnone]
  exact List.not_mem_nil

/-- A call waits after a look at which no servant was ready. -/
theorem ready_nil_of_look {personality : TaskPersonality} {expiresIn : Time}
    {prefetching : Bool} {now now' : Time}
    (h : s.waitForStartingNewTask cfg personality expiresIn prefetching now now' =
      .ok (.noServantFree, t)) : t.ready cfg personality = [] := by
  unfold waitForStartingNewTask at h
  dsimp only at h
  split at h
  · cases h
  · split at h
    · next hfree =>
        cases h
        exact hfree
    · obtain ⟨pick, -, hrest⟩ := bind_eq_ok.mp h
      split_ifs at hrest
      cases hrest

end TaskDispatcher

/-! ## Calls -/

inductive WaitStatus
  | timeout
  | environmentNotFound
  deriving DecidableEq

namespace NewTaskCall

/-- Where a call stands: before a look at the servants, on the condition variable, woken by
its deadline but without the lock, or returned. -/
inductive Pc
  | looking
  | waiting
  | timedOut
  | returned (result : Except WaitStatus TaskAllocation)

end NewTaskCall

/-- A call of `WaitForStartingNewTask` with its arguments. -/
structure NewTaskCall where
  personality : TaskPersonality
  expiresIn : Time
  timeout : Time
  prefetching : Bool
  pc : NewTaskCall.Pc

namespace NewTaskCall

open TaskDispatcher (Op Reply StartAttempt)

/-- What the call does after a look. -/
def afterLook : StartAttempt → Pc
  | .environmentNotFound => .returned (.error .environmentNotFound)
  | .noServantFree => .waiting
  | .allocated allocation => .returned (.ok allocation)

/-- What `notify_all` does to a call. -/
def notified (call : NewTaskCall) : NewTaskCall :=
  match call.pc with
  | .waiting => { call with pc := .looking }
  | _ => call

/-- The dispatcher with the calls that were made so far. -/
structure System where
  dispatcher : TaskDispatcher
  calls : ℕ → Option NewTaskCall

inductive Event
  | call (id : ℕ) (call : NewTaskCall)
  | look (id : ℕ) (now now' : Time) (result : StartAttempt)
  | deadline (id : ℕ) (now : Time)
  | timeout (id : ℕ)
  | others (op : Op) (reply : Reply)

def System.setCall (s : System) (id : ℕ) (call : NewTaskCall) : System :=
  { s with calls := Function.update s.calls id (some call) }

/-- The operations of others notify all calls that wait at that moment, or none. -/
def System.notify (s : System) (op : Op) : ℕ → Option NewTaskCall :=
  if s.dispatcher.notifies op then fun id => (s.calls id).map notified else s.calls

inductive Step (cfg : DispatcherConfig) : System → Event → System → Prop
  | call {s : System} (id : ℕ) (call : NewTaskCall) : s.calls id = none → call.pc = .looking →
      Step cfg s (.call id call) (s.setCall id call)
  | look {s : System} {id : ℕ} {call : NewTaskCall} {result : StartAttempt}
      {dispatcher : TaskDispatcher} (now now' : Time) : s.calls id = some call →
      call.pc = .looking →
      s.dispatcher.waitForStartingNewTask cfg call.personality call.expiresIn call.prefetching
        now now' = .ok (result, dispatcher) →
      Step cfg s (.look id now now' result)
        { s.setCall id { call with pc := afterLook result } with dispatcher }
  -- The variable takes the call off its list, and the call has yet to take the lock.
  | deadline {s : System} {id : ℕ} {call : NewTaskCall} (now : Time) : s.calls id = some call →
      call.pc = .waiting → call.timeout ≤ now →
      Step cfg s (.deadline id now) (s.setCall id { call with pc := .timedOut })
  | timeout {s : System} {id : ℕ} {call : NewTaskCall} : s.calls id = some call →
      call.pc = .timedOut →
      Step cfg s (.timeout id) (s.setCall id { call with pc := .returned (.error .timeout) })
  | others {s : System} {op : Op} {reply : Reply} {dispatcher : TaskDispatcher} :
      (∀ personality expiresIn prefetching now now',
        op ≠ .waitForStartingNewTask personality expiresIn prefetching now now') →
      TaskDispatcher.Step cfg s.dispatcher (op, reply) dispatcher →
      Step cfg s (.others op reply) ⟨dispatcher, s.notify op⟩

/-- No heartbeat makes a servant eligible and free for a waiting call, and no operation does
for a call between its deadline and its return. -/
def Undisturbed (cfg : DispatcherConfig) (s : System) : Event → Prop
  | .others op reply => ∀ id call dispatcher, s.calls id = some call →
      s.dispatcher.apply cfg op = .ok (reply, dispatcher) →
      (∃ servant expiresIn now now', op = .keepServantAlive servant expiresIn now now') ∧
        call.pc = .waiting ∨ call.pc = .timedOut →
      ¬ TaskDispatcher.MakesReady cfg s.dispatcher dispatcher call.personality
  | _ => True

/-! ## What the calls miss -/

variable {cfg : DispatcherConfig} {s t : System} {event : Event} {events : List Event}

theorem System.setCall_calls (id id' : ℕ) (call : NewTaskCall) :
    (s.setCall id call).calls id' = if id' = id then some call else s.calls id' := by
  show Function.update s.calls id (some call) id' = _
  rw [Function.update_apply]

/-- A call that does not look again is as it was before the notification. -/
theorem System.notify_calls {op : Op} {id : ℕ} {call : NewTaskCall}
    (h : s.notify op id = some call) (hnot : call.pc ≠ .looking) : s.calls id = some call := by
  unfold System.notify at h
  split at h
  · obtain ⟨before, hbefore, rfl⟩ := Option.map_eq_some_iff.mp h
    rw [hbefore]
    unfold notified at hnot ⊢
    split
    · next hwaiting =>
        simp only [hwaiting] at hnot
        exact absurd rfl hnot
    · rfl
  · exact h

/-- What makes a servant eligible and free for a waiting call notifies it. -/
theorem notified_step (h : Guarded (Step cfg) (Undisturbed cfg) s event t) {id : ℕ}
    {call : NewTaskCall} (hcall : s.calls id = some call) (hwaiting : call.pc = .waiting)
    (hready : TaskDispatcher.MakesReady cfg s.dispatcher t.dispatcher call.personality) :
    t.calls id = some { call with pc := .looking } := by
  obtain ⟨hstep, hguard⟩ := h
  cases hstep with
  | call id' call' _ _ =>
      exact (TaskDispatcher.not_makesReady_of_eq rfl rfl _ hready).elim
  | look now now' _ _ hlook => exact (TaskDispatcher.not_makesReady_of_look hlook _ hready).elim
  | deadline now _ _ _ => exact (TaskDispatcher.not_makesReady_of_eq rfl rfl _ hready).elim
  | timeout _ _ => exact (TaskDispatcher.not_makesReady_of_eq rfl rfl _ hready).elim
  | @others op reply dispatcher hwait happly =>
      show s.notify op id = _
      cases hnotifies : s.dispatcher.notifies op with
      | true => simp only [System.notify, hnotifies, if_true, hcall, Option.map_some, notified,
          hwaiting]
      | false =>
          exfalso
          by_cases halive : ∃ servant expiresIn now now',
              op = .keepServantAlive servant expiresIn now now'
          · exact hguard id call dispatcher hcall happly (.inl ⟨halive, hwaiting⟩) hready
          · have hsame := TaskDispatcher.servants_of_not_notifies hwait
              (fun servant expiresIn now now' heq => halive ⟨servant, expiresIn, now, now', heq⟩)
              hnotifies happly
            exact TaskDispatcher.not_makesReady_of_eq hsame.1 hsame.2 _ hready

/-- No servant is eligible and free for a call that waits or is about to time out. -/
def Idle (cfg : DispatcherConfig) (s : System) : Prop :=
  ∀ id call, s.calls id = some call → call.pc = .waiting ∨ call.pc = .timedOut →
    s.dispatcher.ready cfg call.personality = []

/-- A call that a step leaves alone keeps what the step makes no servant ready for. -/
theorem Idle.setCall {id : ℕ} {call : NewTaskCall} {dispatcher : TaskDispatcher}
    (hidle : Idle cfg s)
    (hready : ∀ personality, ¬ TaskDispatcher.MakesReady cfg s.dispatcher dispatcher personality)
    (hown : call.pc = .waiting ∨ call.pc = .timedOut →
      dispatcher.ready cfg call.personality = []) :
    Idle cfg { s.setCall id call with dispatcher } := by
  intro id' call' hcall' hpc
  have hcalls : (s.setCall id call).calls id' = some call' := hcall'
  rw [System.setCall_calls] at hcalls
  split at hcalls
  · cases hcalls
    exact hown hpc
  · exact TaskDispatcher.ready_nil (hidle id' call' hcalls hpc) (hready _)

theorem idle_step (hidle : Idle cfg s) (h : Guarded (Step cfg) (Undisturbed cfg) s event t) :
    Idle cfg t := by
  have hsame : ∀ personality,
      ¬ TaskDispatcher.MakesReady cfg s.dispatcher s.dispatcher personality :=
    TaskDispatcher.not_makesReady_of_eq rfl rfl
  have hnotified := @notified_step cfg s t event h
  obtain ⟨hstep, hguard⟩ := h
  cases hstep with
  | call id call _ hlooking =>
      refine hidle.setCall hsame fun hpc => ?_
      rw [hlooking] at hpc
      rcases hpc with hpc | hpc
      · cases hpc
      · cases hpc
  | @look id call result dispatcher now now' hcall hlooking hlook =>
      refine hidle.setCall (TaskDispatcher.not_makesReady_of_look hlook) fun hpc => ?_
      cases result with
      | noServantFree => exact TaskDispatcher.ready_nil_of_look hlook
      | environmentNotFound => rcases hpc with hpc | hpc <;> cases hpc
      | allocated allocation => rcases hpc with hpc | hpc <;> cases hpc
  | @deadline id call now hcall hwaiting _ =>
      exact hidle.setCall hsame fun _ => hidle id call hcall (.inl hwaiting)
  | @timeout id call hcall htimedOut =>
      refine hidle.setCall hsame fun hpc => ?_
      rcases hpc with hpc | hpc <;> cases hpc
  | @others op reply dispatcher hwait happly =>
      intro id call hcall hpc
      have hbefore : s.calls id = some call := by
        refine System.notify_calls hcall fun hlooking => ?_
        rw [hlooking] at hpc
        rcases hpc with hpc | hpc <;> cases hpc
      refine TaskDispatcher.ready_nil (hidle id call hbefore hpc) fun hready => ?_
      rcases hpc with hwaiting | htimedOut
      · have hlooking := hcall.symm.trans (hnotified hbefore hwaiting hready)
        have hpc := congrArg NewTaskCall.pc (Option.some.inj hlooking)
        rw [hwaiting] at hpc
        cases hpc
      · exact hguard id call dispatcher hbefore happly (.inr htimedOut) hready

/-- In a run in which nothing disturbs the calls, a call that times out has no servant that
is eligible and free, and a call is notified of every servant that becomes so while it
waits. -/
theorem timeout_only_when_busy {d : TaskDispatcher}
    (run : Run (Guarded (Step cfg) (Undisturbed cfg)) ⟨d, fun _ => none⟩ events s)
    (h : Guarded (Step cfg) (Undisturbed cfg) s event t) {id : ℕ} {call : NewTaskCall}
    (hcall : s.calls id = some call) :
    (event = .timeout id → ∀ r ∈ s.dispatcher.unsafeEnumerateEligibleServants call.personality,
      ¬ (s.dispatcher.heap r).runningTasks <
        TaskDispatcher.getCapacityAvailable cfg (s.dispatcher.heap r)) ∧
    (call.pc = .waiting →
      TaskDispatcher.MakesReady cfg s.dispatcher t.dispatcher call.personality →
      t.calls id = some { call with pc := .looking }) := by
  refine ⟨?_, fun hwaiting hready => notified_step h hcall hwaiting hready⟩
  rintro rfl r heligible hroom
  have hidle : Idle cfg s := run.invariant (fun _ _ _ hs hstep => idle_step hs hstep)
    (fun _ _ hnone => nomatch hnone)
  have htimedOut : call.pc = .timedOut := by
    obtain ⟨hstep, -⟩ := h
    cases hstep with
    | timeout hcall' htimedOut =>
        cases hcall.symm.trans hcall'
        exact htimedOut
  have hnone := hidle id call hcall (.inr htimedOut)
  have hready : r ∈ s.dispatcher.ready cfg call.personality :=
    List.mem_filter.mpr ⟨heligible, decide_eq_true hroom⟩
  rw [hnone] at hready
  cases hready

/-! ## A heartbeat that is missed -/

/-- A servant of two, with both grants made. -/
def busyDispatcher : TaskDispatcher :=
  (follow (TaskDispatcher.next TaskDispatcher.sampleConfig)
    [(.keepServantAlive (TaskDispatcher.sampleServant "10.0.0.1:8335") 100 0 0, .done),
      (.waitForStartingNewTask TaskDispatcher.sampleTask 5 false 0 0,
        .attempt (.allocated ⟨0, "10.0.0.1:8335"⟩)),
      (.waitForStartingNewTask TaskDispatcher.sampleTask 5 false 0 0,
        .attempt (.allocated ⟨1, "10.0.0.1:8335"⟩))] TaskDispatcher.empty).getD
    TaskDispatcher.empty

/-- A call that may wait until time 3. -/
def sampleCall (pc : Pc) : NewTaskCall where
  personality := TaskDispatcher.sampleTask
  expiresIn := 5
  timeout := 3
  prefetching := false
  pc

/-- The call is at the given place. -/
def callAt (d : TaskDispatcher) (pc : Pc) : System :=
  ⟨d, Function.update (fun _ => none) 0 (some (sampleCall pc))⟩

theorem callAt_calls (d : TaskDispatcher) (pc : Pc) :
    (callAt d pc).calls 0 = some (sampleCall pc) := rfl

theorem setCall_callAt (d : TaskDispatcher) (pc pc' : Pc) :
    (callAt d pc).setCall 0 (sampleCall pc') = callAt d pc' := by
  simp only [callAt, System.setCall, Function.update_idem]

/-- The call looks in vain and waits. -/
theorem waits : Run (Guarded (Step TaskDispatcher.sampleConfig)
      (Undisturbed TaskDispatcher.sampleConfig)) ⟨busyDispatcher, fun _ => none⟩
    [.call 0 (sampleCall .looking), .look 0 1 1 .noServantFree]
    (callAt busyDispatcher .waiting) := by
  have hlook : busyDispatcher.waitForStartingNewTask TaskDispatcher.sampleConfig
      TaskDispatcher.sampleTask 5 false 1 1 = .ok (.noServantFree, busyDispatcher) := rfl
  have hwaits : Step TaskDispatcher.sampleConfig (callAt busyDispatcher .looking)
      (.look 0 1 1 .noServantFree)
      { (callAt busyDispatcher .looking).setCall 0 (sampleCall .waiting) with
        dispatcher := busyDispatcher } :=
    .look 1 1 (callAt_calls ..) rfl hlook
  rw [setCall_callAt] at hwaits
  exact .cons ⟨.call 0 _ rfl rfl, trivial⟩ (.cons ⟨hwaits, trivial⟩ (.nil _))

theorem deadline_callAt (d : TaskDispatcher) : Step TaskDispatcher.sampleConfig
    (callAt d .waiting) (.deadline 0 3) (callAt d .timedOut) := by
  rw [← setCall_callAt d .waiting .timedOut]
  exact .deadline 3 (callAt_calls ..) rfl (by decide)

theorem timeout_callAt (d : TaskDispatcher) : Step TaskDispatcher.sampleConfig
    (callAt d .timedOut) (.timeout 0) (callAt d (.returned (.error .timeout))) := by
  rw [← setCall_callAt d .timedOut (.returned (.error .timeout))]
  exact .timeout (callAt_calls ..) rfl

theorem timeout_when_busy :
    0 ∈ busyDispatcher.unsafeEnumerateEligibleServants TaskDispatcher.sampleTask ∧
      ¬ (busyDispatcher.heap 0).runningTasks <
        TaskDispatcher.getCapacityAvailable TaskDispatcher.sampleConfig
          (busyDispatcher.heap 0) := by
  have heligible :
      0 ∈ busyDispatcher.unsafeEnumerateEligibleServants TaskDispatcher.sampleTask := by
    decide
  exact ⟨heligible,
    (timeout_only_when_busy
      (waits.append (.cons ⟨deadline_callAt busyDispatcher, trivial⟩ (.nil _)))
      ⟨timeout_callAt busyDispatcher, trivial⟩ (callAt_calls ..)).1 rfl 0 heligible⟩

/-- A second servant registers while the call waits. -/
def secondServant : TaskDispatcher :=
  busyDispatcher.keepServantAlive (TaskDispatcher.sampleServant "10.0.0.2:8335") 100 2 2

theorem secondServant_registers : Step TaskDispatcher.sampleConfig
    (callAt busyDispatcher .waiting)
    (.others (.keepServantAlive (TaskDispatcher.sampleServant "10.0.0.2:8335") 100 2 2) .done)
    (callAt secondServant .waiting) :=
  .others (fun _ _ _ _ _ heq => nomatch heq) rfl

theorem secondServant_ready :
    1 ∈ secondServant.ready TaskDispatcher.sampleConfig TaskDispatcher.sampleTask := by
  decide

/-- A call times out although a servant has been free for it since long before, and it was
not notified when that servant came. -/
theorem timeout_with_ready_servant :
    ¬ (∀ (d : TaskDispatcher) (events : List Event) (s t : System) (id : ℕ) (call : NewTaskCall),
        Run (Step TaskDispatcher.sampleConfig) ⟨d, fun _ => none⟩ events s →
        Step TaskDispatcher.sampleConfig s (.timeout id) t → s.calls id = some call →
        s.dispatcher.ready TaskDispatcher.sampleConfig call.personality = []) ∧
    ¬ (∀ (d : TaskDispatcher) (events : List Event) (s t : System) (event : Event) (id : ℕ)
        (call : NewTaskCall),
        Run (Step TaskDispatcher.sampleConfig) ⟨d, fun _ => none⟩ events s →
        Step TaskDispatcher.sampleConfig s event t → s.calls id = some call →
        call.pc = .waiting →
        TaskDispatcher.MakesReady TaskDispatcher.sampleConfig s.dispatcher t.dispatcher
          call.personality →
        t.calls id = some { call with pc := .looking }) := by
  have hwaits := waits.mono fun _ _ _ h => h.1
  have hregistered := hwaits.append (.cons secondServant_registers (.nil _))
  constructor
  · intro h
    have hnone := h _ _ _ _ 0 (sampleCall .timedOut)
      (hregistered.append (.cons (deadline_callAt secondServant) (.nil _)))
      (timeout_callAt secondServant) rfl
    have hready := secondServant_ready
    rw [show secondServant.ready TaskDispatcher.sampleConfig TaskDispatcher.sampleTask = [] from
      hnone] at hready
    cases hready
  · intro h
    have hnotified := h _ _ _ _ _ 0 (sampleCall .waiting) hwaits secondServant_registers rfl rfl
      ⟨1, secondServant_ready, by decide⟩
    have hpc := congrArg NewTaskCall.pc (Option.some.inj hnotified)
    cases hpc

end NewTaskCall

end Yadcc.Scheduler
