/-
# Aborting tasks that cannot be started

A task that cannot be started before its deadline is aborted. The timer that does it looks
at the deadline only, so it also aborts tasks that were started in time and still run then,
and those that are done and wait to be collected, which the next clean-up drops.
-/

import Yadcc.Daemon.Local.WaitForTask

namespace Yadcc.Daemon.Local

open Yadcc.Lib

namespace Descriptor

/-- The task left the `Pending` state before its deadline. -/
def InTime (desc : Descriptor) : Prop :=
  ∃ now ∈ desc.leftPendingAt, now < desc.fiber.task.startDeadline

end Descriptor

namespace DistributedTaskDispatcher

variable {cfg : DispatcherConfig} {d d' : DistributedTaskDispatcher} {action : Action}
  {actions : List Action}

/-- The timer does not look past the deadline of a task in the map that left `Pending` in
time. No task leaves `Pending` in time after it was aborted for its deadline, as one could
if the clock ran backwards. -/
def SparesStarted (cfg : DispatcherConfig) (d : DistributedTaskDispatcher) : Action → Prop
  | .onAbortTimer now => ∀ id ∈ d.tasks, ∀ desc, d.descs id = some desc → desc.InTime →
      now ≤ desc.fiber.task.startDeadline
  | .perform id event => ∀ desc fiber, d.descs id = some desc →
      desc.fiber.Step cfg event fiber → Timer.onAbortTimer ∈ desc.abortedBy →
      desc.fiber.task.state = .pending → ¬ (desc.perform event fiber).InTime
  | _ => True

/-- The submitter of a task is found alive, and its keep-alives are never overdue. -/
def Cared (id : ℕ) (d : DistributedTaskDispatcher) : Action → Prop
  | .onKillOrphanTimer isProcessAlive => ∀ desc task, d.descs id = some desc →
      desc.task = some task → isProcessAlive task.invokerPid = true
  | .onKeepAliveTimer now => ∀ desc, d.descs id = some desc → desc.overdue now = false
  | _ => True

/-- A call has erased the task from the map to return it. -/
def CollectedBy (id : ℕ) (d : DistributedTaskDispatcher) : Prop :=
  ∃ w waiter, d.waiters w = some waiter ∧ waiter.taskId = id ∧
    (waiter.pc = .taking ∨ ∃ result, waiter.pc = .returned (.ok result))

/-! ## What the fiber does to its task -/

/-- The fields of a task that its fiber does not change. -/
theorem kept_of_step {f f' : Fiber} {event : Event} (h : f.Step cfg event f')
    (hevent : event ≠ .abort) : f'.task.startDeadline = f.task.startDeadline ∧
      f'.task.aborted = f.task.aborted := by
  obtain ⟨-, hmoved | ⟨now, -, rfl⟩⟩ := Fiber.moved_or_complete h hevent
  · exact ⟨hmoved.startDeadline_eq, hmoved.aborted_eq⟩
  · exact ⟨rfl, rfl⟩

/-- A fiber makes its task done in its last step. -/
theorem done_of_step {f f' : Fiber} {event : Event} (h : f.Step cfg event f')
    (hevent : event ≠ .abort) (hdone : f'.task.state = .done) :
    f'.pc = .done ∨ f.task.state = .done := by
  obtain ⟨-, hmoved | ⟨now, -, rfl⟩⟩ := Fiber.moved_or_complete h hevent
  · rcases hmoved.state with hsame | hnot
    · exact .inr (hsame.symm.trans hdone)
    · exact absurd hdone hnot.2
  · exact .inl rfl

/-! ## Invariants of a descriptor -/

/-- A done task is at the end of its fiber, and who aborted a task is written down. -/
structure Honest (desc : Descriptor) : Prop where
  ended : desc.fiber.task.state = .done → desc.fiber.pc = .done
  aborted : desc.fiber.task.aborted = true → desc.abortedBy ≠ []

theorem Honest.changed {id : ℕ} {desc desc' : Descriptor} (h : Honest desc)
    (hchanged : Changed cfg d id desc action desc') : Honest desc' := by
  cases hchanged with
  | same => exact h
  | @performed event fiber hevent hfiber =>
      refine ⟨fun hdone => ?_, fun haborted => ?_⟩
      · rcases done_of_step hfiber hevent hdone with hpc | hbefore
        · exact hpc
        · exact absurd (h.ended hbefore) (completions_of_step hfiber hevent).1
      · exact h.aborted ((kept_of_step hfiber hevent).2.symm.trans haborted)
  | taken hwaiter hid hpc => exact ⟨h.ended, h.aborted⟩
  | late hmem hlate => exact ⟨h.ended, fun _ => List.cons_ne_nil _ _⟩
  | overdue hmem hoverdue => exact ⟨h.ended, fun _ => List.cons_ne_nil _ _⟩
  | renewed hmem hrequest hkept => exact ⟨h.ended, h.aborted⟩
  | orphaned hmem haborted htask hdead => exact ⟨h.ended, fun _ => List.cons_ne_nil _ _⟩

/-- Under the condition, the timer aborts no task that left `Pending` in time. -/
theorem spared_changed {id : ℕ} {desc desc' : Descriptor} (hdesc : d.descs id = some desc)
    (h : desc.InTime → Timer.onAbortTimer ∉ desc.abortedBy)
    (hguard : SparesStarted cfg d action) (hchanged : Changed cfg d id desc action desc') :
    desc'.InTime → Timer.onAbortTimer ∉ desc'.abortedBy := by
  cases hchanged with
  | same => exact h
  | @performed event fiber hevent hfiber =>
      intro hinTime hmem
      by_cases hpending : desc.fiber.task.state = .pending
      · exact hguard desc fiber hdesc hfiber hmem hpending hinTime
      · obtain ⟨now, hnow, hlt⟩ := hinTime
        have hsame : (desc.perform event fiber).leftPendingAt = desc.leftPendingAt :=
          if_neg fun hleaves => hpending hleaves.1
        have hdeadline : fiber.task.startDeadline = desc.fiber.task.startDeadline :=
          (kept_of_step hfiber hevent).1
        exact h ⟨now, hsame ▸ hnow, hdeadline ▸ hlt⟩ hmem
  | taken hwaiter hid hpc => exact h
  | @late now hmem hlate =>
      intro hinTime
      exact absurd hlate (Nat.not_lt.mpr (hguard id hmem desc hdesc hinTime))
  | overdue hmem hoverdue =>
      intro hinTime haborted
      rcases List.mem_cons.mp haborted with heq | haborted
      · cases heq
      · exact h hinTime haborted
  | renewed hmem hrequest hkept => exact h
  | orphaned hmem haborted htask hdead =>
      intro hinTime haborted
      rcases List.mem_cons.mp haborted with heq | haborted
      · cases heq
      · exact h hinTime haborted

/-- Neither does another timer abort a task that is cared for. -/
theorem cared_changed {id : ℕ} {desc desc' : Descriptor} (hdesc : d.descs id = some desc)
    (h : ∀ timer ∈ desc.abortedBy, timer = .onAbortTimer) (hguard : Cared id d action)
    (hchanged : Changed cfg d id desc action desc') :
    ∀ timer ∈ desc'.abortedBy, timer = .onAbortTimer := by
  cases hchanged with
  | same => exact h
  | performed hevent hfiber => exact h
  | taken hwaiter hid hpc => exact h
  | late hmem hlate => exact List.forall_mem_cons.mpr ⟨rfl, h⟩
  | overdue hmem hoverdue =>
      rw [hguard desc hdesc] at hoverdue
      cases hoverdue
  | renewed hmem hrequest hkept => exact h
  | orphaned hmem haborted htask hdead =>
      rw [hguard desc _ hdesc htask] at hdead
      cases hdead

/-! ## Where a task stays -/

theorem waiters_of_step (h : Step cfg d action d') {w : ℕ} {waiter : Waiter}
    (hwaiter : d.waiters w = some waiter) : ∃ waiter', d'.waiters w = some waiter' := by
  have hset : ∀ (d₀ : DistributedTaskDispatcher) (w₀ : ℕ) (waiter₀ : Waiter),
      d₀.waiters w = some waiter → ∃ waiter', (d₀.setWaiter w₀ waiter₀).waiters w =
        some waiter' := by
    intro d₀ w₀ waiter₀ hsome
    rw [setWaiter_waiters]
    split
    · exact ⟨waiter₀, rfl⟩
    · exact ⟨waiter, hsome⟩
  cases h with
  | queueTask => exact ⟨waiter, hwaiter⟩
  | perform hdesc hevent hfiber => exact ⟨waiter, hwaiter⟩
  | waitForTask taskType taskId hnone => exact hset d _ _ hwaiter
  | latchTimeout hwaiter' hpc => exact hset d _ _ hwaiter
  | latchPassed hwaiter' hpc hdesc hcompletions => exact hset d _ _ hwaiter
  | eraseTask hwaiter' hpc => exact hset (d.eraseTask _) _ _ hwaiter
  | takeTask hwaiter' hpc hdesc => exact hset (d.setDesc _ _) _ _ hwaiter
  | onAbortTimer now => exact ⟨waiter, hwaiter⟩
  | onKeepAliveTimer now hnone => exact ⟨waiter, hwaiter⟩
  | keptAlive statuses hrequest => exact ⟨waiter, by rw [keptAlive_waiters]; exact hwaiter⟩
  | onKillOrphanTimer isProcessAlive => exact ⟨waiter, hwaiter⟩
  | onCleanupTimer now => exact ⟨waiter, hwaiter⟩

/-- What was collected stays so. -/
theorem CollectedBy.step {id : ℕ} (hcollected : CollectedBy id d) (h : Step cfg d action d') :
    CollectedBy id d' := by
  obtain ⟨w, waiter, hwaiter, hid, hpc⟩ := hcollected
  obtain ⟨waiter', hwaiter'⟩ := waiters_of_step h hwaiter
  have hne : ∀ pc, waiter.pc = pc → pc ≠ .onLatch ∧ pc ≠ .erasing := by
    rintro pc rfl
    rcases hpc with hpc | ⟨result, hpc⟩
    · rw [hpc]
      exact ⟨nofun, nofun⟩
    · rw [hpc]
      exact ⟨nofun, nofun⟩
  cases moved_of_step h hwaiter' with
  | same hsame =>
      cases hwaiter.symm.trans hsame
      exact ⟨w, waiter, hwaiter', hid, hpc⟩
  | waitForTask taskType taskId hnone =>
      rw [hwaiter] at hnone
      cases hnone
  | latchTimeout hsame hlatch =>
      cases hwaiter.symm.trans hsame
      exact absurd rfl (hne _ hlatch).1
  | latchPassed hsame hlatch hdesc hcompletions =>
      cases hwaiter.symm.trans hsame
      exact absurd rfl (hne _ hlatch).1
  | eraseTask hsame herasing =>
      cases hwaiter.symm.trans hsame
      exact absurd rfl (hne _ herasing).2
  | takeTask hsame htaking hdesc =>
      cases hwaiter.symm.trans hsame
      exact ⟨w, _, hwaiter', hid, .inr ⟨_, rfl⟩⟩

/-- A task is in the map until it is collected, or dropped after it was done. -/
def Retained (id : ℕ) (actions : List Action) (d : DistributedTaskDispatcher)
    (desc : Descriptor) : Prop :=
  id ∈ d.tasks ∨ CollectedBy id d ∨
    desc.fiber.task.state = .done ∧ ∃ now, Action.onCleanupTimer now ∈ actions ∧
      (desc.fiber.task.aborted = true ∨ desc.fiber.task.completedAt + Descriptor.minute < now)

/-- A done task keeps its time of completion, and its flag once it is set. -/
theorem Honest.done_changed {id : ℕ} {desc desc' : Descriptor} (hhonest : Honest desc)
    (hdone : desc.fiber.task.state = .done) (hchanged : Changed cfg d id desc action desc') :
    desc'.fiber.task.state = .done ∧
      desc'.fiber.task.completedAt = desc.fiber.task.completedAt ∧
      (desc.fiber.task.aborted = true → desc'.fiber.task.aborted = true) := by
  cases hchanged with
  | same => exact ⟨hdone, rfl, fun haborted => haborted⟩
  | performed hevent hfiber =>
      exact absurd (hhonest.ended hdone) (completions_of_step hfiber hevent).1
  | taken hwaiter hid hpc => exact ⟨hdone, rfl, fun haborted => haborted⟩
  | late hmem hlate => exact ⟨hdone, rfl, fun _ => rfl⟩
  | overdue hmem hoverdue => exact ⟨hdone, rfl, fun _ => rfl⟩
  | renewed hmem hrequest hkept => exact ⟨hdone, rfl, fun haborted => haborted⟩
  | orphaned hmem haborted htask hdead => exact ⟨hdone, rfl, fun _ => rfl⟩

theorem Retained.step {id : ℕ} {desc desc' : Descriptor} (hhonest : Honest desc)
    (hdesc : d.descs id = some desc) (hretained : Retained id actions d desc)
    (h : Step cfg d action d') (hchanged : Changed cfg d id desc action desc') :
    Retained id (actions ++ [action]) d' desc' := by
  rcases hretained with hmem | hcollected | ⟨hdone, now, hnow, hdropped⟩
  · rcases tasks_of_step h hmem with hstays | ⟨w, waiter, rfl, hwaiter, hpc, hid⟩ |
      ⟨now, desc₀, rfl, hdesc₀, hdropped⟩
    · exact .inl hstays
    · right
      left
      cases h with
      | @eraseTask _ waiter₀ hwaiter₀ _ =>
          cases hwaiter.symm.trans hwaiter₀
          exact ⟨w, _, (setWaiter_waiters ..).trans (if_pos rfl), hid, .inl rfl⟩
    · cases hdesc.symm.trans hdesc₀
      obtain ⟨hdone, hwhy⟩ := of_decide_eq_true hdropped
      obtain ⟨hdone', hcompleted, haborted⟩ := hhonest.done_changed hdone hchanged
      rw [← hcompleted] at hwhy
      exact .inr (.inr ⟨hdone', now, List.mem_append_right _ List.mem_cons_self,
        hwhy.imp haborted fun hlate => hlate⟩)
  · exact .inr (.inl (hcollected.step h))
  · obtain ⟨hdone', hcompleted, haborted⟩ := hhonest.done_changed hdone hchanged
    rw [← hcompleted] at hdropped
    exact .inr (.inr ⟨hdone', now, List.mem_append_left _ hnow,
      hdropped.imp haborted fun hlate => hlate⟩)

/-- What holds of the descriptors in every run. -/
structure Watched (actions : List Action) (d : DistributedTaskDispatcher) : Prop where
  numbered : Numbered d
  honest : ∀ id desc, d.descs id = some desc → Honest desc
  retained : ∀ id desc, d.descs id = some desc → Retained id actions d desc

theorem Watched.step (hd : Watched actions d) (h : Step cfg d action d') :
    Watched (actions ++ [action]) d' where
  numbered := hd.numbered.step h
  honest id desc' hdesc' := by
    cases hdesc : d.descs id with
    | none =>
        obtain ⟨-, _, _, _, _, _, _, -, rfl⟩ := queued_of_step h hdesc hdesc'
        exact ⟨nofun, nofun⟩
    | some desc =>
        obtain ⟨desc₀, hdesc₀, hchanged⟩ := changed_of_step hd.numbered h hdesc
        cases hdesc'.symm.trans hdesc₀
        exact (hd.honest id desc hdesc).changed hchanged
  retained id desc' hdesc' := by
    cases hdesc : d.descs id with
    | none =>
        obtain ⟨rfl, _, _, _, _, _, _, rfl, -⟩ := queued_of_step h hdesc hdesc'
        cases h
        exact .inl (List.mem_append_right _ List.mem_cons_self)
    | some desc =>
        obtain ⟨desc₀, hdesc₀, hchanged⟩ := changed_of_step hd.numbered h hdesc
        cases hdesc'.symm.trans hdesc₀
        exact (hd.retained id desc hdesc).step (hd.honest id desc hdesc) hdesc h hchanged

theorem watched_of_run (run : Run (Step cfg) empty actions d) : Watched actions d := by
  have hinit : Watched [] empty :=
    ⟨fun _ _ hdesc => (nomatch hdesc), fun _ _ hdesc => (nomatch hdesc),
      fun _ _ hdesc => (nomatch hdesc)⟩
  exact Run.invariant_labels hinit (fun _ _ _ _ hd hstep => hd.step hstep) run

theorem spared_of_run (run : Run (Guarded (Step cfg) (SparesStarted cfg)) empty actions d)
    {id : ℕ} {desc : Descriptor} (hdesc : d.descs id = some desc) :
    desc.InTime → Timer.onAbortTimer ∉ desc.abortedBy := by
  have hinvariant : Numbered d ∧ ∀ id desc, d.descs id = some desc → desc.InTime →
      Timer.onAbortTimer ∉ desc.abortedBy := by
    refine run.invariant (I := fun d => Numbered d ∧ ∀ id desc, d.descs id = some desc →
      desc.InTime → Timer.onAbortTimer ∉ desc.abortedBy) ?_
      ⟨fun _ _ hdesc => (nomatch hdesc), fun _ _ hdesc => (nomatch hdesc)⟩
    rintro d action d' ⟨hnumbered, hspared⟩ ⟨hstep, hguard⟩
    refine ⟨hnumbered.step hstep, fun id desc' hdesc' => ?_⟩
    cases hdesc : d.descs id with
    | none =>
        obtain ⟨-, _, _, _, _, _, _, -, rfl⟩ := queued_of_step hstep hdesc hdesc'
        exact fun _ => List.not_mem_nil
    | some desc =>
        obtain ⟨desc₀, hdesc₀, hchanged⟩ := changed_of_step hnumbered hstep hdesc
        cases hdesc'.symm.trans hdesc₀
        exact spared_changed hdesc (hspared id desc hdesc) hguard hchanged
  exact hinvariant.2 id desc hdesc

theorem cared_of_run {id : ℕ} (run : Run (Guarded (Step cfg) (Cared id)) empty actions d)
    {desc : Descriptor} (hdesc : d.descs id = some desc) :
    ∀ timer ∈ desc.abortedBy, timer = .onAbortTimer := by
  have hinvariant : Numbered d ∧ ∀ desc, d.descs id = some desc →
      ∀ timer ∈ desc.abortedBy, timer = .onAbortTimer := by
    refine run.invariant (I := fun d => Numbered d ∧ ∀ desc, d.descs id = some desc →
      ∀ timer ∈ desc.abortedBy, timer = .onAbortTimer) ?_
      ⟨fun _ _ hdesc => (nomatch hdesc), fun _ hdesc => (nomatch hdesc)⟩
    rintro d action d' ⟨hnumbered, hcared⟩ ⟨hstep, hguard⟩
    refine ⟨hnumbered.step hstep, fun desc' hdesc' => ?_⟩
    cases hdesc : d.descs id with
    | none =>
        obtain ⟨-, _, _, _, _, _, _, -, rfl⟩ := queued_of_step hstep hdesc hdesc'
        exact fun _ htimer => nomatch htimer
    | some desc =>
        obtain ⟨desc₀, hdesc₀, hchanged⟩ := changed_of_step hnumbered hstep hdesc
        cases hdesc'.symm.trans hdesc₀
        exact cared_changed hdesc (hcared desc hdesc) hguard hchanged
  exact hinvariant.2 desc hdesc

/-- In a run in which the timer spares what was started, a task that left `Pending` in time
is never aborted by it. If its submitter is alive and its keep-alives are in time as well, it
is not aborted at all, and once done it stays in the map until a call collects it or a minute
has passed. -/
theorem started_in_time_spared :
    (Run (Guarded (Step cfg) (SparesStarted cfg)) empty actions d →
      ∀ id desc, d.descs id = some desc → desc.InTime →
        Timer.onAbortTimer ∉ desc.abortedBy) ∧
    ∀ id, Run (Guarded (Step cfg) fun d action => SparesStarted cfg d action ∧ Cared id d action)
        empty actions d →
      ∀ desc, d.descs id = some desc → desc.InTime →
        desc.fiber.task.aborted = false ∧
        (desc.fiber.task.state = .done → id ∈ d.tasks ∨ CollectedBy id d ∨
          ∃ now, Action.onCleanupTimer now ∈ actions ∧
            desc.fiber.task.completedAt + Descriptor.minute < now) := by
  refine ⟨fun run id desc hdesc => spared_of_run run hdesc, fun id run desc hdesc hinTime => ?_⟩
  have hspared := spared_of_run (run.mono fun _ _ _ h => ⟨h.1, h.2.1⟩) hdesc hinTime
  have hcared := cared_of_run (run.mono fun _ _ _ h => ⟨h.1, h.2.2⟩) hdesc
  have hwatched := watched_of_run (run.mono fun _ _ _ h => h.1)
  have hnone : desc.abortedBy = [] := by
    rw [List.eq_nil_iff_forall_not_mem]
    intro timer htimer
    exact hspared (hcared timer htimer ▸ htimer)
  have haborted : desc.fiber.task.aborted = false := by
    cases haborted : desc.fiber.task.aborted with
    | false => rfl
    | true => exact absurd hnone ((hwatched.honest id desc hdesc).aborted haborted)
  refine ⟨haborted, fun _ => ?_⟩
  rcases hwatched.retained id desc hdesc with hmem | hcollected | ⟨-, now, hnow, hflag | hlate⟩
  · exact .inl hmem
  · exact .inr (.inl hcollected)
  · rw [haborted] at hflag
    cases hflag
  · exact .inr (.inr ⟨now, hnow, hlate⟩)

/-! ## A task that is aborted while it runs -/

/-- A task that is with a servant at time 4, its deadline being 50. -/
def startedInTime : List Action :=
  [.queueTask 0 7 "digest" .disallow 50 0, .perform 1 (.readCache none),
    .perform 1 (.findTask none), .perform 1 .checkGrant,
    .perform 1 (.getGrant (some ⟨3, "10.0.0.1:8335"⟩) 3), .perform 1 (.startTask (some 9) 4)]

/-- No task was aborted, and every deadline is ahead. -/
def early (d : DistributedTaskDispatcher) : Action → Bool
  | .onAbortTimer now => d.tasks.all fun id =>
      (d.descs id).all fun desc => now ≤ desc.fiber.task.startDeadline
  | .perform id _ => (d.descs id).all fun desc => desc.abortedBy.isEmpty
  | .onKillOrphanTimer _ => false
  | .onKeepAliveTimer _ => false
  | _ => true

theorem guarded_of_early (id : ℕ) (h : early d action = true) :
    SparesStarted cfg d action ∧ Cared id d action := by
  cases action with
  | onAbortTimer now =>
      refine ⟨fun id hmem desc hdesc _ => ?_, trivial⟩
      have hall := List.all_eq_true.mp h id hmem
      rw [hdesc] at hall
      exact of_decide_eq_true hall
  | perform id event =>
      refine ⟨fun desc fiber hdesc _ hmem => ?_, trivial⟩
      have hall : (d.descs id).all (fun desc => desc.abortedBy.isEmpty) = true := h
      rw [hdesc] at hall
      rw [List.isEmpty_iff.mp hall] at hmem
      cases hmem
  | onKillOrphanTimer isProcessAlive => cases h
  | onKeepAliveTimer now => cases h
  | _ => exact ⟨trivial, trivial⟩

/-- The timer ticks before the deadline, and the task is done after it. -/
def doneLate : List Action :=
  startedInTime ++ [.onAbortTimer 50, .perform 1 .checkWait,
    .perform 1 (.poll (some ⟨.done, 1, [], [], [], []⟩)), .perform 1 .freeServantTask,
    .perform 1 .freeGrant, .perform 1 (.complete 60), .onCleanupTimer 70]

theorem spared_doneLate : ∃ (d : DistributedTaskDispatcher) (desc : Descriptor),
    d.descs 1 = some desc ∧ desc.fiber.task.state = .done ∧
      Timer.onAbortTimer ∉ desc.abortedBy ∧ desc.fiber.task.aborted = false ∧
      (1 ∈ d.tasks ∨ CollectedBy 1 d ∨ ∃ now, Action.onCleanupTimer now ∈ doneLate ∧
        desc.fiber.task.completedAt + Descriptor.minute < now) := by
  have hend : (follow (guardedNext (next plainConfig) fun d action => early d action = true)
      doneLate empty).bind (fun d => (d.descs 1).map fun desc =>
        (desc.fiber.task.state, desc.leftPendingAt, desc.fiber.task.startDeadline)) =
      some (.done, some 3, 50) := by decide
  obtain ⟨d, hfollow, hend⟩ := Option.bind_eq_some_iff.mp hend
  obtain ⟨desc, hdesc, hend⟩ := Option.map_eq_some_iff.mp hend
  obtain ⟨hdone, hend⟩ := Prod.mk.inj hend
  obtain ⟨hleft, hdeadline⟩ := Prod.mk.inj hend
  have hinTime : desc.InTime := ⟨3, hleft, by rw [hdeadline]; decide⟩
  have run := Run.of_follow (guarded_of_guardedNext step_of_next) hfollow
  have hspared := (started_in_time_spared.1 (run.mono fun _ _ _ h =>
    ⟨h.1, (guarded_of_early 1 h.2).1⟩)) 1 desc hdesc hinTime
  have hkept := (started_in_time_spared.2 1 (run.mono fun _ _ _ h =>
    ⟨h.1, guarded_of_early 1 h.2⟩)) desc hdesc hinTime
  exact ⟨d, desc, hdesc, hdone, hspared, hkept.1, hkept.2 hdone⟩

/-- A task that runs since before its deadline is aborted at the first tick after it. -/
theorem aborted_while_running :
    ¬ ∀ (actions : List Action) (d : DistributedTaskDispatcher),
      Run (Step plainConfig) empty actions d → ∀ id desc, d.descs id = some desc →
      desc.InTime → Timer.onAbortTimer ∉ desc.abortedBy := by
  intro h
  have hend : (follow (next plainConfig) (startedInTime ++ [.onAbortTimer 51]) empty).bind
      (fun d => (d.descs 1).map fun desc =>
        (desc.abortedBy, desc.leftPendingAt, desc.fiber.task.startDeadline)) =
      some ([.onAbortTimer], some 3, 50) := by decide
  obtain ⟨d, hfollow, hend⟩ := Option.bind_eq_some_iff.mp hend
  obtain ⟨desc, hdesc, hend⟩ := Option.map_eq_some_iff.mp hend
  obtain ⟨haborted, hend⟩ := Prod.mk.inj hend
  obtain ⟨hleft, hdeadline⟩ := Prod.mk.inj hend
  have hinTime : desc.InTime := ⟨3, hleft, by rw [hdeadline]; decide⟩
  refine h _ d (Run.of_follow step_of_next hfollow) 1 desc hdesc hinTime ?_
  rw [haborted]
  exact List.mem_cons_self

end DistributedTaskDispatcher

end Yadcc.Daemon.Local
