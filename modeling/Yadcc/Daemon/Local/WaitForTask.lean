/-
# Waiting for a task

A call of `WaitForDistributedTask` looks its task up, waits for the latch, erases the task
from the map and moves the task object out of the descriptor, and it holds no lock in
between. One call at a time gets the object with the output that was recorded for it. Two
calls that have both found the descriptor both get past the latch, and the second one moves
out a null pointer.
-/

import Yadcc.Daemon.Local.TaskRegistry

namespace Yadcc.Daemon.Local

open Yadcc.Lib

namespace WaiterPc

/-- The call has found its task, and has neither timed out nor returned. -/
def active : WaiterPc → Bool
  | .onLatch => true
  | .erasing => true
  | .taking => true
  | .returned _ => false

/-- The call is after the task, or has returned success. -/
def engaged : WaiterPc → Bool
  | .returned (.error _) => false
  | _ => true

end WaiterPc

namespace Descriptor

/-- What `OnCompletion` was called with is what the task object has. -/
def Recorded (desc : Descriptor) : Prop :=
  (desc.fiber.completions = [] ∧ desc.fiber.pc ≠ .done) ∨
  ∃ output, desc.fiber.completions = [output] ∧ desc.fiber.pc = .done ∧
    desc.fiber.task.state = .done ∧ ∀ task, desc.task = some task → task.output = some output

end Descriptor

namespace DistributedTaskDispatcher

variable {cfg : DispatcherConfig} {d d' : DistributedTaskDispatcher} {action : Action}
  {actions : List Action}

/-- No call looks a task up while another one that has found it neither timed out nor
returned. -/
def OneAtATime (d : DistributedTaskDispatcher) : Action → Prop
  | .waitForTask _ taskType taskId => (d.lookUp taskType taskId).active = true →
      ∀ w waiter, d.waiters w = some waiter → waiter.taskId = taskId →
        waiter.pc.active = false
  | _ => True

/-! ## What the fiber records -/

/-- A fiber calls `OnCompletion` in its last step, and only there. -/
theorem completions_of_step {f f' : Fiber} {event : Event} (h : f.Step cfg event f')
    (hevent : event ≠ .abort) : f.pc ≠ .done ∧
    ((∃ now, event = .complete now ∧ f' = f.complete now) ∨
      (∀ now, event ≠ .complete now) ∧ f'.completions = f.completions ∧ f'.pc ≠ .done) := by
  obtain ⟨hpc, hmoved | hcomplete⟩ := Fiber.moved_or_complete h hevent
  · exact ⟨hpc, .inr ⟨hmoved.event_ne, hmoved.completions_eq, hmoved.pc_ne⟩⟩
  · exact ⟨hpc, .inl hcomplete⟩

/-- A descriptor goes on recording what its fiber records. -/
theorem Recorded.changed {id : ℕ} {desc desc' : Descriptor} (h : desc.Recorded)
    (hchanged : Changed cfg d id desc action desc') : desc'.Recorded := by
  cases hchanged with
  | same => exact h
  | @performed event fiber hevent hfiber =>
      obtain ⟨hpc, hcomplete | ⟨hevent', hcompletions, hpc'⟩⟩ := completions_of_step hfiber hevent
      · obtain ⟨now, rfl, rfl⟩ := hcomplete
        rcases h with ⟨hnone, -⟩ | ⟨output, -, hdone, -⟩
        · refine .inr ⟨desc.fiber.task.output, ?_, rfl, rfl, ?_⟩
          · show desc.fiber.completions ++ [desc.fiber.task.output] = _
            rw [hnone]
            rfl
          · intro task htask
            obtain ⟨task', -, rfl⟩ := Option.map_eq_some_iff.mp htask
            rfl
        · exact absurd hdone hpc
      · rcases h with ⟨hnone, -⟩ | ⟨output, -, hdone, -⟩
        · exact .inl ⟨hcompletions.trans hnone, hpc'⟩
        · exact absurd hdone hpc
  | taken hwaiter hid hpc =>
      rcases h with h | ⟨output, hcompletions, hpc, hstate, -⟩
      · exact .inl h
      · exact .inr ⟨output, hcompletions, hpc, hstate, nofun⟩
  | late hmem hlate => exact h
  | overdue hmem hoverdue => exact h
  | renewed hmem hrequest hkept => exact h
  | orphaned hmem haborted htask hdead => exact h

/-- A completed task stays as it was completed. -/
theorem Recorded.completed {id : ℕ} {desc desc' : Descriptor} (h : desc.Recorded)
    (hcompletions : desc.fiber.completions ≠ [])
    (hchanged : Changed cfg d id desc action desc') :
    desc'.fiber.completions = desc.fiber.completions ∧
      desc'.fiber.task.state = desc.fiber.task.state := by
  cases hchanged with
  | same => exact ⟨rfl, rfl⟩
  | @performed event fiber hevent hfiber =>
      rcases h with ⟨hnone, -⟩ | ⟨output, -, hdone, -⟩
      · exact absurd hnone hcompletions
      · exact absurd hdone (completions_of_step hfiber hevent).1
  | taken hwaiter hid hpc => exact ⟨rfl, rfl⟩
  | late hmem hlate => exact ⟨rfl, rfl⟩
  | overdue hmem hoverdue => exact ⟨rfl, rfl⟩
  | renewed hmem hrequest hkept => exact ⟨rfl, rfl⟩
  | orphaned hmem haborted htask hdead => exact ⟨rfl, rfl⟩

/-- Only a call that takes it moves a task object. -/
theorem Changed.task {id : ℕ} {desc desc' : Descriptor} {task : DistributedTask}
    (hchanged : Changed cfg d id desc action desc') (htask : desc.task = some task) :
    (∃ task', desc'.task = some task') ∨
    ∃ w waiter, action = .takeTask w ∧ d.waiters w = some waiter ∧ waiter.taskId = id ∧
      waiter.pc = .taking := by
  cases hchanged with
  | same => exact .inl ⟨task, htask⟩
  | @performed event fiber hevent hfiber =>
      left
      cases event with
      | complete now => exact ⟨_, congrArg (Option.map _) htask⟩
      | readCache entry => exact ⟨task, htask⟩
      | findTask running => exact ⟨task, htask⟩
      | referenceTask ok now => exact ⟨task, htask⟩
      | checkGrant => exact ⟨task, htask⟩
      | getGrant grant now => exact ⟨task, htask⟩
      | startTask servantTaskId now => exact ⟨task, htask⟩
      | checkWait => exact ⟨task, htask⟩
      | poll result => exact ⟨task, htask⟩
      | freeServantTask => exact ⟨task, htask⟩
      | freeGrant => exact ⟨task, htask⟩
      | abort => exact ⟨task, htask⟩
  | @taken w waiter hwaiter hid hpc => exact .inr ⟨w, waiter, rfl, hwaiter, hid, hpc⟩
  | late hmem hlate => exact .inl ⟨task, htask⟩
  | overdue hmem hoverdue => exact .inl ⟨task, htask⟩
  | renewed hmem hrequest hkept => exact .inl ⟨task, htask⟩
  | orphaned hmem haborted hsome hdead => exact .inl ⟨task, htask⟩

/-! ## What the calls can rely on -/

/-- A call that returned this has the task of its ID, with the output recorded for it. -/
structure Collected (d : DistributedTaskDispatcher) (taskId : ℕ)
    (result : Option DistributedTask) : Prop where
  left : taskId ∉ d.tasks
  recorded : ∃ desc task output, d.descs taskId = some desc ∧
    desc.fiber.completions = [output] ∧ desc.fiber.task.state = .done ∧
    result = some task ∧ task.output = some output

/-- What the dispatcher keeps for a call. -/
def Served (d : DistributedTaskDispatcher) (waiter : Waiter) : Prop :=
  match waiter.pc with
  | .onLatch => ∃ desc task, d.descs waiter.taskId = some desc ∧ desc.task = some task
  | .erasing => ∃ desc task, d.descs waiter.taskId = some desc ∧ desc.task = some task ∧
      desc.fiber.completions ≠ []
  | .taking => (∃ desc task, d.descs waiter.taskId = some desc ∧ desc.task = some task ∧
      desc.fiber.completions ≠ []) ∧ waiter.taskId ∉ d.tasks
  | .returned (.ok result) => Collected d waiter.taskId result
  | .returned (.error _) => True

/-- The invariant: descriptors record outputs and have their task object while they are in
the map, every call is served, and at most one call is after a task or has got it. -/
structure Sound (d : DistributedTaskDispatcher) : Prop where
  numbered : Numbered d
  recorded : ∀ id desc, d.descs id = some desc → desc.Recorded
  whole : ∀ id desc, id ∈ d.tasks → d.descs id = some desc → ∃ task, desc.task = some task
  served : ∀ w waiter, d.waiters w = some waiter → Served d waiter
  exclusive : ∀ w w' waiter waiter', d.waiters w = some waiter → d.waiters w' = some waiter' →
    waiter.pc.engaged = true → waiter'.pc.engaged = true → waiter.taskId = waiter'.taskId →
    w = w'

/-- A known task that is not in the map does not come back. -/
theorem Sound.left_step (hd : Sound d) (h : Step cfg d action d') {id : ℕ} {desc : Descriptor}
    (hdesc : d.descs id = some desc) (hleft : id ∉ d.tasks) : id ∉ d'.tasks := by
  intro hmem
  rcases tasks_before_step h hmem with hbefore | ⟨hnew, -⟩
  · exact hleft hbefore
  · have := hd.numbered id desc hdesc
    omega

/-- What a step leaves of a descriptor that a call waits on. -/
theorem Sound.desc_step (hd : Sound d) (h : Step cfg d action d') {id : ℕ} {desc : Descriptor}
    {task : DistributedTask} (hdesc : d.descs id = some desc) (htask : desc.task = some task)
    (hkept : ∀ w waiter, action = .takeTask w → d.waiters w = some waiter →
      waiter.taskId = id → waiter.pc ≠ .taking) :
    ∃ desc' task', d'.descs id = some desc' ∧ desc'.task = some task' ∧
      (desc.fiber.completions ≠ [] → desc'.fiber.completions ≠ []) := by
  obtain ⟨desc', hdesc', hchanged⟩ := changed_of_step hd.numbered h hdesc
  rcases hchanged.task htask with ⟨task', htask'⟩ | ⟨w, waiter, haction, hwaiter, hid, hpc⟩
  · refine ⟨desc', task', hdesc', htask', fun hcompletions => ?_⟩
    rw [(Recorded.completed (hd.recorded id desc hdesc) hcompletions hchanged).1]
    exact hcompletions
  · exact absurd hpc (hkept w waiter haction hwaiter hid)

theorem Collected.step (hd : Sound d) (h : Step cfg d action d') {id : ℕ}
    {result : Option DistributedTask} (hcollected : Collected d id result) :
    Collected d' id result := by
  obtain ⟨hleft, desc, task, output, hdesc, hcompletions, hstate, hresult, houtput⟩ := hcollected
  obtain ⟨desc', hdesc', hchanged⟩ := changed_of_step hd.numbered h hdesc
  have hne : desc.fiber.completions ≠ [] := by
    rw [hcompletions]
    exact List.cons_ne_nil _ _
  have hsame := Recorded.completed (hd.recorded id desc hdesc) hne hchanged
  exact ⟨hd.left_step h hdesc hleft, desc', task, output, hdesc', hsame.1.trans hcompletions,
    hsame.2.trans hstate, hresult, houtput⟩

/-- A call is served while others move, as long as no other call is after its task. -/
theorem Served.step (hd : Sound d) (h : Step cfg d action d') {waiter : Waiter}
    (hserved : Served d waiter)
    (hkept : waiter.pc.active = true → ∀ w waiter', action = .takeTask w →
      d.waiters w = some waiter' → waiter'.taskId = waiter.taskId → waiter'.pc ≠ .taking) :
    Served d' waiter := by
  unfold Served at hserved ⊢
  cases hpc : waiter.pc with
  | onLatch =>
      rw [hpc] at hserved hkept
      obtain ⟨desc, task, hdesc, htask⟩ := hserved
      obtain ⟨desc', task', hdesc', htask', -⟩ := hd.desc_step h hdesc htask (hkept rfl)
      exact ⟨desc', task', hdesc', htask'⟩
  | erasing =>
      rw [hpc] at hserved hkept
      obtain ⟨desc, task, hdesc, htask, hcompletions⟩ := hserved
      obtain ⟨desc', task', hdesc', htask', hdone⟩ := hd.desc_step h hdesc htask (hkept rfl)
      exact ⟨desc', task', hdesc', htask', hdone hcompletions⟩
  | taking =>
      rw [hpc] at hserved hkept
      obtain ⟨⟨desc, task, hdesc, htask, hcompletions⟩, hleft⟩ := hserved
      obtain ⟨desc', task', hdesc', htask', hdone⟩ := hd.desc_step h hdesc htask (hkept rfl)
      exact ⟨⟨desc', task', hdesc', htask', hdone hcompletions⟩, hd.left_step h hdesc hleft⟩
  | returned result =>
      rw [hpc] at hserved
      cases result with
      | ok result => exact Collected.step hd h hserved
      | error status => trivial

/-- A look-up that finds a task finds it in the map. -/
theorem lookUp_cases (d : DistributedTaskDispatcher) (taskType taskId : ℕ) :
    d.lookUp taskType taskId = .returned (.error .notFound) ∨
    d.lookUp taskType taskId = .onLatch ∧ taskId ∈ d.tasks ∧
      ∃ desc, d.descs taskId = some desc := by
  unfold lookUp
  split
  · next hmem =>
      split
      · exact .inl rfl
      · next desc hdesc =>
          split
          · exact .inl rfl
          · exact .inr ⟨rfl, hmem, desc, hdesc⟩
  · exact .inl rfl

theorem lookUp_engaged {taskType taskId : ℕ} (h : (d.lookUp taskType taskId).engaged = true) :
    (d.lookUp taskType taskId).active = true ∧ taskId ∈ d.tasks := by
  rcases lookUp_cases d taskType taskId with hnot | ⟨hfound, hmem, -⟩
  · rw [hnot] at h
    cases h
  · rw [hfound]
    exact ⟨rfl, hmem⟩

/-- A call that is after a task, or has got it, was so before, or it has just looked the
task up. -/
theorem Moved.engaged {w : ℕ} {waiter' : Waiter} (h : Moved d w action waiter')
    (hengaged : waiter'.pc.engaged = true) :
    (∃ waiter, d.waiters w = some waiter ∧ waiter.taskId = waiter'.taskId ∧
      waiter.pc.engaged = true) ∨
    ∃ taskType, action = .waitForTask w taskType waiter'.taskId ∧
      (d.lookUp taskType waiter'.taskId).engaged = true := by
  cases h with
  | @same _ waiter hwaiter => exact .inl ⟨_, hwaiter, rfl, hengaged⟩
  | waitForTask taskType taskId hnone => exact .inr ⟨taskType, rfl, hengaged⟩
  | latchTimeout hwaiter hpc => cases hengaged
  | @latchPassed waiter desc hwaiter hpc hdesc hcompletions =>
      exact .inl ⟨waiter, hwaiter, rfl, by rw [hpc]; rfl⟩
  | @eraseTask waiter hwaiter hpc => exact .inl ⟨waiter, hwaiter, rfl, by rw [hpc]; rfl⟩
  | @takeTask waiter desc hwaiter hpc hdesc =>
      exact .inl ⟨waiter, hwaiter, rfl, by rw [hpc]; rfl⟩

/-- No call is after a task that another one looks up, under the condition. -/
theorem Sound.not_engaged (hd : Sound d) {w : ℕ} {taskType taskId : ℕ}
    (hguard : OneAtATime d (.waitForTask w taskType taskId))
    (hlookUp : (d.lookUp taskType taskId).engaged = true) {w' : ℕ} {waiter : Waiter}
    (hwaiter : d.waiters w' = some waiter) (hid : waiter.taskId = taskId) :
    waiter.pc.engaged = false := by
  obtain ⟨hactive, hmem⟩ := lookUp_engaged hlookUp
  have hidle := hguard hactive w' waiter hwaiter hid
  cases hpc : waiter.pc with
  | onLatch =>
      rw [hpc] at hidle
      cases hidle
  | erasing =>
      rw [hpc] at hidle
      cases hidle
  | taking =>
      rw [hpc] at hidle
      cases hidle
  | returned result =>
      cases result with
      | error status => rfl
      | ok result =>
          have hserved := hd.served w' waiter hwaiter
          unfold Served at hserved
          rw [hpc] at hserved
          have hleft : waiter.taskId ∉ d.tasks := hserved.left
          rw [hid] at hleft
          exact absurd hmem hleft

theorem active_of_taking {pc : WaiterPc} (h : pc = .taking) : pc.engaged = true := by
  rw [h]
  rfl

theorem engaged_of_active {pc : WaiterPc} (h : pc.active = true) : pc.engaged = true := by
  cases pc with
  | onLatch => rfl
  | erasing => rfl
  | taking => rfl
  | returned result => cases h

theorem Sound.exclusive_step (hd : Sound d) (h : Step cfg d action d')
    (hguard : OneAtATime d action) {w w' : ℕ} {waiter waiter' : Waiter}
    (hw : d'.waiters w = some waiter) (hw' : d'.waiters w' = some waiter')
    (hengaged : waiter.pc.engaged = true) (hengaged' : waiter'.pc.engaged = true)
    (hid : waiter.taskId = waiter'.taskId) : w = w' := by
  rcases (moved_of_step h hw).engaged hengaged with
    ⟨old, hold, holdId, holdEngaged⟩ | ⟨taskType, rfl, hlookUp⟩
  · rcases (moved_of_step h hw').engaged hengaged' with
      ⟨old', hold', holdId', holdEngaged'⟩ | ⟨taskType, rfl, hlookUp⟩
    · exact hd.exclusive w w' old old' hold hold' holdEngaged holdEngaged'
        (holdId.trans (hid.trans holdId'.symm))
    · have hidle := hd.not_engaged hguard hlookUp hold (holdId.trans hid)
      rw [hidle] at holdEngaged
      cases holdEngaged
  · rcases (moved_of_step h hw').engaged hengaged' with
      ⟨old', hold', holdId', holdEngaged'⟩ | ⟨taskType', heq, -⟩
    · have hidle := hd.not_engaged hguard hlookUp hold' (holdId'.trans hid.symm)
      rw [hidle] at holdEngaged'
      cases holdEngaged'
    · exact (Action.waitForTask.inj heq).1

/-- A step serves the call that it moves. -/
theorem Sound.served_step (hd : Sound d) (h : Step cfg d action d') {w : ℕ} {waiter' : Waiter}
    (hw' : d'.waiters w = some waiter') : Served d' waiter' := by
  cases moved_of_step h hw' with
  | same hwaiter =>
      refine Served.step hd h (hd.served w waiter' hwaiter) ?_
      intro hactive w₀ waiter₀ haction hwaiter₀ hid hpc
      have heq := hd.exclusive w₀ w waiter₀ waiter' hwaiter₀ hwaiter (active_of_taking hpc)
        (engaged_of_active hactive) hid
      subst heq
      subst haction
      cases h with
      | @takeTask _ waiter desc hwaiter' hpc' hdesc =>
          rw [setWaiter_waiters, if_pos rfl] at hw'
          rw [← Option.some.inj hw'] at hactive
          cases hactive
  | waitForTask taskType taskId hnone =>
      cases h with
      | waitForTask _ _ _ =>
          rcases lookUp_cases d taskType taskId with hnot | ⟨hfound, hmem, desc, hdesc⟩
          · rw [hnot]
            trivial
          · rw [hfound]
            obtain ⟨task, htask⟩ := hd.whole taskId desc hmem hdesc
            exact ⟨desc, task, hdesc, htask⟩
  | latchTimeout hwaiter hpc => trivial
  | @latchPassed waiter desc hwaiter hpc hdesc hcompletions =>
      have hserved := hd.served w waiter hwaiter
      unfold Served at hserved
      rw [hpc] at hserved
      obtain ⟨desc', task, hdesc', htask⟩ := hserved
      cases hdesc.symm.trans hdesc'
      cases h with
      | latchPassed _ _ _ _ => exact ⟨desc, task, hdesc, htask, hcompletions⟩
  | @eraseTask waiter hwaiter hpc =>
      have hserved := hd.served w waiter hwaiter
      unfold Served at hserved
      rw [hpc] at hserved
      cases h with
      | @eraseTask _ waiter' hwaiter' _ =>
          cases hwaiter.symm.trans hwaiter'
          refine ⟨hserved, fun hmem => ?_⟩
          have hne := (List.mem_filter.mp hmem).2
          simp at hne
  | @takeTask waiter desc hwaiter hpc hdesc =>
      have hserved := hd.served w waiter hwaiter
      unfold Served at hserved
      rw [hpc] at hserved
      obtain ⟨⟨desc', task, hdesc', htask, hcompletions⟩, hleft⟩ := hserved
      cases hdesc.symm.trans hdesc'
      cases h with
      | @takeTask _ waiter' desc₀ hwaiter' _ hdesc₀ =>
          cases hwaiter.symm.trans hwaiter'
          cases hdesc.symm.trans hdesc₀
          rcases hd.recorded _ desc hdesc with ⟨hnone, -⟩ | ⟨output, hout, -, hstate, hrecorded⟩
          · exact absurd hnone hcompletions
          · refine ⟨hleft, { desc with task := none }, task, output, ?_, hout, hstate, htask,
              hrecorded task htask⟩
            exact (setDesc_descs ..).trans (if_pos rfl)

theorem Sound.step (hd : Sound d) (h : Step cfg d action d') (hguard : OneAtATime d action) :
    Sound d' where
  numbered := hd.numbered.step h
  recorded id desc' hdesc' := by
    cases hdesc : d.descs id with
    | none =>
        obtain ⟨-, _, _, _, _, _, _, -, rfl⟩ := queued_of_step h hdesc hdesc'
        exact .inl ⟨rfl, nofun⟩
    | some desc =>
        obtain ⟨desc₀, hdesc₀, hchanged⟩ := changed_of_step hd.numbered h hdesc
        cases hdesc'.symm.trans hdesc₀
        exact Recorded.changed (hd.recorded id desc hdesc) hchanged
  whole id desc' hmem hdesc' := by
    cases hdesc : d.descs id with
    | none =>
        obtain ⟨-, _, _, _, _, _, _, -, rfl⟩ := queued_of_step h hdesc hdesc'
        exact ⟨_, rfl⟩
    | some desc =>
        obtain ⟨desc₀, hdesc₀, hchanged⟩ := changed_of_step hd.numbered h hdesc
        cases hdesc'.symm.trans hdesc₀
        have hbefore : id ∈ d.tasks := by
          rcases tasks_before_step h hmem with hbefore | ⟨hnew, -⟩
          · exact hbefore
          · have := hd.numbered id desc hdesc
            omega
        obtain ⟨task, htask⟩ := hd.whole id desc hbefore hdesc
        rcases hchanged.task htask with htask' | ⟨w, waiter, -, hwaiter, hid, hpc⟩
        · exact htask'
        · have hserved := hd.served w waiter hwaiter
          unfold Served at hserved
          rw [hpc, hid] at hserved
          exact absurd hbefore hserved.2
  served w waiter' hw' := hd.served_step h hw'
  exclusive w w' waiter waiter' hw hw' hengaged hengaged' hid :=
    hd.exclusive_step h hguard hw hw' hengaged hengaged' hid

theorem sound_empty : Sound empty where
  numbered _ _ hdesc := nomatch hdesc
  recorded _ _ hdesc := nomatch hdesc
  whole _ _ hmem := nomatch hmem
  served _ _ hwaiter := nomatch hwaiter
  exclusive _ _ _ _ hwaiter := nomatch hwaiter

/-- In a run in which one call at a time is after a task, a call that returns success returns
the task object with the output that `PerformOneTask` recorded for its ID, the task is done,
and it is the only call for the ID that does so. -/
theorem success_collects
    (run : Run (Guarded (Step cfg) OneAtATime) empty actions d) :
    (∀ w waiter result, d.waiters w = some waiter → waiter.pc = .returned (.ok result) →
      ∃ desc task output, d.descs waiter.taskId = some desc ∧
        desc.fiber.completions = [output] ∧ desc.fiber.task.state = .done ∧
        result = some task ∧ task.output = some output) ∧
    ∀ w w' waiter waiter' result result', d.waiters w = some waiter →
      d.waiters w' = some waiter' → waiter.taskId = waiter'.taskId →
      waiter.pc = .returned (.ok result) → waiter'.pc = .returned (.ok result') → w = w' := by
  have hsound : Sound d :=
    run.invariant (fun _ _ _ hs hstep => hs.step hstep.1 hstep.2) sound_empty
  constructor
  · intro w waiter result hwaiter hpc
    have hserved := hsound.served w waiter hwaiter
    unfold Served at hserved
    rw [hpc] at hserved
    exact hserved.recorded
  · intro w w' waiter waiter' result result' hwaiter hwaiter' hid hpc hpc'
    exact hsound.exclusive w w' waiter waiter' hwaiter hwaiter' (by rw [hpc]; rfl)
      (by rw [hpc']; rfl) hid

/-! ## Two calls for one task -/

def plainConfig : DispatcherConfig := ⟨"", fun _ => some []⟩

def cachedOutput : DistributedTaskOutput := ⟨0, [1], [], [], []⟩

/-- A task that the cache answers. -/
def cached : DistributedTaskDispatcher :=
  (follow (next plainConfig)
    [.queueTask 0 7 "digest" .allow 100 0, .perform 1 (.readCache (some cachedOutput))]
    empty).getD empty

/-- The task that a call has returned, if it has; the pointer may be null. -/
def success (d : DistributedTaskDispatcher) (w : ℕ) : Option (Option DistributedTask) :=
  (d.waiters w).bind fun waiter =>
    match waiter.pc with
    | .returned (.ok result) => some result
    | _ => none

theorem success_eq_some {w : ℕ} {result : Option DistributedTask}
    (h : d.success w = some result) :
    ∃ waiter, d.waiters w = some waiter ∧ waiter.pc = .returned (.ok result) := by
  obtain ⟨waiter, hwaiter, h⟩ := Option.bind_eq_some_iff.mp h
  refine ⟨waiter, hwaiter, ?_⟩
  split at h
  · next hpc =>
      cases h
      exact hpc
  · cases h

/-- The steps that are no look-up meet the condition. -/
def looksUp : Action → Bool
  | .waitForTask _ _ _ => true
  | _ => false

theorem run_of_follow
    (h : follow (guardedNext (next cfg) fun _ action => looksUp action = false) actions d =
      some d') : Run (Guarded (Step cfg) OneAtATime) d actions d' := by
  refine (Run.of_follow (guarded_of_guardedNext step_of_next) h).mono ?_
  rintro d₀ action d₁ ⟨hstep, hguard⟩
  refine ⟨hstep, ?_⟩
  cases action with
  | waitForTask w taskType taskId => cases hguard
  | _ => trivial

/-- One call collects the task. -/
theorem success_once : ∃ (d : DistributedTaskDispatcher) (desc : Descriptor)
    (task : DistributedTask) (output : DistributedTaskOutput), d.success 0 = some (some task) ∧
      d.descs 1 = some desc ∧ desc.fiber.completions = [output] ∧
      desc.fiber.task.state = .done ∧ task.output = some output := by
  have hcached : Run (Guarded (Step plainConfig) OneAtATime) empty
      [.queueTask 0 7 "digest" .allow 100 0, .perform 1 (.readCache (some cachedOutput))]
      cached := run_of_follow rfl
  have hlooks : Guarded (Step plainConfig) OneAtATime cached (.waitForTask 0 0 1)
      (cached.setWaiter 0 ⟨0, 1, .onLatch⟩) :=
    ⟨step_of_next _ _ _ rfl, fun _ _ _ hnone => nomatch hnone⟩
  have hend : (follow (guardedNext (next plainConfig) fun _ action => looksUp action = false)
      [.perform 1 (.complete 5), .latchPassed 0, .eraseTask 0, .takeTask 0]
      (cached.setWaiter 0 ⟨0, 1, .onLatch⟩)).map
        (fun d => (d.success 0, (d.waiters 0).map (·.taskId))) =
      some (some (some ⟨7, some cachedOutput⟩), some 1) := by decide
  obtain ⟨d, hfollow, hreturned⟩ := Option.map_eq_some_iff.mp hend
  obtain ⟨hsuccess, htaskId⟩ := Prod.mk.inj hreturned
  obtain ⟨waiter, hwaiter, hpc⟩ := success_eq_some hsuccess
  have hrun := (hcached.append (.cons hlooks (.nil _))).append (run_of_follow hfollow)
  obtain ⟨desc, task, output, hdesc, hcompletions, hstate, hresult, houtput⟩ :=
    (success_collects hrun).1 0 waiter _ hwaiter hpc
  have hid : waiter.taskId = 1 := by
    rw [hwaiter] at htaskId
    exact Option.some.inj htaskId
  rw [hid] at hdesc
  exact ⟨d, desc, task, output, hsuccess.trans (congrArg some hresult), hdesc, hcompletions,
    hstate, houtput⟩

/-- Two calls find the descriptor before either returns, and both return success, the second
one with a null task. -/
theorem success_twice :
    ¬ ∀ (actions : List Action) (d : DistributedTaskDispatcher),
      Run (Step plainConfig) empty actions d →
      (∀ w result, d.success w = some result → result ≠ none) ∧
      ∀ w w' result result', d.success w = some result → d.success w' = some result' →
        (d.waiters w).map (·.taskId) = (d.waiters w').map (·.taskId) → w = w' := by
  intro h
  have hend : (follow (next plainConfig) [.waitForTask 0 0 1, .waitForTask 1 0 1,
      .perform 1 (.complete 5), .latchPassed 0, .latchPassed 1, .eraseTask 0, .takeTask 0,
      .eraseTask 1, .takeTask 1] cached).map (fun d => d.success 1) = some (some none) := by
    decide
  obtain ⟨d, hfollow, hnull⟩ := Option.map_eq_some_iff.mp hend
  have hcached : Run (Step plainConfig) empty
      [.queueTask 0 7 "digest" .allow 100 0, .perform 1 (.readCache (some cachedOutput))]
      cached := Run.of_follow step_of_next rfl
  exact (h _ d (hcached.append (Run.of_follow step_of_next hfollow))).1 1 none hnull rfl

end DistributedTaskDispatcher

end Yadcc.Daemon.Local
