/-
# The tasks of a delegate daemon

`DistributedTaskDispatcher` keeps a descriptor of every queued task in a map. One fiber
performs each task, four timers look at all descriptors in the map, and HTTP handlers wait
for the tasks. The descriptors are reference counted: a fiber or a waiting call keeps its
descriptor when the map has lost it, so they live on a heap here and the map is the list of
the tasks that it has. A step is what one thread does under one lock.
-/

import Yadcc.Daemon.Local.DistributedTaskDispatcher

namespace Yadcc.Daemon.Local

open Yadcc.Lib

/-- The task object of a submission: who asked for it, and what `OnCompletion` recorded. -/
structure DistributedTask where
  invokerPid : ℕ
  output : Option DistributedTaskOutput
  deriving DecidableEq

inductive Timer
  | onAbortTimer
  | onKeepAliveTimer
  | onKillOrphanTimer
  deriving DecidableEq

/-- A descriptor with the fiber that performs its task. `task` is null once it was moved
out. When the task left `Pending` and which timers have set its `aborted` flag is written
down as it happens. -/
structure Descriptor where
  taskType : ℕ
  task : Option DistributedTask
  fiber : Fiber
  leftPendingAt : Option TimePoint
  abortedBy : List Timer

inductive WaitStatus
  | timeout
  | notFound
  deriving DecidableEq

/-- Where a call of `WaitForDistributedTask` stands: on the latch of the descriptor it found,
behind the latch, behind the erasure of the task from the map, or returned. -/
inductive WaiterPc
  | onLatch
  | erasing
  | taking
  | returned (result : Except WaitStatus (Option DistributedTask))

structure Waiter where
  taskType : ℕ
  taskId : ℕ
  pc : WaiterPc

/-- A `KeepTaskAlive` request that `OnKeepAliveTimer` has sent. -/
structure KeepAlive where
  now : TimePoint
  taskIds : List ℕ
  taskGrantIds : List UInt64

/-- The dispatcher with the calls made on it. `tasks` are the keys of the map. -/
structure DistributedTaskDispatcher where
  nextId : ℕ
  descs : ℕ → Option Descriptor
  tasks : List ℕ
  waiters : ℕ → Option Waiter
  keepAlive : Option KeepAlive

namespace Event

/-- The reading of the clock in an event of a fiber, if it makes one. -/
def reading : Event → Option TimePoint
  | .referenceTask _ now => some now
  | .getGrant _ now => some now
  | .startTask _ now => some now
  | .complete now => some now
  | _ => none

end Event

namespace Descriptor

def abort (timer : Timer) (desc : Descriptor) : Descriptor :=
  { desc with
    fiber := desc.fiber.abort
    abortedBy := timer :: desc.abortedBy }

/-- The descriptor after a step of its fiber. At the end the fiber calls `OnCompletion`. -/
def perform (event : Event) (fiber : Fiber) (desc : Descriptor) : Descriptor :=
  { desc with
    fiber
    task :=
      match event with
      | .complete _ =>
          desc.task.map fun task => { task with output := some desc.fiber.task.output }
      | _ => desc.task
    leftPendingAt :=
      if desc.fiber.task.state = .pending ∧ fiber.task.state ≠ .pending then event.reading
      else desc.leftPendingAt }

/-- Whether the task is with a servant, or about to be. -/
def underway (desc : Descriptor) : Bool :=
  desc.fiber.task.state = .readyToFire ∨ desc.fiber.task.state = .dispatched

def minute : TimePoint := 60000000000

/-- Whether `OnKeepAliveTimer` gives the task up. -/
def overdue (now : TimePoint) (desc : Descriptor) : Bool :=
  desc.underway ∧ desc.fiber.task.aborted = false ∧
    minute < now - desc.fiber.task.lastKeepAliveAt

/-- Whether it keeps the task alive. -/
def renewable (now : TimePoint) (desc : Descriptor) : Bool :=
  desc.underway ∧ desc.fiber.task.aborted = false ∧
    ¬ minute < now - desc.fiber.task.lastKeepAliveAt

/-- Whether `OnCleanupTimer` drops the task. -/
def dropped (now : TimePoint) (desc : Descriptor) : Bool :=
  desc.fiber.task.state = .done ∧
    (desc.fiber.task.aborted = true ∨ desc.fiber.task.completedAt + minute < now)

def renew (now : TimePoint) (desc : Descriptor) : Descriptor :=
  { desc with fiber := { desc.fiber with
      task := { desc.fiber.task with lastKeepAliveAt := now } } }

end Descriptor

namespace DistributedTaskDispatcher

def empty : DistributedTaskDispatcher where
  nextId := 0
  descs _ := none
  tasks := []
  waiters _ := none
  keepAlive := none

/-- Change the descriptors of the tasks in the map. -/
def mapTasks (f : ℕ → Descriptor → Descriptor) (d : DistributedTaskDispatcher) :
    DistributedTaskDispatcher :=
  { d with descs := fun id => if id ∈ d.tasks then (d.descs id).map (f id) else d.descs id }

def setDesc (id : ℕ) (desc : Descriptor) (d : DistributedTaskDispatcher) :
    DistributedTaskDispatcher :=
  { d with descs := Function.update d.descs id (some desc) }

def setWaiter (id : ℕ) (waiter : Waiter) (d : DistributedTaskDispatcher) :
    DistributedTaskDispatcher :=
  { d with waiters := Function.update d.waiters id (some waiter) }

/-- The tasks in the map whose descriptor satisfies `p`. -/
def tasksWith (p : Descriptor → Bool) (d : DistributedTaskDispatcher) : List ℕ :=
  d.tasks.filter fun id => (d.descs id).any p

/-! ## Operations -/

def queueDistributedTask (taskType invokerPid : ℕ) (digest : String)
    (cacheSetting : CacheControl) (startDeadline now : TimePoint)
    (d : DistributedTaskDispatcher) : DistributedTaskDispatcher :=
  let taskId := d.nextId + 1
  let desc : Descriptor :=
    { taskType
      task := some ⟨invokerPid, none⟩
      fiber := .queued taskId digest cacheSetting startDeadline now
      leftPendingAt := none
      abortedBy := [] }
  { d.setDesc taskId desc with
    nextId := taskId
    tasks := d.tasks ++ [taskId] }

/-- The look-up of `WaitForDistributedTask`. -/
def lookUp (taskType taskId : ℕ) (d : DistributedTaskDispatcher) : WaiterPc :=
  if taskId ∈ d.tasks then
    match d.descs taskId with
    | none => .returned (.error .notFound)
    | some desc =>
        if desc.taskType ≠ taskType then .returned (.error .notFound) else .onLatch
  else .returned (.error .notFound)

/-- On success the task is forgotten, if it was not yet. -/
def eraseTask (taskId : ℕ) (d : DistributedTaskDispatcher) : DistributedTaskDispatcher :=
  { d with tasks := d.tasks.filter (· ≠ taskId) }

def onAbortTimer (now : TimePoint) (d : DistributedTaskDispatcher) : DistributedTaskDispatcher :=
  d.mapTasks fun _ desc =>
    if desc.fiber.task.startDeadline < now then desc.abort .onAbortTimer else desc

/-- `OnKeepAliveTimer` up to the call of the scheduler. -/
def onKeepAliveTimer (now : TimePoint) (d : DistributedTaskDispatcher) :
    DistributedTaskDispatcher :=
  let taskIds := d.tasksWith (·.renewable now)
  let taskGrantIds := taskIds.map fun id =>
    ((d.descs id).map (·.fiber.task.taskGrantId)).getD 0
  { d.mapTasks fun _ desc => if desc.overdue now then desc.abort .onKeepAliveTimer else desc with
    keepAlive := if taskIds = [] then none else some ⟨now, taskIds, taskGrantIds⟩ }

/-- The rest of it, with the statuses of the response if the call succeeded. -/
def keptAlive (request : KeepAlive) (statuses : Option (List Bool))
    (d : DistributedTaskDispatcher) : DistributedTaskDispatcher :=
  match statuses with
  | none => { d with keepAlive := none }
  | some statuses =>
      if statuses.length ≠ request.taskGrantIds.length then { d with keepAlive := none }
      else
        { d.mapTasks fun id desc =>
            if (id, true) ∈ request.taskIds.zip statuses then desc.renew request.now else desc with
          keepAlive := none }

/-- A task in the map has its task object. -/
def onKillOrphanTimer (isProcessAlive : ℕ → Bool) (d : DistributedTaskDispatcher) :
    DistributedTaskDispatcher :=
  d.mapTasks fun _ desc =>
    if desc.fiber.task.aborted = false ∧
        (desc.task.map fun task => isProcessAlive task.invokerPid) = some false then
      desc.abort .onKillOrphanTimer
    else desc

def onCleanupTimer (now : TimePoint) (d : DistributedTaskDispatcher) :
    DistributedTaskDispatcher :=
  { d with tasks := d.tasks.filter fun id => !(d.descs id).any (·.dropped now) }

/-! ## Steps -/

inductive Action
  | queueTask (taskType invokerPid : ℕ) (digest : String) (cacheSetting : CacheControl)
      (startDeadline now : TimePoint)
  | perform (id : ℕ) (event : Event)
  | waitForTask (w : ℕ) (taskType taskId : ℕ)
  | latchTimeout (w : ℕ)
  | latchPassed (w : ℕ)
  | eraseTask (w : ℕ)
  | takeTask (w : ℕ)
  | onAbortTimer (now : TimePoint)
  | onKeepAliveTimer (now : TimePoint)
  | keptAlive (statuses : Option (List Bool))
  | onKillOrphanTimer (isProcessAlive : ℕ → Bool)
  | onCleanupTimer (now : TimePoint)

inductive Step (cfg : DispatcherConfig) (d : DistributedTaskDispatcher) :
    Action → DistributedTaskDispatcher → Prop
  | queueTask (taskType invokerPid : ℕ) (digest : String) (cacheSetting : CacheControl)
      (startDeadline now : TimePoint) :
      Step cfg d (.queueTask taskType invokerPid digest cacheSetting startDeadline now)
        (d.queueDistributedTask taskType invokerPid digest cacheSetting startDeadline now)
  | perform {id : ℕ} {desc : Descriptor} {event : Event} {fiber : Fiber} :
      d.descs id = some desc → event ≠ .abort → desc.fiber.Step cfg event fiber →
      Step cfg d (.perform id event) (d.setDesc id (desc.perform event fiber))
  | waitForTask {w : ℕ} (taskType taskId : ℕ) : d.waiters w = none →
      Step cfg d (.waitForTask w taskType taskId)
        (d.setWaiter w ⟨taskType, taskId, d.lookUp taskType taskId⟩)
  | latchTimeout {w : ℕ} {waiter : Waiter} : d.waiters w = some waiter →
      waiter.pc = .onLatch →
      Step cfg d (.latchTimeout w)
        (d.setWaiter w { waiter with pc := .returned (.error .timeout) })
  -- The latch is counted down with the call of `OnCompletion`.
  | latchPassed {w : ℕ} {waiter : Waiter} {desc : Descriptor} : d.waiters w = some waiter →
      waiter.pc = .onLatch → d.descs waiter.taskId = some desc → desc.fiber.completions ≠ [] →
      Step cfg d (.latchPassed w) (d.setWaiter w { waiter with pc := .erasing })
  | eraseTask {w : ℕ} {waiter : Waiter} : d.waiters w = some waiter → waiter.pc = .erasing →
      Step cfg d (.eraseTask w)
        ((d.eraseTask waiter.taskId).setWaiter w { waiter with pc := .taking })
  | takeTask {w : ℕ} {waiter : Waiter} {desc : Descriptor} : d.waiters w = some waiter →
      waiter.pc = .taking → d.descs waiter.taskId = some desc →
      Step cfg d (.takeTask w)
        ((d.setDesc waiter.taskId { desc with task := none }).setWaiter w
          { waiter with pc := .returned (.ok desc.task) })
  | onAbortTimer (now : TimePoint) : Step cfg d (.onAbortTimer now) (d.onAbortTimer now)
  -- The timer does not run its callback again before it has returned.
  | onKeepAliveTimer (now : TimePoint) : d.keepAlive = none →
      Step cfg d (.onKeepAliveTimer now) (d.onKeepAliveTimer now)
  | keptAlive {request : KeepAlive} (statuses : Option (List Bool)) :
      d.keepAlive = some request → Step cfg d (.keptAlive statuses) (d.keptAlive request statuses)
  | onKillOrphanTimer (isProcessAlive : ℕ → Bool) :
      Step cfg d (.onKillOrphanTimer isProcessAlive) (d.onKillOrphanTimer isProcessAlive)
  | onCleanupTimer (now : TimePoint) : Step cfg d (.onCleanupTimer now) (d.onCleanupTimer now)

/-- The step of an action as a partial function. -/
def next (cfg : DispatcherConfig) (d : DistributedTaskDispatcher) :
    Action → Option DistributedTaskDispatcher
  | .queueTask taskType invokerPid digest cacheSetting startDeadline now =>
      some (d.queueDistributedTask taskType invokerPid digest cacheSetting startDeadline now)
  | .perform id event =>
      (d.descs id).bind fun desc =>
        if event = .abort then none
        else (desc.fiber.next cfg event).map fun fiber => d.setDesc id (desc.perform event fiber)
  | .waitForTask w taskType taskId =>
      match d.waiters w with
      | none => some (d.setWaiter w ⟨taskType, taskId, d.lookUp taskType taskId⟩)
      | some _ => none
  | .latchTimeout w =>
      (d.waiters w).bind fun waiter =>
        match waiter.pc with
        | .onLatch => some (d.setWaiter w { waiter with pc := .returned (.error .timeout) })
        | _ => none
  | .latchPassed w =>
      (d.waiters w).bind fun waiter =>
        (d.descs waiter.taskId).bind fun desc =>
          match waiter.pc, desc.fiber.completions with
          | .onLatch, _ :: _ => some (d.setWaiter w { waiter with pc := .erasing })
          | _, _ => none
  | .eraseTask w =>
      (d.waiters w).bind fun waiter =>
        match waiter.pc with
        | .erasing =>
            some ((d.eraseTask waiter.taskId).setWaiter w { waiter with pc := .taking })
        | _ => none
  | .takeTask w =>
      (d.waiters w).bind fun waiter =>
        (d.descs waiter.taskId).bind fun desc =>
          match waiter.pc with
          | .taking =>
              some ((d.setDesc waiter.taskId { desc with task := none }).setWaiter w
                { waiter with pc := .returned (.ok desc.task) })
          | _ => none
  | .onAbortTimer now => some (d.onAbortTimer now)
  | .onKeepAliveTimer now =>
      match d.keepAlive with
      | none => some (d.onKeepAliveTimer now)
      | some _ => none
  | .keptAlive statuses => d.keepAlive.map fun request => d.keptAlive request statuses
  | .onKillOrphanTimer isProcessAlive => some (d.onKillOrphanTimer isProcessAlive)
  | .onCleanupTimer now => some (d.onCleanupTimer now)

variable {cfg : DispatcherConfig} {d d' : DistributedTaskDispatcher} {action : Action}

theorem step_of_next (d : DistributedTaskDispatcher) (action : Action)
    (d' : DistributedTaskDispatcher) (h : next cfg d action = some d') : Step cfg d action d' := by
  cases action with
  | queueTask taskType invokerPid digest cacheSetting startDeadline now =>
      cases h
      exact .queueTask ..
  | perform id event =>
      obtain ⟨desc, hdesc, h⟩ := Option.bind_eq_some_iff.mp h
      split at h
      · cases h
      · next hevent =>
          obtain ⟨fiber, hfiber, rfl⟩ := Option.map_eq_some_iff.mp h
          exact .perform hdesc hevent hfiber
  | waitForTask w taskType taskId =>
      simp only [next] at h
      split at h
      · next hnone =>
          cases h
          exact .waitForTask taskType taskId hnone
      · cases h
  | latchTimeout w =>
      obtain ⟨waiter, hwaiter, h⟩ := Option.bind_eq_some_iff.mp h
      split at h
      · next hpc =>
          cases h
          exact .latchTimeout hwaiter hpc
      · cases h
  | latchPassed w =>
      obtain ⟨waiter, hwaiter, h⟩ := Option.bind_eq_some_iff.mp h
      obtain ⟨desc, hdesc, h⟩ := Option.bind_eq_some_iff.mp h
      split at h
      · next output rest hpc hcompletions =>
          cases h
          refine .latchPassed hwaiter hpc hdesc ?_
          rw [hcompletions]
          exact List.cons_ne_nil _ _
      · cases h
  | eraseTask w =>
      obtain ⟨waiter, hwaiter, h⟩ := Option.bind_eq_some_iff.mp h
      split at h
      · next hpc =>
          cases h
          exact .eraseTask hwaiter hpc
      · cases h
  | takeTask w =>
      obtain ⟨waiter, hwaiter, h⟩ := Option.bind_eq_some_iff.mp h
      obtain ⟨desc, hdesc, h⟩ := Option.bind_eq_some_iff.mp h
      split at h
      · next hpc =>
          cases h
          exact .takeTask hwaiter hpc hdesc
      · cases h
  | onAbortTimer now =>
      cases h
      exact .onAbortTimer now
  | onKeepAliveTimer now =>
      simp only [next] at h
      split at h
      · next hnone =>
          cases h
          exact .onKeepAliveTimer now hnone
      · cases h
  | keptAlive statuses =>
      obtain ⟨request, hrequest, rfl⟩ := Option.map_eq_some_iff.mp h
      exact .keptAlive statuses hrequest
  | onKillOrphanTimer isProcessAlive =>
      cases h
      exact .onKillOrphanTimer isProcessAlive
  | onCleanupTimer now =>
      cases h
      exact .onCleanupTimer now

/-! ## What a step does to one task -/

/-- All that a step can do to a descriptor. -/
inductive Changed (cfg : DispatcherConfig) (d : DistributedTaskDispatcher) (id : ℕ)
    (desc : Descriptor) : Action → Descriptor → Prop
  | same {action : Action} : Changed cfg d id desc action desc
  | performed {event : Event} {fiber : Fiber} : event ≠ .abort →
      desc.fiber.Step cfg event fiber →
      Changed cfg d id desc (.perform id event) (desc.perform event fiber)
  | taken {w : ℕ} {waiter : Waiter} : d.waiters w = some waiter → waiter.taskId = id →
      waiter.pc = .taking → Changed cfg d id desc (.takeTask w) { desc with task := none }
  | late {now : TimePoint} : id ∈ d.tasks → desc.fiber.task.startDeadline < now →
      Changed cfg d id desc (.onAbortTimer now) (desc.abort .onAbortTimer)
  | overdue {now : TimePoint} : id ∈ d.tasks → desc.overdue now = true →
      Changed cfg d id desc (.onKeepAliveTimer now) (desc.abort .onKeepAliveTimer)
  | renewed {request : KeepAlive} {statuses : List Bool} : id ∈ d.tasks →
      d.keepAlive = some request → (id, true) ∈ request.taskIds.zip statuses →
      Changed cfg d id desc (.keptAlive (some statuses)) (desc.renew request.now)
  | orphaned {isProcessAlive : ℕ → Bool} {task : DistributedTask} : id ∈ d.tasks →
      desc.fiber.task.aborted = false → desc.task = some task →
      isProcessAlive task.invokerPid = false →
      Changed cfg d id desc (.onKillOrphanTimer isProcessAlive) (desc.abort .onKillOrphanTimer)

theorem setDesc_descs (id id' : ℕ) (desc : Descriptor) :
    (d.setDesc id desc).descs id' = if id' = id then some desc else d.descs id' := by
  show Function.update d.descs id (some desc) id' = _
  rw [Function.update_apply]

theorem setWaiter_waiters (w w' : ℕ) (waiter : Waiter) :
    (d.setWaiter w waiter).waiters w' = if w' = w then some waiter else d.waiters w' := by
  show Function.update d.waiters w (some waiter) w' = _
  rw [Function.update_apply]

/-- A sweep over the map changes the descriptors of its tasks. -/
theorem mapTasks_descs {f : ℕ → Descriptor → Descriptor} {id : ℕ} {desc : Descriptor}
    (hdesc : d.descs id = some desc) :
    (d.mapTasks f).descs id = some (if id ∈ d.tasks then f id desc else desc) := by
  show (if id ∈ d.tasks then (d.descs id).map (f id) else d.descs id) = _
  rw [hdesc]
  split
  · rfl
  · rfl

theorem mapTasks_none {f : ℕ → Descriptor → Descriptor} {id : ℕ} (hnone : d.descs id = none) :
    (d.mapTasks f).descs id = none := by
  show (if id ∈ d.tasks then (d.descs id).map (f id) else d.descs id) = _
  rw [hnone]
  split
  · rfl
  · rfl

theorem onKeepAliveTimer_descs (now : TimePoint) : (d.onKeepAliveTimer now).descs =
    (d.mapTasks fun _ desc =>
      if desc.overdue now then desc.abort .onKeepAliveTimer else desc).descs :=
  rfl

/-- The statuses of a response renew the tasks of the request, or nothing changes. -/
theorem keptAlive_descs (request : KeepAlive) (statuses : Option (List Bool)) :
    (d.keptAlive request statuses).descs = d.descs ∨ ∃ statuses', statuses = some statuses' ∧
      (d.keptAlive request statuses).descs = (d.mapTasks fun id desc =>
        if (id, true) ∈ request.taskIds.zip statuses' then desc.renew request.now
        else desc).descs := by
  cases statuses with
  | none => exact .inl rfl
  | some statuses =>
      unfold DistributedTaskDispatcher.keptAlive
      dsimp only
      split
      · exact .inl rfl
      · exact .inr ⟨statuses, rfl, rfl⟩

/-- The descriptors have the numbers that were given out. -/
def Numbered (d : DistributedTaskDispatcher) : Prop :=
  ∀ id desc, d.descs id = some desc → id ≤ d.nextId

theorem changed_of_step (hnumbered : Numbered d) (h : Step cfg d action d') {id : ℕ}
    {desc : Descriptor} (hdesc : d.descs id = some desc) :
    ∃ desc', d'.descs id = some desc' ∧ Changed cfg d id desc action desc' := by
  cases h with
  | queueTask taskType invokerPid digest cacheSetting startDeadline now =>
      have hne : id ≠ d.nextId + 1 := by
        have := hnumbered id desc hdesc
        omega
      exact ⟨desc, (setDesc_descs ..).trans ((if_neg hne).trans hdesc), .same⟩
  | @perform id' desc' event fiber hdesc' hevent hfiber =>
      rw [setDesc_descs]
      split
      · next heq =>
          subst heq
          cases hdesc.symm.trans hdesc'
          exact ⟨_, rfl, .performed hevent hfiber⟩
      · exact ⟨desc, hdesc, .same⟩
  | waitForTask taskType taskId hnone => exact ⟨desc, hdesc, .same⟩
  | latchTimeout hwaiter hpc => exact ⟨desc, hdesc, .same⟩
  | latchPassed hwaiter hpc hfound hcompletions => exact ⟨desc, hdesc, .same⟩
  | eraseTask hwaiter hpc => exact ⟨desc, hdesc, .same⟩
  | @takeTask w waiter desc' hwaiter hpc hdesc' =>
      show ∃ desc'', (d.setDesc waiter.taskId { desc' with task := none }).descs id = _ ∧ _
      rw [setDesc_descs]
      split
      · next heq =>
          subst heq
          cases hdesc.symm.trans hdesc'
          exact ⟨_, rfl, .taken hwaiter rfl hpc⟩
      · exact ⟨desc, hdesc, .same⟩
  | onAbortTimer now =>
      refine ⟨_, mapTasks_descs hdesc, ?_⟩
      split_ifs with hmem hlate
      · exact .late hmem hlate
      · exact .same
      · exact .same
  | onKeepAliveTimer now hnone =>
      rw [onKeepAliveTimer_descs]
      refine ⟨_, mapTasks_descs hdesc, ?_⟩
      split_ifs with hmem hoverdue
      · exact .overdue hmem hoverdue
      · exact .same
      · exact .same
  | @keptAlive request statuses hrequest =>
      rcases keptAlive_descs (d := d) request statuses with hsame | ⟨statuses, rfl, hrenewed⟩
      · rw [hsame]
        exact ⟨desc, hdesc, .same⟩
      · rw [hrenewed]
        refine ⟨_, mapTasks_descs hdesc, ?_⟩
        split_ifs with hmem hkept
        · exact .renewed hmem hrequest hkept
        · exact .same
        · exact .same
  | onKillOrphanTimer isProcessAlive =>
      refine ⟨_, mapTasks_descs hdesc, ?_⟩
      split_ifs with hmem horphan
      · obtain ⟨haborted, horphan⟩ := horphan
        obtain ⟨task, htask, hdead⟩ := Option.map_eq_some_iff.mp horphan
        exact .orphaned hmem haborted htask hdead
      · exact .same
      · exact .same
  | onCleanupTimer now => exact ⟨desc, hdesc, .same⟩

/-- A new descriptor is that of the queued task. -/
theorem queued_of_step (h : Step cfg d action d') {id : ℕ} {desc : Descriptor}
    (hnone : d.descs id = none) (hdesc : d'.descs id = some desc) :
    id = d.nextId + 1 ∧ ∃ taskType invokerPid digest cacheSetting startDeadline now,
      action = .queueTask taskType invokerPid digest cacheSetting startDeadline now ∧
      desc = ⟨taskType, some ⟨invokerPid, none⟩,
        .queued id digest cacheSetting startDeadline now, none, []⟩ := by
  have hold : ∀ {d₀ : DistributedTaskDispatcher}, d₀.descs id = none →
      d₀.descs id = some desc → False := fun hnone hsome => by rw [hnone] at hsome; cases hsome
  cases h with
  | queueTask taskType invokerPid digest cacheSetting startDeadline now =>
      have hdesc : (d.setDesc (d.nextId + 1) _).descs id = some desc := hdesc
      rw [setDesc_descs] at hdesc
      split at hdesc
      · next heq =>
          cases hdesc
          subst heq
          exact ⟨rfl, _, _, _, _, _, _, rfl, rfl⟩
      · exact (hold hnone hdesc).elim
  | @perform id' desc' event fiber hdesc' hevent hfiber =>
      rw [setDesc_descs] at hdesc
      split at hdesc
      · next heq =>
          rw [heq, hdesc'] at hnone
          cases hnone
      · exact (hold hnone hdesc).elim
  | waitForTask taskType taskId _ => exact (hold hnone hdesc).elim
  | latchTimeout hwaiter hpc => exact (hold hnone hdesc).elim
  | latchPassed hwaiter hpc hfound hcompletions => exact (hold hnone hdesc).elim
  | eraseTask hwaiter hpc => exact (hold hnone hdesc).elim
  | @takeTask w waiter desc' hwaiter hpc hdesc' =>
      have hdesc : (d.setDesc waiter.taskId { desc' with task := none }).descs id = some desc :=
        hdesc
      rw [setDesc_descs] at hdesc
      split at hdesc
      · next heq =>
          rw [heq, hdesc'] at hnone
          cases hnone
      · exact (hold hnone hdesc).elim
  | onAbortTimer now => exact (hold (mapTasks_none hnone) hdesc).elim
  | onKeepAliveTimer now _ =>
      rw [onKeepAliveTimer_descs] at hdesc
      exact (hold (mapTasks_none hnone) hdesc).elim
  | @keptAlive request statuses hrequest =>
      rcases keptAlive_descs (d := d) request statuses with hsame | ⟨statuses, rfl, hrenewed⟩
      · rw [hsame] at hdesc
        exact (hold hnone hdesc).elim
      · rw [hrenewed] at hdesc
        exact (hold (mapTasks_none hnone) hdesc).elim
  | onKillOrphanTimer isProcessAlive => exact (hold (mapTasks_none hnone) hdesc).elim
  | onCleanupTimer now => exact (hold hnone hdesc).elim

theorem nextId_of_step (h : Step cfg d action d') : d'.nextId = d.nextId ∨
    (d'.nextId = d.nextId + 1 ∧ ∃ taskType invokerPid digest cacheSetting startDeadline now,
      action = .queueTask taskType invokerPid digest cacheSetting startDeadline now) := by
  cases h with
  | queueTask => exact .inr ⟨rfl, _, _, _, _, _, _, rfl⟩
  | perform hdesc hevent hfiber => exact .inl rfl
  | waitForTask taskType taskId hnone => exact .inl rfl
  | latchTimeout hwaiter hpc => exact .inl rfl
  | latchPassed hwaiter hpc hdesc hcompletions => exact .inl rfl
  | eraseTask hwaiter hpc => exact .inl rfl
  | takeTask hwaiter hpc hdesc => exact .inl rfl
  | onAbortTimer now => exact .inl rfl
  | onKeepAliveTimer now hnone => exact .inl rfl
  | @keptAlive request statuses hrequest =>
      left
      unfold DistributedTaskDispatcher.keptAlive
      split
      · rfl
      · split
        · rfl
        · rfl
  | onKillOrphanTimer isProcessAlive => exact .inl rfl
  | onCleanupTimer now => exact .inl rfl

theorem Numbered.step (hnumbered : Numbered d) (h : Step cfg d action d') : Numbered d' := by
  intro id desc' hdesc'
  cases hdesc : d.descs id with
  | none =>
      obtain ⟨rfl, _, _, _, _, _, _, rfl, -⟩ := queued_of_step h hdesc hdesc'
      cases h
      exact le_rfl
  | some desc =>
      have hle := hnumbered id desc hdesc
      rcases nextId_of_step h with hsame | ⟨hnext, -⟩
      · rw [hsame]
        exact hle
      · rw [hnext]
        exact hle.trans (Nat.le_succ _)

theorem keptAlive_tasks (request : KeepAlive) (statuses : Option (List Bool)) :
    (d.keptAlive request statuses).tasks = d.tasks := by
  unfold DistributedTaskDispatcher.keptAlive
  split
  · rfl
  · split
    · rfl
    · rfl

theorem keptAlive_waiters (request : KeepAlive) (statuses : Option (List Bool)) :
    (d.keptAlive request statuses).waiters = d.waiters := by
  unfold DistributedTaskDispatcher.keptAlive
  split
  · rfl
  · split
    · rfl
    · rfl

/-- A task leaves the map when a call that has waited for it erases it, or when it is
dropped. -/
theorem tasks_of_step (h : Step cfg d action d') {id : ℕ} (hmem : id ∈ d.tasks) :
    id ∈ d'.tasks ∨
    (∃ w waiter, action = .eraseTask w ∧ d.waiters w = some waiter ∧ waiter.pc = .erasing ∧
      waiter.taskId = id) ∨
    ∃ now desc, action = .onCleanupTimer now ∧ d.descs id = some desc ∧
      desc.dropped now = true := by
  cases h with
  | queueTask => exact .inl (List.mem_append_left _ hmem)
  | perform hdesc hevent hfiber => exact .inl hmem
  | waitForTask taskType taskId hnone => exact .inl hmem
  | latchTimeout hwaiter hpc => exact .inl hmem
  | latchPassed hwaiter hpc hdesc hcompletions => exact .inl hmem
  | @eraseTask w waiter hwaiter hpc =>
      by_cases hid : waiter.taskId = id
      · exact .inr (.inl ⟨w, waiter, rfl, hwaiter, hpc, hid⟩)
      · exact .inl (List.mem_filter.mpr ⟨hmem, decide_eq_true fun heq => hid heq.symm⟩)
  | takeTask hwaiter hpc hdesc => exact .inl hmem
  | onAbortTimer now => exact .inl hmem
  | onKeepAliveTimer now hnone => exact .inl hmem
  | keptAlive statuses hrequest => exact .inl ((keptAlive_tasks ..).symm ▸ hmem)
  | onKillOrphanTimer isProcessAlive => exact .inl hmem
  | onCleanupTimer now =>
      cases hdropped : (d.descs id).any (·.dropped now) with
      | true =>
          cases hdesc : d.descs id with
          | none =>
              rw [hdesc] at hdropped
              cases hdropped
          | some desc =>
              rw [hdesc] at hdropped
              exact .inr (.inr ⟨now, desc, rfl, rfl, hdropped⟩)
      | false => exact .inl (List.mem_filter.mpr ⟨hmem, by rw [hdropped]; rfl⟩)

/-- A task enters the map when it is queued. -/
theorem tasks_before_step (h : Step cfg d action d') {id : ℕ} (hmem : id ∈ d'.tasks) :
    id ∈ d.tasks ∨ id = d.nextId + 1 ∧
      ∃ taskType invokerPid digest cacheSetting startDeadline now,
        action = .queueTask taskType invokerPid digest cacheSetting startDeadline now := by
  cases h with
  | queueTask =>
      rcases List.mem_append.mp hmem with hmem | hmem
      · exact .inl hmem
      · exact .inr ⟨List.mem_singleton.mp hmem, _, _, _, _, _, _, rfl⟩
  | perform hdesc hevent hfiber => exact .inl hmem
  | waitForTask taskType taskId hnone => exact .inl hmem
  | latchTimeout hwaiter hpc => exact .inl hmem
  | latchPassed hwaiter hpc hdesc hcompletions => exact .inl hmem
  | eraseTask hwaiter hpc => exact .inl (List.mem_of_mem_filter hmem)
  | takeTask hwaiter hpc hdesc => exact .inl hmem
  | onAbortTimer now => exact .inl hmem
  | onKeepAliveTimer now hnone => exact .inl hmem
  | keptAlive statuses hrequest => exact .inl (keptAlive_tasks .. ▸ hmem)
  | onKillOrphanTimer isProcessAlive => exact .inl hmem
  | onCleanupTimer now => exact .inl (List.mem_of_mem_filter hmem)

/-- All that a step can do to a call. -/
inductive Moved (d : DistributedTaskDispatcher) (w : ℕ) : Action → Waiter → Prop
  | same {action : Action} {waiter : Waiter} : d.waiters w = some waiter →
      Moved d w action waiter
  | waitForTask (taskType taskId : ℕ) : d.waiters w = none →
      Moved d w (.waitForTask w taskType taskId) ⟨taskType, taskId, d.lookUp taskType taskId⟩
  | latchTimeout {waiter : Waiter} : d.waiters w = some waiter → waiter.pc = .onLatch →
      Moved d w (.latchTimeout w) { waiter with pc := .returned (.error .timeout) }
  | latchPassed {waiter : Waiter} {desc : Descriptor} : d.waiters w = some waiter →
      waiter.pc = .onLatch → d.descs waiter.taskId = some desc → desc.fiber.completions ≠ [] →
      Moved d w (.latchPassed w) { waiter with pc := .erasing }
  | eraseTask {waiter : Waiter} : d.waiters w = some waiter → waiter.pc = .erasing →
      Moved d w (.eraseTask w) { waiter with pc := .taking }
  | takeTask {waiter : Waiter} {desc : Descriptor} : d.waiters w = some waiter →
      waiter.pc = .taking → d.descs waiter.taskId = some desc →
      Moved d w (.takeTask w) { waiter with pc := .returned (.ok desc.task) }

theorem moved_of_step (h : Step cfg d action d') {w : ℕ} {waiter' : Waiter}
    (hw' : d'.waiters w = some waiter') : Moved d w action waiter' := by
  cases h with
  | queueTask => exact .same hw'
  | perform hdesc hevent hfiber => exact .same hw'
  | @waitForTask w₀ taskType taskId hnone =>
      rw [setWaiter_waiters] at hw'
      split at hw'
      · next heq =>
          subst heq
          cases hw'
          exact .waitForTask taskType taskId hnone
      · exact .same hw'
  | @latchTimeout w₀ waiter hwaiter hpc =>
      rw [setWaiter_waiters] at hw'
      split at hw'
      · next heq =>
          subst heq
          cases hw'
          exact .latchTimeout hwaiter hpc
      · exact .same hw'
  | @latchPassed w₀ waiter desc hwaiter hpc hdesc hcompletions =>
      rw [setWaiter_waiters] at hw'
      split at hw'
      · next heq =>
          subst heq
          cases hw'
          exact .latchPassed hwaiter hpc hdesc hcompletions
      · exact .same hw'
  | @eraseTask w₀ waiter hwaiter hpc =>
      rw [setWaiter_waiters] at hw'
      split at hw'
      · next heq =>
          subst heq
          cases hw'
          exact .eraseTask hwaiter hpc
      · exact .same hw'
  | @takeTask w₀ waiter desc hwaiter hpc hdesc =>
      rw [setWaiter_waiters] at hw'
      split at hw'
      · next heq =>
          subst heq
          cases hw'
          exact .takeTask hwaiter hpc hdesc
      · exact .same hw'
  | onAbortTimer now => exact .same hw'
  | onKeepAliveTimer now hnone => exact .same hw'
  | keptAlive statuses hrequest => exact .same (keptAlive_waiters (d := d) .. ▸ hw')
  | onKillOrphanTimer isProcessAlive => exact .same hw'
  | onCleanupTimer now => exact .same hw'

end DistributedTaskDispatcher

end Yadcc.Daemon.Local
