/-
# A task outlives the clients that leave it

A task is shared by its reference count on the servant, but it lives under one grant of the
scheduler, which belongs to the client that started it. When that client leaves, the grant
goes, and the next heartbeat is answered with it. This module states what keeps the child
of a task alive for those that are still attached to it: above all that the scheduler takes
no grant back as long as a client is attached to the running task.
-/

import Yadcc.Daemon.Cloud.Signals
import Yadcc.Daemon.ReferenceCounts
import Yadcc.Scheduler.Grants

namespace Yadcc.Daemon

open Yadcc.Lib

namespace SharedServant

variable {site : Site} {s t : SharedServant}

/-! ## Who needs a task -/

/-- The tasks that the fibers have to do with in some respect. -/
def tasksOf (part : Local.Fiber → Option Cloud.TaskId) (s : SharedServant) : List Cloud.TaskId :=
  s.fibers.entries.filterMap fun entry => part entry.2

/-- The tasks that some fiber holds. -/
def heldTasks (site : Site) (s : SharedServant) : List Cloud.TaskId := tasksOf (holdsAt site) s

/-- The task that a fiber holds and did not start. -/
def attachedAt (site : Site) (f : Local.Fiber) : Option Cloud.TaskId :=
  match f.pc.held with
  | some (.referenced _) => holdsAt site f
  | _ => none

/-- The tasks that some fiber is attached to. -/
def attachedTasks (site : Site) (s : SharedServant) : List Cloud.TaskId :=
  tasksOf (attachedAt site) s

/-- A task does not run, or runs under a live grant. -/
def underGrant (site : Site) (s : SharedServant) (taskId : Cloud.TaskId) : Bool :=
  (s.engine.runningGrant taskId).all fun grantId => s.scheduler.liveAt site.location grantId

section tasksOf

variable {part : Local.Fiber → Option Cloud.TaskId} {taskId : Cloud.TaskId} {fiber : FiberId}

theorem mem_tasksOf : taskId ∈ tasksOf part s ↔
    ∃ fiber f, s.fibers.lookup fiber = some f ∧ part f = some taskId := by
  unfold tasksOf
  rw [List.mem_filterMap]
  constructor
  · rintro ⟨⟨fiber, f⟩, hentry, hpart⟩
    exact ⟨fiber, f, AList.lookup_eq_some_iff.mpr hentry, hpart⟩
  · rintro ⟨fiber, f, hfound, hpart⟩
    exact ⟨⟨fiber, f⟩, AList.lookup_eq_some_iff.mp hfound, hpart⟩

theorem tasksOf_of_insert {f' : Local.Fiber} (hfibers : t.fibers = s.fibers.insert fiber f')
    (h : taskId ∈ tasksOf part t) : part f' = some taskId ∨ taskId ∈ tasksOf part s := by
  obtain ⟨other, f, hfound, hpart⟩ := mem_tasksOf.mp h
  rw [hfibers, AList.lookup_insert_eq] at hfound
  split at hfound
  · cases hfound
    exact .inl hpart
  · exact .inr (mem_tasksOf.mpr ⟨other, f, hfound, hpart⟩)

theorem tasksOf_of_erase (hfibers : t.fibers = s.fibers.erase fiber)
    (h : taskId ∈ tasksOf part t) : taskId ∈ tasksOf part s := by
  obtain ⟨other, f, hfound, hpart⟩ := mem_tasksOf.mp h
  rw [hfibers, AList.lookup_erase_eq] at hfound
  split at hfound
  · cases hfound
  · exact mem_tasksOf.mpr ⟨other, f, hfound, hpart⟩

end tasksOf

/-- Who is attached to a task holds it. -/
theorem holdsAt_of_attachedAt {f : Local.Fiber} {taskId : Cloud.TaskId}
    (h : attachedAt site f = some taskId) : holdsAt site f = some taskId := by
  unfold attachedAt at h
  split at h
  · exact h
  · cases h

theorem attachedAt_of_holdsAt_none {f : Local.Fiber} (h : holdsAt site f = none) :
    attachedAt site f = none := by
  unfold attachedAt
  split
  · exact h
  · rfl

theorem attachedAt_congr {f f' : Local.Fiber} (h : f'.pc.held = f.pc.held) :
    attachedAt site f' = attachedAt site f := by
  unfold attachedAt holdsAt
  rw [h]

theorem attachedAt_of_elsewhere {f f' : Local.Fiber} {event : Local.Event}
    (hstep : f.Step site.local' event f') (helsewhere : isCall event = true → ¬Calls site f) :
    attachedAt site f' = attachedAt site f := by
  rcases held_of_elsewhere hstep helsewhere with hsame | hnot
  · exact attachedAt_congr hsame
  · rw [attachedAt_of_holdsAt_none (holdsAt_of_not_here fun held hheld => hnot held (.inl hheld)),
      attachedAt_of_holdsAt_none (holdsAt_of_not_here fun held hheld => hnot held (.inr hheld))]

theorem attached_held {taskId : Cloud.TaskId} (h : taskId ∈ attachedTasks site s) :
    taskId ∈ heldTasks site s := by
  obtain ⟨fiber, f, hfound, hattached⟩ := mem_tasksOf.mp h
  exact mem_tasksOf.mpr ⟨fiber, f, hfound, holdsAt_of_attachedAt hattached⟩

theorem holders_pos_iff {taskId : Cloud.TaskId} :
    0 < holders site s taskId ↔ taskId ∈ heldTasks site s := by
  unfold heldTasks
  rw [mem_tasksOf]
  constructor
  · intro hpos
    obtain ⟨⟨fiber, f⟩, hentry, hholds⟩ := List.countP_pos_iff.mp hpos
    exact ⟨fiber, f, AList.lookup_eq_some_iff.mpr hentry, by simpa using hholds⟩
  · rintro ⟨fiber, f, hfound, hholds⟩
    exact holders_pos hfound hholds

/-! ## The condition -/

/-- Killing a task sends no signal to the child of another one that is held. -/
def sparesOthers (site : Site) (s : SharedServant) (taskId : Cloud.TaskId) : Bool :=
  (heldTasks site s).all fun child => child == taskId || !s.engine.hits taskId child

/-- What the engine does on its own neither kills nor completes nor drops the wrong task. -/
def engineSpares (site : Site) (s : SharedServant) : Cloud.ExecutionEngine.Action String → Bool
  | .killFreed taskId => sparesOthers site s taskId
  | .onCleanupTimer now => (heldTasks site s).all fun taskId =>
      (s.engine.descs.lookup taskId).all fun desc => desc.isRunning ||
        !decide (desc.completedAt + Cloud.ExecutionEngine.OneMinute < now)
  | a => s.engine.ownPid a

/-- A fiber attaches to no running task whose grant is gone. -/
def attachesUnderGrant (site : Site) (s : SharedServant) (f : Local.Fiber) : Bool :=
  match f.pc with
  | .referencing running => (s.engine.findTask running.servantTaskId).all (underGrant site s)
  | _ => true

/-- The scheduler takes back no grant of a running task that someone is attached to, and
hands out none that an answer under way complains about. -/
def schedulerSpares (site : Site) (s : SharedServant) (op : Scheduler.TaskDispatcher.Op)
    (reply : Scheduler.TaskDispatcher.Reply) : Bool :=
  ((attachedTasks site s).all fun taskId => (s.engine.runningGrant taskId).all fun grantId =>
      !s.scheduler.revokes site.location grantId op) &&
    (!reply.isGrant || s.answers.all fun expiredGrantIds =>
      !expiredGrantIds.contains s.scheduler.nextTaskId)

def spares (site : Site) (s : SharedServant) : Action → Bool
  | .referenceTask fiber outcome _ => outcome != .answered ||
      (s.fibers.lookup fiber).all (attachesUnderGrant site s)
  | .freeServantTask fiber _ => (s.fibers.lookup fiber).all freesOwn
  | .engine a => engineSpares site s a
  | .answer expiredGrantIds => s.engine.tasks.all fun taskId =>
      !s.engine.runsUnder taskId expiredGrantIds || sparesOthers site s taskId
  | .scheduler op reply => schedulerSpares site s op reply
  | _ => true

/-- The steps that do no harm to those who still hold a task. -/
def Spares (site : Site) (s : SharedServant) (a : Action) : Prop := spares site s a = true

instance (s : SharedServant) (a : Action) : Decidable (Spares site s a) :=
  inferInstanceAs (Decidable (spares site s a = true))

theorem returns_of_spares {a : Action} (h : Spares site s a) : Returns s a := by
  cases a with
  | freeServantTask fiber outcome => exact h
  | queueTask => exact trivial
  | fiber => exact trivial
  | die => exact trivial
  | referenceTask => exact trivial
  | startTask => exact trivial
  | pollArrives => exact trivial
  | poll => exact trivial
  | engine => exact trivial
  | heartbeat => exact trivial
  | notify => exact trivial
  | answer => exact trivial
  | scheduler => exact trivial

theorem ownPid_of_spares {a : Cloud.ExecutionEngine.Action String}
    (h : Spares site s (.engine a)) : s.engine.OwnPid a := by
  cases a with
  | killFreed => exact rfl
  | onCleanupTimer => exact rfl
  | tryQueueTask => exact h
  | tryReferenceTask => exact h
  | freeTask => exact h
  | killExpiredTasks => exact h
  | stop => exact h
  | killAll => exact h
  | waiterStep => exact h
  | wait => exact h
  | waitFailed => exact h
  | callbackLocked => exact h
  | callbackOnCompletion => exact h
  | callbackCountDown => exact h
  | write => exact h
  | exit => exact h

/-! ## What is held stays -/

/-- Held tasks are in the table, freed ones are not, tasks with someone attached run under a
live grant, and no answer under way complains about a live grant. -/
structure Standing (site : Site) (s : SharedServant) : Prop where
  listed : ∀ taskId ∈ heldTasks site s, taskId ∈ s.engine.tasks
  freed : ∀ taskId ∈ s.engine.freeing,
    taskId < s.engine.nextTaskId ∧ taskId ∉ s.engine.tasks
  granted : ∀ taskId ∈ attachedTasks site s, underGrant site s taskId = true
  answered : ∀ expiredGrantIds ∈ s.answers, ∀ grantId ∈ expiredGrantIds,
    s.scheduler.liveAt site.location grantId = false

/-- A step that is none of the scheduler's. -/
theorem Standing.change (h : Standing site s) (hscheduler : t.scheduler = s.scheduler)
    (hanswers : ∀ expiredGrantIds ∈ t.answers, expiredGrantIds ∈ s.answers)
    (hnext : s.engine.nextTaskId ≤ t.engine.nextTaskId)
    (htasks : ∀ id ∈ t.engine.tasks, id ∈ s.engine.tasks ∨ s.engine.nextTaskId ≤ id)
    (hfreeing : ∀ id ∈ t.engine.freeing, id ∈ s.engine.freeing ∨
      id < t.engine.nextTaskId ∧ id ∉ t.engine.tasks)
    (hheld : ∀ id ∈ heldTasks site t, id ∈ t.engine.tasks)
    (hattached : ∀ id ∈ attachedTasks site t, underGrant site t id = true ∨
      id ∈ attachedTasks site s ∧ (t.engine.runningGrant id = none ∨
        t.engine.runningGrant id = s.engine.runningGrant id)) : Standing site t := by
  refine ⟨hheld, fun id hid => ?_, fun id hid => ?_, ?_⟩
  · rcases hfreeing id hid with hid | hid
    · obtain ⟨hlt, hnot⟩ := h.freed id hid
      refine ⟨hlt.trans_le hnext, fun hmem => ?_⟩
      rcases htasks id hmem with hmem | hle
      · exact hnot hmem
      · exact absurd hlt (Nat.not_lt.mpr hle)
    · exact hid
  · rcases hattached id hid with hunder | ⟨hid, hsame⟩
    · exact hunder
    · have hunder := h.granted id hid
      unfold underGrant at hunder ⊢
      rcases hsame with hnone | hsame
      · rw [hnone]
        rfl
      · rw [hsame, hscheduler]
        exact hunder
  · rw [hscheduler]
    exact fun ids hids => h.answered ids (hanswers ids hids)

/-- A step of one fiber that leaves the engine's tasks alone and acquires nothing. -/
theorem Standing.fiber (h : Standing site s) {fiber : FiberId} {f' : Local.Fiber}
    (hfibers : t.fibers = s.fibers.insert fiber f')
    (hholds : holdsAt site f' = none ∨ ∃ f, s.fibers.lookup fiber = some f ∧
      holdsAt site f' = holdsAt site f ∧ attachedAt site f' = attachedAt site f)
    (hnext : s.engine.nextTaskId ≤ t.engine.nextTaskId)
    (htasks : t.engine.tasks = s.engine.tasks) (hdescs : t.engine.descs = s.engine.descs)
    (hfreeing : t.engine.freeing = s.engine.freeing) (hscheduler : t.scheduler = s.scheduler)
    (hanswers : t.answers = s.answers) : Standing site t := by
  have hheld : ∀ id ∈ heldTasks site t, id ∈ heldTasks site s := by
    intro id hid
    rcases tasksOf_of_insert hfibers hid with hnew | hold
    · rcases hholds with hnone | ⟨f, hfound, hsame, -⟩
      · cases hnone.symm.trans hnew
      · exact mem_tasksOf.mpr ⟨fiber, f, hfound, hsame.symm.trans hnew⟩
    · exact hold
  have hattached : ∀ id ∈ attachedTasks site t, id ∈ attachedTasks site s := by
    intro id hid
    rcases tasksOf_of_insert hfibers hid with hnew | hold
    · rcases hholds with hnone | ⟨f, hfound, -, hsame⟩
      · cases (attachedAt_of_holdsAt_none hnone).symm.trans hnew
      · exact mem_tasksOf.mpr ⟨fiber, f, hfound, hsame.symm.trans hnew⟩
    · exact hold
  have hgrant : ∀ id, t.engine.runningGrant id = s.engine.runningGrant id := by
    intro id
    unfold Cloud.ExecutionEngine.runningGrant
    rw [hdescs]
  apply h.change hscheduler (fun _ hids => hanswers ▸ hids) hnext
  · intro id hid
    exact .inl (htasks ▸ hid)
  · intro id hid
    exact .inl (hfreeing ▸ hid)
  · intro id hid
    rw [htasks]
    exact h.listed id (hheld id hid)
  · intro id hid
    exact .inr ⟨hattached id hid, .inr (hgrant id)⟩

theorem Standing.die (h : Standing site s) {fiber : FiberId} (f : Local.Fiber) :
    Standing site (s.die site fiber f) := by
  have hframe : ∀ t : SharedServant, t.fibers = s.fibers.erase fiber → t.engine = s.engine →
      t.scheduler = s.scheduler → t.answers = s.answers → Standing site t := by
    intro t hfibers hengine hscheduler hanswers
    apply h.change hscheduler (fun _ hids => hanswers ▸ hids)
    · rw [hengine]
    · rw [hengine]
      exact fun id hid => .inl hid
    · rw [hengine]
      exact fun id hid => .inl hid
    · rw [hengine]
      exact fun id hid => h.listed id (tasksOf_of_erase hfibers hid)
    · rw [hengine]
      exact fun id hid => .inr ⟨tasksOf_of_erase hfibers hid, .inr rfl⟩
  unfold SharedServant.die
  dsimp only
  split
  · exact hframe _ rfl rfl rfl rfl
  · exact hframe _ rfl rfl rfl rfl

/-- A task gets one more reference, which a fiber has or which is lost. -/
theorem Standing.reference (h : Standing site s) {fiber : FiberId} {f' : Local.Fiber}
    {taskId : Cloud.TaskId} (hmem : taskId ∈ s.engine.tasks)
    (hengine : t.engine = (s.engine.tryReferenceTask taskId).2)
    (hfibers : t.fibers = s.fibers.insert fiber f')
    (hholds : holdsAt site f' = none ∨
      holdsAt site f' = some taskId ∧ underGrant site s taskId = true)
    (hscheduler : t.scheduler = s.scheduler) (hanswers : t.answers = s.answers) :
    Standing site t := by
  unfold Cloud.ExecutionEngine.tryReferenceTask at hengine
  rw [if_pos hmem] at hengine
  dsimp only at hengine
  have htasks : t.engine.tasks = s.engine.tasks := by rw [hengine]
  have hgrant : ∀ id, t.engine.runningGrant id = s.engine.runningGrant id := by
    rw [hengine]
    exact Cloud.ExecutionEngine.runningGrant_modify rfl fun _ => ⟨rfl, rfl⟩
  apply h.change hscheduler (fun _ hids => hanswers ▸ hids)
  · rw [hengine]
  · intro id hid
    exact .inl (htasks ▸ hid)
  · rw [hengine]
    exact fun id hid => .inl hid
  · intro id hid
    rw [htasks]
    rcases tasksOf_of_insert hfibers hid with hnew | hold
    · rcases hholds with hnone | ⟨hsome, -⟩
      · cases hnone.symm.trans hnew
      · cases hsome.symm.trans hnew
        exact hmem
    · exact h.listed id hold
  · intro id hid
    rcases tasksOf_of_insert hfibers hid with hnew | hold
    · have hnew := holdsAt_of_attachedAt hnew
      rcases hholds with hnone | ⟨hsome, hunder⟩
      · cases hnone.symm.trans hnew
      · cases hsome.symm.trans hnew
        refine .inl ?_
        unfold underGrant
        rw [hgrant, hscheduler]
        exact hunder
    · exact .inr ⟨hold, .inr (hgrant id)⟩

theorem Standing.referenceTask (h : Standing site s) {fiber : FiberId} {f : Local.Fiber}
    {running : Local.RunningTaskDesc} (hfound : s.fibers.lookup fiber = some f)
    (hpc : f.pc = .referencing running) (hcalls : Calls site f) (outcome : RpcOutcome) (now : ℕ)
    (hspares : Spares site s (.referenceTask fiber outcome now)) :
    Standing site (s.referenceTask site fiber f running outcome now) := by
  have hserver := (calls_iff hpc rfl).mp hcalls
  have hfailed : holdsAt site (f.referenceTask site.local' running false now) = none :=
    holdsAt_of_held_none rfl
  have hattached : holdsAt site (f.referenceTask site.local' running true now)
      = some running.servantTaskId :=
    holdsAt_of_held (.referenced running) rfl hserver
  cases outcome with
  | refused => exact h.fiber rfl (.inl hfailed) le_rfl rfl rfl rfl rfl rfl
  | answered =>
      unfold SharedServant.referenceTask
      by_cases hmem : running.servantTaskId ∈ s.engine.tasks
      · refine h.reference hmem rfl rfl (.inr ⟨?_, ?_⟩) rfl rfl
        · unfold Cloud.ExecutionEngine.tryReferenceTask
          rw [if_pos hmem]
          exact hattached
        · have hall : (s.fibers.lookup fiber).all (attachesUnderGrant site s) = true := hspares
          rw [hfound, Option.all_some] at hall
          unfold attachesUnderGrant Cloud.ExecutionEngine.findTask at hall
          rw [hpc] at hall
          dsimp only at hall
          rw [if_pos hmem, Option.all_some] at hall
          exact hall
      · unfold Cloud.ExecutionEngine.tryReferenceTask
        rw [if_neg hmem]
        exact h.fiber rfl (.inl hfailed) le_rfl rfl rfl rfl rfl rfl
  | replyLost =>
      unfold SharedServant.referenceTask
      by_cases hmem : running.servantTaskId ∈ s.engine.tasks
      · have htrue : (s.engine.tryReferenceTask running.servantTaskId).1 = true := by
          unfold Cloud.ExecutionEngine.tryReferenceTask
          rw [if_pos hmem]
        dsimp only
        rw [if_pos htrue]
        exact h.reference hmem rfl rfl (.inl hfailed) rfl rfl
      · unfold Cloud.ExecutionEngine.tryReferenceTask
        rw [if_neg hmem]
        exact h.fiber rfl (.inl hfailed) le_rfl rfl rfl rfl rfl rfl

/-- A new task is held by the fiber that started it, or by no one. -/
theorem Standing.start (h : Standing site s) {fiber : FiberId} {f' : Local.Fiber}
    {desc : Cloud.TaskDesc String} {runningTasks tasksRunEver : UInt64}
    (hcounts : RefCounts site s)
    (hengine : t.engine = Cloud.ExecutionEngine.startProgram s.engine.nextTaskId desc
      { s.engine with nextTaskId := s.engine.nextTaskId + 1, runningTasks, tasksRunEver })
    (hfibers : t.fibers = s.fibers.insert fiber f') (hattached : attachedAt site f' = none)
    (hholds : holdsAt site f' = none ∨ holdsAt site f' = some s.engine.nextTaskId)
    (hscheduler : t.scheduler = s.scheduler) (hanswers : t.answers = s.answers) :
    Standing site t := by
  have htasks : t.engine.tasks = s.engine.nextTaskId :: s.engine.tasks :=
    congrArg Cloud.ExecutionEngine.tasks hengine
  have hdescs : t.engine.descs = s.engine.descs.insert s.engine.nextTaskId desc :=
    congrArg Cloud.ExecutionEngine.descs hengine
  have hnext : t.engine.nextTaskId = s.engine.nextTaskId + 1 :=
    congrArg Cloud.ExecutionEngine.nextTaskId hengine
  apply h.change hscheduler (fun _ hids => hanswers ▸ hids)
  · rw [hnext]
    exact Nat.le_succ _
  · intro id hid
    rw [htasks] at hid
    rcases List.mem_cons.mp hid with rfl | hid
    · exact .inr le_rfl
    · exact .inl hid
  · intro id hid
    exact .inl (congrArg Cloud.ExecutionEngine.freeing hengine ▸ hid)
  · intro id hid
    rw [htasks]
    rcases tasksOf_of_insert hfibers hid with hnew | hold
    · rcases hholds with hnone | hsome
      · cases hnone.symm.trans hnew
      · cases hsome.symm.trans hnew
        exact List.mem_cons_self
    · exact List.mem_cons_of_mem _ (h.listed id hold)
  · intro id hid
    rcases tasksOf_of_insert hfibers hid with hnew | hold
    · cases hattached.symm.trans hnew
    · have hne : id ≠ s.engine.nextTaskId :=
        (hcounts.numbered (.inl (h.listed id (attached_held hold)))).ne
      refine .inr ⟨hold, .inr ?_⟩
      unfold Cloud.ExecutionEngine.runningGrant
      rw [hdescs, AList.lookup_insert_ne hne]

theorem Standing.startTask (h : Standing site s) (hcounts : RefCounts site s) {fiber : FiberId}
    {f : Local.Fiber} {grant : Local.GrantDesc} (hpc : f.pc = .starting grant)
    (hcalls : Calls site f) (outcome : RpcOutcome) (memoryAvailable pid now : ℕ) :
    Standing site (s.startTask site fiber f grant outcome memoryAvailable pid now) := by
  have hserver := (calls_iff hpc rfl).mp hcalls
  have hfailed : holdsAt site (f.startTask site.local' grant none now) = none :=
    holdsAt_of_held_none rfl
  have hstarted : ∀ taskId, holdsAt site (f.startTask site.local' grant (some taskId) now)
      = some taskId :=
    fun taskId => holdsAt_of_held (.started grant taskId) rfl hserver
  cases outcome with
  | refused => exact h.fiber rfl (.inl hfailed) le_rfl rfl rfl rfl rfl rfl
  | answered =>
      unfold SharedServant.startTask
      rcases Cloud.ExecutionEngine.tryQueueTask_cases grant.grantId f.task.digest
        memoryAvailable pid now s.engine with
        ⟨nextTaskId, hnext, heq⟩ | ⟨runningTasks, tasksRunEver, heq⟩
      · rw [heq]
        exact h.fiber rfl (.inl hfailed) hnext rfl rfl rfl rfl rfl
      · rw [heq]
        exact h.start hcounts rfl rfl rfl (.inr (hstarted _)) rfl rfl
  | replyLost =>
      unfold SharedServant.startTask
      rcases Cloud.ExecutionEngine.tryQueueTask_cases grant.grantId f.task.digest
        memoryAvailable pid now s.engine with
        ⟨nextTaskId, hnext, heq⟩ | ⟨runningTasks, tasksRunEver, heq⟩
      · rw [heq]
        exact h.fiber rfl (.inl hfailed) hnext rfl rfl rfl rfl rfl
      · rw [heq]
        exact h.start hcounts rfl rfl rfl (.inl hfailed) rfl rfl

/-- What a `FreeTask` leaves: the request may be lost, or reach the engine. -/
theorem frame_freeServantTask (site : Site) (s : SharedServant) (fiber : FiberId)
    (f : Local.Fiber) (held : Local.Held) (outcome : RpcOutcome)
    (hown : held.freed f.task.taskId = held.acquired) :
    (s.freeServantTask site fiber f held outcome).fibers
        = s.fibers.insert fiber (f.freeServantTask site.local' held) ∧
      (s.freeServantTask site fiber f held outcome).scheduler = s.scheduler ∧
      (s.freeServantTask site fiber f held outcome).answers = s.answers ∧
      ((s.freeServantTask site fiber f held outcome).engine = s.engine ∨
        (s.freeServantTask site fiber f held outcome).engine
          = s.engine.freeTask held.acquired) := by
  unfold SharedServant.freeServantTask
  split
  · exact ⟨rfl, rfl, rfl, .inl rfl⟩
  · refine ⟨rfl, rfl, rfl, .inr ?_⟩
    rw [hown]
    rfl

/-- The holder of a task gives it back. Whoever else holds it keeps it in the table. -/
theorem Standing.freeServantTask (h : Standing site s) (hcounts : RefCounts site s)
    {fiber : FiberId} {f : Local.Fiber} {held : Local.Held}
    (hfound : s.fibers.lookup fiber = some f) (hpc : f.pc = .freeing held)
    (hcalls : Calls site f) (outcome : RpcOutcome)
    (hown : held.freed f.task.taskId = held.acquired) :
    Standing site (s.freeServantTask site fiber f held outcome) := by
  have hafter : holdsAt site (f.freeServantTask site.local' held) = none :=
    holdsAt_of_held_none (Local.Fiber.held_freeServantTask held)
  have hframe := frame_freeServantTask site s fiber f held outcome hown
  generalize s.freeServantTask site fiber f held outcome = t at hframe ⊢
  obtain ⟨hfibers, hscheduler, hanswers, hengine⟩ := hframe
  have hsame : t.engine = s.engine → Standing site t := by
    intro heq
    apply h.fiber hfibers (.inl hafter) _ _ _ _ hscheduler hanswers
    · rw [heq]
    · rw [heq]
    · rw [heq]
    · rw [heq]
  have hheld : ∀ id ∈ heldTasks site t, id ∈ heldTasks site s := by
    intro id hid
    rcases tasksOf_of_insert hfibers hid with hnew | hold
    · cases hafter.symm.trans hnew
    · exact hold
  have hattached : ∀ id ∈ attachedTasks site t, id ∈ attachedTasks site s := by
    intro id hid
    rcases tasksOf_of_insert hfibers hid with hnew | hold
    · cases (attachedAt_of_holdsAt_none hafter).symm.trans hnew
    · exact hold
  rcases hengine with heq | heq
  · exact hsame heq
  · rcases Cloud.ExecutionEngine.freeTask_cases held.acquired s.engine with
      ⟨-, hfree⟩ | ⟨desc, hmem, hdesc, ⟨-, hfree⟩ | ⟨hzero, hfree⟩⟩
    · exact hsame (heq.trans hfree)
    · have heq := heq.trans hfree
      have hgrant : ∀ id, t.engine.runningGrant id = s.engine.runningGrant id := by
        rw [heq]
        exact Cloud.ExecutionEngine.runningGrant_modify rfl fun _ => ⟨rfl, rfl⟩
      apply h.change hscheduler (fun _ hids => hanswers ▸ hids)
      · rw [heq]
      · rw [heq]
        exact fun id hid => .inl hid
      · rw [heq]
        exact fun id hid => .inl hid
      · rw [heq]
        exact fun id hid => h.listed id (hheld id hid)
      · exact fun id hid => .inr ⟨hattached id hid, .inr (hgrant id)⟩
    · have heq := heq.trans hfree
      have hgrant : ∀ id, t.engine.runningGrant id = s.engine.runningGrant id := by
        rw [heq]
        exact Cloud.ExecutionEngine.runningGrant_modify rfl fun _ => ⟨rfl, rfl⟩
      -- The count was one, so that nobody else holds the task.
      have hgone : held.acquired ∉ heldTasks site t := by
        rw [← holders_pos_iff]
        have hcount := hcounts.count held.acquired hmem
        unfold Cloud.ExecutionEngine.refs outstanding at hcount
        rw [hdesc, Option.map_some, Option.some_inj,
          holders_freeServantTask hfound hpc hcalls hfibers, if_pos rfl] at hcount
        omega
      apply h.change hscheduler (fun _ hids => hanswers ▸ hids)
      · rw [heq]
      · rw [heq]
        exact fun id hid => .inl (List.mem_of_mem_erase hid)
      · rw [heq]
        intro id hid
        rcases List.mem_cons.mp hid with rfl | hid
        · exact .inr ⟨hcounts.numbered (.inl hmem), hcounts.distinct.not_mem_erase⟩
        · exact .inl hid
      · rw [heq]
        intro id hid
        have hne : id ≠ held.acquired := by
          rintro rfl
          exact hgone hid
        exact (List.mem_erase_of_ne hne).mpr (h.listed id (hheld id hid))
      · exact fun id hid => .inr ⟨hattached id hid, .inr (hgrant id)⟩

/-- What the engine does on its own drops no task that is held. -/
theorem Standing.engine (h : Standing site s) {a : Cloud.ExecutionEngine.Action String}
    {engine : Cloud.ExecutionEngine String} (hinternal : a.isInternal = true)
    (hstep : s.engine.Step a engine) (hspares : Spares site s (.engine a)) :
    Standing site { s with engine } := by
  have hquiet := Cloud.ExecutionEngine.quiet_of_internal hinternal hstep
  apply h.change (t := { s with engine }) rfl (fun _ hids => hids) hquiet.nextTaskId_eq.ge
  · intro id hid
    exact .inl (hquiet.tasks_sublist.subset hid)
  · intro id hid
    refine .inl ?_
    rcases Cloud.ExecutionEngine.internal_cases hinternal hstep with
      ⟨now, -, rfl⟩ | ⟨taskId, -, -, rfl⟩ | ⟨-, hfreeing, -⟩
    · exact hid
    · have hsame := Cloud.ExecutionEngine.sameTasks_killTask taskId
        { s.engine with freeing := s.engine.freeing.erase taskId }
      exact List.mem_of_mem_erase (hsame.freeing_eq ▸ hid)
    · exact hfreeing ▸ hid
  · intro id hid
    have hmem := h.listed id hid
    rcases Cloud.ExecutionEngine.internal_cases hinternal hstep with
      ⟨now, rfl, rfl⟩ | ⟨taskId, -, -, rfl⟩ | ⟨htasks, -, -⟩
    · have hyoung := List.all_eq_true.mp hspares id hid
      refine List.mem_filter.mpr ⟨hmem, ?_⟩
      cases hdesc : s.engine.descs.lookup id with
      | none => rfl
      | some desc =>
          rw [hdesc, Option.all_some] at hyoung
          exact hyoung
    · have hsame := Cloud.ExecutionEngine.sameTasks_killTask taskId
        { s.engine with freeing := s.engine.freeing.erase taskId }
      exact hsame.tasks_eq.symm ▸ hmem
    · exact htasks.symm ▸ hmem
  · intro id hid
    exact .inr ⟨hid, hquiet.runningGrant id⟩

theorem Standing.answer (h : Standing site s) (expiredGrantIds : List UInt64) :
    Standing site { s with
      engine := s.engine.killExpiredTasks expiredGrantIds
      answers := s.answers.erase expiredGrantIds } := by
  have hsame := Cloud.ExecutionEngine.sameTasks_killExpiredTasks expiredGrantIds s.engine
  apply h.change (t := { s with
    engine := s.engine.killExpiredTasks expiredGrantIds
    answers := s.answers.erase expiredGrantIds }) rfl
    (fun _ hids => List.mem_of_mem_erase hids) hsame.nextTaskId_eq.ge
  · intro id hid
    exact .inl (hsame.tasks_eq ▸ hid)
  · intro id hid
    exact .inl (hsame.freeing_eq ▸ hid)
  · intro id hid
    exact hsame.tasks_eq ▸ h.listed id hid
  · intro id hid
    exact .inr ⟨hid, hsame.quiet.runningGrant id⟩

/-- A step of the scheduler that takes back no grant that is needed. -/
theorem Standing.applied (h : Standing site s) (hs : s.scheduler.Consistent)
    {op : Scheduler.TaskDispatcher.Op} {reply : Scheduler.TaskDispatcher.Reply}
    (happly : s.scheduler.apply site.scheduler op = .ok (reply, t.scheduler))
    (hengine : t.engine = s.engine) (hfibers : t.fibers = s.fibers)
    (hkept : ∀ id ∈ attachedTasks site s, ∀ grantId, s.engine.runningGrant id = some grantId →
      s.scheduler.revokes site.location grantId op = false)
    (hanswers : ∀ expiredGrantIds ∈ t.answers, expiredGrantIds ∈ s.answers ∧
        (reply.isGrant = true → s.scheduler.nextTaskId ∉ expiredGrantIds) ∨
      ∀ grantId ∈ expiredGrantIds, t.scheduler.liveAt site.location grantId = false) :
    Standing site t := by
  have hheld : heldTasks site t = heldTasks site s := by
    unfold heldTasks tasksOf
    rw [hfibers]
  have hattached : attachedTasks site t = attachedTasks site s := by
    unfold attachedTasks tasksOf
    rw [hfibers]
  refine ⟨?_, ?_, fun id hid => ?_, fun ids hids grantId hgrant => ?_⟩
  · rw [hheld, hengine]
    exact h.listed
  · rw [hengine]
    exact h.freed
  · rw [hattached] at hid
    have hunder := h.granted id hid
    unfold underGrant at hunder ⊢
    rw [hengine]
    cases hrunning : s.engine.runningGrant id with
    | none => rfl
    | some grantId =>
        rw [hrunning, Option.all_some] at hunder
        exact Scheduler.TaskDispatcher.liveAt_of_apply hs happly
          (hkept id hid grantId hrunning) hunder
  · rcases hanswers ids hids with ⟨hold, hnew⟩ | hdead
    · rw [← Bool.not_eq_true]
      intro hlive
      rcases Scheduler.TaskDispatcher.liveAt_before hs happly hlive with hbefore | ⟨hreply, rfl⟩
      · cases (h.answered ids hold grantId hgrant).symm.trans hbefore
      · exact hnew hreply hgrant
    · exact hdead grantId hgrant

/-! ## Polls -/

/-- A call that waits at the servant belongs to a fiber that polls, and found its task. -/
def Polled (site : Site) (s : SharedServant) : Prop :=
  ∀ fiber foundTask, s.polls.lookup fiber = some foundTask → ∃ f held retriesLeft,
    s.fibers.lookup fiber = some f ∧ f.pc = .polling held retriesLeft ∧ Calls site f ∧
    foundTask = some held.acquired

/-- A step of a fiber that does not wait at the servant. -/
theorem Polled.fiber (h : Polled site s) {fiber : FiberId} {f' : Local.Fiber}
    (hfibers : t.fibers = s.fibers.insert fiber f') (hpolls : t.polls = s.polls)
    (hnot : s.polls.lookup fiber = none) : Polled site t := by
  intro other foundTask hpoll
  rw [hpolls] at hpoll
  have hne : other ≠ fiber := by
    rintro rfl
    cases hnot.symm.trans hpoll
  rw [hfibers, AList.lookup_insert_ne hne]
  exact h other foundTask hpoll

theorem Polled.none_of_pc (h : Polled site s) {fiber : FiberId} {f : Local.Fiber}
    (hfound : s.fibers.lookup fiber = some f)
    (hpc : ∀ held retriesLeft, f.pc ≠ .polling held retriesLeft) :
    s.polls.lookup fiber = none := by
  cases hpoll : s.polls.lookup fiber with
  | none => rfl
  | some foundTask =>
      obtain ⟨f', held, retriesLeft, hfound', hpolling, -⟩ := h fiber foundTask hpoll
      cases hfound.symm.trans hfound'
      exact absurd hpolling (hpc held retriesLeft)

/-- A fiber that waits at the servant can do nothing else but notice that it is aborted. -/
theorem pc_of_elsewhere {f f' : Local.Fiber} {event : Local.Event} {held : Local.Held}
    {retriesLeft : ℕ} (hpc : f.pc = .polling held retriesLeft) (hcalls : Calls site f)
    (hstep : f.Step site.local' event f') (helsewhere : isCall event = true → ¬Calls site f) :
    f'.pc = f.pc := by
  unfold Local.Fiber.Step Local.Fiber.next at hstep
  rw [hpc] at hstep
  cases event with
  | abort =>
      cases hstep
      rfl
  | poll result => exact absurd hcalls (helsewhere rfl)
  | readCache => cases hstep
  | findTask => cases hstep
  | referenceTask => cases hstep
  | checkGrant => cases hstep
  | getGrant => cases hstep
  | startTask => cases hstep
  | checkWait => cases hstep
  | freeServantTask => cases hstep
  | freeGrant => cases hstep
  | complete => cases hstep

theorem Polled.elsewhere (h : Polled site s) {fiber : FiberId} {f f' : Local.Fiber}
    {event : Local.Event} (hfound : s.fibers.lookup fiber = some f)
    (hstep : f.Step site.local' event f') (helsewhere : isCall event = true → ¬Calls site f) :
    Polled site (s.setFiber fiber f') := by
  intro other foundTask hpoll
  obtain ⟨f'', held, retriesLeft, hfound'', hpc, hcalls, hacquired⟩ := h other foundTask hpoll
  by_cases hother : other = fiber
  · subst hother
    cases hfound.symm.trans hfound''
    have hsame := pc_of_elsewhere hpc hcalls hstep helsewhere
    refine ⟨f', held, retriesLeft, AList.lookup_insert _, hsame.trans hpc, ?_, hacquired⟩
    unfold Calls callee at hcalls ⊢
    rw [hsame]
    exact hcalls
  · exact ⟨f'', held, retriesLeft, (AList.lookup_insert_ne hother).trans hfound'', hpc, hcalls,
      hacquired⟩

/-- A fiber no longer waits. -/
theorem Polled.answered (h : Polled site s) {fiber : FiberId}
    (hfibers : ∀ other, other ≠ fiber → t.fibers.lookup other = s.fibers.lookup other)
    (hpolls : t.polls = s.polls.erase fiber) : Polled site t := by
  intro other foundTask hpoll
  rw [hpolls, AList.lookup_erase_eq] at hpoll
  split at hpoll
  · cases hpoll
  · next hne =>
      rw [hfibers other hne]
      exact h other foundTask hpoll

/-! ## Steps and runs -/

/-- What holds as long as no step does harm. -/
structure Shared (site : Site) (s : SharedServant) : Prop where
  consistent : s.scheduler.Consistent
  tracked : s.engine.Tracked
  counts : RefCounts site s
  standing : Standing site s
  polled : Polled site s

theorem tracked_of_step {a : Action} (h : Shared site s) (hstep : Step site s a t)
    (hspares : Spares site s a) : t.engine.Tracked := by
  cases effect_of_step hstep with
  | queueTask => exact h.tracked
  | fiber => exact h.tracked
  | die f found =>
      unfold SharedServant.die
      dsimp only
      split
      · exact h.tracked
      · exact h.tracked
  | @referenceTask fiber outcome now f running =>
      have htracked := h.tracked.lives
        (.of_track_eq (Cloud.ExecutionEngine.track_tryReferenceTask running.servantTaskId))
      unfold SharedServant.referenceTask
      cases outcome with
      | refused => exact h.tracked
      | answered => exact htracked
      | replyLost =>
          dsimp only
          split
          · exact htracked
          · exact htracked
  | @startTask fiber outcome memoryAvailable pid now f grant =>
      have htracked := h.tracked.lives (Cloud.ExecutionEngine.lives_tryQueueTask h.tracked
        grant.grantId f.task.digest memoryAvailable pid now)
      unfold SharedServant.startTask
      cases outcome with
      | refused => exact h.tracked
      | answered => exact htracked
      | replyLost =>
          dsimp only
          split
          · exact htracked
          · exact htracked
  | pollArrives => exact h.tracked
  | pollFailed => exact h.tracked
  | pollAnswered => exact h.tracked
  | freeServantTask f held =>
      unfold SharedServant.freeServantTask
      split
      · exact h.tracked
      · exact h.tracked.lives (Cloud.ExecutionEngine.lives_freeTask _)
  | engine engine isInternal step =>
      exact h.tracked.lives
        (Cloud.ExecutionEngine.lives_of_step h.tracked ⟨step, ownPid_of_spares hspares⟩)
  | heartbeat => exact h.tracked
  | notify => exact h.tracked
  | answer =>
      exact h.tracked.lives (.of_track_eq (Cloud.ExecutionEngine.track_killExpiredTasks _))
  | scheduler => exact h.tracked

theorem polled_of_step {a : Action} (h : Shared site s) (hstep : Step site s a t) :
    Polled site t := by
  cases effect_of_step hstep with
  | @queueTask fiber taskId digest cacheSetting startDeadline now unused =>
      refine h.polled.fiber rfl rfl ?_
      cases hpoll : s.polls.lookup fiber with
      | none => rfl
      | some foundTask =>
          obtain ⟨f, -, -, hfound, -⟩ := h.polled fiber foundTask hpoll
          cases unused.symm.trans hfound
  | fiber f f' found elsewhere step => exact h.polled.elsewhere found step elsewhere
  | die f found =>
      unfold SharedServant.die
      dsimp only
      split
      · exact h.polled.answered (fun other hne => AList.lookup_erase_ne hne) rfl
      · exact h.polled.answered (fun other hne => AList.lookup_erase_ne hne) rfl
  | @referenceTask fiber outcome now f running found pc calls =>
      have hnot := h.polled.none_of_pc found (fun _ _ => by rw [pc]; exact nofun)
      unfold SharedServant.referenceTask
      cases outcome with
      | refused => exact h.polled.fiber rfl rfl hnot
      | answered => exact h.polled.fiber rfl rfl hnot
      | replyLost =>
          dsimp only
          split
          · exact h.polled.fiber rfl rfl hnot
          · exact h.polled.fiber rfl rfl hnot
  | @startTask fiber outcome memoryAvailable pid now f grant found pc calls pidFree =>
      have hnot := h.polled.none_of_pc found (fun _ _ => by rw [pc]; exact nofun)
      unfold SharedServant.startTask
      cases outcome with
      | refused => exact h.polled.fiber rfl rfl hnot
      | answered => exact h.polled.fiber rfl rfl hnot
      | replyLost =>
          dsimp only
          split
          · exact h.polled.fiber rfl rfl hnot
          · exact h.polled.fiber rfl rfl hnot
  | @pollArrives fiber f held retriesLeft found pc calls =>
      intro other foundTask hpoll
      rw [AList.lookup_insert_eq] at hpoll
      split at hpoll
      · next hother =>
          subst hother
          cases hpoll
          refine ⟨f, held, retriesLeft, found, pc, calls, ?_⟩
          have hheld := holdsAt_of_held held (congrArg Local.Pc.held pc)
            ((calls_iff pc rfl).mp calls)
          unfold Cloud.ExecutionEngine.findTask
          exact if_pos (h.standing.listed _ (mem_tasksOf.mpr ⟨other, f, found, hheld⟩))
      · exact h.polled other foundTask hpoll
  | pollFailed => exact h.polled.answered (fun other hne => AList.lookup_insert_ne hne) rfl
  | pollAnswered => exact h.polled.answered (fun other hne => AList.lookup_insert_ne hne) rfl
  | freeServantTask f held found pc calls =>
      have hnot := h.polled.none_of_pc found (fun _ _ => by rw [pc]; exact nofun)
      unfold SharedServant.freeServantTask
      split
      · exact h.polled.fiber rfl rfl hnot
      · exact h.polled.fiber rfl rfl hnot
  | engine => exact h.polled
  | heartbeat => exact h.polled
  | notify => exact h.polled
  | answer => exact h.polled
  | scheduler => exact h.polled

theorem standing_of_step {a : Action} (h : Shared site s) (hstep : Step site s a t)
    (hspares : Spares site s a) : Standing site t := by
  cases effect_of_step hstep with
  | queueTask => exact h.standing.fiber rfl (.inl rfl) le_rfl rfl rfl rfl rfl rfl
  | fiber f f' found elsewhere step =>
      exact h.standing.fiber rfl (.inr ⟨f, found, holdsAt_of_elsewhere step elsewhere,
        attachedAt_of_elsewhere step elsewhere⟩) le_rfl rfl rfl rfl rfl rfl
  | die f found => exact h.standing.die f
  | referenceTask f running found pc calls =>
      exact h.standing.referenceTask found pc calls _ _ hspares
  | startTask f grant found pc calls pidFree =>
      exact h.standing.startTask h.counts pc calls _ _ _ _
  | pollArrives =>
      exact ⟨h.standing.listed, h.standing.freed, h.standing.granted, h.standing.answered⟩
  | pollFailed f held retriesLeft found pc calls =>
      exact h.standing.fiber rfl (.inr ⟨f, found, holdsAt_poll pc _,
        attachedAt_congr (Local.Fiber.keeps_poll pc).held_eq⟩) le_rfl rfl rfl rfl rfl rfl
  | pollAnswered f held retriesLeft foundTask found pc calls arrived =>
      exact h.standing.fiber rfl (.inr ⟨f, found, holdsAt_poll pc _,
        attachedAt_congr (Local.Fiber.keeps_poll pc).held_eq⟩) le_rfl rfl rfl rfl rfl rfl
  | freeServantTask f held found pc calls =>
      exact h.standing.freeServantTask h.counts found pc calls _
        (freed_of_returns (returns_of_spares hspares) found pc)
  | engine engine isInternal step => exact h.standing.engine isInternal step hspares
  | heartbeat =>
      exact ⟨h.standing.listed, h.standing.freed, h.standing.granted, h.standing.answered⟩
  | @notify tasks taskIds scheduler sent applied =>
      refine h.standing.applied h.consistent applied rfl rfl ?_ ?_
      · intro id hid grantId hrunning
        rfl
      · intro expiredGrantIds hids
        rcases List.mem_cons.mp hids with rfl | hold
        · exact .inr fun grantId hgrant =>
            Scheduler.TaskDispatcher.not_liveAt_of_unknown h.consistent applied hgrant
        · exact .inl ⟨hold, nofun⟩
  | answer => exact h.standing.answer _
  | @scheduler op reply scheduler foreign step =>
      obtain ⟨hkept, hfresh⟩ := Bool.and_eq_true_iff.mp hspares
      refine h.standing.applied h.consistent step rfl rfl ?_ ?_
      · intro id hid grantId hrunning
        have hall := List.all_eq_true.mp hkept id hid
        rw [hrunning, Option.all_some] at hall
        simpa using hall
      · intro expiredGrantIds hids
        refine .inl ⟨hids, fun hreply => ?_⟩
        rw [hreply] at hfresh
        simpa using List.all_eq_true.mp hfresh expiredGrantIds hids

theorem consistent_of_step {a : Action} (h : s.scheduler.Consistent) (hstep : Step site s a t) :
    t.scheduler.Consistent := by
  cases effect_of_step hstep with
  | queueTask => exact h
  | fiber => exact h
  | die f found =>
      unfold SharedServant.die
      dsimp only
      split
      · exact h
      · exact h
  | @referenceTask fiber outcome now f running found pc calls =>
      unfold SharedServant.referenceTask
      cases outcome with
      | refused => exact h
      | answered => exact h
      | replyLost =>
          dsimp only
          split
          · exact h
          · exact h
  | @startTask fiber outcome memoryAvailable pid now f grant found pc calls pidFree =>
      unfold SharedServant.startTask
      cases outcome with
      | refused => exact h
      | answered => exact h
      | replyLost =>
          dsimp only
          split
          · exact h
          · exact h
  | pollArrives => exact h
  | pollFailed => exact h
  | pollAnswered => exact h
  | freeServantTask f held found pc calls =>
      unfold SharedServant.freeServantTask
      split
      · exact h
      · exact h
  | engine => exact h
  | heartbeat => exact h
  | notify taskIds scheduler sent applied => exact h.apply applied
  | answer => exact h
  | scheduler scheduler foreign step => exact h.apply step

theorem Shared.step {a : Action} (h : Shared site s)
    (hstep : Guarded (Step site) (Spares site) s a t) : Shared site t where
  consistent := consistent_of_step h.consistent hstep.1
  tracked := tracked_of_step h hstep.1 hstep.2
  counts := h.counts.step ⟨hstep.1, returns_of_spares hstep.2⟩
  standing := standing_of_step h hstep.1 hstep.2
  polled := polled_of_step h hstep.1

theorem shared_new (taskConcurrencyLimit : UInt64) (minMemory : ℕ) :
    Shared site (new taskConcurrencyLimit minMemory) where
  consistent := Scheduler.TaskDispatcher.consistent_empty
  tracked _ := .absent _
  counts := refCounts_new _ _
  standing := ⟨nofun, nofun, nofun, nofun⟩
  polled := nofun

theorem shared_of_run {taskConcurrencyLimit : UInt64} {minMemory : ℕ} {as : List Action}
    (run : Run (Guarded (Step site) (Spares site)) (new taskConcurrencyLimit minMemory) as s) :
    Shared site s :=
  run.invariant (fun _ _ _ h hstep => h.step hstep) (shared_new _ _)

/-! ## What the holders see -/

/-- An answer complains about the grant that a task runs under. -/
def complains (s : SharedServant) (taskId : Cloud.TaskId) : Action → Bool
  | .answer expiredGrantIds => s.engine.runsUnder taskId expiredGrantIds
  | _ => false

/-- No step sends a signal to the child of a task that is held, but an answer that complains
about the task's own grant. -/
theorem killed_of_step {a : Action} (h : Shared site s)
    (hstep : Guarded (Step site) (Spares site) s a t) {taskId : Cloud.TaskId}
    (hheld : taskId ∈ heldTasks site s) (hcomplains : complains s taskId a = false) :
    t.engine.killed taskId = s.engine.killed taskId := by
  obtain ⟨hnext, hspares⟩ := hstep
  cases effect_of_step hnext with
  | queueTask => rfl
  | fiber => rfl
  | die f found =>
      unfold SharedServant.die
      dsimp only
      split
      · rfl
      · rfl
  | @referenceTask fiber outcome now f running found pc calls =>
      have hsame := Cloud.ExecutionEngine.killed_of_processes_eq
        (Cloud.ExecutionEngine.processes_tryReferenceTask (e := s.engine) running.servantTaskId)
        taskId
      unfold SharedServant.referenceTask
      cases outcome with
      | refused => rfl
      | answered => exact hsame
      | replyLost =>
          dsimp only
          split
          · exact hsame
          · exact hsame
  | @startTask fiber outcome memoryAvailable pid now f grant found pc calls pidFree =>
      have hne : taskId ≠ s.engine.nextTaskId :=
        (h.counts.numbered (.inr (holders_pos_iff.mpr hheld))).ne
      have hsame : (s.engine.tryQueueTask grant.grantId f.task.digest memoryAvailable pid
          now).2.killed taskId = s.engine.killed taskId := by
        rcases Cloud.ExecutionEngine.tryQueueTask_cases grant.grantId f.task.digest
          memoryAvailable pid now s.engine with
          ⟨nextTaskId, hnext, heq⟩ | ⟨runningTasks, tasksRunEver, heq⟩
        · rw [heq]
          rfl
        · rw [heq]
          exact congrArg _ (AList.lookup_insert_ne hne)
      unfold SharedServant.startTask
      cases outcome with
      | refused => rfl
      | answered => exact hsame
      | replyLost =>
          dsimp only
          split
          · exact hsame
          · exact hsame
  | pollArrives => rfl
  | pollFailed => rfl
  | pollAnswered => rfl
  | freeServantTask f held found pc calls =>
      unfold SharedServant.freeServantTask
      split
      · rfl
      · exact Cloud.ExecutionEngine.killed_of_processes_eq
          (Cloud.ExecutionEngine.processes_freeTask _) taskId
  | engine engine isInternal step =>
      rcases Cloud.ExecutionEngine.internal_cases isInternal step with
        ⟨now, -, rfl⟩ | ⟨other, rfl, hfreeing, rfl⟩ | ⟨-, -, hsame⟩
      · rfl
      · -- A freed task is in the table no longer, a held one is.
        have hne : taskId ≠ other := by
          rintro rfl
          exact (h.standing.freed taskId hfreeing).2 (h.standing.listed taskId hheld)
        have hmiss := List.all_eq_true.mp hspares taskId hheld
        rw [Bool.or_eq_true] at hmiss
        have hmiss := hmiss.resolve_left (by simpa using hne)
        have hmiss : s.engine.hits other taskId = false := by simpa using hmiss
        exact Cloud.ExecutionEngine.killed_killTask hmiss
      · exact hsame taskId
  | heartbeat => rfl
  | notify => rfl
  | @answer expiredGrantIds sent =>
      apply Cloud.ExecutionEngine.killed_killExpiredTasks
      intro other hmem hruns
      have hne : taskId ≠ other := by
        rintro rfl
        cases hcomplains.symm.trans hruns
      have hmiss := List.all_eq_true.mp hspares other hmem
      rw [hruns, Bool.not_true, Bool.false_or] at hmiss
      have hmiss := List.all_eq_true.mp hmiss taskId hheld
      rw [Bool.or_eq_true] at hmiss
      have hmiss := hmiss.resolve_left (by simpa using hne)
      simpa using hmiss
  | scheduler => rfl

/-- No answer complains about the grant of a task that someone is attached to. -/
theorem not_complains {a : Action} (h : Shared site s) (hstep : Step site s a t)
    {taskId : Cloud.TaskId} (hattached : taskId ∈ attachedTasks site s) :
    complains s taskId a = false := by
  cases effect_of_step hstep with
  | @answer expiredGrantIds sent =>
      have hunder := h.standing.granted taskId hattached
      unfold underGrant at hunder
      change s.engine.runsUnder taskId expiredGrantIds = false
      unfold Cloud.ExecutionEngine.runsUnder
      cases hrunning : s.engine.runningGrant taskId with
      | none => rfl
      | some grantId =>
          rw [hrunning, Option.all_some] at hunder
          rw [Option.any_some, ← Bool.not_eq_true, List.contains_iff_mem]
          intro hmem
          cases (h.standing.answered expiredGrantIds sent grantId hmem).symm.trans hunder
  | queueTask => rfl
  | fiber => rfl
  | die => rfl
  | referenceTask => rfl
  | startTask => rfl
  | pollArrives => rfl
  | pollFailed => rfl
  | pollAnswered => rfl
  | freeServantTask => rfl
  | engine => rfl
  | heartbeat => rfl
  | notify => rfl
  | scheduler => rfl

/-- A call that waits at the servant is answered that the task still runs, or with what its
own child left. -/
theorem compilationOutput_own (h : Shared site s) {fiber : FiberId}
    {foundTask : Option Cloud.TaskId} (hpoll : s.polls.lookup fiber = some foundTask)
    (extraInfo attachment : List UInt8) :
    ∃ f held retriesLeft, s.fibers.lookup fiber = some f ∧ f.pc = .polling held retriesLeft ∧
      ((compilationOutput foundTask extraInfo attachment s.engine).status = .running ∨
        ∃ p exitCode, s.engine.processes.lookup held.acquired = some p ∧
          p.state = .reaped exitCode ∧
          compilationOutput foundTask extraInfo attachment s.engine
            = ⟨.done, exitCode, p.standardOutput, p.standardError, extraInfo, attachment⟩) := by
  obtain ⟨f, held, retriesLeft, hfound, hpc, hcalls, rfl⟩ := h.polled fiber foundTask hpoll
  refine ⟨f, held, retriesLeft, hfound, hpc, ?_⟩
  have hheld := holdsAt_of_held held (congrArg Local.Pc.held hpc) ((calls_iff hpc rfl).mp hcalls)
  have hmem := h.standing.listed held.acquired (mem_tasksOf.mpr ⟨fiber, f, hfound, hheld⟩)
  have hcount := h.counts.count held.acquired hmem
  unfold Cloud.ExecutionEngine.refs at hcount
  obtain ⟨desc, hdesc, -⟩ := Option.map_eq_some_iff.mp hcount
  unfold compilationOutput Cloud.ExecutionEngine.waitForTask
  rw [Option.bind_some, hdesc]
  dsimp only
  by_cases hdone : desc.countDowns = 0
  · rw [if_pos hdone]
    exact .inl rfl
  · rw [if_neg hdone]
    obtain ⟨p, output, hp, hcompletions, hstate, hout, herr⟩ := h.tracked.told hdesc hdone
    refine .inr ⟨p, output.exitCode, hp, hstate, ?_⟩
    dsimp only
    rw [hcompletions, ← hout, ← herr]
    rfl

/-- As long as the scheduler takes back no grant of a running task that a client is attached
to, a client attaches to no running task whose grant is gone, clients free the tasks they
hold, and process IDs and grants are not reused in a way that confuses the engine: no step
kills the child of a task that a client is attached to, and that of one that its starter
holds only by an answer about the task's own grant; and every poll of a holder is answered
that the task still runs, or with what its own child left. -/
theorem attached_survives {taskConcurrencyLimit : UInt64} {minMemory : ℕ} {as : List Action}
    (run : Run (Guarded (Step site) (Spares site)) (new taskConcurrencyLimit minMemory) as s) :
    (∀ a t taskId, Guarded (Step site) (Spares site) s a t → taskId ∈ attachedTasks site s →
      t.engine.killed taskId = s.engine.killed taskId) ∧
    (∀ a t taskId, Guarded (Step site) (Spares site) s a t → taskId ∈ heldTasks site s →
      complains s taskId a = false → t.engine.killed taskId = s.engine.killed taskId) ∧
    ∀ fiber foundTask extraInfo attachment, s.polls.lookup fiber = some foundTask →
      ∃ f held retriesLeft, s.fibers.lookup fiber = some f ∧ f.pc = .polling held retriesLeft ∧
        ((compilationOutput foundTask extraInfo attachment s.engine).status = .running ∨
          ∃ p exitCode, s.engine.processes.lookup held.acquired = some p ∧
            p.state = .reaped exitCode ∧
            compilationOutput foundTask extraInfo attachment s.engine
              = ⟨.done, exitCode, p.standardOutput, p.standardError, extraInfo, attachment⟩) := by
  have hshared := shared_of_run run
  refine ⟨fun a t taskId hstep hattached => ?_, fun a t taskId hstep hheld hcomplains => ?_,
    fun fiber foundTask extraInfo attachment hpoll => ?_⟩
  · exact killed_of_step hshared hstep (attached_held hattached)
      (not_complains hshared hstep.1 hattached)
  · exact killed_of_step hshared hstep hheld hcomplains
  · exact compilationOutput_own hshared hpoll extraInfo attachment

/-- The servant registers and gets a grant, under which one fiber starts a task; another
one attaches to it. -/
def sharedRun : List Action :=
  [.scheduler (.keepServantAlive (Scheduler.TaskDispatcher.sampleServant "10.0.0.1:1") 100 0 0)
      .done,
    .scheduler (.waitForStartingNewTask Scheduler.TaskDispatcher.sampleTask 5 false 0 0)
      (.attempt (.allocated ⟨0, "10.0.0.1:1"⟩))] ++ startOn 0 5 100 0 ++
  [.queueTask 1 1 "d" .allow 0 0, .fiber 1 (.readCache none),
    .fiber 1 (.findTask (some ⟨"10.0.0.1:1", 1⟩)), .referenceTask 1 .answered 0]

/-- The servant reports what it runs, and gets its answer. -/
def report : List Action :=
  [.heartbeat, .notify [⟨1, 0, "10.0.0.1:1", "d"⟩]]

theorem attached_survives_sharedRun :
    ∃ s t, follow (guardedNext (next sampleSite) (Spares sampleSite)) (sharedRun ++ report)
        (new 4 0) = some s ∧ next sampleSite s (.answer []) = some t ∧
      t.engine.killed 1 = s.engine.killed 1 := by
  have hfinal : ((follow (guardedNext (next sampleSite) (Spares sampleSite))
      (sharedRun ++ report) (new 4 0)).bind fun s => (next sampleSite s (.answer [])).bind
        fun _ => some (attachedTasks sampleSite s, spares sampleSite s (.answer [])))
      = some ([1], true) := by
    decide
  obtain ⟨s, hfollow, hs⟩ := Option.bind_eq_some_iff.mp hfinal
  obtain ⟨t, ht, hst⟩ := Option.bind_eq_some_iff.mp hs
  obtain ⟨hattached, hspares⟩ := Prod.mk.inj (Option.some.inj hst)
  exact ⟨s, t, hfollow, ht, (attached_survives
    (.of_follow (guarded_of_guardedNext fun _ _ _ h => h) hfollow)).1 (.answer []) t 1
      ⟨ht, hspares⟩ (by rw [hattached]; exact List.mem_singleton_self 1)⟩

/-- The starter is aborted: it frees the task and then the grant. -/
def starterLeaves : List Action :=
  [.fiber 0 .abort, .fiber 0 .checkWait, .freeServantTask 0 .answered, .fiber 0 .freeGrant,
    .scheduler (.freeTask 0) .done]

/-- The starter leaves, and the answer to the next heartbeat kills the child of the task that
the other fiber is attached to. -/
theorem attached_killed :
    ∃ s t, Run (Step sampleSite) (new 4 0) (sharedRun ++ starterLeaves ++ report) s ∧
      Step sampleSite s (.answer [0]) t ∧ 1 ∈ attachedTasks sampleSite s ∧
      s.engine.killed 1 = some false ∧ t.engine.killed 1 = some true := by
  have hfinal : ((follow (next sampleSite) (sharedRun ++ starterLeaves ++ report)
      (new 4 0)).bind fun s => (next sampleSite s (.answer [0])).bind fun t =>
        some (attachedTasks sampleSite s, s.engine.killed 1, t.engine.killed 1))
      = some ([1], some false, some true) := by
    decide
  obtain ⟨s, hfollow, hs⟩ := Option.bind_eq_some_iff.mp hfinal
  obtain ⟨t, ht, hst⟩ := Option.bind_eq_some_iff.mp hs
  obtain ⟨hattached, hkilled⟩ := Prod.mk.inj (Option.some.inj hst)
  obtain ⟨hbefore, hafter⟩ := Prod.mk.inj hkilled
  exact ⟨s, t, .of_follow (fun _ _ _ h => h) hfollow, ht,
    by rw [hattached]; exact List.mem_singleton_self 1, hbefore, hafter⟩

end SharedServant

end Yadcc.Daemon
