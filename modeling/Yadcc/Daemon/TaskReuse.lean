/-
# Attaching to a task by its number

A fiber that waits for a task of another one knows it by a location and a number, and the
process that it asks may be another one than the process that reported the number. Within one
process a number stays with its task. So what was said of a task stays true of it for as long
as its process runs, on whichever way and however late it gets to a fiber.
-/

import Yadcc.Daemon.Cloud.TaskSharing
import Yadcc.Daemon.Cluster
import Yadcc.Daemon.Local.TaskOutcome
import Yadcc.Scheduler.TaskDispatcherInvariant

namespace Yadcc.Daemon

open Yadcc.Lib

/-! ## Numbers of tasks -/

namespace Cloud.ExecutionEngine

variable {τ : Type} {e e' : ExecutionEngine τ}

/-- The user's task with a number, also after it left the table. -/
def userTask (e : ExecutionEngine τ) (taskId : TaskId) : Option τ :=
  (e.descs.lookup taskId).map TaskDesc.task

/-- A number that was not given yet names nothing. -/
def NumbersFresh (e : ExecutionEngine τ) : Prop :=
  ∀ taskId, e.nextTaskId ≤ taskId → e.userTask taskId = none

/-- No number is given twice, so what it names stays. -/
structure KeepsNumbers (e e' : ExecutionEngine τ) : Prop where
  fresh : NumbersFresh e'
  userTask : ∀ taskId task, e.userTask taskId = some task → e'.userTask taskId = some task

theorem keepsNumbers_of_userTask_eq (hfresh : NumbersFresh e)
    (hnext : e.nextTaskId ≤ e'.nextTaskId) (h : ∀ taskId, e'.userTask taskId = e.userTask taskId) :
    KeepsNumbers e e' where
  fresh taskId hle := (h taskId).trans (hfresh taskId (hnext.trans hle))
  userTask taskId _ htask := (h taskId).trans htask

theorem Quiet.keepsNumbers (h : Quiet e e') (hfresh : NumbersFresh e) : KeepsNumbers e e' := by
  refine keepsNumbers_of_userTask_eq hfresh h.nextTaskId_eq.ge fun taskId => ?_
  have hshared : ∀ e : ExecutionEngine τ, e.userTask taskId =
      ((e.descs.lookup taskId).map TaskDesc.sharing).map Sharing.task := by
    intro e
    rw [Option.map_map]
    rfl
  rw [hshared, hshared, h.sharing]

/-- A task may be changed as far as it is the user's. -/
theorem keepsNumbers_of_modify {taskId : TaskId} {f : TaskDesc τ → TaskDesc τ}
    (hfresh : NumbersFresh e) (hnext : e'.nextTaskId = e.nextTaskId)
    (hdescs : e'.descs = e.descs.modify taskId f) (hf : ∀ desc, (f desc).task = desc.task) :
    KeepsNumbers e e' := by
  refine keepsNumbers_of_userTask_eq hfresh hnext.ge fun id => ?_
  unfold userTask
  rw [hdescs, AList.lookup_modify]
  split
  · next h =>
      rw [h, Option.map_map]
      congr 1
      funext desc
      exact hf desc
  · rfl

theorem keepsNumbers_tryReferenceTask (hfresh : NumbersFresh e) (taskId : TaskId) :
    KeepsNumbers e (e.tryReferenceTask taskId).2 := by
  unfold tryReferenceTask
  split
  · exact keepsNumbers_of_modify hfresh rfl rfl fun _ => rfl
  · exact keepsNumbers_of_userTask_eq hfresh le_rfl fun _ => rfl

theorem keepsNumbers_freeTask (hfresh : NumbersFresh e) (taskId : TaskId) :
    KeepsNumbers e (e.freeTask taskId) := by
  rcases freeTask_cases taskId e with ⟨-, hsame⟩ | ⟨desc, -, -, ⟨-, hfree⟩ | ⟨-, hfree⟩⟩
  · rw [hsame]
    exact keepsNumbers_of_userTask_eq hfresh le_rfl fun _ => rfl
  · rw [hfree]
    exact keepsNumbers_of_modify hfresh rfl rfl fun _ => rfl
  · rw [hfree]
    exact keepsNumbers_of_modify hfresh rfl rfl fun _ => rfl

theorem keepsNumbers_tryQueueTask (hfresh : NumbersFresh e) (grantId : GrantId) (userTask : τ)
    (memoryAvailable : ℕ) (pid : Pid) (now : Nanoseconds) :
    KeepsNumbers e (e.tryQueueTask grantId userTask memoryAvailable pid now).2 := by
  rcases tryQueueTask_cases grantId userTask memoryAvailable pid now e with
    ⟨nextTaskId, hle, hrefused⟩ | ⟨runningTasks, tasksRunEver, hqueued⟩
  · rw [hrefused]
    exact keepsNumbers_of_userTask_eq hfresh hle fun _ => rfl
  · rw [hqueued]
    have hlookup : ∀ id, id ≠ e.nextTaskId → (startProgram e.nextTaskId
        (newTask grantId userTask pid now)
        { e with nextTaskId := e.nextTaskId + 1, runningTasks, tasksRunEver }).userTask id =
          e.userTask id := by
      intro id hne
      unfold ExecutionEngine.userTask startProgram
      rw [AList.lookup_insert_ne hne]
    constructor
    · intro id hle
      have hlt : e.nextTaskId < id := hle
      rw [hlookup id hlt.ne']
      exact hfresh id hlt.le
    · intro id task htask
      rw [hlookup id]
      · exact htask
      · -- The new number named nothing before.
        rintro rfl
        rw [hfresh e.nextTaskId le_rfl] at htask
        cases htask

theorem keepsNumbers_killExpiredTasks (hfresh : NumbersFresh e) (expiredGrantIds : List GrantId) :
    KeepsNumbers e (e.killExpiredTasks expiredGrantIds) :=
  (sameTasks_killExpiredTasks expiredGrantIds e).quiet.keepsNumbers hfresh

theorem keepsNumbers_killAll (hfresh : NumbersFresh e) (h : e.killAll = some e') :
    KeepsNumbers e e' := by
  unfold killAll at h
  split at h
  · cases h
    have hsame : SameTasks e (e.tasks.foldl (fun e taskId => killTask taskId e) e) :=
      .foldl (fun e taskId => sameTasks_killTask taskId e) e.tasks e
    refine keepsNumbers_of_userTask_eq hfresh hsame.nextTaskId_eq.ge fun taskId => ?_
    unfold ExecutionEngine.userTask
    rw [hsame.descs_eq]
  · cases h

theorem numbersFresh_empty (taskConcurrencyLimit : UInt64) (minMemory : ℕ) :
    NumbersFresh (empty τ taskConcurrencyLimit minMemory) :=
  fun _ _ => rfl

end Cloud.ExecutionEngine

namespace Cluster

variable {cfg : ClusterConfig} {s t : Cluster} {a : Action}

theorem keepsNumbers_of_own {e e' : Cloud.ExecutionEngine String}
    {a : Cloud.ExecutionEngine.Action String} (hfresh : e.NumbersFresh) (hown : isOwn a = true)
    (h : e.Step a e') : e.KeepsNumbers e' := by
  by_cases hinternal : a.isInternal = true
  · exact (Cloud.ExecutionEngine.quiet_of_internal hinternal h).keepsNumbers hfresh
  · unfold Cloud.ExecutionEngine.Step Cloud.ExecutionEngine.next at h
    split at h
    · cases h
    · cases a with
      | stop =>
          cases h
          exact Cloud.ExecutionEngine.keepsNumbers_of_userTask_eq hfresh le_rfl fun _ => rfl
      | killAll => exact Cloud.ExecutionEngine.keepsNumbers_killAll hfresh h
      | _ => exact absurd hown hinternal

/-! ## What was said of a task -/

/-- A process that was started at the location has a task of that number and digest, if it
still runs. -/
structure Reported (s : Cluster) (location : String) (incarnation : Incarnation)
    (taskId : Cloud.TaskId) (digest : String) : Prop where
  started : incarnation < s.started location
  accurate : ∀ servant, s.servants.lookup location = some servant →
    servant.incarnation = incarnation → servant.engine.userTask taskId = some digest

/-- Processes that ran before and still run have kept their numbers. -/
structure Later (s t : Cluster) : Prop where
  started : ∀ location, s.started location ≤ t.started location
  kept : ∀ location servant', t.servants.lookup location = some servant' →
    servant'.incarnation < s.started location →
    ∃ servant, s.servants.lookup location = some servant ∧
      servant.incarnation = servant'.incarnation ∧
      ∀ taskId digest, servant.engine.userTask taskId = some digest →
        servant'.engine.userTask taskId = some digest

theorem Later.of_eq (hstarted : t.started = s.started) (hservants : t.servants = s.servants) :
    Later s t where
  started _ := (congrFun hstarted _).ge
  kept _ servant' hservant' _ :=
    ⟨servant', hservants ▸ hservant', rfl, fun _ _ h => h⟩

theorem Reported.later {location : String} {incarnation : Incarnation} {taskId : Cloud.TaskId}
    {digest : String} (h : Reported s location incarnation taskId digest) (hlater : Later s t) :
    Reported t location incarnation taskId digest where
  started := h.started.trans_le (hlater.started location)
  accurate servant' hservant' hsame := by
    obtain ⟨servant, hservant, hincarnation, hkept⟩ :=
      hlater.kept location servant' hservant' (hsame ▸ h.started)
    exact hkept taskId digest (h.accurate servant hservant (hincarnation.trans hsame))

/-- A task that a process at its location reported. -/
def ReportedTask (s : Cluster) (incarnation : Incarnation) (task : Scheduler.RunningTask) :
    Prop :=
  Reported s task.servantLocation incarnation task.servantTaskId task.taskDigest

def referencedTask : Local.Held → Option Local.RunningTaskDesc
  | .referenced running => some running
  | .started _ _ => none

/-- The task that a fiber is about to attach to, or has attached to. -/
def attachedTo : Local.Pc → Option Local.RunningTaskDesc
  | .referencing running => some running
  | .waiting held _ => referencedTask held
  | .polling held _ => referencedTask held
  | .freeing held => referencedTask held
  | _ => none

/-- What a fiber attaches to was reported under the digest of its own task. -/
def ReportedFiber (s : Cluster) (f : DelegateFiber) : Prop :=
  ∀ running, attachedTo f.fiber.pc = some running →
    Reported s running.servantLocation f.reporter running.servantTaskId f.fiber.task.digest

/-- A poll waits for the task of its fiber, if for any. -/
def PolledFiber (s : Cluster) (fiber : FiberId) (poll : Poll) : Prop :=
  ∃ f held retriesLeft, s.fibers.lookup fiber = some f ∧
    f.fiber.pc = .polling held retriesLeft ∧
    ∀ taskId, poll.found = some taskId → taskId = held.acquired

/-- Everything that is known of a task, at whatever place, was reported by a process of its
location. -/
structure Traced (s : Cluster) : Prop where
  servants : ∀ location servant, s.servants.lookup location = some servant →
    servant.incarnation < s.started location ∧ servant.engine.NumbersFresh
  scheduler : Scheduler.TaskDispatcher.Consistent s.scheduler
  heartbeats : ∀ heartbeat ∈ s.heartbeats, ∀ task ∈ heartbeat.runningTasks,
    task.servantLocation = heartbeat.location ∧ ReportedTask s heartbeat.incarnation task
  bookkept : ∀ location tasks,
    s.scheduler.runningTaskBookkeeper.runningTasks.lookup location = some tasks →
    ∀ task ∈ tasks, task.servantLocation = location ∧ ReportedTask s (s.reporter location) task
  snapshots : ∀ snapshot ∈ s.snapshots, ∀ task ∈ snapshot.runningTasks,
    ReportedTask s (snapshot.reporter task.servantLocation) task
  delegates : ∀ daemon delegate, s.delegates.lookup daemon = some delegate →
    ∀ digest running, delegate.keeper.tryFindTask digest = some running →
    Reported s running.servantLocation (delegate.reporter running.servantLocation)
      running.servantTaskId digest
  fibers : ∀ fiber f, s.fibers.lookup fiber = some f → ReportedFiber s f
  polls : ∀ fiber poll, s.polls.lookup fiber = some poll → PolledFiber s fiber poll

theorem traced_empty : Traced empty where
  servants location servant h := by cases h
  scheduler := Scheduler.TaskDispatcher.consistent_empty
  heartbeats heartbeat h := by cases h
  bookkept location tasks h := by cases h
  snapshots snapshot h := by cases h
  delegates daemon delegate h := by cases h
  fibers fiber f h := by cases h
  polls fiber poll h := by cases h

/-! ## Steps of servants -/

/-- The knowledge of the programs other than the servants. -/
structure SameKnowledge (s t : Cluster) : Prop where
  scheduler_eq : t.scheduler = s.scheduler
  reporter_eq : t.reporter = s.reporter
  heartbeats_eq : t.heartbeats = s.heartbeats
  delegates_eq : t.delegates = s.delegates
  snapshots_eq : t.snapshots = s.snapshots

/-- Servants go on; fibers and polls may change as far as they stay traced. -/
theorem Traced.later (h : Traced s) (hlater : Later s t) (hsame : SameKnowledge s t)
    (hservants : ∀ location servant, t.servants.lookup location = some servant →
      servant.incarnation < t.started location ∧ servant.engine.NumbersFresh)
    (hfibers : ∀ fiber f, t.fibers.lookup fiber = some f → ReportedFiber t f)
    (hpolls : ∀ fiber poll, t.polls.lookup fiber = some poll → PolledFiber t fiber poll) :
    Traced t where
  servants := hservants
  scheduler := hsame.scheduler_eq ▸ h.scheduler
  heartbeats heartbeat hmem task htask := by
    obtain ⟨hlocation, hreported⟩ := h.heartbeats heartbeat (hsame.heartbeats_eq ▸ hmem) task htask
    exact ⟨hlocation, hreported.later hlater⟩
  bookkept location tasks hlookup task htask := by
    rw [hsame.scheduler_eq] at hlookup
    obtain ⟨hlocation, hreported⟩ := h.bookkept location tasks hlookup task htask
    rw [hsame.reporter_eq]
    exact ⟨hlocation, hreported.later hlater⟩
  snapshots snapshot hmem task htask :=
    (h.snapshots snapshot (hsame.snapshots_eq ▸ hmem) task htask).later hlater
  delegates daemon delegate hlookup digest running hfound :=
    (h.delegates daemon delegate (hsame.delegates_eq ▸ hlookup) digest running hfound).later hlater
  fibers := hfibers
  polls := hpolls

theorem later_of_insert {location : String} {servant : Servant}
    {engine : Cloud.ExecutionEngine String} (found : s.servants.lookup location = some servant)
    (hkeeps : servant.engine.KeepsNumbers engine) (hstarted : t.started = s.started)
    (hservants : t.servants = s.servants.insert location { servant with engine }) : Later s t where
  started _ := (congrFun hstarted _).ge
  kept location' servant' hservant' _ := by
    rw [hservants, AList.lookup_insert_eq] at hservant'
    split at hservant'
    · next heq =>
        cases hservant'
        exact ⟨servant, heq ▸ found, rfl, hkeeps.userTask⟩
    · exact ⟨servant', hservant', rfl, fun _ _ h => h⟩

theorem later_startServant (s : Cluster) (location : String) (taskConcurrencyLimit : UInt64)
    (minMemory : ℕ) :
    Later s { s with
      servants := s.servants.insert location
        ⟨s.started location, .empty String taskConcurrencyLimit minMemory⟩
      started := Function.update s.started location (s.started location + 1) } where
  started location' := by
    dsimp only
    rw [Function.update_apply]
    split
    · next heq =>
        subst heq
        exact Nat.le_succ _
    · exact le_rfl
  kept location' servant' hservant' hlt := by
    rw [AList.lookup_insert_eq] at hservant'
    split at hservant'
    · next heq =>
        -- The new process is none of those that were started before.
        cases hservant'
        subst heq
        exact absurd hlt (lt_irrefl _)
    · exact ⟨servant', hservant', rfl, fun _ _ h => h⟩

theorem later_exitServant (s : Cluster) (location : String) :
    Later s { s with servants := s.servants.erase location } where
  started _ := le_rfl
  kept location' servant' hservant' _ := by
    rw [AList.lookup_erase_eq] at hservant'
    split at hservant'
    · cases hservant'
    · exact ⟨servant', hservant', rfl, fun _ _ h => h⟩

/-- A step of an engine leaves the servants fresh. -/
theorem Traced.servants_insert (h : Traced s) {location : String} {servant : Servant}
    {engine : Cloud.ExecutionEngine String} (found : s.servants.lookup location = some servant)
    (hkeeps : servant.engine.KeepsNumbers engine) :
    ∀ location' servant', (s.servants.insert location { servant with engine }).lookup location' =
        some servant' →
      servant'.incarnation < s.started location' ∧ servant'.engine.NumbersFresh := by
  intro location' servant' hservant'
  rw [AList.lookup_insert_eq] at hservant'
  split at hservant'
  · next heq =>
      cases hservant'
      exact ⟨heq ▸ (h.servants location servant found).1, hkeeps.fresh⟩
  · exact h.servants location' servant' hservant'

theorem ReportedFiber.later {f : DelegateFiber} (h : ReportedFiber s f) (hlater : Later s t) :
    ReportedFiber t f :=
  fun running hrunning => (h running hrunning).later hlater

theorem Traced.engine (h : Traced s) {location : String} {servant : Servant}
    {engine : Cloud.ExecutionEngine String} (found : s.servants.lookup location = some servant)
    (hkeeps : servant.engine.KeepsNumbers engine) :
    Traced (s.setEngine location servant engine) := by
  have hlater : Later s (s.setEngine location servant engine) :=
    later_of_insert found hkeeps rfl rfl
  exact h.later hlater ⟨rfl, rfl, rfl, rfl, rfl⟩ (h.servants_insert found hkeeps)
    (fun fiber f hf => (h.fibers fiber f hf).later hlater) h.polls

/-! ## Steps of fibers -/

/-- What a fiber does alone does not attach it to anything. -/
theorem attachedTo_of_alone {cfg : Local.DispatcherConfig} {f f' : Local.Fiber}
    {event : Local.Event} (halone : isAlone event = true) (hstep : f.Step cfg event f')
    {running : Local.RunningTaskDesc} (h : attachedTo f'.pc = some running) :
    attachedTo f.pc = some running := by
  cases Local.Fiber.took_of_step hstep with
  | abort => exact h
  | readCache entry hpc =>
      unfold Local.Fiber.readCache at h
      split at h
      · cases h
      · split at h
        · cases h
        · cases h
  | findTask found hpc => cases halone
  | referenceTask found ok now hpc =>
      cases ok with
      | false => cases h
      | true => cases halone
  | checkGrant hpc =>
      unfold Local.Fiber.checkGrant at h
      split at h
      · cases h
      · cases h
  | getGrant grant now hpc =>
      cases grant with
      | none => cases h
      | some grant => cases h
  | startTask grant servantTaskId now hpc =>
      cases servantTaskId with
      | none => cases h
      | some servantTaskId => cases halone
  | checkWait held retriesLeft hpc =>
      rw [hpc]
      unfold Local.Fiber.checkWait at h
      split at h
      · exact h
      · exact h
  | poll held retriesLeft result hpc => cases halone
  | freeServantTask held hpc =>
      cases held with
      | referenced found => cases h
      | started grant servantTaskId => cases h
  | freeGrant grantId hpc => cases h
  | complete now hpc => cases h

theorem attachedTo_poll {cfg : Local.DispatcherConfig} {f : Local.Fiber} {held : Local.Held}
    {retriesLeft : ℕ} {result : Option Local.CompilationOutput}
    (hpc : f.pc = .polling held retriesLeft) {running : Local.RunningTaskDesc}
    (h : attachedTo (f.poll cfg held retriesLeft result).pc = some running) :
    attachedTo f.pc = some running := by
  rw [hpc]
  unfold Local.Fiber.poll at h
  split at h
  · exact h
  · exact h
  · exact h
  · exact h

theorem digest_referenceTask (cfg : Local.DispatcherConfig) (running : Local.RunningTaskDesc)
    (ok : Bool) (now : ℕ) (f : Local.Fiber) :
    (f.referenceTask cfg running ok now).task.digest = f.task.digest := by
  cases ok with
  | false => rfl
  | true => rfl

theorem digest_startTask (cfg : Local.DispatcherConfig) (grant : Local.GrantDesc)
    (servantTaskId : Option ℕ) (now : ℕ) (f : Local.Fiber) :
    (f.startTask cfg grant servantTaskId now).task.digest = f.task.digest := by
  cases servantTaskId with
  | none => rfl
  | some servantTaskId => rfl

/-- A fiber that polls and is left alone goes on polling. -/
theorem polling_of_alone {cfg : Local.DispatcherConfig} {f f' : Local.Fiber}
    {event : Local.Event} (halone : isAlone event = true) (hstep : f.Step cfg event f')
    {held : Local.Held} {retriesLeft : ℕ} (hpc : f.pc = .polling held retriesLeft) :
    f'.pc = .polling held retriesLeft := by
  cases Local.Fiber.took_of_step hstep with
  | abort => exact hpc
  | poll held' retriesLeft' result hpc' => cases halone
  | readCache entry hpc' => cases hpc.symm.trans hpc'
  | findTask found hpc' => cases halone
  | referenceTask found ok now hpc' => cases hpc.symm.trans hpc'
  | checkGrant hpc' => cases hpc.symm.trans hpc'
  | getGrant grant now hpc' => cases hpc.symm.trans hpc'
  | startTask grant servantTaskId now hpc' => cases hpc.symm.trans hpc'
  | checkWait held' retriesLeft' hpc' => cases hpc.symm.trans hpc'
  | freeServantTask held' hpc' => cases hpc.symm.trans hpc'
  | freeGrant grantId hpc' => cases hpc.symm.trans hpc'
  | complete now hpc' => cases hpc.symm.trans hpc'

/-- Nobody polls for a fiber elsewhere. -/
theorem Traced.no_poll (h : Traced s) {fiber : FiberId}
    (hnot : ∀ f held retriesLeft, s.fibers.lookup fiber = some f →
      f.fiber.pc ≠ .polling held retriesLeft) : s.polls.lookup fiber = none := by
  cases hpoll : s.polls.lookup fiber with
  | none => rfl
  | some poll =>
      obtain ⟨f, held, retriesLeft, hfound, hpc, -⟩ := h.polls fiber poll hpoll
      exact absurd hpc (hnot f held retriesLeft hfound)

theorem Traced.not_polled (h : Traced s) {fiber : FiberId} {f : DelegateFiber}
    (found : s.fibers.lookup fiber = some f)
    (hnot : ∀ held retriesLeft, f.fiber.pc ≠ .polling held retriesLeft) :
    s.polls.lookup fiber = none := by
  refine h.no_poll fun f' held retriesLeft hfound => ?_
  rw [found] at hfound
  cases hfound
  exact hnot held retriesLeft

/-- The polls of the other fibers are as they were. -/
theorem Traced.polls_insert (h : Traced s) {fiber : FiberId} {f : DelegateFiber}
    (hfibers : t.fibers = s.fibers.insert fiber f)
    (hothers : ∀ other, other ≠ fiber → t.polls.lookup other = s.polls.lookup other)
    (hown : ∀ poll, t.polls.lookup fiber = some poll → PolledFiber t fiber poll) :
    ∀ other poll, t.polls.lookup other = some poll → PolledFiber t other poll := by
  intro other poll hpoll
  by_cases heq : other = fiber
  · subst heq
    exact hown poll hpoll
  · rw [hothers other heq] at hpoll
    obtain ⟨f', held, retriesLeft, hfound, hpc, hheld⟩ := h.polls other poll hpoll
    refine ⟨f', held, retriesLeft, ?_, hpc, hheld⟩
    rw [hfibers, AList.lookup_insert_ne heq]
    exact hfound

theorem Traced.fibers_insert (h : Traced s) (hlater : Later s t) {fiber : FiberId}
    {f : DelegateFiber} (hfibers : t.fibers = s.fibers.insert fiber f)
    (hreported : ReportedFiber s f) :
    ∀ other f', t.fibers.lookup other = some f' → ReportedFiber t f' := by
  intro other f' hfound
  rw [hfibers, AList.lookup_insert_eq] at hfound
  split at hfound
  · cases hfound
    exact hreported.later hlater
  · exact (h.fibers other f' hfound).later hlater

/-- A fiber goes on that nobody polls for any more. -/
theorem Traced.setFiber (h : Traced s) {fiber : FiberId} {f : DelegateFiber}
    (hreported : ReportedFiber s f) (hnone : s.polls.lookup fiber = none) :
    Traced (s.setFiber fiber f) := by
  have hlater : Later s (s.setFiber fiber f) := .of_eq rfl rfl
  refine h.later hlater ⟨rfl, rfl, rfl, rfl, rfl⟩ h.servants
    (h.fibers_insert hlater rfl hreported)
    (h.polls_insert rfl (fun _ _ => rfl) fun poll hpoll => ?_)
  have hpoll' : s.polls.lookup fiber = some poll := hpoll
  rw [hnone] at hpoll'
  cases hpoll'

/-- A poll ends. -/
theorem Traced.erasePoll (h : Traced s) (fiber : FiberId) :
    Traced { s with polls := s.polls.erase fiber } := by
  have hlater : Later s { s with polls := s.polls.erase fiber } := .of_eq rfl rfl
  refine h.later hlater ⟨rfl, rfl, rfl, rfl, rfl⟩ h.servants
    (fun other f hf => (h.fibers other f hf).later hlater) fun other poll hpoll => ?_
  rw [AList.lookup_erase_eq] at hpoll
  split at hpoll
  · cases hpoll
  · exact h.polls other poll hpoll

theorem Traced.findTask (h : Traced s) {f f' : DelegateFiber} {delegate : Delegate}
    (known : s.delegates.lookup f.daemon = some delegate)
    (step : findTask cfg delegate f = some f') : ReportedFiber s f' := by
  obtain ⟨fiber', hnext, rfl⟩ := Option.map_eq_some_iff.mp step
  intro running hrunning
  have hdigest := (Local.Fiber.task_of_step hnext).2
  cases Local.Fiber.took_of_step hnext with
  | findTask found hpc =>
      cases hfound : delegate.keeper.tryFindTask f.fiber.task.digest with
      | none =>
          rw [hfound] at hrunning
          cases hrunning
      | some running' =>
          rw [hfound] at hrunning
          cases hrunning
          exact h.delegates f.daemon delegate known f.fiber.task.digest running hfound

theorem Traced.referenceTask (h : Traced s) {fiber : FiberId} {f : DelegateFiber}
    {running : Local.RunningTaskDesc} {called : String} {callee : String × Servant}
    (found : s.fibers.lookup fiber = some f) (calls : Calls cfg s f called callee.1 callee.2)
    (pc : f.fiber.pc = .referencing running) (replyLost : Bool) (now : ℕ) :
    Traced (s.referenceTask cfg fiber f running callee replyLost now) := by
  have hkeeps := Cloud.ExecutionEngine.keepsNumbers_tryReferenceTask
    (h.servants callee.1 callee.2 calls.found).2 running.servantTaskId
  have hlater : Later s (s.setEngine callee.1 callee.2
      (callee.2.engine.tryReferenceTask running.servantTaskId).2) :=
    later_of_insert calls.found hkeeps rfl rfl
  have hnone : s.polls.lookup fiber = none :=
    h.not_polled found fun held retriesLeft hpolling => by cases pc.symm.trans hpolling
  refine (h.engine calls.found hkeeps).setFiber ?_ hnone
  intro running' hrunning'
  have hsame : running' = running := by
    unfold Local.Fiber.referenceTask at hrunning'
    split at hrunning'
    · cases hrunning'
      rfl
    · cases hrunning'
  rw [hsame, digest_referenceTask]
  exact (h.fibers fiber f found running (by rw [pc]; rfl)).later hlater

theorem Traced.startTask (h : Traced s) {fiber : FiberId} {f : DelegateFiber}
    {grant : Local.GrantDesc} {called : String} {callee : String × Servant}
    (found : s.fibers.lookup fiber = some f) (calls : Calls cfg s f called callee.1 callee.2)
    (pc : f.fiber.pc = .starting grant) (replyLost : Bool) (digest : String)
    (memoryAvailable pid now : ℕ) :
    Traced (s.startTask cfg fiber f grant callee replyLost digest memoryAvailable pid now) := by
  have hkeeps := Cloud.ExecutionEngine.keepsNumbers_tryQueueTask
    (h.servants callee.1 callee.2 calls.found).2 grant.grantId digest memoryAvailable pid now
  have hnone : s.polls.lookup fiber = none :=
    h.not_polled found fun held retriesLeft hpolling => by cases pc.symm.trans hpolling
  refine (h.engine calls.found hkeeps).setFiber ?_ hnone
  intro running hrunning
  cases htaskId : (if replyLost then none else
      (callee.2.engine.tryQueueTask grant.grantId digest memoryAvailable pid now).1) with
  | none =>
      dsimp only at hrunning
      rw [htaskId] at hrunning
      cases hrunning
  | some taskId =>
      dsimp only at hrunning
      rw [htaskId] at hrunning
      cases hrunning

theorem Traced.freeServantTask (h : Traced s) {fiber : FiberId} {f : DelegateFiber}
    {held : Local.Held} {called : String} {callee : String × Servant}
    (found : s.fibers.lookup fiber = some f) (calls : Calls cfg s f called callee.1 callee.2)
    (pc : f.fiber.pc = .freeing held) : Traced (s.freeServantTask cfg fiber f held callee) := by
  have hkeeps := Cloud.ExecutionEngine.keepsNumbers_freeTask
    (h.servants callee.1 callee.2 calls.found).2 (held.freed f.fiber.task.taskId)
  have hnone : s.polls.lookup fiber = none :=
    h.not_polled found fun held retriesLeft hpolling => by cases pc.symm.trans hpolling
  refine (h.engine calls.found hkeeps).setFiber ?_ hnone
  intro running hrunning
  cases held with
  | referenced running' => cases hrunning
  | started grant servantTaskId => cases hrunning

/-- A poll ends with the fiber where it may go on. -/
theorem Traced.pollEnds (h : Traced s) {fiber : FiberId} {f f' : DelegateFiber}
    {held : Local.Held} {retriesLeft : ℕ} (dispatcher : Local.DispatcherConfig)
    (result : Option Local.CompilationOutput) (found : s.fibers.lookup fiber = some f)
    (pc : f.fiber.pc = .polling held retriesLeft)
    (hfiber : f'.fiber = f.fiber.poll dispatcher held retriesLeft result)
    (hreporter : f'.reporter = f.reporter) :
    Traced ({ s with polls := s.polls.erase fiber }.setFiber fiber f') := by
  have herased := h.erasePoll fiber
  refine herased.setFiber ?_ (by rw [AList.lookup_erase_eq, if_pos rfl])
  intro running hrunning
  have hdigest : f'.fiber.task.digest = f.fiber.task.digest := by
    rw [hfiber]
    exact (Local.Fiber.keeps_poll pc).digest_eq
  rw [hfiber] at hrunning
  rw [hreporter, hdigest]
  exact herased.fibers fiber f found running (attachedTo_poll pc hrunning)

theorem Traced.fiber (h : Traced s) {fiber : FiberId} {event : Local.Event} {f : DelegateFiber}
    {fiber' : Local.Fiber} (found : s.fibers.lookup fiber = some f)
    (alone : isAlone event = true) (step : f.fiber.Step (cfg.local' f.daemon) event fiber') :
    Traced (s.setFiber fiber { f with fiber := fiber' }) := by
  have hlater : Later s (s.setFiber fiber { f with fiber := fiber' }) := .of_eq rfl rfl
  refine h.later hlater ⟨rfl, rfl, rfl, rfl, rfl⟩ h.servants
    (h.fibers_insert hlater rfl ?_) (h.polls_insert rfl (fun _ _ => rfl) ?_)
  · intro running hrunning
    have hdigest : fiber'.task.digest = f.fiber.task.digest := (Local.Fiber.task_of_step step).2
    dsimp only
    rw [hdigest]
    exact h.fibers fiber f found running (attachedTo_of_alone alone step hrunning)
  · intro poll hpoll
    obtain ⟨f', held, retriesLeft, hfound, hpc, hheld⟩ := h.polls fiber poll hpoll
    rw [found] at hfound
    cases hfound
    exact ⟨{ f with fiber := fiber' }, held, retriesLeft, AList.lookup_insert _,
      polling_of_alone alone step hpc, hheld⟩

theorem Traced.pollArrives (h : Traced s) {fiber : FiberId} {f : DelegateFiber}
    {held : Local.Held} {retriesLeft : ℕ} {callee : String × Servant}
    (found : s.fibers.lookup fiber = some f) (pc : f.fiber.pc = .polling held retriesLeft) :
    Traced { s with
      polls := s.polls.insert fiber
        ⟨callee.2.incarnation, callee.2.engine.findTask held.acquired⟩ } := by
  refine h.later (.of_eq rfl rfl) ⟨rfl, rfl, rfl, rfl, rfl⟩ h.servants
    (fun other f' hf => (h.fibers other f' hf).later (.of_eq rfl rfl)) fun other poll hpoll => ?_
  rw [AList.lookup_insert_eq] at hpoll
  split at hpoll
  · next heq =>
      subst heq
      cases hpoll
      refine ⟨f, held, retriesLeft, found, pc, fun taskId htaskId => ?_⟩
      unfold Cloud.ExecutionEngine.findTask at htaskId
      dsimp only at htaskId
      split at htaskId
      · exact (Option.some.inj htaskId).symm
      · cases htaskId
  · exact h.polls other poll hpoll

/-! ## Steps of the scheduler and of delegates -/

/-- Without a report the scheduler only forgets what runs. -/
theorem bookkept_of_apply {d d' : Scheduler.TaskDispatcher} {cfg : Scheduler.DispatcherConfig}
    {op : Scheduler.TaskDispatcher.Op} {reply : Scheduler.TaskDispatcher.Reply}
    (hd : Scheduler.TaskDispatcher.Consistent d) (hreport : isReport op = false)
    (h : d.apply cfg op = .ok (reply, d')) {location : String} {tasks : List Scheduler.RunningTask}
    (hlookup : d'.runningTaskBookkeeper.runningTasks.lookup location = some tasks) :
    d.runningTaskBookkeeper.runningTasks.lookup location = some tasks := by
  cases Scheduler.TaskDispatcher.effect_of_apply hd.counted h with
  | notStarted => exact hlookup
  | granted pick free fresh => exact hlookup
  | renewalRefused => exact hlookup
  | renewed task known alive => exact hlookup
  | freed frees counted => exact frees.bookkeeper_eq ▸ hlookup
  | servantRenewed r found => exact hlookup
  | servantAdded unknown => exact hlookup
  | locationUnknown => cases hreport
  | reported => cases hreport
  | expired u ids frees counted swept =>
      have hu : u.runningTaskBookkeeper.runningTasks.lookup location = some tasks := hlookup
      rw [frees.bookkeeper_eq, Scheduler.TaskDispatcher.removeExpiredServants,
        Scheduler.TaskDispatcher.dropServants_lookup] at hu
      split at hu
      · cases hu
      · exact hu

/-- What a report leaves: at its own location tasks of it, and elsewhere what was there. -/
theorem bookkept_of_report {d d' : Scheduler.TaskDispatcher} {cfg : Scheduler.DispatcherConfig}
    {location : String} {reported : List Scheduler.RunningTask}
    {reply : Scheduler.TaskDispatcher.Reply} (hd : Scheduler.TaskDispatcher.Consistent d)
    (h : d.apply cfg (.notifyServantRunningTasks location reported) = .ok (reply, d'))
    {location' : String} {tasks : List Scheduler.RunningTask}
    (hlookup : d'.runningTaskBookkeeper.runningTasks.lookup location' = some tasks) :
    (location' = location ∧ tasks ⊆ reported) ∨
      (location' ≠ location ∧
        d.runningTaskBookkeeper.runningTasks.lookup location' = some tasks) := by
  cases Scheduler.TaskDispatcher.effect_of_apply hd.counted h with
  | locationUnknown unknown =>
      refine .inr ⟨?_, hlookup⟩
      rintro rfl
      obtain ⟨r, hr, hlocation⟩ := hd.bookkept location' tasks hlookup
      exact Scheduler.TaskDispatcher.findServant_none unknown hr hlocation
  | reported servant u found ids frees counted swept =>
      simp only [Scheduler.TaskDispatcher.setServantRunningTasks,
        Scheduler.RunningTaskBookkeeper.setServantRunningTasks, AList.lookup_insert_eq] at hlookup
      split at hlookup
      · next heq =>
          cases hlookup
          exact .inl ⟨heq, List.filter_sublist.subset⟩
      · next hne =>
          rw [AList.lookup_erase_ne hne, frees.bookkeeper_eq] at hlookup
          exact .inr ⟨hne, hlookup⟩

theorem mem_getRunningTasks {b : Scheduler.RunningTaskBookkeeper} {task : Scheduler.RunningTask}
    (h : task ∈ b.getRunningTasks) :
    ∃ location tasks, b.runningTasks.lookup location = some tasks ∧ task ∈ tasks := by
  have hfold : ∀ (entries : List (Sigma fun _ : String => List Scheduler.RunningTask))
      (result : List Scheduler.RunningTask),
      task ∈ entries.foldl (fun result e => e.2 ++ result) result →
        task ∈ result ∨ ∃ e ∈ entries, task ∈ e.2 := by
    intro entries
    induction entries with
    | nil => exact fun result hmem => .inl hmem
    | cons e entries ih =>
        intro result hmem
        rcases ih (e.2 ++ result) hmem with hresult | ⟨e', he', hmem'⟩
        · rcases List.mem_append.mp hresult with hfirst | hrest
          · exact .inr ⟨e, List.mem_cons_self, hfirst⟩
          · exact .inl hrest
        · exact .inr ⟨e', List.mem_cons_of_mem _ he', hmem'⟩
  rcases hfold _ _ h with hnil | ⟨e, he, hmem⟩
  · cases hnil
  · exact ⟨e.1, e.2, AList.lookup_eq_some_iff.mpr he, hmem⟩

/-- What a servant reports is true of it. -/
theorem Traced.heartbeat (h : Traced s) {location : String} {servant : Servant}
    (found : s.servants.lookup location = some servant) {task : Scheduler.RunningTask}
    (htask : task ∈ runningTasksOf location servant.engine) :
    task.servantLocation = location ∧ ReportedTask s servant.incarnation task := by
  obtain ⟨enumerated, hmem, rfl⟩ := List.mem_map.mp htask
  obtain ⟨taskId, -, hdesc⟩ := List.mem_filterMap.mp hmem
  obtain ⟨desc, hlookup, rfl⟩ := Option.map_eq_some_iff.mp hdesc
  refine ⟨rfl, (h.servants location servant found).1, fun servant' hservant' _ => ?_⟩
  have hsame : servant' = servant := Option.some.inj (hservant'.symm.trans found)
  unfold Cloud.ExecutionEngine.userTask
  rw [hsame, hlookup]
  rfl

/-- Snapshots and keepers know what the scheduler has known. -/
theorem Traced.getRunningTasks (h : Traced s) {task : Scheduler.RunningTask}
    (htask : task ∈ s.scheduler.getRunningTasks) :
    ReportedTask s (s.reporter task.servantLocation) task := by
  obtain ⟨location, tasks, hlookup, hmem⟩ := mem_getRunningTasks htask
  obtain ⟨hlocation, hreported⟩ := h.bookkept location tasks hlookup task hmem
  rw [hlocation]
  exact hreported

/-- Servants, fibers and polls stay, and what the others know was reported. -/
theorem Traced.learns (h : Traced s) (hstarted : t.started = s.started)
    (hservants : t.servants = s.servants) (hfibers : t.fibers = s.fibers)
    (hpolls : t.polls = s.polls) (hscheduler : Scheduler.TaskDispatcher.Consistent t.scheduler)
    (hheartbeats : ∀ heartbeat ∈ t.heartbeats, ∀ task ∈ heartbeat.runningTasks,
      task.servantLocation = heartbeat.location ∧ ReportedTask s heartbeat.incarnation task)
    (hbookkept : ∀ location tasks,
      t.scheduler.runningTaskBookkeeper.runningTasks.lookup location = some tasks →
      ∀ task ∈ tasks, task.servantLocation = location ∧
        ReportedTask s (t.reporter location) task)
    (hsnapshots : ∀ snapshot ∈ t.snapshots, ∀ task ∈ snapshot.runningTasks,
      ReportedTask s (snapshot.reporter task.servantLocation) task)
    (hdelegates : ∀ daemon delegate, t.delegates.lookup daemon = some delegate →
      ∀ digest running, delegate.keeper.tryFindTask digest = some running →
      Reported s running.servantLocation (delegate.reporter running.servantLocation)
        running.servantTaskId digest) : Traced t := by
  have hlater : Later s t := .of_eq hstarted hservants
  constructor
  · rw [hservants, hstarted]
    exact h.servants
  · exact hscheduler
  · intro heartbeat hmem task htask
    obtain ⟨hlocation, hreported⟩ := hheartbeats heartbeat hmem task htask
    exact ⟨hlocation, hreported.later hlater⟩
  · intro location tasks hlookup task htask
    obtain ⟨hlocation, hreported⟩ := hbookkept location tasks hlookup task htask
    exact ⟨hlocation, hreported.later hlater⟩
  · intro snapshot hmem task htask
    exact (hsnapshots snapshot hmem task htask).later hlater
  · intro daemon delegate hlookup digest running hfound
    exact (hdelegates daemon delegate hlookup digest running hfound).later hlater
  · intro fiber f hf
    exact (h.fibers fiber f (hfibers ▸ hf)).later hlater
  · intro fiber poll hpoll
    obtain ⟨f, held, retriesLeft, hfound, hpc, hheld⟩ := h.polls fiber poll (hpolls ▸ hpoll)
    exact ⟨f, held, retriesLeft, hfibers ▸ hfound, hpc, hheld⟩

/-- A delegate's keeper changes. -/
theorem Traced.setDelegate (h : Traced s) {daemon : DaemonId} {delegate : Delegate}
    (hsame : t = { s with
      delegates := s.delegates.insert daemon delegate
      snapshots := t.snapshots })
    (hsnapshots : t.snapshots ⊆ s.snapshots)
    (hknown : ∀ digest running, delegate.keeper.tryFindTask digest = some running →
      Reported s running.servantLocation (delegate.reporter running.servantLocation)
        running.servantTaskId digest) : Traced t := by
  rw [hsame]
  refine h.learns rfl rfl rfl rfl h.scheduler h.heartbeats h.bookkept
    (fun snapshot hmem => h.snapshots snapshot (hsnapshots hmem)) ?_
  intro daemon' delegate' hlookup
  rw [AList.lookup_insert_eq] at hlookup
  split at hlookup
  · cases hlookup
    exact hknown
  · exact h.delegates daemon' delegate' hlookup

/-- A servant is started where there is none; its number is a new one. -/
theorem Traced.startServant (h : Traced s) (location : String) (taskConcurrencyLimit : UInt64)
    (minMemory : ℕ) :
    Traced { s with
      servants := s.servants.insert location
        ⟨s.started location, .empty String taskConcurrencyLimit minMemory⟩
      started := Function.update s.started location (s.started location + 1) } := by
  have hlater := later_startServant s location taskConcurrencyLimit minMemory
  refine h.later hlater ⟨rfl, rfl, rfl, rfl, rfl⟩ (fun location' servant hservant => ?_)
    (fun fiber f hf => (h.fibers fiber f hf).later hlater) h.polls
  rw [AList.lookup_insert_eq] at hservant
  split at hservant
  · next heq =>
      cases hservant
      subst heq
      refine ⟨?_, Cloud.ExecutionEngine.numbersFresh_empty _ _⟩
      dsimp only
      rw [Function.update_self]
      exact Nat.lt_succ_self _
  · next hne =>
      dsimp only
      rw [Function.update_of_ne hne]
      exact h.servants location' servant hservant

theorem Traced.exitServant (h : Traced s) (location : String) :
    Traced { s with servants := s.servants.erase location } := by
  have hlater := later_exitServant s location
  refine h.later hlater ⟨rfl, rfl, rfl, rfl, rfl⟩ (fun location' servant hservant => ?_)
    (fun fiber f hf => (h.fibers fiber f hf).later hlater) h.polls
  rw [AList.lookup_erase_eq] at hservant
  split at hservant
  · cases hservant
  · exact h.servants location' servant hservant

/-- A delegate is no more, and neither is its poll. -/
theorem Traced.die (h : Traced s) (fiber : FiberId) :
    Traced { s with
      fibers := s.fibers.erase fiber
      polls := s.polls.erase fiber } := by
  have herased := h.erasePoll fiber
  have hlater : Later { s with polls := s.polls.erase fiber }
      { s with
        fibers := s.fibers.erase fiber
        polls := s.polls.erase fiber } :=
    .of_eq rfl rfl
  refine herased.later hlater ⟨rfl, rfl, rfl, rfl, rfl⟩ h.servants
    (fun other f hf => ?_) (fun other poll hpoll => ?_)
  · rw [AList.lookup_erase_eq] at hf
    split at hf
    · cases hf
    · exact (herased.fibers other f hf).later hlater
  · obtain ⟨f, held, retriesLeft, hfound, hpc, hheld⟩ := herased.polls other poll hpoll
    refine ⟨f, held, retriesLeft, ?_, hpc, hheld⟩
    have hne : other ≠ fiber := by
      rintro rfl
      rw [AList.lookup_erase_eq, if_pos rfl] at hpoll
      cases hpoll
    rw [AList.lookup_erase_ne hne]
    exact hfound

theorem Traced.step (h : Traced s) (hstep : Step cfg s a t) : Traced t := by
  cases effect_of_step hstep with
  | @startServant location taskConcurrencyLimit minMemory free =>
      exact h.startServant location taskConcurrencyLimit minMemory
  | @exitServant location => exact h.exitServant location
  | engine servant engine found own step =>
      exact h.engine found (keepsNumbers_of_own (h.servants _ servant found).2 own step)
  | heartbeat servant found =>
      refine h.learns rfl rfl rfl rfl h.scheduler (fun heartbeat hmem => ?_) h.bookkept h.snapshots
        h.delegates
      rcases List.mem_cons.mp hmem with rfl | hmem
      · exact fun task htask => h.heartbeat found htask
      · exact h.heartbeats heartbeat hmem
  | notify heartbeat taskIds scheduler sent applied =>
      refine h.learns rfl rfl rfl rfl (h.scheduler.apply applied)
        (fun heartbeat hmem => h.heartbeats heartbeat (List.mem_of_mem_eraseIdx hmem))
        (fun location tasks hlookup task htask => ?_) h.snapshots h.delegates
      dsimp only
      rcases bookkept_of_report h.scheduler applied hlookup with ⟨rfl, hsub⟩ | ⟨hne, hbefore⟩
      · rw [Function.update_self]
        exact h.heartbeats heartbeat sent task (hsub htask)
      · rw [Function.update_of_ne hne]
        exact h.bookkept location tasks hbefore task htask
  | @answer i answer servant found =>
      have hkeeps := Cloud.ExecutionEngine.keepsNumbers_killExpiredTasks
        (h.servants _ servant found).2 answer.expiredGrantIds
      have hlater : Later s { (s.setEngine answer.location servant
          (servant.engine.killExpiredTasks answer.expiredGrantIds)) with
            answers := s.answers.eraseIdx i } :=
        later_of_insert found hkeeps rfl rfl
      exact h.later hlater ⟨rfl, rfl, rfl, rfl, rfl⟩ (h.servants_insert found hkeeps)
        (fun fiber f hf => (h.fibers fiber f hf).later hlater) h.polls
  | scheduler scheduler noReport step =>
      exact h.learns rfl rfl rfl rfl (h.scheduler.apply step) h.heartbeats
        (fun location tasks hlookup =>
          h.bookkept location tasks (bookkept_of_apply h.scheduler noReport step hlookup))
        h.snapshots h.delegates
  | startDelegate =>
      exact h.setDelegate rfl (List.Subset.refl _) fun digest running hfound => by cases hfound
  | getRunningTasks =>
      refine h.learns rfl rfl rfl rfl h.scheduler h.heartbeats h.bookkept (fun snapshot hmem => ?_)
        h.delegates
      rcases List.mem_cons.mp hmem with rfl | hmem
      · exact fun task htask => h.getRunningTasks htask
      · exact h.snapshots snapshot hmem
  | refresh snapshot delegate sent =>
      refine h.setDelegate rfl (List.eraseIdx_subset) fun digest running hfound => ?_
      obtain ⟨task, hmem, rfl, rfl⟩ :=
        Local.RunningTaskKeeper.mem_of_tryFindTask_refresh delegate.keeper hfound
      exact h.snapshots snapshot sent task hmem
  | refreshFailed delegate found =>
      exact h.setDelegate rfl (List.Subset.refl _) fun digest running hfound =>
        h.delegates _ delegate found digest running
          (Local.RunningTaskKeeper.tryFindTask_refresh_none hfound)
  | queueTask unused =>
      refine h.setFiber (fun running hrunning => by cases hrunning) (h.no_poll ?_)
      intro f held retriesLeft hfound
      rw [unused] at hfound
      cases hfound
  | fiber f fiber' found alone step => exact h.fiber found alone step
  | findTask f f' delegate found known step =>
      refine h.setFiber (h.findTask known step) (h.not_polled found fun held retriesLeft hpc => ?_)
      obtain ⟨fiber', hnext, -⟩ := Option.map_eq_some_iff.mp step
      cases Local.Fiber.took_of_step hnext with
      | findTask running hpc' => cases hpc.symm.trans hpc'
  | referenceTask f running called callee found calls pc =>
      exact h.referenceTask found calls pc _ _
  | startTask f grant called callee found calls pc => exact h.startTask found calls pc _ _ _ _ _
  | pollArrives f held retriesLeft called callee found calls pc => exact h.pollArrives found pc
  | poll f held retriesLeft called callee poll found calls arrived pc same =>
      exact h.pollEnds _ _ found pc rfl rfl
  | pollFailed f held retriesLeft found pc =>
      exact h.pollEnds (cfg.local' f.daemon) none found pc rfl rfl
  | freeServantTask f held called callee found calls pc => exact h.freeServantTask found calls pc
  | @die fiber => exact h.die fiber

/-! ## What a fiber takes -/

/-- The process that a fiber polls is the one that reported the task it attached to, unless
the poll found no task there. -/
def asksReporter (cfg : ClusterConfig) (s : Cluster) : Action → Bool
  | .poll fiber _ _ =>
      match s.fibers.lookup fiber, s.polls.lookup fiber with
      | some f, some poll =>
          match attachedTo f.fiber.pc with
          | some running =>
              poll.found.isNone ||
                ((cfg.local' f.daemon).server running.servantLocation == running.servantLocation &&
                  poll.incarnation == f.reporter)
          | none => true
      | _, _ => true
  | _ => true

def AsksReporter (cfg : ClusterConfig) (s : Cluster) (a : Action) : Prop :=
  asksReporter cfg s a = true

instance (cfg : ClusterConfig) (s : Cluster) (a : Action) : Decidable (AsksReporter cfg s a) :=
  inferInstanceAs (Decidable (_ = true))

/-- What a fiber took came from a task with the digest of its own. -/
def SameDigest (f : DelegateFiber) : Prop :=
  ∀ desc output, f.taken = some (desc, output) → desc.task = f.fiber.task.digest

/-- What is taken is the result of a task that was found for an attached fiber. -/
theorem takes_eq_some {dispatcher : Local.DispatcherConfig} {held : Local.Held}
    {found : Option Cloud.TaskId} {extraInfo attachment : List UInt8}
    {e : Cloud.ExecutionEngine String} {desc : Cloud.TaskDesc String}
    {output : Local.DistributedTaskOutput}
    (h : takes dispatcher held found extraInfo attachment e = some (desc, output)) :
    ∃ running taskId, held = .referenced running ∧ found = some taskId ∧
      e.descs.lookup taskId = some desc := by
  unfold takes at h
  split at h
  · next running desc' output' hwait houtput =>
      cases h
      cases hfound : found.bind e.descs.lookup with
      | none =>
          unfold Cloud.ExecutionEngine.waitForTask at hwait
          rw [hfound] at hwait
          cases hwait
      | some desc'' =>
          unfold Cloud.ExecutionEngine.waitForTask at hwait
          simp only [hfound] at hwait
          split at hwait
          · cases hwait
          · cases hwait
            obtain ⟨taskId, htaskId, hlookup⟩ := Option.bind_eq_some_iff.mp hfound
            exact ⟨running, taskId, rfl, htaskId, hlookup⟩
  · cases h

/-- An output of the process that reported the task is of a task with its digest. -/
theorem Traced.sameDigest_poll (h : Traced s) {fiber : FiberId} {f : DelegateFiber}
    {held : Local.Held} {retriesLeft : ℕ} {called : String} {callee : String × Servant}
    {poll : Poll} {extraInfo attachment : List UInt8} (found : s.fibers.lookup fiber = some f)
    (calls : Calls cfg s f called callee.1 callee.2) (arrived : s.polls.lookup fiber = some poll)
    (pc : f.fiber.pc = .polling held retriesLeft)
    (same : poll.incarnation = callee.2.incarnation)
    (hasks : AsksReporter cfg s (.poll fiber extraInfo attachment))
    {desc : Cloud.TaskDesc String} {output : Local.DistributedTaskOutput}
    (htakes : takes (cfg.local' f.daemon) held poll.found extraInfo attachment callee.2.engine
      = some (desc, output)) : desc.task = f.fiber.task.digest := by
  obtain ⟨running, taskId, rfl, htaskId, hlookup⟩ := takes_eq_some htakes
  have hattached : attachedTo f.fiber.pc = some running := by
    rw [pc]
    rfl
  -- The poll found the task that the fiber attached to,
  have hnumber : taskId = running.servantTaskId := by
    obtain ⟨f', held', retriesLeft', hfound, hpc, hheld⟩ := h.polls fiber poll arrived
    rw [found] at hfound
    cases hfound
    cases pc.symm.trans hpc
    exact hheld taskId htaskId
  -- in the process that reported it,
  have hprocess : (cfg.local' f.daemon).server running.servantLocation = running.servantLocation ∧
      poll.incarnation = f.reporter := by
    unfold AsksReporter asksReporter at hasks
    simpa [found, arrived, hattached, htaskId] using hasks
  have hlocation : callee.1 = running.servantLocation := by
    have hcalled := calls.called_eq
    rw [pc] at hcalled
    cases hcalled
    exact calls.location_eq.trans hprocess.1
  -- and what that process reported is still true.
  have hreported := (h.fibers fiber f found running hattached).accurate callee.2
    (hlocation ▸ calls.found) (same.symm.trans hprocess.2)
  rw [← hnumber, Cloud.ExecutionEngine.userTask, hlookup] at hreported
  exact Option.some.inj hreported

/-- A fiber that takes nothing goes on. -/
theorem sameDigest_insert {fiber : FiberId} {f' : DelegateFiber}
    (h : ∀ other f, s.fibers.lookup other = some f → SameDigest f)
    (hfibers : t.fibers = s.fibers.insert fiber f') (hf' : SameDigest f') :
    ∀ other f, t.fibers.lookup other = some f → SameDigest f := by
  intro other f hf
  rw [hfibers, AList.lookup_insert_eq] at hf
  split at hf
  · cases hf
    exact hf'
  · exact h other f hf

theorem SameDigest.of_eq {f f' : DelegateFiber} (h : SameDigest f) (htaken : f'.taken = f.taken)
    (hdigest : f'.fiber.task.digest = f.fiber.task.digest) : SameDigest f' := by
  intro desc output hdesc
  rw [hdigest]
  exact h desc output (htaken ▸ hdesc)

theorem sameDigest_step (htraced : Traced s)
    (h : ∀ fiber f, s.fibers.lookup fiber = some f → SameDigest f)
    (hstep : Guarded (Step cfg) (AsksReporter cfg) s a t) :
    ∀ fiber f, t.fibers.lookup fiber = some f → SameDigest f := by
  obtain ⟨hnext, hasks⟩ := hstep
  cases effect_of_step hnext with
  | startServant => exact h
  | exitServant => exact h
  | engine => exact h
  | heartbeat => exact h
  | notify => exact h
  | answer => exact h
  | scheduler => exact h
  | startDelegate => exact h
  | getRunningTasks => exact h
  | refresh => exact h
  | refreshFailed => exact h
  | queueTask unused =>
      refine sameDigest_insert h rfl ?_
      intro desc output htaken
      cases htaken
  | fiber f fiber' found alone step =>
      exact sameDigest_insert h rfl
        ((h _ f found).of_eq rfl (Local.Fiber.task_of_step step).2)
  | findTask f f' delegate found known step =>
      obtain ⟨fiber', hfiber, rfl⟩ := Option.map_eq_some_iff.mp step
      exact sameDigest_insert h rfl
        ((h _ f found).of_eq rfl (Local.Fiber.task_of_step hfiber).2)
  | referenceTask f running called callee found calls pc =>
      exact sameDigest_insert h rfl ((h _ f found).of_eq rfl (digest_referenceTask _ _ _ _ _))
  | startTask f grant called callee found calls pc =>
      exact sameDigest_insert h rfl ((h _ f found).of_eq rfl (digest_startTask _ _ _ _ _))
  | pollArrives => exact h
  | poll f held retriesLeft called callee poll found calls arrived pc same =>
      refine sameDigest_insert h rfl ?_
      intro desc output htakes
      dsimp only
      rw [(Local.Fiber.keeps_poll pc).digest_eq]
      exact htraced.sameDigest_poll found calls arrived pc same hasks htakes
  | pollFailed f held retriesLeft found pc =>
      exact sameDigest_insert h rfl ((h _ f found).of_eq rfl (Local.Fiber.keeps_poll pc).digest_eq)
  | freeServantTask f held called callee found calls pc =>
      exact sameDigest_insert h rfl ((h _ f found).of_eq rfl rfl)
  | die =>
      intro other f hf
      rw [AList.lookup_erase_eq] at hf
      split at hf
      · cases hf
      · exact h other f hf

/-! ## What an attached fiber ends with -/

/-- The output is one that the fiber fills in itself, or what it took. -/
def OwnOrTaken (f : DelegateFiber) : Prop :=
  f.fiber.task.output = Local.Fiber.failedOutput (-126) ∨
    f.fiber.task.output = Local.Fiber.failedOutput (-125) ∨
    ∃ desc, f.taken = some (desc, f.fiber.task.output)

/-- What holds of an attached fiber. Fibers that started a task did not attach to any. -/
def IfAttached (f : DelegateFiber) (p : Prop) : Local.Held → Prop
  | .referenced _ => p
  | .started _ _ => f.fiber.referenced = []

/-- What is known of the output at each point. -/
def Stage (f : DelegateFiber) : Local.Pc → Prop
  | .waiting held _ => IfAttached f (f.fiber.task.output = Local.Fiber.failedOutput (-126)) held
  | .polling held _ => IfAttached f (f.fiber.task.output = Local.Fiber.failedOutput (-126)) held
  | .freeing held => IfAttached f (OwnOrTaken f) held
  | .completing => f.fiber.referenced = [] ∨ OwnOrTaken f
  | .done => f.fiber.referenced = [] ∨ OwnOrTaken f
  | .readingCache | .findingTask | .referencing _ =>
      f.fiber.referenced = [] ∧ f.fiber.task.output = Local.Fiber.failedOutput (-126)
  | _ => f.fiber.referenced = []

structure Outcome (f : DelegateFiber) : Prop where
  stage : Stage f f.fiber.pc
  completed : f.fiber.pc = .done → f.fiber.completions = [f.fiber.task.output]
  open' : f.fiber.pc ≠ .done → f.fiber.completions = []

/-- A servant's response with an output is about a task that was found. -/
theorem takes_of_ok {dispatcher : Local.DispatcherConfig} {running : Local.RunningTaskDesc}
    {found : Option Cloud.TaskId} {extraInfo attachment : List UInt8}
    {e : Cloud.ExecutionEngine String} {output : Local.DistributedTaskOutput}
    (h : Local.waitServantForTask dispatcher
      (some (SharedServant.compilationOutput found extraInfo attachment e)) = .ok output) :
    ∃ desc, takes dispatcher (.referenced running) found extraInfo attachment e
      = some (desc, output) := by
  unfold takes
  rw [h]
  cases hwait : e.waitForTask found with
  | ok desc => exact ⟨desc, rfl⟩
  | error status =>
      unfold SharedServant.compilationOutput at h
      rw [hwait] at h
      cases status with
      | failed => cases h
      | running => cases h
      | notFound => cases h

/-- A step of the code from one point before the end to another one. -/
theorem Outcome.next {f f' : DelegateFiber} (h : Outcome f) (hpc : f.fiber.pc ≠ .done)
    (hpc' : f'.fiber.pc ≠ .done) (hcompletions : f'.fiber.completions = f.fiber.completions)
    (hstage : Stage f' f'.fiber.pc) : Outcome f' where
  stage := hstage
  completed hdone := absurd hdone hpc'
  open' _ := hcompletions.trans (h.open' hpc)

theorem IfAttached.imp {f : DelegateFiber} {p q : Prop} {held : Local.Held}
    (h : IfAttached f p held) (hpq : p → q) : IfAttached f q held := by
  cases held with
  | referenced running => exact hpq h
  | started grant servantTaskId => exact h

theorem Outcome.stage_of_pc {f : DelegateFiber} (h : Outcome f) {pc : Local.Pc}
    (hpc : f.fiber.pc = pc) : Stage f pc :=
  hpc ▸ h.stage

/-- Steps that a fiber makes alone keep what it took. -/
theorem Outcome.alone {dispatcher : Local.DispatcherConfig} {f : DelegateFiber}
    {fiber' : Local.Fiber} {event : Local.Event} (h : Outcome f) (halone : isAlone event = true)
    (hstep : f.fiber.Step dispatcher event fiber') : Outcome { f with fiber := fiber' } := by
  cases Local.Fiber.took_of_step hstep with
  | abort => exact ⟨h.stage, h.completed, h.open'⟩
  | readCache entry hpc =>
      obtain ⟨hreferenced, houtput⟩ := h.stage_of_pc hpc
      have hnot : f.fiber.pc ≠ .done := by simp [hpc]
      cases entry with
      | none => exact h.next hnot nofun rfl ⟨hreferenced, houtput⟩
      | some output =>
          unfold Local.Fiber.readCache
          dsimp only
          split
          · exact h.next hnot nofun rfl (.inl hreferenced)
          · exact h.next hnot nofun rfl ⟨hreferenced, houtput⟩
  | findTask found hpc => cases halone
  | referenceTask running ok now hpc =>
      cases ok with
      | false =>
          exact h.next (by simp [hpc]) nofun rfl
            (h.stage_of_pc hpc).1
      | true => cases halone
  | checkGrant hpc =>
      have hreferenced : f.fiber.referenced = [] := h.stage_of_pc hpc
      unfold Local.Fiber.checkGrant
      split
      · exact h.next (by simp [hpc]) nofun rfl (.inl hreferenced)
      · exact h.next (by simp [hpc]) nofun rfl hreferenced
  | getGrant grant now hpc =>
      have hreferenced : f.fiber.referenced = [] := h.stage_of_pc hpc
      cases grant with
      | none =>
          exact h.next (by simp [hpc]) nofun rfl
            hreferenced
      | some grant => exact h.next (by simp [hpc]) nofun rfl hreferenced
  | startTask grant servantTaskId now hpc =>
      cases servantTaskId with
      | none =>
          have hreferenced : f.fiber.referenced = [] := h.stage_of_pc hpc
          exact h.next (by simp [hpc]) nofun rfl
            hreferenced
      | some servantTaskId => cases halone
  | checkWait held retriesLeft hpc =>
      have hwaiting : IfAttached f _ held := h.stage_of_pc hpc
      unfold Local.Fiber.checkWait
      split
      · have hfreeing : IfAttached f (OwnOrTaken f) held := hwaiting.imp .inl
        exact h.next (by simp [hpc]) nofun rfl hfreeing
      · exact h.next (by simp [hpc]) nofun rfl hwaiting
  | poll held retriesLeft result hpc => cases halone
  | freeServantTask held hpc =>
      have hfreeing : IfAttached f (OwnOrTaken f) held := h.stage_of_pc hpc
      cases held with
      | referenced running =>
          exact h.next (by simp [hpc]) nofun rfl (.inr hfreeing)
      | started grant servantTaskId =>
          exact h.next (by simp [hpc]) nofun rfl hfreeing
  | freeGrant grantId hpc =>
      have hreferenced : f.fiber.referenced = [] := h.stage_of_pc hpc
      exact h.next (by simp [hpc]) nofun rfl (.inl hreferenced)
  | complete now hpc =>
      refine ⟨h.stage_of_pc hpc, fun _ => ?_, fun hnot => absurd rfl hnot⟩
      have hopen : f.fiber.completions = [] := h.open' (by simp [hpc])
      simp [Local.Fiber.complete, hopen]

/-- A poll ends the wait of an attached fiber with what it takes, or with a failure. -/
theorem Outcome.poll {dispatcher : Local.DispatcherConfig} {f : DelegateFiber}
    {held : Local.Held} {retriesLeft : ℕ} (h : Outcome f)
    (hpc : f.fiber.pc = .polling held retriesLeft) {result : Option Local.CompilationOutput}
    {taken : Option (Cloud.TaskDesc String × Local.DistributedTaskOutput)}
    (htaken : ∀ running output, held = .referenced running →
      Local.waitServantForTask dispatcher result = .ok output →
        ∃ desc, taken = some (desc, output)) :
    Outcome { f with fiber := f.fiber.poll dispatcher held retriesLeft result, taken } := by
  have hpolling : IfAttached f _ held := h.stage_of_pc hpc
  have hnot : f.fiber.pc ≠ .done := by simp [hpc]
  cases hresult : Local.waitServantForTask dispatcher result with
  | error status =>
      cases status with
      | running =>
          unfold Local.Fiber.poll
          rw [hresult]
          exact h.next hnot (fun hdone => by cases hdone) rfl hpolling
      | rpcError =>
          unfold Local.Fiber.poll
          rw [hresult]
          exact h.next hnot (fun hdone => by cases hdone) rfl hpolling
      | failed =>
          unfold Local.Fiber.poll
          rw [hresult]
          refine h.next hnot (fun hdone => by cases hdone) rfl ?_
          cases held with
          | referenced running =>
              refine .inr (.inl ?_)
              have houtput : f.fiber.task.output = Local.Fiber.failedOutput (-126) := hpolling
              simp [Local.Fiber.setPc, Local.Fiber.setOutput, houtput, Local.Fiber.failedOutput]
          | started grant servantTaskId => exact hpolling
  | ok output =>
      unfold Local.Fiber.poll
      rw [hresult]
      refine h.next hnot (fun hdone => by cases hdone) rfl ?_
      cases held with
      | referenced running =>
          obtain ⟨desc, hdesc⟩ := htaken running output rfl hresult
          exact .inr (.inr ⟨desc, hdesc⟩)
      | started grant servantTaskId => exact hpolling

theorem outcome_queued (daemon : DaemonId) (taskId : ℕ) (digest : String)
    (cacheSetting : Local.CacheControl) (startDeadline now : ℕ) :
    Outcome ⟨daemon, .queued taskId digest cacheSetting startDeadline now, 0, none⟩ :=
  ⟨⟨rfl, rfl⟩, nofun, fun _ => rfl⟩

theorem Outcome.findTask {f f' : DelegateFiber} {delegate : Delegate} (h : Outcome f)
    (step : findTask cfg delegate f = some f') : Outcome f' := by
  obtain ⟨fiber', hnext, rfl⟩ := Option.map_eq_some_iff.mp step
  cases Local.Fiber.took_of_step hnext with
  | findTask running hpc =>
      obtain ⟨hreferenced, houtput⟩ := h.stage_of_pc hpc
      have hnot : f.fiber.pc ≠ .done := by simp [hpc]
      cases delegate.keeper.tryFindTask f.fiber.task.digest with
      | none => exact h.next hnot nofun rfl hreferenced
      | some running => exact h.next hnot nofun rfl ⟨hreferenced, houtput⟩

theorem Outcome.referenceTask {f : DelegateFiber} {dispatcher : Local.DispatcherConfig}
    {running : Local.RunningTaskDesc} (h : Outcome f) (hpc : f.fiber.pc = .referencing running)
    (ok : Bool) (now : ℕ) :
    Outcome { f with fiber := f.fiber.referenceTask dispatcher running ok now } := by
  obtain ⟨hreferenced, houtput⟩ := h.stage_of_pc hpc
  have hnot : f.fiber.pc ≠ .done := by simp [hpc]
  cases ok with
  | false => exact h.next hnot nofun rfl hreferenced
  | true => exact h.next hnot nofun rfl houtput

theorem Outcome.startTask {f : DelegateFiber} {dispatcher : Local.DispatcherConfig}
    {grant : Local.GrantDesc} (h : Outcome f) (hpc : f.fiber.pc = .starting grant)
    (servantTaskId : Option ℕ) (now : ℕ) :
    Outcome { f with fiber := f.fiber.startTask dispatcher grant servantTaskId now } := by
  have hreferenced : f.fiber.referenced = [] := h.stage_of_pc hpc
  have hnot : f.fiber.pc ≠ .done := by simp [hpc]
  cases servantTaskId with
  | none => exact h.next hnot nofun rfl hreferenced
  | some servantTaskId => exact h.next hnot nofun rfl hreferenced

theorem outcome_insert {fiber : FiberId} {f' : DelegateFiber}
    (h : ∀ other f, s.fibers.lookup other = some f → Outcome f)
    (hfibers : t.fibers = s.fibers.insert fiber f') (hf' : Outcome f') :
    ∀ other f, t.fibers.lookup other = some f → Outcome f := by
  intro other f hf
  rw [hfibers, AList.lookup_insert_eq] at hf
  split at hf
  · cases hf
    exact hf'
  · exact h other f hf

theorem outcome_step (h : ∀ fiber f, s.fibers.lookup fiber = some f → Outcome f)
    (hstep : Step cfg s a t) : ∀ fiber f, t.fibers.lookup fiber = some f → Outcome f := by
  cases effect_of_step hstep with
  | startServant => exact h
  | exitServant => exact h
  | engine => exact h
  | heartbeat => exact h
  | notify => exact h
  | answer => exact h
  | scheduler => exact h
  | startDelegate => exact h
  | getRunningTasks => exact h
  | refresh => exact h
  | refreshFailed => exact h
  | queueTask unused => exact outcome_insert h rfl (outcome_queued _ _ _ _ _ _)
  | fiber f fiber' found alone step => exact outcome_insert h rfl ((h _ f found).alone alone step)
  | findTask f f' delegate found known step =>
      exact outcome_insert h rfl ((h _ f found).findTask step)
  | referenceTask f running called callee found calls pc =>
      exact outcome_insert h rfl ((h _ f found).referenceTask pc _ _)
  | startTask f grant called callee found calls pc =>
      exact outcome_insert h rfl ((h _ f found).startTask pc _ _)
  | pollArrives => exact h
  | poll f held retriesLeft called callee poll found calls arrived pc same =>
      refine outcome_insert h rfl ((h _ f found).poll pc ?_)
      rintro running output rfl hok
      exact takes_of_ok hok
  | pollFailed f held retriesLeft found pc =>
      refine outcome_insert h rfl ((h _ f found).poll pc ?_)
      intro running output _ hok
      cases hok
  | freeServantTask f held called callee found calls pc =>
      have hfiber : f.fiber.Step (cfg.local' f.daemon) .freeServantTask
          (f.fiber.freeServantTask (cfg.local' f.daemon) held) := by
        unfold Local.Fiber.Step Local.Fiber.next
        rw [pc]
      exact outcome_insert h rfl ((h _ f found).alone rfl hfiber)
  | die =>
      intro other f hf
      rw [AList.lookup_erase_eq] at hf
      split at hf
      · cases hf
      · exact h other f hf

/-! ## Runs -/

theorem outcome_of_run {as : List Action} (run : Run (Step cfg) empty as s) :
    ∀ fiber f, s.fibers.lookup fiber = some f → Outcome f :=
  run.invariant (fun _ _ _ h hstep => outcome_step h hstep) (fun _ _ h => by cases h)

/-- A traced system whose fibers took what they were to take. -/
structure Agreed (s : Cluster) : Prop where
  traced : Traced s
  sameDigest : ∀ fiber f, s.fibers.lookup fiber = some f → SameDigest f

theorem Agreed.step (h : Agreed s) (hstep : Guarded (Step cfg) (AsksReporter cfg) s a t) :
    Agreed t :=
  ⟨h.traced.step hstep.1, sameDigest_step h.traced h.sameDigest hstep⟩

theorem agreed_empty : Agreed empty where
  traced := traced_empty
  sameDigest fiber f h := by cases h

theorem agreed_of_run {as : List Action}
    (run : Run (Guarded (Step cfg) (AsksReporter cfg)) empty as s) : Agreed s :=
  run.invariant (fun _ _ _ h hstep => h.step hstep) agreed_empty

/-- As long as attached fibers find tasks only in the processes that reported them, whatever a
fiber takes is the output of a task with its digest, and an attached fiber completes its task
with what it took or with a failure of its own. -/
theorem sameDigest_of_asksReporter (cfg : ClusterConfig) (as : List Action) (s : Cluster)
    (run : Run (Guarded (Step cfg) (AsksReporter cfg)) empty as s) (fiber : FiberId)
    (f : DelegateFiber) (found : s.fibers.lookup fiber = some f) :
    SameDigest f ∧
      (f.fiber.referenced ≠ [] → f.fiber.pc = .done →
        ∃ output, f.fiber.completions = [output] ∧
          (output = Local.Fiber.failedOutput (-126) ∨ output = Local.Fiber.failedOutput (-125) ∨
            ∃ desc, f.taken = some (desc, output) ∧ desc.task = f.fiber.task.digest)) := by
  have hsame := (agreed_of_run run).sameDigest fiber f found
  have houtcome := outcome_of_run (run.mono fun _ _ _ h => h.1) fiber f found
  refine ⟨hsame, fun hattached hdone => ⟨_, houtcome.completed hdone, ?_⟩⟩
  rcases houtcome.stage_of_pc hdone with hnot | hfailed | hfailed | ⟨desc, htaken⟩
  · exact absurd hnot hattached
  · exact .inl hfailed
  · exact .inr (.inl hfailed)
  · exact .inr (.inr ⟨desc, htaken, hsame desc _ htaken⟩)

/-! ## A servant that is started again -/

/-- Calls go where they are meant to go, and files are not looked at. -/
def sampleCluster : ClusterConfig where
  local' _ := ⟨"", fun _ => some []⟩
  scheduler := Scheduler.TaskDispatcher.sampleConfig

/-- A fiber of delegate 0 starts a task under a grant. -/
def startsTask (fiber : FiberId) (taskId : ℕ) (digest : String) (grantId : UInt64) (pid : ℕ) :
    List Action :=
  [.scheduler (.waitForStartingNewTask Scheduler.TaskDispatcher.sampleTask 100 false 0 0)
      (.attempt (.allocated ⟨grantId, "10.0.0.1:1"⟩)),
    .queueTask fiber 0 taskId digest .allow 0 0, .fiber fiber (.readCache none), .findTask fiber,
    .fiber fiber .checkGrant, .fiber fiber (.getGrant (some ⟨grantId, "10.0.0.1:1"⟩) 0),
    .startTask fiber false digest 0 pid 0]

/-- A servant runs a task with the digest "a", and delegate 1 gets to know of it. -/
def knows : List Action :=
  [.startDelegate 0 0, .startDelegate 1 0, .startServant "10.0.0.1:1" 4 0,
    .scheduler (.keepServantAlive (Scheduler.TaskDispatcher.sampleServant "10.0.0.1:1") 100 0 0)
      .done] ++
  startsTask 0 1 "a" 0 5 ++
  [.heartbeat "10.0.0.1:1", .notify 0, .getRunningTasks 1, .refresh 0 0]

/-- The first child of the servant exits with an output, and its task completes. -/
def completesTask (standardOutput : List UInt8) : List Action :=
  [.engine "10.0.0.1:1" (.write 1 standardOutput []), .engine "10.0.0.1:1" (.exit 1 0),
    .engine "10.0.0.1:1" .waiterStep, .engine "10.0.0.1:1" .waiterStep,
    .engine "10.0.0.1:1" .waiterStep, .engine "10.0.0.1:1" (.wait 1),
    .engine "10.0.0.1:1" (.callbackLocked 1 (some 1) 0),
    .engine "10.0.0.1:1" (.callbackOnCompletion 1), .engine "10.0.0.1:1" (.callbackCountDown 1)]

/-- A fiber of delegate 1 attaches to a task with the digest "a" and waits. -/
def attaches : List Action :=
  [.queueTask 2 1 1 "a" .allow 0 0, .fiber 2 (.readCache none), .findTask 2,
    .referenceTask 2 false 0, .fiber 2 .checkWait]

/-- It polls, and ends with what it got. -/
def takesOutput : List Action :=
  [.pollArrives 2, .poll 2 [] [], .freeServantTask 2, .fiber 2 (.complete 0)]

/-- The servant leaves and is started again, and runs a task with the digest "b". -/
def startsAgain : List Action :=
  [.exitServant "10.0.0.1:1", .startServant "10.0.0.1:1" 4 0] ++ startsTask 1 2 "b" 1 6

/-- What the fiber of delegate 1 has attached to, its digest, the task it took an output from,
the text of that output, and whether it is done and completed its task with just that. -/
def reusedOutput (s : Cluster) : Option (List (String × ℕ) × String × String × List UInt8 × Bool) :=
  (s.fibers.lookup 2).bind fun f => f.taken.map fun taken =>
    (f.fiber.referenced, f.fiber.task.digest, taken.1.task, taken.2.standardOutput,
      f.fiber.pc = .done ∧ f.fiber.completions = [taken.2])

theorem exists_of_reusedOutput {referenced : List (String × ℕ)} {digest digest' : String}
    {text : List UInt8} (h : reusedOutput s = some (referenced, digest, digest', text, true)) :
    ∃ f desc output, s.fibers.lookup 2 = some f ∧ f.fiber.pc = .done ∧
      f.fiber.referenced = referenced ∧ f.fiber.task.digest = digest ∧
      f.taken = some (desc, output) ∧ desc.task = digest' ∧ output.standardOutput = text ∧
      f.fiber.completions = [output] := by
  obtain ⟨f, hfound, hf⟩ := Option.bind_eq_some_iff.mp h
  obtain ⟨⟨desc, output⟩, htaken, hall⟩ := Option.map_eq_some_iff.mp hf
  simp only [Prod.mk.injEq, decide_eq_true_eq] at hall
  obtain ⟨hreferenced, hdigest, htask, htext, hdone, hcompletions⟩ := hall
  exact ⟨f, desc, output, hfound, hdone, hreferenced, hdigest, htaken, htask, htext, hcompletions⟩

/-- The servant goes on, and the fiber is given the output of the task it looked for. -/
theorem sameDigest_of_asksReporter_reused :
    ∃ s f desc output, follow (guardedNext (next sampleCluster) (AsksReporter sampleCluster))
        (knows ++ attaches ++ completesTask [97] ++ takesOutput) empty = some s ∧
      s.fibers.lookup 2 = some f ∧ f.fiber.referenced = [("10.0.0.1:1", 1)] ∧
      f.taken = some (desc, output) ∧ output.standardOutput = [97] ∧ SameDigest f ∧
      ∃ output, f.fiber.completions = [output] := by
  have hfinal : (follow (guardedNext (next sampleCluster) (AsksReporter sampleCluster))
      (knows ++ attaches ++ completesTask [97] ++ takesOutput) empty).bind reusedOutput
        = some ([("10.0.0.1:1", 1)], "a", "a", [97], true) := by
    decide
  obtain ⟨s, hfollow, hs⟩ := Option.bind_eq_some_iff.mp hfinal
  obtain ⟨f, desc, output, hfound, hdone, hreferenced, -, htaken, -, htext, -⟩ :=
    exists_of_reusedOutput hs
  have hreused := sameDigest_of_asksReporter sampleCluster _ s
    (.of_follow (guarded_of_guardedNext fun _ _ _ h => h) hfollow) 2 f hfound
  obtain ⟨output', hcompletions, -⟩ := hreused.2 (by simp [hreferenced]) hdone
  exact ⟨s, f, desc, output, hfollow, hfound, hreferenced, htaken, htext, hreused.1, output',
    hcompletions⟩

/-- Delegate 1 knows of a task "a" that the servant ran before it was started again. The
fiber that looks for "a" attaches to the new task of that number, and is given the output of
"b". -/
theorem other_digest_after_restart :
    ∃ s f desc output, Run (Step sampleCluster) empty
        (knows ++ startsAgain ++ attaches ++ completesTask [98] ++ takesOutput) s ∧
      s.fibers.lookup 2 = some f ∧ f.fiber.referenced = [("10.0.0.1:1", 1)] ∧
      f.fiber.task.digest = "a" ∧ f.taken = some (desc, output) ∧ desc.task = "b" ∧
      output.standardOutput = [98] ∧ f.fiber.completions = [output] := by
  have hfinal : (follow (next sampleCluster)
      (knows ++ startsAgain ++ attaches ++ completesTask [98] ++ takesOutput) empty).bind
      reusedOutput = some ([("10.0.0.1:1", 1)], "a", "b", [98], true) := by
    decide
  obtain ⟨s, hfollow, hs⟩ := Option.bind_eq_some_iff.mp hfinal
  obtain ⟨f, desc, output, hfound, -, hreferenced, hdigest, htaken, htask, htext, hcompletions⟩ :=
    exists_of_reusedOutput hs
  exact ⟨s, f, desc, output, .of_follow (fun _ _ _ h => h) hfollow, hfound, hreferenced, hdigest,
    htaken, htask, htext, hcompletions⟩

end Cluster

end Yadcc.Daemon
