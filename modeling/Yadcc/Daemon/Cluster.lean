/-
# Servants, the scheduler and delegates

Servants come and go at their locations, and every process of a servant numbers its tasks
from 1. Each reports its tasks in heartbeats; the scheduler keeps what it was told last for
every location, and delegates ask it for all of that. A fiber of a delegate attaches to a
task by the location and the number that its daemon knows for the digest. Heartbeats, answers
and snapshots are under way for any time, and replies may be lost.

Which process a report came from goes along with it, as `incarnation` or `reporter`. The
programs know nothing of it; it only sees to it that a reply comes from the process called.
-/

import Yadcc.Daemon.Local.RunningTaskKeeper
import Yadcc.Daemon.SharedServant

namespace Yadcc.Daemon

open Yadcc.Lib

/-! ## The system -/

/-- A process of a delegate daemon. -/
abbrev DaemonId := ℕ

/-- How many processes were started at a location before a process. -/
abbrev Incarnation := ℕ

/-- The settings of the delegates and of the scheduler. -/
structure ClusterConfig where
  local' : DaemonId → Local.DispatcherConfig
  scheduler : Scheduler.DispatcherConfig

/-- A process of a servant. A task of its engine is known by its digest. -/
structure Servant where
  incarnation : Incarnation
  engine : Cloud.ExecutionEngine String

structure Heartbeat where
  location : String
  incarnation : Incarnation
  runningTasks : List Scheduler.RunningTask

/-- The answer to a heartbeat. -/
structure HeartbeatAnswer where
  location : String
  incarnation : Incarnation
  expiredGrantIds : List UInt64

/-- The running tasks that the scheduler tells a delegate about, with the process at each
location that reported its tasks. -/
structure Snapshot where
  daemon : DaemonId
  runningTasks : List Scheduler.RunningTask
  reporter : String → Incarnation

/-- A delegate's keeper, with the processes that reported what it knows. -/
structure Delegate where
  keeper : Local.RunningTaskKeeper
  reporter : String → Incarnation

/-- A fiber of a delegate, with the process that reported the task it found. `taken` is the
output that `TryGetExistingTaskResult` took from a servant, with the task it came from. -/
structure DelegateFiber where
  daemon : DaemonId
  fiber : Local.Fiber
  reporter : Incarnation
  taken : Option (Cloud.TaskDesc String × Local.DistributedTaskOutput)

/-- A call of `WaitForCompilationOutput` that waits in a process, with the task it found. -/
structure Poll where
  incarnation : Incarnation
  found : Option Cloud.TaskId

/-- `started` counts the processes that were started at a location. -/
structure Cluster where
  servants : UnorderedMap String Servant
  started : String → Incarnation
  scheduler : Scheduler.TaskDispatcher
  reporter : String → Incarnation
  heartbeats : List Heartbeat
  answers : List HeartbeatAnswer
  delegates : UnorderedMap DaemonId Delegate
  snapshots : List Snapshot
  fibers : UnorderedMap FiberId DelegateFiber
  polls : UnorderedMap FiberId Poll

namespace Cluster

/-- No process has been started, and the scheduler knows nothing. -/
def empty : Cluster where
  servants := ∅
  started _ := 0
  scheduler := .empty
  reporter _ := 0
  heartbeats := []
  answers := []
  delegates := ∅
  snapshots := []
  fibers := ∅
  polls := ∅

def setEngine (location : String) (servant : Servant) (engine : Cloud.ExecutionEngine String)
    (s : Cluster) : Cluster :=
  { s with servants := s.servants.insert location { servant with engine } }

def setFiber (fiber : FiberId) (f : DelegateFiber) (s : Cluster) : Cluster :=
  { s with fibers := s.fibers.insert fiber f }

/-- What a servant reports as running. -/
def runningTasksOf (location : String) (e : Cloud.ExecutionEngine String) :
    List Scheduler.RunningTask :=
  e.enumerateTasks.map fun t => ⟨t.servantTaskId, t.taskGrantId, location, t.task⟩

/-! ## Calls -/

/-- The location that a fiber calls, and the process there. -/
def callee (cfg : ClusterConfig) (f : DelegateFiber) (s : Cluster) : Option (String × Servant) :=
  (SharedServant.calledLocation f.fiber.pc).bind fun called =>
    let location := (cfg.local' f.daemon).server called
    (s.servants.lookup location).map fun servant => (location, servant)

/-- The first part of `TryGetExistingTaskResult`. -/
def findTask (cfg : ClusterConfig) (delegate : Delegate) (f : DelegateFiber) :
    Option DelegateFiber :=
  let running := delegate.keeper.tryFindTask f.fiber.task.digest
  (f.fiber.next (cfg.local' f.daemon) (.findTask running)).map fun fiber =>
    { f with
      fiber
      reporter :=
        match running with
        | none => f.reporter
        | some running => delegate.reporter running.servantLocation }

/-- `ReferenceTask`, carried out by a servant. -/
def referenceTask (cfg : ClusterConfig) (fiber : FiberId) (f : DelegateFiber)
    (running : Local.RunningTaskDesc) (callee : String × Servant) (replyLost : Bool) (now : ℕ)
    (s : Cluster) : Cluster :=
  let result := callee.2.engine.tryReferenceTask running.servantTaskId
  (s.setEngine callee.1 callee.2 result.2).setFiber fiber
    { f with
      fiber := f.fiber.referenceTask (cfg.local' f.daemon) running (result.1 && !replyLost) now }

/-- `QueueCxxCompilationTask`, carried out by a servant, which makes its own digest of what
it was sent. -/
def startTask (cfg : ClusterConfig) (fiber : FiberId) (f : DelegateFiber)
    (grant : Local.GrantDesc) (callee : String × Servant) (replyLost : Bool) (digest : String)
    (memoryAvailable pid now : ℕ) (s : Cluster) : Cluster :=
  let result := callee.2.engine.tryQueueTask grant.grantId digest memoryAvailable pid now
  (s.setEngine callee.1 callee.2 result.2).setFiber fiber
    { f with
      fiber := f.fiber.startTask (cfg.local' f.daemon) grant
        (if replyLost then none else result.1) now }

/-- What an attached fiber takes from a response, with the servant's task. -/
def takes (local' : Local.DispatcherConfig) (held : Local.Held) (found : Option Cloud.TaskId)
    (extraInfo attachment : List UInt8) (e : Cloud.ExecutionEngine String) :
    Option (Cloud.TaskDesc String × Local.DistributedTaskOutput) :=
  match held, e.waitForTask found, Local.waitServantForTask local'
    (some (SharedServant.compilationOutput found extraInfo attachment e)) with
  | .referenced _, .ok desc, .ok output => some (desc, output)
  | _, _, _ => none

/-- The answer to `WaitForCompilationOutput`. -/
def poll (cfg : ClusterConfig) (fiber : FiberId) (f : DelegateFiber) (held : Local.Held)
    (retriesLeft : ℕ) (servant : Servant) (found : Option Cloud.TaskId)
    (extraInfo attachment : List UInt8) (s : Cluster) : Cluster :=
  { s with polls := s.polls.erase fiber }.setFiber fiber
    { f with
      fiber := f.fiber.poll (cfg.local' f.daemon) held retriesLeft
        (some (SharedServant.compilationOutput found extraInfo attachment servant.engine))
      taken := takes (cfg.local' f.daemon) held found extraInfo attachment servant.engine }

/-- `FreeTask`, carried out by a servant. -/
def freeServantTask (cfg : ClusterConfig) (fiber : FiberId) (f : DelegateFiber)
    (held : Local.Held) (callee : String × Servant) (s : Cluster) : Cluster :=
  (s.setEngine callee.1 callee.2
      (callee.2.engine.freeTask (held.freed f.fiber.task.taskId))).setFiber fiber
    { f with fiber := f.fiber.freeServantTask (cfg.local' f.daemon) held }

/-! ## Steps -/

/-- Heartbeats and snapshots under way are named by their position in the list. -/
inductive Action
  | startServant (location : String) (taskConcurrencyLimit : UInt64) (minMemory : ℕ)
  | exitServant (location : String)
  | engine (location : String) (a : Cloud.ExecutionEngine.Action String)
  | heartbeat (location : String)
  | notify (i : ℕ)
  | answer (i : ℕ)
  | scheduler (op : Scheduler.TaskDispatcher.Op) (reply : Scheduler.TaskDispatcher.Reply)
  | startDelegate (daemon : DaemonId) (now : ℕ)
  | getRunningTasks (daemon : DaemonId)
  | refresh (i : ℕ) (now : ℕ)
  | refreshFailed (daemon : DaemonId) (now : ℕ)
  | queueTask (fiber : FiberId) (daemon : DaemonId) (taskId : ℕ) (digest : String)
      (cacheSetting : Local.CacheControl) (startDeadline now : ℕ)
  | fiber (fiber : FiberId) (event : Local.Event)
  | findTask (fiber : FiberId)
  | referenceTask (fiber : FiberId) (replyLost : Bool) (now : ℕ)
  | startTask (fiber : FiberId) (replyLost : Bool) (digest : String)
      (memoryAvailable pid now : ℕ)
  | pollArrives (fiber : FiberId)
  | poll (fiber : FiberId) (extraInfo attachment : List UInt8)
  | pollFailed (fiber : FiberId)
  | freeServantTask (fiber : FiberId)
  | die (fiber : FiberId)

/-- What an engine does on its own, or when its daemon leaves. -/
def isOwn : Cloud.ExecutionEngine.Action String → Bool
  | .stop => true
  | .killAll => true
  | a => a.isInternal

/-- What a fiber does without the answer of a keeper or of a servant. Calls may fail at any
time. -/
def isAlone : Local.Event → Bool
  | .findTask _ => false
  | .referenceTask ok _ => !ok
  | .startTask servantTaskId _ => servantTaskId.isNone
  | .poll _ => false
  | _ => true

/-- Servants report their tasks in heartbeats. -/
def isReport : Scheduler.TaskDispatcher.Op → Bool
  | .notifyServantRunningTasks _ _ => true
  | _ => false

def next (cfg : ClusterConfig) (s : Cluster) : Action → Option Cluster
  | .startServant location taskConcurrencyLimit minMemory =>
      if (s.servants.lookup location).isSome then none
      else some { s with
        servants := s.servants.insert location
          ⟨s.started location, .empty String taskConcurrencyLimit minMemory⟩
        started := Function.update s.started location (s.started location + 1) }
  | .exitServant location => some { s with servants := s.servants.erase location }
  | .engine location a => do
      let servant ← s.servants.lookup location
      if isOwn a then (servant.engine.next a).map fun engine => s.setEngine location servant engine
      else none
  | .heartbeat location => do
      let servant ← s.servants.lookup location
      some { s with
        heartbeats := ⟨location, servant.incarnation, runningTasksOf location servant.engine⟩ ::
          s.heartbeats }
  | .notify i => do
      let heartbeat ← s.heartbeats[i]?
      match s.scheduler.apply cfg.scheduler
        (.notifyServantRunningTasks heartbeat.location heartbeat.runningTasks) with
      | .ok (.unknownTasks taskIds, scheduler) =>
          some { s with
            scheduler
            reporter := Function.update s.reporter heartbeat.location heartbeat.incarnation
            heartbeats := s.heartbeats.eraseIdx i
            answers := ⟨heartbeat.location, heartbeat.incarnation, taskIds⟩ :: s.answers }
      | _ => none
  | .answer i => do
      let answer ← s.answers[i]?
      let servant ← s.servants.lookup answer.location
      if servant.incarnation = answer.incarnation then
        some { (s.setEngine answer.location servant
            (servant.engine.killExpiredTasks answer.expiredGrantIds)) with
          answers := s.answers.eraseIdx i }
      else none
  | .scheduler op reply =>
      if isReport op then none
      else (s.scheduler.next cfg.scheduler (op, reply)).map fun scheduler => { s with scheduler }
  | .startDelegate daemon now =>
      if (s.delegates.lookup daemon).isSome then none
      else some { s with delegates := s.delegates.insert daemon ⟨.new now, fun _ => 0⟩ }
  | .getRunningTasks daemon =>
      some { s with
        snapshots := ⟨daemon, s.scheduler.getRunningTasks, s.reporter⟩ :: s.snapshots }
  | .refresh i now => do
      let snapshot ← s.snapshots[i]?
      let delegate ← s.delegates.lookup snapshot.daemon
      some { s with
        delegates := s.delegates.insert snapshot.daemon
          ⟨delegate.keeper.refresh (some snapshot.runningTasks) now, snapshot.reporter⟩
        snapshots := s.snapshots.eraseIdx i }
  | .refreshFailed daemon now => do
      let delegate ← s.delegates.lookup daemon
      some { s with
        delegates := s.delegates.insert daemon
          { delegate with keeper := delegate.keeper.refresh none now } }
  | .queueTask fiber daemon taskId digest cacheSetting startDeadline now =>
      if (s.fibers.lookup fiber).isSome then none
      else some (s.setFiber fiber
        ⟨daemon, .queued taskId digest cacheSetting startDeadline now, 0, none⟩)
  | .fiber fiber event => do
      let f ← s.fibers.lookup fiber
      if isAlone event then
        (f.fiber.next (cfg.local' f.daemon) event).map fun fiber' =>
          s.setFiber fiber { f with fiber := fiber' }
      else none
  | .findTask fiber => do
      let f ← s.fibers.lookup fiber
      let delegate ← s.delegates.lookup f.daemon
      (findTask cfg delegate f).map fun f => s.setFiber fiber f
  | .referenceTask fiber replyLost now => do
      let f ← s.fibers.lookup fiber
      let callee ← s.callee cfg f
      match f.fiber.pc with
      | .referencing running => some (s.referenceTask cfg fiber f running callee replyLost now)
      | _ => none
  | .startTask fiber replyLost digest memoryAvailable pid now => do
      let f ← s.fibers.lookup fiber
      let callee ← s.callee cfg f
      match f.fiber.pc with
      | .starting grant =>
          if callee.2.engine.pidFree pid then
            some (s.startTask cfg fiber f grant callee replyLost digest memoryAvailable pid now)
          else none
      | _ => none
  | .pollArrives fiber => do
      let f ← s.fibers.lookup fiber
      let callee ← s.callee cfg f
      match f.fiber.pc with
      | .polling held _ =>
          some { s with
            polls := s.polls.insert fiber
              ⟨callee.2.incarnation, callee.2.engine.findTask held.acquired⟩ }
      | _ => none
  | .poll fiber extraInfo attachment => do
      let f ← s.fibers.lookup fiber
      let callee ← s.callee cfg f
      let poll ← s.polls.lookup fiber
      match f.fiber.pc with
      | .polling held retriesLeft =>
          if poll.incarnation = callee.2.incarnation then
            some (s.poll cfg fiber f held retriesLeft callee.2 poll.found extraInfo attachment)
          else none
      | _ => none
  | .pollFailed fiber => do
      let f ← s.fibers.lookup fiber
      match f.fiber.pc with
      | .polling held retriesLeft =>
          some ({ s with polls := s.polls.erase fiber }.setFiber fiber
            { f with fiber := f.fiber.poll (cfg.local' f.daemon) held retriesLeft none })
      | _ => none
  | .freeServantTask fiber => do
      let f ← s.fibers.lookup fiber
      let callee ← s.callee cfg f
      match f.fiber.pc with
      | .freeing held => some (s.freeServantTask cfg fiber f held callee)
      | _ => none
  | .die fiber =>
      some { s with
        fibers := s.fibers.erase fiber
        polls := s.polls.erase fiber }

def Step (cfg : ClusterConfig) (s : Cluster) (a : Action) (t : Cluster) : Prop :=
  s.next cfg a = some t

/-! ## What a step does -/

/-- The process that a call of a fiber goes to. -/
structure Calls (cfg : ClusterConfig) (s : Cluster) (f : DelegateFiber) (called location : String)
    (servant : Servant) : Prop where
  called_eq : SharedServant.calledLocation f.fiber.pc = some called
  location_eq : location = (cfg.local' f.daemon).server called
  found : s.servants.lookup location = some servant

theorem calls_of_callee {cfg : ClusterConfig} {s : Cluster} {f : DelegateFiber}
    {callee : String × Servant} (h : s.callee cfg f = some callee) :
    ∃ called, Calls cfg s f called callee.1 callee.2 := by
  obtain ⟨called, hcalled, hfound⟩ := Option.bind_eq_some_iff.mp h
  obtain ⟨servant, hservant, rfl⟩ := Option.map_eq_some_iff.mp hfound
  exact ⟨called, hcalled, rfl, hservant⟩

/-- Everything a step can be, label by label. -/
inductive Effect (cfg : ClusterConfig) (s : Cluster) : Action → Cluster → Prop
  | startServant {location : String} {taskConcurrencyLimit : UInt64} {minMemory : ℕ}
      (free : s.servants.lookup location = none) :
      Effect cfg s (.startServant location taskConcurrencyLimit minMemory)
        { s with
          servants := s.servants.insert location
            ⟨s.started location, .empty String taskConcurrencyLimit minMemory⟩
          started := Function.update s.started location (s.started location + 1) }
  | exitServant {location : String} :
      Effect cfg s (.exitServant location) { s with servants := s.servants.erase location }
  | engine {location : String} {a : Cloud.ExecutionEngine.Action String} (servant : Servant)
      (engine : Cloud.ExecutionEngine String) (found : s.servants.lookup location = some servant)
      (own : isOwn a = true) (step : servant.engine.Step a engine) :
      Effect cfg s (.engine location a) (s.setEngine location servant engine)
  | heartbeat {location : String} (servant : Servant)
      (found : s.servants.lookup location = some servant) :
      Effect cfg s (.heartbeat location)
        { s with
          heartbeats := ⟨location, servant.incarnation, runningTasksOf location servant.engine⟩ ::
            s.heartbeats }
  | notify {i : ℕ} (heartbeat : Heartbeat) (taskIds : List UInt64)
      (scheduler : Scheduler.TaskDispatcher) (sent : heartbeat ∈ s.heartbeats)
      (applied : s.scheduler.apply cfg.scheduler
        (.notifyServantRunningTasks heartbeat.location heartbeat.runningTasks)
          = .ok (.unknownTasks taskIds, scheduler)) :
      Effect cfg s (.notify i)
        { s with
          scheduler
          reporter := Function.update s.reporter heartbeat.location heartbeat.incarnation
          heartbeats := s.heartbeats.eraseIdx i
          answers := ⟨heartbeat.location, heartbeat.incarnation, taskIds⟩ :: s.answers }
  | answer {i : ℕ} (answer : HeartbeatAnswer) (servant : Servant)
      (found : s.servants.lookup answer.location = some servant) :
      Effect cfg s (.answer i)
        { (s.setEngine answer.location servant
            (servant.engine.killExpiredTasks answer.expiredGrantIds)) with
          answers := s.answers.eraseIdx i }
  | scheduler {op : Scheduler.TaskDispatcher.Op} {reply : Scheduler.TaskDispatcher.Reply}
      (scheduler : Scheduler.TaskDispatcher) (noReport : isReport op = false)
      (step : s.scheduler.apply cfg.scheduler op = .ok (reply, scheduler)) :
      Effect cfg s (.scheduler op reply) { s with scheduler }
  | startDelegate {daemon : DaemonId} {now : ℕ} :
      Effect cfg s (.startDelegate daemon now)
        { s with delegates := s.delegates.insert daemon ⟨.new now, fun _ => 0⟩ }
  | getRunningTasks {daemon : DaemonId} :
      Effect cfg s (.getRunningTasks daemon)
        { s with
          snapshots := ⟨daemon, s.scheduler.getRunningTasks, s.reporter⟩ :: s.snapshots }
  | refresh {i now : ℕ} (snapshot : Snapshot) (delegate : Delegate)
      (sent : snapshot ∈ s.snapshots) :
      Effect cfg s (.refresh i now)
        { s with
          delegates := s.delegates.insert snapshot.daemon
            ⟨delegate.keeper.refresh (some snapshot.runningTasks) now, snapshot.reporter⟩
          snapshots := s.snapshots.eraseIdx i }
  | refreshFailed {daemon : DaemonId} {now : ℕ} (delegate : Delegate)
      (found : s.delegates.lookup daemon = some delegate) :
      Effect cfg s (.refreshFailed daemon now)
        { s with
          delegates := s.delegates.insert daemon
            { delegate with keeper := delegate.keeper.refresh none now } }
  | queueTask {fiber : FiberId} {daemon : DaemonId} {taskId : ℕ} {digest : String}
      {cacheSetting : Local.CacheControl} {startDeadline now : ℕ}
      (unused : s.fibers.lookup fiber = none) :
      Effect cfg s (.queueTask fiber daemon taskId digest cacheSetting startDeadline now)
        (s.setFiber fiber
          ⟨daemon, .queued taskId digest cacheSetting startDeadline now, 0, none⟩)
  | fiber {fiber : FiberId} {event : Local.Event} (f : DelegateFiber) (fiber' : Local.Fiber)
      (found : s.fibers.lookup fiber = some f) (alone : isAlone event = true)
      (step : f.fiber.Step (cfg.local' f.daemon) event fiber') :
      Effect cfg s (.fiber fiber event) (s.setFiber fiber { f with fiber := fiber' })
  | findTask {fiber : FiberId} (f f' : DelegateFiber) (delegate : Delegate)
      (found : s.fibers.lookup fiber = some f)
      (known : s.delegates.lookup f.daemon = some delegate)
      (step : findTask cfg delegate f = some f') :
      Effect cfg s (.findTask fiber) (s.setFiber fiber f')
  | referenceTask {fiber : FiberId} {replyLost : Bool} {now : ℕ} (f : DelegateFiber)
      (running : Local.RunningTaskDesc) (called : String) (callee : String × Servant)
      (found : s.fibers.lookup fiber = some f) (calls : Calls cfg s f called callee.1 callee.2)
      (pc : f.fiber.pc = .referencing running) :
      Effect cfg s (.referenceTask fiber replyLost now)
        (s.referenceTask cfg fiber f running callee replyLost now)
  | startTask {fiber : FiberId} {replyLost : Bool} {digest : String}
      {memoryAvailable pid now : ℕ} (f : DelegateFiber) (grant : Local.GrantDesc)
      (called : String) (callee : String × Servant) (found : s.fibers.lookup fiber = some f)
      (calls : Calls cfg s f called callee.1 callee.2) (pc : f.fiber.pc = .starting grant) :
      Effect cfg s (.startTask fiber replyLost digest memoryAvailable pid now)
        (s.startTask cfg fiber f grant callee replyLost digest memoryAvailable pid now)
  | pollArrives {fiber : FiberId} (f : DelegateFiber) (held : Local.Held) (retriesLeft : ℕ)
      (called : String) (callee : String × Servant) (found : s.fibers.lookup fiber = some f)
      (calls : Calls cfg s f called callee.1 callee.2)
      (pc : f.fiber.pc = .polling held retriesLeft) :
      Effect cfg s (.pollArrives fiber)
        { s with
          polls := s.polls.insert fiber
            ⟨callee.2.incarnation, callee.2.engine.findTask held.acquired⟩ }
  | poll {fiber : FiberId} {extraInfo attachment : List UInt8} (f : DelegateFiber)
      (held : Local.Held) (retriesLeft : ℕ) (called : String) (callee : String × Servant)
      (poll : Poll) (found : s.fibers.lookup fiber = some f)
      (calls : Calls cfg s f called callee.1 callee.2)
      (arrived : s.polls.lookup fiber = some poll)
      (pc : f.fiber.pc = .polling held retriesLeft)
      (same : poll.incarnation = callee.2.incarnation) :
      Effect cfg s (.poll fiber extraInfo attachment)
        (s.poll cfg fiber f held retriesLeft callee.2 poll.found extraInfo attachment)
  | pollFailed {fiber : FiberId} (f : DelegateFiber) (held : Local.Held) (retriesLeft : ℕ)
      (found : s.fibers.lookup fiber = some f) (pc : f.fiber.pc = .polling held retriesLeft) :
      Effect cfg s (.pollFailed fiber)
        ({ s with polls := s.polls.erase fiber }.setFiber fiber
          { f with fiber := f.fiber.poll (cfg.local' f.daemon) held retriesLeft none })
  | freeServantTask {fiber : FiberId} (f : DelegateFiber) (held : Local.Held) (called : String)
      (callee : String × Servant) (found : s.fibers.lookup fiber = some f)
      (calls : Calls cfg s f called callee.1 callee.2) (pc : f.fiber.pc = .freeing held) :
      Effect cfg s (.freeServantTask fiber) (s.freeServantTask cfg fiber f held callee)
  | die {fiber : FiberId} :
      Effect cfg s (.die fiber)
        { s with
          fibers := s.fibers.erase fiber
          polls := s.polls.erase fiber }

theorem effect_of_step {cfg : ClusterConfig} {s t : Cluster} {a : Action} (h : Step cfg s a t) :
    Effect cfg s a t := by
  unfold Step next at h
  cases a with
  | startServant location taskConcurrencyLimit minMemory =>
      dsimp only at h
      split at h
      · cases h
      · next hfree =>
          cases h
          exact .startServant (by simpa using hfree)
  | exitServant location =>
      cases h
      exact .exitServant
  | engine location a =>
      obtain ⟨servant, hfound, h⟩ := Option.bind_eq_some_iff.mp h
      split at h
      · next hown =>
          obtain ⟨engine, hstep, rfl⟩ := Option.map_eq_some_iff.mp h
          exact .engine servant engine hfound hown hstep
      · cases h
  | heartbeat location =>
      obtain ⟨servant, hfound, h⟩ := Option.bind_eq_some_iff.mp h
      cases h
      exact .heartbeat servant hfound
  | notify i =>
      obtain ⟨heartbeat, hsent, h⟩ := Option.bind_eq_some_iff.mp h
      split at h
      · next taskIds scheduler happlied =>
          cases h
          exact .notify heartbeat taskIds scheduler (List.mem_of_getElem? hsent) happlied
      · cases h
  | answer i =>
      obtain ⟨answer, -, h⟩ := Option.bind_eq_some_iff.mp h
      obtain ⟨servant, hfound, h⟩ := Option.bind_eq_some_iff.mp h
      split at h
      · cases h
        exact .answer answer servant hfound
      · cases h
  | scheduler op reply =>
      dsimp only at h
      split at h
      · cases h
      · next hreport =>
          obtain ⟨scheduler, hstep, rfl⟩ := Option.map_eq_some_iff.mp h
          exact .scheduler scheduler (by simpa using hreport)
            (Scheduler.TaskDispatcher.step_of_next _ _ _ hstep)
  | startDelegate daemon now =>
      dsimp only at h
      split at h
      · cases h
      · cases h
        exact .startDelegate
  | getRunningTasks daemon =>
      cases h
      exact .getRunningTasks
  | refresh i now =>
      obtain ⟨snapshot, hsent, h⟩ := Option.bind_eq_some_iff.mp h
      obtain ⟨delegate, -, h⟩ := Option.bind_eq_some_iff.mp h
      cases h
      exact .refresh snapshot delegate (List.mem_of_getElem? hsent)
  | refreshFailed daemon now =>
      obtain ⟨delegate, hfound, h⟩ := Option.bind_eq_some_iff.mp h
      cases h
      exact .refreshFailed delegate hfound
  | queueTask fiber daemon taskId digest cacheSetting startDeadline now =>
      dsimp only at h
      split at h
      · cases h
      · next hunused =>
          cases h
          exact .queueTask (by simpa using hunused)
  | fiber fiber event =>
      obtain ⟨f, hfound, h⟩ := Option.bind_eq_some_iff.mp h
      split at h
      · next halone =>
          obtain ⟨fiber', hstep, rfl⟩ := Option.map_eq_some_iff.mp h
          exact .fiber f fiber' hfound halone hstep
      · cases h
  | findTask fiber =>
      obtain ⟨f, hfound, h⟩ := Option.bind_eq_some_iff.mp h
      obtain ⟨delegate, hknown, h⟩ := Option.bind_eq_some_iff.mp h
      obtain ⟨f', hstep, rfl⟩ := Option.map_eq_some_iff.mp h
      exact .findTask f f' delegate hfound hknown hstep
  | referenceTask fiber replyLost now =>
      obtain ⟨f, hfound, h⟩ := Option.bind_eq_some_iff.mp h
      obtain ⟨callee, hcallee, h⟩ := Option.bind_eq_some_iff.mp h
      obtain ⟨called, hcalls⟩ := calls_of_callee hcallee
      split at h
      · next running hpc =>
          cases h
          exact .referenceTask f running called callee hfound hcalls hpc
      · cases h
  | startTask fiber replyLost digest memoryAvailable pid now =>
      obtain ⟨f, hfound, h⟩ := Option.bind_eq_some_iff.mp h
      obtain ⟨callee, hcallee, h⟩ := Option.bind_eq_some_iff.mp h
      obtain ⟨called, hcalls⟩ := calls_of_callee hcallee
      split at h
      · next grant hpc =>
          split at h
          · cases h
            exact .startTask f grant called callee hfound hcalls hpc
          · cases h
      · cases h
  | pollArrives fiber =>
      obtain ⟨f, hfound, h⟩ := Option.bind_eq_some_iff.mp h
      obtain ⟨callee, hcallee, h⟩ := Option.bind_eq_some_iff.mp h
      obtain ⟨called, hcalls⟩ := calls_of_callee hcallee
      split at h
      · next held retriesLeft hpc =>
          cases h
          exact .pollArrives f held retriesLeft called callee hfound hcalls hpc
      · cases h
  | poll fiber extraInfo attachment =>
      obtain ⟨f, hfound, h⟩ := Option.bind_eq_some_iff.mp h
      obtain ⟨callee, hcallee, h⟩ := Option.bind_eq_some_iff.mp h
      obtain ⟨called, hcalls⟩ := calls_of_callee hcallee
      obtain ⟨poll, harrived, h⟩ := Option.bind_eq_some_iff.mp h
      split at h
      · next held retriesLeft hpc =>
          split at h
          · next hsame =>
              cases h
              exact .poll f held retriesLeft called callee poll hfound hcalls harrived hpc hsame
          · cases h
      · cases h
  | pollFailed fiber =>
      obtain ⟨f, hfound, h⟩ := Option.bind_eq_some_iff.mp h
      split at h
      · next held retriesLeft hpc =>
          cases h
          exact .pollFailed f held retriesLeft hfound hpc
      · cases h
  | freeServantTask fiber =>
      obtain ⟨f, hfound, h⟩ := Option.bind_eq_some_iff.mp h
      obtain ⟨callee, hcallee, h⟩ := Option.bind_eq_some_iff.mp h
      obtain ⟨called, hcalls⟩ := calls_of_callee hcallee
      split at h
      · next held hpc =>
          cases h
          exact .freeServantTask f held called callee hfound hcalls hpc
      · cases h
  | die fiber =>
      cases h
      exact .die

end Cluster

end Yadcc.Daemon
