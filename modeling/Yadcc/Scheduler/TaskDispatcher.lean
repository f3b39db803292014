/-
# The scheduler's task dispatcher

`TaskDispatcher` keeps two registries under one lock: the servants that heartbeat,
and the task grants handed out on them. A grant points at the descriptor of its
servant, and the descriptor counts its grants. Descriptors are reference counted and
can outlive their registration, so they live on a heap here and both registries hold
pointers into it.

Every public operation is one function on the state, since each runs under
`allocation_lock_`. A wait is the exception: it gives the lock up between two looks at
the servants, so `waitForStartingNewTask` is one look.
-/

import Yadcc.Lib.UnorderedMap
import Yadcc.Lib.Transition

namespace Yadcc.Scheduler

/-- A reading of the steady clock, in nanoseconds. -/
abbrev Time := Int

/-- `RunningTask` of `scheduler.proto`, as reported in heartbeats. A servant numbers its
tasks from 1 and is replaced long before the numbers end. -/
structure RunningTask where
  servantTaskId : ℕ
  taskGrantId : UInt64
  servantLocation : String
  taskDigest : String
  deriving DecidableEq

/-! ## Running tasks by servant -/

/-- Running tasks as last reported, keyed by servant location. -/
structure RunningTaskBookkeeper where
  runningTasks : UnorderedMap String (List RunningTask)

namespace RunningTaskBookkeeper

def setServantRunningTasks (servantLocation : String) (tasks : List RunningTask)
    (b : RunningTaskBookkeeper) : RunningTaskBookkeeper :=
  ⟨(b.runningTasks.erase servantLocation).insert servantLocation tasks⟩

def dropServant (servantLocation : String) (b : RunningTaskBookkeeper) :
    RunningTaskBookkeeper :=
  ⟨b.runningTasks.erase servantLocation⟩

/-- Every servant's tasks; each servant's list is put before what is there already. -/
def getRunningTasks (b : RunningTaskBookkeeper) : List RunningTask :=
  b.runningTasks.entries.foldl (fun result e => e.2 ++ result) []

end RunningTaskBookkeeper

/-! ## Descriptors -/

structure EnvironmentDesc where
  compilerDigest : String
  deriving DecidableEq

inductive ServantPriority
  | unknown
  | dedicated
  | user
  | unrecognized (code : UInt32)
  deriving DecidableEq

/-- Why a servant offers no capacity. The request carries a bare number, so values
outside the enumeration occur. -/
inductive NotAcceptingTaskReason
  | unknown
  | userInstructed
  | poorMachine
  | cgroupsPresent
  | behindNat
  | notVerified
  | unrecognized (code : UInt32)
  deriving DecidableEq

structure TaskPersonality where
  requestorIp : String
  minVersion : UInt32
  envDesc : EnvironmentDesc

structure TaskAllocation where
  taskId : UInt64
  servantLocation : String
  deriving DecidableEq

structure ServantPersonality where
  version : Int32
  observedLocation : String
  reportedLocation : String
  environments : List EnvironmentDesc
  numProcessors : UInt64
  currentLoad : UInt64
  totalMemoryInBytes : UInt64
  memoryAvailableInBytes : UInt64
  maxTasks : UInt64
  priority : ServantPriority
  notAcceptingTaskReason : NotAcceptingTaskReason

structure ServantDesc where
  personality : ServantPersonality
  discoveredAt : Time
  expiresAt : Time
  runningTasks : UInt64
  everAssignedTasks : UInt64

/-- The identity of a servant descriptor. -/
abbrev ServantPtr := ℕ

structure TaskDesc where
  taskId : UInt64
  personality : TaskPersonality
  belongingServant : ServantPtr
  startedAt : Time
  expiresAt : Time
  isPrefetch : Bool
  zombie : Bool

/-- What the dispatcher takes from its flags, and the comparison key of two servants.
`utilization running capacity` is the floating point quotient of the two. -/
structure DispatcherConfig where
  minMemoryForNewTask : UInt64
  utilization : UInt64 → UInt64 → ℚ

/-- The dispatcher's members. `heap` gives the descriptor behind a pointer, and
`nextPtr` the address of the next descriptor to be made. -/
structure TaskDispatcher where
  heap : ServantPtr → ServantDesc
  nextPtr : ServantPtr
  servants : List ServantPtr
  nextTaskId : UInt64
  tasks : UnorderedMap UInt64 TaskDesc
  runningTaskBookkeeper : RunningTaskBookkeeper

/-- The ways an operation can abort the process: its assertions, and the decrement of a
zero `running_tasks`, which the code does not test and which would wrap. -/
inductive DispatcherFault
  | duplicateTaskId
  | runningTasksUnderflow
  | maxTasksReached
  | maxTasksZero
  | capacityZero
  | noServantPicked
  deriving DecidableEq

namespace TaskDispatcher

/-- A descriptor that no operation has touched yet. -/
def blankDesc : ServantDesc where
  personality :=
    { version := 0, observedLocation := "", reportedLocation := "", environments := []
      numProcessors := 0, currentLoad := 0, totalMemoryInBytes := 0
      memoryAvailableInBytes := 0, maxTasks := 0, priority := .unknown
      notAcceptingTaskReason := .unknown }
  discoveredAt := 0
  expiresAt := 0
  runningTasks := 0
  everAssignedTasks := 0

/-- No servant has registered and no grant was made. -/
def empty : TaskDispatcher where
  heap _ := blankDesc
  nextPtr := 0
  servants := []
  nextTaskId := 0
  tasks := ∅
  runningTaskBookkeeper := ⟨∅⟩

/-- Where a registered servant was seen. -/
def locationOf (s : TaskDispatcher) (r : ServantPtr) : String :=
  (s.heap r).personality.observedLocation

/-- The number of grants that point at a descriptor. -/
def tasksOn (s : TaskDispatcher) (r : ServantPtr) : ℕ :=
  s.tasks.count fun _ task => task.belongingServant == r

/-- Write a descriptor back. -/
def setDesc (s : TaskDispatcher) (r : ServantPtr) (desc : ServantDesc) : TaskDispatcher :=
  { s with heap := Function.update s.heap r desc }

/-! ## Choosing a servant -/

def containsEnvironmentSlow (envs : List EnvironmentDesc) (lookingFor : EnvironmentDesc) : Bool :=
  envs.any fun e => e.compilerDigest == lookingFor.compilerDigest

/-- Whether `ipPort` is `ip2`, a colon, and something more. -/
def isNetworkAddressEqual (ipPort ip2 : String) : Bool :=
  decide (ip2.toList.length < ipPort.toList.length) &&
    ipPort.toList[ip2.toList.length]? == some ':' &&
    ip2.toList.isPrefixOf ipPort.toList

/-- Capacity left for us on a servant. The two subtractions are unsigned and read back
as signed. -/
def getCapacityAvailable (cfg : DispatcherConfig) (desc : ServantDesc) : UInt64 :=
  let personality := desc.personality
  if personality.totalMemoryInBytes ≠ 0 ∧
      personality.memoryAvailableInBytes < cfg.minMemoryForNewTask then
    desc.runningTasks
  else
    let foreignLoad := max (personality.currentLoad - desc.runningTasks).toInt64 0
    let capacityAvailable :=
      (max (personality.numProcessors - foreignLoad.toUInt64).toInt64 0).toUInt64
    min personality.maxTasks capacityAvailable

def unsafeEnumerateEligibleServants (s : TaskDispatcher) (requesting : TaskPersonality) :
    List ServantPtr :=
  s.servants.filter fun r =>
    let personality := (s.heap r).personality
    containsEnvironmentSlow personality.environments requesting.envDesc &&
      personality.maxTasks != 0 &&
      -- `int` against `uint32`: the version is read as unsigned.
      !decide (personality.version.toUInt32 < requesting.minVersion)

def unsafeEnumerateFreeServants (cfg : DispatcherConfig) (s : TaskDispatcher)
    (eligible : List ServantPtr) : List ServantPtr :=
  eligible.filter fun r =>
    decide ((s.heap r).runningTasks < getCapacityAvailable cfg (s.heap r))

/-- The scan for the least utilized servant that satisfies `pred`; `best` is the
candidate so far with its utilization. -/
def unsafeTryPickServantFor (cfg : DispatcherConfig) (s : TaskDispatcher)
    (pred : ServantDesc → Bool) :
    List ServantPtr → Option (ServantPtr × ℚ) → Except DispatcherFault (Option ServantPtr)
  | [], best => .ok (best.map Prod.fst)
  | r :: rest, best =>
      let desc := s.heap r
      let capacity := getCapacityAvailable cfg desc
      if desc.personality.maxTasks ≤ desc.runningTasks then .error .maxTasksReached
      else if desc.personality.maxTasks = 0 then .error .maxTasksZero
      else if capacity = 0 then .error .capacityZero
      else if pred desc then
        let utilization := cfg.utilization desc.runningTasks capacity
        match best with
        | none => unsafeTryPickServantFor cfg s pred rest (some (r, utilization))
        | some (chosen, least) =>
            if utilization < least then
              unsafeTryPickServantFor cfg s pred rest (some (r, utilization))
            else unsafeTryPickServantFor cfg s pred rest (some (chosen, least))
      else unsafeTryPickServantFor cfg s pred rest best

def unsafeTryPickDedicatedServantFor (cfg : DispatcherConfig) (s : TaskDispatcher)
    (servants : List ServantPtr) : Except DispatcherFault (Option ServantPtr) :=
  unsafeTryPickServantFor cfg s
    (fun desc => decide (desc.personality.priority = .dedicated) &&
      decide (desc.runningTasks * 2 < desc.personality.numProcessors)) servants none

def unsafeTryPickAvailableServantFor (cfg : DispatcherConfig) (s : TaskDispatcher)
    (servants : List ServantPtr) : Except DispatcherFault (Option ServantPtr) :=
  unsafeTryPickServantFor cfg s (fun _ => true) servants none

/-- The first servant on the requestor's own host is set aside and used only when no
other one can be. -/
def unsafePickServantFor (cfg : DispatcherConfig) (s : TaskDispatcher)
    (servants : List ServantPtr) (requestor : String) : Except DispatcherFault ServantPtr := do
  let isSelf := fun r => isNetworkAddressEqual (s.locationOf r) requestor
  let self := servants.find? isSelf
  let servants := servants.eraseP isSelf
  if let some r := ← unsafeTryPickDedicatedServantFor cfg s servants then
    return r
  if let some r := ← unsafeTryPickAvailableServantFor cfg s servants then
    return r
  match self with
  | none => .error .noServantPicked
  | some r =>
      if getCapacityAvailable cfg (s.heap r) = 0 then .error .capacityZero else .ok r

/-! ## Operations -/

/-- What one look at the servants comes to. On `noServantFree` the caller waits to be
notified, or gives up when its deadline passes. -/
inductive StartAttempt
  | environmentNotFound
  | noServantFree
  | allocated (allocation : TaskAllocation)
  deriving DecidableEq

/-- Charge a new grant to the descriptor `pick` and file it under the next id. -/
def grantTask (pick : ServantPtr) (personality : TaskPersonality) (expiresIn : Time)
    (prefetching : Bool) (now now' : Time) (s : TaskDispatcher) : TaskDispatcher :=
  let desc := s.heap pick
  let task : TaskDesc :=
    { taskId := s.nextTaskId, personality, belongingServant := pick, startedAt := now
      expiresAt := now' + expiresIn, isPrefetch := prefetching, zombie := false }
  let s' := s.setDesc pick
    { desc with
      runningTasks := desc.runningTasks + 1
      everAssignedTasks := desc.everAssignedTasks + 1 }
  { s' with nextTaskId := s.nextTaskId + 1, tasks := s.tasks.insert s.nextTaskId task }

/-- One look of `WaitForStartingNewTask`, with its two readings of the clock. -/
def waitForStartingNewTask (cfg : DispatcherConfig) (personality : TaskPersonality)
    (expiresIn : Time) (prefetching : Bool) (now now' : Time) (s : TaskDispatcher) :
    Except DispatcherFault (StartAttempt × TaskDispatcher) :=
  let eligible := s.unsafeEnumerateEligibleServants personality
  let free := s.unsafeEnumerateFreeServants cfg eligible
  if eligible = [] then .ok (.environmentNotFound, s)
  else if free = [] then .ok (.noServantFree, s)
  else do
    let pick ← s.unsafePickServantFor cfg free personality.requestorIp
    if (s.tasks.lookup s.nextTaskId).isSome then .error .duplicateTaskId
    else
      return (.allocated ⟨s.nextTaskId, s.locationOf pick⟩,
        s.grantTask pick personality expiresIn prefetching now now')

/-- Move the deadline of a grant. -/
def renewTask (taskId : UInt64) (task : TaskDesc) (expiresAt : Time) (s : TaskDispatcher) :
    TaskDispatcher :=
  { s with tasks := s.tasks.insert taskId { task with expiresAt } }

def keepTaskAlive (taskId : UInt64) (newExpiresIn now : Time) (s : TaskDispatcher) :
    Bool × TaskDispatcher :=
  match s.tasks.lookup taskId with
  | none => (false, s)
  | some task =>
      if task.zombie then (false, s)
      else (true, s.renewTask taskId task (now + newExpiresIn))

/-- Forget the listed grants, in order. An unknown one ends the call there. -/
def unsafeFreeTasks : List UInt64 → TaskDispatcher → Except DispatcherFault TaskDispatcher
  | [], s => .ok s
  | taskId :: rest, s =>
      match s.tasks.lookup taskId with
      | none => .ok s
      | some task =>
          let desc := s.heap task.belongingServant
          if desc.runningTasks = 0 then .error .runningTasksUnderflow
          else
            let s' := s.setDesc task.belongingServant
              { desc with runningTasks := desc.runningTasks - 1 }
            unsafeFreeTasks rest { s' with tasks := s.tasks.erase taskId }

def freeTask (taskId : UInt64) (s : TaskDispatcher) : Except DispatcherFault TaskDispatcher :=
  unsafeFreeTasks [taskId] s

/-- The registered servant seen at a location. -/
def findServant (s : TaskDispatcher) (location : String) : Option ServantPtr :=
  s.servants.find? fun r => s.locationOf r == location

/-- Respect whatever a registered servant reports now. -/
def renewServant (r : ServantPtr) (servant : ServantPersonality) (expiresAt : Time)
    (s : TaskDispatcher) : TaskDispatcher :=
  s.setDesc r { s.heap r with personality := servant, expiresAt }

/-- Register a servant under a descriptor of its own. -/
def addServant (servant : ServantPersonality) (discoveredAt expiresAt : Time)
    (s : TaskDispatcher) : TaskDispatcher :=
  let added : ServantDesc :=
    { personality := servant, discoveredAt, expiresAt, runningTasks := 0, everAssignedTasks := 0 }
  let s' := s.setDesc s.nextPtr added
  { s' with nextPtr := s.nextPtr + 1, servants := s.servants ++ [s.nextPtr] }

/-- Renew the registration at the servant's observed location, or make one, with the two
readings of the clock (only a new servant takes the first). -/
def keepServantAlive (servant : ServantPersonality) (expiresIn now now' : Time)
    (s : TaskDispatcher) : TaskDispatcher :=
  match s.findServant servant.observedLocation with
  | some r => s.renewServant r servant (now' + expiresIn)
  | none => s.addServant servant now (now' + expiresIn)

/-- The grants that a sweep by `p` frees. -/
def sweeping (p : UInt64 → TaskDesc → Bool) (s : TaskDispatcher) : List UInt64 :=
  (s.tasks.filterEntries p).keys

/-- Forget a servant's zombies that it no longer reports. -/
def unsafeSweepZombiesOf (servant : ServantPtr) (runningTasks : List UInt64)
    (s : TaskDispatcher) : Except DispatcherFault TaskDispatcher :=
  unsafeFreeTasks
    (s.sweeping fun taskId task =>
      task.belongingServant == servant && task.zombie && !runningTasks.contains taskId) s

/-- Forget the grants whose servant has left the registry. -/
def unsafeSweepOrphans (s : TaskDispatcher) : Except DispatcherFault TaskDispatcher :=
  unsafeFreeTasks (s.sweeping fun _ task => !s.servants.contains task.belongingServant) s

/-- Whether a reported grant may run on the servant. -/
def permitted (s : TaskDispatcher) (servant : ServantPtr) (taskId : UInt64) : Bool :=
  match s.tasks.lookup taskId with
  | none => false
  | some task => task.belongingServant == servant && !task.zombie

def setServantRunningTasks (location : String) (tasks : List RunningTask)
    (s : TaskDispatcher) : TaskDispatcher :=
  { s with runningTaskBookkeeper :=
      s.runningTaskBookkeeper.setServantRunningTasks location tasks }

/-- Take over what the servant at a location reports as running. The result lists the
reported grants that it should not be running. -/
def notifyServantRunningTasks (servantLocation : String) (tasks : List RunningTask)
    (s : TaskDispatcher) : Except DispatcherFault (List UInt64 × TaskDispatcher) := do
  let taskGrantIds := tasks.map (·.taskGrantId)
  match s.findServant servantLocation with
  | none => return (taskGrantIds, s)
  | some servant =>
      let s ← s.unsafeSweepZombiesOf servant taskGrantIds
      let unknownTasks := taskGrantIds.filter fun taskId => !s.permitted servant taskId
      let known := tasks.filter fun task => s.permitted servant task.taskGrantId
      return (unknownTasks, s.setServantRunningTasks servantLocation known)

def getRunningTasks (s : TaskDispatcher) : List RunningTask :=
  s.runningTaskBookkeeper.getRunningTasks

/-- Whether a registered servant's keep-alive is overdue. -/
def servantExpired (s : TaskDispatcher) (now : Time) (r : ServantPtr) : Bool :=
  decide ((s.heap r).expiresAt < now)

/-- Take the overdue servants out of the registry and of the bookkeeper. -/
def removeExpiredServants (now : Time) (s : TaskDispatcher) : TaskDispatcher :=
  { s with
    servants := s.servants.filter fun r => !s.servantExpired now r
    runningTaskBookkeeper :=
      (s.servants.filter (s.servantExpired now)).foldl
        (fun b r => b.dropServant (s.locationOf r)) s.runningTaskBookkeeper }

/-- Make overdue grants zombies. -/
def markZombies (now : Time) (s : TaskDispatcher) : TaskDispatcher :=
  { s with tasks := s.tasks.mapValues fun _ task =>
      if task.expiresAt < now then { task with zombie := true } else task }

/-- Overdue servants go first, then the grants on them, and only then overdue grants of
the remaining servants become zombies. -/
def onExpirationTimer (now : Time) (s : TaskDispatcher) :
    Except DispatcherFault TaskDispatcher := do
  let s ← (s.removeExpiredServants now).unsafeSweepOrphans
  return s.markZombies now

/-! ## Runs -/

/-- An operation with its arguments and the clock readings it makes. -/
inductive Op
  | waitForStartingNewTask (personality : TaskPersonality) (expiresIn : Time)
      (prefetching : Bool) (now now' : Time)
  | keepTaskAlive (taskId : UInt64) (newExpiresIn now : Time)
  | freeTask (taskId : UInt64)
  | keepServantAlive (servant : ServantPersonality) (expiresIn now now' : Time)
  | notifyServantRunningTasks (servantLocation : String) (tasks : List RunningTask)
  | onExpirationTimer (now : Time)

/-- What an operation returns to its caller. -/
inductive Reply
  | attempt (result : StartAttempt)
  | kept (alive : Bool)
  | unknownTasks (taskIds : List UInt64)
  | done
  deriving DecidableEq

def apply (cfg : DispatcherConfig) (s : TaskDispatcher) :
    Op → Except DispatcherFault (Reply × TaskDispatcher)
  | .waitForStartingNewTask personality expiresIn prefetching now now' => do
      let (result, s) ← s.waitForStartingNewTask cfg personality expiresIn prefetching now now'
      return (.attempt result, s)
  | .keepTaskAlive taskId newExpiresIn now =>
      let result := s.keepTaskAlive taskId newExpiresIn now
      .ok (.kept result.1, result.2)
  | .freeTask taskId => do return (.done, ← s.freeTask taskId)
  | .keepServantAlive servant expiresIn now now' =>
      .ok (.done, s.keepServantAlive servant expiresIn now now')
  | .notifyServantRunningTasks servantLocation tasks => do
      let (unknownTasks, s) ← s.notifyServantRunningTasks servantLocation tasks
      return (.unknownTasks unknownTasks, s)
  | .onExpirationTimer now => do return (.done, ← s.onExpirationTimer now)

/-- One atomic step, labelled by the operation and its reply. -/
def Step (cfg : DispatcherConfig) (s : TaskDispatcher) (label : Op × Reply)
    (t : TaskDispatcher) : Prop :=
  s.apply cfg label.1 = .ok (label.2, t)

/-- The step of an operation and its reply as a partial function, to follow a run with. -/
def next (cfg : DispatcherConfig) (s : TaskDispatcher) (label : Op × Reply) :
    Option TaskDispatcher :=
  match s.apply cfg label.1 with
  | .ok (reply, t) => if reply = label.2 then some t else none
  | .error _ => none

theorem step_of_next {cfg : DispatcherConfig} (s : TaskDispatcher) (label : Op × Reply)
    (t : TaskDispatcher) (h : next cfg s label = some t) : Step cfg s label t := by
  unfold next at h
  split at h
  · next reply u happly =>
      split_ifs at h with hreply
      cases h
      rw [Step, happly, hreply]
  · cases h

/-- Whether a reply hands out a grant. -/
def Reply.isGrant : Reply → Bool
  | .attempt (.allocated _) => true
  | _ => false

/-- The number of grants handed out by a sequence of steps. -/
def grants (labels : List (Op × Reply)) : ℕ :=
  labels.countP fun label => label.2.isGrant

end TaskDispatcher

end Yadcc.Scheduler
