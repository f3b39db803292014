/-
# A servant shared by delegate daemons

Any number of fibers of any number of daemons use one servant: they start tasks on it and
attach to tasks that others started. The scheduler hands out the grants, takes the
servant's heartbeats and answers which tasks it should not be running. Calls, heartbeats
and answers are under way for any time. A call may be refused, or carried out with its
reply lost; a client then takes it for a failure. A daemon may die with its fibers. `lost`
counts, for every task, the references that the servant gave and nobody will give back.
-/

import Yadcc.Daemon.Cloud.ProcessExit
import Yadcc.Daemon.Local.DistributedTaskDispatcher
import Yadcc.Scheduler.TaskDispatcher

namespace Yadcc.Daemon

open Yadcc.Lib

/-! ## The system -/

/-- The servant's location and the settings of the programs around it. -/
structure Site where
  location : String
  local' : Local.DispatcherConfig
  scheduler : Scheduler.DispatcherConfig

/-- A fiber of some daemon. -/
abbrev FiberId := ℕ

/-- How a call ends: not carried out, carried out and answered, or carried out with its
reply lost. -/
inductive RpcOutcome
  | refused
  | answered
  | replyLost
  deriving DecidableEq

/-- The user's task of the engine is known by its digest. `polls` are the calls that wait
at the servant for a task it found or did not find. -/
structure SharedServant where
  engine : Cloud.ExecutionEngine String
  scheduler : Scheduler.TaskDispatcher
  fibers : UnorderedMap FiberId Local.Fiber
  polls : UnorderedMap FiberId (Option Cloud.TaskId)
  heartbeats : List (List Scheduler.RunningTask)
  answers : List (List UInt64)
  lost : Cloud.TaskId → ℕ

namespace SharedServant

/-- A new servant that no one uses yet. -/
def new (taskConcurrencyLimit : UInt64) (minMemory : ℕ) : SharedServant where
  engine := .empty String taskConcurrencyLimit minMemory
  scheduler := .empty
  fibers := ∅
  polls := ∅
  heartbeats := []
  answers := []
  lost _ := 0

def setFiber (fiber : FiberId) (f : Local.Fiber) (s : SharedServant) : SharedServant :=
  { s with fibers := s.fibers.insert fiber f }

/-- A reference that will not come back. -/
def lose (taskId : Cloud.TaskId) (s : SharedServant) : SharedServant :=
  { s with lost := Function.update s.lost taskId (s.lost taskId + 1) }

/-- The task of the servant that a fiber holds a reference to. -/
def holdsAt (site : Site) (f : Local.Fiber) : Option Cloud.TaskId :=
  f.pc.held.bind fun held =>
    if site.local'.server held.location = site.location then some held.acquired else none

/-- The daemon of a fiber died. What the fiber held is lost. -/
def die (site : Site) (fiber : FiberId) (f : Local.Fiber) (s : SharedServant) : SharedServant :=
  let s :=
    { s with
      fibers := s.fibers.erase fiber
      polls := s.polls.erase fiber }
  match holdsAt site f with
  | none => s
  | some taskId => s.lose taskId

/-! ## Calls -/

/-- `ReferenceTask`, called by a fiber at that point. -/
def referenceTask (site : Site) (fiber : FiberId) (f : Local.Fiber)
    (running : Local.RunningTaskDesc) (outcome : RpcOutcome) (now : ℕ) (s : SharedServant) :
    SharedServant :=
  let reply (ok : Bool) := f.referenceTask site.local' running ok now
  let result := s.engine.tryReferenceTask running.servantTaskId
  match outcome with
  | .refused => s.setFiber fiber (reply false)
  | .answered => { s with engine := result.2 }.setFiber fiber (reply result.1)
  | .replyLost =>
      let s := { s with engine := result.2 }.setFiber fiber (reply false)
      if result.1 then s.lose running.servantTaskId else s

/-- `QueueCxxCompilationTask`, called by a fiber that has a grant. -/
def startTask (site : Site) (fiber : FiberId) (f : Local.Fiber) (grant : Local.GrantDesc)
    (outcome : RpcOutcome) (memoryAvailable pid now : ℕ) (s : SharedServant) : SharedServant :=
  let reply (taskId : Option ℕ) := f.startTask site.local' grant taskId now
  let result := s.engine.tryQueueTask grant.grantId f.task.digest memoryAvailable pid now
  match outcome with
  | .refused => s.setFiber fiber (reply none)
  | .answered => { s with engine := result.2 }.setFiber fiber (reply result.1)
  | .replyLost =>
      let s := { s with engine := result.2 }.setFiber fiber (reply none)
      match result.1 with
      | none => s
      | some taskId => s.lose taskId

/-- `FreeTask`, whose outcome the fiber ignores. -/
def freeServantTask (site : Site) (fiber : FiberId) (f : Local.Fiber) (held : Local.Held)
    (outcome : RpcOutcome) (s : SharedServant) : SharedServant :=
  let s := s.setFiber fiber (f.freeServantTask site.local' held)
  if outcome = .refused then s.lose held.acquired
  else { s with engine := s.engine.freeTask (held.freed f.task.taskId) }

/-- The response to `WaitForCompilationOutput`. Files and extra information come from the
user's task and are not looked at here. -/
def compilationOutput (found : Option Cloud.TaskId) (extraInfo attachment : List UInt8)
    (e : Cloud.ExecutionEngine String) : Local.CompilationOutput :=
  match e.waitForTask found with
  | .error .notFound => ⟨.notFound, 0, [], [], [], []⟩
  | .error .running => ⟨.running, 0, [], [], [], []⟩
  | .error .failed => ⟨.failed, 0, [], [], [], []⟩
  | .ok desc =>
      match desc.completions.getLast? with
      | none => ⟨.done, 0, [], [], extraInfo, attachment⟩
      | some output => ⟨.done, output.exitCode, output.standardOutput, output.standardError,
          extraInfo, attachment⟩

/-- What the servant reports as running. -/
def heartbeat (site : Site) (e : Cloud.ExecutionEngine String) : List Scheduler.RunningTask :=
  e.enumerateTasks.map fun t => ⟨t.servantTaskId, t.taskGrantId, site.location, t.task⟩

/-! ## Steps -/

inductive Action
  | queueTask (fiber : FiberId) (taskId : ℕ) (digest : String)
      (cacheSetting : Local.CacheControl) (startDeadline now : ℕ)
  | fiber (fiber : FiberId) (event : Local.Event)
  | die (fiber : FiberId)
  | referenceTask (fiber : FiberId) (outcome : RpcOutcome) (now : ℕ)
  | startTask (fiber : FiberId) (outcome : RpcOutcome) (memoryAvailable pid now : ℕ)
  | pollArrives (fiber : FiberId)
  | poll (fiber : FiberId) (reply : Option (List UInt8 × List UInt8))
  | freeServantTask (fiber : FiberId) (outcome : RpcOutcome)
  | engine (a : Cloud.ExecutionEngine.Action String)
  | heartbeat
  | notify (tasks : List Scheduler.RunningTask)
  | answer (expiredGrantIds : List UInt64)
  | scheduler (op : Scheduler.TaskDispatcher.Op) (reply : Scheduler.TaskDispatcher.Reply)

/-- The events that are calls on a servant. -/
def isCall : Local.Event → Bool
  | .referenceTask _ _ => true
  | .startTask _ _ => true
  | .poll _ => true
  | .freeServantTask => true
  | _ => false

/-- The location that a fiber calls at a point. -/
def calledLocation : Local.Pc → Option String
  | .referencing running => some running.servantLocation
  | .starting grant => some grant.servantLocation
  | .polling held _ => some held.location
  | .freeing held => some held.location
  | _ => none

/-- The servant that a call of a fiber goes to. -/
def callee (site : Site) (f : Local.Fiber) : Option String :=
  (calledLocation f.pc).map site.local'.server

/-- A report of running tasks goes to the scheduler by a heartbeat only. -/
def isNotify (site : Site) : Scheduler.TaskDispatcher.Op → Bool
  | .notifyServantRunningTasks location _ => location == site.location
  | _ => false

def next (site : Site) (s : SharedServant) : Action → Option SharedServant
  | .queueTask fiber taskId digest cacheSetting startDeadline now =>
      if (s.fibers.lookup fiber).isSome then none
      else some (s.setFiber fiber (.queued taskId digest cacheSetting startDeadline now))
  | .fiber fiber event =>
      match s.fibers.lookup fiber with
      | none => none
      | some f =>
          if isCall event = true ∧ callee site f = some site.location then none
          else (f.next site.local' event).map fun f => s.setFiber fiber f
  | .die fiber => (s.fibers.lookup fiber).map fun f => s.die site fiber f
  | .referenceTask fiber outcome now =>
      match s.fibers.lookup fiber with
      | none => none
      | some f =>
          match f.pc with
          | .referencing running =>
              if callee site f = some site.location then
                some (s.referenceTask site fiber f running outcome now)
              else none
          | _ => none
  | .startTask fiber outcome memoryAvailable pid now =>
      match s.fibers.lookup fiber with
      | none => none
      | some f =>
          match f.pc with
          | .starting grant =>
              if callee site f = some site.location ∧ s.engine.pidFree pid = true then
                some (s.startTask site fiber f grant outcome memoryAvailable pid now)
              else none
          | _ => none
  | .pollArrives fiber =>
      match s.fibers.lookup fiber with
      | none => none
      | some f =>
          match f.pc with
          | .polling held _ =>
              if callee site f = some site.location ∧ s.polls.lookup fiber = none then
                some { s with polls := s.polls.insert fiber (s.engine.findTask held.acquired) }
              else none
          | _ => none
  | .poll fiber reply =>
      match s.fibers.lookup fiber with
      | none => none
      | some f =>
          match f.pc with
          | .polling held retriesLeft =>
              if callee site f = some site.location then
                match reply, s.polls.lookup fiber with
                | none, _ =>
                    some ({ s with polls := s.polls.erase fiber }.setFiber fiber
                      (f.poll site.local' held retriesLeft none))
                | some (extraInfo, attachment), some found =>
                    some ({ s with polls := s.polls.erase fiber }.setFiber fiber
                      (f.poll site.local' held retriesLeft
                        (some (compilationOutput found extraInfo attachment s.engine))))
                | some _, none => none
              else none
          | _ => none
  | .freeServantTask fiber outcome =>
      match s.fibers.lookup fiber with
      | none => none
      | some f =>
          match f.pc with
          | .freeing held =>
              if callee site f = some site.location then
                some (s.freeServantTask site fiber f held outcome)
              else none
          | _ => none
  | .engine a =>
      if a.isInternal then (s.engine.next a).map fun engine => { s with engine } else none
  | .heartbeat => some { s with heartbeats := heartbeat site s.engine :: s.heartbeats }
  | .notify tasks =>
      if tasks ∈ s.heartbeats then
        match s.scheduler.apply site.scheduler (.notifyServantRunningTasks site.location tasks) with
        | .ok (.unknownTasks taskIds, scheduler) =>
            some { s with
              scheduler
              heartbeats := s.heartbeats.erase tasks
              answers := taskIds :: s.answers }
        | _ => none
      else none
  | .answer expiredGrantIds =>
      if expiredGrantIds ∈ s.answers then
        some { s with
          engine := s.engine.killExpiredTasks expiredGrantIds
          answers := s.answers.erase expiredGrantIds }
      else none
  | .scheduler op reply =>
      if isNotify site op then none
      else (s.scheduler.next site.scheduler (op, reply)).map fun scheduler => { s with scheduler }

def Step (site : Site) (s : SharedServant) (a : Action) (t : SharedServant) : Prop :=
  s.next site a = some t

/-! ## What a step does -/

/-- The calls of a fiber go to the servant. -/
def Calls (site : Site) (f : Local.Fiber) : Prop := callee site f = some site.location

theorem calls_iff {site : Site} {f : Local.Fiber} {pc : Local.Pc} {location : String}
    (hpc : f.pc = pc) (hlocation : calledLocation pc = some location) :
    Calls site f ↔ site.local'.server location = site.location := by
  unfold Calls callee
  rw [hpc, hlocation, Option.map_some, Option.some_inj]

/-- Everything a step can be, label by label. -/
inductive Effect (site : Site) (s : SharedServant) : Action → SharedServant → Prop
  | queueTask {fiber : FiberId} (taskId : ℕ) (digest : String)
      (cacheSetting : Local.CacheControl) (startDeadline now : ℕ)
      (unused : s.fibers.lookup fiber = none) :
      Effect site s (.queueTask fiber taskId digest cacheSetting startDeadline now)
        (s.setFiber fiber (.queued taskId digest cacheSetting startDeadline now))
  | fiber {fiber : FiberId} {event : Local.Event} (f f' : Local.Fiber)
      (found : s.fibers.lookup fiber = some f) (elsewhere : isCall event = true → ¬Calls site f)
      (step : f.Step site.local' event f') :
      Effect site s (.fiber fiber event) (s.setFiber fiber f')
  | die {fiber : FiberId} (f : Local.Fiber) (found : s.fibers.lookup fiber = some f) :
      Effect site s (.die fiber) (s.die site fiber f)
  | referenceTask {fiber : FiberId} {outcome : RpcOutcome} {now : ℕ} (f : Local.Fiber)
      (running : Local.RunningTaskDesc) (found : s.fibers.lookup fiber = some f)
      (pc : f.pc = .referencing running) (calls : Calls site f) :
      Effect site s (.referenceTask fiber outcome now)
        (s.referenceTask site fiber f running outcome now)
  | startTask {fiber : FiberId} {outcome : RpcOutcome} {memoryAvailable pid now : ℕ}
      (f : Local.Fiber) (grant : Local.GrantDesc) (found : s.fibers.lookup fiber = some f)
      (pc : f.pc = .starting grant) (calls : Calls site f)
      (pidFree : s.engine.pidFree pid = true) :
      Effect site s (.startTask fiber outcome memoryAvailable pid now)
        (s.startTask site fiber f grant outcome memoryAvailable pid now)
  | pollArrives {fiber : FiberId} (f : Local.Fiber) (held : Local.Held) (retriesLeft : ℕ)
      (found : s.fibers.lookup fiber = some f) (pc : f.pc = .polling held retriesLeft)
      (calls : Calls site f) :
      Effect site s (.pollArrives fiber)
        { s with polls := s.polls.insert fiber (s.engine.findTask held.acquired) }
  | pollFailed {fiber : FiberId} (f : Local.Fiber) (held : Local.Held) (retriesLeft : ℕ)
      (found : s.fibers.lookup fiber = some f) (pc : f.pc = .polling held retriesLeft)
      (calls : Calls site f) :
      Effect site s (.poll fiber none)
        ({ s with polls := s.polls.erase fiber }.setFiber fiber
          (f.poll site.local' held retriesLeft none))
  | pollAnswered {fiber : FiberId} {extraInfo attachment : List UInt8} (f : Local.Fiber)
      (held : Local.Held) (retriesLeft : ℕ) (foundTask : Option Cloud.TaskId)
      (found : s.fibers.lookup fiber = some f) (pc : f.pc = .polling held retriesLeft)
      (calls : Calls site f) (arrived : s.polls.lookup fiber = some foundTask) :
      Effect site s (.poll fiber (some (extraInfo, attachment)))
        ({ s with polls := s.polls.erase fiber }.setFiber fiber
          (f.poll site.local' held retriesLeft
            (some (compilationOutput foundTask extraInfo attachment s.engine))))
  | freeServantTask {fiber : FiberId} {outcome : RpcOutcome} (f : Local.Fiber)
      (held : Local.Held) (found : s.fibers.lookup fiber = some f) (pc : f.pc = .freeing held)
      (calls : Calls site f) :
      Effect site s (.freeServantTask fiber outcome) (s.freeServantTask site fiber f held outcome)
  | engine {a : Cloud.ExecutionEngine.Action String} (engine : Cloud.ExecutionEngine String)
      (isInternal : a.isInternal = true) (step : s.engine.Step a engine) :
      Effect site s (.engine a) { s with engine }
  | heartbeat :
      Effect site s .heartbeat { s with heartbeats := heartbeat site s.engine :: s.heartbeats }
  | notify {tasks : List Scheduler.RunningTask} (taskIds : List UInt64)
      (scheduler : Scheduler.TaskDispatcher) (sent : tasks ∈ s.heartbeats)
      (applied : s.scheduler.apply site.scheduler (.notifyServantRunningTasks site.location tasks)
        = .ok (.unknownTasks taskIds, scheduler)) :
      Effect site s (.notify tasks)
        { s with
          scheduler
          heartbeats := s.heartbeats.erase tasks
          answers := taskIds :: s.answers }
  | answer {expiredGrantIds : List UInt64} (sent : expiredGrantIds ∈ s.answers) :
      Effect site s (.answer expiredGrantIds)
        { s with
          engine := s.engine.killExpiredTasks expiredGrantIds
          answers := s.answers.erase expiredGrantIds }
  | scheduler {op : Scheduler.TaskDispatcher.Op} {reply : Scheduler.TaskDispatcher.Reply}
      (scheduler : Scheduler.TaskDispatcher) (foreign : isNotify site op = false)
      (step : s.scheduler.Step site.scheduler (op, reply) scheduler) :
      Effect site s (.scheduler op reply) { s with scheduler }

theorem effect_of_step {site : Site} {s t : SharedServant} {a : Action} (h : Step site s a t) :
    Effect site s a t := by
  unfold Step next at h
  cases a with
  | queueTask fiber taskId digest cacheSetting startDeadline now =>
      simp only at h
      split at h
      · cases h
      · next hunused =>
          cases h
          exact .queueTask taskId digest cacheSetting startDeadline now (by simpa using hunused)
  | fiber fiber event =>
      simp only at h
      split at h
      · cases h
      · next f hfound =>
          split at h
          · cases h
          · next helsewhere =>
              obtain ⟨f', hstep, rfl⟩ := Option.map_eq_some_iff.mp h
              exact .fiber f f' hfound (fun hcall hcalls => helsewhere ⟨hcall, hcalls⟩) hstep
  | die fiber =>
      obtain ⟨f, hfound, rfl⟩ := Option.map_eq_some_iff.mp h
      exact .die f hfound
  | referenceTask fiber outcome now =>
      simp only at h
      split at h
      · cases h
      · next f hfound =>
          split at h
          · next running hpc =>
              split at h
              · next hcalls =>
                  cases h
                  exact .referenceTask f running hfound hpc hcalls
              · cases h
          · cases h
  | startTask fiber outcome memoryAvailable pid now =>
      simp only at h
      split at h
      · cases h
      · next f hfound =>
          split at h
          · next grant hpc =>
              split at h
              · next hcalls =>
                  cases h
                  exact .startTask f grant hfound hpc hcalls.1 hcalls.2
              · cases h
          · cases h
  | pollArrives fiber =>
      simp only at h
      split at h
      · cases h
      · next f hfound =>
          split at h
          · next held retriesLeft hpc =>
              split at h
              · next hcalls =>
                  cases h
                  exact .pollArrives f held retriesLeft hfound hpc hcalls.1
              · cases h
          · cases h
  | poll fiber reply =>
      simp only at h
      split at h
      · cases h
      · next f hfound =>
          split at h
          · next held retriesLeft hpc =>
              split at h
              · next hcalls =>
                  split at h
                  · cases h
                    exact .pollFailed f held retriesLeft hfound hpc hcalls
                  · next harrived =>
                      cases h
                      exact .pollAnswered f held retriesLeft _ hfound hpc hcalls harrived
                  · cases h
              · cases h
          · cases h
  | freeServantTask fiber outcome =>
      simp only at h
      split at h
      · cases h
      · next f hfound =>
          split at h
          · next held hpc =>
              split at h
              · next hcalls =>
                  cases h
                  exact .freeServantTask f held hfound hpc hcalls
              · cases h
          · cases h
  | engine a =>
      simp only at h
      split at h
      · next hinternal =>
          obtain ⟨engine, hstep, rfl⟩ := Option.map_eq_some_iff.mp h
          exact .engine engine hinternal hstep
      · cases h
  | heartbeat =>
      cases h
      exact .heartbeat
  | notify tasks =>
      simp only at h
      split at h
      · next hsent =>
          split at h
          · next taskIds scheduler happly =>
              cases h
              exact .notify taskIds scheduler hsent happly
          · cases h
      · cases h
  | answer expiredGrantIds =>
      simp only at h
      split at h
      · next hsent =>
          cases h
          exact .answer hsent
      · cases h
  | scheduler op reply =>
      simp only at h
      split at h
      · cases h
      · next hforeign =>
          obtain ⟨scheduler, hstep, rfl⟩ := Option.map_eq_some_iff.mp h
          exact .scheduler scheduler (by simpa using hforeign)
            (Scheduler.TaskDispatcher.step_of_next _ _ _ hstep)

end SharedServant

end Yadcc.Daemon
