/-
# Performing one task of a delegate daemon

`PerformOneTask` runs in a fiber of its own. It tries the cache, then a task with the same
digest that some servant is running already, and then a servant of its own; whatever it
acquires on the way it gives back by deferred calls when it leaves. The fiber is modelled
by where it stands: `Pc` names the points at which it waits for something from outside or
looks at the `aborted` flag, and an event is what it gets there. What it acquired from
servants and what it told them to free is written down as it happens.
-/

import Yadcc.Lib.Transition

namespace Yadcc.Daemon.Local

open Yadcc.Lib

/-! ## Data -/

/-- A time in nanoseconds. -/
abbrev TimePoint := ℕ

inductive CacheControl
  | disallow
  | allow
  | refill
  deriving DecidableEq

structure DistributedTaskOutput where
  exitCode : ℤ
  standardOutput : List UInt8
  standardError : List UInt8
  extraInfo : List UInt8
  outputFiles : List (String × List UInt8)
  deriving DecidableEq

/-- A running task as the `RunningTaskKeeper` knows it. -/
structure RunningTaskDesc where
  servantLocation : String
  servantTaskId : ℕ
  deriving DecidableEq

/-- A grant of the scheduler. -/
structure GrantDesc where
  grantId : UInt64
  servantLocation : String
  deriving DecidableEq

inductive TaskState
  | pending
  | readyToFire
  | dispatched
  | done
  deriving DecidableEq

structure TaskDesc where
  taskId : ℕ
  digest : String
  cacheSetting : CacheControl
  startedAt : TimePoint
  startDeadline : TimePoint
  aborted : Bool
  state : TaskState
  readyAt : TimePoint
  dispatchedAt : TimePoint
  completedAt : TimePoint
  lastKeepAliveAt : TimePoint
  taskGrantId : UInt64
  servantLocation : String
  servantTaskId : ℕ
  output : DistributedTaskOutput

/-- The flag that sends every request to one servant, and how the files of a response are
unpacked. -/
structure DispatcherConfig where
  debuggingAlwaysUseServantAt : String
  tryParseFiles : List UInt8 → Option (List (String × List UInt8))

/-- The servant that a stub for a location talks to. -/
def DispatcherConfig.server (cfg : DispatcherConfig) (location : String) : String :=
  if cfg.debuggingAlwaysUseServantAt = "" then location else cfg.debuggingAlwaysUseServantAt

/-! ## Waiting for a servant -/

/-- The status in a response; the number comes from the network. -/
inductive CompilationTaskStatus
  | failed
  | running
  | done
  | notFound
  | other (code : ℕ)
  deriving DecidableEq

/-- A response to `WaitForCompilationOutput` with its attachment. -/
structure CompilationOutput where
  status : CompilationTaskStatus
  exitCode : ℤ
  output : List UInt8
  error : List UInt8
  extraInfo : List UInt8
  attachment : List UInt8
  deriving DecidableEq

inductive ServantWaitStatus
  | running
  | rpcError
  | failed
  deriving DecidableEq

/-- What one poll comes to; `none` is an RPC that failed. Files are there only if the
compilation succeeded. -/
def waitServantForTask (cfg : DispatcherConfig) (result : Option CompilationOutput) :
    Except ServantWaitStatus DistributedTaskOutput :=
  match result with
  | none => .error .rpcError
  | some result =>
      match result.status with
      | .running => .error .running
      | .done =>
          let output : DistributedTaskOutput :=
            ⟨result.exitCode, result.output, result.error, result.extraInfo, []⟩
          if result.exitCode = 0 then
            match cfg.tryParseFiles result.attachment with
            | none => .error .failed
            | some files => .ok { output with outputFiles := files }
          else .ok output
      | _ => .error .failed

def RpcRetries : ℕ := 4

/-! ## The fiber -/

/-- What the fiber has to give back: a reference to a task it attached to, or a task it
started under a grant. -/
inductive Held
  | referenced (running : RunningTaskDesc)
  | started (grant : GrantDesc) (servantTaskId : ℕ)
  deriving DecidableEq

namespace Held

def location : Held → String
  | .referenced running => running.servantLocation
  | .started grant _ => grant.servantLocation

/-- The task that the reference is to. -/
def acquired : Held → ℕ
  | .referenced running => running.servantTaskId
  | .started _ servantTaskId => servantTaskId

/-- The ID that the deferred `FreeServantTask` sends. Attached tasks pass the ID of the
local task. -/
def freed (taskId : ℕ) : Held → ℕ
  | .referenced _ => taskId
  | .started _ servantTaskId => servantTaskId

end Held

/-- Where the fiber stands. -/
inductive Pc
  | readingCache
  | findingTask
  | referencing (running : RunningTaskDesc)
  | gettingGrant
  | awaitingGrant
  | starting (grant : GrantDesc)
  | waiting (held : Held) (retriesLeft : ℕ)
  | polling (held : Held) (retriesLeft : ℕ)
  | freeing (held : Held)
  | freeingGrant (grantId : UInt64)
  | completing
  | done
  deriving DecidableEq

/-- What the fiber has to give back at a point. -/
def Pc.held : Pc → Option Held
  | .waiting held _ => some held
  | .polling held _ => some held
  | .freeing held => some held
  | _ => none

/-- A fiber with its task. `started` and `referenced` are the pairs of servant and task ID
it acquired by successful calls, `freed` the pairs it sent in `FreeTask`, `freedGrants` the
grants it gave back, and `completions` the calls of `OnCompletion`, each followed by a
count-down of the completion latch. -/
structure Fiber where
  task : TaskDesc
  pc : Pc
  started : List (String × ℕ)
  referenced : List (String × ℕ)
  freed : List (String × ℕ)
  freedGrants : List UInt64
  completions : List DistributedTaskOutput

/-- What happens to a fiber: a result it waited for, a look at the `aborted` flag, or a
timer that sets that flag. -/
inductive Event
  | readCache (entry : Option DistributedTaskOutput)
  | findTask (running : Option RunningTaskDesc)
  | referenceTask (ok : Bool) (now : TimePoint)
  | checkGrant
  | getGrant (grant : Option GrantDesc) (now : TimePoint)
  | startTask (servantTaskId : Option ℕ) (now : TimePoint)
  | checkWait
  | poll (result : Option CompilationOutput)
  | freeServantTask
  | freeGrant
  | complete (now : TimePoint)
  | abort
  deriving DecidableEq

namespace Fiber

/-- `QueueDistributedTask`, with the start of `PerformOneTask`, which fails the task by
default. -/
def queued (taskId : ℕ) (digest : String) (cacheSetting : CacheControl)
    (startDeadline now : TimePoint) : Fiber where
  task :=
    { taskId, digest, cacheSetting, startedAt := now, startDeadline, aborted := false
      state := .pending, readyAt := 0, dispatchedAt := 0, completedAt := 0
      lastKeepAliveAt := 0, taskGrantId := 0, servantLocation := "", servantTaskId := 0
      output := ⟨-126, [], [], [], []⟩ }
  pc := .readingCache
  started := []
  referenced := []
  freed := []
  freedGrants := []
  completions := []

def setPc (f : Fiber) (pc : Pc) : Fiber := { f with pc }

def setOutput (f : Fiber) (output : DistributedTaskOutput) : Fiber :=
  { f with task := { f.task with output } }

/-- `TryReadCacheIfAllowed`. The entry is what the cache returned, with its files
unpacked. -/
def readCache (entry : Option DistributedTaskOutput) (f : Fiber) : Fiber :=
  match entry with
  | none => f.setPc .findingTask
  | some output =>
      if f.task.cacheSetting = .allow then
        (f.setOutput { output with exitCode := 0 }).setPc .completing
      else f.setPc .findingTask

/-- The first part of `TryGetExistingTaskResult`. -/
def findTask (running : Option RunningTaskDesc) (f : Fiber) : Fiber :=
  match running with
  | none => f.setPc .gettingGrant
  | some running => f.setPc (.referencing running)

/-- The rest of it up to the wait. -/
def referenceTask (cfg : DispatcherConfig) (running : RunningTaskDesc) (ok : Bool)
    (now : TimePoint) (f : Fiber) : Fiber :=
  if ok then
    { f with
      task :=
        { f.task with
          readyAt := now
          lastKeepAliveAt := now
          taskGrantId := 0
          servantLocation := running.servantLocation
          dispatchedAt := now
          state := .dispatched
          servantTaskId := running.servantTaskId }
      pc := .waiting (.referenced running) RpcRetries
      referenced := (cfg.server running.servantLocation, running.servantTaskId) :: f.referenced }
  else f.setPc .gettingGrant

/-- The condition of the loop that waits for a grant. -/
def checkGrant (f : Fiber) : Fiber :=
  f.setPc (if f.task.aborted then .completing else .awaitingGrant)

def getGrant (grant : Option GrantDesc) (now : TimePoint) (f : Fiber) : Fiber :=
  match grant with
  | none => f.setPc .gettingGrant
  | some grant =>
      { f with
        task :=
          { f.task with
            readyAt := now
            lastKeepAliveAt := now
            state := .readyToFire
            taskGrantId := grant.grantId
            servantLocation := grant.servantLocation }
        pc := .starting grant }

def startTask (cfg : DispatcherConfig) (grant : GrantDesc) (servantTaskId : Option ℕ)
    (now : TimePoint) (f : Fiber) : Fiber :=
  match servantTaskId with
  | none => f.setPc (.freeingGrant grant.grantId)
  | some servantTaskId =>
      { f with
        task := { f.task with dispatchedAt := now, state := .dispatched, servantTaskId }
        pc := .waiting (.started grant servantTaskId) RpcRetries
        started := (cfg.server grant.servantLocation, servantTaskId) :: f.started }

/-- The condition of the loop in `WaitServantForTaskWithRetry`. -/
def checkWait (held : Held) (retriesLeft : ℕ) (f : Fiber) : Fiber :=
  f.setPc (if retriesLeft = 0 ∨ f.task.aborted then .freeing held
    else .polling held (retriesLeft - 1))

/-- The body of that loop. -/
def poll (cfg : DispatcherConfig) (held : Held) (retriesLeft : ℕ)
    (result : Option CompilationOutput) (f : Fiber) : Fiber :=
  match waitServantForTask cfg result with
  | .error .running => f.setPc (.waiting held RpcRetries)
  | .error .rpcError => f.setPc (.waiting held retriesLeft)
  | .error .failed => (f.setOutput { f.task.output with exitCode := -125 }).setPc (.freeing held)
  | .ok output => (f.setOutput output).setPc (.freeing held)

/-- The deferred `FreeServantTask`, and what is deferred behind it. -/
def freeServantTask (cfg : DispatcherConfig) (held : Held) (f : Fiber) : Fiber :=
  { f with
    pc :=
      match held with
      | .referenced _ => .completing
      | .started grant _ => .freeingGrant grant.grantId
    freed := (cfg.server held.location, held.freed f.task.taskId) :: f.freed }

def freeGrant (grantId : UInt64) (f : Fiber) : Fiber :=
  { f with
    pc := .completing
    freedGrants := grantId :: f.freedGrants }

/-- The deferred end of `PerformOneTask`. -/
def complete (now : TimePoint) (f : Fiber) : Fiber :=
  { f with
    task :=
      { f.task with
        state := .done
        completedAt := now }
    pc := .done
    completions := f.completions ++ [f.task.output] }

def abort (f : Fiber) : Fiber := { f with task := { f.task with aborted := true } }

/-- Take an event; `none` when it is not what the fiber waits for. -/
def next (cfg : DispatcherConfig) (f : Fiber) (event : Event) : Option Fiber :=
  match event with
  | .abort => some f.abort
  | .readCache entry =>
      match f.pc with
      | .readingCache => some (f.readCache entry)
      | _ => none
  | .findTask running =>
      match f.pc with
      | .findingTask => some (f.findTask running)
      | _ => none
  | .referenceTask ok now =>
      match f.pc with
      | .referencing running => some (f.referenceTask cfg running ok now)
      | _ => none
  | .checkGrant =>
      match f.pc with
      | .gettingGrant => some f.checkGrant
      | _ => none
  | .getGrant grant now =>
      match f.pc with
      | .awaitingGrant => some (f.getGrant grant now)
      | _ => none
  | .startTask servantTaskId now =>
      match f.pc with
      | .starting grant => some (f.startTask cfg grant servantTaskId now)
      | _ => none
  | .checkWait =>
      match f.pc with
      | .waiting held retriesLeft => some (f.checkWait held retriesLeft)
      | _ => none
  | .poll result =>
      match f.pc with
      | .polling held retriesLeft => some (f.poll cfg held retriesLeft result)
      | _ => none
  | .freeServantTask =>
      match f.pc with
      | .freeing held => some (f.freeServantTask cfg held)
      | _ => none
  | .freeGrant =>
      match f.pc with
      | .freeingGrant grantId => some (f.freeGrant grantId)
      | _ => none
  | .complete now =>
      match f.pc with
      | .completing => some (f.complete now)
      | _ => none

def Step (cfg : DispatcherConfig) (f : Fiber) (event : Event) (f' : Fiber) : Prop :=
  f.next cfg event = some f'

/-! ## What a step does -/

variable {cfg : DispatcherConfig} {f f' : Fiber} {event : Event}

/-- Each event is taken at the point that waits for it, by the code of that point. -/
inductive Took (cfg : DispatcherConfig) (f : Fiber) : Event → Fiber → Prop
  | abort : Took cfg f .abort f.abort
  | readCache (entry : Option DistributedTaskOutput) : f.pc = .readingCache →
      Took cfg f (.readCache entry) (f.readCache entry)
  | findTask (running : Option RunningTaskDesc) : f.pc = .findingTask →
      Took cfg f (.findTask running) (f.findTask running)
  | referenceTask (running : RunningTaskDesc) (ok : Bool) (now : TimePoint) :
      f.pc = .referencing running →
      Took cfg f (.referenceTask ok now) (f.referenceTask cfg running ok now)
  | checkGrant : f.pc = .gettingGrant → Took cfg f .checkGrant f.checkGrant
  | getGrant (grant : Option GrantDesc) (now : TimePoint) : f.pc = .awaitingGrant →
      Took cfg f (.getGrant grant now) (f.getGrant grant now)
  | startTask (grant : GrantDesc) (servantTaskId : Option ℕ) (now : TimePoint) :
      f.pc = .starting grant →
      Took cfg f (.startTask servantTaskId now) (f.startTask cfg grant servantTaskId now)
  | checkWait (held : Held) (retriesLeft : ℕ) : f.pc = .waiting held retriesLeft →
      Took cfg f .checkWait (f.checkWait held retriesLeft)
  | poll (held : Held) (retriesLeft : ℕ) (result : Option CompilationOutput) :
      f.pc = .polling held retriesLeft →
      Took cfg f (.poll result) (f.poll cfg held retriesLeft result)
  | freeServantTask (held : Held) : f.pc = .freeing held →
      Took cfg f .freeServantTask (f.freeServantTask cfg held)
  | freeGrant (grantId : UInt64) : f.pc = .freeingGrant grantId →
      Took cfg f .freeGrant (f.freeGrant grantId)
  | complete (now : TimePoint) : f.pc = .completing →
      Took cfg f (.complete now) (f.complete now)

theorem took_of_step (h : Step cfg f event f') : Took cfg f event f' := by
  unfold Step next at h
  cases event with
  | abort =>
      cases h
      exact .abort
  | readCache entry =>
      dsimp only at h
      split at h
      · next hpc =>
          cases h
          exact .readCache entry hpc
      · cases h
  | findTask running =>
      dsimp only at h
      split at h
      · next hpc =>
          cases h
          exact .findTask running hpc
      · cases h
  | referenceTask ok now =>
      dsimp only at h
      split at h
      · next running hpc =>
          cases h
          exact .referenceTask running ok now hpc
      · cases h
  | checkGrant =>
      dsimp only at h
      split at h
      · next hpc =>
          cases h
          exact .checkGrant hpc
      · cases h
  | getGrant grant now =>
      dsimp only at h
      split at h
      · next hpc =>
          cases h
          exact .getGrant grant now hpc
      · cases h
  | startTask servantTaskId now =>
      dsimp only at h
      split at h
      · next grant hpc =>
          cases h
          exact .startTask grant servantTaskId now hpc
      · cases h
  | checkWait =>
      dsimp only at h
      split at h
      · next held retriesLeft hpc =>
          cases h
          exact .checkWait held retriesLeft hpc
      · cases h
  | poll result =>
      dsimp only at h
      split at h
      · next held retriesLeft hpc =>
          cases h
          exact .poll held retriesLeft result hpc
      · cases h
  | freeServantTask =>
      dsimp only at h
      split at h
      · next held hpc =>
          cases h
          exact .freeServantTask held hpc
      · cases h
  | freeGrant =>
      dsimp only at h
      split at h
      · next grantId hpc =>
          cases h
          exact .freeGrant grantId hpc
      · cases h
  | complete now =>
      dsimp only at h
      split at h
      · next hpc =>
          cases h
          exact .complete now hpc
      · cases h

/-- The fiber goes on to a point before its end: it has not called `OnCompletion`, and its task
is as far as it was, or further but not done. -/
structure Moved (f : Fiber) (event : Event) (f' : Fiber) : Prop where
  event_ne : ∀ now, event ≠ .complete now
  pc_ne : f'.pc ≠ .done
  completions_eq : f'.completions = f.completions
  startDeadline_eq : f'.task.startDeadline = f.task.startDeadline
  aborted_eq : f'.task.aborted = f.task.aborted
  state : f'.task.state = f.task.state ∨ f'.task.state ≠ .pending ∧ f'.task.state ≠ .done

theorem moved_setPc {pc : Pc} (hevent : ∀ now, event ≠ .complete now) (hpc : pc ≠ .done) :
    Moved f event (f.setPc pc) :=
  ⟨hevent, hpc, rfl, rfl, rfl, .inl rfl⟩

theorem moved_poll {held : Held} {retriesLeft : ℕ} {result : Option CompilationOutput} :
    Moved f (.poll result) (f.poll cfg held retriesLeft result) := by
  unfold poll
  split
  · exact ⟨nofun, nofun, rfl, rfl, rfl, .inl rfl⟩
  · exact ⟨nofun, nofun, rfl, rfl, rfl, .inl rfl⟩
  · exact ⟨nofun, nofun, rfl, rfl, rfl, .inl rfl⟩
  · exact ⟨nofun, nofun, rfl, rfl, rfl, .inl rfl⟩

/-- A fiber that is not at its end moves on, or calls `OnCompletion` in its last step. -/
theorem moved_or_complete (h : Step cfg f event f') (hevent : event ≠ .abort) :
    f.pc ≠ .done ∧ (Moved f event f' ∨ ∃ now, event = .complete now ∧ f' = f.complete now) := by
  have hne : ∀ {pc}, f.pc = pc → pc ≠ .done → f.pc ≠ .done := fun hpc hnot heq =>
    hnot (hpc.symm.trans heq)
  cases took_of_step h with
  | abort => exact absurd rfl hevent
  | readCache entry hpc =>
      refine ⟨hne hpc nofun, .inl ?_⟩
      unfold readCache
      split
      · exact moved_setPc nofun nofun
      · split
        · exact ⟨nofun, nofun, rfl, rfl, rfl, .inl rfl⟩
        · exact moved_setPc nofun nofun
  | findTask running hpc =>
      refine ⟨hne hpc nofun, .inl ?_⟩
      cases running with
      | none => exact moved_setPc nofun nofun
      | some running => exact moved_setPc nofun nofun
  | referenceTask running ok now hpc =>
      refine ⟨hne hpc nofun, .inl ?_⟩
      cases ok with
      | false => exact moved_setPc nofun nofun
      | true => exact ⟨nofun, nofun, rfl, rfl, rfl, .inr ⟨nofun, nofun⟩⟩
  | checkGrant hpc =>
      refine ⟨hne hpc nofun, .inl (moved_setPc nofun ?_)⟩
      split
      · exact nofun
      · exact nofun
  | getGrant grant now hpc =>
      refine ⟨hne hpc nofun, .inl ?_⟩
      cases grant with
      | none => exact moved_setPc nofun nofun
      | some grant => exact ⟨nofun, nofun, rfl, rfl, rfl, .inr ⟨nofun, nofun⟩⟩
  | startTask grant servantTaskId now hpc =>
      refine ⟨hne hpc nofun, .inl ?_⟩
      cases servantTaskId with
      | none => exact moved_setPc nofun nofun
      | some servantTaskId => exact ⟨nofun, nofun, rfl, rfl, rfl, .inr ⟨nofun, nofun⟩⟩
  | checkWait held retriesLeft hpc =>
      refine ⟨hne hpc nofun, .inl (moved_setPc nofun ?_)⟩
      split
      · exact nofun
      · exact nofun
  | poll held retriesLeft result hpc => exact ⟨hne hpc nofun, .inl moved_poll⟩
  | freeServantTask held hpc =>
      refine ⟨hne hpc nofun, .inl ⟨nofun, ?_, rfl, rfl, rfl, .inl rfl⟩⟩
      cases held with
      | referenced running => exact nofun
      | started grant servantTaskId => exact nofun
  | freeGrant grantId hpc =>
      exact ⟨hne hpc nofun, .inl ⟨nofun, nofun, rfl, rfl, rfl, .inl rfl⟩⟩
  | complete now hpc => exact ⟨hne hpc nofun, .inr ⟨now, rfl, rfl⟩⟩

/-- Nothing was acquired or given back. -/
structure Keeps (f f' : Fiber) : Prop where
  held_eq : f'.pc.held = f.pc.held
  started_eq : f'.started = f.started
  referenced_eq : f'.referenced = f.referenced
  freed_eq : f'.freed = f.freed
  taskId_eq : f'.task.taskId = f.task.taskId
  digest_eq : f'.task.digest = f.task.digest

/-- A step acquires a reference, acquires a task, gives one of them back, or neither. -/
inductive Effect (cfg : DispatcherConfig) (f : Fiber) : Event → Fiber → Prop
  | keeps {event : Event} {f' : Fiber} : Keeps f f' → Effect cfg f event f'
  | references (running : RunningTaskDesc) (now : TimePoint) : f.pc = .referencing running →
      Effect cfg f (.referenceTask true now) (f.referenceTask cfg running true now)
  | starts (grant : GrantDesc) (servantTaskId : ℕ) (now : TimePoint) : f.pc = .starting grant →
      Effect cfg f (.startTask (some servantTaskId) now)
        (f.startTask cfg grant (some servantTaskId) now)
  | frees (held : Held) : f.pc = .freeing held →
      Effect cfg f .freeServantTask (f.freeServantTask cfg held)

/-- A step to a point that holds what the point before it held. -/
theorem keeps_setPc {pc pc' : Pc} (hpc : f.pc = pc) (h : pc'.held = pc.held) :
    Keeps f (f.setPc pc') :=
  ⟨h.trans (congrArg Pc.held hpc).symm, rfl, rfl, rfl, rfl, rfl⟩

theorem keeps_poll {held : Held} {retriesLeft : ℕ} {result : Option CompilationOutput}
    (hpc : f.pc = .polling held retriesLeft) : Keeps f (f.poll cfg held retriesLeft result) := by
  have hheld : some held = f.pc.held := (congrArg Pc.held hpc).symm
  unfold poll
  split
  · exact ⟨hheld, rfl, rfl, rfl, rfl, rfl⟩
  · exact ⟨hheld, rfl, rfl, rfl, rfl, rfl⟩
  · exact ⟨hheld, rfl, rfl, rfl, rfl, rfl⟩
  · exact ⟨hheld, rfl, rfl, rfl, rfl, rfl⟩

theorem effect_of_step (h : Step cfg f event f') : Effect cfg f event f' := by
  cases took_of_step h with
  | abort => exact .keeps ⟨rfl, rfl, rfl, rfl, rfl, rfl⟩
  | readCache entry hpc =>
      refine .keeps ?_
      unfold readCache
      split
      · exact keeps_setPc hpc rfl
      · split
        · exact ⟨(congrArg Pc.held hpc).symm, rfl, rfl, rfl, rfl, rfl⟩
        · exact keeps_setPc hpc rfl
  | findTask running hpc =>
      refine .keeps ?_
      cases running with
      | none => exact keeps_setPc hpc rfl
      | some running => exact keeps_setPc hpc rfl
  | referenceTask running ok now hpc =>
      cases ok with
      | false => exact .keeps (keeps_setPc hpc rfl)
      | true => exact .references running now hpc
  | checkGrant hpc =>
      refine .keeps (keeps_setPc hpc ?_)
      split
      · rfl
      · rfl
  | getGrant grant now hpc =>
      cases grant with
      | none => exact .keeps (keeps_setPc hpc rfl)
      | some grant => exact .keeps ⟨(congrArg Pc.held hpc).symm, rfl, rfl, rfl, rfl, rfl⟩
  | startTask grant servantTaskId now hpc =>
      cases servantTaskId with
      | none => exact .keeps (keeps_setPc hpc rfl)
      | some servantTaskId => exact .starts grant servantTaskId now hpc
  | checkWait held retriesLeft hpc =>
      refine .keeps (keeps_setPc hpc ?_)
      split
      · rfl
      · rfl
  | poll held retriesLeft result hpc => exact .keeps (keeps_poll hpc)
  | freeServantTask held hpc => exact .frees held hpc
  | freeGrant grantId hpc =>
      exact .keeps ⟨(congrArg Pc.held hpc).symm, rfl, rfl, rfl, rfl, rfl⟩
  | complete now hpc => exact .keeps ⟨(congrArg Pc.held hpc).symm, rfl, rfl, rfl, rfl, rfl⟩

/-- Behind a `FreeTask` the fiber holds nothing. -/
theorem held_freeServantTask (held : Held) : (f.freeServantTask cfg held).pc.held = none := by
  cases held with
  | referenced running => rfl
  | started grant servantTaskId => rfl

/-- A fiber performs one task only. -/
theorem task_of_step (h : Step cfg f event f') :
    f'.task.taskId = f.task.taskId ∧ f'.task.digest = f.task.digest := by
  cases effect_of_step h with
  | keeps hkeeps => exact ⟨hkeeps.taskId_eq, hkeeps.digest_eq⟩
  | references running now hpc => exact ⟨rfl, rfl⟩
  | starts grant servantTaskId now hpc => exact ⟨rfl, rfl⟩
  | frees held hpc => exact ⟨rfl, rfl⟩

/-! ## What is freed -/

/-- What the fiber will still free. -/
def pending (cfg : DispatcherConfig) (taskId : ℕ) (f : Fiber) : List (String × ℕ) :=
  (f.pc.held.map fun held => (cfg.server held.location, held.freed taskId)).toList

/-- What a fiber frees is what it started, and for every reference the ID of its own task
on the same servant. -/
structure Balanced (cfg : DispatcherConfig) (taskId : ℕ) (f : Fiber) : Prop where
  taskId_eq : f.task.taskId = taskId
  perm : (f.pending cfg taskId ++ f.freed).Perm
    (f.started ++ f.referenced.map fun p => (p.1, taskId))

theorem Balanced.step {taskId : ℕ} (h : Balanced cfg taskId f)
    (hstep : Step cfg f event f') : Balanced cfg taskId f' := by
  refine ⟨(task_of_step hstep).1.trans h.taskId_eq, ?_⟩
  have hperm := h.perm
  cases effect_of_step hstep with
  | keeps hkeeps =>
      unfold pending at hperm ⊢
      rw [hkeeps.held_eq, hkeeps.started_eq, hkeeps.referenced_eq, hkeeps.freed_eq]
      exact hperm
  | references running now hpc =>
      have hheld : f.pc.held = none := congrArg Pc.held hpc
      unfold pending at hperm ⊢
      rw [hheld] at hperm
      exact (hperm.cons (cfg.server running.servantLocation, taskId)).trans
        List.perm_middle.symm
  | starts grant servantTaskId now hpc =>
      have hheld : f.pc.held = none := congrArg Pc.held hpc
      unfold pending at hperm ⊢
      rw [hheld] at hperm
      exact hperm.cons (cfg.server grant.servantLocation, servantTaskId)
  | frees held hpc =>
      have hheld : f.pc.held = some held := congrArg Pc.held hpc
      unfold pending at hperm ⊢
      rw [hheld] at hperm
      rw [held_freeServantTask]
      unfold freeServantTask
      rw [h.taskId_eq]
      exact hperm

theorem balanced_of_run {taskId : ℕ} {digest : String} {cacheSetting : CacheControl}
    {startDeadline now : TimePoint} {events : List Event}
    (run : Run (Step cfg) (queued taskId digest cacheSetting startDeadline now) events f) :
    Balanced cfg taskId f :=
  run.invariant (fun _ _ _ h hstep => h.step hstep) ⟨rfl, .refl _⟩

/-- Renaming the IDs of a list of pairs to one ID changes nothing only if they have it. -/
theorem perm_map_const {l : List (String × ℕ)} {taskId : ℕ} :
    (l.map fun p => (p.1, taskId)).Perm l ↔ ∀ p ∈ l, p.2 = taskId := by
  constructor
  · intro h p hp
    obtain ⟨q, -, rfl⟩ := List.mem_map.mp (h.mem_iff.mpr hp)
    rfl
  · intro h
    have hsame : (l.map fun p => (p.1, taskId)) = l := by
      conv_rhs => rw [← List.map_id l]
      refine List.map_congr_left fun p hp => ?_
      rw [← h p hp]
      rfl
    rw [hsame]

/-- A fiber that is done has freed what it acquired exactly if every task it attached to
has the ID of its own task. -/
theorem freed_perm_acquired_iff {taskId : ℕ} {digest : String} {cacheSetting : CacheControl}
    {startDeadline now : TimePoint} {events : List Event}
    (run : Run (Step cfg) (queued taskId digest cacheSetting startDeadline now) events f)
    (hdone : f.pc = .done) :
    f.freed.Perm (f.started ++ f.referenced) ↔ ∀ p ∈ f.referenced, p.2 = taskId := by
  have hperm := (balanced_of_run run).perm
  unfold pending at hperm
  rw [hdone] at hperm
  rw [← perm_map_const]
  constructor
  · intro h
    exact (List.perm_append_left_iff _).mp (hperm.symm.trans h)
  · intro h
    exact hperm.trans (h.append_left _)

end Fiber

end Yadcc.Daemon.Local
