/-
# The execution engine of a servant

The engine runs a command for every task it accepts, as a child process of the daemon. A
thread waits for children and starts a fiber for every one that exits; the fiber finds the
task by the process ID and completes it. Tasks are shared: a client may reference a task
that another one queued, and a task leaves the table with the last client.

The state has two sides. One is the engine: its table, its counters, the waiter thread and
the fibers. The other is the operating system: the children and what became of them. A
child is named by the ID of the task it was started for, which the operating system does
not know; it deals in process IDs and may give a new child any that no child has which was
not waited for. Every step is taken under the lock or outside of it as in the code, and a
label carries what the code cannot choose. Task IDs and reference counts do not overflow.
-/

import Yadcc.Lib.Transition
import Yadcc.Lib.UnorderedMap

namespace Yadcc.Daemon.Cloud

open Yadcc.Lib

/-! ## Data -/

abbrev TaskId := ℕ

abbrev GrantId := UInt64

abbrev Pid := ℕ

/-- Time since boot in nanoseconds. -/
abbrev Nanoseconds := ℕ

/-- What a task is told when it completes. A child that did not exit by itself has the
exit code -1. -/
structure Output where
  exitCode : ℤ
  standardOutput : List UInt8
  standardError : List UInt8
  deriving DecidableEq

/-- A task in the table, or one that left it and is still referenced. `completions` are the
calls of `OnCompletion` on its user's task, and `countDowns` those of `count_down` on its
completion latch, which starts at 1. -/
structure TaskDesc (τ : Type) where
  grantId : GrantId
  clientRefCount : ℕ
  isRunning : Bool
  startedAt : Nanoseconds
  completedAt : Nanoseconds
  processId : Pid
  task : τ
  completions : List Output
  countDowns : ℕ

inductive ProcessState
  | running
  | exited (exitCode : ℤ)
  | reaped (exitCode : ℤ)
  deriving DecidableEq

/-- A child. Its output goes to the temporary files of the task it was started for. -/
structure Process where
  pid : Pid
  state : ProcessState
  standardOutput : List UInt8
  standardError : List UInt8
  killed : Bool

/-- The child still has its process ID. -/
def Process.unreaped (p : Process) : Bool :=
  match p.state with
  | .reaped _ => false
  | _ => true

/-- Where the waiter thread is: at the condition of its loop, at the semaphore, at the
second check, in `wait`, or at its end. A failed `wait` aborts the daemon. -/
inductive WaiterState
  | looping
  | acquiring
  | acquired
  | waiting
  | stopped
  | aborted
  deriving DecidableEq

/-- Where the fiber is that handles the exit of a child: not yet at the lock, past it with
the task it found, past `OnCompletion`, or at its end. -/
inductive CallbackState
  | started (pid : Pid) (exitCode : ℤ)
  | completing (found : TaskId) (output : Output)
  | signalling (found : TaskId)
  | finished
  deriving DecidableEq

/-- The engine and its children. `tasks` are the keys of the table; the task with an ID is
in `descs` also after it left the table. `freeing` are tasks that were just taken out by
`FreeTask` and are about to be killed. -/
structure ExecutionEngine (τ : Type) where
  exiting : Bool
  taskConcurrencyLimit : UInt64
  minMemoryForStartingNewTask : ℕ
  tasksRunEver : UInt64
  runningTasks : UInt64
  nextTaskId : TaskId
  tasks : List TaskId
  descs : UnorderedMap TaskId (TaskDesc τ)
  freeing : List TaskId
  stopping : Bool
  waitpidSemaphore : ℕ
  waiter : WaiterState
  callbacks : UnorderedMap TaskId CallbackState
  processes : UnorderedMap TaskId Process

inductive ExecutionStatus
  | failed
  | running
  | notFound
  deriving DecidableEq

/-- A task as `EnumerateTasks` reports it. -/
structure EnumeratedTask (τ : Type) where
  servantTaskId : TaskId
  taskGrantId : GrantId
  task : τ

namespace ExecutionEngine

variable {τ : Type}

/-- A new engine. -/
def empty (τ : Type) (taskConcurrencyLimit : UInt64) (minMemoryForStartingNewTask : ℕ) :
    ExecutionEngine τ where
  exiting := false
  taskConcurrencyLimit := taskConcurrencyLimit
  minMemoryForStartingNewTask := minMemoryForStartingNewTask
  tasksRunEver := 0
  runningTasks := 0
  nextTaskId := 1
  tasks := []
  descs := ∅
  freeing := []
  stopping := false
  waitpidSemaphore := 0
  waiter := .looping
  callbacks := ∅
  processes := ∅

/-! ## The operating system -/

/-- No child has this process ID that was not waited for. -/
def pidFree (pid : Pid) (e : ExecutionEngine τ) : Bool :=
  e.processes.count (fun _ p => p.pid == pid && p.unreaped) == 0

/-- Send SIGKILL to a process group. Every child leads a group of its own. -/
def kill (pid : Pid) (e : ExecutionEngine τ) : ExecutionEngine τ :=
  { e with
    processes := e.processes.mapValues fun _ p =>
      if p.pid = pid ∧ p.state = .running then { p with killed := true } else p }

/-- A child writes to its standard output and standard error. -/
def write (child : TaskId) (standardOutput standardError : List UInt8)
    (e : ExecutionEngine τ) : Option (ExecutionEngine τ) :=
  match e.processes.lookup child with
  | none => none
  | some p =>
      if p.state = .running then
        some { e with
          processes := e.processes.insert child
            { p with
              standardOutput := p.standardOutput ++ standardOutput
              standardError := p.standardError ++ standardError } }
      else none

/-- A child exits, by itself or by a signal. -/
def exit (child : TaskId) (exitCode : ℤ) (e : ExecutionEngine τ) : Option (ExecutionEngine τ) :=
  match e.processes.lookup child with
  | none => none
  | some p =>
      if p.state = .running then
        some { e with
          processes := e.processes.insert child { p with state := .exited exitCode } }
      else none

/-! ## Starting, referencing and freeing tasks -/

/-- See if there is room and memory for another child, and number its task. The counter is
raised before the checks and lowered again by a refusal. A refused task wastes its number. -/
def tryStartingNewTaskUnsafe (memoryAvailable : ℕ) (e : ExecutionEngine τ) :
    Option TaskId × ExecutionEngine τ :=
  if e.exiting then (none, e)
  else
    let raised :=
      { e with
        nextTaskId := e.nextTaskId + 1
        runningTasks := e.runningTasks + 1 }
    let lowered := { raised with runningTasks := raised.runningTasks - 1 }
    if e.taskConcurrencyLimit < raised.runningTasks then (none, lowered)
    else if memoryAvailable < e.minMemoryForStartingNewTask then (none, lowered)
    else (some e.nextTaskId, { raised with tasksRunEver := e.tasksRunEver + 1 })

/-- A refusal leaves everything but the next number as it was. -/
theorem tryStartingNewTaskUnsafe_eq (memoryAvailable : ℕ) (e : ExecutionEngine τ) :
    tryStartingNewTaskUnsafe memoryAvailable e =
      if e.exiting then (none, e)
      else if e.taskConcurrencyLimit < e.runningTasks + 1 ∨
          memoryAvailable < e.minMemoryForStartingNewTask then
        (none, { e with nextTaskId := e.nextTaskId + 1 })
      else
        (some e.nextTaskId,
          { e with
            nextTaskId := e.nextTaskId + 1
            runningTasks := e.runningTasks + 1
            tasksRunEver := e.tasksRunEver + 1 }) := by
  have hlowered : e.runningTasks + 1 - 1 = e.runningTasks := by
    rw [UInt64.add_sub_cancel]
  unfold tryStartingNewTaskUnsafe
  dsimp only
  rw [hlowered]
  by_cases hexiting : e.exiting = true
  · rw [if_pos hexiting, if_pos hexiting]
  · rw [if_neg hexiting, if_neg hexiting]
    by_cases hlimit : e.taskConcurrencyLimit < e.runningTasks + 1
    · rw [if_pos hlimit, if_pos (Or.inl hlimit)]
    · rw [if_neg hlimit]
      by_cases hmemory : memoryAvailable < e.minMemoryForStartingNewTask
      · rw [if_pos hmemory, if_pos (Or.inr hmemory)]
      · rw [if_neg hmemory, if_neg (not_or.mpr ⟨hlimit, hmemory⟩)]

/-- A task that was just accepted. -/
def newTask (grantId : GrantId) (userTask : τ) (pid : Pid) (now : Nanoseconds) : TaskDesc τ where
  grantId := grantId
  clientRefCount := 1
  isRunning := true
  startedAt := now
  completedAt := 0
  processId := pid
  task := userTask
  completions := []
  countDowns := 0

/-- File a task with its child, and wake up the waiter. -/
def startProgram (taskId : TaskId) (desc : TaskDesc τ) (e : ExecutionEngine τ) :
    ExecutionEngine τ :=
  { e with
    tasks := taskId :: e.tasks
    descs := e.descs.insert taskId desc
    processes := e.processes.insert taskId ⟨desc.processId, .running, [], [], false⟩
    waitpidSemaphore := e.waitpidSemaphore + 1 }

/-- Start the command of a task. The operating system picks the process ID. -/
def tryQueueTask (grantId : GrantId) (userTask : τ) (memoryAvailable : ℕ) (pid : Pid)
    (now : Nanoseconds) (e : ExecutionEngine τ) : Option TaskId × ExecutionEngine τ :=
  match tryStartingNewTaskUnsafe memoryAvailable e with
  | (none, e) => (none, e)
  | (some taskId, e) =>
      (some taskId, e.startProgram taskId (newTask grantId userTask pid now))

def tryReferenceTask (taskId : TaskId) (e : ExecutionEngine τ) : Bool × ExecutionEngine τ :=
  if taskId ∈ e.tasks then
    (true, { e with
      descs := e.descs.modify taskId fun desc =>
        { desc with clientRefCount := desc.clientRefCount + 1 } })
  else (false, e)

/-- What a poll finds. The task it found first may have left the table by the time its
latch is looked at. -/
def waitForTask (found : Option TaskId) (e : ExecutionEngine τ) :
    Except ExecutionStatus (TaskDesc τ) :=
  match found.bind e.descs.lookup with
  | none => .error .notFound
  | some desc => if desc.countDowns = 0 then .error .running else .ok desc

/-- The first part of a poll, under the lock. -/
def findTask (taskId : TaskId) (e : ExecutionEngine τ) : Option TaskId :=
  if taskId ∈ e.tasks then some taskId else none

def killTask (taskId : TaskId) (e : ExecutionEngine τ) : ExecutionEngine τ :=
  match e.descs.lookup taskId with
  | none => e
  | some desc => if desc.isRunning then e.kill desc.processId else e

/-- The part of `FreeTask` under the lock: the last client takes the task out. -/
def freeTask (taskId : TaskId) (e : ExecutionEngine τ) : ExecutionEngine τ :=
  match e.findTask taskId |>.bind e.descs.lookup with
  | none => e
  | some desc =>
      let dereferenced :=
        { e with
          descs := e.descs.modify taskId fun desc =>
            { desc with clientRefCount := desc.clientRefCount - 1 } }
      if 0 < desc.clientRefCount - 1 then dereferenced
      else
        { dereferenced with
          tasks := e.tasks.erase taskId
          freeing := taskId :: e.freeing }

/-- The part of `FreeTask` after the lock. -/
def killFreed (taskId : TaskId) (e : ExecutionEngine τ) : Option (ExecutionEngine τ) :=
  if taskId ∈ e.freeing then
    some (killTask taskId { e with freeing := e.freeing.erase taskId })
  else none

def enumerateTasks (e : ExecutionEngine τ) : List (EnumeratedTask τ) :=
  e.tasks.filterMap fun taskId =>
    (e.descs.lookup taskId).map fun desc => ⟨taskId, desc.grantId, desc.task⟩

/-- The body of the loop in `KillExpiredTasks`. -/
def killIfExpired (expiredGrantIds : List GrantId) (e : ExecutionEngine τ) (taskId : TaskId) :
    ExecutionEngine τ :=
  match e.descs.lookup taskId with
  | none => e
  | some desc =>
      if desc.isRunning ∧ desc.grantId ∈ expiredGrantIds then killTask taskId e else e

/-- Kill the running tasks whose grant has expired. -/
def killExpiredTasks (expiredGrantIds : List GrantId) (e : ExecutionEngine τ) :
    ExecutionEngine τ :=
  e.tasks.foldl (killIfExpired expiredGrantIds) e

def OneMinute : Nanoseconds := 60 * 10 ^ 9

/-- Drop tasks that completed more than a minute ago. -/
def onCleanupTimer (now : Nanoseconds) (e : ExecutionEngine τ) : ExecutionEngine τ :=
  { e with
    tasks := e.tasks.filter fun taskId =>
      match e.descs.lookup taskId with
      | none => true
      | some desc => desc.isRunning || !decide (desc.completedAt + OneMinute < now) }

/-- The first part of `Stop`, before the lock. -/
def stop (e : ExecutionEngine τ) : ExecutionEngine τ :=
  { e with
    exiting := true
    stopping := true }

/-- The rest of `Stop`. -/
def killAll (e : ExecutionEngine τ) : Option (ExecutionEngine τ) :=
  if e.stopping then
    let e := e.tasks.foldl (fun e taskId => killTask taskId e) e
    some { e with
      stopping := false
      waitpidSemaphore := e.waitpidSemaphore + 1 }
  else none

/-! ## The waiter thread -/

def moreWorkToDo (e : ExecutionEngine τ) : Bool :=
  !e.exiting || e.runningTasks != 0

/-- A step of the waiter up to `wait`. -/
def waiterStep (e : ExecutionEngine τ) : Option (ExecutionEngine τ) :=
  match e.waiter with
  | .looping => some { e with waiter := if e.moreWorkToDo then .acquiring else .stopped }
  | .acquiring =>
      if e.waitpidSemaphore = 0 then none
      else some { e with waitpidSemaphore := e.waitpidSemaphore - 1, waiter := .acquired }
  | .acquired => some { e with waiter := if e.moreWorkToDo then .waiting else .stopped }
  | _ => none

/-- `wait` returns a child that has exited, and a fiber is started for it. -/
def wait (child : TaskId) (e : ExecutionEngine τ) : Option (ExecutionEngine τ) :=
  match e.waiter, e.processes.lookup child with
  | .waiting, some p =>
      match p.state with
      | .exited exitCode =>
          some { e with
            waiter := .looping
            processes := e.processes.insert child { p with state := .reaped exitCode }
            callbacks := e.callbacks.insert child (.started p.pid exitCode) }
      | _ => none
  | _, _ => none

/-- `wait` fails when there is no child to wait for. -/
def waitFailed (e : ExecutionEngine τ) : Option (ExecutionEngine τ) :=
  if e.waiter = .waiting ∧ e.processes.count (fun _ p => p.unreaped) = 0 then
    some { e with waiter := if e.exiting then .stopped else .aborted }
  else none

/-! ## The exit callback -/

/-- The result of the search for a process ID: a task of the table with that process ID,
which of several depends on the order of the table, or nothing if there is none. -/
def finds (pid : Pid) (found : Option TaskId) (e : ExecutionEngine τ) : Bool :=
  match found with
  | none => e.tasks.all fun taskId =>
      (e.descs.lookup taskId).all fun desc => desc.processId != pid
  | some taskId => taskId ∈ e.tasks &&
      (e.descs.lookup taskId).any fun desc => desc.processId == pid

/-- The output that a task's temporary files hold. -/
def readAll (taskId : TaskId) (exitCode : ℤ) (e : ExecutionEngine τ) : Output :=
  match e.processes.lookup taskId with
  | none => ⟨exitCode, [], []⟩
  | some p => ⟨exitCode, p.standardOutput, p.standardError⟩

/-- The part of `OnProcessExitCallback` under the lock. -/
def callbackLocked (child : TaskId) (found : Option TaskId) (now : Nanoseconds)
    (e : ExecutionEngine τ) : Option (ExecutionEngine τ) :=
  match e.callbacks.lookup child with
  | some (.started pid exitCode) =>
      if finds pid found e then
        let e := { e with runningTasks := e.runningTasks - 1 }
        match found with
        | none => some { e with callbacks := e.callbacks.insert child .finished }
        | some taskId =>
            some { e with
              descs := e.descs.modify taskId fun desc =>
                { desc with
                  completedAt := now
                  isRunning := false }
              callbacks := e.callbacks.insert child
                (.completing taskId (readAll taskId exitCode e)) }
      else none
  | _ => none

/-- The user's task is told. -/
def callbackOnCompletion (child : TaskId) (e : ExecutionEngine τ) :
    Option (ExecutionEngine τ) :=
  match e.callbacks.lookup child with
  | some (.completing found output) =>
      some { e with
        descs := e.descs.modify found fun desc =>
          { desc with completions := desc.completions ++ [output] }
        callbacks := e.callbacks.insert child (.signalling found) }
  | _ => none

/-- Those who wait for the task are released. -/
def callbackCountDown (child : TaskId) (e : ExecutionEngine τ) : Option (ExecutionEngine τ) :=
  match e.callbacks.lookup child with
  | some (.signalling found) =>
      some { e with
        descs := e.descs.modify found fun desc =>
          { desc with countDowns := desc.countDowns + 1 }
        callbacks := e.callbacks.insert child .finished }
  | _ => none

/-! ## Steps -/

inductive Action (τ : Type)
  | tryQueueTask (grantId : GrantId) (userTask : τ) (memoryAvailable : ℕ) (pid : Pid)
      (now : Nanoseconds)
  | tryReferenceTask (taskId : TaskId)
  | freeTask (taskId : TaskId)
  | killFreed (taskId : TaskId)
  | killExpiredTasks (expiredGrantIds : List GrantId)
  | onCleanupTimer (now : Nanoseconds)
  | stop
  | killAll
  | waiterStep
  | wait (child : TaskId)
  | waitFailed
  | callbackLocked (child : TaskId) (found : Option TaskId) (now : Nanoseconds)
  | callbackOnCompletion (child : TaskId)
  | callbackCountDown (child : TaskId)
  | write (child : TaskId) (standardOutput standardError : List UInt8)
  | exit (child : TaskId) (exitCode : ℤ)

/-- What the engine does on its own, not called from outside. -/
def Action.isInternal : Action τ → Bool
  | .killFreed _ => true
  | .onCleanupTimer _ => true
  | .waiterStep => true
  | .wait _ => true
  | .waitFailed => true
  | .callbackLocked _ _ _ => true
  | .callbackOnCompletion _ => true
  | .callbackCountDown _ => true
  | .write _ _ _ => true
  | .exit _ _ => true
  | _ => false

/-- Take a step; `none` when it is not possible in this state. Nothing runs in a daemon
that has aborted. -/
def next (e : ExecutionEngine τ) (a : Action τ) : Option (ExecutionEngine τ) :=
  if e.waiter = .aborted then none
  else
    match a with
    | .tryQueueTask grantId userTask memoryAvailable pid now =>
        if e.pidFree pid then some (e.tryQueueTask grantId userTask memoryAvailable pid now).2
        else none
    | .tryReferenceTask taskId => some (e.tryReferenceTask taskId).2
    | .freeTask taskId => some (e.freeTask taskId)
    | .killFreed taskId => e.killFreed taskId
    | .killExpiredTasks expiredGrantIds => some (e.killExpiredTasks expiredGrantIds)
    | .onCleanupTimer now => some (e.onCleanupTimer now)
    | .stop => some e.stop
    | .killAll => e.killAll
    | .waiterStep => e.waiterStep
    | .wait child => e.wait child
    | .waitFailed => e.waitFailed
    | .callbackLocked child found now => e.callbackLocked child found now
    | .callbackOnCompletion child => e.callbackOnCompletion child
    | .callbackCountDown child => e.callbackCountDown child
    | .write child standardOutput standardError => e.write child standardOutput standardError
    | .exit child exitCode => e.exit child exitCode

def Step (e : ExecutionEngine τ) (a : Action τ) (e' : ExecutionEngine τ) : Prop :=
  e.next a = some e'

end ExecutionEngine

end Yadcc.Daemon.Cloud
