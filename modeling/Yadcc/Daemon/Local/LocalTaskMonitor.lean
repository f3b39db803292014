/-
# The monitor of local tasks

The daemon lets processes of its own machine start a task only up to a limit. A process asks
for permission under its id, waits while too many permissions are granted, and drops its
permission when the task is done. Every second the daemon looks for processes that are gone
and drops their permissions for them. Lightweight tasks have a limit of their own, above the
one of all others, but there is one table of permissions.
-/

import Yadcc.Lib.Monitor
import Yadcc.Lib.Shell
import Mathlib.Data.UInt

namespace Yadcc.Daemon.Local

open Yadcc.Lib
open Shell (asciiBytes)

namespace LocalTaskMonitor

/-! ## Whether a process is alive -/

def isSpace (b : UInt8) : Bool := b.toNat == 32 || (9 ≤ b.toNat && b.toNat ≤ 13)

/-- The words that `operator>>` reads from a line. -/
def words (line : Bytes) : List Bytes := (line.splitOnP isSpace).filter (· ≠ [])

/-- `IsProcessAlive` on what `/proc/{pid}/status` holds, if it can be opened. There is no
answer if no line tells the state: that kills the daemon. -/
def isProcessAlive : Option Bytes → Option Bool
  | none => some false
  | some status =>
      ((status.splitOn 10).find? fun str => (asciiBytes "State:").isPrefixOf str).map fun str =>
        let y := (words str).getD 1 []
        y ≠ asciiBytes "Z" && y ≠ asciiBytes "x" && y ≠ asciiBytes "X"

/-! ## Limits -/

/-- `DetermineCGroupsProcessorQuota`: the two numbers are what could be read. -/
def determineCGroupsProcessorQuota (processors : UInt64) (quota period : Option Int64) :
    Option UInt64 :=
  match quota, period with
  | some quota, some period =>
      if quota ≤ 0 ∨ period ≤ 0 then none else some (min processors (quota / period).toUInt64)
  | _, _ => none

/-- The limits of a monitor. The second is computed from the first in floating point. -/
structure Limits where
  maxTasks : UInt64
  lightweightTaskOverprovisioning : UInt64
  positive : 1 ≤ maxTasks

/-- The limits that the constructor sets. -/
def Limits.make (maxLocalTasks : Int32) (cgroupQuota : Option UInt64) (processors : UInt64)
    (overprovisioning : UInt64 → UInt64) : Limits :=
  let configured :=
    if maxLocalTasks ≠ 0 then maxLocalTasks.toInt64.toUInt64
    else match cgroupQuota with
      | some quota => quota / 2
      | none => processors / 2
  let maxTasks := if configured < 1 then 1 else configured
  { maxTasks
    lightweightTaskOverprovisioning := overprovisioning maxTasks
    positive := by
      show 1 ≤ if configured < 1 then 1 else configured
      split
      · exact UInt64.le_refl 1
      · next h => exact UInt64.not_lt.mp h }

/-- The number of permissions below which a task may start. -/
def Limits.limit (limits : Limits) (lightweight : Bool) : UInt64 :=
  limits.maxTasks + if lightweight then limits.lightweightTaskOverprovisioning else 0

/-- No table exceeds the larger of the limits. They differ in the expected direction unless
their sum overflows. -/
def Limits.most (limits : Limits) : ℕ :=
  max (limits.limit false).toNat (limits.limit true).toNat

theorem Limits.limit_le_most (limits : Limits) (lightweight : Bool) :
    (limits.limit lightweight).toNat ≤ limits.most := by
  cases lightweight with
  | false => exact le_max_left _ _
  | true => exact le_max_right _ _

@[simp]
theorem Limits.limit_false (limits : Limits) : limits.limit false = limits.maxTasks :=
  UInt64.add_zero _

/-! ## The table of permissions -/

abbrev Pid := UInt32

/-- The arguments of `WaitForRunningNewTaskPermission`. -/
structure Request where
  startingTaskPid : Pid
  lightweight : Bool
  deriving DecidableEq

/-- `procfs` gives the status files at the time of a check. -/
inductive Op
  | dropTaskPermission (pid : Pid)
  | onAliveProcessCheck (procfs : Pid → Option Bytes)

/-- What is done with the table once there is room. A process that has permission already is
let through, and its entry stands for both tasks. -/
def grant (request : Request) (permissionsGranted : Finset Pid) : Finset Pid :=
  if request.startingTaskPid ∈ permissionsGranted then permissionsGranted
  else insert request.startingTaskPid permissionsGranted

/-- A status file without a state ends the program. -/
def operate (permissionsGranted : Finset Pid) : Op → Option (Finset Pid)
  | .dropTaskPermission pid => some (permissionsGranted.erase pid)
  | .onAliveProcessCheck procfs =>
      if permissionsGranted.filter (fun pid => isProcessAlive (procfs pid) = none) = ∅ then
        some (permissionsGranted.filter fun pid => isProcessAlive (procfs pid) = some true)
      else none

/-- An unknown process is ignored without a notification. -/
def notification (permissionsGranted : Finset Pid) : Op → Notification
  | .dropTaskPermission pid => if pid ∈ permissionsGranted then .afterUnlock else .never
  | .onAliveProcessCheck _ => .underLock

end LocalTaskMonitor

open LocalTaskMonitor

/-- The monitor: a call waits for room below its own limit. -/
def localTaskMonitor (limits : Limits) : Monitor (Finset Pid) Request Op where
  ready request permissionsGranted :=
    permissionsGranted.card < (limits.limit request.lightweight).toNat
  enter := grant
  operate op permissionsGranted := LocalTaskMonitor.operate permissionsGranted op
  notification op permissionsGranted := LocalTaskMonitor.notification permissionsGranted op

namespace LocalTaskMonitor

variable {limits : Limits} {permissionsGranted : Finset Pid} {request : Request}

theorem operate_eq (op : Op) : (localTaskMonitor limits).operate op permissionsGranted =
    LocalTaskMonitor.operate permissionsGranted op := rfl

theorem ready_iff : (localTaskMonitor limits).ready request permissionsGranted = true ↔
    permissionsGranted.card < (limits.limit request.lightweight).toNat :=
  decide_eq_true_iff

@[simp]
theorem grant_eq_insert : grant request permissionsGranted =
    insert request.startingTaskPid permissionsGranted := by
  unfold grant
  split
  · next h => rw [Finset.insert_eq_of_mem h]
  · rfl

theorem card_le_grant : permissionsGranted.card ≤ (grant request permissionsGranted).card := by
  rw [grant_eq_insert]
  exact Finset.card_le_card (Finset.subset_insert _ _)

/-- Room that is needed for a call is there after it. -/
theorem card_grant_le (h : (localTaskMonitor limits).ready request permissionsGranted = true) :
    (grant request permissionsGranted).card ≤ (limits.limit request.lightweight).toNat := by
  rw [grant_eq_insert]
  exact (Finset.card_insert_le _ _).trans (ready_iff.mp h)

theorem operate_subset {op : Op} {permissionsGranted' : Finset Pid}
    (h : LocalTaskMonitor.operate permissionsGranted op = some permissionsGranted') :
    permissionsGranted' ⊆ permissionsGranted := by
  cases op with
  | dropTaskPermission pid =>
      cases h
      exact Finset.erase_subset _ _
  | onAliveProcessCheck procfs =>
      simp only [LocalTaskMonitor.operate] at h
      split at h
      · cases h
        exact Finset.filter_subset _ _
      · cases h

theorem notifies (limits : Limits) : (localTaskMonitor limits).Notifies where
  enter request request' permissionsGranted _ hready := by
    rw [ready_iff] at hready ⊢
    exact card_le_grant.trans_lt hready
  operate op permissionsGranted permissionsGranted' request h hnever hready := by
    cases op with
    | onAliveProcessCheck procfs => cases hnever
    | dropTaskPermission pid =>
        have hunknown : pid ∉ permissionsGranted := by
          intro hpid
          have hlater : LocalTaskMonitor.notification permissionsGranted
              (.dropTaskPermission pid) = .afterUnlock := if_pos hpid
          exact Notification.noConfusion (hlater.symm.trans hnever)
        cases h
        rwa [Finset.erase_eq_of_notMem hunknown] at hready

/-- The table never holds more than the larger of the limits. -/
theorem card_le_most {events : List (Monitor.Event Request Op)}
    {s : Monitor.State (Finset Pid) Request}
    (run : Run (localTaskMonitor limits).Step (Monitor.start ∅) events s) :
    s.shared.card ≤ limits.most := by
  refine Monitor.shared_invariant (I := fun permissionsGranted =>
    permissionsGranted.card ≤ limits.most) ?_ ?_ run (Nat.zero_le _)
  · intro request permissionsGranted _ hready
    exact (card_grant_le hready).trans (limits.limit_le_most _)
  · intro op permissionsGranted permissionsGranted' hle h
    exact (Finset.card_le_card (operate_subset h)).trans hle

/-- Room for one task of each kind. -/
def sampleLimits : Limits where
  maxTasks := 1
  lightweightTaskOverprovisioning := 1
  positive := UInt64.le_refl 1

/-- A second process waits while the first drops its permission. -/
def sampleEvents : List (Monitor.Event Request Op) :=
  [.call 0 ⟨100, false⟩, .look 0, .call 1 ⟨200, false⟩, .look 1,
    .operate (.dropTaskPermission 100)]

def sampleState : Monitor.State (Finset Pid) Request :=
  (follow (localTaskMonitor sampleLimits).next sampleEvents (Monitor.start ∅)).getD
    (Monitor.start ∅)

/-- After a check the table holds processes only that were alive at the check. -/
theorem alive_of_check {procfs : Pid → Option Bytes} {permissionsGranted' : Finset Pid}
    (h : LocalTaskMonitor.operate permissionsGranted (.onAliveProcessCheck procfs) =
      some permissionsGranted') {pid : Pid} :
    pid ∈ permissionsGranted' ↔
      pid ∈ permissionsGranted ∧ isProcessAlive (procfs pid) = some true := by
  simp only [LocalTaskMonitor.operate] at h
  split at h
  · cases h
    exact Finset.mem_filter
  · cases h

end LocalTaskMonitor

end Yadcc.Daemon.Local
