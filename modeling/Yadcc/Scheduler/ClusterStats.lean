/-
# The statistics of a cluster

`DumpInternals` lists servants and grants for the scheduler's console and adds up what the
servants offer and run. Every total is an unsigned sum, and what a servant offers less than
its maximum is an unsigned difference. A servant that is low on memory counts as being able
to run what it runs, which can be more than the maximum it reports by now, so that its
difference wraps around. This module tells exactly when the totals are right.
-/

import Yadcc.Scheduler.Capacity

namespace Yadcc.Scheduler

open Yadcc.Lib

/-! ## What is listed -/

/-- Both locations of a servant are shown only if they differ. -/
inductive LocationItem
  | location (observedLocation : String)
  | behindNat (observedLocation reportedLocation : String)
  deriving DecidableEq

/-- The reason is shown in place of a maximum of zero. -/
inductive MaxTasksItem
  | maxTasks (n : UInt64)
  | notAcceptingTaskReason (reason : NotAcceptingTaskReason)
  deriving DecidableEq

structure ServantItem where
  version : Int32
  location : LocationItem
  discoveredAt : String
  expiresAt : String
  environments : List String
  priority : ServantPriority
  maxTasks : MaxTasksItem
  numProcessors : UInt64
  currentLoad : UInt64
  capacityAvailable : Int64
  totalMemoryMb : UInt64
  memoryAvailableMb : UInt64
  runningTasks : UInt64
  everAssignedTasks : UInt64

structure TaskItem where
  taskId : UInt64
  requestorIp : String
  compilerDigest : String
  startedAt : String
  expiresAt : String
  prefetchedTask : Bool
  servantLocation : String
  zombie : Bool

/-- What is returned. The items of grants have the IDs of the grants as keys. -/
structure Internals where
  servants : List ServantItem
  tasks : UnorderedMap UInt64 TaskItem
  servantsUp : UInt64
  runningTasks : UInt64
  capacity : UInt64
  capacityAvailable : UInt64
  capacityUnavailable : UInt64

namespace TaskDispatcher

def servantItem (cfg : DispatcherConfig) (formatTime : Time → String) (entry : ServantDesc) :
    ServantItem :=
  let personality := entry.personality
  { version := personality.version
    location :=
      if personality.observedLocation ≠ personality.reportedLocation then
        .behindNat personality.observedLocation personality.reportedLocation
      else .location personality.observedLocation
    discoveredAt := formatTime entry.discoveredAt
    expiresAt := formatTime entry.expiresAt
    environments := personality.environments.map EnvironmentDesc.compilerDigest
    priority := personality.priority
    maxTasks :=
      if personality.maxTasks ≠ 0 then .maxTasks personality.maxTasks
      else .notAcceptingTaskReason personality.notAcceptingTaskReason
    numProcessors := personality.numProcessors
    currentLoad := personality.currentLoad
    capacityAvailable := (getCapacityAvailable cfg entry).toInt64
    totalMemoryMb := personality.totalMemoryInBytes / 1024 / 1024
    memoryAvailableMb := personality.memoryAvailableInBytes / 1024 / 1024
    runningTasks := entry.runningTasks
    everAssignedTasks := entry.everAssignedTasks }

def taskItem (formatTime : Time → String) (s : TaskDispatcher) (v : TaskDesc) : TaskItem where
  taskId := v.taskId
  requestorIp := v.personality.requestorIp
  compilerDigest := v.personality.envDesc.compilerDigest
  startedAt := formatTime v.startedAt
  expiresAt := formatTime v.expiresAt
  prefetchedTask := v.isPrefetch
  servantLocation := s.locationOf v.belongingServant
  zombie := v.zombie

/-- `formatTime` prints a reading of the steady clock as local time. The servants are counted
with an `int`, which must not overflow. -/
def dumpInternals (cfg : DispatcherConfig) (formatTime : Time → String) (s : TaskDispatcher) :
    Option Internals :=
  if s.servants.length < 2 ^ 31 then
    let entries := s.servants.map s.heap
    let totalRunning := entries.foldl (fun total entry => total + entry.runningTasks) 0
    let clusterCapacity :=
      entries.foldl (fun total entry => total + entry.personality.maxTasks) 0
    let capacityUnavailable := entries.foldl (fun total entry =>
      total + (entry.personality.maxTasks - getCapacityAvailable cfg entry)) 0
    some
      { servants := entries.map (servantItem cfg formatTime)
        tasks := s.tasks.mapValues fun _ v => s.taskItem formatTime v
        servantsUp := s.servants.length.toUInt64
        runningTasks := totalRunning
        capacity := clusterCapacity
        -- It can be negative, if some servant runs more tasks than it is capable of.
        capacityAvailable :=
          (max (clusterCapacity - totalRunning - capacityUnavailable).toInt64 0).toUInt64
        capacityUnavailable }
  else none

/-! ## The totals -/

variable {cfg : DispatcherConfig} {formatTime : Time → String} {s : TaskDispatcher}

/-- The sum over the registered servants, over the integers. -/
def sumOver (s : TaskDispatcher) (f : ServantDesc → UInt64) : ℤ :=
  ((s.servants.map s.heap).map fun entry => ((f entry).toNat : ℤ)).sum

/-- The totals are the ones of the integers, and no servant offers more than its maximum. -/
structure TotalsExact (cfg : DispatcherConfig) (s : TaskDispatcher) (d : Internals) : Prop where
  capacity : (d.capacity.toNat : ℤ) = s.sumOver fun entry => entry.personality.maxTasks
  unavailable_le : d.capacityUnavailable.toNat ≤ d.capacity.toNat
  unavailable : (d.capacityUnavailable.toNat : ℤ)
    = s.sumOver (fun entry => entry.personality.maxTasks) - s.sumOver (getCapacityAvailable cfg)
  available : (d.capacityAvailable.toNat : ℤ)
    = max 0 (s.sumOver (getCapacityAvailable cfg) - s.sumOver ServantDesc.runningTasks)
  differences : ∀ r ∈ s.servants,
    (((s.heap r).personality.maxTasks - getCapacityAvailable cfg (s.heap r)).toNat : ℤ)
      = (s.heap r).personality.maxTasks.toNat - (getCapacityAvailable cfg (s.heap r)).toNat

/-- A servant that is low on memory runs no more than the maximum it reports. -/
def WithinMaximum (cfg : DispatcherConfig) (s : TaskDispatcher) : Prop :=
  ∀ r ∈ s.servants, LowMemory cfg (s.heap r).personality →
    (s.heap r).runningTasks ≤ (s.heap r).personality.maxTasks

instance (cfg : DispatcherConfig) (s : TaskDispatcher) : Decidable (WithinMaximum cfg s) :=
  inferInstanceAs (Decidable (∀ r ∈ s.servants, _ → _))

theorem sumOver_nonneg (s : TaskDispatcher) (f : ServantDesc → UInt64) : 0 ≤ s.sumOver f := by
  apply List.sum_nonneg
  intro i hi
  obtain ⟨entry, -, rfl⟩ := List.mem_map.mp hi
  exact Int.natCast_nonneg _

/-- As many 32-bit numbers as an `int` can count have a sum of 63 bits. -/
theorem sumOver_lt {f : ServantDesc → UInt64} (hlength : s.servants.length < 2 ^ 31)
    (h : ∀ r ∈ s.servants, (f (s.heap r)).toNat < 2 ^ 32) : s.sumOver f < 2 ^ 63 := by
  have hle : s.sumOver f ≤ s.servants.length * 2 ^ 32 := by
    unfold sumOver
    rw [List.map_map]
    have hsum := List.sum_le_card_nsmul
      (s.servants.map ((fun entry => ((f entry).toNat : ℤ)) ∘ s.heap)) (2 ^ 32) (by
        intro i hi
        obtain ⟨r, hr, rfl⟩ := List.mem_map.mp hi
        have hlt := h r hr
        simp only [Function.comp_apply]
        omega)
    rw [List.length_map, nsmul_eq_mul] at hsum
    exact_mod_cast hsum
  omega

theorem sumOver_mono {f g : ServantDesc → UInt64}
    (h : ∀ r ∈ s.servants, (f (s.heap r)).toNat ≤ (g (s.heap r)).toNat) :
    s.sumOver f ≤ s.sumOver g := by
  unfold sumOver
  rw [List.map_map, List.map_map]
  apply List.sum_le_sum
  intro r hr
  simp only [Function.comp_apply]
  exact_mod_cast h r hr

/-- A total that is built up in a loop. -/
theorem represents_sumOver (s : TaskDispatcher) (f : ServantDesc → UInt64) :
    UInt64.Represents ((s.servants.map s.heap).foldl (fun total entry => total + f entry) 0)
      (s.sumOver f) := by
  have h := (UInt64.represents_toNat 0).foldl (s.servants.map s.heap)
    fun entry _ => UInt64.represents_toNat (f entry)
  simpa [sumOver] using h

theorem represents_unavailable (cfg : DispatcherConfig) (s : TaskDispatcher) :
    UInt64.Represents ((s.servants.map s.heap).foldl (fun total entry =>
        total + (entry.personality.maxTasks - getCapacityAvailable cfg entry)) 0)
      (s.sumOver (fun entry => entry.personality.maxTasks)
        - s.sumOver (getCapacityAvailable cfg)) := by
  have h := (UInt64.represents_toNat 0).foldl (s.servants.map s.heap) fun entry _ =>
    (UInt64.represents_toNat entry.personality.maxTasks).sub
      (UInt64.represents_toNat (getCapacityAvailable cfg entry))
  rw [UInt64.toNat_zero, Nat.cast_zero, zero_add] at h
  have hsum : s.sumOver (fun entry => entry.personality.maxTasks)
      - s.sumOver (getCapacityAvailable cfg)
      = ((s.servants.map s.heap).map fun entry => (entry.personality.maxTasks.toNat : ℤ)
          - (getCapacityAvailable cfg entry).toNat).sum := by
    have hsub := Multiset.sum_map_sub (m := (↑(s.servants.map s.heap) : Multiset ServantDesc))
      (f := fun entry => (entry.personality.maxTasks.toNat : ℤ))
      (g := fun entry => ((getCapacityAvailable cfg entry).toNat : ℤ))
    exact hsub.symm
  rw [hsum]
  exact h

/-- Unless it is low on memory, a servant offers no more than its maximum. -/
theorem getCapacityAvailable_le {r : ServantPtr} (hr : r ∈ s.servants)
    (h : WithinMaximum cfg s) :
    (getCapacityAvailable cfg (s.heap r)).toNat ≤ (s.heap r).personality.maxTasks.toNat := by
  rw [getCapacityAvailable_eq]
  split
  · next hlow => exact UInt64.le_iff_toNat_le.mp (h r hr hlow)
  · rw [UInt64.toNat_min]
    exact Nat.min_le_left _ _

theorem totalsExact_of_within (hnarrow : Narrow s) (hlength : s.servants.length < 2 ^ 31)
    (h : WithinMaximum cfg s) :
    ∃ d, s.dumpInternals cfg formatTime = some d ∧ TotalsExact cfg s d := by
  have hcapacity : s.sumOver (fun entry => entry.personality.maxTasks) < 2 ^ 63 :=
    sumOver_lt hlength fun r _ => (hnarrow.personality r).maxTasks
  have hrunning : s.sumOver ServantDesc.runningTasks < 2 ^ 63 :=
    sumOver_lt hlength fun r _ => hnarrow.runningTasks r
  have hle : s.sumOver (getCapacityAvailable cfg)
      ≤ s.sumOver (fun entry => entry.personality.maxTasks) :=
    sumOver_mono fun r hr => getCapacityAvailable_le hr h
  have hpositive := sumOver_nonneg s (getCapacityAvailable cfg)
  have hpositive' := sumOver_nonneg s ServantDesc.runningTasks
  have hunavailable := represents_unavailable cfg s
  have hleft := ((represents_sumOver s fun entry => entry.personality.maxTasks).sub
    (represents_sumOver s ServantDesc.runningTasks)).sub hunavailable
  have hcapacity_eq := (represents_sumOver s fun entry => entry.personality.maxTasks).toNat
    (by omega) (by omega)
  have hunavailable_eq := hunavailable.toNat (by omega) (by omega)
  refine ⟨_, if_pos hlength, ⟨hcapacity_eq, ?_, hunavailable_eq, ?_, ?_⟩⟩
  · zify
    rw [hcapacity_eq, hunavailable_eq]
    omega
  · rw [UInt64.toNat_max_zero, hleft.toInt (by omega) (by omega)]
    omega
  · intro r hr
    have hroom := getCapacityAvailable_le hr h
    rw [UInt64.toNat_sub_of_le _ _ (UInt64.le_iff_toNat_le.mpr hroom)]
    omega

/-- A servant that is low on memory and runs more than its maximum has a wrong difference. -/
theorem within_of_totalsExact {d : Internals} (h : TotalsExact cfg s d) :
    WithinMaximum cfg s := by
  intro r hr hlow
  have hdifference := h.differences r hr
  rw [getCapacityAvailable_eq, if_pos hlow] at hdifference
  rw [UInt64.le_iff_toNat_le]
  omega

/-- In a state reached with 32-bit reports the totals are exact, and no difference wraps
around, exactly if no servant that is low on memory runs more than its maximum. -/
theorem totals_exact_iff {labels : List (Op × Reply)}
    (run : Run (Guarded (Step cfg) ReportsNarrow) empty labels s) (formatTime : Time → String) :
    (∃ d, s.dumpInternals cfg formatTime = some d ∧ TotalsExact cfg s d) ↔
      s.servants.length < 2 ^ 31 ∧ WithinMaximum cfg s := by
  obtain ⟨-, hnarrow⟩ := narrow_of_run run
  constructor
  · rintro ⟨d, hdump, hexact⟩
    refine ⟨?_, within_of_totalsExact hexact⟩
    by_contra hlength
    rw [dumpInternals, if_neg hlength] at hdump
    cases hdump
  · rintro ⟨hlength, hwithin⟩
    exact totalsExact_of_within hnarrow hlength hwithin

theorem totals_exact_registerRun :
    ∃ s d, follow (guardedNext (next sampleConfig) ReportsNarrow) registerRun empty = some s ∧
      s.dumpInternals sampleConfig (fun _ => "") = some d ∧ d.capacity = 2 ∧
      TotalsExact sampleConfig s d := by
  refine ⟨_, _, rfl, rfl, rfl, ?_⟩
  have run : Run (Guarded (Step sampleConfig) ReportsNarrow) empty registerRun _ :=
    Run.of_follow (guarded_of_guardedNext step_of_next) rfl
  obtain ⟨d, hdump, hexact⟩ := (totals_exact_iff run fun _ => "").mpr (by decide)
  cases hdump
  exact hexact

/-- A task needs some memory. -/
def memoryConfig : DispatcherConfig where
  minMemoryForNewTask := 1
  utilization _ _ := 0

/-- A servant gets a grant, and then reports that it is out of memory and accepts no task
any more. -/
def shrinkRun : List (Op × Reply) :=
  [(.keepServantAlive (sampleServant "10.0.0.1:1") 100 0 0, .done),
    (.waitForStartingNewTask sampleTask 5 false 0 0,
      .attempt (.allocated ⟨0, "10.0.0.1:1"⟩)),
    (.keepServantAlive { sampleServant "10.0.0.1:1" with
      maxTasks := 0, totalMemoryInBytes := 1 } 100 1 1, .done)]

/-- More capacity is unavailable than there is. -/
theorem totals_wrap_shrinkRun :
    ∃ s d, follow (guardedNext (next memoryConfig) ReportsNarrow) shrinkRun empty = some s ∧
      s.dumpInternals memoryConfig (fun _ => "") = some d ∧ d.capacity = 0 ∧
      d.capacityUnavailable.toNat = 2 ^ 64 - 1 ∧ ¬TotalsExact memoryConfig s d := by
  refine ⟨_, _, rfl, rfl, rfl, rfl, ?_⟩
  intro hexact
  exact absurd hexact.unavailable_le (by decide)

end TaskDispatcher

end Yadcc.Scheduler
