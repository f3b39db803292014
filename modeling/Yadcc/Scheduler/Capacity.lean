/-
# The capacity of a servant

The scheduler grants a task on a servant that has capacity left. The capacity is computed
with unsigned differences that wrap around and signed clamping, and the picking code checks
again what the filters before it have established. For the numbers that a servant can
report, the formula yields what it says over the integers, and the checks never fail.
-/

import Yadcc.Lib.Word
import Yadcc.Scheduler.TaskDispatcherInvariant

namespace Yadcc.Scheduler

open Yadcc.Lib

/-! ## Reported numbers -/

/-- Load, processors and capacity are 32-bit numbers. -/
structure ServantPersonality.Narrow (servant : ServantPersonality) : Prop where
  currentLoad : servant.currentLoad.toNat < 2 ^ 32
  numProcessors : servant.numProcessors.toNat < 2 ^ 32
  maxTasks : servant.maxTasks.toNat < 2 ^ 32

instance (servant : ServantPersonality) : Decidable servant.Narrow :=
  decidable_of_iff (servant.currentLoad.toNat < 2 ^ 32 ∧ servant.numProcessors.toNat < 2 ^ 32 ∧
    servant.maxTasks.toNat < 2 ^ 32)
    ⟨fun h => ⟨h.1, h.2.1, h.2.2⟩, fun h => ⟨h.currentLoad, h.numProcessors, h.maxTasks⟩⟩

namespace TaskDispatcher

variable {cfg : DispatcherConfig} {s t : TaskDispatcher}

/-- A servant reports 32-bit numbers. -/
def ReportsNarrow (_ : TaskDispatcher) : Op × Reply → Prop
  | (.keepServantAlive servant _ _ _, _) => servant.Narrow
  | _ => True

instance (s : TaskDispatcher) (label : Op × Reply) : Decidable (ReportsNarrow s label) := by
  unfold ReportsNarrow
  split
  · infer_instance
  · infer_instance

/-- A reported total and too little available memory. -/
def LowMemory (cfg : DispatcherConfig) (servant : ServantPersonality) : Prop :=
  servant.totalMemoryInBytes ≠ 0 ∧ servant.memoryAvailableInBytes < cfg.minMemoryForNewTask

instance (cfg : DispatcherConfig) (servant : ServantPersonality) :
    Decidable (LowMemory cfg servant) :=
  inferInstanceAs (Decidable (_ ∧ _))

/-- What a servant can run apart from its memory, over the integers. -/
def processorsLeft (desc : ServantDesc) : ℤ :=
  min (desc.personality.maxTasks.toNat : ℤ)
    (max 0 (desc.personality.numProcessors.toNat
      - max 0 ((desc.personality.currentLoad.toNat : ℤ) - desc.runningTasks.toNat)))

theorem getCapacityAvailable_eq (desc : ServantDesc) : getCapacityAvailable cfg desc =
    if LowMemory cfg desc.personality then desc.runningTasks
    else min desc.personality.maxTasks (max (desc.personality.numProcessors
      - (max (desc.personality.currentLoad - desc.runningTasks).toInt64 0).toUInt64).toInt64
        0).toUInt64 :=
  rfl

/-! ## The invariant -/

/-- Every descriptor holds 32-bit numbers. -/
structure Narrow (s : TaskDispatcher) : Prop where
  personality : ∀ r, (s.heap r).personality.Narrow
  runningTasks : ∀ r, (s.heap r).runningTasks.toNat < 2 ^ 32

/-- A descriptor under other pointers may differ in its grants, and these only go. -/
theorem Narrow.of_counted (h : Narrow s) (hs : Counted s) (ht : Counted t)
    (hpersonality : ∀ r, (t.heap r).personality = (s.heap r).personality)
    (htasks : ∀ r, t.tasksOn r ≤ s.tasksOn r) : Narrow t where
  personality r := hpersonality r ▸ h.personality r
  runningTasks r := by
    rw [ht r]
    exact (htasks r).trans_lt (hs r ▸ h.runningTasks r)

/-- A servant with room has fewer tasks than it wants at most, and capacity at all. -/
theorem room {desc : ServantDesc} (h : desc.runningTasks < getCapacityAvailable cfg desc) :
    ¬LowMemory cfg desc.personality ∧ desc.runningTasks < desc.personality.maxTasks ∧
      getCapacityAvailable cfg desc ≠ 0 := by
  rw [UInt64.lt_iff_toNat_lt] at h
  have hnonzero : getCapacityAvailable cfg desc ≠ 0 := by
    intro hzero
    rw [hzero] at h
    exact Nat.not_lt_zero _ h
  have hlow : ¬LowMemory cfg desc.personality := by
    intro hlow
    rw [getCapacityAvailable_eq, if_pos hlow] at h
    exact Nat.lt_irrefl _ h
  refine ⟨hlow, ?_, hnonzero⟩
  rw [getCapacityAvailable_eq, if_neg hlow, UInt64.toNat_min] at h
  rw [UInt64.lt_iff_toNat_lt]
  omega

/-- The formula computes the capacity over the integers. -/
theorem Narrow.capacity (h : Narrow s) (r : ServantPtr)
    (hlow : ¬LowMemory cfg (s.heap r).personality) :
    ((getCapacityAvailable cfg (s.heap r)).toNat : ℤ) = processorsLeft (s.heap r) := by
  have hload := (h.personality r).currentLoad
  have hprocessors := (h.personality r).numProcessors
  have hrunning := h.runningTasks r
  have hforeign := UInt64.toNat_clampedSub
    (x := (s.heap r).personality.currentLoad) (y := (s.heap r).runningTasks)
    (by omega) (by omega)
  rw [getCapacityAvailable_eq, if_neg hlow, UInt64.toNat_min,
    UInt64.toNat_clampedSub (by omega) (by omega), hforeign]
  unfold processorsLeft
  omega

theorem Narrow.apply (h : Narrow s) (hs : Consistent s) {op : Op} {reply : Reply}
    (hreports : ReportsNarrow s (op, reply)) (happly : s.apply cfg op = .ok (reply, t)) :
    Narrow t := by
  have ht := (hs.apply happly).counted
  have hfreed : ∀ {ids : List UInt64} {u : TaskDispatcher}, Freed ids s u → Counted u →
      Narrow u := by
    intro ids u hfreed hcu
    refine h.of_counted hs.counted hcu (fun r => by rw [hfreed.desc_eq r]) fun r => ?_
    exact AList.count_le_of_lookup _ hfreed.dropped
  cases effect_of_apply hs.counted happly with
  | notStarted => exact h
  | @granted personality expiresIn prefetching now now' pick free fresh =>
      have hroom := (room (room_of_mem_free free)).2.1
      rw [UInt64.lt_iff_toNat_lt] at hroom
      have hmax := (h.personality pick).maxTasks
      refine ⟨fun r => ?_, fun r => ?_⟩
      · simp only [grantTask, setDesc_heap]
        split
        · exact h.personality pick
        · exact h.personality r
      · simp only [grantTask, setDesc_heap]
        split
        · rw [UInt64.toNat_add]
          exact (Nat.mod_le _ _).trans_lt (by simp; omega)
        · exact h.runningTasks r
  | renewalRefused => exact h
  | renewed => exact ⟨h.personality, h.runningTasks⟩
  | freed frees counted => exact hfreed frees counted
  | @servantRenewed servant expiresIn now now' r found =>
      refine ⟨fun r' => ?_, fun r' => ?_⟩
      · simp only [renewServant, setDesc_heap]
        split
        · exact hreports
        · exact h.personality r'
      · simp only [renewServant, setDesc_heap]
        split
        · exact h.runningTasks r
        · exact h.runningTasks r'
  | @servantAdded servant expiresIn now now' unknown =>
      refine ⟨fun r => ?_, fun r => ?_⟩
      · simp only [addServant, setDesc_heap]
        split
        · exact hreports
        · exact h.personality r
      · simp only [addServant, setDesc_heap]
        split
        · exact Nat.two_pow_pos 32
        · exact h.runningTasks r
  | locationUnknown => exact h
  | reported servant u found ids frees counted swept =>
      have hu := hfreed frees counted
      exact ⟨hu.personality, hu.runningTasks⟩
  | @expired now u ids frees counted swept =>
      have hu : Narrow u := by
        refine h.of_counted hs.counted counted (fun r => by rw [frees.desc_eq r]; rfl) fun r => ?_
        exact AList.count_le_of_lookup _ frees.dropped
      exact ⟨hu.personality, hu.runningTasks⟩

theorem narrow_of_run {labels : List (Op × Reply)}
    (run : Run (Guarded (Step cfg) ReportsNarrow) empty labels s) : Consistent s ∧ Narrow s := by
  refine run.invariant (I := fun s => Consistent s ∧ Narrow s) (fun s label t h hstep => ?_)
    ⟨consistent_empty, ?_, ?_⟩
  · exact ⟨h.1.apply hstep.1, h.2.apply h.1 hstep.2 hstep.1⟩
  · exact fun r => ⟨Nat.two_pow_pos 32, Nat.two_pow_pos 32, Nat.two_pow_pos 32⟩
  · exact fun r => Nat.two_pow_pos 32

/-! ## The checks of the picking code -/

/-- What the picking code checks of every servant it is given. -/
structure Roomy (cfg : DispatcherConfig) (desc : ServantDesc) : Prop where
  below : desc.runningTasks < desc.personality.maxTasks
  capacity : getCapacityAvailable cfg desc ≠ 0

theorem Roomy.maxTasks {desc : ServantDesc} (h : Roomy cfg desc) :
    desc.personality.maxTasks ≠ 0 := by
  intro hzero
  have hbelow := h.below
  rw [hzero, UInt64.lt_iff_toNat_lt] at hbelow
  exact Nat.not_lt_zero _ hbelow

/-- The scan fails no check, and finds no servant only if none satisfies the predicate. -/
theorem unsafeTryPickServantFor_ok {pred : ServantDesc → Bool} {servants : List ServantPtr}
    (hroomy : ∀ r ∈ servants, Roomy cfg (s.heap r)) (best : Option (ServantPtr × ℚ)) :
    ∃ result, unsafeTryPickServantFor cfg s pred servants best = .ok result ∧
      (result = none → best = none ∧ ∀ r ∈ servants, pred (s.heap r) = false) := by
  induction servants generalizing best with
  | nil =>
      refine ⟨best.map Prod.fst, rfl, fun hnone => ⟨Option.map_eq_none_iff.mp hnone, ?_⟩⟩
      intro r hr
      exact absurd hr List.not_mem_nil
  | cons r rest ih =>
      have hr := hroomy r List.mem_cons_self
      have hrest := fun r' hr' => hroomy r' (List.mem_cons_of_mem r hr')
      have hbelow : ¬(s.heap r).personality.maxTasks ≤ (s.heap r).runningTasks := by
        have := hr.below
        rw [UInt64.lt_iff_toNat_lt] at this
        rw [UInt64.le_iff_toNat_le]
        omega
      unfold unsafeTryPickServantFor
      dsimp only
      rw [if_neg hbelow, if_neg hr.maxTasks, if_neg hr.capacity]
      cases hpred : pred (s.heap r) with
      | true =>
          have hfound : ∀ chosen, ∃ result,
              unsafeTryPickServantFor cfg s pred rest (some chosen) = .ok result ∧
              (result = none → best = none ∧ ∀ r' ∈ r :: rest, pred (s.heap r') = false) := by
            intro chosen
            obtain ⟨result, hresult, hnone⟩ := ih hrest (some chosen)
            exact ⟨result, hresult, fun h => absurd (hnone h).1 (Option.some_ne_none chosen)⟩
          rw [if_pos rfl]
          cases best with
          | none => exact hfound _
          | some candidate =>
              dsimp only
              split
              · exact hfound _
              · exact hfound _
      | false =>
          rw [if_neg Bool.false_ne_true]
          obtain ⟨result, hresult, hnone⟩ := ih hrest best
          refine ⟨result, hresult, fun h => ⟨(hnone h).1, fun r' hr' => ?_⟩⟩
          rcases List.mem_cons.mp hr' with rfl | hr'
          · exact hpred
          · exact (hnone h).2 r' hr'

/-- Given servants with room, the picking code fails no check. -/
theorem unsafePickServantFor_ok {servants : List ServantPtr} (hsome : servants ≠ [])
    (hroomy : ∀ r ∈ servants, Roomy cfg (s.heap r)) (requestor : String) :
    ∃ r, unsafePickServantFor cfg s servants requestor = .ok r := by
  have hothers : ∀ r ∈ servants.eraseP (fun r => isNetworkAddressEqual (s.locationOf r) requestor),
      Roomy cfg (s.heap r) := fun r hr => hroomy r (List.mem_of_mem_eraseP hr)
  obtain ⟨dedicated, hdedicated, -⟩ := unsafeTryPickServantFor_ok hothers none
  obtain ⟨available, havailable, hnone⟩ := unsafeTryPickServantFor_ok hothers none
  unfold unsafePickServantFor unsafeTryPickDedicatedServantFor unsafeTryPickAvailableServantFor
  dsimp only
  rw [hdedicated, ok_bind]
  cases dedicated with
  | some r => exact ⟨r, rfl⟩
  | none =>
      dsimp only
      rw [havailable, ok_bind]
      cases available with
      | some r => exact ⟨r, rfl⟩
      | none =>
          dsimp only
          cases hself : servants.find? fun r =>
              isNetworkAddressEqual (s.locationOf r) requestor with
          | none =>
              -- Without a servant to set aside the last scan would have found one.
              have hall : servants.eraseP (fun r =>
                  isNetworkAddressEqual (s.locationOf r) requestor) = servants :=
                List.eraseP_of_forall_not (List.find?_eq_none.mp hself)
              obtain ⟨r, hr⟩ := List.exists_mem_of_ne_nil servants hsome
              cases (hnone rfl).2 r (hall.symm ▸ hr)
          | some r =>
              dsimp only
              rw [if_neg (hroomy r (List.mem_of_find?_eq_some hself)).capacity]
              exact ⟨r, rfl⟩

/-- The only check that a look at the servants can fail is the one for a duplicate task ID. -/
theorem waitForStartingNewTask_checks {personality : TaskPersonality} {expiresIn : Time}
    {prefetching : Bool} {now now' : Time} {fault : DispatcherFault}
    (h : s.waitForStartingNewTask cfg personality expiresIn prefetching now now'
      = .error fault) : fault = .duplicateTaskId := by
  unfold waitForStartingNewTask at h
  dsimp only at h
  split_ifs at h with heligible hfree hknown
  · obtain ⟨pick, hpick⟩ := unsafePickServantFor_ok hfree
      (fun r hr => ⟨(room (room_of_mem_free hr)).2.1, (room (room_of_mem_free hr)).2.2⟩)
      personality.requestorIp
    rw [hpick] at h
    cases h
    rfl
  · obtain ⟨pick, hpick⟩ := unsafePickServantFor_ok hfree
      (fun r hr => ⟨(room (room_of_mem_free hr)).2.1, (room (room_of_mem_free hr)).2.2⟩)
      personality.requestorIp
    rw [hpick] at h
    cases h

/-- What the filters establish about an eligible servant. -/
theorem eligible_iff {personality : TaskPersonality} {r : ServantPtr} :
    r ∈ s.unsafeEnumerateEligibleServants personality ↔ r ∈ s.servants ∧
      (∃ env ∈ (s.heap r).personality.environments,
        env.compilerDigest = personality.envDesc.compilerDigest) ∧
      (s.heap r).personality.maxTasks ≠ 0 ∧
      personality.minVersion ≤ (s.heap r).personality.version.toUInt32 := by
  unfold unsafeEnumerateEligibleServants containsEnvironmentSlow
  rw [List.mem_filter]
  simp only [Bool.and_eq_true, List.any_eq_true, beq_iff_eq, bne_iff_ne, ne_eq,
    Bool.not_eq_true', decide_eq_false_iff_not, UInt32.not_lt, and_assoc]

/-- In every state reached with 32-bit reports the formula computes the capacity over the
integers, a task is granted only on a registered servant that offers the compiler, is recent
enough, accepts tasks, has memory and has capacity left, which is then not exceeded, and no
check of the picking code fails. Versions are unsigned numbers that are kept as signed ones. -/
theorem grants_within_capacity {labels : List (Op × Reply)}
    (run : Run (Guarded (Step cfg) ReportsNarrow) empty labels s) :
    (∀ r ∈ s.servants, ((getCapacityAvailable cfg (s.heap r)).toNat : ℤ)
      = if LowMemory cfg (s.heap r).personality then ((s.heap r).runningTasks.toNat : ℤ)
        else processorsLeft (s.heap r)) ∧
    (∀ personality expiresIn prefetching now now' allocation t,
      s.waitForStartingNewTask cfg personality expiresIn prefetching now now'
        = .ok (.allocated allocation, t) →
      ∃ r ∈ s.servants, allocation.servantLocation = s.locationOf r ∧
        (t.tasks.lookup allocation.taskId).map TaskDesc.belongingServant = some r ∧
        (∃ env ∈ (s.heap r).personality.environments,
          env.compilerDigest = personality.envDesc.compilerDigest) ∧
        personality.minVersion ≤ (s.heap r).personality.version.toUInt32 ∧
        0 < (s.heap r).personality.maxTasks ∧ ¬LowMemory cfg (s.heap r).personality ∧
        ((s.heap r).runningTasks.toNat : ℤ) < processorsLeft (s.heap r) ∧
        (t.heap r).runningTasks.toNat = (s.heap r).runningTasks.toNat + 1 ∧
        (t.heap r).runningTasks ≤ (t.heap r).personality.maxTasks) ∧
    ∀ personality expiresIn prefetching now now' fault,
      s.waitForStartingNewTask cfg personality expiresIn prefetching now now' = .error fault →
      fault = .duplicateTaskId := by
  obtain ⟨hs, hnarrow⟩ := narrow_of_run run
  refine ⟨fun r _ => ?_, ?_, ?_⟩
  · split
    · next hlow => rw [getCapacityAvailable_eq, if_pos hlow]
    · next hlow => exact hnarrow.capacity r hlow
  · intro personality expiresIn prefetching now now' allocation t h
    rcases waitForStartingNewTask_cases h with ⟨hno | hno, -⟩ | ⟨r, hfree, -, halloc, rfl⟩
    · cases hno
    · cases hno
    cases halloc
    obtain ⟨hmem, henv, hmax, hversion⟩ := eligible_iff.mp (List.mem_of_mem_filter hfree)
    have hroom := room_of_mem_free hfree
    obtain ⟨hlow, hbelow, -⟩ := room hroom
    have hcapacity := hnarrow.capacity r hlow
    rw [UInt64.lt_iff_toNat_lt] at hroom hbelow
    have hrunning := hnarrow.runningTasks r
    have hdesc : (s.grantTask r personality expiresIn prefetching now now').heap r
        = { s.heap r with
            runningTasks := (s.heap r).runningTasks + 1
            everAssignedTasks := (s.heap r).everAssignedTasks + 1 } := by
      simp [grantTask]
    have hnext : ((s.heap r).runningTasks + 1).toNat = (s.heap r).runningTasks.toNat + 1 := by
      rw [UInt64.toNat_add]
      exact Nat.mod_eq_of_lt (by simp; omega)
    refine ⟨r, hmem, rfl, ?_, henv, hversion, ?_, hlow, ?_, ?_, ?_⟩
    · rw [grantTask, AList.lookup_insert]
      rfl
    · exact UInt64.pos_iff_ne_zero.mpr hmax
    · omega
    · rw [hdesc]
      exact hnext
    · rw [hdesc, UInt64.le_iff_toNat_le]
      change ((s.heap r).runningTasks + 1).toNat ≤ (s.heap r).personality.maxTasks.toNat
      omega
  · intro personality expiresIn prefetching now now' fault h
    exact waitForStartingNewTask_checks h

/-- A servant with two processors registers. -/
def registerRun : List (Op × Reply) :=
  [(.keepServantAlive (sampleServant "10.0.0.1:1") 100 0 0, .done)]

theorem grants_within_capacity_registerRun :
    ∃ s t, follow (guardedNext (next sampleConfig) ReportsNarrow) registerRun empty = some s ∧
      s.waitForStartingNewTask sampleConfig sampleTask 5 false 0 0
        = .ok (.allocated ⟨0, "10.0.0.1:1"⟩, t) ∧
      ∃ r ∈ s.servants, s.locationOf r = "10.0.0.1:1" ∧
        ((s.heap r).runningTasks.toNat : ℤ) < processorsLeft (s.heap r) := by
  refine ⟨_, _, rfl, rfl, ?_⟩
  have run : Run (Guarded (Step sampleConfig) ReportsNarrow) empty registerRun _ :=
    Run.of_follow (guarded_of_guardedNext step_of_next) rfl
  have h := (grants_within_capacity run).2.1 sampleTask 5 false 0 0 _ _ rfl
  obtain ⟨r, hr, hlocation, -, -, -, -, -, hbelow, -⟩ := h
  exact ⟨r, hr, hlocation.symm, hbelow⟩

end TaskDispatcher

end Yadcc.Scheduler
