/-
# What every operation of the task dispatcher preserves

The two registries of the dispatcher stay consistent: the counter of a descriptor is
the number of grants that point at it, grants point at registered servants, and what is
bookkept belongs to a registered location. The counter is adjusted in one place per
direction, `grantTask` and `unsafeFreeTasks`, so each has one specification, and every
operation is analysed through it.
-/

import Yadcc.Lib.Checked
import Yadcc.Scheduler.TaskDispatcher

namespace Yadcc.Scheduler

open Yadcc.Lib

namespace TaskDispatcher

variable {cfg : DispatcherConfig} {s t : TaskDispatcher}

/-! ## Descriptors on the heap -/

@[simp]
theorem setDesc_heap (s : TaskDispatcher) (r r' : ServantPtr) (desc : ServantDesc) :
    (s.setDesc r desc).heap r' = if r' = r then desc else s.heap r' := by
  simp [setDesc, Function.update_apply]

@[simp]
theorem setDesc_servants (s : TaskDispatcher) (r : ServantPtr) (desc : ServantDesc) :
    (s.setDesc r desc).servants = s.servants := rfl

@[simp]
theorem setDesc_tasks (s : TaskDispatcher) (r : ServantPtr) (desc : ServantDesc) :
    (s.setDesc r desc).tasks = s.tasks := rfl

@[simp]
theorem setDesc_nextTaskId (s : TaskDispatcher) (r : ServantPtr) (desc : ServantDesc) :
    (s.setDesc r desc).nextTaskId = s.nextTaskId := rfl

@[simp]
theorem setDesc_nextPtr (s : TaskDispatcher) (r : ServantPtr) (desc : ServantDesc) :
    (s.setDesc r desc).nextPtr = s.nextPtr := rfl

@[simp]
theorem setDesc_runningTaskBookkeeper (s : TaskDispatcher) (r : ServantPtr)
    (desc : ServantDesc) :
    (s.setDesc r desc).runningTaskBookkeeper = s.runningTaskBookkeeper := rfl

theorem findServant_some {location : String} {r : ServantPtr}
    (h : s.findServant location = some r) : r ∈ s.servants ∧ s.locationOf r = location := by
  refine ⟨List.mem_of_find?_eq_some h, ?_⟩
  simpa using List.find?_some h

theorem findServant_none {location : String} (h : s.findServant location = none)
    {r : ServantPtr} (hr : r ∈ s.servants) : s.locationOf r ≠ location := by
  have := List.find?_eq_none.mp h r hr
  simpa using this

theorem permitted_iff {servant : ServantPtr} {taskId : UInt64} :
    s.permitted servant taskId = true ↔ ∃ task, s.tasks.lookup taskId = some task ∧
      task.belongingServant = servant ∧ task.zombie = false := by
  unfold permitted
  cases s.tasks.lookup taskId with
  | none => simp
  | some task => simp

/-! ## Freeing grants -/

/-- The counter of every descriptor, registered or not, is the number of its grants. -/
def Counted (s : TaskDispatcher) : Prop :=
  ∀ r, (s.heap r).runningTasks.toNat = s.tasksOn r

/-- What freeing the grants `ids` may change, and what it does when all of them are
known and listed once. -/
structure Freed (ids : List UInt64) (s t : TaskDispatcher) : Prop where
  servants_eq : t.servants = s.servants
  nextPtr_eq : t.nextPtr = s.nextPtr
  nextTaskId_eq : t.nextTaskId = s.nextTaskId
  bookkeeper_eq : t.runningTaskBookkeeper = s.runningTaskBookkeeper
  desc_eq : ∀ r, t.heap r = { s.heap r with runningTasks := (t.heap r).runningTasks }
  kept : ∀ k, k ∉ ids → t.tasks.lookup k = s.tasks.lookup k
  dropped : ∀ k task, t.tasks.lookup k = some task → s.tasks.lookup k = some task
  gone : ids.Nodup → (∀ k ∈ ids, (s.tasks.lookup k).isSome) →
    ∀ k ∈ ids, t.tasks.lookup k = none

theorem Freed.refl_of_unknown {ids : List UInt64}
    (h : ids = [] ∨ ∃ k ∈ ids, s.tasks.lookup k = none) : Freed ids s s where
  servants_eq := rfl
  nextPtr_eq := rfl
  nextTaskId_eq := rfl
  bookkeeper_eq := rfl
  desc_eq _ := rfl
  kept _ _ := rfl
  dropped _ _ hk := hk
  gone _ hknown k hk := by
    rcases h with rfl | ⟨k', hk', hnone⟩
    · cases hk
    · have := hknown k' hk'
      rw [hnone] at this
      cases this

/-- Freeing one known grant: its entry leaves the map and its servant counts one less. -/
theorem counted_erase {taskId : UInt64} {task : TaskDesc} (hs : Counted s)
    (htask : s.tasks.lookup taskId = some task) :
    (s.heap task.belongingServant).runningTasks ≠ 0 ∧
      Counted { s.setDesc task.belongingServant
        { s.heap task.belongingServant with
          runningTasks := (s.heap task.belongingServant).runningTasks - 1 } with
        tasks := s.tasks.erase taskId } := by
  have hcount := fun r => AList.count_erase_add
    (fun _ (other : TaskDesc) => other.belongingServant == r) htask
  have hown : 0 < (s.heap task.belongingServant).runningTasks.toNat := by
    rw [hs]
    have := hcount task.belongingServant
    simp only [beq_self_eq_true, if_true] at this
    change _ = s.tasksOn _ at this
    omega
  refine ⟨fun h0 => by simp [h0] at hown, fun r => ?_⟩
  have hr := hcount r
  have hsr := hs r
  change _ = s.tasksOn r at hr
  change _ = (s.tasks.erase taskId).count _
  by_cases h : r = task.belongingServant
  · subst h
    simp only [setDesc_heap, if_true]
    have hsub : ((s.heap task.belongingServant).runningTasks - 1).toNat
        = (s.heap task.belongingServant).runningTasks.toNat - 1 := by
      rw [UInt64.toNat_sub_of_le]
      · rfl
      · rw [UInt64.le_iff_toNat_le]
        exact hown
    simp only [beq_self_eq_true, if_true] at hr
    omega
  · have hne : (task.belongingServant == r) = false := by
      simpa using fun h' => h h'.symm
    simp only [setDesc_heap, if_neg h]
    rw [hne] at hr
    simp only [Bool.false_eq_true, if_false, add_zero] at hr
    omega

/-- Freeing never takes a counter below zero and keeps all counters right. -/
theorem unsafeFreeTasks_ok (ids : List UInt64) (hs : Counted s) :
    ∃ t, unsafeFreeTasks ids s = .ok t ∧ Freed ids s t ∧ Counted t := by
  induction ids generalizing s with
  | nil => exact ⟨s, rfl, .refl_of_unknown (.inl rfl), hs⟩
  | cons taskId rest ih =>
      cases htask : s.tasks.lookup taskId with
      | none =>
          exact ⟨s, by rw [unsafeFreeTasks, htask],
            .refl_of_unknown (.inr ⟨taskId, List.mem_cons_self, htask⟩), hs⟩
      | some task =>
          obtain ⟨hpos, hcounted⟩ := counted_erase hs htask
          obtain ⟨t, ht, hfreed, hct⟩ := ih hcounted
          refine ⟨t, ?_, ?_, hct⟩
          · rw [unsafeFreeTasks, htask]
            simp only [if_neg hpos]
            exact ht
          · refine ⟨hfreed.servants_eq, hfreed.nextPtr_eq, hfreed.nextTaskId_eq,
              hfreed.bookkeeper_eq, fun r => ?_, fun k hk => ?_, fun k other hk => ?_, ?_⟩
            · rw [hfreed.desc_eq r]
              simp only [setDesc_heap]
              split
              · next h => subst h; rfl
              · rfl
            · rw [hfreed.kept k fun h => hk (List.mem_cons_of_mem _ h)]
              exact AList.lookup_erase_ne fun h => hk (h ▸ List.mem_cons_self)
            · have hk' := hfreed.dropped k other hk
              simp only [AList.lookup_erase_eq] at hk'
              split at hk'
              · cases hk'
              · exact hk'
            · intro hnodup hknown k hk
              obtain ⟨hnot, hnodup⟩ := List.nodup_cons.mp hnodup
              rcases List.mem_cons.mp hk with rfl | hk
              · rw [hfreed.kept k hnot]
                exact AList.lookup_erase k s.tasks
              · refine hfreed.gone hnodup (fun k' hk' => ?_) k hk
                have hne : k' ≠ taskId := fun h => hnot (h ▸ hk')
                simp only [AList.lookup_erase_ne hne]
                exact hknown k' (List.mem_cons_of_mem _ hk')

theorem mem_sweeping {p : UInt64 → TaskDesc → Bool} {k : UInt64} :
    k ∈ s.sweeping p ↔ ∃ task, s.tasks.lookup k = some task ∧ p k task = true := by
  rw [sweeping, ← AList.mem_keys, ← AList.lookup_isSome, AList.lookup_filterEntries,
    Option.isSome_iff_exists]
  simp only [Option.filter_eq_some_iff]

/-- A sweep frees exactly the grants that satisfy its predicate. -/
theorem sweep_ok (p : UInt64 → TaskDesc → Bool) (hs : Counted s) :
    ∃ t, unsafeFreeTasks (s.sweeping p) s = .ok t ∧ Freed (s.sweeping p) s t ∧ Counted t ∧
      ∀ k, t.tasks.lookup k = (s.tasks.lookup k).filter fun task => !p k task := by
  obtain ⟨t, ht, hfreed, hct⟩ := unsafeFreeTasks_ok (s.sweeping p) hs
  refine ⟨t, ht, hfreed, hct, fun k => ?_⟩
  by_cases hk : k ∈ s.sweeping p
  · have hgone := hfreed.gone (AList.keys_nodup _)
      (fun k' hk' => by
        obtain ⟨task, htask, _⟩ := mem_sweeping.mp hk'
        rw [htask]
        rfl) k hk
    obtain ⟨task, htask, hp⟩ := mem_sweeping.mp hk
    rw [hgone, htask, Option.filter_some, hp]
    rfl
  · rw [hfreed.kept k hk]
    cases htask : s.tasks.lookup k with
    | none => rfl
    | some task =>
        have hp : p k task = false := by
          by_contra h
          exact hk (mem_sweeping.mpr ⟨task, htask, by simpa using h⟩)
        rw [Option.filter_some, hp]
        rfl

/-! ## Picking a servant -/

theorem unsafeTryPickServantFor_mem {pred : ServantDesc → Bool} {servants : List ServantPtr}
    {best : Option (ServantPtr × ℚ)} {r : ServantPtr}
    (h : unsafeTryPickServantFor cfg s pred servants best = .ok (some r)) :
    r ∈ servants ∨ best.map Prod.fst = some r := by
  induction servants generalizing best with
  | nil => exact .inr (by simpa [unsafeTryPickServantFor] using h)
  | cons r' rest ih =>
      have weaken : ∀ {best' : Option (ServantPtr × ℚ)},
          (best'.map Prod.fst = some r → r = r' ∨ best.map Prod.fst = some r) →
          unsafeTryPickServantFor cfg s pred rest best' = .ok (some r) →
          r ∈ r' :: rest ∨ best.map Prod.fst = some r := by
        intro best' hbest h'
        rcases ih h' with hmem | hsome
        · exact .inl (List.mem_cons_of_mem _ hmem)
        · rcases hbest hsome with rfl | hsome
          · exact .inl List.mem_cons_self
          · exact .inr hsome
      simp only [unsafeTryPickServantFor] at h
      split_ifs at h
      · cases best with
        | none => exact weaken (fun h' => .inl (by simpa using h'.symm)) h
        | some candidate =>
            simp only at h
            split_ifs at h
            · exact weaken (fun h' => .inl (by simpa using h'.symm)) h
            · exact weaken .inr h
      · exact weaken .inr h

/-- The assertions on a picked servant are the only ones the scan can fail. -/
theorem unsafeTryPickServantFor_error {pred : ServantDesc → Bool}
    {servants : List ServantPtr} {best : Option (ServantPtr × ℚ)} {fault : DispatcherFault}
    (h : unsafeTryPickServantFor cfg s pred servants best = .error fault) :
    fault ≠ .duplicateTaskId ∧ fault ≠ .runningTasksUnderflow := by
  induction servants generalizing best with
  | nil => cases h
  | cons r' rest ih =>
      simp only [unsafeTryPickServantFor] at h
      split_ifs at h
      · cases h; decide
      · cases h; decide
      · cases h; decide
      · cases best with
        | none => exact ih h
        | some candidate =>
            simp only at h
            split_ifs at h
            · exact ih h
            · exact ih h
      · exact ih h

theorem unsafePickServantFor_mem {servants : List ServantPtr} {requestor : String}
    {r : ServantPtr} (h : unsafePickServantFor cfg s servants requestor = .ok r) :
    r ∈ servants := by
  have herase : ∀ {r' : ServantPtr},
      r' ∈ servants.eraseP (fun r => isNetworkAddressEqual (s.locationOf r) requestor) →
      r' ∈ servants := List.mem_of_mem_eraseP
  simp only [unsafePickServantFor, bind_eq_ok] at h
  obtain ⟨dedicated, hdedicated, h⟩ := h
  cases dedicated with
  | some r' =>
      cases h
      exact herase ((unsafeTryPickServantFor_mem hdedicated).resolve_right (by simp))
  | none =>
      simp only [bind_eq_ok] at h
      obtain ⟨available, havailable, h⟩ := h
      cases available with
      | some r' =>
          cases h
          exact herase ((unsafeTryPickServantFor_mem havailable).resolve_right (by simp))
      | none =>
          simp only at h
          split at h
          · cases h
          · next r' hself =>
              split_ifs at h
              cases h
              exact List.mem_of_find?_eq_some hself

theorem unsafePickServantFor_error {servants : List ServantPtr} {requestor : String}
    {fault : DispatcherFault}
    (h : unsafePickServantFor cfg s servants requestor = .error fault) :
    fault ≠ .duplicateTaskId ∧ fault ≠ .runningTasksUnderflow := by
  simp only [unsafePickServantFor, bind_eq_error] at h
  rcases h with h | ⟨dedicated, -, h⟩
  · exact unsafeTryPickServantFor_error h
  cases dedicated with
  | some r' => cases h
  | none =>
      simp only [bind_eq_error] at h
      rcases h with h | ⟨available, -, h⟩
      · exact unsafeTryPickServantFor_error h
      cases available with
      | some r' => cases h
      | none =>
          simp only at h
          split at h
          · cases h; decide
          · split_ifs at h
            cases h
            decide

/-- All that a look at the servants can do: nothing, or one grant on a registered
servant that has room for it. -/
theorem waitForStartingNewTask_cases {personality : TaskPersonality} {expiresIn : Time}
    {prefetching : Bool} {now now' : Time} {result : StartAttempt}
    (h : s.waitForStartingNewTask cfg personality expiresIn prefetching now now'
      = .ok (result, t)) :
    ((result = .environmentNotFound ∨ result = .noServantFree) ∧ t = s) ∨
    ∃ pick, pick ∈ s.unsafeEnumerateFreeServants cfg
          (s.unsafeEnumerateEligibleServants personality) ∧
      s.tasks.lookup s.nextTaskId = none ∧
      result = .allocated ⟨s.nextTaskId, s.locationOf pick⟩ ∧
      t = s.grantTask pick personality expiresIn prefetching now now' := by
  simp only [waitForStartingNewTask] at h
  by_cases heligible : s.unsafeEnumerateEligibleServants personality = []
  · rw [if_pos heligible] at h
    cases h
    exact .inl ⟨.inl rfl, rfl⟩
  by_cases hfree : s.unsafeEnumerateFreeServants cfg
      (s.unsafeEnumerateEligibleServants personality) = []
  · rw [if_neg heligible, if_pos hfree] at h
    cases h
    exact .inl ⟨.inr rfl, rfl⟩
  rw [if_neg heligible, if_neg hfree, bind_eq_ok] at h
  obtain ⟨pick, hpick, h⟩ := h
  split_ifs at h with hknown
  cases h
  exact .inr ⟨pick, unsafePickServantFor_mem hpick, by simpa using hknown, rfl, rfl⟩

theorem waitForStartingNewTask_error {personality : TaskPersonality} {expiresIn : Time}
    {prefetching : Bool} {now now' : Time} {fault : DispatcherFault}
    (h : s.waitForStartingNewTask cfg personality expiresIn prefetching now now'
      = .error fault) : fault ≠ .runningTasksUnderflow ∧
      (s.tasks.lookup s.nextTaskId = none → fault ≠ .duplicateTaskId) := by
  simp only [waitForStartingNewTask] at h
  -- The duplicate check does not mention the pick, so it is split outside the bind.
  split_ifs at h with _ _ hknown
  · rcases bind_eq_error.mp h with h | ⟨pick, -, h⟩
    · obtain ⟨hduplicate, hunderflow⟩ := unsafePickServantFor_error h
      exact ⟨hunderflow, fun _ => hduplicate⟩
    · cases h
      refine ⟨by decide, fun hfresh => ?_⟩
      rw [hfresh] at hknown
      cases hknown
  · rcases bind_eq_error.mp h with h | ⟨pick, -, h⟩
    · obtain ⟨hduplicate, hunderflow⟩ := unsafePickServantFor_error h
      exact ⟨hunderflow, fun _ => hduplicate⟩
    · cases h

theorem mem_servants_of_mem_free {personality : TaskPersonality} {r : ServantPtr}
    (h : r ∈ s.unsafeEnumerateFreeServants cfg
      (s.unsafeEnumerateEligibleServants personality)) : r ∈ s.servants :=
  List.mem_of_mem_filter (List.mem_of_mem_filter h)

theorem room_of_mem_free {eligible : List ServantPtr} {r : ServantPtr}
    (h : r ∈ s.unsafeEnumerateFreeServants cfg eligible) :
    (s.heap r).runningTasks < getCapacityAvailable cfg (s.heap r) := by
  simpa using (List.mem_filter.mp h).2

/-! ## The invariant -/

/-- The two registries and the bookkeeper agree. -/
structure Consistent (s : TaskDispatcher) : Prop where
  counted : Counted s
  owned : ∀ k task, s.tasks.lookup k = some task → task.belongingServant ∈ s.servants
  located : (s.servants.map s.locationOf).Nodup
  allocated : ∀ r ∈ s.servants, r < s.nextPtr
  bookkept : ∀ location tasks,
    s.runningTaskBookkeeper.runningTasks.lookup location = some tasks →
    ∃ r ∈ s.servants, s.locationOf r = location

theorem consistent_empty : Consistent empty where
  counted r := by rfl
  owned k task h := by cases h
  located := List.nodup_nil
  allocated r h := by cases h
  bookkept location tasks h := by cases h

/-- A pointer that is not allocated yet is on no grant. -/
theorem Consistent.tasksOn_nextPtr (hs : Consistent s) : s.tasksOn s.nextPtr = 0 := by
  rw [tasksOn, AList.count, List.countP_eq_zero]
  intro entry hentry
  have hmem := hs.owned entry.1 entry.2 (AList.lookup_eq_some_iff.mpr hentry)
  have hlt := hs.allocated _ hmem
  simpa using hlt.ne

/-- Two registered servants at one location are the same. -/
theorem Consistent.eq_of_locationOf (hs : Consistent s) {r r' : ServantPtr}
    (hr : r ∈ s.servants) (hr' : r' ∈ s.servants) (h : s.locationOf r = s.locationOf r') :
    r = r' :=
  List.inj_on_of_nodup_map hs.located hr hr' h

theorem Consistent.findServant (hs : Consistent s) {r : ServantPtr} (hr : r ∈ s.servants) :
    s.findServant (s.locationOf r) = some r := by
  cases h : s.findServant (s.locationOf r) with
  | none => exact absurd rfl (findServant_none h hr)
  | some r' =>
      obtain ⟨hr', hloc⟩ := findServant_some h
      rw [hs.eq_of_locationOf hr' hr hloc]

/-! ## One lemma per operation -/

theorem grantTask_lookup {pick : ServantPtr} {personality : TaskPersonality} {expiresIn : Time}
    {prefetching : Bool} {now now' : Time} {k : UInt64} {task : TaskDesc}
    (h : (s.grantTask pick personality expiresIn prefetching now now').tasks.lookup k
      = some task) :
    (k = s.nextTaskId ∧ task.belongingServant = pick) ∨ s.tasks.lookup k = some task := by
  simp only [TaskDispatcher.grantTask, AList.lookup_insert_eq] at h
  split at h
  · next hk =>
      cases h
      exact .inl ⟨hk, rfl⟩
  · exact .inr h

/-- A grant moves no servant. -/
theorem grantTask_locationOf {pick : ServantPtr} {personality : TaskPersonality}
    {expiresIn : Time} {prefetching : Bool} {now now' : Time} (r : ServantPtr) :
    (s.grantTask pick personality expiresIn prefetching now now').locationOf r
      = s.locationOf r := by
  simp only [TaskDispatcher.grantTask, locationOf, setDesc_heap]
  split
  · next h => rw [h]
  · rfl

/-- A servant with capacity left counts one more grant without wrapping, since its
counter is below some 64-bit number. -/
theorem Consistent.grantTask (hs : Consistent s) {pick : ServantPtr} (hpick : pick ∈ s.servants)
    {capacity : UInt64} (hroom : (s.heap pick).runningTasks < capacity)
    (hfresh : s.tasks.lookup s.nextTaskId = none) (personality : TaskPersonality)
    (expiresIn : Time) (prefetching : Bool) (now now' : Time) :
    Consistent (s.grantTask pick personality expiresIn prefetching now now') := by
  have hloc : ∀ r, (s.grantTask pick personality expiresIn prefetching now now').locationOf r
      = s.locationOf r := grantTask_locationOf
  refine ⟨fun r => ?_, fun k task h => ?_, ?_, hs.allocated, ?_⟩
  · have hr := hs.counted r
    simp only [tasksOn] at hr
    simp only [TaskDispatcher.grantTask, tasksOn, AList.count_insert,
      AList.erase_of_lookup_none hfresh, setDesc_heap]
    by_cases h : r = pick
    · subst h
      have hlt := UInt64.lt_iff_toNat_lt.mp hroom
      have hmax := capacity.toNat_lt_size
      simp only [if_true, beq_self_eq_true]
      rw [← hr, UInt64.toNat_add]
      exact Nat.mod_eq_of_lt (by have : UInt64.size = 2 ^ 64 := rfl; simp; omega)
    · have hne : (pick == r) = false := by simpa using fun h' => h h'.symm
      rw [if_neg h, hne]
      exact hr
  · rcases grantTask_lookup h with ⟨-, hpick'⟩ | h
    · rw [hpick']
      exact hpick
    · exact hs.owned k task h
  · change (s.servants.map _).Nodup
    rw [List.map_congr_left fun r _ => hloc r]
    exact hs.located
  · intro location tasks h
    obtain ⟨r, hr, hrloc⟩ := hs.bookkept location tasks h
    exact ⟨r, hr, (hloc r).trans hrloc⟩

theorem Consistent.renewTask (hs : Consistent s) {taskId : UInt64} {task : TaskDesc}
    (htask : s.tasks.lookup taskId = some task) (expiresAt : Time) :
    Consistent (s.renewTask taskId task expiresAt) := by
  have hlookup : ∀ k other, (s.renewTask taskId task expiresAt).tasks.lookup k = some other →
      ∃ before, s.tasks.lookup k = some before ∧
        other.belongingServant = before.belongingServant := by
    intro k other h
    simp only [TaskDispatcher.renewTask, AList.lookup_insert_eq] at h
    split at h
    · next hk =>
        cases h
        exact ⟨task, hk ▸ htask, rfl⟩
    · exact ⟨other, h, rfl⟩
  refine ⟨fun r => ?_, fun k other h => ?_, hs.located, hs.allocated, hs.bookkept⟩
  · refine (hs.counted r).trans ?_
    simp only [TaskDispatcher.renewTask, tasksOn]
    rw [AList.count_insert, ← AList.count_erase_add _ htask]
  · obtain ⟨before, hbefore, heq⟩ := hlookup k other h
    rw [heq]
    exact hs.owned k before hbefore

theorem Freed.locationOf {ids : List UInt64} (h : Freed ids s t) (r : ServantPtr) :
    t.locationOf r = s.locationOf r := by
  unfold TaskDispatcher.locationOf
  rw [h.desc_eq r]

/-- Freeing grants keeps the registries consistent. -/
theorem Consistent.freed {ids : List UInt64} (hs : Consistent s) (h : Freed ids s t)
    (hct : Counted t) : Consistent t where
  counted := hct
  owned k task hk := by
    rw [h.servants_eq]
    exact hs.owned k task (h.dropped k task hk)
  located := by
    rw [h.servants_eq, List.map_congr_left fun r _ => h.locationOf r]
    exact hs.located
  allocated := by
    rw [h.servants_eq, h.nextPtr_eq]
    exact hs.allocated
  bookkept location tasks hb := by
    rw [h.bookkeeper_eq] at hb
    obtain ⟨r, hr, hloc⟩ := hs.bookkept location tasks hb
    exact ⟨r, h.servants_eq ▸ hr, (h.locationOf r).trans hloc⟩

/-- A renewal at the same location moves no servant. -/
theorem renewServant_locationOf {r : ServantPtr} {servant : ServantPersonality}
    (h : s.locationOf r = servant.observedLocation) (expiresAt : Time) (r' : ServantPtr) :
    (s.renewServant r servant expiresAt).locationOf r' = s.locationOf r' := by
  simp only [renewServant, locationOf, setDesc_heap]
  split
  · next heq =>
      rw [heq]
      exact h.symm
  · rfl

theorem Consistent.renewServant (hs : Consistent s) {r : ServantPtr}
    {servant : ServantPersonality} (h : s.locationOf r = servant.observedLocation)
    (expiresAt : Time) : Consistent (s.renewServant r servant expiresAt) := by
  have hloc := renewServant_locationOf h expiresAt
  refine ⟨fun r' => ?_, hs.owned, ?_, hs.allocated, fun location tasks hb => ?_⟩
  · have hr' := hs.counted r'
    simp only [TaskDispatcher.renewServant, setDesc_heap]
    split
    · next heq =>
        subst heq
        exact hr'
    · exact hr'
  · change (s.servants.map _).Nodup
    rw [List.map_congr_left fun r' _ => hloc r']
    exact hs.located
  · obtain ⟨r', hr', hr'loc⟩ := hs.bookkept location tasks hb
    exact ⟨r', hr', (hloc r').trans hr'loc⟩

theorem addServant_locationOf_new (s : TaskDispatcher) (servant : ServantPersonality)
    (discoveredAt expiresAt : Time) :
    (s.addServant servant discoveredAt expiresAt).locationOf s.nextPtr
      = servant.observedLocation := by
  simp [addServant, locationOf]

theorem Consistent.addServant_locationOf (hs : Consistent s) {r : ServantPtr}
    (hr : r ∈ s.servants) (servant : ServantPersonality) (discoveredAt expiresAt : Time) :
    (s.addServant servant discoveredAt expiresAt).locationOf r = s.locationOf r := by
  have hne : r ≠ s.nextPtr := (hs.allocated r hr).ne
  simp [addServant, locationOf, hne]

theorem Consistent.addServant (hs : Consistent s) {servant : ServantPersonality}
    (hfind : s.findServant servant.observedLocation = none) (discoveredAt expiresAt : Time) :
    Consistent (s.addServant servant discoveredAt expiresAt) := by
  have hold := fun r hr => hs.addServant_locationOf (r := r) hr servant discoveredAt expiresAt
  refine ⟨fun r => ?_, fun k task h => List.mem_append_left _ (hs.owned k task h), ?_,
    fun r hr => ?_, fun location tasks hb => ?_⟩
  · change _ = s.tasksOn r
    simp only [TaskDispatcher.addServant, setDesc_heap]
    split
    · next heq =>
        rw [heq, hs.tasksOn_nextPtr]
        rfl
    · exact hs.counted r
  · change ((s.servants ++ [s.nextPtr]).map _).Nodup
    rw [List.map_append, List.map_congr_left hold, List.map_singleton,
      addServant_locationOf_new, List.nodup_append]
    refine ⟨hs.located, List.nodup_singleton _, fun location hmem location' hmem' => ?_⟩
    obtain ⟨r, hr, rfl⟩ := List.mem_map.mp hmem
    rw [List.mem_singleton.mp hmem']
    exact findServant_none hfind hr
  · rcases List.mem_append.mp hr with hr | hr
    · exact Nat.lt_succ_of_lt (hs.allocated r hr)
    · rw [List.mem_singleton.mp hr]
      exact Nat.lt_succ_self _
  · obtain ⟨r, hr, hrloc⟩ := hs.bookkept location tasks hb
    exact ⟨r, List.mem_append_left _ hr, (hold r hr).trans hrloc⟩

theorem Consistent.keepServantAlive (hs : Consistent s) (servant : ServantPersonality)
    (expiresIn now now' : Time) :
    Consistent (s.keepServantAlive servant expiresIn now now') := by
  unfold TaskDispatcher.keepServantAlive
  cases hfind : s.findServant servant.observedLocation with
  | some r => exact hs.renewServant (findServant_some hfind).2 _
  | none => exact hs.addServant hfind _ _

/-- All that a report of running tasks can do: nothing at an unknown location, and at a
known one a sweep of that servant's unreported zombies and a new list of its tasks. -/
theorem notifyServantRunningTasks_ok (hs : Counted s) (location : String)
    (tasks : List RunningTask) :
    (s.findServant location = none ∧
      s.notifyServantRunningTasks location tasks = .ok (tasks.map (·.taskGrantId), s)) ∨
    ∃ servant u, s.findServant location = some servant ∧
      (∃ ids, Freed ids s u) ∧ Counted u ∧
      (∀ k, u.tasks.lookup k = (s.tasks.lookup k).filter fun task =>
        !(task.belongingServant == servant && task.zombie &&
          !(tasks.map (·.taskGrantId)).contains k)) ∧
      s.notifyServantRunningTasks location tasks =
        .ok ((tasks.map (·.taskGrantId)).filter fun taskId => !u.permitted servant taskId,
          u.setServantRunningTasks location
            (tasks.filter fun task => u.permitted servant task.taskGrantId)) := by
  unfold notifyServantRunningTasks
  cases hfind : s.findServant location with
  | none => exact .inl ⟨rfl, rfl⟩
  | some servant =>
      obtain ⟨u, hu, hfreed, hcu, hlookup⟩ := sweep_ok (fun taskId task =>
        task.belongingServant == servant && task.zombie &&
          !(tasks.map (·.taskGrantId)).contains taskId) hs
      refine .inr ⟨servant, u, rfl, ⟨_, hfreed⟩, hcu, hlookup, ?_⟩
      simp only [unsafeSweepZombiesOf, hu]
      rfl

theorem Consistent.setServantRunningTasks (hs : Consistent s) {location : String}
    {servant : ServantPtr} (hfind : s.findServant location = some servant)
    (tasks : List RunningTask) :
    Consistent (s.setServantRunningTasks location tasks) := by
  refine ⟨hs.counted, hs.owned, hs.located, hs.allocated, ?_⟩
  intro location' tasks' h
  simp only [TaskDispatcher.setServantRunningTasks, RunningTaskBookkeeper.setServantRunningTasks,
    AList.lookup_insert_eq] at h
  split at h
  · next heq =>
      obtain ⟨hmem, hloc⟩ := findServant_some hfind
      exact ⟨servant, hmem, hloc.trans heq.symm⟩
  · next hne =>
      rw [AList.lookup_erase_ne hne] at h
      exact hs.bookkept location' tasks' h

theorem Freed.findServant {ids : List UInt64} (h : Freed ids s t) (location : String) :
    t.findServant location = s.findServant location := by
  unfold TaskDispatcher.findServant
  rw [h.servants_eq]
  congr 1
  funext r
  rw [h.locationOf]

/-- Dropping servants from the bookkeeper leaves the entries of the other locations. -/
theorem dropServants_lookup (s : TaskDispatcher) (gone : List ServantPtr)
    (b : RunningTaskBookkeeper) (location : String) :
    (gone.foldl (fun b r => b.dropServant (s.locationOf r)) b).runningTasks.lookup location =
      if location ∈ gone.map s.locationOf then none else b.runningTasks.lookup location := by
  induction gone generalizing b with
  | nil => rfl
  | cons r gone ih =>
      rw [List.foldl_cons, ih]
      simp only [List.map_cons, List.mem_cons, RunningTaskBookkeeper.dropServant,
        AList.lookup_erase_eq]
      by_cases h : location = s.locationOf r
      · simp [h]
      · simp [h]

/-- The timer removes overdue servants with all their grants, and marks what remains. -/
theorem onExpirationTimer_ok (hs : Counted s) (now : Time) :
    ∃ u, (∃ ids, Freed ids (s.removeExpiredServants now) u) ∧ Counted u ∧
      (∀ k, u.tasks.lookup k = (s.tasks.lookup k).filter fun task =>
        (s.removeExpiredServants now).servants.contains task.belongingServant) ∧
      s.onExpirationTimer now = .ok (u.markZombies now) := by
  obtain ⟨u, hu, hfreed, hcu, hlookup⟩ := sweep_ok (s := s.removeExpiredServants now)
    (fun _ task => !(s.removeExpiredServants now).servants.contains task.belongingServant) hs
  refine ⟨u, ⟨_, hfreed⟩, hcu, fun k => ?_, ?_⟩
  · rw [hlookup]
    simp only [Bool.not_not]
    rfl
  · simp only [onExpirationTimer, unsafeSweepOrphans, hu]
    rfl

/-- Marking changes nothing but the mark. -/
theorem markZombies_lookup {now : Time} {k : UInt64} {task : TaskDesc}
    (h : (s.markZombies now).tasks.lookup k = some task) :
    ∃ before, s.tasks.lookup k = some before ∧
      task = { before with zombie := before.zombie || decide (before.expiresAt < now) } := by
  rw [markZombies, AList.lookup_mapValues, Option.map_eq_some_iff] at h
  obtain ⟨before, hbefore, rfl⟩ := h
  refine ⟨before, hbefore, ?_⟩
  split
  · next hexpired => simp [hexpired]
  · next hexpired => simp [hexpired]

theorem Consistent.markZombies (hs : Consistent s) (now : Time) :
    Consistent (s.markZombies now) := by
  refine ⟨fun r => ?_, fun k task hk => ?_, hs.located, hs.allocated, hs.bookkept⟩
  · refine (hs.counted r).trans ?_
    simp only [TaskDispatcher.markZombies, tasksOn, AList.count_mapValues]
    congr 1
    funext _ task
    split
    · rfl
    · rfl
  · obtain ⟨before, hbefore, rfl⟩ := markZombies_lookup hk
    exact hs.owned k before hbefore

theorem Consistent.expired (hs : Consistent s) {now : Time} {u : TaskDispatcher}
    {ids : List UInt64} (hfreed : Freed ids (s.removeExpiredServants now) u) (hcu : Counted u)
    (hlookup : ∀ k, u.tasks.lookup k = (s.tasks.lookup k).filter fun task =>
      (s.removeExpiredServants now).servants.contains task.belongingServant) :
    Consistent (u.markZombies now) := by
  have hservants : u.servants = s.servants.filter fun r => !s.servantExpired now r :=
    hfreed.servants_eq
  have hloc : ∀ r, u.locationOf r = s.locationOf r := hfreed.locationOf
  -- The registry lost servants, but the sweep took the grants and the drop the reports.
  refine Consistent.markZombies ⟨hcu, fun k task hk => ?_, ?_, fun r hr => ?_,
    fun location tasks hb => ?_⟩ now
  · rw [hlookup, Option.filter_eq_some_iff] at hk
    rw [hfreed.servants_eq]
    simpa using hk.2
  · rw [List.map_congr_left fun r _ => hloc r, hservants]
    exact hs.located.sublist (List.filter_sublist.map _)
  · rw [hservants] at hr
    rw [hfreed.nextPtr_eq]
    exact hs.allocated r (List.mem_of_mem_filter hr)
  · rw [hfreed.bookkeeper_eq] at hb
    simp only [removeExpiredServants, dropServants_lookup] at hb
    split_ifs at hb with hdropped
    obtain ⟨r, hr, hrloc⟩ := hs.bookkept location tasks hb
    refine ⟨r, ?_, (hloc r).trans hrloc⟩
    rw [hservants, List.mem_filter]
    refine ⟨hr, ?_⟩
    by_contra hexpired
    exact hdropped (List.mem_map.mpr
      ⟨r, List.mem_filter.mpr ⟨hr, by simpa using hexpired⟩, hrloc⟩)

/-! ## Steps and runs -/

/-- Everything a step can do, operation by operation. -/
inductive Effect (cfg : DispatcherConfig) (s : TaskDispatcher) :
    Op → Reply → TaskDispatcher → Prop
  | notStarted {personality expiresIn prefetching now now'} (result : StartAttempt)
      (noGrant : result = .environmentNotFound ∨ result = .noServantFree) :
      Effect cfg s (.waitForStartingNewTask personality expiresIn prefetching now now')
        (.attempt result) s
  | granted {personality expiresIn prefetching now now'} (pick : ServantPtr)
      (free : pick ∈ s.unsafeEnumerateFreeServants cfg
        (s.unsafeEnumerateEligibleServants personality))
      (fresh : s.tasks.lookup s.nextTaskId = none) :
      Effect cfg s (.waitForStartingNewTask personality expiresIn prefetching now now')
        (.attempt (.allocated ⟨s.nextTaskId, s.locationOf pick⟩))
        (s.grantTask pick personality expiresIn prefetching now now')
  | renewalRefused {taskId newExpiresIn now}
      (gone : ∀ task, s.tasks.lookup taskId = some task → task.zombie = true) :
      Effect cfg s (.keepTaskAlive taskId newExpiresIn now) (.kept false) s
  | renewed {taskId newExpiresIn now} (task : TaskDesc)
      (known : s.tasks.lookup taskId = some task) (alive : task.zombie = false) :
      Effect cfg s (.keepTaskAlive taskId newExpiresIn now) (.kept true)
        (s.renewTask taskId task (now + newExpiresIn))
  | freed {taskId t} (frees : Freed [taskId] s t) (counted : Counted t) :
      Effect cfg s (.freeTask taskId) .done t
  | servantRenewed {servant expiresIn now now'} (r : ServantPtr)
      (found : s.findServant servant.observedLocation = some r) :
      Effect cfg s (.keepServantAlive servant expiresIn now now') .done
        (s.renewServant r servant (now' + expiresIn))
  | servantAdded {servant expiresIn now now'}
      (unknown : s.findServant servant.observedLocation = none) :
      Effect cfg s (.keepServantAlive servant expiresIn now now') .done
        (s.addServant servant now (now' + expiresIn))
  | locationUnknown {location} {tasks : List RunningTask}
      (unknown : s.findServant location = none) :
      Effect cfg s (.notifyServantRunningTasks location tasks)
        (.unknownTasks (tasks.map (·.taskGrantId))) s
  | reported {location} {tasks : List RunningTask} (servant : ServantPtr) (u : TaskDispatcher)
      (found : s.findServant location = some servant) (ids : List UInt64)
      (frees : Freed ids s u) (counted : Counted u)
      (swept : ∀ k, u.tasks.lookup k = (s.tasks.lookup k).filter fun task =>
        !(task.belongingServant == servant && task.zombie &&
          !(tasks.map (·.taskGrantId)).contains k)) :
      Effect cfg s (.notifyServantRunningTasks location tasks)
        (.unknownTasks ((tasks.map (·.taskGrantId)).filter fun k => !u.permitted servant k))
        (u.setServantRunningTasks location
          (tasks.filter fun task => u.permitted servant task.taskGrantId))
  | expired {now} (u : TaskDispatcher) (ids : List UInt64)
      (frees : Freed ids (s.removeExpiredServants now) u) (counted : Counted u)
      (swept : ∀ k, u.tasks.lookup k = (s.tasks.lookup k).filter fun task =>
        (s.removeExpiredServants now).servants.contains task.belongingServant) :
      Effect cfg s (.onExpirationTimer now) .done (u.markZombies now)

theorem effect_of_apply (hs : Counted s) {op : Op} {reply : Reply}
    (h : s.apply cfg op = .ok (reply, t)) : Effect cfg s op reply t := by
  cases op with
  | waitForStartingNewTask personality expiresIn prefetching now now' =>
      obtain ⟨⟨result, u⟩, hwait, h⟩ := bind_eq_ok.mp h
      cases h
      rcases waitForStartingNewTask_cases hwait with ⟨hno, rfl⟩ | ⟨pick, hpick, hfresh, rfl, rfl⟩
      · exact .notStarted result hno
      · exact .granted pick hpick hfresh
  | keepTaskAlive taskId newExpiresIn now =>
      simp only [apply, keepTaskAlive] at h
      cases htask : s.tasks.lookup taskId with
      | none =>
          rw [htask] at h
          cases h
          exact .renewalRefused fun task h => by rw [htask] at h; cases h
      | some task =>
          simp only [htask] at h
          split at h
          · next hzombie =>
              cases h
              exact .renewalRefused fun other h => by rw [htask] at h; cases h; exact hzombie
          · next hzombie =>
              cases h
              exact .renewed task htask (by simpa using hzombie)
  | freeTask taskId =>
      obtain ⟨u, hu, hfreed, hcu⟩ := unsafeFreeTasks_ok [taskId] hs
      simp only [apply, freeTask, hu] at h
      cases h
      exact .freed hfreed hcu
  | keepServantAlive servant expiresIn now now' =>
      simp only [apply, keepServantAlive] at h
      cases hfind : s.findServant servant.observedLocation with
      | some r =>
          rw [hfind] at h
          cases h
          exact .servantRenewed r hfind
      | none =>
          rw [hfind] at h
          cases h
          exact .servantAdded hfind
  | notifyServantRunningTasks location tasks =>
      rcases notifyServantRunningTasks_ok hs location tasks with
        ⟨hfind, hok⟩ | ⟨servant, u, hfind, ⟨ids, hfreed⟩, hcu, hswept, hok⟩
      · simp only [apply, hok] at h
        cases h
        exact .locationUnknown hfind
      · simp only [apply, hok] at h
        cases h
        exact .reported servant u hfind ids hfreed hcu hswept
  | onExpirationTimer now =>
      obtain ⟨u, ⟨ids, hfreed⟩, hcu, hswept, hok⟩ := onExpirationTimer_ok hs now
      simp only [apply, hok] at h
      cases h
      exact .expired u ids hfreed hcu hswept

theorem Consistent.apply (hs : Consistent s) {op : Op} {reply : Reply}
    (h : s.apply cfg op = .ok (reply, t)) : Consistent t := by
  cases effect_of_apply hs.counted h with
  | notStarted => exact hs
  | granted pick free fresh =>
      exact hs.grantTask (mem_servants_of_mem_free free) (room_of_mem_free free) fresh ..
  | renewalRefused => exact hs
  | renewed task known => exact hs.renewTask known _
  | freed frees counted => exact hs.freed frees counted
  | servantRenewed r found => exact hs.renewServant (findServant_some found).2 _
  | servantAdded unknown => exact hs.addServant unknown _ _
  | locationUnknown => exact hs
  | reported servant u found ids frees counted =>
      exact (hs.freed frees counted).setServantRunningTasks
        ((frees.findServant _).trans found) _
  | expired u ids frees counted swept => exact hs.expired frees counted swept

theorem consistent_of_run {labels : List (Op × Reply)}
    (run : Run (Step cfg) empty labels s) : Consistent s :=
  run.invariant (fun _ _ _ hs h => hs.apply h) consistent_empty

/-! ## Grant numbers -/

/-- Every grant has a number that was handed out before. -/
def Numbered (s : TaskDispatcher) : Prop :=
  ∀ k task, s.tasks.lookup k = some task → k < s.nextTaskId

theorem Numbered.fresh (hs : Numbered s) : s.tasks.lookup s.nextTaskId = none := by
  cases h : s.tasks.lookup s.nextTaskId with
  | none => rfl
  | some task => exact absurd (hs _ _ h) (UInt64.lt_irrefl _)

/-- Only a grant takes a number. -/
theorem nextTaskId_apply (hs : Counted s) {op : Op} {reply : Reply}
    (h : s.apply cfg op = .ok (reply, t)) :
    t.nextTaskId = if reply.isGrant then s.nextTaskId + 1 else s.nextTaskId := by
  cases effect_of_apply hs h with
  | notStarted result noGrant =>
      rcases noGrant with rfl | rfl
      · rfl
      · rfl
  | granted => rfl
  | renewalRefused => rfl
  | renewed => rfl
  | freed frees => exact frees.nextTaskId_eq
  | servantRenewed => rfl
  | servantAdded => rfl
  | locationUnknown => rfl
  | reported servant u found ids frees => exact frees.nextTaskId_eq
  | expired u ids frees => exact frees.nextTaskId_eq

/-- Only a grant files an entry under a new key. -/
theorem lookup_apply (hs : Counted s) {op : Op} {reply : Reply}
    (h : s.apply cfg op = .ok (reply, t)) {k : UInt64} (hk : (t.tasks.lookup k).isSome) :
    (reply.isGrant = true ∧ k = s.nextTaskId) ∨ (s.tasks.lookup k).isSome := by
  obtain ⟨task, htask⟩ := Option.isSome_iff_exists.mp hk
  have hold : ∀ {before : TaskDesc}, s.tasks.lookup k = some before →
      (reply.isGrant = true ∧ k = s.nextTaskId) ∨ (s.tasks.lookup k).isSome := by
    intro before hbefore
    exact .inr (by rw [hbefore]; rfl)
  cases effect_of_apply hs h with
  | notStarted => exact hold htask
  | granted =>
      rcases grantTask_lookup htask with ⟨rfl, -⟩ | htask
      · exact .inl ⟨rfl, rfl⟩
      · exact hold htask
  | renewalRefused => exact hold htask
  | renewed task' known =>
      simp only [TaskDispatcher.renewTask, AList.lookup_insert_eq] at htask
      split at htask
      · next heq =>
          subst heq
          exact hold known
      · exact hold htask
  | freed frees => exact hold (frees.dropped k task htask)
  | servantRenewed => exact hold htask
  | servantAdded => exact hold htask
  | locationUnknown => exact hold htask
  | reported servant u found ids frees => exact hold (frees.dropped k task htask)
  | expired u ids frees =>
      obtain ⟨before, hbefore, -⟩ := markZombies_lookup htask
      exact hold (frees.dropped k before hbefore)

theorem Numbered.apply (hs : Numbered s) (hcounted : Counted s) {op : Op} {reply : Reply}
    (hroom : reply.isGrant = true → s.nextTaskId.toNat + 1 < UInt64.size)
    (h : s.apply cfg op = .ok (reply, t)) : Numbered t := by
  intro k task htask
  have hnext := nextTaskId_apply hcounted h
  have hk := lookup_apply hcounted h (k := k) (by rw [htask]; rfl)
  have hbefore : ∀ before, s.tasks.lookup k = some before → k.toNat < s.nextTaskId.toNat :=
    fun before hb => UInt64.lt_iff_toNat_lt.mp (hs k before hb)
  rw [hnext]
  cases hgrant : reply.isGrant with
  | true =>
      have hsucc : (s.nextTaskId + 1).toNat = s.nextTaskId.toNat + 1 := by
        rw [UInt64.toNat_add]
        exact Nat.mod_eq_of_lt (hroom hgrant)
      rw [if_pos rfl, UInt64.lt_iff_toNat_lt, hsucc]
      rcases hk with ⟨-, rfl⟩ | hk
      · omega
      · obtain ⟨before, hb⟩ := Option.isSome_iff_exists.mp hk
        have := hbefore before hb
        omega
  | false =>
      rw [hgrant] at hk
      rcases hk with ⟨hfalse, -⟩ | hk
      · cases hfalse
      · obtain ⟨before, hb⟩ := Option.isSome_iff_exists.mp hk
        exact hs k before hb

theorem grants_append (labels labels' : List (Op × Reply)) :
    grants (labels ++ labels') = grants labels + grants labels' :=
  List.countP_append

/-- In a run that hands out fewer than `2 ^ 64` grants, the next number is the number of
grants so far, and every grant has a smaller one. -/
theorem numbered_of_run {labels : List (Op × Reply)} (run : Run (Step cfg) empty labels s)
    (hgrants : grants labels < 2 ^ 64) :
    Numbered s ∧ s.nextTaskId.toNat = grants labels := by
  refine (Run.invariant_labels
    (I := fun labels s => Consistent s ∧ (grants labels < 2 ^ 64 →
      Numbered s ∧ s.nextTaskId.toNat = grants labels)) ?_ ?_ run).2 hgrants
  · exact ⟨consistent_empty, fun _ => ⟨fun k task h => (by cases h), rfl⟩⟩
  · rintro labels s ⟨op, reply⟩ t ⟨hs, ih⟩ hstep
    refine ⟨hs.apply hstep, fun hlt => ?_⟩
    rw [grants_append] at hlt
    obtain ⟨hnumbered, hnext⟩ := ih (by omega)
    have hnext' := nextTaskId_apply hs.counted hstep
    have hsize : UInt64.size = 2 ^ 64 := rfl
    cases hgrant : reply.isGrant with
    | true =>
        have hone : grants [(op, reply)] = 1 := by simp [grants, hgrant]
        refine ⟨hnumbered.apply hs.counted (by omega) hstep, ?_⟩
        rw [hnext', if_pos hgrant, grants_append, hone, UInt64.toNat_add, hnext]
        exact Nat.mod_eq_of_lt (by rw [hone] at hlt; exact hlt)
    | false =>
        have hzero : grants [(op, reply)] = 0 := by simp [grants, hgrant]
        refine ⟨hnumbered.apply hs.counted (fun h => by rw [hgrant] at h; cases h) hstep, ?_⟩
        rw [hnext', hgrant, grants_append, hzero, add_zero]
        exact hnext

/-! ## Faults -/

/-- A consistent state never decrements a zero counter. -/
theorem Consistent.apply_error (hs : Consistent s) {op : Op} {fault : DispatcherFault}
    (h : s.apply cfg op = .error fault) : fault ≠ .runningTasksUnderflow ∧
      (s.tasks.lookup s.nextTaskId = none → fault ≠ .duplicateTaskId) := by
  cases op with
  | waitForStartingNewTask personality expiresIn prefetching now now' =>
      rcases bind_eq_error.mp h with h | ⟨_, -, h⟩
      · exact waitForStartingNewTask_error h
      · cases h
  | keepTaskAlive taskId newExpiresIn now => cases h
  | freeTask taskId =>
      obtain ⟨u, hu, -⟩ := unsafeFreeTasks_ok [taskId] hs.counted
      simp only [TaskDispatcher.apply, freeTask, hu] at h
      cases h
  | keepServantAlive servant expiresIn now now' => cases h
  | notifyServantRunningTasks location tasks =>
      rcases notifyServantRunningTasks_ok hs.counted location tasks with
        ⟨-, hok⟩ | ⟨servant, v, -, -, -, -, hok⟩
      · simp only [TaskDispatcher.apply, hok] at h
        cases h
      · simp only [TaskDispatcher.apply, hok] at h
        cases h
  | onExpirationTimer now =>
      obtain ⟨u, -, -, -, hok⟩ := onExpirationTimer_ok hs.counted now
      simp only [TaskDispatcher.apply, hok] at h
      cases h

/-! ## Every reachable state -/

/-- The counters, the ownership of grants, the locations, the numbers and the bookkept
locations are right in every reachable state, and no operation from there fails the
duplicate check or takes a counter below zero. -/
theorem registries_agree {labels : List (Op × Reply)} (run : Run (Step cfg) empty labels s) :
    (∀ r ∈ s.servants, (s.heap r).runningTasks.toNat = s.tasksOn r) ∧
    (∀ k task, s.tasks.lookup k = some task → task.belongingServant ∈ s.servants) ∧
    (s.servants.map s.locationOf).Nodup ∧
    (∀ op, s.apply cfg op ≠ .error .runningTasksUnderflow) ∧
    (grants labels < 2 ^ 64 →
      (∀ k task, s.tasks.lookup k = some task → k < s.nextTaskId) ∧
      ∀ op, s.apply cfg op ≠ .error .duplicateTaskId) ∧
    ∀ location tasks, s.runningTaskBookkeeper.runningTasks.lookup location = some tasks →
      ∃ r ∈ s.servants, s.locationOf r = location := by
  have hs := consistent_of_run run
  refine ⟨fun r _ => hs.counted r, hs.owned, hs.located, ?_, ?_, hs.bookkept⟩
  · intro op h
    exact (hs.apply_error h).1 rfl
  · intro hgrants
    have hnumbered := (numbered_of_run run hgrants).1
    refine ⟨hnumbered, ?_⟩
    intro op h
    exact (hs.apply_error h).2 hnumbered.fresh rfl

/-- A servant with two processors, seen at the given address and reporting the same. -/
def sampleServant (location : String) : ServantPersonality where
  version := 0
  observedLocation := location
  reportedLocation := location
  environments := [⟨"gcc-8"⟩]
  numProcessors := 2
  currentLoad := 0
  totalMemoryInBytes := 0
  memoryAvailableInBytes := 0
  maxTasks := 2
  priority := .user
  notAcceptingTaskReason := .unknown

/-- A request for the environment of `sampleServant`. -/
def sampleTask : TaskPersonality where
  requestorIp := "10.0.0.9"
  minVersion := 0
  envDesc := ⟨"gcc-8"⟩

/-- No memory bound, and every utilization the same. -/
def sampleConfig : DispatcherConfig where
  minMemoryForNewTask := 0
  utilization _ _ := 0

/-- A servant registers, gets a grant at time 0 that expires at time 5, and the timer of
time 9 finds the grant overdue but not the servant. -/
def zombieRun : List (Op × Reply) :=
  [(.keepServantAlive (sampleServant "10.0.0.1:1") 100 0 0, .done),
    (.waitForStartingNewTask sampleTask 5 false 0 0,
      .attempt (.allocated ⟨0, "10.0.0.1:1"⟩)),
    (.onExpirationTimer 9, .done)]

theorem registries_agree_zombieRun :
    ∃ s, follow (next sampleConfig) zombieRun empty = some s ∧
      (s.heap 0).runningTasks.toNat = s.tasksOn 0 ∧ s.tasksOn 0 = 1 ∧
      ∀ op, s.apply sampleConfig op ≠ .error .duplicateTaskId := by
  refine ⟨_, rfl, ?_⟩
  have run : Run (Step sampleConfig) empty zombieRun _ := Run.of_follow step_of_next rfl
  have h := registries_agree run
  exact ⟨h.1 0 (by decide), by decide, (h.2.2.2.2.1 (by decide)).2⟩

end TaskDispatcher

end Yadcc.Scheduler
