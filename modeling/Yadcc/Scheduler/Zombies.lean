/-
# Zombies keep their slot

An overdue grant is not forgotten: the compilation behind it may still run. The
dispatcher marks it a zombie, and the grant goes on occupying its servant until the
client frees it, the servant stops reporting it, or the servant itself is removed. This
module follows one zombie through a run.
-/

import Yadcc.Scheduler.TaskDispatcherInvariant

namespace Yadcc.Scheduler

open Yadcc.Lib

namespace TaskDispatcher

variable {cfg : DispatcherConfig} {s t : TaskDispatcher}

/-! ## What a step does to one entry -/

/-- Where a registered servant was seen never changes. -/
theorem locationOf_apply (hs : Consistent s) {op : Op} {reply : Reply}
    (h : s.apply cfg op = .ok (reply, t)) {r : ServantPtr} (hr : r ∈ s.servants) :
    t.locationOf r = s.locationOf r := by
  cases effect_of_apply hs.counted h with
  | notStarted => rfl
  | granted pick =>
      simp only [grantTask, locationOf, setDesc_heap]
      split
      · next heq => rw [heq]
      · rfl
  | renewalRefused => rfl
  | renewed => rfl
  | freed frees => exact frees.locationOf r
  | servantRenewed r' found => exact renewServant_locationOf (findServant_some found).2 _ r
  | servantAdded => exact hs.addServant_locationOf hr ..
  | locationUnknown => rfl
  | reported servant u found ids frees => exact frees.locationOf r
  | expired u ids frees => exact frees.locationOf r

/-- The operations that give up the slot of a grant: its own release, a report from its
servant's location that leaves it out, and the removal of its servant. -/
def releases (s : TaskDispatcher) (taskId : UInt64) (task : TaskDesc) : Op → Prop
  | .freeTask freed => freed = taskId
  | .notifyServantRunningTasks location tasks =>
      location = s.locationOf task.belongingServant ∧ taskId ∉ tasks.map (·.taskGrantId)
  | .onExpirationTimer now => s.servantExpired now task.belongingServant = true
  | _ => False

/-- One step leaves the entry of a zombie exactly as it is, or releases it. -/
theorem zombie_step (hs : Consistent s) {op : Op} {reply : Reply}
    (h : s.apply cfg op = .ok (reply, t)) {taskId : UInt64} {task : TaskDesc}
    (htask : s.tasks.lookup taskId = some task) (hzombie : task.zombie = true) :
    t.tasks.lookup taskId = some task ∨ s.releases taskId task op := by
  cases effect_of_apply hs.counted h with
  | notStarted => exact .inl htask
  | granted pick free fresh =>
      have hne : taskId ≠ s.nextTaskId := by
        intro heq
        rw [heq, fresh] at htask
        cases htask
      exact .inl ((AList.lookup_insert_ne hne).trans htask)
  | renewalRefused => exact .inl htask
  | @renewed renewedId _ _ other known alive =>
      have hne : taskId ≠ renewedId := by
        intro heq
        rw [heq, known] at htask
        cases htask
        rw [hzombie] at alive
        cases alive
      exact .inl ((AList.lookup_insert_ne hne).trans htask)
  | @freed freedId _ frees =>
      by_cases heq : freedId = taskId
      · exact .inr heq
      · exact .inl ((frees.kept taskId (by simpa using Ne.symm heq)).trans htask)
  | servantRenewed => exact .inl htask
  | servantAdded => exact .inl htask
  | locationUnknown => exact .inl htask
  | @reported location tasks servant u found ids frees counted swept =>
      by_cases hrelease : s.releases taskId task (.notifyServantRunningTasks location tasks)
      · exact .inr hrelease
      · -- Another servant's report, or one that lists the grant: the sweep passes it by.
        left
        change u.tasks.lookup taskId = some task
        rw [swept, htask, Option.filter_some, if_pos]
        simp only [releases, not_and, not_not] at hrelease
        by_cases hown : task.belongingServant = servant
        · have hlisted := hrelease (by rw [hown]; exact (findServant_some found).2.symm)
          simp [hlisted]
        · simp [hown]
  | @expired now u ids frees counted swept =>
      by_cases hexpired : s.servantExpired now task.belongingServant = true
      · exact .inr hexpired
      · left
        have hkept : u.tasks.lookup taskId = some task := by
          rw [swept, htask, Option.filter_some, if_pos]
          simp only [removeExpiredServants, List.contains_eq_mem, List.mem_filter,
            decide_eq_true_eq]
          exact ⟨hs.owned taskId task htask, by simpa using hexpired⟩
        change (AList.mapValues _ u.tasks).lookup taskId = some task
        rw [AList.lookup_mapValues, hkept, Option.map_some, Option.some.injEq]
        split
        · rw [← hzombie]
        · rfl

/-- A releasing operation does release a zombie. -/
theorem zombie_released (hs : Consistent s) {op : Op} {reply : Reply}
    (h : s.apply cfg op = .ok (reply, t)) {taskId : UInt64} {task : TaskDesc}
    (htask : s.tasks.lookup taskId = some task) (hzombie : task.zombie = true)
    (hrelease : s.releases taskId task op) : t.tasks.lookup taskId = none := by
  cases effect_of_apply hs.counted h with
  | notStarted => cases hrelease
  | granted => cases hrelease
  | renewalRefused => cases hrelease
  | renewed => cases hrelease
  | freed frees =>
      cases hrelease
      exact frees.gone (List.nodup_singleton _) (by simp [htask]) _ List.mem_cons_self
  | servantRenewed => cases hrelease
  | servantAdded => cases hrelease
  | locationUnknown unknown =>
      exact absurd hrelease.1.symm (findServant_none unknown (hs.owned taskId task htask))
  | reported servant u found ids frees counted swept =>
      obtain ⟨hlocation, hunlisted⟩ := hrelease
      have hown : task.belongingServant = servant := by
        obtain ⟨hmem, hloc⟩ := findServant_some found
        exact hs.eq_of_locationOf (hs.owned taskId task htask) hmem
          (hlocation.symm.trans hloc.symm)
      change u.tasks.lookup taskId = none
      rw [swept, htask, Option.filter_some, if_neg]
      simpa [hown, hzombie] using hunlisted
  | @expired now u ids frees counted swept =>
      have hexpired : s.servantExpired now task.belongingServant = true := hrelease
      have hgone : u.tasks.lookup taskId = none := by
        rw [swept, htask, Option.filter_some, if_neg]
        simp [removeExpiredServants, hexpired]
      change (AList.mapValues _ u.tasks).lookup taskId = none
      rw [AList.lookup_mapValues, hgone]
      rfl

/-- A report of running tasks never releases a grant that is not a zombie. -/
theorem alive_kept_by_report (hs : Counted s) {location : String} {tasks : List RunningTask}
    {reply : Reply}
    (h : s.apply cfg (.notifyServantRunningTasks location tasks) = .ok (reply, t))
    {taskId : UInt64} {task : TaskDesc} (htask : s.tasks.lookup taskId = some task)
    (halive : task.zombie = false) : t.tasks.lookup taskId = some task := by
  cases effect_of_apply hs h with
  | locationUnknown => exact htask
  | reported servant u found ids frees counted swept =>
      change u.tasks.lookup taskId = some task
      rw [swept, htask, Option.filter_some, if_pos]
      simp [halive]

/-! ## A zombie along a run -/

/-- A grant occupies its servant: the entry is there, its servant is registered at
`location`, and the servant's counter includes it. -/
structure Occupies (s : TaskDispatcher) (taskId : UInt64) (task : TaskDesc)
    (location : String) : Prop where
  filed : s.tasks.lookup taskId = some task
  registered : task.belongingServant ∈ s.servants
  located : s.locationOf task.belongingServant = location
  exact_count : (s.heap task.belongingServant).runningTasks.toNat = s.tasksOn task.belongingServant
  counted : 0 < (s.heap task.belongingServant).runningTasks.toNat

theorem Consistent.occupies (hs : Consistent s) {taskId : UInt64} {task : TaskDesc}
    (htask : s.tasks.lookup taskId = some task) :
    Occupies s taskId task (s.locationOf task.belongingServant) where
  filed := htask
  registered := hs.owned taskId task htask
  located := rfl
  exact_count := hs.counted _
  counted := by
    rw [hs.counted]
    exact AList.count_pos htask (by simp)

/-- The renewal of a zombie is refused and changes nothing. -/
theorem keepTaskAlive_zombie {taskId : UInt64} {task : TaskDesc}
    (htask : s.tasks.lookup taskId = some task) (hzombie : task.zombie = true)
    (newExpiresIn now : Time) : s.keepTaskAlive taskId newExpiresIn now = (false, s) := by
  simp [keepTaskAlive, htask, hzombie]

/-- The grant is filed as it was, on a servant that is still at the location. -/
structure Filed (taskId : UInt64) (task : TaskDesc) (location : String) (s : TaskDispatcher) :
    Prop where
  consistent : Consistent s
  filed : s.tasks.lookup taskId = some task
  located : s.locationOf task.belongingServant = location

theorem Filed.occupies {taskId : UInt64} {task : TaskDesc} {location : String}
    (h : Filed taskId task location s) : Occupies s taskId task location := by
  rw [← h.located]
  exact h.consistent.occupies h.filed

theorem Filed.step {taskId : UInt64} {task : TaskDesc} {location : String} {label : Op × Reply}
    (h : Filed taskId task location s) (hstep : Step cfg s label t)
    (hzombie : task.zombie = true) :
    Filed taskId task location t ∨ s.releases taskId task label.1 := by
  rcases zombie_step h.consistent hstep h.filed hzombie with hkept | hrelease
  · have howned := h.consistent.owned taskId task h.filed
    refine .inl ⟨h.consistent.apply hstep, hkept, ?_⟩
    exact (locationOf_apply h.consistent hstep howned).trans h.located
  · exact .inr hrelease

/-- Once a grant is a zombie, it stays the same zombie on the same servant, counted and
not renewable, until the first operation that releases it, and that operation removes it.
A report of running tasks releases zombies only. -/
theorem zombie_until_released {labels : List (Op × Reply)}
    (reached : Run (Step cfg) empty labels s) {taskId : UInt64} {task : TaskDesc}
    (htask : s.tasks.lookup taskId = some task) :
    (task.zombie = true → ∀ {later : List (Op × Reply)} {t : TaskDispatcher},
      Run (Step cfg) s later t →
      (Occupies t taskId task (s.locationOf task.belongingServant) ∧
        ∀ newExpiresIn now, t.keepTaskAlive taskId newExpiresIn now = (false, t)) ∨
      ∃ before op reply after u, later = before ++ (op, reply) :: after ∧
        Run (Step cfg) s before u ∧
        Occupies u taskId task (s.locationOf task.belongingServant) ∧
        u.releases taskId task op ∧
        ∀ v, Step cfg u (op, reply) v → v.tasks.lookup taskId = none) ∧
    (task.zombie = false → ∀ location tasks reply t,
      Step cfg s (.notifyServantRunningTasks location tasks, reply) t →
      Occupies t taskId task (s.locationOf task.belongingServant)) := by
  have hs := consistent_of_run reached
  constructor
  · intro hzombie later t run
    -- The entry itself persists; everything else follows from it in a consistent state.
    have hfiled : Filed taskId task (s.locationOf task.belongingServant) s := ⟨hs, htask, rfl⟩
    have hstep : ∀ u label v, Filed taskId task (s.locationOf task.belongingServant) u →
        Step cfg u label v → Filed taskId task (s.locationOf task.belongingServant) v ∨
          u.releases taskId task label.1 := fun u label v hu h => hu.step h hzombie
    rcases Run.persists_or_release hstep run hfiled with
      ht | ⟨before, ⟨op, reply⟩, after, u, hsplit, hrun, hu, hrelease⟩
    · exact .inl ⟨ht.occupies, keepTaskAlive_zombie ht.filed hzombie⟩
    · refine .inr ⟨before, op, reply, after, u, hsplit, hrun, hu.occupies, hrelease, ?_⟩
      intro v hv
      exact zombie_released hu.consistent hv hu.filed hzombie hrelease
  · intro halive location tasks reply t h
    have hkept := alive_kept_by_report hs.counted h htask halive
    have hloc := locationOf_apply hs h (hs.owned taskId task htask)
    rw [← hloc]
    exact (hs.apply h).occupies hkept

/-- The state at the end of `zombieRun`. -/
def zombieState : TaskDispatcher :=
  (follow (next sampleConfig) zombieRun empty).getD empty

/-- The grant of `zombieRun`, as its timer leaves it. -/
def zombieTask : TaskDesc where
  taskId := 0
  personality := sampleTask
  belongingServant := 0
  startedAt := 0
  expiresAt := 5
  isPrefetch := false
  zombie := true

/-- The zombie of `zombieRun` still occupies its servant after a refused renewal. -/
theorem zombie_until_released_zombieRun :
    Step sampleConfig zombieState (.keepTaskAlive 0 50 9, .kept false) zombieState ∧
      Occupies zombieState 0 zombieTask "10.0.0.1:1" := by
  have reached : Run (Step sampleConfig) empty zombieRun zombieState :=
    Run.of_follow step_of_next rfl
  have hrefused : Step sampleConfig zombieState (.keepTaskAlive 0 50 9, .kept false)
      zombieState := step_of_next _ _ _ rfl
  have hfiled : zombieState.tasks.lookup 0 = some zombieTask := rfl
  refine ⟨hrefused, ?_⟩
  rcases (zombie_until_released reached hfiled).1 rfl (.cons hrefused (.nil _)) with
    ⟨hoccupies, -⟩ | ⟨before, op, reply, after, u, hsplit, -, -, hrelease, -⟩
  · exact hoccupies
  · cases before with
    | nil =>
        cases hsplit
        cases hrelease
    | cons label before => simp at hsplit

end TaskDispatcher

end Yadcc.Scheduler
