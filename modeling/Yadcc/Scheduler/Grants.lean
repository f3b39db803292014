/-
# Grants that a servant may run under

A servant may run a task as long as the scheduler knows the grant, has not made it a
zombie, and has it on the servant registered at that location. An operation takes this
back from one grant in few ways, and gives it to no grant but a new one.
-/

import Yadcc.Scheduler.TaskDispatcherInvariant

namespace Yadcc.Scheduler

open Yadcc.Lib

namespace TaskDispatcher

variable {cfg : DispatcherConfig} {s t : TaskDispatcher} {location : String} {grantId : UInt64}

/-- Whether a grant is live, and not a zombie, on the servant seen at a location. -/
def liveAt (d : TaskDispatcher) (location : String) (taskId : UInt64) : Bool :=
  match d.findServant location with
  | none => false
  | some servant => d.permitted servant taskId

theorem liveAt_of_findServant {location : String} {servant : ServantPtr}
    (h : s.findServant location = some servant) (taskId : UInt64) :
    s.liveAt location taskId = s.permitted servant taskId := by
  rw [liveAt, h]

/-- An operation takes a grant back: it is freed, or it or its servant is overdue. -/
def revokes (s : TaskDispatcher) (location : String) (grantId : UInt64) : Op → Bool
  | .freeTask taskId => taskId == grantId
  | .onExpirationTimer now => (s.findServant location).any (s.servantExpired now) ||
      (s.tasks.lookup grantId).any fun task => decide (task.expiresAt < now)
  | _ => false

/-- A grant on a registered servant that is not a zombie. -/
structure LiveOn (s : TaskDispatcher) (location : String) (grantId : UInt64)
    (servant : ServantPtr) (task : TaskDesc) : Prop where
  registered : servant ∈ s.servants
  located : s.locationOf servant = location
  known : s.tasks.lookup grantId = some task
  belongs : task.belongingServant = servant
  alive : task.zombie = false

theorem liveAt_iff (hs : Consistent s) : s.liveAt location grantId = true ↔
    ∃ servant task, LiveOn s location grantId servant task := by
  constructor
  · intro h
    unfold liveAt at h
    split at h
    · cases h
    · next servant hfind =>
        obtain ⟨hmem, hloc⟩ := findServant_some hfind
        obtain ⟨task, hknown, hbelongs, halive⟩ := permitted_iff.mp h
        exact ⟨servant, task, hmem, hloc, hknown, hbelongs, halive⟩
  · rintro ⟨servant, task, hmem, rfl, hknown, hbelongs, halive⟩
    rw [liveAt_of_findServant (hs.findServant hmem)]
    exact permitted_iff.mpr ⟨task, hknown, hbelongs, halive⟩

/-- A grant stays live until an operation takes it back. -/
theorem liveAt_of_apply (hs : Consistent s) {op : Op} {reply : Reply}
    (h : s.apply cfg op = .ok (reply, t)) (hkept : s.revokes location grantId op = false)
    (hlive : s.liveAt location grantId = true) : t.liveAt location grantId = true := by
  rw [liveAt_iff (hs.apply h)]
  obtain ⟨servant, task, hmem, hloc, hknown, hbelongs, halive⟩ := (liveAt_iff hs).mp hlive
  cases effect_of_apply hs.counted h with
  | notStarted => exact ⟨servant, task, hmem, hloc, hknown, hbelongs, halive⟩
  | @granted personality expiresIn prefetching now now' pick free fresh =>
      have hne : grantId ≠ s.nextTaskId := by
        rintro rfl
        cases fresh.symm.trans hknown
      exact ⟨servant, task, hmem, (grantTask_locationOf servant).trans hloc,
        (AList.lookup_insert_ne hne).trans hknown, hbelongs, halive⟩
  | renewalRefused => exact ⟨servant, task, hmem, hloc, hknown, hbelongs, halive⟩
  | @renewed taskId newExpiresIn now other known alive =>
      by_cases hid : grantId = taskId
      · subst hid
        cases known.symm.trans hknown
        exact ⟨servant, _, hmem, hloc, AList.lookup_insert _, hbelongs, halive⟩
      · exact ⟨servant, task, hmem, hloc, (AList.lookup_insert_ne hid).trans hknown, hbelongs,
          halive⟩
  | @freed taskId t frees counted =>
      have hne : grantId ∉ [taskId] := by
        rw [List.mem_singleton]
        exact Ne.symm (by simpa [revokes] using hkept)
      exact ⟨servant, task, frees.servants_eq ▸ hmem, (frees.locationOf servant).trans hloc,
        (frees.kept grantId hne).trans hknown, hbelongs, halive⟩
  | servantRenewed r found =>
      exact ⟨servant, task, hmem,
        (renewServant_locationOf (findServant_some found).2 _ servant).trans hloc, hknown, hbelongs,
        halive⟩
  | servantAdded unknown =>
      exact ⟨servant, task, List.mem_append_left _ hmem,
        (hs.addServant_locationOf hmem _ _ _).trans hloc, hknown, hbelongs, halive⟩
  | locationUnknown => exact ⟨servant, task, hmem, hloc, hknown, hbelongs, halive⟩
  | reported other u found ids frees counted swept =>
      refine ⟨servant, task, frees.servants_eq ▸ hmem, (frees.locationOf servant).trans hloc, ?_,
        hbelongs, halive⟩
      change u.tasks.lookup grantId = some task
      rw [swept, hknown, Option.filter_some, halive]
      simp
  | @expired now u ids frees counted swept =>
      unfold revokes at hkept
      rw [Bool.or_eq_false_iff, hknown] at hkept
      obtain ⟨hservant, htask⟩ := hkept
      have hfind := hs.findServant hmem
      rw [hloc] at hfind
      rw [hfind] at hservant
      have hstays : servant ∈ (s.removeExpiredServants now).servants :=
        List.mem_filter.mpr ⟨hmem, by simpa using hservant⟩
      refine ⟨servant, task, frees.servants_eq ▸ hstays, (frees.locationOf servant).trans hloc, ?_,
        hbelongs, halive⟩
      have hu : u.tasks.lookup grantId = some task := by
        rw [swept, hknown, Option.filter_some, hbelongs, List.contains_iff_mem.mpr hstays]
        rfl
      unfold markZombies
      rw [AList.lookup_mapValues, hu, Option.map_some, if_neg (by simpa using htask)]

/-- Only a new grant becomes live. -/
theorem liveAt_before (hs : Consistent s) {op : Op} {reply : Reply}
    (h : s.apply cfg op = .ok (reply, t)) (hlive : t.liveAt location grantId = true) :
    s.liveAt location grantId = true ∨ (reply.isGrant = true ∧ grantId = s.nextTaskId) := by
  rw [liveAt_iff hs]
  obtain ⟨servant, task, hmem, hloc, hknown, hbelongs, halive⟩ :=
    (liveAt_iff (hs.apply h)).mp hlive
  cases effect_of_apply hs.counted h with
  | notStarted => exact .inl ⟨servant, task, hmem, hloc, hknown, hbelongs, halive⟩
  | @granted personality expiresIn prefetching now now' pick free fresh =>
      rcases grantTask_lookup hknown with ⟨rfl, -⟩ | hknown
      · exact .inr ⟨rfl, rfl⟩
      · exact .inl ⟨servant, task, hmem, (grantTask_locationOf servant).symm.trans hloc, hknown,
          hbelongs, halive⟩
  | renewalRefused => exact .inl ⟨servant, task, hmem, hloc, hknown, hbelongs, halive⟩
  | @renewed taskId newExpiresIn now other known alive =>
      rw [TaskDispatcher.renewTask, AList.lookup_insert_eq] at hknown
      split at hknown
      · next hid =>
          subst hid
          cases hknown
          exact .inl ⟨servant, other, hmem, hloc, known, hbelongs, alive⟩
      · exact .inl ⟨servant, task, hmem, hloc, hknown, hbelongs, halive⟩
  | freed frees counted =>
      exact .inl ⟨servant, task, frees.servants_eq ▸ hmem,
        (frees.locationOf servant).symm.trans hloc, frees.dropped _ _ hknown, hbelongs, halive⟩
  | servantRenewed r found =>
      exact .inl ⟨servant, task, hmem,
        (renewServant_locationOf (findServant_some found).2 _ servant).symm.trans hloc, hknown,
        hbelongs, halive⟩
  | servantAdded unknown =>
      -- The new servant has no grants, which point at registered servants only.
      have hold : servant ∈ s.servants := hbelongs ▸ hs.owned grantId task hknown
      exact .inl ⟨servant, task, hold, (hs.addServant_locationOf hold _ _ _).symm.trans hloc,
        hknown, hbelongs, halive⟩
  | locationUnknown => exact .inl ⟨servant, task, hmem, hloc, hknown, hbelongs, halive⟩
  | reported other u found ids frees counted swept =>
      exact .inl ⟨servant, task, frees.servants_eq ▸ hmem,
        (frees.locationOf servant).symm.trans hloc, frees.dropped _ _ hknown, hbelongs, halive⟩
  | @expired now u ids frees counted swept =>
      obtain ⟨before, hbefore, rfl⟩ := markZombies_lookup hknown
      have hmem' : servant ∈ (s.removeExpiredServants now).servants := frees.servants_eq ▸ hmem
      exact .inl ⟨servant, before, List.mem_of_mem_filter hmem',
        (frees.locationOf servant).symm.trans hloc, frees.dropped _ _ hbefore, hbelongs,
        (Bool.or_eq_false_iff.mp halive).1⟩

/-- What a report is answered with is not live. -/
theorem not_liveAt_of_unknown (hs : Consistent s) {tasks : List RunningTask}
    {taskIds : List UInt64}
    (h : s.apply cfg (.notifyServantRunningTasks location tasks) = .ok (.unknownTasks taskIds, t))
    (hmem : grantId ∈ taskIds) : t.liveAt location grantId = false := by
  cases effect_of_apply hs.counted h with
  | locationUnknown unknown =>
      unfold liveAt
      rw [unknown]
  | reported servant u found ids frees counted swept =>
      have hfind : (u.setServantRunningTasks location (tasks.filter fun task =>
          u.permitted servant task.taskGrantId)).findServant location = some servant :=
        (frees.findServant location).trans found
      rw [liveAt_of_findServant hfind]
      have hpermitted := (List.mem_filter.mp hmem).2
      simpa [permitted, setServantRunningTasks] using hpermitted

end TaskDispatcher

end Yadcc.Scheduler
