/-
# Which servant a heartbeat is about

A heartbeat makes two dispatcher calls. The first names the servant by its observed
address; the second by the location string of the request, as the peer wrote it. Both
are about the same servant when the two strings are equal. When they are not, the second
call acts on whatever servant the string names, and this module determines exactly when
that makes no difference.
-/

import Yadcc.Scheduler.SchedulerService
import Yadcc.Scheduler.Grants

namespace Yadcc.Scheduler

open Yadcc.Lib

namespace TaskDispatcher

variable {d d' : TaskDispatcher}

/-- What is bookkept as running at a location. -/
def bookkeptAt (d : TaskDispatcher) (location : String) : List RunningTask :=
  (d.runningTaskBookkeeper.runningTasks.lookup location).getD []

/-- A grant is on one servant only. -/
theorem permitted_unique {servant servant' : ServantPtr} {taskId : UInt64}
    (h : d.permitted servant taskId = true) (h' : d.permitted servant' taskId = true) :
    servant = servant' := by
  obtain ⟨task, htask, rfl, -⟩ := permitted_iff.mp h
  obtain ⟨task', htask', rfl, -⟩ := permitted_iff.mp h'
  rw [htask] at htask'
  cases htask'
  rfl

/-- Nothing is bookkept where no servant is registered. -/
theorem Consistent.bookkeptAt_eq_nil (hd : Consistent d) {location : String}
    (h : d.findServant location = none) : d.bookkeptAt location = [] := by
  unfold bookkeptAt
  cases hlookup : d.runningTaskBookkeeper.runningTasks.lookup location with
  | none => rfl
  | some tasks =>
      obtain ⟨r, hr, hloc⟩ := hd.bookkept location tasks hlookup
      exact absurd hloc (findServant_none h hr)

/-- A change from `d` to `d'` is about the servant at `observed` alone: no other servant
was added, and the records, grants and bookkept tasks of all others are as they were. -/
structure ConfinedTo (observed : String) (d d' : TaskDispatcher) : Prop where
  registered : ∃ servant, d'.findServant observed = some servant
  servants : ∀ r ∈ d'.servants, r ∈ d.servants ∨ d'.locationOf r = observed
  records : ∀ r ∈ d.servants, d.locationOf r ≠ observed → r ∈ d'.servants ∧ d'.heap r = d.heap r
  grants : ∀ k task, d.tasks.lookup k = some task → d.locationOf task.belongingServant ≠ observed →
    d'.tasks.lookup k = some task
  bookkept : ∀ location, location ≠ observed → d'.bookkeptAt location = d.bookkeptAt location

/-- What the second call would have to find at a foreign location for a heartbeat from
`observed` to have no effect there and to answer as if it had asked about `observed`. -/
structure Harmless (d : TaskDispatcher) (observed location : String)
    (reported : List UInt64) : Prop where
  not_live_here : ∀ k ∈ reported, d.liveAt observed k = false
  not_live_there : ∀ k ∈ reported, d.liveAt location k = false
  zombies_reported : ∀ k task, d.tasks.lookup k = some task → task.zombie = true →
    d.locationOf task.belongingServant = location → k ∈ reported
  nothing_bookkept : d.bookkeptAt location = []

/-! ## The first call -/

section KeepServantAlive

variable {servant : ServantPersonality} {expiresIn now now' : Time}

/-- Registering or renewing a servant touches its record only. -/
theorem keepServantAlive_confined (hd : Consistent d) :
    ConfinedTo servant.observedLocation d (d.keepServantAlive servant expiresIn now now') := by
  have hd' := hd.keepServantAlive servant expiresIn now now'
  unfold keepServantAlive at hd' ⊢
  cases hfind : d.findServant servant.observedLocation with
  | some r =>
      obtain ⟨hr, hloc⟩ := findServant_some hfind
      have hlocation := renewServant_locationOf hloc (now' + expiresIn)
      simp only [hfind] at hd' ⊢
      refine ⟨⟨r, ?_⟩, fun r' hr' => .inl hr', fun r' hr' hne => ⟨hr', ?_⟩, fun k task h _ => h,
        fun location _ => rfl⟩
      · rw [← hloc, ← hlocation r]
        exact hd'.findServant hr
      · have hne' : r' ≠ r := by
          rintro rfl
          exact hne hloc
        simp [renewServant, hne']
  | none =>
      simp only [hfind] at hd' ⊢
      have hnew := addServant_locationOf_new d servant now (now' + expiresIn)
      refine ⟨⟨d.nextPtr, ?_⟩, fun r hr => ?_, fun r hr _ => ⟨List.mem_append_left _ hr, ?_⟩,
        fun k task h _ => h, fun location _ => rfl⟩
      · rw [← hnew]
        exact hd'.findServant (List.mem_append_right _ (List.mem_singleton_self _))
      · rcases List.mem_append.mp hr with hr | hr
        · exact .inl hr
        · rw [List.mem_singleton.mp hr]
          exact .inr hnew
      · have hne : r ≠ d.nextPtr := (hd.allocated r hr).ne
        simp [addServant, hne]

theorem keepServantAlive_tasks :
    (d.keepServantAlive servant expiresIn now now').tasks = d.tasks := by
  unfold keepServantAlive
  split
  · rfl
  · rfl

/-- Nobody moves. -/
theorem Consistent.keepServantAlive_locationOf (hd : Consistent d) {r : ServantPtr}
    (hr : r ∈ d.servants) (servant : ServantPersonality) (expiresIn now now' : Time) :
    (d.keepServantAlive servant expiresIn now now').locationOf r = d.locationOf r := by
  unfold TaskDispatcher.keepServantAlive
  cases hfind : d.findServant servant.observedLocation with
  | some r' => exact renewServant_locationOf (findServant_some hfind).2 _ r
  | none => exact hd.addServant_locationOf hr ..

/-- The first call registers nobody at a foreign location. -/
theorem keepServantAlive_findServant (hd : Consistent d) {location : String}
    (h : location ≠ servant.observedLocation) :
    (d.keepServantAlive servant expiresIn now now').findServant location
      = d.findServant location := by
  have hd' := hd.keepServantAlive servant expiresIn now now'
  have hconfined : ConfinedTo servant.observedLocation d
      (d.keepServantAlive servant expiresIn now now') := keepServantAlive_confined hd
  have hsame := fun r hr => hd.keepServantAlive_locationOf (r := r) hr servant expiresIn now now'
  cases hfind : d.findServant location with
  | some r =>
      obtain ⟨hr, hloc⟩ := findServant_some hfind
      obtain ⟨hr', -⟩ := hconfined.records r hr (by rw [hloc]; exact h)
      rw [← hloc, ← hsame r hr]
      exact hd'.findServant hr'
  | none =>
      cases hfind' : (d.keepServantAlive servant expiresIn now now').findServant location with
      | none => rfl
      | some r =>
          obtain ⟨hr', hloc'⟩ := findServant_some hfind'
          rcases hconfined.servants r hr' with hr | hobserved
          · exact absurd ((hsame r hr).symm.trans hloc') (findServant_none hfind hr)
          · exact absurd (hloc'.symm.trans hobserved) h

/-- The grants that are live at a location are the same after the first call. A servant
that it registers has none. -/
theorem keepServantAlive_liveAt (hd : Consistent d) (location : String) (taskId : UInt64) :
    (d.keepServantAlive servant expiresIn now now').liveAt location taskId
      = d.liveAt location taskId := by
  have hpermitted : ∀ r, (d.keepServantAlive servant expiresIn now now').permitted r taskId
      = d.permitted r taskId := by
    intro r
    unfold permitted
    rw [keepServantAlive_tasks]
  by_cases h : location = servant.observedLocation
  · subst h
    unfold liveAt keepServantAlive
    cases hfind : d.findServant servant.observedLocation with
    | some r =>
        obtain ⟨hr, hloc⟩ := findServant_some hfind
        have hlocation := renewServant_locationOf hloc (now' + expiresIn)
        have hfind' := (hd.renewServant hloc (now' + expiresIn)).findServant hr
        rw [hlocation r, hloc] at hfind'
        simp only [hfind']
        rfl
    | none =>
        have hnew := addServant_locationOf_new d servant now (now' + expiresIn)
        have hfind' := (hd.addServant hfind now (now' + expiresIn)).findServant
          (List.mem_append_right _ (List.mem_singleton_self d.nextPtr))
        rw [hnew] at hfind'
        simp only [hfind']
        by_contra hlive
        obtain ⟨task, htask, hnext, -⟩ := permitted_iff.mp (by simpa using hlive)
        have hlt := hd.allocated _ (hd.owned taskId task htask)
        rw [hnext] at hlt
        exact lt_irrefl _ hlt
  · unfold liveAt
    rw [keepServantAlive_findServant hd h]
    cases d.findServant location with
    | none => rfl
    | some r => exact hpermitted r

end KeepServantAlive

/-! ## The second call -/

/-- The call at the location of a registered servant: what it answers, and what it changes
in the grants, the records and the bookkeeper. -/
structure Reported (d d' : TaskDispatcher) (servant : ServantPtr) (location : String)
    (tasks : List RunningTask) (unknownTasks : List UInt64) : Prop where
  servants_eq : d'.servants = d.servants
  locationOf_eq : ∀ r, d'.locationOf r = d.locationOf r
  records : ∀ r, (∀ k task, d.tasks.lookup k = some task → task.belongingServant = r →
    d'.tasks.lookup k = some task) → d'.heap r = d.heap r
  swept : ∀ k, d'.tasks.lookup k = (d.tasks.lookup k).filter fun task =>
    !(task.belongingServant == servant && task.zombie &&
      !(tasks.map (·.taskGrantId)).contains k)
  unknown_eq : unknownTasks = (tasks.map (·.taskGrantId)).filter fun k => !d.permitted servant k
  bookkept : ∀ location', d'.bookkeptAt location' =
    if location' = location then tasks.filter fun task => d.permitted servant task.taskGrantId
    else d.bookkeptAt location'

theorem Reported.findServant {servant : ServantPtr} {location : String}
    {tasks : List RunningTask} {unknownTasks : List UInt64}
    (h : Reported d d' servant location tasks unknownTasks) (location' : String) :
    d'.findServant location' = d.findServant location' := by
  unfold TaskDispatcher.findServant
  rw [h.servants_eq]
  congr 1
  funext r
  rw [h.locationOf_eq]

/-- A grant that is elsewhere, alive, or reported stays. -/
theorem Reported.kept {servant : ServantPtr} {location : String} {tasks : List RunningTask}
    {unknownTasks : List UInt64} (h : Reported d d' servant location tasks unknownTasks)
    {k : UInt64} {task : TaskDesc} (hk : d.tasks.lookup k = some task)
    (hspared : task.belongingServant = servant → task.zombie = true →
      k ∈ tasks.map (·.taskGrantId)) : d'.tasks.lookup k = some task := by
  rw [h.swept, hk, Option.filter_some, if_pos]
  by_cases hown : task.belongingServant = servant
  · by_cases hzombie : task.zombie = true
    · simp [hspared hown hzombie]
    · simp [hzombie]
  · simp [hown]

/-- A sweep of zombies leaves the live grants. -/
theorem permitted_of_swept {u : TaskDispatcher} {servant : ServantPtr}
    {p : UInt64 → TaskDesc → Bool} (hp : ∀ k task, p k task = true → task.zombie = true)
    (hswept : ∀ k, u.tasks.lookup k = (d.tasks.lookup k).filter fun task => !p k task)
    (taskId : UInt64) : u.permitted servant taskId = d.permitted servant taskId := by
  rw [Bool.eq_iff_iff, permitted_iff, permitted_iff]
  constructor
  · rintro ⟨task, htask, hown, halive⟩
    rw [hswept, Option.filter_eq_some_iff] at htask
    exact ⟨task, htask.1, hown, halive⟩
  · rintro ⟨task, htask, hown, halive⟩
    refine ⟨task, ?_, hown, halive⟩
    rw [hswept, Option.filter_eq_some_iff]
    refine ⟨htask, ?_⟩
    by_contra h
    have hzombie := hp taskId task (by simpa using h)
    rw [halive] at hzombie
    cases hzombie

theorem reported_of_notify (hd : Consistent d) {location : String} {servant : ServantPtr}
    (hfind : d.findServant location = some servant) {tasks : List RunningTask}
    {unknownTasks : List UInt64}
    (h : d.notifyServantRunningTasks location tasks = .ok (unknownTasks, d')) :
    Reported d d' servant location tasks unknownTasks := by
  rcases notifyServantRunningTasks_ok hd.counted location tasks with
    ⟨hnone, -⟩ | ⟨servant', u, hfind', ⟨ids, hfreed⟩, hcounted, hswept, hok⟩
  · rw [hfind] at hnone
    cases hnone
  · rw [hfind] at hfind'
    cases hfind'
    rw [hok] at h
    cases h
    have hpermitted : ∀ k, u.permitted servant k = d.permitted servant k :=
      permitted_of_swept (fun k task h => by simp at h; exact h.1.2) hswept
    refine ⟨hfreed.servants_eq, hfreed.locationOf, fun r hr => ?_, hswept, ?_, fun location' => ?_⟩
    · -- The counter is the number of grants, so it stays when they do.
      have hcount : (u.heap r).runningTasks = (d.heap r).runningTasks := by
        apply UInt64.toNat_inj.mp
        rw [hcounted r, hd.counted r]
        apply AList.count_congr
        intro k
        cases hk : d.tasks.lookup k with
        | none => rw [hswept, hk, Option.filter_none]
        | some task =>
            by_cases hown : task.belongingServant = r
            · have hstays : u.tasks.lookup k = some task := hr k task hk hown
              rw [hstays]
            · have hfiltered : (some task).filter
                  (fun task => task.belongingServant == r) = none := by
                simp [Option.filter_some, hown]
              rw [hswept, hk, Option.filter_filter, hfiltered]
              simp [Option.filter_some, hown]
      change u.heap r = d.heap r
      rw [hfreed.desc_eq r, hcount]
    · congr 1
      funext k
      rw [hpermitted]
    · simp only [hpermitted]
      simp only [bookkeptAt, setServantRunningTasks,
        RunningTaskBookkeeper.setServantRunningTasks, AList.lookup_insert_eq]
      split
      · rfl
      · next hne => rw [AList.lookup_erase_ne hne, hfreed.bookkeeper_eq]

/-- Two filters of one list agree when their predicates do on its elements. -/
theorem filter_eq_iff {α : Type} {l : List α} {p q : α → Bool} :
    l.filter p = l.filter q ↔ ∀ a ∈ l, p a = q a := by
  constructor
  · intro h a ha
    rw [Bool.eq_iff_iff]
    have hmem : a ∈ l.filter p ↔ a ∈ l.filter q := by rw [h]
    simpa [ha] using hmem
  · exact List.filter_congr

/-- Under the observed location the second call is confined and answers exactly. -/
theorem notify_observed (hd : Consistent d) {observed : String} {servant : ServantPtr}
    (hfind : d.findServant observed = some servant) {tasks : List RunningTask}
    {unknownTasks : List UInt64}
    (h : d.notifyServantRunningTasks observed tasks = .ok (unknownTasks, d')) :
    ConfinedTo observed d d' ∧
      unknownTasks = (tasks.map (·.taskGrantId)).filter fun k => !d.liveAt observed k := by
  have hreported := reported_of_notify hd hfind h
  obtain ⟨hmem, hloc⟩ := findServant_some hfind
  constructor
  · refine ⟨⟨servant, ?_⟩, fun r hr => .inl (hreported.servants_eq ▸ hr),
      fun r hr hne => ⟨hreported.servants_eq ▸ hr, ?_⟩, fun k task hk hne => ?_,
      fun location hne => ?_⟩
    · rw [hreported.findServant, hfind]
    · apply hreported.records
      intro k task hk hown
      exact hreported.kept hk fun hown' _ => absurd (by rw [← hown, hown', hloc]) hne
    · exact hreported.kept hk fun hown _ => absurd (by rw [hown, hloc]) hne
    · rw [hreported.bookkept, if_neg hne]
  · rw [hreported.unknown_eq]
    congr 1
    funext k
    rw [liveAt_of_findServant hfind]

/-- Where nobody is registered, every reported grant comes back and nothing changes. -/
theorem notify_unregistered (hd : Consistent d) {observed location : String}
    {servant : ServantPtr} (hfind : d.findServant observed = some servant)
    (hthere : d.findServant location = none) {reported : List UInt64} :
    (ConfinedTo observed d d ∧ reported = reported.filter fun k => !d.liveAt observed k) ↔
      Harmless d observed location reported := by
  constructor
  · rintro ⟨-, hunknown⟩
    refine ⟨fun k hk => ?_, fun k _ => ?_, fun k task hk _ hloc => ?_, hd.bookkeptAt_eq_nil hthere⟩
    · have hall := List.filter_eq_self.mp hunknown.symm k hk
      simpa using hall
    · rw [liveAt, hthere]
    · exact absurd hloc (findServant_none hthere (hd.owned k task hk))
  · intro hharmless
    refine ⟨⟨⟨servant, hfind⟩, fun r hr => .inl hr, fun r hr _ => ⟨hr, rfl⟩,
      fun k task hk _ => hk, fun _ _ => rfl⟩, ?_⟩
    rw [eq_comm, List.filter_eq_self]
    intro k hk
    rw [hharmless.not_live_here k hk]
    rfl

section Foreign

variable {observed location : String} {servant other : ServantPtr} {tasks : List RunningTask}
  {unknownTasks : List UInt64}

/-- A reported grant that is live here or there would be live at both. -/
theorem Reported.not_live (hreported : Reported d d' other location tasks unknownTasks)
    (hfind : d.findServant observed = some servant) (hdistinct : other ≠ servant)
    (hunknown : unknownTasks = (tasks.map (·.taskGrantId)).filter fun k => !d.liveAt observed k) :
    ∀ k ∈ tasks.map (·.taskGrantId),
      d.permitted other k = false ∧ d.liveAt observed k = false := by
  intro k hk
  rw [hreported.unknown_eq, filter_eq_iff] at hunknown
  have hiff := hunknown k hk
  rw [liveAt_of_findServant hfind] at hiff ⊢
  cases hp : d.permitted other k with
  | false =>
      rw [hp] at hiff
      exact ⟨rfl, by simpa using hiff.symm⟩
  | true =>
      rw [hp] at hiff
      have hp' : d.permitted servant k = true := by simpa using hiff.symm
      exact absurd (permitted_unique hp hp') hdistinct

theorem Reported.harmless (hd : Consistent d)
    (hreported : Reported d d' other location tasks unknownTasks)
    (hfind : d.findServant observed = some servant) (hdistinct : other ≠ servant)
    (hne : location ≠ observed) (hthere : d.findServant location = some other)
    (hconfined : ConfinedTo observed d d')
    (hunknown : unknownTasks = (tasks.map (·.taskGrantId)).filter fun k => !d.liveAt observed k) :
    Harmless d observed location (tasks.map (·.taskGrantId)) := by
  obtain ⟨hmem, hloc⟩ := findServant_some hthere
  have hneither := hreported.not_live hfind hdistinct hunknown
  refine ⟨fun k hk => (hneither k hk).2, fun k hk => ?_, fun k task hk hzombie htask => ?_, ?_⟩
  · rw [liveAt_of_findServant hthere]
    exact (hneither k hk).1
  · have hown : task.belongingServant = other :=
      hd.eq_of_locationOf (hd.owned k task hk) hmem (htask.trans hloc.symm)
    have hkept := hconfined.grants k task hk (by rw [htask]; exact hne)
    rw [hreported.swept, hk, Option.filter_eq_some_iff] at hkept
    simpa [hown, hzombie] using hkept.2
  · have hsame := hconfined.bookkept location hne
    rw [hreported.bookkept, if_pos rfl] at hsame
    rw [← hsame, List.filter_eq_nil_iff]
    intro task htask
    rw [(hneither _ (List.mem_map_of_mem htask)).1]
    exact Bool.false_ne_true

theorem Reported.confined (hreported : Reported d d' other location tasks unknownTasks)
    (hfind : d.findServant observed = some servant) (hthere : d.findServant location = some other)
    (hharmless : Harmless d observed location (tasks.map (·.taskGrantId))) :
    ConfinedTo observed d d' ∧
      unknownTasks = (tasks.map (·.taskGrantId)).filter fun k => !d.liveAt observed k := by
  obtain ⟨hmem, hloc⟩ := findServant_some hthere
  have hnone : ∀ k ∈ tasks.map (·.taskGrantId), d.permitted other k = false := by
    intro k hk
    rw [← liveAt_of_findServant hthere]
    exact hharmless.not_live_there k hk
  have hgrants : ∀ k task, d.tasks.lookup k = some task → d'.tasks.lookup k = some task := by
    intro k task hk
    apply hreported.kept hk
    intro hown hzombie
    exact hharmless.zombies_reported k task hk hzombie (by rw [hown]; exact hloc)
  refine ⟨⟨⟨servant, ?_⟩, fun r hr => .inl (hreported.servants_eq ▸ hr),
    fun r hr _ => ⟨hreported.servants_eq ▸ hr, ?_⟩, fun k task hk _ => hgrants k task hk,
    fun location' _ => ?_⟩, ?_⟩
  · rw [hreported.findServant, hfind]
  · exact hreported.records r fun k task hk _ => hgrants k task hk
  · rw [hreported.bookkept]
    split
    · next heq =>
        rw [heq, hharmless.nothing_bookkept, List.filter_eq_nil_iff]
        intro task htask
        rw [hnone _ (List.mem_map_of_mem htask)]
        exact Bool.false_ne_true
    · rfl
  · rw [hreported.unknown_eq, filter_eq_iff]
    intro k hk
    rw [hnone k hk, hharmless.not_live_here k hk]

/-- Under another location it is confined and answers exactly when it is harmless. -/
theorem notify_foreign (hd : Consistent d) (hfind : d.findServant observed = some servant)
    (hne : location ≠ observed)
    (h : d.notifyServantRunningTasks location tasks = .ok (unknownTasks, d')) :
    (ConfinedTo observed d d' ∧
      unknownTasks = (tasks.map (·.taskGrantId)).filter fun k => !d.liveAt observed k) ↔
    Harmless d observed location (tasks.map (·.taskGrantId)) := by
  cases hthere : d.findServant location with
  | none =>
      have hok : d.notifyServantRunningTasks location tasks
          = .ok (tasks.map (·.taskGrantId), d) := by
        rw [notifyServantRunningTasks, hthere]
        rfl
      rw [hok] at h
      cases h
      exact notify_unregistered hd hfind hthere
  | some other =>
      have hreported := reported_of_notify hd hthere h
      have hdistinct : other ≠ servant := by
        rintro rfl
        exact hne ((findServant_some hthere).2.symm.trans (findServant_some hfind).2)
      constructor
      · rintro ⟨hconfined, hunknown⟩
        exact hreported.harmless hd hfind hdistinct hne hthere hconfined hunknown
      · intro hharmless
        exact hreported.confined hfind hthere hharmless

end Foreign

/-! ## Both calls -/

section Heartbeat

variable {servant : ServantPersonality} {expiresIn now now' : Time}

/-- The first call is confined in any case, so only the second can break it. -/
theorem confinedTo_after_keepServantAlive (hd : Consistent d)
    (hloc : ∀ r, d'.locationOf r = (d.keepServantAlive servant expiresIn now now').locationOf r) :
    ConfinedTo servant.observedLocation d d' ↔
      ConfinedTo servant.observedLocation (d.keepServantAlive servant expiresIn now now') d' := by
  have hfirst : ConfinedTo servant.observedLocation d
      (d.keepServantAlive servant expiresIn now now') := keepServantAlive_confined hd
  have hsame := fun r hr => hd.keepServantAlive_locationOf (r := r) hr servant expiresIn now now'
  have hmem : ∀ r ∈ d.servants, r ∈ (d.keepServantAlive servant expiresIn now now').servants := by
    intro r hr
    unfold keepServantAlive
    split
    · exact hr
    · exact List.mem_append_left _ hr
  constructor
  · intro h
    refine ⟨h.registered, fun r hr => (h.servants r hr).imp_left (hmem r), fun r hr hne => ?_,
      fun k task hk hne => ?_, fun location hne => ?_⟩
    · rcases hfirst.servants r hr with hr | hobserved
      · have hne' : d.locationOf r ≠ servant.observedLocation := by rwa [← hsame r hr]
        obtain ⟨hr', hheap⟩ := h.records r hr hne'
        exact ⟨hr', hheap.trans (hfirst.records r hr hne').2.symm⟩
      · exact absurd hobserved hne
    · rw [keepServantAlive_tasks] at hk
      rw [hsame _ (hd.owned k task hk)] at hne
      exact h.grants k task hk hne
    · rw [h.bookkept location hne, hfirst.bookkept location hne]
  · intro h
    refine ⟨h.registered, fun r hr => ?_, fun r hr hne => ?_, fun k task hk hne => ?_,
      fun location hne => ?_⟩
    · rcases h.servants r hr with hr | hobserved
      · rw [hloc]
        exact hfirst.servants r hr
      · exact .inr hobserved
    · obtain ⟨hr', hheap'⟩ := hfirst.records r hr hne
      obtain ⟨hr'', hheap''⟩ := h.records r hr' (by rwa [hsame r hr])
      exact ⟨hr'', hheap''.trans hheap'⟩
    · apply h.grants k task (by rwa [keepServantAlive_tasks])
      rwa [hsame _ (hd.owned k task hk)]
    · rw [h.bookkept location hne, hfirst.bookkept location hne]

theorem harmless_after_keepServantAlive (hd : Consistent d) {location : String}
    (hne : location ≠ servant.observedLocation) {reported : List UInt64} :
    Harmless (d.keepServantAlive servant expiresIn now now') servant.observedLocation location
      reported ↔ Harmless d servant.observedLocation location reported := by
  have hsame := fun r hr => hd.keepServantAlive_locationOf (r := r) hr servant expiresIn now now'
  have hbookkept : (d.keepServantAlive servant expiresIn now now').bookkeptAt location
      = d.bookkeptAt location := (keepServantAlive_confined hd).bookkept location hne
  constructor
  · rintro ⟨here, there, zombies, nothing⟩
    simp only [keepServantAlive_liveAt hd] at here there
    refine ⟨here, there, fun k task hk hzombie hloc => ?_, hbookkept ▸ nothing⟩
    exact zombies k task (by rwa [keepServantAlive_tasks]) hzombie
      (by rwa [hsame _ (hd.owned k task hk)])
  · rintro ⟨here, there, zombies, nothing⟩
    refine ⟨?_, ?_, fun k task hk hzombie hloc => ?_, hbookkept.trans nothing⟩
    · simpa only [keepServantAlive_liveAt hd] using here
    · simpa only [keepServantAlive_liveAt hd] using there
    · rw [keepServantAlive_tasks] at hk
      rw [hsame _ (hd.owned k task hk)] at hloc
      exact zombies k task hk hzombie hloc

/-- A report never changes where a servant was seen. -/
theorem notifyServantRunningTasks_locationOf (hd : Counted d) {location : String}
    {tasks : List RunningTask} {unknownTasks : List UInt64}
    (h : d.notifyServantRunningTasks location tasks = .ok (unknownTasks, d')) (r : ServantPtr) :
    d'.locationOf r = d.locationOf r := by
  rcases notifyServantRunningTasks_ok hd location tasks with
    ⟨-, hok⟩ | ⟨servant, u, -, ⟨ids, hfreed⟩, -, -, hok⟩
  · rw [hok] at h
    cases h
    rfl
  · rw [hok] at h
    cases h
    exact hfreed.locationOf r

end Heartbeat

end TaskDispatcher

namespace SchedulerService

open TaskDispatcher

variable {cfg : ServiceConfig} {service service' : SchedulerService}

theorem determineActiveServingDaemonTokens_dispatcher {now : Time} {fresh : String}
    {tokens : List String}
    (h : service.determineActiveServingDaemonTokens cfg now fresh = .ok (tokens, service')) :
    service'.dispatcher = service.dispatcher := by
  unfold determineActiveServingDaemonTokens at h
  by_cases hdue : service.nextServingDaemonTokenRollout < now
  · simp only [if_pos hdue] at h
    split at h
    · cases h
      rfl
    · cases h
  · simp only [if_neg hdue] at h
    split at h
    · cases h
      rfl
    · cases h

/-- What an accepted heartbeat has done to the dispatcher. -/
theorem heartbeat_accepted {peer : RemotePeer} {request : HeartbeatRequest}
    {clock : HeartbeatClock} {response : HeartbeatResponse}
    (h : service.heartbeat cfg peer request clock = .ok (.ok response, service')) :
    ∃ endpoint servant, cfg.endpoints.tryParse request.location = some endpoint ∧
      observedLocationOf peer (cfg.endpoints.endpointGetPort endpoint)
        = .ok servant.observedLocation ∧
      (service.dispatcher.keepServantAlive servant (milliseconds request.nextHeartbeatInMs)
        clock.discoveredAt clock.expiresFrom).notifyServantRunningTasks request.location
          request.runningTasks = .ok (response.expiredTasks, service'.dispatcher) := by
  unfold heartbeat at h
  split_ifs at h
  · cases h
  · cases h
  · cases hparse : cfg.endpoints.tryParse request.location with
    | none =>
        rw [hparse] at h
        cases h
    | some endpoint =>
        simp only [hparse] at h
        cases hobserved : observedLocationOf peer (cfg.endpoints.endpointGetPort endpoint) with
        | error fault =>
            rw [hobserved] at h
            cases h
        | ok observed =>
            simp only [hobserved] at h
            split_ifs at h
            · cases h
            · split at h
              · cases h
              · next tokens service₁ htokens =>
                  split at h
                  · cases h
                  · next expired dispatcher hnotify =>
                      cases h
                      rw [determineActiveServingDaemonTokens_dispatcher htokens] at hnotify
                      exact ⟨endpoint, _, rfl, hobserved, hnotify⟩

/-- An accepted heartbeat is about the servant at its observed address alone, and answers
with exactly the reported grants that are not live there, if and only if the location
string of the request is that address or what it names instead is harmless. -/
theorem heartbeat_about_observed_iff {labels : List (Op × Reply)}
    (reached : Run (Step cfg.dispatcher) empty labels service.dispatcher) {peer : RemotePeer}
    {request : HeartbeatRequest} {clock : HeartbeatClock} {response : HeartbeatResponse}
    (accepted : service.heartbeat cfg peer request clock = .ok (.ok response, service')) :
    ∃ endpoint observed, cfg.endpoints.tryParse request.location = some endpoint ∧
      observedLocationOf peer (cfg.endpoints.endpointGetPort endpoint) = .ok observed ∧
      ((ConfinedTo observed service.dispatcher service'.dispatcher ∧
          response.expiredTasks = (request.runningTasks.map (·.taskGrantId)).filter fun k =>
            !service.dispatcher.liveAt observed k) ↔
        (request.location = observed ∨
          Harmless service.dispatcher observed request.location
            (request.runningTasks.map (·.taskGrantId)))) := by
  have hd := consistent_of_run reached
  obtain ⟨endpoint, servant, hparse, hobserved, hnotify⟩ := heartbeat_accepted accepted
  refine ⟨endpoint, servant.observedLocation, hparse, hobserved, ?_⟩
  have hd' := hd.keepServantAlive servant (milliseconds request.nextHeartbeatInMs)
    clock.discoveredAt clock.expiresFrom
  have hfirst : ConfinedTo servant.observedLocation service.dispatcher
      (service.dispatcher.keepServantAlive servant (milliseconds request.nextHeartbeatInMs)
        clock.discoveredAt clock.expiresFrom) := keepServantAlive_confined hd
  obtain ⟨r, hr⟩ := hfirst.registered
  rw [confinedTo_after_keepServantAlive hd
    (notifyServantRunningTasks_locationOf hd'.counted hnotify)]
  have hlive : (fun k => !service.dispatcher.liveAt servant.observedLocation k) = fun k =>
      !(service.dispatcher.keepServantAlive servant (milliseconds request.nextHeartbeatInMs)
        clock.discoveredAt clock.expiresFrom).liveAt servant.observedLocation k := by
    funext k
    rw [keepServantAlive_liveAt hd]
  rw [hlive]
  by_cases hlocation : request.location = servant.observedLocation
  · rw [hlocation] at hnotify
    simp only [hlocation, true_or, iff_true]
    exact notify_observed hd' hr hnotify
  · rw [notify_foreign hd' hr hlocation hnotify, harmless_after_keepServantAlive hd hlocation]
    simp [hlocation]

/-! ## A heartbeat that names another servant -/

/-- Endpoints of two hosts on port 8335. -/
def sampleEndpoints : EndpointLibrary where
  Endpoint := String
  tryParse str := if str = "10.0.0.1:8335" ∨ str = "10.0.0.2:8335" then some str else none
  endpointGetPort _ := 8335
  toString := id

def sampleServiceConfig : ServiceConfig where
  dispatcher := sampleConfig
  endpoints := sampleEndpoints
  isUserVerifier := ⟨["user"]⟩
  isServantVerifier := ⟨["servant"]⟩
  minDaemonVersion := 0
  servingDaemonTokenRolloutInterval := 3600

/-- The servant at 10.0.0.1 has reported grant 0 as running, and the grant has become a
zombie since. -/
def victimRun : List (Op × Reply) :=
  [(.keepServantAlive (sampleServant "10.0.0.1:8335") 100 0 0, .done),
    (.waitForStartingNewTask sampleTask 5 false 0 0,
      .attempt (.allocated ⟨0, "10.0.0.1:8335"⟩)),
    (.notifyServantRunningTasks "10.0.0.1:8335" [⟨1, 0, "10.0.0.1:8335", "digest"⟩],
      .unknownTasks []),
    (.onExpirationTimer 9, .done)]

def victimService : SchedulerService where
  nextServingDaemonTokenRollout := 1000
  activeServingDaemonTokens := ["a", "b", "c"]
  dispatcher := (follow (next sampleConfig) victimRun empty).getD empty

/-- An idle daemon at 10.0.0.2 that reports the given location. -/
def idleHeartbeat (location : String) : HeartbeatRequest where
  token := "user"
  nextHeartbeatInMs := 1000
  version := 1
  location
  numProcessors := 2
  currentLoad := 0
  servantPriority := .user
  notAcceptingTaskReason := 0
  capacity := 0
  totalMemoryInBytes := 0
  memoryAvailableInBytes := 0
  envDescs := []
  runningTasks := []

def sampleClock : HeartbeatClock := ⟨10, 10, 10, "d"⟩

/-- How the service answers 10.0.0.2 reporting a location. -/
def idleOutcome (location : String) : Option (HeartbeatResponse × SchedulerService) :=
  match victimService.heartbeat sampleServiceConfig ⟨.inet, "10.0.0.2"⟩
    (idleHeartbeat location) sampleClock with
  | .ok (.ok response, service) => some (response, service)
  | _ => none

theorem heartbeat_of_idleOutcome {location : String} {response : HeartbeatResponse}
    {service : SchedulerService} (h : idleOutcome location = some (response, service)) :
    victimService.heartbeat sampleServiceConfig ⟨.inet, "10.0.0.2"⟩ (idleHeartbeat location)
      sampleClock = .ok (.ok response, service) := by
  unfold idleOutcome at h
  split at h
  · next heq =>
      cases h
      exact heq
  · cases h

theorem victimService_reached :
    Run (Step sampleServiceConfig.dispatcher) empty victimRun victimService.dispatcher :=
  Run.of_follow step_of_next rfl

theorem heartbeat_about_observed_idle :
    ∃ response service, idleOutcome "10.0.0.2:8335" = some (response, service) ∧
      ConfinedTo "10.0.0.2:8335" victimService.dispatcher service.dispatcher := by
  have hsome : (idleOutcome "10.0.0.2:8335").isSome = true := by decide
  obtain ⟨⟨response, service⟩, houtcome⟩ := Option.isSome_iff_exists.mp hsome
  refine ⟨response, service, houtcome, ?_⟩
  obtain ⟨endpoint, observed, hparse, hobserved, hiff⟩ := heartbeat_about_observed_iff
    victimService_reached (heartbeat_of_idleOutcome houtcome)
  have haddress : observedLocationOf ⟨.inet, "10.0.0.2"⟩ 8335 = .ok "10.0.0.2:8335" := by decide
  have heq : observed = "10.0.0.2:8335" := by
    rw [show sampleServiceConfig.endpoints.endpointGetPort endpoint = 8335 from rfl,
      haddress] at hobserved
    cases hobserved
    rfl
  rw [← heq]
  exact (hiff.mpr (.inl heq.symm)).1

/-- A heartbeat of 10.0.0.2 under the location of 10.0.0.1 frees the zombie there and
forgets what runs there. -/
theorem heartbeat_of_another_servant :
    ¬ ∀ (labels : List (Op × Reply)) (service service' : SchedulerService) (peer : RemotePeer)
      (request : HeartbeatRequest) (clock : HeartbeatClock) (response : HeartbeatResponse)
      (observed : String), Run (Step sampleConfig) empty labels service.dispatcher →
      service.heartbeat sampleServiceConfig peer request clock = .ok (.ok response, service') →
      observedLocationOf peer 8335 = .ok observed →
      ConfinedTo observed service.dispatcher service'.dispatcher := by
  intro h
  have hswept : (idleOutcome "10.0.0.1:8335").map
      (fun outcome => (outcome.2.dispatcher.tasks.lookup 0).isSome) = some false := by decide
  obtain ⟨⟨response, service⟩, houtcome, hgone⟩ := Option.map_eq_some_iff.mp hswept
  have hconfined := h victimRun victimService service ⟨.inet, "10.0.0.2"⟩
    (idleHeartbeat "10.0.0.1:8335") sampleClock response "10.0.0.2:8335" victimService_reached
    (heartbeat_of_idleOutcome houtcome) (by decide)
  have hkept := hconfined.grants 0 _ rfl (by decide)
  rw [hkept] at hgone
  cases hgone

end SchedulerService

end Yadcc.Scheduler
