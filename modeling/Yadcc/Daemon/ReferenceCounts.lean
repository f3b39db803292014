/-
# Reference counts of a shared servant

The servant counts references, the clients hold them. As long as every client frees the
task it holds, the count of every task is the number of fibers that hold it, plus the
references lost on the way.
-/

import Yadcc.Daemon.Cloud.TaskSharing
import Yadcc.Daemon.SharedServant
import Yadcc.Scheduler.TaskDispatcherInvariant

namespace Yadcc.Daemon

open Yadcc.Lib

namespace SharedServant

variable {site : Site} {s t : SharedServant}

/-! ## Holders -/

/-- The number of fibers that hold a task. -/
def holders (site : Site) (s : SharedServant) (taskId : Cloud.TaskId) : ℕ :=
  s.fibers.count fun _ f => holdsAt site f == some taskId

/-- The references to a task that were given and not given back. -/
def outstanding (site : Site) (s : SharedServant) (taskId : Cloud.TaskId) : ℕ :=
  holders site s taskId + s.lost taskId

theorem holdsAt_of_held {f : Local.Fiber} (held : Local.Held) (h : f.pc.held = some held)
    (hserver : site.local'.server held.location = site.location) :
    holdsAt site f = some held.acquired := by
  unfold holdsAt
  rw [h, Option.bind_some, if_pos hserver]

theorem holdsAt_of_held_none {f : Local.Fiber} (h : f.pc.held = none) :
    holdsAt site f = none := by
  unfold holdsAt
  rw [h]
  rfl

theorem holders_congr (hfibers : t.fibers = s.fibers) (taskId : Cloud.TaskId) :
    holders site t taskId = holders site s taskId := by
  unfold holders
  rw [hfibers]

/-- A step of one fiber changes the holders of what it held and what it holds. -/
theorem holders_insert (site : Site) {fiber : FiberId} (f' : Local.Fiber)
    (hfibers : t.fibers = s.fibers.insert fiber f') (taskId : Cloud.TaskId) :
    holders site t taskId +
        (if (s.fibers.lookup fiber).bind (holdsAt site) = some taskId then 1 else 0)
      = holders site s taskId + if holdsAt site f' = some taskId then 1 else 0 := by
  unfold holders
  rw [hfibers, AList.count_insert]
  cases hlookup : s.fibers.lookup fiber with
  | none =>
      rw [AList.erase_of_lookup_none hlookup]
      simp
  | some f =>
      have herase := AList.count_erase_add (fun _ f => holdsAt site f == some taskId) hlookup
      simp only [beq_iff_eq, Option.bind_some] at herase ⊢
      omega

/-- A fiber that holds a task is one of its holders. -/
theorem holders_pos {fiber : FiberId} {f : Local.Fiber} {taskId : Cloud.TaskId}
    (hfound : s.fibers.lookup fiber = some f) (hholds : holdsAt site f = some taskId) :
    0 < holders site s taskId :=
  AList.count_pos hfound (by simpa using hholds)

/-! ## The invariant -/

/-- Counts and references agree. A number that was not given out has none. -/
structure RefCounts (site : Site) (s : SharedServant) : Prop where
  distinct : s.engine.tasks.Nodup
  count : ∀ taskId ∈ s.engine.tasks, s.engine.refs taskId = some (outstanding site s taskId)
  fresh : ∀ taskId, s.engine.nextTaskId ≤ taskId →
    taskId ∉ s.engine.tasks ∧ outstanding site s taskId = 0

/-- A step that shares nothing differently. Tasks may be dropped and numbers wasted. -/
theorem RefCounts.quiet (h : RefCounts site s)
    (hnext : s.engine.nextTaskId ≤ t.engine.nextTaskId)
    (htasks : t.engine.tasks.Sublist s.engine.tasks)
    (hrefs : ∀ taskId, t.engine.refs taskId = s.engine.refs taskId)
    (houtstanding : ∀ taskId, outstanding site t taskId = outstanding site s taskId) :
    RefCounts site t := by
  refine ⟨h.distinct.sublist htasks, fun taskId hmem => ?_, fun taskId hle => ?_⟩
  · rw [hrefs, houtstanding]
    exact h.count taskId (htasks.subset hmem)
  · obtain ⟨hnot, hzero⟩ := h.fresh taskId (hnext.trans hle)
    rw [houtstanding]
    exact ⟨fun hmem => hnot (htasks.subset hmem), hzero⟩

/-- A step of the engine only. -/
theorem RefCounts.engine (h : RefCounts site s) (hengine : s.engine.Quiet t.engine)
    (hfibers : t.fibers = s.fibers) (hlost : t.lost = s.lost) : RefCounts site t := by
  refine h.quiet hengine.nextTaskId_eq.ge hengine.tasks_sublist hengine.refs_eq ?_
  intro taskId
  unfold outstanding
  rw [holders_congr hfibers, hlost]

/-- A step of a fiber that holds the same before and after. -/
theorem RefCounts.fiber (h : RefCounts site s) {fiber : FiberId} {f' : Local.Fiber}
    (hfibers : t.fibers = s.fibers.insert fiber f')
    (hsame : holdsAt site f' = (s.fibers.lookup fiber).bind (holdsAt site))
    (hnext : s.engine.nextTaskId ≤ t.engine.nextTaskId)
    (htasks : t.engine.tasks = s.engine.tasks) (hdescs : t.engine.descs = s.engine.descs)
    (hlost : t.lost = s.lost) : RefCounts site t := by
  refine h.quiet hnext (htasks ▸ .refl _) (fun taskId => ?_) fun taskId => ?_
  · unfold Cloud.ExecutionEngine.refs
    rw [hdescs]
  · have hcount := holders_insert site f' hfibers taskId
    rw [← hsame] at hcount
    unfold outstanding
    rw [hlost]
    omega

/-- A step that shares one task differently. -/
theorem RefCounts.change (h : RefCounts site s) (taskId : Cloud.TaskId)
    (hnumbered : taskId < t.engine.nextTaskId)
    (hnext : s.engine.nextTaskId ≤ t.engine.nextTaskId) (hdistinct : t.engine.tasks.Nodup)
    (htasks : ∀ id ∈ t.engine.tasks, id ≠ taskId → id ∈ s.engine.tasks)
    (hother : ∀ id, id ≠ taskId → t.engine.refs id = s.engine.refs id ∧
      outstanding site t id = outstanding site s id)
    (hself : taskId ∈ t.engine.tasks →
      t.engine.refs taskId = some (outstanding site t taskId)) : RefCounts site t := by
  refine ⟨hdistinct, fun id hmem => ?_, fun id hle => ?_⟩
  · by_cases hid : id = taskId
    · subst hid
      exact hself hmem
    · obtain ⟨hrefs, houtstanding⟩ := hother id hid
      rw [hrefs, houtstanding]
      exact h.count id (htasks id hmem hid)
  · have hid : id ≠ taskId := by
      rintro rfl
      exact absurd hnumbered (Nat.not_lt.mpr hle)
    obtain ⟨hnot, hzero⟩ := h.fresh id (hnext.trans hle)
    rw [(hother id hid).2]
    exact ⟨fun hmem => hnot (htasks id hmem hid), hzero⟩

/-- A task of the table has a number, and so has one that is held. -/
theorem RefCounts.numbered (h : RefCounts site s) {taskId : Cloud.TaskId}
    (hknown : taskId ∈ s.engine.tasks ∨ 0 < holders site s taskId) :
    taskId < s.engine.nextTaskId := by
  by_contra hnot
  obtain ⟨hmem, hzero⟩ := h.fresh taskId (Nat.not_lt.mp hnot)
  unfold outstanding at hzero
  rcases hknown with hknown | hpos
  · exact hmem hknown
  · omega

theorem refs_modify {e : Cloud.ExecutionEngine String} {taskId : Cloud.TaskId}
    {f : Cloud.TaskDesc String → Cloud.TaskDesc String} (id : Cloud.TaskId) :
    Cloud.ExecutionEngine.refs { e with descs := e.descs.modify taskId f } id
      = if id = taskId then (e.descs.lookup taskId).map fun desc => (f desc).clientRefCount
        else e.refs id := by
  unfold Cloud.ExecutionEngine.refs
  rw [AList.lookup_modify]
  split
  · rw [Option.map_map]
    rfl
  · rfl

/-! ## Calls -/

/-- A call that gave a reference to a fiber that held none: it has it or it is lost. -/
def Acquires (site : Site) (taskId : Cloud.TaskId) (s t : SharedServant) : Prop :=
  ∀ id, outstanding site t id = outstanding site s id + if id = taskId then 1 else 0

theorem acquires_answered {fiber : FiberId} {f' : Local.Fiber} {taskId : Cloud.TaskId}
    (hfibers : t.fibers = s.fibers.insert fiber f') (hlost : t.lost = s.lost)
    (hbefore : (s.fibers.lookup fiber).bind (holdsAt site) = none)
    (hafter : holdsAt site f' = some taskId) : Acquires site taskId s t := by
  intro id
  have hcount := holders_insert site f' hfibers id
  rw [hbefore, hafter] at hcount
  simp only [reduceCtorEq, if_false, Option.some_inj] at hcount
  unfold outstanding
  rw [hlost]
  by_cases hid : id = taskId
  · subst hid
    simp only [if_true] at hcount ⊢
    omega
  · rw [if_neg (Ne.symm hid)] at hcount
    rw [if_neg hid]
    omega

theorem acquires_lost {fiber : FiberId} {f' : Local.Fiber} {taskId : Cloud.TaskId}
    (hfibers : t.fibers = s.fibers.insert fiber f')
    (hlost : t.lost = Function.update s.lost taskId (s.lost taskId + 1))
    (hsame : holdsAt site f' = (s.fibers.lookup fiber).bind (holdsAt site)) :
    Acquires site taskId s t := by
  intro id
  have hcount := holders_insert site f' hfibers id
  rw [hsame] at hcount
  unfold outstanding
  rw [hlost, Function.update_apply]
  split
  · next hid =>
      subst hid
      omega
  · omega

/-- A task of the table has one more reference. -/
theorem RefCounts.reference (h : RefCounts site s) {taskId : Cloud.TaskId}
    (hmem : taskId ∈ s.engine.tasks)
    (hengine : t.engine = (s.engine.tryReferenceTask taskId).2)
    (hacquires : Acquires site taskId s t) : RefCounts site t := by
  unfold Cloud.ExecutionEngine.tryReferenceTask at hengine
  rw [if_pos hmem] at hengine
  refine h.change taskId ?_ ?_ ?_ ?_ ?_ ?_
  · rw [hengine]
    exact h.numbered (.inl hmem)
  · rw [hengine]
  · rw [hengine]
    exact h.distinct
  · rw [hengine]
    exact fun id hid _ => hid
  · intro id hid
    rw [hacquires, if_neg hid, hengine, refs_modify, if_neg hid]
    exact ⟨rfl, rfl⟩
  · intro _
    obtain ⟨desc, hdesc, hrefs⟩ := Option.map_eq_some_iff.mp (h.count taskId hmem)
    rw [hacquires, if_pos rfl, hengine, refs_modify, if_pos rfl, hdesc, Option.map_some, hrefs]

/-- A new task has one reference. -/
theorem RefCounts.start (h : RefCounts site s) {desc : Cloud.TaskDesc String}
    {runningTasks tasksRunEver : UInt64} (hcount : desc.clientRefCount = 1)
    (hengine : t.engine = Cloud.ExecutionEngine.startProgram s.engine.nextTaskId desc
      { s.engine with nextTaskId := s.engine.nextTaskId + 1, runningTasks, tasksRunEver })
    (hacquires : Acquires site s.engine.nextTaskId s t) : RefCounts site t := by
  obtain ⟨hnot, hzero⟩ := h.fresh s.engine.nextTaskId le_rfl
  have htasks : t.engine.tasks = s.engine.nextTaskId :: s.engine.tasks := by
    rw [hengine]
    rfl
  have hnext : t.engine.nextTaskId = s.engine.nextTaskId + 1 := by
    rw [hengine]
    rfl
  have hdescs : t.engine.descs = s.engine.descs.insert s.engine.nextTaskId desc := by
    rw [hengine]
    rfl
  refine h.change s.engine.nextTaskId ?_ ?_ ?_ ?_ ?_ ?_
  · rw [hnext]
    exact Nat.lt_succ_self _
  · rw [hnext]
    exact Nat.le_succ _
  · rw [htasks]
    exact List.nodup_cons.mpr ⟨hnot, h.distinct⟩
  · rw [htasks]
    exact fun id hid hne => (List.mem_cons.mp hid).resolve_left hne
  · intro id hid
    unfold Cloud.ExecutionEngine.refs
    rw [hacquires, if_neg hid, hdescs, AList.lookup_insert_ne hid]
    exact ⟨rfl, rfl⟩
  · intro _
    unfold Cloud.ExecutionEngine.refs
    rw [hacquires, if_pos rfl, hdescs, AList.lookup_insert, Option.map_some, hcount, hzero]

/-- A task has one reference less. -/
theorem RefCounts.free (h : RefCounts site s) {taskId : Cloud.TaskId}
    (hnumbered : taskId < s.engine.nextTaskId)
    (hengine : t.engine = s.engine.freeTask taskId)
    (hreleases : Acquires site taskId t s) : RefCounts site t := by
  have hself := hreleases taskId
  rw [if_pos rfl] at hself
  have hother : ∀ id, id ≠ taskId → outstanding site t id = outstanding site s id := by
    intro id hid
    have hsame := hreleases id
    rw [if_neg hid] at hsame
    exact hsame.symm
  rcases Cloud.ExecutionEngine.freeTask_cases taskId s.engine with
    ⟨hunknown, heq⟩ | ⟨desc, hmem, hdesc, ⟨hpos, heq⟩ | ⟨-, heq⟩⟩
  · rw [heq] at hengine
    refine h.change taskId ?_ ?_ ?_ ?_ ?_ ?_
    · rwa [hengine]
    · rw [hengine]
    · rw [hengine]
      exact h.distinct
    · rw [hengine]
      exact fun id hid _ => hid
    · intro id hid
      rw [hengine]
      exact ⟨rfl, hother id hid⟩
    · intro hmem
      rw [hengine] at hmem
      have hcount := h.count taskId hmem
      unfold Cloud.ExecutionEngine.refs at hcount
      rw [hunknown.resolve_left (not_not.mpr hmem)] at hcount
      cases hcount
  · rw [heq] at hengine
    have hcount := h.count taskId hmem
    unfold Cloud.ExecutionEngine.refs at hcount
    rw [hdesc, Option.map_some, Option.some_inj] at hcount
    refine h.change taskId ?_ ?_ ?_ ?_ ?_ ?_
    · rwa [hengine]
    · rw [hengine]
    · rw [hengine]
      exact h.distinct
    · rw [hengine]
      exact fun id hid _ => hid
    · intro id hid
      rw [hengine, refs_modify, if_neg hid]
      exact ⟨rfl, hother id hid⟩
    · intro _
      rw [hengine, refs_modify, if_pos rfl, hdesc, Option.map_some, hcount, hself]
      rfl
  · rw [heq] at hengine
    refine h.change taskId ?_ ?_ ?_ ?_ ?_ ?_
    · rwa [hengine]
    · rw [hengine]
    · rw [hengine]
      exact h.distinct.erase taskId
    · rw [hengine]
      exact fun id hid _ => List.mem_of_mem_erase hid
    · intro id hid
      refine ⟨?_, hother id hid⟩
      rw [hengine]
      exact (refs_modify id).trans (if_neg hid)
    · intro hmem
      rw [hengine] at hmem
      exact absurd hmem h.distinct.not_mem_erase

/-! ## Steps -/

/-- The task that a fiber frees is the one it holds. -/
def freesOwn (f : Local.Fiber) : Bool :=
  match f.pc with
  | .freeing held => held.freed f.task.taskId == held.acquired
  | _ => true

/-- The steps that free no task but one that the client holds. -/
def Returns (s : SharedServant) : Action → Prop
  | .freeServantTask fiber _ => (s.fibers.lookup fiber).all freesOwn = true
  | _ => True

instance (s : SharedServant) (a : Action) : Decidable (Returns s a) := by
  unfold Returns
  split
  · infer_instance
  · infer_instance

theorem freed_of_returns {fiber : FiberId} {outcome : RpcOutcome} {f : Local.Fiber}
    {held : Local.Held} (h : Returns s (.freeServantTask fiber outcome))
    (hfound : s.fibers.lookup fiber = some f) (hpc : f.pc = .freeing held) :
    held.freed f.task.taskId = held.acquired := by
  have hall : (s.fibers.lookup fiber).all freesOwn = true := h
  rw [hfound, Option.all_some] at hall
  unfold freesOwn at hall
  rw [hpc] at hall
  exact beq_iff_eq.mp hall

/-- What a fiber does elsewhere or by itself changes what it holds elsewhere only. -/
theorem held_of_elsewhere {f f' : Local.Fiber} {event : Local.Event}
    (hstep : f.Step site.local' event f') (helsewhere : isCall event = true → ¬Calls site f) :
    f'.pc.held = f.pc.held ∨ ∀ held, f.pc.held = some held ∨ f'.pc.held = some held →
      site.local'.server held.location ≠ site.location := by
  cases Local.Fiber.effect_of_step hstep with
  | keeps hkeeps => exact .inl hkeeps.held_eq
  | references running now hpc =>
      refine .inr ?_
      rintro held (hheld | hheld)
      · cases (congrArg Local.Pc.held hpc).symm.trans hheld
      · cases hheld
        exact (calls_iff hpc rfl).not.mp (helsewhere rfl)
  | starts grant servantTaskId now hpc =>
      refine .inr ?_
      rintro held (hheld | hheld)
      · cases (congrArg Local.Pc.held hpc).symm.trans hheld
      · cases hheld
        exact (calls_iff hpc rfl).not.mp (helsewhere rfl)
  | frees freed hpc =>
      refine .inr ?_
      rintro held (hheld | hheld)
      · cases (congrArg Local.Pc.held hpc).symm.trans hheld
        exact (calls_iff hpc rfl).not.mp (helsewhere rfl)
      · cases (Local.Fiber.held_freeServantTask freed).symm.trans hheld

/-- Only what is held here counts here. -/
theorem holdsAt_of_not_here {f : Local.Fiber} (h : ∀ held, f.pc.held = some held →
    site.local'.server held.location ≠ site.location) : holdsAt site f = none := by
  unfold holdsAt
  cases hheld : f.pc.held with
  | none => rfl
  | some held => exact if_neg (h held hheld)

theorem holdsAt_of_elsewhere {f f' : Local.Fiber} {event : Local.Event}
    (hstep : f.Step site.local' event f') (helsewhere : isCall event = true → ¬Calls site f) :
    holdsAt site f' = holdsAt site f := by
  rcases held_of_elsewhere hstep helsewhere with hsame | hnot
  · unfold holdsAt
    rw [hsame]
  · rw [holdsAt_of_not_here fun held hheld => hnot held (.inl hheld),
      holdsAt_of_not_here fun held hheld => hnot held (.inr hheld)]

/-- A poll changes nothing that a fiber holds. -/
theorem holdsAt_poll {f : Local.Fiber} {held : Local.Held} {retriesLeft : ℕ}
    (hpc : f.pc = .polling held retriesLeft) (result : Option Local.CompilationOutput) :
    holdsAt site (f.poll site.local' held retriesLeft result) = holdsAt site f := by
  unfold holdsAt
  rw [(Local.Fiber.keeps_poll hpc).held_eq]

/-- What a fiber held that died is lost. -/
theorem RefCounts.die (h : RefCounts site s) {fiber : FiberId} {f : Local.Fiber}
    (hfound : s.fibers.lookup fiber = some f) : RefCounts site (s.die site fiber f) := by
  have hcount := fun id => AList.count_erase_add
    (fun _ f => holdsAt site f == some id) hfound
  unfold SharedServant.die
  dsimp only
  split
  · next hholds =>
      refine h.quiet le_rfl (.refl _) (fun _ => rfl) fun id => ?_
      have hid := hcount id
      rw [hholds] at hid
      unfold outstanding holders
      exact congrArg (· + s.lost id) hid
  · next taskId hholds =>
      refine h.quiet le_rfl (.refl _) (fun _ => rfl) fun id => ?_
      have hid := hcount id
      simp only [hholds, beq_iff_eq, Option.some_inj] at hid
      unfold outstanding holders lose
      dsimp only
      rw [← hid, Function.update_apply]
      by_cases heq : id = taskId
      · subst heq
        simp only [if_true]
        omega
      · rw [if_neg heq, if_neg (Ne.symm heq)]
        rfl

theorem RefCounts.referenceTask (h : RefCounts site s) {fiber : FiberId} {f : Local.Fiber}
    {running : Local.RunningTaskDesc} (hfound : s.fibers.lookup fiber = some f)
    (hpc : f.pc = .referencing running) (hcalls : Calls site f) (outcome : RpcOutcome)
    (now : ℕ) : RefCounts site (s.referenceTask site fiber f running outcome now) := by
  have hserver := (calls_iff hpc rfl).mp hcalls
  have hbefore : (s.fibers.lookup fiber).bind (holdsAt site) = none := by
    rw [hfound]
    exact holdsAt_of_held_none (congrArg Local.Pc.held hpc)
  have hfailed : holdsAt site (f.referenceTask site.local' running false now)
      = (s.fibers.lookup fiber).bind (holdsAt site) := hbefore.symm
  have hattached : holdsAt site (f.referenceTask site.local' running true now)
      = some running.servantTaskId :=
    holdsAt_of_held (.referenced running) rfl hserver
  cases outcome with
  | refused => exact h.fiber rfl hfailed le_rfl rfl rfl rfl
  | answered =>
      unfold SharedServant.referenceTask
      by_cases hmem : running.servantTaskId ∈ s.engine.tasks
      · refine h.reference hmem rfl (acquires_answered rfl rfl hbefore ?_)
        unfold Cloud.ExecutionEngine.tryReferenceTask
        rw [if_pos hmem]
        exact hattached
      · unfold Cloud.ExecutionEngine.tryReferenceTask
        rw [if_neg hmem]
        exact h.fiber rfl hfailed le_rfl rfl rfl rfl
  | replyLost =>
      unfold SharedServant.referenceTask
      by_cases hmem : running.servantTaskId ∈ s.engine.tasks
      · have htrue : (s.engine.tryReferenceTask running.servantTaskId).1 = true := by
          unfold Cloud.ExecutionEngine.tryReferenceTask
          rw [if_pos hmem]
        dsimp only
        rw [if_pos htrue]
        exact h.reference hmem rfl (acquires_lost rfl rfl hfailed)
      · unfold Cloud.ExecutionEngine.tryReferenceTask
        rw [if_neg hmem]
        exact h.fiber rfl hfailed le_rfl rfl rfl rfl

theorem RefCounts.startTask (h : RefCounts site s) {fiber : FiberId} {f : Local.Fiber}
    {grant : Local.GrantDesc} (hfound : s.fibers.lookup fiber = some f)
    (hpc : f.pc = .starting grant) (hcalls : Calls site f) (outcome : RpcOutcome)
    (memoryAvailable pid now : ℕ) :
    RefCounts site (s.startTask site fiber f grant outcome memoryAvailable pid now) := by
  have hserver := (calls_iff hpc rfl).mp hcalls
  have hbefore : (s.fibers.lookup fiber).bind (holdsAt site) = none := by
    rw [hfound]
    exact holdsAt_of_held_none (congrArg Local.Pc.held hpc)
  have hfailed : holdsAt site (f.startTask site.local' grant none now)
      = (s.fibers.lookup fiber).bind (holdsAt site) := hbefore.symm
  have hstarted : ∀ taskId, holdsAt site (f.startTask site.local' grant (some taskId) now)
      = some taskId :=
    fun taskId => holdsAt_of_held (.started grant taskId) rfl hserver
  cases outcome with
  | refused => exact h.fiber rfl hfailed le_rfl rfl rfl rfl
  | answered =>
      unfold SharedServant.startTask
      rcases Cloud.ExecutionEngine.tryQueueTask_cases grant.grantId f.task.digest
        memoryAvailable pid now s.engine with
        ⟨nextTaskId, hnext, heq⟩ | ⟨runningTasks, tasksRunEver, heq⟩
      · rw [heq]
        exact h.fiber rfl hfailed hnext rfl rfl rfl
      · rw [heq]
        exact h.start rfl rfl (acquires_answered rfl rfl hbefore (hstarted _))
  | replyLost =>
      unfold SharedServant.startTask
      rcases Cloud.ExecutionEngine.tryQueueTask_cases grant.grantId f.task.digest
        memoryAvailable pid now s.engine with
        ⟨nextTaskId, hnext, heq⟩ | ⟨runningTasks, tasksRunEver, heq⟩
      · rw [heq]
        exact h.fiber rfl hfailed hnext rfl rfl rfl
      · rw [heq]
        exact h.start rfl rfl (acquires_lost rfl rfl hfailed)

/-- A fiber that frees a task held it, and does no longer. -/
theorem holders_freeServantTask {fiber : FiberId} {f : Local.Fiber} {held : Local.Held}
    (hfound : s.fibers.lookup fiber = some f) (hpc : f.pc = .freeing held)
    (hcalls : Calls site f)
    (hfibers : t.fibers = s.fibers.insert fiber (f.freeServantTask site.local' held))
    (id : Cloud.TaskId) :
    holders site s id = holders site t id + if id = held.acquired then 1 else 0 := by
  have hheld : holdsAt site f = some held.acquired :=
    holdsAt_of_held held (congrArg Local.Pc.held hpc) ((calls_iff hpc rfl).mp hcalls)
  have hafter : holdsAt site (f.freeServantTask site.local' held) = none :=
    holdsAt_of_held_none (Local.Fiber.held_freeServantTask held)
  have hinsert := holders_insert site _ hfibers id
  simp only [hfound, Option.bind_some, hheld, hafter, Option.some_inj, reduceCtorEq,
    if_false, Nat.add_zero, eq_comm (b := id)] at hinsert
  exact hinsert.symm

/-- The fiber gives back what it holds, to the servant or to no one. -/
theorem RefCounts.freeServantTask (h : RefCounts site s) {fiber : FiberId} {f : Local.Fiber}
    {held : Local.Held} (hfound : s.fibers.lookup fiber = some f)
    (hpc : f.pc = .freeing held) (hcalls : Calls site f) (outcome : RpcOutcome)
    (hown : held.freed f.task.taskId = held.acquired) :
    RefCounts site (s.freeServantTask site fiber f held outcome) := by
  have hcount : ∀ id, holders site s id
      = holders site (s.setFiber fiber (f.freeServantTask site.local' held)) id
        + if id = held.acquired then 1 else 0 :=
    holders_freeServantTask hfound hpc hcalls rfl
  have hheld : holdsAt site f = some held.acquired :=
    holdsAt_of_held held (congrArg Local.Pc.held hpc) ((calls_iff hpc rfl).mp hcalls)
  unfold SharedServant.freeServantTask
  split
  · refine h.quiet le_rfl (.refl _) (fun _ => rfl) fun id => ?_
    change holders site (s.setFiber fiber _) id
      + Function.update s.lost held.acquired (s.lost held.acquired + 1) id = _
    unfold outstanding
    rw [hcount id, Function.update_apply]
    split
    · next heq =>
        subst heq
        omega
    · rfl
  · refine h.free (h.numbered (.inr (holders_pos hfound hheld))) (by rw [hown]; rfl) fun id => ?_
    unfold outstanding
    rw [hcount id]
    exact Nat.add_right_comm _ _ _

theorem RefCounts.step {a : Action} (h : RefCounts site s)
    (hstep : Guarded (Step site) Returns s a t) : RefCounts site t := by
  obtain ⟨hnext, hreturns⟩ := hstep
  cases effect_of_step hnext with
  | queueTask taskId digest cacheSetting startDeadline now unused =>
      refine h.fiber rfl ?_ le_rfl rfl rfl rfl
      rw [unused]
      rfl
  | fiber f f' found elsewhere step =>
      refine h.fiber rfl ?_ le_rfl rfl rfl rfl
      rw [found]
      exact holdsAt_of_elsewhere step elsewhere
  | die f found => exact h.die found
  | referenceTask f running found pc calls => exact h.referenceTask found pc calls _ _
  | startTask f grant found pc calls pidFree => exact h.startTask found pc calls _ _ _ _
  | pollArrives f held retriesLeft found pc calls =>
      exact h.quiet le_rfl (.refl _) (fun _ => rfl) fun _ => rfl
  | pollFailed f held retriesLeft found pc calls =>
      refine h.fiber rfl ?_ le_rfl rfl rfl rfl
      rw [found]
      exact holdsAt_poll pc _
  | pollAnswered f held retriesLeft foundTask found pc calls arrived =>
      refine h.fiber rfl ?_ le_rfl rfl rfl rfl
      rw [found]
      exact holdsAt_poll pc _
  | freeServantTask f held found pc calls =>
      exact h.freeServantTask found pc calls _ (freed_of_returns hreturns found pc)
  | engine engine isInternal step =>
      exact h.engine (Cloud.ExecutionEngine.quiet_of_internal isInternal step) rfl rfl
  | heartbeat => exact h.quiet le_rfl (.refl _) (fun _ => rfl) fun _ => rfl
  | notify taskIds scheduler sent applied =>
      exact h.quiet le_rfl (.refl _) (fun _ => rfl) fun _ => rfl
  | answer sent =>
      exact h.engine (Cloud.ExecutionEngine.sameTasks_killExpiredTasks _ _).quiet rfl rfl
  | scheduler scheduler foreign step =>
      exact h.quiet le_rfl (.refl _) (fun _ => rfl) fun _ => rfl

theorem refCounts_new (taskConcurrencyLimit : UInt64) (minMemory : ℕ) :
    RefCounts site (new taskConcurrencyLimit minMemory) where
  distinct := List.nodup_nil
  count taskId hmem := by cases hmem
  fresh taskId hle := ⟨List.not_mem_nil, rfl⟩

theorem refCounts_of_run {taskConcurrencyLimit : UInt64} {minMemory : ℕ} {as : List Action}
    (run : Run (Guarded (Step site) Returns) (new taskConcurrencyLimit minMemory) as s) :
    RefCounts site s :=
  run.invariant (fun _ _ _ h hstep => h.step hstep) (refCounts_new _ _)

/-- A guarded `FreeTask` comes from a fiber that holds the task, and frees that task. -/
theorem frees_held {fiber : FiberId} {outcome : RpcOutcome}
    (hstep : Guarded (Step site) Returns s (.freeServantTask fiber outcome) t) :
    ∃ f taskId, s.fibers.lookup fiber = some f ∧ holdsAt site f = some taskId ∧
      t.engine = if outcome = .refused then s.engine else s.engine.freeTask taskId := by
  obtain ⟨hnext, hreturns⟩ := hstep
  cases effect_of_step hnext with
  | freeServantTask f held found pc calls =>
      refine ⟨f, held.acquired, found,
        holdsAt_of_held held (congrArg Local.Pc.held pc) ((calls_iff pc rfl).mp calls), ?_⟩
      unfold SharedServant.freeServantTask
      rw [freed_of_returns hreturns found pc]
      split
      · rfl
      · rfl

/-- A fiber gives back what it acquired exactly if every task it attached to has the ID of
its own task. As long as fibers free the tasks they hold, the count of every task is the
number of its holders and of the references lost on the way, and a task is freed by a holder
only. -/
theorem references_balanced (site : Site) (taskConcurrencyLimit : UInt64) (minMemory : ℕ) :
    (∀ taskId digest cacheSetting startDeadline now events f,
      Run (Local.Fiber.Step site.local') (.queued taskId digest cacheSetting startDeadline now)
        events f →
      f.pc = .done →
      (f.freed.Perm (f.started ++ f.referenced) ↔ ∀ p ∈ f.referenced, p.2 = taskId)) ∧
    ∀ as s, Run (Guarded (Step site) Returns) (new taskConcurrencyLimit minMemory) as s →
      (∀ taskId ∈ s.engine.tasks,
        s.engine.refs taskId = some (holders site s taskId + s.lost taskId)) ∧
      ∀ fiber outcome t, Guarded (Step site) Returns s (.freeServantTask fiber outcome) t →
        ∃ f taskId, s.fibers.lookup fiber = some f ∧ holdsAt site f = some taskId ∧
          t.engine = if outcome = .refused then s.engine else s.engine.freeTask taskId := by
  refine ⟨fun taskId digest cacheSetting startDeadline now events f run hdone =>
    Local.Fiber.freed_perm_acquired_iff run hdone, ?_⟩
  intro as s run
  exact ⟨(refCounts_of_run run).count, fun fiber outcome t hstep => frees_held hstep⟩

/-- Stubs talk to the servant they are made for, and files are not looked at. -/
def sampleSite : Site where
  location := "10.0.0.1:1"
  local' := ⟨"", fun _ => some []⟩
  scheduler := Scheduler.TaskDispatcher.sampleConfig

/-- A fiber attaches to a task of the servant, waits for it and leaves. -/
def attachTo (servantTaskId : ℕ) : List Local.Event :=
  [.readCache none, .findTask (some ⟨"10.0.0.1:1", servantTaskId⟩), .referenceTask true 1,
    .checkWait, .poll (some ⟨.done, 1, [], [], [], []⟩), .freeServantTask, .complete 2]

/-- A fiber starts a task of its own on the servant. -/
def startOn (fiber : FiberId) (taskId pid : ℕ) (grantId : UInt64) : List Action :=
  [.queueTask fiber taskId "d" .allow 0 0, .fiber fiber (.readCache none),
    .fiber fiber (.findTask none), .fiber fiber .checkGrant,
    .fiber fiber (.getGrant (some ⟨grantId, "10.0.0.1:1"⟩) 0),
    .startTask fiber .answered 0 pid 0]

/-- A fiber attaches to a task of the servant and gives up waiting. -/
def attachAndLeave (fiber : FiberId) (taskId servantTaskId : ℕ) : List Action :=
  [.queueTask fiber taskId "d" .allow 0 0, .fiber fiber (.readCache none),
    .fiber fiber (.findTask (some ⟨"10.0.0.1:1", servantTaskId⟩)),
    .referenceTask fiber .answered 0, .fiber fiber .abort, .fiber fiber .checkWait,
    .freeServantTask fiber .answered]

theorem references_balanced_sameId :
    (∃ f, follow (Local.Fiber.next sampleSite.local') (attachTo 3)
        (.queued 3 "d" .allow 0 0) = some f ∧ f.freed.Perm (f.started ++ f.referenced)) ∧
    ∃ s, follow (guardedNext (next sampleSite) Returns)
        (startOn 0 5 100 11 ++ attachAndLeave 1 1 1) (new 4 0) = some s ∧
      s.engine.refs 1 = some (holders sampleSite s 1 + s.lost 1) := by
  constructor
  · have hfinal : ((follow (Local.Fiber.next sampleSite.local') (attachTo 3)
        (.queued 3 "d" .allow 0 0)).bind fun f => some (f.pc, f.referenced))
        = some (.done, [("10.0.0.1:1", 3)]) := by
      decide
    obtain ⟨f, hfollow, hf⟩ := Option.bind_eq_some_iff.mp hfinal
    obtain ⟨hdone, hreferenced⟩ := Prod.mk.inj (Option.some.inj hf)
    refine ⟨f, hfollow, ((references_balanced sampleSite 4 0).1 3 "d" .allow 0 0 _ f
      (.of_follow (fun _ _ _ h => h) hfollow) hdone).mpr ?_⟩
    simp [hreferenced]
  · have hfinal : ((follow (guardedNext (next sampleSite) Returns)
        (startOn 0 5 100 11 ++ attachAndLeave 1 1 1) (new 4 0)).bind fun s =>
          some s.engine.tasks) = some [1] := by
      decide
    obtain ⟨s, hfollow, hs⟩ := Option.bind_eq_some_iff.mp hfinal
    refine ⟨s, hfollow, ((references_balanced sampleSite 4 0).2 _ s
      (.of_follow (guarded_of_guardedNext fun _ _ _ h => h) hfollow)).1 1 ?_⟩
    simp [Option.some.inj hs]

/-- A task with another ID than the one attached to frees a task that it does not hold.
With two other clients on the servant, one loses its task and the other's is never freed. -/
theorem free_of_attached :
    (∃ f, Run (Local.Fiber.Step sampleSite.local') (.queued 3 "d" .allow 0 0) (attachTo 7) f ∧
      f.pc = .done ∧ f.started = [] ∧ f.referenced = [("10.0.0.1:1", 7)] ∧
      f.freed = [("10.0.0.1:1", 3)] ∧ ¬f.freed.Perm (f.started ++ f.referenced)) ∧
    ∃ s, Run (Step sampleSite) (new 4 0)
        (startOn 0 5 100 11 ++ startOn 1 6 101 12 ++ attachAndLeave 2 1 2) s ∧
      holders sampleSite s 1 = 1 ∧ 1 ∉ s.engine.tasks ∧
      holders sampleSite s 2 = 1 ∧ s.lost 2 = 0 ∧ 2 ∈ s.engine.tasks ∧
      s.engine.refs 2 = some 2 := by
  constructor
  · refine ⟨(follow (Local.Fiber.next sampleSite.local') (attachTo 7)
      (.queued 3 "d" .allow 0 0)).get (by decide),
      .of_follow (fun _ _ _ h => h) (Option.some_get (by decide)).symm, ?_⟩
    decide
  · refine ⟨(follow (next sampleSite)
      (startOn 0 5 100 11 ++ startOn 1 6 101 12 ++ attachAndLeave 2 1 2) (new 4 0)).get
        (by decide), .of_follow (fun _ _ _ h => h) (Option.some_get (by decide)).symm, ?_⟩
    decide

end SharedServant

end Yadcc.Daemon
