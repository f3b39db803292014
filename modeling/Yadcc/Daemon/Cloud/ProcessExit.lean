/-
# From the exit of a child to the completion of its task

A child goes through a life of its own: it is started, writes, exits, is waited for, and
its exit is handled by a fiber. `Track` is what there is to know of one task in this
respect, and `TrackStep` are the steps of that life. As long as an exit callback finds no
task with the same process ID but its own, every step of the engine is a step in the life
of one task and leaves all others alone.
-/

import Yadcc.Daemon.Cloud.ExecutionEngine

namespace Yadcc.Daemon.Cloud

open Yadcc.Lib

/-! ## The life of a task -/

/-- How far a task has come. -/
structure Progress where
  processId : Pid
  isRunning : Bool
  completions : List Output
  countDowns : ℕ

/-- What became of a child. -/
structure Life where
  pid : Pid
  state : ProcessState
  standardOutput : List UInt8
  standardError : List UInt8

def TaskDesc.progress {τ : Type} (desc : TaskDesc τ) : Progress :=
  ⟨desc.processId, desc.isRunning, desc.completions, desc.countDowns⟩

def Process.life (p : Process) : Life :=
  ⟨p.pid, p.state, p.standardOutput, p.standardError⟩

/-- One task: whether its number was given out, its progress, its child, the fiber of its
child's exit, and whether it is in the table. -/
structure Track where
  numbered : Bool
  progress : Option Progress
  life : Option Life
  callback : Option CallbackState
  listed : Bool

/-- What a child with this life leaves when it exits with a code. -/
def Life.output (life : Life) (exitCode : ℤ) : Output :=
  ⟨exitCode, life.standardOutput, life.standardError⟩

namespace Track

/-- A task that was never started. -/
def absent (numbered : Bool) : Track := ⟨numbered, none, none, none, false⟩

/-- A task that was just started. -/
def started (pid : Pid) : Track :=
  ⟨true, some ⟨pid, true, [], 0⟩, some ⟨pid, .running, [], []⟩, none, true⟩

/-- How the progress of a task and the fiber of its child's exit go together. A task that
left the table before that fiber took the lock is never completed. -/
def Phase (taskId : TaskId) (listed : Bool) (progress : Progress) (life : Life) :
    Option CallbackState → Prop
  | none => (∀ exitCode, life.state ≠ .reaped exitCode) ∧ progress = ⟨life.pid, true, [], 0⟩
  | some (.started pid exitCode) => pid = life.pid ∧ life.state = .reaped exitCode ∧
      progress = ⟨life.pid, true, [], 0⟩
  | some (.completing found output) => found = taskId ∧ ∃ exitCode,
      life.state = .reaped exitCode ∧ output = life.output exitCode ∧
      progress = ⟨life.pid, false, [], 0⟩
  | some (.signalling found) => found = taskId ∧ ∃ exitCode,
      life.state = .reaped exitCode ∧ progress = ⟨life.pid, false, [life.output exitCode], 0⟩
  | some .finished => ∃ exitCode, life.state = .reaped exitCode ∧
      (progress = ⟨life.pid, false, [life.output exitCode], 1⟩ ∨
        listed = false ∧ progress = ⟨life.pid, true, [], 0⟩)

/-- A task is absent or in one of the phases. -/
inductive Good (taskId : TaskId) : Track → Prop
  | absent (numbered : Bool) : Good taskId (.absent numbered)
  | present {progress : Progress} {life : Life} {callback : Option CallbackState} {listed : Bool} :
      Phase taskId listed progress life callback →
      Good taskId ⟨true, some progress, some life, callback, listed⟩

/-- The steps in the life of a task. -/
inductive TrackStep (taskId : TaskId) : Track → Track → Prop
  | waste : TrackStep taskId (absent false) (absent true)
  | start (pid : Pid) : TrackStep taskId (absent false) (started pid)
  | unlist (t : Track) : TrackStep taskId t { t with listed := false }
  | write {n l : Bool} {progress : Option Progress} (life : Life)
      {callback : Option CallbackState} (standardOutput standardError : List UInt8) :
      life.state = .running →
      TrackStep taskId ⟨n, progress, some life, callback, l⟩ ⟨n, progress, some { life with
        standardOutput := life.standardOutput ++ standardOutput
        standardError := life.standardError ++ standardError }, callback, l⟩
  | exit {n l : Bool} {progress : Option Progress} (life : Life)
      {callback : Option CallbackState} (exitCode : ℤ) : life.state = .running →
      TrackStep taskId ⟨n, progress, some life, callback, l⟩
        ⟨n, progress, some { life with state := .exited exitCode }, callback, l⟩
  | reap {n l : Bool} {progress : Option Progress} (life : Life)
      {callback : Option CallbackState} (exitCode : ℤ) : life.state = .exited exitCode →
      TrackStep taskId ⟨n, progress, some life, callback, l⟩
        ⟨n, progress, some { life with state := .reaped exitCode },
          some (.started life.pid exitCode), l⟩
  | miss {n : Bool} {progress : Option Progress} {life : Option Life} (pid : Pid)
      (exitCode : ℤ) :
      TrackStep taskId ⟨n, progress, life, some (.started pid exitCode), false⟩
        ⟨n, progress, life, some .finished, false⟩
  | complete {n : Bool} {progress : Progress} {life : Life} (pid : Pid) (exitCode : ℤ) :
      TrackStep taskId ⟨n, some progress, some life, some (.started pid exitCode), true⟩
        ⟨n, some { progress with isRunning := false }, some life,
          some (.completing taskId (life.output exitCode)), true⟩
  | tell {n l : Bool} {progress : Progress} {life : Option Life} (output : Output) :
      TrackStep taskId ⟨n, some progress, life, some (.completing taskId output), l⟩
        ⟨n, some { progress with completions := progress.completions ++ [output] }, life,
          some (.signalling taskId), l⟩
  | signal {n l : Bool} {progress : Progress} {life : Option Life} :
      TrackStep taskId ⟨n, some progress, life, some (.signalling taskId), l⟩
        ⟨n, some { progress with countDowns := progress.countDowns + 1 }, life,
          some .finished, l⟩

/-- Before a child was waited for there is no fiber, and its task runs. -/
theorem Phase.unreaped {taskId : TaskId} {listed : Bool} {progress : Progress} {life : Life}
    {callback : Option CallbackState} (h : Phase taskId listed progress life callback)
    (hlife : ∀ exitCode, life.state ≠ .reaped exitCode) :
    callback = none ∧ progress = ⟨life.pid, true, [], 0⟩ := by
  match callback with
  | none => exact ⟨rfl, h.2⟩
  | some (.started pid exitCode) => exact absurd h.2.1 (hlife exitCode)
  | some (.completing found output) =>
      obtain ⟨-, exitCode, hstate, -⟩ := h
      exact absurd hstate (hlife exitCode)
  | some (.signalling found) =>
      obtain ⟨-, exitCode, hstate, -⟩ := h
      exact absurd hstate (hlife exitCode)
  | some .finished =>
      obtain ⟨exitCode, hstate, -⟩ := h
      exact absurd hstate (hlife exitCode)

/-- Every step keeps a task in a phase. -/
theorem Good.step {taskId : TaskId} {t t' : Track} (h : Good taskId t)
    (hstep : TrackStep taskId t t') : Good taskId t' := by
  cases hstep with
  | waste => exact .absent true
  | start pid => exact .present ⟨fun exitCode => by simp, rfl⟩
  | unlist =>
      cases h with
      | absent numbered => exact .absent numbered
      | @present progress life callback listed hphase =>
          refine .present ?_
          match callback with
          | none => exact hphase
          | some (.started pid exitCode) => exact hphase
          | some (.completing found output) => exact hphase
          | some (.signalling found) => exact hphase
          | some .finished =>
              obtain ⟨exitCode, hstate, hdone | ⟨-, hmissed⟩⟩ := hphase
              · exact ⟨exitCode, hstate, .inl hdone⟩
              · exact ⟨exitCode, hstate, .inr ⟨rfl, hmissed⟩⟩
  | write life standardOutput standardError hrunning =>
      cases h with
      | present hphase =>
          obtain ⟨rfl, hprogress⟩ := hphase.unreaped fun exitCode => by simp [hrunning]
          exact .present ⟨fun exitCode => by simp [hrunning], hprogress⟩
  | exit life exitCode hrunning =>
      cases h with
      | present hphase =>
          obtain ⟨rfl, hprogress⟩ := hphase.unreaped fun exitCode => by simp [hrunning]
          exact .present ⟨fun exitCode => by simp, hprogress⟩
  | reap life exitCode hexited =>
      cases h with
      | present hphase =>
          obtain ⟨-, hprogress⟩ := hphase.unreaped fun exitCode => by simp [hexited]
          exact .present ⟨rfl, rfl, hprogress⟩
  | miss pid exitCode =>
      cases h with
      | present hphase =>
          obtain ⟨-, hstate, hprogress⟩ := hphase
          exact .present ⟨exitCode, hstate, .inr ⟨rfl, hprogress⟩⟩
  | complete pid exitCode =>
      cases h with
      | present hphase =>
          obtain ⟨-, hstate, rfl⟩ := hphase
          exact .present ⟨rfl, exitCode, hstate, rfl, rfl⟩
  | tell output =>
      cases h with
      | present hphase =>
          obtain ⟨-, exitCode, hstate, rfl, rfl⟩ := hphase
          exact .present ⟨rfl, exitCode, hstate, rfl⟩
  | signal =>
      cases h with
      | present hphase =>
          obtain ⟨-, exitCode, hstate, rfl⟩ := hphase
          exact .present ⟨exitCode, hstate, .inl rfl⟩

end Track

namespace ExecutionEngine

variable {τ : Type} {e e' : ExecutionEngine τ}

/-- The life of one task in a state. -/
def track (e : ExecutionEngine τ) (taskId : TaskId) : Track where
  numbered := decide (taskId < e.nextTaskId)
  progress := (e.descs.lookup taskId).map TaskDesc.progress
  life := (e.processes.lookup taskId).map Process.life
  callback := e.callbacks.lookup taskId
  listed := decide (taskId ∈ e.tasks)

/-! ## Steps outside the life of a task -/

/-- A signal does not show until the child exits. -/
theorem track_kill (pid : Pid) : (e.kill pid).track = e.track := by
  funext taskId
  have hlife : ((e.kill pid).processes.lookup taskId).map Process.life
      = (e.processes.lookup taskId).map Process.life := by
    unfold kill
    rw [AList.lookup_mapValues, Option.map_map]
    congr 1
    funext p
    rw [Function.comp_apply]
    split
    · rfl
    · rfl
  unfold track
  rw [hlife]
  rfl

theorem track_killTask (taskId : TaskId) : (e.killTask taskId).track = e.track := by
  unfold killTask
  split
  · rfl
  · split
    · exact track_kill _
    · rfl

/-- A loop over tasks whose body does not show does not show. -/
theorem track_foldl {f : ExecutionEngine τ → TaskId → ExecutionEngine τ}
    (hf : ∀ e taskId, (f e taskId).track = e.track) (taskIds : List TaskId) :
    ∀ e, (taskIds.foldl f e).track = e.track := by
  induction taskIds with
  | nil =>
      intro e
      rfl
  | cons taskId taskIds ih =>
      intro e
      rw [List.foldl_cons, ih, hf]

theorem track_killExpiredTasks (expiredGrantIds : List GrantId) :
    (e.killExpiredTasks expiredGrantIds).track = e.track := by
  unfold killExpiredTasks
  refine track_foldl (fun e taskId => ?_) _ _
  unfold killIfExpired
  split
  · rfl
  · split
    · exact track_killTask taskId
    · rfl

/-- Changing a reference count does not show. -/
theorem track_dereferenced (taskId : TaskId) (f : TaskDesc τ → TaskDesc τ)
    (hf : ∀ desc, (f desc).progress = desc.progress) :
    ({ e with descs := e.descs.modify taskId f } : ExecutionEngine τ).track = e.track := by
  funext id
  unfold track
  have hprogress : ((e.descs.modify taskId f).lookup id).map TaskDesc.progress
      = (e.descs.lookup id).map TaskDesc.progress := by
    rw [AList.lookup_modify]
    split
    · next h =>
        rw [h, Option.map_map]
        congr 1
        funext desc
        exact hf desc
    · rfl
  rw [hprogress]

theorem track_tryReferenceTask (taskId : TaskId) :
    (e.tryReferenceTask taskId).2.track = e.track := by
  unfold tryReferenceTask
  split
  · exact track_dereferenced taskId _ fun _ => rfl
  · rfl

theorem track_waiterStep (h : e.waiterStep = some e') : e'.track = e.track := by
  unfold waiterStep at h
  split at h
  · cases h
    rfl
  · split at h
    · cases h
    · cases h
      rfl
  · cases h
    rfl
  · cases h

theorem track_waitFailed (h : e.waitFailed = some e') : e'.track = e.track := by
  unfold waitFailed at h
  split at h
  · cases h
    rfl
  · cases h

theorem track_killAll (h : e.killAll = some e') : e'.track = e.track := by
  unfold killAll at h
  split at h
  · cases h
    exact track_foldl (fun _ taskId => track_killTask taskId) e.tasks e
  · cases h

theorem track_killFreed {taskId : TaskId} (h : e.killFreed taskId = some e') :
    e'.track = e.track := by
  unfold killFreed at h
  split at h
  · cases h
    exact track_killTask taskId
  · cases h

/-! ## Steps in the life of a task -/

/-- Every task either takes a step of its life or stays as it is. -/
def Lives (e e' : ExecutionEngine τ) : Prop :=
  ∀ taskId, e'.track taskId = e.track taskId ∨
    Track.TrackStep taskId (e.track taskId) (e'.track taskId)

theorem Lives.of_track_eq (h : e'.track = e.track) : Lives e e' :=
  fun taskId => .inl (congrFun h taskId)

/-- A step that concerns one task only. -/
theorem Lives.of_one (taskId : TaskId)
    (hstep : Track.TrackStep taskId (e.track taskId) (e'.track taskId))
    (hother : ∀ id, id ≠ taskId → e'.track id = e.track id) : Lives e e' := by
  intro id
  by_cases hid : id = taskId
  · subst hid
    exact .inr hstep
  · exact .inl (hother id hid)

/-- The invariant: every task is absent or in a phase of its life. -/
def Tracked (e : ExecutionEngine τ) : Prop :=
  ∀ taskId, Track.Good taskId (e.track taskId)

theorem Tracked.lives (h : Tracked e) (hlives : Lives e e') : Tracked e' := by
  intro taskId
  rcases hlives taskId with heq | hstep
  · rw [heq]
    exact h taskId
  · exact (h taskId).step hstep

/-- Tasks may leave the table. -/
theorem Lives.unlist {e₁ : ExecutionEngine τ} (hsame : e₁.track = e.track) {tasks : List TaskId}
    (hsub : ∀ id ∈ tasks, id ∈ e.tasks)
    (htrack : ∀ id, e'.track id = { e₁.track id with listed := decide (id ∈ tasks) }) :
    Lives e e' := by
  intro id
  rw [htrack, hsame]
  by_cases hlisted : id ∈ tasks
  · refine .inl ?_
    unfold track
    simp [hlisted, hsub id hlisted]
  · rw [decide_eq_false hlisted]
    exact .inr (.unlist _)

theorem lives_freeTask (taskId : TaskId) : Lives e (e.freeTask taskId) := by
  unfold freeTask
  split
  · exact .of_track_eq rfl
  · dsimp only
    have hsame := track_dereferenced (e := e) taskId
      (fun desc => { desc with clientRefCount := desc.clientRefCount - 1 }) fun _ => rfl
    split
    · exact .of_track_eq hsame
    · exact .unlist hsame (fun id hid => List.mem_of_mem_erase hid) fun _ => rfl

theorem lives_onCleanupTimer (now : Nanoseconds) : Lives e (e.onCleanupTimer now) :=
  .unlist rfl (fun _ hid => List.mem_of_mem_filter hid) fun _ => rfl

/-- A number that was not given out yet belongs to nothing. -/
theorem Track.Good.absent_of_not_numbered {taskId : TaskId} {t : Track}
    (h : Track.Good taskId t) (hnumbered : t.numbered = false) : t = .absent false := by
  cases h with
  | absent numbered =>
      cases hnumbered
      rfl
  | present => cases hnumbered

theorem lives_tryQueueTask (htracked : Tracked e) (grantId : GrantId) (userTask : τ)
    (memoryAvailable : ℕ) (pid : Pid) (now : Nanoseconds) :
    Lives e (e.tryQueueTask grantId userTask memoryAvailable pid now).2 := by
  have habsent : e.track e.nextTaskId = .absent false :=
    Track.Good.absent_of_not_numbered (htracked e.nextTaskId) (by simp [track])
  have hother : ∀ id, id ≠ e.nextTaskId → (id ≤ e.nextTaskId ↔ id < e.nextTaskId) := by
    intro id hid
    rw [Nat.lt_iff_le_and_ne]
    exact (and_iff_left hid).symm
  have hwaste : Lives e { e with nextTaskId := e.nextTaskId + 1 } := by
    refine .of_one e.nextTaskId ?_ fun id hid => ?_
    · have hnew : ({ e with nextTaskId := e.nextTaskId + 1 } : ExecutionEngine τ).track
          e.nextTaskId = { e.track e.nextTaskId with numbered := true } := by
        simp [track]
      rw [hnew, habsent]
      exact .waste
    · simp [track, hother id hid]
  unfold tryQueueTask
  rw [tryStartingNewTaskUnsafe_eq]
  split_ifs
  · exact .of_track_eq rfl
  · exact hwaste
  · have hnone : e.callbacks.lookup e.nextTaskId = none := congrArg Track.callback habsent
    refine .of_one e.nextTaskId ?_ fun id hid => ?_
    · rw [habsent]
      have hnew : ∀ e'' : ExecutionEngine τ, e''.track e.nextTaskId = .started pid →
          Track.TrackStep e.nextTaskId (.absent false) (e''.track e.nextTaskId) := by
        intro e'' h
        rw [h]
        exact .start pid
      refine hnew _ ?_
      simp [track, startProgram, newTask, hnone, Track.started, TaskDesc.progress, Process.life]
    · simp [track, startProgram, hother id hid, hid]

/-- What `track` shows of a child. -/
theorem track_child {taskId : TaskId} {p : Process} (h : e.processes.lookup taskId = some p) :
    e.track taskId = ⟨decide (taskId < e.nextTaskId),
      (e.descs.lookup taskId).map TaskDesc.progress, some p.life, e.callbacks.lookup taskId,
      decide (taskId ∈ e.tasks)⟩ := by
  unfold track
  rw [h]
  rfl

theorem lives_write {child : TaskId} {standardOutput standardError : List UInt8}
    (h : e.write child standardOutput standardError = some e') : Lives e e' := by
  unfold write at h
  split at h
  · cases h
  · next p hp =>
      split at h
      · next hrunning =>
          cases h
          refine .of_one child ?_ fun id hid => ?_
          · rw [track_child hp, track_child (AList.lookup_insert _)]
            exact .write p.life standardOutput standardError hrunning
          · unfold track
            rw [AList.lookup_insert_ne hid]
      · cases h

theorem lives_exit {child : TaskId} {exitCode : ℤ} (h : e.exit child exitCode = some e') :
    Lives e e' := by
  unfold exit at h
  split at h
  · cases h
  · next p hp =>
      split at h
      · next hrunning =>
          cases h
          refine .of_one child ?_ fun id hid => ?_
          · rw [track_child hp, track_child (AList.lookup_insert _)]
            exact .exit p.life exitCode hrunning
          · unfold track
            rw [AList.lookup_insert_ne hid]
      · cases h

theorem lives_wait {child : TaskId} (h : e.wait child = some e') : Lives e e' := by
  unfold wait at h
  split at h
  · next p hwaiter hp =>
      split at h
      · next exitCode hstate =>
          cases h
          refine .of_one child ?_ fun id hid => ?_
          · rw [track_child hp, track_child (AList.lookup_insert _), AList.lookup_insert]
            exact .reap p.life exitCode hstate
          · unfold track
            rw [AList.lookup_insert_ne hid, AList.lookup_insert_ne hid]
      · cases h
  · cases h

/-! ## Exit callbacks -/

/-- No task of the table has the process ID of an exit but the one whose child exited. -/
def ownPid (e : ExecutionEngine τ) : Action τ → Bool
  | .callbackLocked child _ _ =>
      match e.callbacks.lookup child with
      | some (.started pid _) => e.tasks.all fun taskId => taskId == child ||
          (e.descs.lookup taskId).all fun desc => desc.processId != pid
      | _ => true
  | _ => true

/-- The steps that do not complete the task of another child. -/
def OwnPid (e : ExecutionEngine τ) (a : Action τ) : Prop := e.ownPid a = true

instance (e : ExecutionEngine τ) (a : Action τ) : Decidable (OwnPid e a) :=
  inferInstanceAs (Decidable (e.ownPid a = true))

theorem ownPid_iff {child pid : ℕ} {found : Option TaskId} {now : Nanoseconds} {exitCode : ℤ}
    (hcallback : e.callbacks.lookup child = some (.started pid exitCode)) :
    OwnPid e (.callbackLocked child found now) ↔ ∀ taskId ∈ e.tasks, ∀ desc,
      e.descs.lookup taskId = some desc → desc.processId = pid → taskId = child := by
  unfold OwnPid ownPid
  simp only [hcallback, List.all_eq_true, Bool.or_eq_true, beq_iff_eq, Option.all_eq_true,
    bne_iff_ne]
  refine forall₂_congr fun taskId _ => ?_
  constructor
  · intro h desc hdesc hpid
    exact h.resolve_right fun hall => hall desc hdesc hpid
  · intro h
    by_cases heq : taskId = child
    · exact .inl heq
    · exact .inr fun desc hdesc hpid => heq (h desc hdesc hpid)

/-- What an exit callback finds is what its search allows. -/
theorem callbackLocked_cases {child : TaskId} {found : Option TaskId} {now : Nanoseconds}
    (h : e.callbackLocked child found now = some e') : ∃ pid exitCode,
    e.callbacks.lookup child = some (.started pid exitCode) ∧ finds pid found e = true ∧
    ((found = none ∧ e' = { e with
        runningTasks := e.runningTasks - 1
        callbacks := e.callbacks.insert child .finished }) ∨
      ∃ taskId, found = some taskId ∧ e' = { e with
        runningTasks := e.runningTasks - 1
        descs := e.descs.modify taskId fun desc =>
          { desc with
            completedAt := now
            isRunning := false }
        callbacks := e.callbacks.insert child
          (.completing taskId (readAll taskId exitCode e)) }) := by
  unfold callbackLocked at h
  split at h
  · next pid exitCode hcallback =>
      split at h
      · next hfinds =>
          refine ⟨pid, exitCode, hcallback, hfinds, ?_⟩
          cases found with
          | none =>
              cases h
              exact .inl ⟨rfl, rfl⟩
          | some taskId =>
              cases h
              exact .inr ⟨taskId, rfl, rfl⟩
      · cases h
  · cases h

/-- What the tables say of a task: nothing, or a description, a child and a phase. -/
theorem Tracked.cases (h : Tracked e) (taskId : TaskId) :
    (e.descs.lookup taskId = none ∧ e.processes.lookup taskId = none ∧
      e.callbacks.lookup taskId = none ∧ taskId ∉ e.tasks) ∨
    ∃ desc p, e.descs.lookup taskId = some desc ∧ e.processes.lookup taskId = some p ∧
      Track.Phase taskId (decide (taskId ∈ e.tasks)) desc.progress p.life
        (e.callbacks.lookup taskId) := by
  have hgood := h taskId
  generalize ht : e.track taskId = t at hgood
  cases hgood with
  | absent numbered =>
      refine .inl ⟨?_, ?_, congrArg Track.callback ht, ?_⟩
      · exact Option.map_eq_none_iff.mp (congrArg Track.progress ht)
      · exact Option.map_eq_none_iff.mp (congrArg Track.life ht)
      · exact of_decide_eq_false (congrArg Track.listed ht)
  | present hphase =>
      obtain ⟨desc, hdesc, rfl⟩ := Option.map_eq_some_iff.mp (congrArg Track.progress ht)
      obtain ⟨p, hp, rfl⟩ := Option.map_eq_some_iff.mp (congrArg Track.life ht)
      refine .inr ⟨desc, p, hdesc, hp, ?_⟩
      have hcallback := congrArg Track.callback ht
      have hlisted := congrArg Track.listed ht
      simp only [track] at hcallback hlisted
      rw [hcallback, hlisted]
      exact hphase

/-- A started fiber belongs to a task that has its process ID. -/
theorem Tracked.started (h : Tracked e) {child : TaskId} {pid : Pid} {exitCode : ℤ}
    (hcallback : e.callbacks.lookup child = some (.started pid exitCode)) :
    ∃ desc p, e.descs.lookup child = some desc ∧ e.processes.lookup child = some p ∧
      desc.processId = pid ∧ p.pid = pid ∧ p.state = .reaped exitCode := by
  rcases h.cases child with ⟨-, -, hnone, -⟩ | ⟨desc, p, hdesc, hp, hphase⟩
  · rw [hnone] at hcallback
    cases hcallback
  · rw [hcallback] at hphase
    obtain ⟨hpid, hstate, hprogress⟩ := hphase
    exact ⟨desc, p, hdesc, hp, (congrArg Progress.processId hprogress).trans hpid.symm,
      hpid.symm, hstate⟩

/-- A guarded search finds the task of the child, if that is still in the table. -/
theorem Tracked.found_eq (h : Tracked e) {child : TaskId} {found : Option TaskId}
    {now : Nanoseconds} (hown : OwnPid e (.callbackLocked child found now)) {pid : Pid}
    {exitCode : ℤ} (hcallback : e.callbacks.lookup child = some (.started pid exitCode))
    (hfinds : finds pid found e = true) : found = if child ∈ e.tasks then some child else none := by
  obtain ⟨desc, p, hdesc, -, hpid, -⟩ := h.started hcallback
  cases found with
  | none =>
      have hnot : child ∉ e.tasks := by
        intro hmem
        have hne := List.all_eq_true.mp hfinds child hmem
        rw [hdesc] at hne
        simp [hpid] at hne
      rw [if_neg hnot]
  | some taskId =>
      obtain ⟨hmem, hany⟩ := Bool.and_eq_true_iff.mp hfinds
      have hmem := of_decide_eq_true hmem
      obtain ⟨desc', hdesc', hpid'⟩ := (Option.any_eq_true _ _).mp hany
      have heq := (ownPid_iff hcallback).mp hown taskId hmem desc' hdesc' (by simpa using hpid')
      subst heq
      rw [if_pos hmem]

theorem lives_callbackLocked (h : Tracked e) {child : TaskId} {found : Option TaskId}
    {now : Nanoseconds} (hown : OwnPid e (.callbackLocked child found now))
    (hstep : e.callbackLocked child found now = some e') : Lives e e' := by
  obtain ⟨pid, exitCode, hcallback, hfinds, hcases⟩ := callbackLocked_cases hstep
  obtain ⟨desc, p, hdesc, hp, -⟩ := h.started hcallback
  have hfound := h.found_eq hown hcallback hfinds
  rcases hcases with ⟨rfl, rfl⟩ | ⟨taskId, rfl, rfl⟩
  · have hnot : child ∉ e.tasks := by
      intro hmem
      rw [if_pos hmem] at hfound
      cases hfound
    refine .of_one child ?_ fun id hid => ?_
    · unfold track
      rw [AList.lookup_insert, hcallback, decide_eq_false hnot]
      exact .miss pid exitCode
    · unfold track
      rw [AList.lookup_insert_ne hid]
  · have hmem : child ∈ e.tasks := by
      by_contra hnot
      rw [if_neg hnot] at hfound
      cases hfound
    rw [if_pos hmem] at hfound
    cases hfound
    refine .of_one child ?_ fun id hid => ?_
    · have houtput : readAll child exitCode e = p.life.output exitCode := by
        unfold readAll
        rw [hp]
        rfl
      unfold track
      rw [AList.lookup_insert, AList.lookup_modify, if_pos rfl, hcallback, hdesc, hp,
        decide_eq_true hmem, houtput]
      exact .complete pid exitCode
    · unfold track
      rw [AList.lookup_insert_ne hid, AList.lookup_modify, if_neg hid]

/-- The fiber that completes a task was started for its own child. -/
theorem Tracked.completing (h : Tracked e) {child found : TaskId} {output : Output}
    (hcallback : e.callbacks.lookup child = some (.completing found output)) :
    found = child ∧ ∃ desc, e.descs.lookup child = some desc := by
  rcases h.cases child with ⟨-, -, hnone, -⟩ | ⟨desc, p, hdesc, -, hphase⟩
  · rw [hnone] at hcallback
    cases hcallback
  · rw [hcallback] at hphase
    exact ⟨hphase.1, desc, hdesc⟩

theorem Tracked.signalling (h : Tracked e) {child found : TaskId}
    (hcallback : e.callbacks.lookup child = some (.signalling found)) :
    found = child ∧ ∃ desc, e.descs.lookup child = some desc := by
  rcases h.cases child with ⟨-, -, hnone, -⟩ | ⟨desc, p, hdesc, -, hphase⟩
  · rw [hnone] at hcallback
    cases hcallback
  · rw [hcallback] at hphase
    exact ⟨hphase.1, desc, hdesc⟩

theorem lives_callbackOnCompletion (h : Tracked e) {child : TaskId}
    (hstep : e.callbackOnCompletion child = some e') : Lives e e' := by
  unfold callbackOnCompletion at hstep
  split at hstep
  · next found output hcallback =>
      cases hstep
      obtain ⟨rfl, desc, hdesc⟩ := h.completing hcallback
      refine .of_one found ?_ fun id hid => ?_
      · unfold track
        rw [AList.lookup_insert, AList.lookup_modify, if_pos rfl, hcallback, hdesc]
        exact .tell output
      · unfold track
        rw [AList.lookup_insert_ne hid, AList.lookup_modify, if_neg hid]
  · cases hstep

theorem lives_callbackCountDown (h : Tracked e) {child : TaskId}
    (hstep : e.callbackCountDown child = some e') : Lives e e' := by
  unfold callbackCountDown at hstep
  split at hstep
  · next found hcallback =>
      cases hstep
      obtain ⟨rfl, desc, hdesc⟩ := h.signalling hcallback
      refine .of_one found ?_ fun id hid => ?_
      · unfold track
        rw [AList.lookup_insert, AList.lookup_modify, if_pos rfl, hcallback, hdesc]
        exact .signal
      · unfold track
        rw [AList.lookup_insert_ne hid, AList.lookup_modify, if_neg hid]
  · cases hstep

/-- A guarded step of the engine is a step in the life of tasks. -/
theorem lives_of_step (h : Tracked e) {a : Action τ} (hstep : Guarded Step OwnPid e a e') :
    Lives e e' := by
  obtain ⟨hnext, hown⟩ := hstep
  unfold Step next at hnext
  split at hnext
  · cases hnext
  · cases a with
    | tryQueueTask grantId userTask memoryAvailable pid now =>
        simp only at hnext
        split at hnext
        · cases hnext
          exact lives_tryQueueTask h grantId userTask memoryAvailable pid now
        · cases hnext
    | tryReferenceTask taskId =>
        cases hnext
        exact .of_track_eq (track_tryReferenceTask taskId)
    | freeTask taskId =>
        cases hnext
        exact lives_freeTask taskId
    | killFreed taskId => exact .of_track_eq (track_killFreed hnext)
    | killExpiredTasks expiredGrantIds =>
        cases hnext
        exact .of_track_eq (track_killExpiredTasks expiredGrantIds)
    | onCleanupTimer now =>
        cases hnext
        exact lives_onCleanupTimer now
    | stop =>
        cases hnext
        exact .of_track_eq rfl
    | killAll => exact .of_track_eq (track_killAll hnext)
    | waiterStep => exact .of_track_eq (track_waiterStep hnext)
    | wait child => exact lives_wait hnext
    | waitFailed => exact .of_track_eq (track_waitFailed hnext)
    | callbackLocked child found now => exact lives_callbackLocked h hown hnext
    | callbackOnCompletion child => exact lives_callbackOnCompletion h hnext
    | callbackCountDown child => exact lives_callbackCountDown h hnext
    | write child standardOutput standardError => exact lives_write hnext
    | exit child exitCode => exact lives_exit hnext

theorem tracked_of_run {taskConcurrencyLimit : UInt64} {minMemory : ℕ} {as : List (Action τ)}
    (run : Run (Guarded Step OwnPid) (empty τ taskConcurrencyLimit minMemory) as e) :
    Tracked e := by
  refine run.invariant (fun e a e' h hstep => h.lives (lives_of_step h hstep)) fun taskId => ?_
  exact .absent _

/-- The exit of a task's child was handled up to the point where tasks are marked. -/
def exitProcessed (taskId : TaskId) (e : ExecutionEngine τ) : Bool :=
  match e.callbacks.lookup taskId with
  | none => false
  | some (.started _ _) => false
  | some _ => true

/-- A task is told at most once and then of its own child, and in the table it runs only
until its child's exit was handled. -/
structure OwnExit (taskId : TaskId) (desc : TaskDesc τ) (p : Process)
    (e : ExecutionEngine τ) : Prop where
  completions_le : desc.completions.length ≤ 1
  countDowns_le : desc.countDowns ≤ 1
  own : ∀ output ∈ desc.completions, p.state = .reaped output.exitCode ∧
    output.standardOutput = p.standardOutput ∧ output.standardError = p.standardError
  stopped : taskId ∈ e.tasks → e.exitProcessed taskId = true → desc.isRunning = false

theorem Tracked.ownExit (h : Tracked e) {taskId : TaskId} {desc : TaskDesc τ}
    (hdesc : e.descs.lookup taskId = some desc) :
    ∃ p, e.processes.lookup taskId = some p ∧ OwnExit taskId desc p e := by
  rcases h.cases taskId with ⟨hnone, -, -, -⟩ | ⟨desc', p, hdesc', hp, hphase⟩
  · cases hnone.symm.trans hdesc
  · cases hdesc'.symm.trans hdesc
    refine ⟨p, hp, ?_⟩
    -- Before it is marked a task has nothing to show, afterwards only its own output.
    have hbefore : desc.progress = ⟨p.pid, true, [], 0⟩ →
        (taskId ∈ e.tasks → e.exitProcessed taskId = false) → OwnExit taskId desc p e := by
      intro hprogress hnot
      have hcompletions : desc.completions = [] := congrArg Progress.completions hprogress
      have hcountDowns : desc.countDowns = 0 := congrArg Progress.countDowns hprogress
      refine ⟨by simp [hcompletions], by simp [hcountDowns], by simp [hcompletions], ?_⟩
      intro hmem hprocessed
      cases (hnot hmem).symm.trans hprocessed
    have hafter : ∀ exitCode completions countDowns, p.state = .reaped exitCode →
        desc.progress = ⟨p.pid, false, completions, countDowns⟩ → countDowns ≤ 1 →
        (completions = [] ∨ completions = [p.life.output exitCode]) →
        OwnExit taskId desc p e := by
      intro exitCode completions countDowns hstate hprogress hle hcompletions
      have hrunning : desc.isRunning = false := congrArg Progress.isRunning hprogress
      have heq : desc.completions = completions := congrArg Progress.completions hprogress
      have hcountDowns : desc.countDowns = countDowns := congrArg Progress.countDowns hprogress
      rcases hcompletions with rfl | rfl
      · exact ⟨by simp [heq], by omega, by simp [heq], fun _ _ => hrunning⟩
      · refine ⟨by simp [heq], by omega, fun output houtput => ?_, fun _ _ => hrunning⟩
        rw [heq, List.mem_singleton] at houtput
        subst houtput
        exact ⟨hstate, rfl, rfl⟩
    unfold exitProcessed at hbefore
    generalize e.callbacks.lookup taskId = callback at hphase hbefore
    match callback with
    | none => exact hbefore hphase.2 fun _ => rfl
    | some (.started pid exitCode) => exact hbefore hphase.2.2 fun _ => rfl
    | some (.completing found output) =>
        obtain ⟨-, exitCode, hstate, -, hprogress⟩ := hphase
        exact hafter exitCode [] 0 hstate hprogress (by omega) (.inl rfl)
    | some (.signalling found) =>
        obtain ⟨-, exitCode, hstate, hprogress⟩ := hphase
        exact hafter exitCode _ 0 hstate hprogress (by omega) (.inr rfl)
    | some .finished =>
        obtain ⟨exitCode, hstate, hprogress | ⟨hlisted, hprogress⟩⟩ := hphase
        · exact hafter exitCode _ 1 hstate hprogress le_rfl (.inr rfl)
        · exact hbefore hprogress fun hmem => absurd hmem (of_decide_eq_false hlisted)

/-- A task whose latch was counted down was told of its own child. -/
theorem Tracked.told (h : Tracked e) {taskId : TaskId} {desc : TaskDesc τ}
    (hdesc : e.descs.lookup taskId = some desc) (hdone : desc.countDowns ≠ 0) :
    ∃ p output, e.processes.lookup taskId = some p ∧ desc.completions = [output] ∧
      p.state = .reaped output.exitCode ∧ output.standardOutput = p.standardOutput ∧
      output.standardError = p.standardError := by
  rcases h.cases taskId with ⟨hnone, -, -, -⟩ | ⟨desc', p, hdesc', hp, hphase⟩
  · cases hnone.symm.trans hdesc
  · cases hdesc'.symm.trans hdesc
    have hnot : ∀ processId isRunning completions,
        desc.progress ≠ ⟨processId, isRunning, completions, 0⟩ :=
      fun _ _ _ heq => hdone (congrArg Progress.countDowns heq)
    generalize e.callbacks.lookup taskId = callback at hphase
    match callback with
    | none => exact absurd hphase.2 (hnot _ _ _)
    | some (.started pid exitCode) => exact absurd hphase.2.2 (hnot _ _ _)
    | some (.completing found output) =>
        obtain ⟨-, exitCode, -, -, hprogress⟩ := hphase
        exact absurd hprogress (hnot _ _ _)
    | some (.signalling found) =>
        obtain ⟨-, exitCode, -, hprogress⟩ := hphase
        exact absurd hprogress (hnot _ _ _)
    | some .finished =>
        obtain ⟨exitCode, hstate, hprogress | ⟨-, hprogress⟩⟩ := hphase
        · exact ⟨p, p.life.output exitCode, hp, congrArg Progress.completions hprogress, hstate,
            rfl, rfl⟩
        · exact absurd hprogress (hnot _ _ _)

/-- Where the condition fails, the search may end at the task of another child. -/
theorem found_other {child : TaskId} {found : Option TaskId} {now : Nanoseconds}
    (hstep : Step e (.callbackLocked child found now) e')
    (hown : ¬OwnPid e (.callbackLocked child found now)) :
    ∃ taskId e'', taskId ≠ child ∧ Step e (.callbackLocked child (some taskId) now) e'' := by
  unfold Step next at hstep
  split at hstep
  · cases hstep
  · next hwaiter =>
      obtain ⟨pid, exitCode, hcallback, -, -⟩ := callbackLocked_cases hstep
      rw [ownPid_iff hcallback] at hown
      push Not at hown
      obtain ⟨taskId, hmem, desc, hdesc, hpid, hne⟩ := hown
      have hfinds : finds pid (some taskId) e = true := by
        simp [finds, hmem, hdesc, hpid]
      have htaken : ∃ e'', Step e (.callbackLocked child (some taskId) now) e'' := by
        unfold Step next callbackLocked
        simp only [if_neg hwaiter, hcallback, hfinds, if_true]
        exact ⟨_, rfl⟩
      obtain ⟨e'', htaken⟩ := htaken
      exact ⟨taskId, e'', hne, htaken⟩

/-- As long as every exit callback finds no process ID but its own child's in the table,
an exit completes the task of its child if that is still in the table, and no other; a task
is told of its own child only, at most once. Where a callback meets another task with the
same process ID, it may take that one. -/
theorem exit_completes_own {taskConcurrencyLimit : UInt64} {minMemory : ℕ}
    {as : List (Action τ)}
    (run : Run (Guarded Step OwnPid) (empty τ taskConcurrencyLimit minMemory) as e) :
    (∀ child found now e', Guarded Step OwnPid e (.callbackLocked child found now) e' →
      found = if child ∈ e.tasks then some child else none) ∧
    (∀ taskId desc, e.descs.lookup taskId = some desc →
      ∃ p, e.processes.lookup taskId = some p ∧ OwnExit taskId desc p e) ∧
    ∀ child found now e', Step e (.callbackLocked child found now) e' →
      ¬OwnPid e (.callbackLocked child found now) →
      ∃ taskId e'', taskId ≠ child ∧ Step e (.callbackLocked child (some taskId) now) e'' := by
  have htracked := tracked_of_run run
  refine ⟨fun child found now e' hstep => ?_, fun taskId desc hdesc => htracked.ownExit hdesc,
    fun child found now e' hstep hown => found_other hstep hown⟩
  obtain ⟨hnext, hown⟩ := hstep
  unfold Step next at hnext
  split at hnext
  · cases hnext
  · obtain ⟨pid, exitCode, hcallback, hfinds, -⟩ := callbackLocked_cases hnext
    exact htracked.found_eq hown hcallback hfinds

/-- The exit of one child is waited for and handled. -/
def handleExit (child : TaskId) (exitCode : ℤ) (found : TaskId) : List (Action ℕ) :=
  [.exit child exitCode, .waiterStep, .waiterStep, .waiterStep, .wait child,
    .callbackLocked child (some found) 7, .callbackOnCompletion child, .callbackCountDown child]

/-- Two tasks, one after the other, whose children have different process IDs. -/
def ownPidRun : List (Action ℕ) :=
  .tryQueueTask 11 1 0 100 1 :: handleExit 1 0 1 ++
    .tryQueueTask 12 2 0 101 8 :: .write 2 [104] [] :: handleExit 2 1 2

theorem exit_completes_own_ownPidRun :
    ∃ e, follow (guardedNext next OwnPid) ownPidRun (empty ℕ 4 0) = some e ∧
      ∃ p, e.processes.lookup 2 = some p ∧ p.state = .reaped 1 := by
  have hfinal : ((follow (guardedNext next OwnPid) ownPidRun (empty ℕ 4 0)).bind fun e =>
      (e.descs.lookup 2).map TaskDesc.completions) = some [⟨1, [104], []⟩] := by
    decide
  obtain ⟨e, hfollow, hcompletions⟩ := Option.bind_eq_some_iff.mp hfinal
  have run : Run (Guarded Step OwnPid) (empty ℕ 4 0) ownPidRun e :=
    .of_follow (guarded_of_guardedNext fun _ _ _ h => h) hfollow
  obtain ⟨desc, hdesc, heq⟩ := Option.map_eq_some_iff.mp hcompletions
  obtain ⟨p, hp, hown⟩ := (exit_completes_own run).2.1 2 desc hdesc
  exact ⟨e, hfollow, p, hp, (hown.own ⟨1, [104], []⟩ (by simp [heq])).1⟩

/-- Twelve more tasks: with the fourteenth the table grows, and what was there is met in the
order in which it came. -/
def moreTasks : List (Action ℕ) :=
  (List.range' 101 12).map fun pid => .tryQueueTask (.ofNat pid) 3 0 pid 9

/-- The second child gets the process ID of the first, whose task is still in the table. -/
def reusedPidRun : List (Action ℕ) :=
  .tryQueueTask 11 1 0 100 1 :: handleExit 1 0 1 ++
    .tryQueueTask 12 2 0 100 8 :: .write 2 [104] [] :: moreTasks ++ handleExit 2 1 1

/-- The first task is told of both exits, and the second one is left running. -/
theorem exit_of_reused_pid :
    ∃ e, Run Step (empty ℕ 16 0) reusedPidRun e ∧
      (e.descs.lookup 1).map TaskDesc.completions = some [⟨0, [], []⟩, ⟨1, [], []⟩] ∧
      (e.descs.lookup 1).map TaskDesc.countDowns = some 2 ∧
      2 ∈ e.tasks ∧ e.exitProcessed 2 = true ∧
      (e.descs.lookup 2).map TaskDesc.isRunning = some true := by
  refine ⟨(follow next reusedPidRun (empty ℕ 16 0)).get (by decide),
    .of_follow (fun _ _ _ h => h) (Option.some_get (by decide)).symm, ?_⟩
  decide

end ExecutionEngine

end Yadcc.Daemon.Cloud
