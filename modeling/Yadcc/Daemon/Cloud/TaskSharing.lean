/-
# References to the tasks of an engine

Clients share a task by its reference count. What the engine does on its own neither
changes a count nor makes a task; it may only drop tasks. The three calls that do more have
one specification each.
-/

import Yadcc.Daemon.Cloud.ProcessExit

namespace Yadcc.Daemon.Cloud

open Yadcc.Lib

/-- What calls alone change about a task. -/
structure Sharing (τ : Type) where
  grantId : GrantId
  clientRefCount : ℕ
  task : τ

def TaskDesc.sharing {τ : Type} (desc : TaskDesc τ) : Sharing τ :=
  ⟨desc.grantId, desc.clientRefCount, desc.task⟩

namespace ExecutionEngine

variable {τ : Type} {e e' : ExecutionEngine τ}

/-- No task is made or shared differently, or starts to run. -/
structure Quiet (e e' : ExecutionEngine τ) : Prop where
  nextTaskId_eq : e'.nextTaskId = e.nextTaskId
  tasks_sublist : e'.tasks.Sublist e.tasks
  sharing : ∀ taskId, (e'.descs.lookup taskId).map TaskDesc.sharing
    = (e.descs.lookup taskId).map TaskDesc.sharing
  running : ∀ taskId desc', e'.descs.lookup taskId = some desc' → desc'.isRunning = true →
    ∃ desc, e.descs.lookup taskId = some desc ∧ desc.isRunning = true

theorem Quiet.of_descs_eq (hnext : e'.nextTaskId = e.nextTaskId)
    (htasks : e'.tasks.Sublist e.tasks) (hdescs : e'.descs = e.descs) : Quiet e e' where
  nextTaskId_eq := hnext
  tasks_sublist := htasks
  sharing taskId := by rw [hdescs]
  running taskId desc' hdesc hrunning := ⟨desc', hdescs ▸ hdesc, hrunning⟩

/-- A task may be marked as far as it is not shared. -/
theorem Quiet.of_modify {taskId : TaskId} {f : TaskDesc τ → TaskDesc τ}
    (hnext : e'.nextTaskId = e.nextTaskId) (htasks : e'.tasks = e.tasks)
    (hdescs : e'.descs = e.descs.modify taskId f)
    (hsharing : ∀ desc, (f desc).sharing = desc.sharing)
    (hrunning : ∀ desc, (f desc).isRunning = true → desc.isRunning = true) : Quiet e e' where
  nextTaskId_eq := hnext
  tasks_sublist := htasks ▸ .refl _
  sharing id := by
    rw [hdescs, AList.lookup_modify]
    split
    · next h =>
        rw [h, Option.map_map]
        congr 1
        funext desc
        exact hsharing desc
    · rfl
  running id desc' hdesc hrun := by
    rw [hdescs, AList.lookup_modify] at hdesc
    split at hdesc
    · next h =>
        obtain ⟨desc, hfound, rfl⟩ := Option.map_eq_some_iff.mp hdesc
        exact ⟨desc, h ▸ hfound, hrunning desc hrun⟩
    · exact ⟨desc', hdesc, hrun⟩

/-- The tasks are as they were; the children may not be. -/
structure SameTasks (e e' : ExecutionEngine τ) : Prop where
  nextTaskId_eq : e'.nextTaskId = e.nextTaskId
  tasks_eq : e'.tasks = e.tasks
  descs_eq : e'.descs = e.descs
  freeing_eq : e'.freeing = e.freeing

theorem SameTasks.quiet (h : SameTasks e e') : Quiet e e' :=
  .of_descs_eq h.nextTaskId_eq (h.tasks_eq ▸ .refl _) h.descs_eq

theorem sameTasks_killTask (taskId : TaskId) (e : ExecutionEngine τ) :
    SameTasks e (e.killTask taskId) := by
  unfold killTask
  split
  · exact ⟨rfl, rfl, rfl, rfl⟩
  · split
    · exact ⟨rfl, rfl, rfl, rfl⟩
    · exact ⟨rfl, rfl, rfl, rfl⟩

theorem SameTasks.foldl {f : ExecutionEngine τ → TaskId → ExecutionEngine τ}
    (hf : ∀ e taskId, SameTasks e (f e taskId)) (taskIds : List TaskId) :
    ∀ e, SameTasks e (taskIds.foldl f e) := by
  induction taskIds with
  | nil =>
      intro e
      exact ⟨rfl, rfl, rfl, rfl⟩
  | cons taskId taskIds ih =>
      intro e
      have hfirst := hf e taskId
      have hrest := ih (f e taskId)
      exact ⟨hrest.nextTaskId_eq.trans hfirst.nextTaskId_eq, hrest.tasks_eq.trans hfirst.tasks_eq,
        hrest.descs_eq.trans hfirst.descs_eq, hrest.freeing_eq.trans hfirst.freeing_eq⟩

theorem sameTasks_killExpiredTasks (expiredGrantIds : List GrantId) (e : ExecutionEngine τ) :
    SameTasks e (e.killExpiredTasks expiredGrantIds) := by
  refine .foldl (fun e taskId => ?_) e.tasks e
  unfold killIfExpired
  split
  · exact ⟨rfl, rfl, rfl, rfl⟩
  · split
    · exact sameTasks_killTask taskId e
    · exact ⟨rfl, rfl, rfl, rfl⟩

theorem quiet_callback {child : TaskId} (h : e.callbackOnCompletion child = some e' ∨
    e.callbackCountDown child = some e') : Quiet e e' := by
  rcases h with h | h
  · unfold callbackOnCompletion at h
    split at h
    · cases h
      exact .of_modify rfl rfl rfl (fun _ => rfl) fun _ hrun => hrun
    · cases h
  · unfold callbackCountDown at h
    split at h
    · cases h
      exact .of_modify rfl rfl rfl (fun _ => rfl) fun _ hrun => hrun
    · cases h

/-- What the engine does on its own is quiet. -/
theorem quiet_of_internal {a : Action τ} (ha : a.isInternal = true) (h : Step e a e') :
    Quiet e e' := by
  unfold Step next at h
  split at h
  · cases h
  · cases a with
    | killFreed taskId =>
        simp only [killFreed] at h
        split at h
        · cases h
          obtain ⟨hnext, htasks, hdescs, -⟩ :=
            sameTasks_killTask taskId { e with freeing := e.freeing.erase taskId }
          exact .of_descs_eq hnext (by rw [htasks]) hdescs
        · cases h
    | onCleanupTimer now =>
        cases h
        exact .of_descs_eq rfl List.filter_sublist rfl
    | waiterStep =>
        simp only [waiterStep] at h
        split at h
        · cases h
          exact .of_descs_eq rfl (.refl _) rfl
        · split at h
          · cases h
          · cases h
            exact .of_descs_eq rfl (.refl _) rfl
        · cases h
          exact .of_descs_eq rfl (.refl _) rfl
        · cases h
    | wait child =>
        simp only [wait] at h
        split at h
        · split at h
          · cases h
            exact .of_descs_eq rfl (.refl _) rfl
          · cases h
        · cases h
    | waitFailed =>
        simp only [waitFailed] at h
        split at h
        · cases h
          exact .of_descs_eq rfl (.refl _) rfl
        · cases h
    | callbackLocked child found now =>
        obtain ⟨pid, exitCode, -, -, ⟨-, rfl⟩ | ⟨taskId, -, rfl⟩⟩ := callbackLocked_cases h
        · exact .of_descs_eq rfl (.refl _) rfl
        · exact .of_modify rfl rfl rfl (fun _ => rfl) fun _ hrun => by cases hrun
    | callbackOnCompletion child => exact quiet_callback (.inl h)
    | callbackCountDown child => exact quiet_callback (.inr h)
    | write child standardOutput standardError =>
        simp only [write] at h
        split at h
        · cases h
        · split at h
          · cases h
            exact .of_descs_eq rfl (.refl _) rfl
          · cases h
    | exit child exitCode =>
        simp only [exit] at h
        split at h
        · cases h
        · split at h
          · cases h
            exact .of_descs_eq rfl (.refl _) rfl
          · cases h
    | tryQueueTask grantId userTask memoryAvailable pid now => cases ha
    | tryReferenceTask taskId => cases ha
    | freeTask taskId => cases ha
    | killExpiredTasks expiredGrantIds => cases ha
    | stop => cases ha
    | killAll => cases ha

/-- The grant of a running task. -/
def runningGrant (e : ExecutionEngine τ) (taskId : TaskId) : Option GrantId :=
  (e.descs.lookup taskId).bind fun desc => if desc.isRunning then some desc.grantId else none

/-- A running task keeps its grant. -/
theorem Quiet.runningGrant (h : Quiet e e') (taskId : TaskId) :
    e'.runningGrant taskId = none ∨ e'.runningGrant taskId = e.runningGrant taskId := by
  unfold ExecutionEngine.runningGrant
  cases hdesc' : e'.descs.lookup taskId with
  | none => exact .inl rfl
  | some desc' =>
      cases hrunning' : desc'.isRunning with
      | false => exact .inl (by simp [hrunning'])
      | true =>
          obtain ⟨desc, hdesc, hrunning⟩ := h.running taskId desc' hdesc' hrunning'
          have hsharing := h.sharing taskId
          rw [hdesc, hdesc', Option.map_some, Option.map_some, Option.some_inj] at hsharing
          have hgrant : desc'.grantId = desc.grantId := congrArg Sharing.grantId hsharing
          refine .inr ?_
          rw [hdesc, Option.bind_some, Option.bind_some, hrunning, hrunning', hgrant]

theorem runningGrant_modify {taskId : TaskId} {f : TaskDesc τ → TaskDesc τ}
    (hdescs : e'.descs = e.descs.modify taskId f)
    (hf : ∀ desc, (f desc).isRunning = desc.isRunning ∧ (f desc).grantId = desc.grantId)
    (id : TaskId) : e'.runningGrant id = e.runningGrant id := by
  unfold runningGrant
  rw [hdescs, AList.lookup_modify]
  split
  · next hid =>
      subst hid
      cases e.descs.lookup id with
      | none => rfl
      | some desc =>
          rw [Option.map_some, Option.bind_some, Option.bind_some, (hf desc).1, (hf desc).2]
  · rfl

/-! ## Calls -/

/-- The reference count of a task. -/
def refs (e : ExecutionEngine τ) (taskId : TaskId) : Option ℕ :=
  (e.descs.lookup taskId).map TaskDesc.clientRefCount

theorem Quiet.refs_eq (h : Quiet e e') (taskId : TaskId) : e'.refs taskId = e.refs taskId := by
  have hcount : ∀ desc? : Option (TaskDesc τ), desc?.map TaskDesc.clientRefCount
      = (desc?.map TaskDesc.sharing).map Sharing.clientRefCount := by
    intro desc?
    rw [Option.map_map]
    rfl
  unfold refs
  rw [hcount, hcount, h.sharing]

/-- What a queued task comes to: a refusal, or a new task with one reference. -/
theorem tryQueueTask_cases (grantId : GrantId) (userTask : τ) (memoryAvailable : ℕ) (pid : Pid)
    (now : Nanoseconds) (e : ExecutionEngine τ) :
    (∃ nextTaskId, e.nextTaskId ≤ nextTaskId ∧
      tryQueueTask grantId userTask memoryAvailable pid now e = (none, { e with nextTaskId })) ∨
    ∃ runningTasks tasksRunEver, tryQueueTask grantId userTask memoryAvailable pid now e
      = (some e.nextTaskId, startProgram e.nextTaskId (newTask grantId userTask pid now)
        { e with nextTaskId := e.nextTaskId + 1, runningTasks, tasksRunEver }) := by
  unfold tryQueueTask
  rw [tryStartingNewTaskUnsafe_eq]
  split_ifs
  · exact .inl ⟨e.nextTaskId, le_rfl, rfl⟩
  · exact .inl ⟨e.nextTaskId + 1, Nat.le_succ _, rfl⟩
  · exact .inr ⟨_, _, rfl⟩

/-- What freeing comes to: nothing for an unknown task, one reference less, or the end of
the task. -/
theorem freeTask_cases (taskId : TaskId) (e : ExecutionEngine τ) :
    ((taskId ∉ e.tasks ∨ e.descs.lookup taskId = none) ∧ e.freeTask taskId = e) ∨
    ∃ desc, taskId ∈ e.tasks ∧ e.descs.lookup taskId = some desc ∧
      ((0 < desc.clientRefCount - 1 ∧ e.freeTask taskId = { e with
          descs := e.descs.modify taskId fun desc =>
            { desc with clientRefCount := desc.clientRefCount - 1 } }) ∨
        (desc.clientRefCount - 1 = 0 ∧ e.freeTask taskId = { e with
          descs := e.descs.modify taskId fun desc =>
            { desc with clientRefCount := desc.clientRefCount - 1 }
          tasks := e.tasks.erase taskId
          freeing := taskId :: e.freeing })) := by
  unfold freeTask findTask
  by_cases hmem : taskId ∈ e.tasks
  · rw [if_pos hmem, Option.bind_some]
    cases hdesc : e.descs.lookup taskId with
    | none => exact .inl ⟨.inr rfl, rfl⟩
    | some desc =>
        refine .inr ⟨desc, hmem, rfl, ?_⟩
        dsimp only
        split
        · next hpos => exact .inl ⟨hpos, rfl⟩
        · next hzero => exact .inr ⟨Nat.eq_zero_of_not_pos hzero, rfl⟩
  · rw [if_neg hmem]
    exact .inl ⟨.inl hmem, rfl⟩

end ExecutionEngine

end Yadcc.Daemon.Cloud
