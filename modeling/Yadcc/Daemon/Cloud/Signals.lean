/-
# The children that a signal reaches

The engine kills a task by the process ID that its description holds, without looking
whether the child still has it. A child is spared as long as no task that is killed holds
its process ID.
-/

import Yadcc.Daemon.Cloud.TaskSharing

namespace Yadcc.Daemon.Cloud

open Yadcc.Lib

namespace ExecutionEngine

variable {τ : Type} {e e' : ExecutionEngine τ}

/-! ## Killing one task -/

/-- Whether the child of a task was sent a signal. -/
def killed (e : ExecutionEngine τ) (child : TaskId) : Option Bool :=
  (e.processes.lookup child).map Process.killed

/-- Killing a task would send a signal to a child. -/
def hits (e : ExecutionEngine τ) (taskId child : TaskId) : Bool :=
  (e.descs.lookup taskId).any fun desc => desc.isRunning &&
    (e.processes.lookup child).any fun p =>
      p.pid == desc.processId && decide (p.state = .running)

theorem killed_of_processes_eq (h : e'.processes = e.processes) (child : TaskId) :
    e'.killed child = e.killed child := by
  unfold killed
  rw [h]

/-- A child that is written back as it was, but for its mark, is not sent a signal. -/
theorem killed_of_insert {child : TaskId} {p p' : Process}
    (hp : e.processes.lookup child = some p) (h : e'.processes = e.processes.insert child p')
    (hkilled : p'.killed = p.killed) (id : TaskId) :
    e'.killed id = e.killed id := by
  unfold killed
  rw [h, AList.lookup_insert_eq]
  split
  · next hid =>
      subst hid
      rw [hp, Option.map_some, Option.map_some, hkilled]
  · rfl

theorem killed_killTask {taskId child : TaskId} (hmiss : e.hits taskId child = false) :
    (e.killTask taskId).killed child = e.killed child := by
  unfold killTask
  unfold hits at hmiss
  split
  · rfl
  · next desc hdesc =>
      rw [hdesc, Option.any_some, Bool.and_eq_false_iff] at hmiss
      split
      · next hrunning =>
          have hmiss := hmiss.resolve_left (by rw [hrunning]; decide)
          unfold killed kill
          rw [AList.lookup_mapValues]
          cases hp : e.processes.lookup child with
          | none => rfl
          | some p =>
              rw [hp, Option.any_some] at hmiss
              rw [Option.map_some, if_neg (by simpa using hmiss)]
      · rfl

/-- A signal changes neither the process ID nor the state of a child. -/
theorem hits_killTask (other taskId child : TaskId) :
    (e.killTask other).hits taskId child = e.hits taskId child := by
  have hprocess : ∀ (pid pid' : Pid) (p? : Option Process),
      ((p?.map fun p =>
          if p.pid = pid' ∧ p.state = .running then { p with killed := true } else p).any
        fun p => p.pid == pid && decide (p.state = .running))
      = p?.any fun p => p.pid == pid && decide (p.state = .running) := by
    intro pid pid' p?
    cases p? with
    | none => rfl
    | some p =>
        rw [Option.map_some, Option.any_some, Option.any_some]
        split
        · rfl
        · rfl
  unfold killTask
  split
  · rfl
  · split
    · unfold hits kill
      simp only [AList.lookup_mapValues, hprocess]
    · rfl

theorem processes_tryReferenceTask (taskId : TaskId) :
    (e.tryReferenceTask taskId).2.processes = e.processes := by
  unfold tryReferenceTask
  split
  · rfl
  · rfl

theorem processes_freeTask (taskId : TaskId) : (e.freeTask taskId).processes = e.processes := by
  unfold freeTask
  split
  · rfl
  · dsimp only
    split
    · rfl
    · rfl

/-! ## Killing expired tasks -/

/-- The grant of a running task is in a list. -/
def runsUnder (e : ExecutionEngine τ) (taskId : TaskId) (grantIds : List GrantId) : Bool :=
  (e.runningGrant taskId).any grantIds.contains

theorem killIfExpired_eq (expiredGrantIds : List GrantId) (taskId : TaskId) :
    killIfExpired expiredGrantIds e taskId
      = if e.runsUnder taskId expiredGrantIds then killTask taskId e else e := by
  unfold killIfExpired runsUnder runningGrant
  cases e.descs.lookup taskId with
  | none => rfl
  | some desc =>
      rw [Option.bind_some]
      cases hrunning : desc.isRunning with
      | false => simp [hrunning]
      | true => simp [hrunning]

/-- A child is spared if no task that is killed has its process ID. -/
theorem killed_killExpiredTasks {expiredGrantIds : List GrantId} {child : TaskId}
    (hspared : ∀ taskId ∈ e.tasks, e.runsUnder taskId expiredGrantIds = true →
      e.hits taskId child = false) :
    (e.killExpiredTasks expiredGrantIds).killed child = e.killed child := by
  have hloop : ∀ (taskIds : List TaskId) (e : ExecutionEngine τ),
      (∀ taskId ∈ taskIds, e.runsUnder taskId expiredGrantIds = true →
        e.hits taskId child = false) →
      (taskIds.foldl (killIfExpired expiredGrantIds) e).killed child = e.killed child := by
    intro taskIds
    induction taskIds with
    | nil =>
        intro e _
        rfl
    | cons taskId taskIds ih =>
        intro e hspared
        have hrest := fun id hid => hspared id (List.mem_cons_of_mem _ hid)
        rw [List.foldl_cons, killIfExpired_eq]
        split
        · next hruns =>
            have hruns' : ∀ id, (e.killTask taskId).runsUnder id expiredGrantIds
                = e.runsUnder id expiredGrantIds := by
              intro id
              unfold runsUnder runningGrant
              rw [(sameTasks_killTask taskId e).descs_eq]
            rw [ih (e.killTask taskId) fun id hid => by
              rw [hruns', hits_killTask]
              exact hrest id hid]
            exact killed_killTask (hspared taskId List.mem_cons_self hruns)
        · exact ih e hrest
  exact hloop e.tasks e hspared

/-! ## Steps of the engine -/

/-- What the engine does on its own: it drops old tasks, kills a freed one, or leaves the
table, the freed tasks and the signals as they are. -/
theorem internal_cases {a : Action τ} (ha : a.isInternal = true) (h : Step e a e') :
    (∃ now, a = .onCleanupTimer now ∧ e' = e.onCleanupTimer now) ∨
    (∃ taskId, a = .killFreed taskId ∧ taskId ∈ e.freeing ∧
      e' = killTask taskId { e with freeing := e.freeing.erase taskId }) ∨
    (e'.tasks = e.tasks ∧ e'.freeing = e.freeing ∧ ∀ child, e'.killed child = e.killed child) := by
  unfold Step next at h
  split at h
  · cases h
  · cases a with
    | killFreed taskId =>
        simp only [killFreed] at h
        split at h
        · next hmem =>
            cases h
            exact .inr (.inl ⟨taskId, rfl, hmem, rfl⟩)
        · cases h
    | onCleanupTimer now =>
        cases h
        exact .inl ⟨now, rfl, rfl⟩
    | waiterStep =>
        simp only [waiterStep] at h
        split at h
        · cases h
          exact .inr (.inr ⟨rfl, rfl, fun _ => rfl⟩)
        · split at h
          · cases h
          · cases h
            exact .inr (.inr ⟨rfl, rfl, fun _ => rfl⟩)
        · cases h
          exact .inr (.inr ⟨rfl, rfl, fun _ => rfl⟩)
        · cases h
    | wait child =>
        simp only [wait] at h
        split at h
        · next p hwaiter hp =>
            split at h
            · cases h
              exact .inr (.inr ⟨rfl, rfl, killed_of_insert hp rfl rfl⟩)
            · cases h
        · cases h
    | waitFailed =>
        simp only [waitFailed] at h
        split at h
        · cases h
          exact .inr (.inr ⟨rfl, rfl, fun _ => rfl⟩)
        · cases h
    | callbackLocked child found now =>
        obtain ⟨pid, exitCode, -, -, ⟨-, rfl⟩ | ⟨taskId, -, rfl⟩⟩ := callbackLocked_cases h
        · exact .inr (.inr ⟨rfl, rfl, fun _ => rfl⟩)
        · exact .inr (.inr ⟨rfl, rfl, fun _ => rfl⟩)
    | callbackOnCompletion child =>
        simp only [callbackOnCompletion] at h
        split at h
        · cases h
          exact .inr (.inr ⟨rfl, rfl, fun _ => rfl⟩)
        · cases h
    | callbackCountDown child =>
        simp only [callbackCountDown] at h
        split at h
        · cases h
          exact .inr (.inr ⟨rfl, rfl, fun _ => rfl⟩)
        · cases h
    | write child standardOutput standardError =>
        simp only [write] at h
        split at h
        · cases h
        · next p hp =>
            split at h
            · cases h
              exact .inr (.inr ⟨rfl, rfl, killed_of_insert hp rfl rfl⟩)
            · cases h
    | exit child exitCode =>
        simp only [exit] at h
        split at h
        · cases h
        · next p hp =>
            split at h
            · cases h
              exact .inr (.inr ⟨rfl, rfl, killed_of_insert hp rfl rfl⟩)
            · cases h
    | tryQueueTask grantId userTask memoryAvailable pid now => cases ha
    | tryReferenceTask taskId => cases ha
    | freeTask taskId => cases ha
    | killExpiredTasks expiredGrantIds => cases ha
    | stop => cases ha
    | killAll => cases ha

end ExecutionEngine

end Yadcc.Daemon.Cloud
