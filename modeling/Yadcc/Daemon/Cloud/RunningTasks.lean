/-
# The count of running tasks and the permits of the waiter

The engine counts a child from its start until its exit callback took the lock, and releases
the waiter's semaphore once for each child it starts. A thread that queues a task holds the
lock of the table from the fork of the child to the release, but the waiter does not take
that lock and can reap the child in between. The release is therefore a step of its own
here. The invariant keeps two accounts: the counter agrees with the children whose exit was
not handled, and permits, given or due, agree with the children that were not waited for.
-/

import Yadcc.Daemon.Cloud.ExecutionEngine

namespace Yadcc.Daemon.Cloud

open Yadcc.Lib

variable {τ : Type}

/-! ## The concurrency limit -/

/-- The flags that the constructor of the engine reads. -/
structure EngineFlags where
  maxRemoteTasks : Int32
  servantPriority : String
  poorMachineThresholdProcessors : Int32

/-- The limit that the constructor of the engine sets; `none` when a check fails. Machines
that do not accept tasks have the limit 0. -/
def taskConcurrencyLimit (flags : EngineFlags) (nprocs : UInt64) (isCGroupPresent : Bool) :
    Option UInt64 :=
  if flags.maxRemoteTasks = -1 then
    if flags.servantPriority = "dedicated" then some (nprocs * 95 / 100)
    else if flags.servantPriority ≠ "user" then none
    else if isCGroupPresent then some 0
    else if nprocs ≤ flags.poorMachineThresholdProcessors.toInt64.toUInt64 then some 0
    else some (nprocs * 40 / 100)
  else if flags.maxRemoteTasks = 0 then some 0
  else if flags.maxRemoteTasks ≤ 0 then none
  else some flags.maxRemoteTasks.toInt64.toUInt64

/-- The counter never reaches the end of its range below such a limit. -/
theorem taskConcurrencyLimit_lt {flags : EngineFlags} {nprocs limit : UInt64} {cgroup : Bool}
    (h : taskConcurrencyLimit flags nprocs cgroup = some limit) : limit.toNat < 2 ^ 63 := by
  have hquotient : ∀ n : UInt64, (n / 100).toNat < 2 ^ 63 := by
    intro n
    have hn := n.toNat_lt
    rw [UInt64.toNat_div]
    change n.toNat / 100 < 2 ^ 63
    omega
  unfold taskConcurrencyLimit at h
  split_ifs at h with _ _ _ _ _ _ hpositive <;> cases h
  · exact hquotient _
  · decide
  · decide
  · exact hquotient _
  · decide
  · have hle : 0 ≤ flags.maxRemoteTasks.toInt64 := by
      rw [Int32.le_iff_toInt_le] at hpositive
      rw [Int64.le_iff_toInt_le, Int32.toInt_toInt64]
      exact (not_le.mp hpositive).le
    rw [Int64.toNat_toUInt64_of_le hle]
    have hlt := flags.maxRemoteTasks.toInt64.toInt_lt
    change flags.maxRemoteTasks.toInt64.toInt.toNat < 2 ^ 63
    omega

namespace ExecutionEngine

variable {e e' : ExecutionEngine τ}

/-! ## The two accounts -/

/-- The exit callback of a child has not passed its lock yet. -/
def exitPending (child : TaskId) (e : ExecutionEngine τ) : Bool :=
  match e.callbacks.lookup child with
  | none => true
  | some (.started _ _) => true
  | some _ => false

/-- The children that were started and whose exit callback has not run. -/
def pendingExits (e : ExecutionEngine τ) : ℕ :=
  e.processes.count fun child _ => e.exitPending child

/-- The children that were not waited for. -/
def unreapedChildren (e : ExecutionEngine τ) : ℕ := e.processes.count fun _ p => p.unreaped

/-- The waiter took a permit that it has not used for a child yet. -/
def permitHeld (e : ExecutionEngine τ) : ℕ :=
  match e.waiter with
  | .acquired => 1
  | .waiting => 1
  | _ => 0

/-- The accounts, with `due` releases to come. Permits match children until `Stop`, which
gives one more. -/
structure Counted (limit : UInt64) (due : ℕ) (e : ExecutionEngine τ) : Prop where
  limit_eq : e.taskConcurrencyLimit = limit
  fresh : ∀ child p, e.processes.lookup child = some p → child < e.nextTaskId
  handled : ∀ child c, e.callbacks.lookup child = some c →
    ∃ p, e.processes.lookup child = some p ∧ p.unreaped = false
  running : e.runningTasks.toNat = e.pendingExits
  running_le : e.runningTasks.toNat ≤ limit.toNat
  permits : e.exiting = false →
    e.waitpidSemaphore + due + e.permitHeld = e.unreapedChildren
  awake : e.exiting = false → e.waiter ≠ .stopped
  notAborted : e.waiter ≠ .aborted
  stopping : e.stopping = true → e.exiting = true

/-- What a step leaves alone that touches neither the counter nor the semaphore, the waiter
or a child's being waited for. -/
structure SameAccounts (e e' : ExecutionEngine τ) : Prop where
  limit : e'.taskConcurrencyLimit = e.taskConcurrencyLimit
  numbers : e.nextTaskId ≤ e'.nextTaskId
  runningTasks : e'.runningTasks = e.runningTasks
  exiting : e'.exiting = e.exiting
  stopping : e'.stopping = e.stopping
  semaphore : e'.waitpidSemaphore = e.waitpidSemaphore
  waiter : e'.waiter = e.waiter
  unreaped : ∀ child, (e'.processes.lookup child).map Process.unreaped
    = (e.processes.lookup child).map Process.unreaped
  known : ∀ child, (e'.callbacks.lookup child).isSome = (e.callbacks.lookup child).isSome
  pending : ∀ child, e'.exitPending child = e.exitPending child

theorem SameAccounts.refl (e : ExecutionEngine τ) : SameAccounts e e :=
  ⟨rfl, le_rfl, rfl, rfl, rfl, rfl, rfl, fun _ => rfl, fun _ => rfl, fun _ => rfl⟩

theorem SameAccounts.trans {e₁ : ExecutionEngine τ} (h : SameAccounts e e₁)
    (h' : SameAccounts e₁ e') : SameAccounts e e' where
  limit := h'.limit.trans h.limit
  numbers := h.numbers.trans h'.numbers
  runningTasks := h'.runningTasks.trans h.runningTasks
  exiting := h'.exiting.trans h.exiting
  stopping := h'.stopping.trans h.stopping
  semaphore := h'.semaphore.trans h.semaphore
  waiter := h'.waiter.trans h.waiter
  unreaped child := (h'.unreaped child).trans (h.unreaped child)
  known child := (h'.known child).trans (h.known child)
  pending child := (h'.pending child).trans (h.pending child)

/-- A step that does not touch children and callbacks, counter, semaphore and waiter. -/
theorem SameAccounts.of_processes (hlimit : e'.taskConcurrencyLimit = e.taskConcurrencyLimit)
    (hnumbers : e.nextTaskId ≤ e'.nextTaskId) (hrunning : e'.runningTasks = e.runningTasks)
    (hexiting : e'.exiting = e.exiting) (hstopping : e'.stopping = e.stopping)
    (hsemaphore : e'.waitpidSemaphore = e.waitpidSemaphore) (hwaiter : e'.waiter = e.waiter)
    (hcallbacks : e'.callbacks = e.callbacks)
    (hprocesses : ∀ child, (e'.processes.lookup child).map Process.unreaped
      = (e.processes.lookup child).map Process.unreaped) : SameAccounts e e' where
  limit := hlimit
  numbers := hnumbers
  runningTasks := hrunning
  exiting := hexiting
  stopping := hstopping
  semaphore := hsemaphore
  waiter := hwaiter
  unreaped := hprocesses
  known child := by rw [hcallbacks]
  pending child := by rw [exitPending, exitPending, hcallbacks]

theorem SameAccounts.unreapedChildren (h : SameAccounts e e') :
    e'.unreapedChildren = e.unreapedChildren :=
  AList.count_map_congr h.unreaped

theorem SameAccounts.pendingExits (h : SameAccounts e e') :
    e'.pendingExits = e.pendingExits := by
  apply AList.count_map_congr
  intro child
  have hknown : (e'.processes.lookup child).isSome = (e.processes.lookup child).isSome := by
    have hmap := congrArg Option.isSome (h.unreaped child)
    rwa [Option.isSome_map, Option.isSome_map] at hmap
  rw [h.pending child]
  cases hp : e.processes.lookup child with
  | none =>
      rw [hp] at hknown
      rw [Option.isNone_iff_eq_none.mp (Option.isSome_eq_false_iff.mp hknown)]
  | some p =>
      rw [hp] at hknown
      obtain ⟨p', hp'⟩ := Option.isSome_iff_exists.mp hknown
      rw [hp']
      rfl

variable {limit : UInt64} {due : ℕ}

theorem Counted.same (h : Counted limit due e) (hsame : SameAccounts e e') :
    Counted limit due e' := by
  have hprocess : ∀ child p', e'.processes.lookup child = some p' →
      ∃ p, e.processes.lookup child = some p ∧ p.unreaped = p'.unreaped := by
    intro child p' hp'
    have hunreaped := hsame.unreaped child
    rw [hp', Option.map_some, eq_comm, Option.map_eq_some_iff] at hunreaped
    exact hunreaped
  constructor
  · rw [hsame.limit, h.limit_eq]
  · intro child p' hp'
    obtain ⟨p, hp, -⟩ := hprocess child p' hp'
    exact (h.fresh child p hp).trans_le hsame.numbers
  · intro child c' hc'
    have hknown := hsame.known child
    rw [hc', Option.isSome_some, eq_comm, Option.isSome_iff_exists] at hknown
    obtain ⟨c, hc⟩ := hknown
    obtain ⟨p, hp, hreaped⟩ := h.handled child c hc
    have hunreaped := hsame.unreaped child
    rw [hp, Option.map_some, Option.map_eq_some_iff] at hunreaped
    obtain ⟨p', hp', heq⟩ := hunreaped
    exact ⟨p', hp', heq.trans hreaped⟩
  · rw [hsame.runningTasks, hsame.pendingExits]
    exact h.running
  · rw [hsame.runningTasks]
    exact h.running_le
  · rw [hsame.exiting, hsame.semaphore, hsame.unreapedChildren, permitHeld, hsame.waiter]
    exact h.permits
  · rw [hsame.exiting, hsame.waiter]
    exact h.awake
  · rw [hsame.waiter]
    exact h.notAborted
  · rw [hsame.stopping, hsame.exiting]
    exact h.stopping

/-! ## Steps that leave the accounts alone -/

theorem sameAccounts_kill (pid : Pid) (e : ExecutionEngine τ) : SameAccounts e (e.kill pid) := by
  refine SameAccounts.of_processes rfl le_rfl rfl rfl rfl rfl rfl rfl ?_
  intro child
  rw [kill, AList.lookup_mapValues, Option.map_map]
  congr 1
  funext p
  show Process.unreaped (if p.pid = pid ∧ p.state = .running then { p with killed := true } else p)
    = p.unreaped
  split
  · rfl
  · rfl

theorem sameAccounts_killTask (taskId : TaskId) (e : ExecutionEngine τ) :
    SameAccounts e (e.killTask taskId) := by
  unfold killTask
  split
  · exact .refl e
  · split
    · exact sameAccounts_kill _ e
    · exact .refl e

theorem sameAccounts_foldl {f : ExecutionEngine τ → TaskId → ExecutionEngine τ}
    (hf : ∀ e taskId, SameAccounts e (f e taskId)) (taskIds : List TaskId)
    (e : ExecutionEngine τ) : SameAccounts e (taskIds.foldl f e) := by
  induction taskIds generalizing e with
  | nil => exact .refl e
  | cons taskId taskIds ih => exact (hf e taskId).trans (ih (f e taskId))

theorem sameAccounts_killExpiredTasks (expiredGrantIds : List GrantId)
    (e : ExecutionEngine τ) : SameAccounts e (e.killExpiredTasks expiredGrantIds) := by
  apply sameAccounts_foldl
  intro e taskId
  unfold killIfExpired
  split
  · exact .refl e
  · split
    · exact sameAccounts_killTask taskId e
    · exact .refl e

/-- A step that only changes the table and its tasks. -/
theorem sameAccounts_tables (tasks freeing : List TaskId)
    (descs : UnorderedMap TaskId (TaskDesc τ)) (e : ExecutionEngine τ) :
    SameAccounts e { e with tasks, freeing, descs } :=
  .of_processes rfl le_rfl rfl rfl rfl rfl rfl rfl fun _ => rfl

theorem sameAccounts_tryReferenceTask (taskId : TaskId) (e : ExecutionEngine τ) :
    SameAccounts e (e.tryReferenceTask taskId).2 := by
  unfold tryReferenceTask
  split
  · exact sameAccounts_tables _ _ _ e
  · exact .refl e

theorem sameAccounts_freeTask (taskId : TaskId) (e : ExecutionEngine τ) :
    SameAccounts e (e.freeTask taskId) := by
  unfold freeTask
  split
  · exact .refl e
  · dsimp only
    split
    · exact sameAccounts_tables _ _ _ e
    · exact sameAccounts_tables _ _ _ e

theorem sameAccounts_killFreed {taskId : TaskId} (h : e.killFreed taskId = some e') :
    SameAccounts e e' := by
  unfold killFreed at h
  split at h
  · cases h
    exact (sameAccounts_tables _ _ _ e).trans (sameAccounts_killTask taskId _)
  · cases h

/-- A child that stays unreaped, or stays reaped, is replaced. -/
theorem sameAccounts_process {child : TaskId} {p p' : Process}
    (hp : e.processes.lookup child = some p) (hunreaped : p'.unreaped = p.unreaped) :
    SameAccounts e { e with processes := e.processes.insert child p' } := by
  refine SameAccounts.of_processes rfl le_rfl rfl rfl rfl rfl rfl rfl ?_
  intro id
  show ((e.processes.insert child p').lookup id).map Process.unreaped = _
  rw [AList.lookup_insert_eq]
  split
  · next hid => rw [hid, hp, Option.map_some, Option.map_some, hunreaped]
  · rfl

theorem sameAccounts_write {child : TaskId} {standardOutput standardError : List UInt8}
    (h : e.write child standardOutput standardError = some e') : SameAccounts e e' := by
  unfold write at h
  split at h
  · cases h
  · next p hp =>
      split at h
      · cases h
        exact sameAccounts_process hp rfl
      · cases h

theorem sameAccounts_exit {child : TaskId} {exitCode : ℤ} (h : e.exit child exitCode = some e') :
    SameAccounts e e' := by
  unfold exit at h
  split at h
  · cases h
  · next p hp =>
      split at h
      · next hstate =>
          cases h
          apply sameAccounts_process hp
          rw [Process.unreaped, Process.unreaped, hstate]
      · cases h

/-- A callback that has passed its lock goes on. -/
theorem sameAccounts_callback {child : TaskId} {c c' : CallbackState}
    {descs : UnorderedMap TaskId (TaskDesc τ)} (hc : e.callbacks.lookup child = some c)
    (hpassed : ∀ pid exitCode, c ≠ .started pid exitCode)
    (hpassed' : ∀ pid exitCode, c' ≠ .started pid exitCode) :
    SameAccounts e { e with descs, callbacks := e.callbacks.insert child c' } := by
  refine ⟨rfl, le_rfl, rfl, rfl, rfl, rfl, rfl, fun _ => rfl, ?_, ?_⟩
  · intro id
    show ((e.callbacks.insert child c').lookup id).isSome = _
    rw [AList.lookup_insert_eq]
    split
    · next hid => rw [hid, hc]; rfl
    · rfl
  · intro id
    unfold exitPending
    show (match (e.callbacks.insert child c').lookup id with
      | none => true
      | some (.started _ _) => true
      | some _ => false) = _
    rw [AList.lookup_insert_eq]
    by_cases hid : id = child
    · rw [if_pos hid, hid, hc]
      cases c with
      | started pid exitCode => exact absurd rfl (hpassed pid exitCode)
      | completing | signalling | finished =>
          cases c' with
          | started pid exitCode => exact absurd rfl (hpassed' pid exitCode)
          | completing | signalling | finished => rfl
    · rw [if_neg hid]

theorem sameAccounts_callbackOnCompletion {child : TaskId}
    (h : e.callbackOnCompletion child = some e') : SameAccounts e e' := by
  unfold callbackOnCompletion at h
  split at h
  · next hc =>
      cases h
      exact sameAccounts_callback hc (by simp) (by simp)
  · cases h

theorem sameAccounts_callbackCountDown {child : TaskId}
    (h : e.callbackCountDown child = some e') : SameAccounts e e' := by
  unfold callbackCountDown at h
  split at h
  · next hc =>
      cases h
      exact sameAccounts_callback hc (by simp) (by simp)
  · cases h

/-! ## Steps that move the accounts -/

theorem Counted.absent (h : Counted limit due e) : e.processes.lookup e.nextTaskId = none := by
  cases hp : e.processes.lookup e.nextTaskId with
  | none => rfl
  | some p => exact absurd (h.fresh _ p hp) (lt_irrefl _)

/-- A new child is on both accounts; its permit is due. -/
theorem Counted.start (h : Counted limit due e) (hexiting : e.exiting = false)
    (hroom : ¬limit < e.runningTasks + 1) (hmax : limit.toNat < 2 ^ 63) {p : Process}
    (hp : p.unreaped = true) {tasks : List TaskId} {descs : UnorderedMap TaskId (TaskDesc τ)}
    {tasksRunEver : UInt64} :
    Counted limit (due + 1)
      { e with
        nextTaskId := e.nextTaskId + 1
        runningTasks := e.runningTasks + 1
        processes := e.processes.insert e.nextTaskId p
        tasks, descs, tasksRunEver } := by
  have habsent := h.absent
  have hnoCallback : e.callbacks.lookup e.nextTaskId = none := by
    cases hc : e.callbacks.lookup e.nextTaskId with
    | none => rfl
    | some c =>
        obtain ⟨p', hp', -⟩ := h.handled _ c hc
        rw [habsent] at hp'
        cases hp'
  have hsum : (e.runningTasks + 1).toNat = e.runningTasks.toNat + 1 := by
    have hle := h.running_le
    rw [UInt64.toNat_add, Nat.mod_eq_of_lt]
    · rfl
    · change e.runningTasks.toNat + 1 < 2 ^ 64
      omega
  constructor
  · exact h.limit_eq
  · intro child p' hp'
    change (e.processes.insert e.nextTaskId p).lookup child = some p' at hp'
    rw [AList.lookup_insert_eq] at hp'
    show child < e.nextTaskId + 1
    split at hp'
    · next hid =>
        rw [hid]
        exact Nat.lt_succ_self _
    · exact Nat.lt_succ_of_lt (h.fresh child p' hp')
  · intro child c hc
    obtain ⟨p', hp', hreaped⟩ := h.handled child c hc
    refine ⟨p', ?_, hreaped⟩
    show (e.processes.insert e.nextTaskId p).lookup child = some p'
    have hne : child ≠ e.nextTaskId := by
      rintro rfl
      rw [habsent] at hp'
      cases hp'
    rw [AList.lookup_insert_eq, if_neg hne]
    exact hp'
  · show (e.runningTasks + 1).toNat
      = (e.processes.insert e.nextTaskId p).count fun child _ => e.exitPending child
    have hpending : e.exitPending e.nextTaskId = true := by
      rw [exitPending, hnoCallback]
    rw [AList.count_insert, AList.erase_of_lookup_none habsent, hpending, hsum, h.running]
    rfl
  · show (e.runningTasks + 1).toNat ≤ limit.toNat
    exact UInt64.le_iff_toNat_le.mp (UInt64.not_lt.mp hroom)
  · intro _
    have hpermits := h.permits hexiting
    show e.waitpidSemaphore + (due + 1) + e.permitHeld
      = (e.processes.insert e.nextTaskId p).count fun _ p => p.unreaped
    rw [AList.count_insert, AList.erase_of_lookup_none habsent, hp, if_pos rfl]
    rw [unreapedChildren] at hpermits
    omega
  · exact h.awake
  · exact h.notAborted
  · exact h.stopping

theorem Counted.release (h : Counted limit (due + 1) e) :
    Counted limit due { e with waitpidSemaphore := e.waitpidSemaphore + 1 } where
  limit_eq := h.limit_eq
  fresh := h.fresh
  handled := h.handled
  running := h.running
  running_le := h.running_le
  permits := by
    intro hexiting
    have hpermits := h.permits hexiting
    show e.waitpidSemaphore + 1 + due + e.permitHeld = e.unreapedChildren
    omega
  awake := h.awake
  notAborted := h.notAborted
  stopping := h.stopping

/-- Once the engine is stopping, its semaphore and waiter are no longer accounted for. -/
theorem Counted.exit (h : Counted limit due e) {stopping : Bool} {waitpidSemaphore : ℕ} :
    Counted limit due { e with exiting := true, stopping, waitpidSemaphore } where
  limit_eq := h.limit_eq
  fresh := h.fresh
  handled := h.handled
  running := h.running
  running_le := h.running_le
  permits hexiting := by cases hexiting
  awake hexiting := by cases hexiting
  notAborted := h.notAborted
  stopping _ := rfl

theorem Counted.killAll (h : Counted limit due e) (hkill : e.killAll = some e') :
    Counted limit due e' := by
  unfold ExecutionEngine.killAll at hkill
  split at hkill
  · next hstopping =>
      cases hkill
      have hfold := sameAccounts_foldl (fun e taskId => sameAccounts_killTask taskId e) e.tasks e
      have hexiting := hfold.exiting.trans (h.stopping hstopping)
      set e₁ := e.tasks.foldl (fun e taskId => killTask taskId e) e with he₁
      have hsame : { e₁ with stopping := false, waitpidSemaphore := e₁.waitpidSemaphore + 1 }
          = { e₁ with
              exiting := true
              stopping := false
              waitpidSemaphore := e₁.waitpidSemaphore + 1 } := by
        rw [← hexiting]
      rw [hsame]
      exact (h.same hfold).exit
  · cases hkill

/-- The waiter takes a permit, or stops when the engine does. -/
theorem Counted.waiterStep (h : Counted limit due e) (hstep : e.waiterStep = some e') :
    Counted limit due e' := by
  have hmore : e.exiting = false → e.moreWorkToDo = true := by
    intro hexiting
    rw [moreWorkToDo, hexiting]
    rfl
  unfold ExecutionEngine.waiterStep at hstep
  split at hstep
  · next hwaiter =>
      cases hstep
      refine { h with permits := ?_, awake := ?_, notAborted := ?_ }
      · intro hexiting
        have hpermits := h.permits hexiting
        rw [permitHeld, hwaiter] at hpermits
        rw [hmore hexiting]
        exact hpermits
      · intro hexiting
        rw [hmore hexiting]
        exact WaiterState.noConfusion
      · show (if e.moreWorkToDo then WaiterState.acquiring else .stopped) ≠ .aborted
        split
        · exact WaiterState.noConfusion
        · exact WaiterState.noConfusion
  · next hwaiter =>
      split at hstep
      · cases hstep
      · next hsemaphore =>
          cases hstep
          refine { h with permits := ?_, awake := ?_, notAborted := ?_ }
          · intro hexiting
            have hpermits := h.permits hexiting
            rw [permitHeld, hwaiter] at hpermits
            change e.waitpidSemaphore + due + 0 = e.unreapedChildren at hpermits
            show e.waitpidSemaphore - 1 + due + 1 = e.unreapedChildren
            omega
          · exact fun _ => WaiterState.noConfusion
          · exact WaiterState.noConfusion
  · next hwaiter =>
      cases hstep
      refine { h with permits := ?_, awake := ?_, notAborted := ?_ }
      · intro hexiting
        have hpermits := h.permits hexiting
        rw [permitHeld, hwaiter] at hpermits
        rw [hmore hexiting]
        exact hpermits
      · intro hexiting
        rw [hmore hexiting]
        exact WaiterState.noConfusion
      · show (if e.moreWorkToDo then WaiterState.waiting else .stopped) ≠ .aborted
        split
        · exact WaiterState.noConfusion
        · exact WaiterState.noConfusion
  · cases hstep

/-- A child that was waited for leaves the permits with the permit of the waiter. -/
theorem Counted.wait {child : TaskId} (h : Counted limit due e)
    (hwait : e.wait child = some e') : Counted limit due e' := by
  unfold ExecutionEngine.wait at hwait
  split at hwait
  · next p hwaiter hp =>
      split at hwait
      · next exitCode hstate =>
          cases hwait
          have hunreaped : p.unreaped = true := by
            rw [Process.unreaped, hstate]
          have hnoCallback : e.callbacks.lookup child = none := by
            cases hc : e.callbacks.lookup child with
            | none => rfl
            | some c =>
                obtain ⟨p', hp', hreaped⟩ := h.handled child c hc
                rw [hp] at hp'
                cases hp'
                rw [hunreaped] at hreaped
                cases hreaped
          refine { h with fresh := ?_, handled := ?_, running := ?_, permits := ?_, awake := ?_,
                          notAborted := ?_ }
          · intro id p' hp'
            change (e.processes.insert child _).lookup id = some p' at hp'
            rw [AList.lookup_insert_eq] at hp'
            split at hp'
            · next hid =>
                rw [hid]
                exact h.fresh child p hp
            · exact h.fresh id p' hp'
          · intro id c hc
            change (e.callbacks.insert child _).lookup id = some c at hc
            show ∃ p', (e.processes.insert child _).lookup id = some p' ∧ _
            rw [AList.lookup_insert_eq] at hc ⊢
            split
            · exact ⟨_, rfl, rfl⟩
            · next hid =>
                rw [if_neg hid] at hc
                exact h.handled id c hc
          · rw [h.running]
            apply AList.count_map_congr
            intro id
            show _ = ((e.processes.insert child _).lookup id).map fun _ =>
              (match (e.callbacks.insert child (.started p.pid exitCode)).lookup id with
                | none => true
                | some (.started _ _) => true
                | some _ => false)
            rw [AList.lookup_insert_eq, AList.lookup_insert_eq]
            by_cases hid : id = child
            · rw [if_pos hid, if_pos hid, hid, hp, Option.map_some, Option.map_some,
                exitPending, hnoCallback]
            · rw [if_neg hid, if_neg hid]
              rfl
          · intro hexiting
            have hpermits := h.permits hexiting
            rw [permitHeld, hwaiter, unreapedChildren, ← AList.count_erase_add _ hp, hunreaped]
              at hpermits
            show e.waitpidSemaphore + due + 0
              = (e.processes.insert child { p with state := .reaped exitCode }).count
                  fun _ p => p.unreaped
            rw [AList.count_insert]
            change e.waitpidSemaphore + due + 1 = _ + 1 at hpermits
            show _ = _ + 0
            omega
          · exact fun _ => WaiterState.noConfusion
          · exact WaiterState.noConfusion
      · cases hwait
  · cases hwait

/-- `wait` finds no child only when the engine is stopping. -/
theorem Counted.waitFailed (h : Counted limit due e) (hwait : e.waitFailed = some e') :
    Counted limit due e' := by
  unfold ExecutionEngine.waitFailed at hwait
  split at hwait
  · next hnone =>
      cases hwait
      have hexiting : e.exiting = true := by
        by_contra hexiting
        have hpermits := h.permits (Bool.eq_false_iff.mpr hexiting)
        rw [permitHeld, hnone.1, unreapedChildren, hnone.2] at hpermits
        change _ + 1 = 0 at hpermits
        omega
      rw [if_pos hexiting]
      refine { h with permits := ?_, awake := ?_, notAborted := ?_ }
      · intro hnot
        rw [hexiting] at hnot
        cases hnot
      · intro hnot
        rw [hexiting] at hnot
        cases hnot
      · exact WaiterState.noConfusion
  · cases hwait

/-- A callback takes its child off the counter, whatever task it found. -/
theorem Counted.handle {child : TaskId} {pid : Pid} {exitCode : ℤ} {c : CallbackState}
    {descs : UnorderedMap TaskId (TaskDesc τ)} (h : Counted limit due e)
    (hstarted : e.callbacks.lookup child = some (.started pid exitCode))
    (hpassed : ∀ pid exitCode, c ≠ .started pid exitCode) :
    Counted limit due
      { e with
        runningTasks := e.runningTasks - 1
        descs
        callbacks := e.callbacks.insert child c } := by
  obtain ⟨p, hp, hreaped⟩ := h.handled child _ hstarted
  set e' : ExecutionEngine τ :=
    { e with
      runningTasks := e.runningTasks - 1
      descs
      callbacks := e.callbacks.insert child c } with he'
  have hlookup : ∀ id, e'.callbacks.lookup id
      = if id = child then some c else e.callbacks.lookup id :=
    fun id => AList.lookup_insert_eq _ _ _ _
  have hbefore : e.exitPending child = true := by
    rw [exitPending, hstarted]
  have hafter : e'.exitPending child = false := by
    rw [exitPending, hlookup, if_pos rfl]
    cases c with
    | started pid exitCode => exact absurd rfl (hpassed pid exitCode)
    | completing | signalling | finished => rfl
  have hcount : e'.pendingExits + 1 = e.pendingExits := by
    have hoff := AList.count_add_of_eq_off (p := fun id _ => e'.exitPending id)
      (q := fun id _ => e.exitPending id) hp (by
        intro id _ hid
        simp only [exitPending, hlookup, if_neg hid])
    rw [hbefore, hafter] at hoff
    exact hoff
  have hpositive : 1 ≤ e.runningTasks.toNat := by
    rw [h.running]
    omega
  have hminus : (e.runningTasks - 1).toNat = e.runningTasks.toNat - 1 := by
    have hle : 1 ≤ e.runningTasks := by
      rw [UInt64.le_iff_toNat_le]
      exact hpositive
    rw [UInt64.toNat_sub_of_le _ _ hle]
    rfl
  refine { h with handled := ?_, running := ?_, running_le := ?_ }
  · intro id c' hc'
    rw [hlookup] at hc'
    split at hc'
    · next hid =>
        rw [hid]
        exact ⟨p, hp, hreaped⟩
    · exact h.handled id c' hc'
  · show (e.runningTasks - 1).toNat = e'.pendingExits
    have hrunning := h.running
    omega
  · show (e.runningTasks - 1).toNat ≤ limit.toNat
    have hle := h.running_le
    omega

theorem Counted.callbackLocked {child : TaskId} {found : Option TaskId} {now : Nanoseconds}
    (h : Counted limit due e) (hcallback : e.callbackLocked child found now = some e') :
    Counted limit due e' := by
  unfold ExecutionEngine.callbackLocked at hcallback
  split at hcallback
  · next pid exitCode hstarted =>
      split at hcallback
      · cases found with
        | none =>
            cases hcallback
            exact h.handle hstarted (by simp)
        | some taskId =>
            cases hcallback
            exact h.handle hstarted (by simp)
      · cases hcallback
  · cases hcallback

/-- A task that is queued is refused, or brings a new child whose permit is due. -/
theorem Counted.tryQueueTask (h : Counted limit due e) (hmax : limit.toNat < 2 ^ 63)
    (grantId : GrantId) (userTask : τ) (memoryAvailable : ℕ) (pid : Pid) (now : Nanoseconds) :
    let e' := (e.tryQueueTask grantId userTask memoryAvailable pid now).2
    Counted limit (due + (e'.waitpidSemaphore - e.waitpidSemaphore))
      { e' with waitpidSemaphore := e.waitpidSemaphore } := by
  unfold ExecutionEngine.tryQueueTask
  rw [tryStartingNewTaskUnsafe_eq]
  split_ifs with hexiting hrefused
  · simpa using h
  · have hnumbers : SameAccounts e { e with nextTaskId := e.nextTaskId + 1 } :=
      .of_processes rfl (Nat.le_succ _) rfl rfl rfl rfl rfl rfl fun _ => rfl
    simpa using h.same hnumbers
  · have hdue : due + (e.waitpidSemaphore + 1 - e.waitpidSemaphore) = due + 1 := by omega
    show Counted limit (due + (e.waitpidSemaphore + 1 - e.waitpidSemaphore)) _
    have hroom : ¬limit < e.runningTasks + 1 := by
      rw [← h.limit_eq]
      exact (not_or.mp hrefused).1
    have hnew : Process.unreaped ⟨pid, .running, [], [], false⟩ = true := rfl
    rw [hdue]
    exact h.start (Bool.eq_false_iff.mpr hexiting) hroom hmax hnew

end ExecutionEngine

/-! ## Runs in which the release is a step of its own -/

/-- An engine, and how many releases of its semaphore are still to come for children that
were started. -/
structure Releasing (τ : Type) where
  engine : ExecutionEngine τ
  due : ℕ

namespace Releasing

open ExecutionEngine

inductive Action (τ : Type)
  | engine (a : ExecutionEngine.Action τ)
  | release

/-- Like the engine's step, but what `TryQueueTask` releases is put off. -/
def next (s : Releasing τ) : Action τ → Option (Releasing τ)
  | .engine a =>
      (s.engine.next a).map fun e =>
        match a with
        | .tryQueueTask _ _ _ _ _ =>
            { engine := { e with waitpidSemaphore := s.engine.waitpidSemaphore }
              due := s.due + (e.waitpidSemaphore - s.engine.waitpidSemaphore) }
        | _ => { engine := e, due := s.due }
  | .release =>
      match s.due with
      | 0 => none
      | due + 1 =>
          some
            { engine := { s.engine with waitpidSemaphore := s.engine.waitpidSemaphore + 1 }
              due := due }

def Step (s : Releasing τ) (a : Action τ) (t : Releasing τ) : Prop := s.next a = some t

variable {s t : Releasing τ} {limit : UInt64}

/-- Every step keeps the accounts. -/
theorem counted_step (hmax : limit.toNat < 2 ^ 63) (h : Counted limit s.due s.engine)
    {a : Action τ} (hstep : Step s a t) : Counted limit t.due t.engine := by
  cases a with
  | release =>
      unfold Step next at hstep
      cases hdue : s.due with
      | zero =>
          simp only [hdue] at hstep
          cases hstep
      | succ due =>
          simp only [hdue] at hstep
          cases hstep
          rw [hdue] at h
          exact h.release
  | engine a =>
      obtain ⟨e, hnext, rfl⟩ := Option.map_eq_some_iff.mp hstep
      unfold ExecutionEngine.next at hnext
      split at hnext
      · cases hnext
      · cases a with
        | tryQueueTask grantId userTask memoryAvailable pid now =>
            simp only at hnext
            split at hnext
            · cases hnext
              exact h.tryQueueTask hmax grantId userTask memoryAvailable pid now
            · cases hnext
        | tryReferenceTask taskId =>
            cases hnext
            exact h.same (sameAccounts_tryReferenceTask taskId _)
        | freeTask taskId =>
            cases hnext
            exact h.same (sameAccounts_freeTask taskId _)
        | killFreed taskId => exact h.same (sameAccounts_killFreed hnext)
        | killExpiredTasks expiredGrantIds =>
            cases hnext
            exact h.same (sameAccounts_killExpiredTasks expiredGrantIds _)
        | onCleanupTimer now =>
            cases hnext
            exact h.same (sameAccounts_tables _ _ _ _)
        | stop =>
            cases hnext
            exact h.exit
        | killAll => exact h.killAll hnext
        | waiterStep => exact h.waiterStep hnext
        | wait child => exact h.wait hnext
        | waitFailed => exact h.waitFailed hnext
        | callbackLocked child found now => exact h.callbackLocked hnext
        | callbackOnCompletion child => exact h.same (sameAccounts_callbackOnCompletion hnext)
        | callbackCountDown child => exact h.same (sameAccounts_callbackCountDown hnext)
        | write child standardOutput standardError => exact h.same (sameAccounts_write hnext)
        | exit child exitCode => exact h.same (sameAccounts_exit hnext)

theorem counted_of_run (hmax : limit.toNat < 2 ^ 63) {minMemory : ℕ} {as : List (Action τ)}
    (run : Run Step ⟨empty τ limit minMemory, 0⟩ as s) : Counted limit s.due s.engine := by
  apply run.invariant (fun s a t h hstep => counted_step hmax h hstep)
  constructor
  · rfl
  · intro child p hp
    cases hp
  · intro child c hc
    cases hc
  · rfl
  · exact Nat.zero_le _
  · exact fun _ => rfl
  · exact fun _ => WaiterState.noConfusion
  · exact WaiterState.noConfusion
  · intro hstopping
    cases hstopping

theorem unreaped_le_pendingExits {due : ℕ} {e : ExecutionEngine τ} (h : Counted limit due e) :
    e.unreapedChildren ≤ e.pendingExits := by
  apply AList.count_mono
  intro child p hp hunreaped
  have hnoCallback : e.callbacks.lookup child = none := by
    cases hc : e.callbacks.lookup child with
    | none => rfl
    | some c =>
        obtain ⟨p', hp', hreaped⟩ := h.handled child c hc
        rw [hp] at hp'
        cases hp'
        rw [hunreaped] at hreaped
        cases hreaped
  rw [exitPending, hnoCallback]

/-- In every state that an engine with a configured limit reaches: its counter is the number
of children whose exit callback has not run, no more children than the limit are alive, a
refused task changes nothing but the next number, and the waiter is in `wait` before `Stop`
only while there is a child to wait for, so it never fails. -/
theorem running_tasks_counted {flags : EngineFlags} {nprocs : UInt64} {cgroup : Bool}
    (hlimit : taskConcurrencyLimit flags nprocs cgroup = some limit) {minMemory : ℕ}
    {as : List (Action τ)} (run : Run Step ⟨empty τ limit minMemory, 0⟩ as s) :
    s.engine.runningTasks.toNat = s.engine.pendingExits ∧
    s.engine.unreapedChildren ≤ limit.toNat ∧
    (∀ grantId userTask memoryAvailable pid now,
      (s.engine.tryQueueTask grantId userTask memoryAvailable pid now).1 = none →
        ∃ nextTaskId, (s.engine.tryQueueTask grantId userTask memoryAvailable pid now).2
          = { s.engine with nextTaskId }) ∧
    (s.engine.exiting = false → s.engine.waiter = .waiting →
      ∃ child p, s.engine.processes.lookup child = some p ∧ p.unreaped = true) ∧
    s.engine.waiter ≠ .aborted := by
  have h := counted_of_run (taskConcurrencyLimit_lt hlimit) run
  refine ⟨h.running, ?_, ?_, ?_, h.notAborted⟩
  · calc
      s.engine.unreapedChildren ≤ s.engine.pendingExits := unreaped_le_pendingExits h
      _ = s.engine.runningTasks.toNat := h.running.symm
      _ ≤ limit.toNat := h.running_le
  · intro grantId userTask memoryAvailable pid now hrefused
    unfold tryQueueTask at hrefused ⊢
    rw [tryStartingNewTaskUnsafe_eq] at hrefused ⊢
    split_ifs at hrefused ⊢
    · exact ⟨_, rfl⟩
    · exact ⟨_, rfl⟩
  · intro hexiting hwaiter
    have hpermits := h.permits hexiting
    rw [permitHeld, hwaiter] at hpermits
    change _ + 1 = s.engine.processes.count _ at hpermits
    have hpositive : 0 < s.engine.processes.count fun _ p => p.unreaped := by omega
    obtain ⟨⟨child, p⟩, hmem, hunreaped⟩ := List.countP_pos_iff.mp hpositive
    exact ⟨child, p, AList.lookup_eq_some_iff.mpr hmem, hunreaped⟩

/-- A task is queued; the waiter starts before the semaphore is released, and waits. -/
def waitingRun : List (Action ℕ) :=
  [.engine (.tryQueueTask 7 0 100 42 0), .engine .waiterStep, .release, .engine .waiterStep,
    .engine .waiterStep]

theorem running_tasks_counted_waitingRun :
    ∃ s, follow next waitingRun ⟨empty ℕ 2 0, 0⟩ = some s ∧ s.engine.runningTasks.toNat = 1 ∧
      s.engine.waiter = .waiting ∧
      ∃ child p, s.engine.processes.lookup child = some p ∧ p.unreaped = true := by
  refine ⟨_, rfl, rfl, rfl, ?_⟩
  have run : Run Step ⟨empty ℕ 2 0, 0⟩ waitingRun _ := Run.of_follow (fun _ _ _ h => h) rfl
  have hlimit : taskConcurrencyLimit ⟨2, "user", 16⟩ 8 false = some 2 := by decide
  exact (running_tasks_counted hlimit run).2.2.2.1 rfl rfl

end Releasing

end Yadcc.Daemon.Cloud
