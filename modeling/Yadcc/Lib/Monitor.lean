/-
# Calls that wait on a condition variable

A lock guards a state. A call takes the lock and waits on a condition variable until its
predicate holds of the state or its deadline passes; once the predicate holds it acts on the
state before it lets go of the lock. Operations of others change the state under the same
lock. They notify all waiting calls before they let go of the lock, or afterwards, or not at
all.

No wake-up is lost if whatever can make a predicate true is an operation that notifies. This
is stated without fairness: a call that waits although its predicate holds has a
notification under way.
-/

import Yadcc.Lib.Transition

namespace Yadcc.Lib

universe u v w

/-- When an operation notifies the waiting calls. -/
inductive Notification
  | never
  | underLock
  | afterUnlock
  deriving DecidableEq

/-- What calls wait for and do, and what operations of others do. An operation may be
impossible in a state. -/
structure Monitor (σ : Type u) (ρ : Type v) (ο : Type w) where
  ready : ρ → σ → Bool
  enter : ρ → σ → σ
  operate : ο → σ → Option σ
  notification : ο → σ → Notification

namespace Monitor

/-- Where a call stands: before a look at the state, on the condition variable, past its
deadline and before its last look, or returned. -/
inductive Pc
  | looking
  | waiting
  | expired
  | returned (success : Bool)
  deriving DecidableEq

/-- `notifying` counts the operations that have let go of the lock and have yet to notify. -/
structure State (σ : Type u) (ρ : Type v) where
  shared : σ
  calls : ℕ → Option (ρ × Pc)
  notifying : ℕ

/-- No call has been made. -/
def start {σ : Type u} {ρ : Type v} (shared : σ) : State σ ρ :=
  ⟨shared, fun _ => none, 0⟩

inductive Event (ρ : Type v) (ο : Type w)
  | call (id : ℕ) (request : ρ)
  | look (id : ℕ)
  | deadline (id : ℕ)
  | operate (op : ο)
  | notify

variable {σ : Type u} {ρ : Type v} {ο : Type w}

/-- What a notification does to a call. -/
def notified : ρ × Pc → ρ × Pc
  | (request, .waiting) => (request, .looking)
  | call => call

namespace State

def setCall (s : State σ ρ) (id : ℕ) (call : ρ × Pc) : State σ ρ :=
  { s with calls := Function.update s.calls id (some call) }

/-- `notify_all`. -/
def notifyAll (s : State σ ρ) : State σ ρ :=
  { s with calls := fun id => (s.calls id).map notified }

@[simp]
theorem setCall_shared (s : State σ ρ) (id : ℕ) (call : ρ × Pc) :
    (s.setCall id call).shared = s.shared := rfl

@[simp]
theorem setCall_notifying (s : State σ ρ) (id : ℕ) (call : ρ × Pc) :
    (s.setCall id call).notifying = s.notifying := rfl

@[simp]
theorem setCall_self (s : State σ ρ) (id : ℕ) (call : ρ × Pc) :
    (s.setCall id call).calls id = some call :=
  Function.update_self ..

theorem setCall_of_ne {s : State σ ρ} {id id' : ℕ} {call : ρ × Pc} (h : id' ≠ id) :
    (s.setCall id call).calls id' = s.calls id' :=
  Function.update_of_ne h ..

@[simp]
theorem notifyAll_shared (s : State σ ρ) : s.notifyAll.shared = s.shared := rfl

/-- A call on the list of the variable has not been notified since. -/
theorem notifyAll_not_waiting {s : State σ ρ} {id : ℕ} {request : ρ} :
    s.notifyAll.calls id ≠ some (request, .waiting) := by
  intro h
  obtain ⟨⟨request', pc⟩, -, hcall⟩ := Option.map_eq_some_iff.mp h
  cases pc with
  | waiting => cases hcall
  | looking => cases hcall
  | expired => cases hcall
  | returned success => cases hcall

/-- A notification leaves the requests as they are, and what has been returned. -/
theorem notifyAll_returned {s : State σ ρ} {id : ℕ} {request : ρ} {success : Bool} :
    s.notifyAll.calls id = some (request, .returned success) ↔
      s.calls id = some (request, .returned success) := by
  show (s.calls id).map notified = _ ↔ _
  cases hcall : s.calls id with
  | none => simp
  | some call =>
      obtain ⟨request', pc⟩ := call
      cases pc with
      | looking => simp [notified]
      | waiting => simp [notified]
      | expired => simp [notified]
      | returned success' => simp [notified]

theorem notifyAll_request {s : State σ ρ} {id : ℕ} {request : ρ} {pc : Pc}
    (h : s.calls id = some (request, pc)) :
    ∃ pc', s.notifyAll.calls id = some (request, pc') := by
  refine ⟨(notified (request, pc)).2, ?_⟩
  show (s.calls id).map notified = _
  rw [h]
  cases pc with
  | looking => rfl
  | waiting => rfl
  | expired => rfl
  | returned success => rfl

end State

variable (M : Monitor σ ρ ο)

/-- One look: the call acts and returns, or stands as `otherwise` says. -/
def look (s : State σ ρ) (id : ℕ) (request : ρ) (otherwise : Pc) : State σ ρ :=
  if M.ready request s.shared then
    { s.setCall id (request, .returned true) with shared := M.enter request s.shared }
  else s.setCall id (request, otherwise)

/-- The rest of an operation that has changed the state. -/
def finish (s : State σ ρ) (op : ο) (shared : σ) : State σ ρ :=
  match M.notification op s.shared with
  | .never => { s with shared }
  | .underLock => { s.notifyAll with shared }
  | .afterUnlock => { s with shared, notifying := s.notifying + 1 }

/-- The variable may take a call off its list when its deadline passes, and a call that was
notified too late finds its deadline passed. -/
inductive Step : State σ ρ → Event ρ ο → State σ ρ → Prop
  | call {s : State σ ρ} (id : ℕ) (request : ρ) : s.calls id = none →
      Step s (.call id request) (s.setCall id (request, .looking))
  | look {s : State σ ρ} {id : ℕ} {request : ρ} : s.calls id = some (request, .looking) →
      Step s (.look id) (M.look s id request .waiting)
  | lastLook {s : State σ ρ} {id : ℕ} {request : ρ} : s.calls id = some (request, .expired) →
      Step s (.look id) (M.look s id request (.returned false))
  | deadline {s : State σ ρ} {id : ℕ} {request : ρ} {pc : Pc} :
      s.calls id = some (request, pc) → pc = .looking ∨ pc = .waiting →
      Step s (.deadline id) (s.setCall id (request, .expired))
  | operate {s : State σ ρ} {op : ο} {shared : σ} : M.operate op s.shared = some shared →
      Step s (.operate op) (M.finish s op shared)
  | notify {s : State σ ρ} : 0 < s.notifying →
      Step s .notify { s.notifyAll with notifying := s.notifying - 1 }

/-- The steps as a function. -/
def next (s : State σ ρ) : Event ρ ο → Option (State σ ρ)
  | .call id request =>
      match s.calls id with
      | none => some (s.setCall id (request, .looking))
      | some _ => none
  | .look id =>
      match s.calls id with
      | some (request, .looking) => some (M.look s id request .waiting)
      | some (request, .expired) => some (M.look s id request (.returned false))
      | _ => none
  | .deadline id =>
      match s.calls id with
      | some (request, .looking) => some (s.setCall id (request, .expired))
      | some (request, .waiting) => some (s.setCall id (request, .expired))
      | _ => none
  | .operate op => (M.operate op s.shared).map (M.finish s op)
  | .notify =>
      if 0 < s.notifying then some { s.notifyAll with notifying := s.notifying - 1 } else none

theorem step_of_next (s : State σ ρ) (event : Event ρ ο) (t : State σ ρ)
    (h : M.next s event = some t) : M.Step s event t := by
  cases event with
  | call id request =>
      simp only [next] at h
      split at h
      · next hfresh =>
          cases h
          exact .call id request hfresh
      · cases h
  | look id =>
      simp only [next] at h
      split at h
      · next hcall =>
          cases h
          exact .look hcall
      · next hcall =>
          cases h
          exact .lastLook hcall
      · cases h
  | deadline id =>
      simp only [next] at h
      split at h
      · next hcall =>
          cases h
          exact .deadline hcall (.inl rfl)
      · next hcall =>
          cases h
          exact .deadline hcall (.inr rfl)
      · cases h
  | operate op =>
      obtain ⟨shared, hshared, rfl⟩ := Option.map_eq_some_iff.mp h
      exact .operate hshared
  | notify =>
      simp only [next] at h
      split at h
      · next hpending =>
          cases h
          exact .notify hpending
      · cases h

/-! ## The guarded state -/

variable {M} {s t : State σ ρ} {event : Event ρ ο} {events : List (Event ρ ο)}

theorem finish_shared (s : State σ ρ) (op : ο) (shared : σ) :
    (M.finish s op shared).shared = shared := by
  unfold finish
  split
  · rfl
  · rfl
  · rfl

theorem look_of_ready {id : ℕ} {request : ρ} {otherwise : Pc}
    (h : M.ready request s.shared = true) :
    M.look s id request otherwise =
      { s.setCall id (request, .returned true) with shared := M.enter request s.shared } :=
  if_pos h

theorem look_of_not_ready {id : ℕ} {request : ρ} {otherwise : Pc}
    (h : M.ready request s.shared = false) :
    M.look s id request otherwise = s.setCall id (request, otherwise) :=
  if_neg (by rw [h]; decide)

theorem look_enters {request : ρ} (h : M.ready request s.shared = true) (id : ℕ)
    (otherwise : Pc) :
    (M.look s id request otherwise).calls id = some (request, .returned true) ∧
      (M.look s id request otherwise).shared = M.enter request s.shared := by
  rw [look_of_ready h]
  exact ⟨State.setCall_self .., rfl⟩

/-- The guarded state changes by a call whose predicate holds and by operations. -/
theorem shared_cases (h : M.Step s event t) :
    t.shared = s.shared ∨
    (∃ request, M.ready request s.shared = true ∧ t.shared = M.enter request s.shared) ∨
    ∃ op, M.operate op s.shared = some t.shared := by
  have hlook : ∀ id request otherwise,
      (M.look s id request otherwise).shared = s.shared ∨
      ∃ request', M.ready request' s.shared = true ∧
        (M.look s id request otherwise).shared = M.enter request' s.shared := by
    intro id request otherwise
    cases hready : M.ready request s.shared with
    | true =>
        rw [look_of_ready hready]
        exact .inr ⟨request, hready, rfl⟩
    | false =>
        rw [look_of_not_ready hready]
        exact .inl rfl
  cases h with
  | call id request _ => exact .inl rfl
  | look _ => exact (hlook _ _ _).imp_right .inl
  | lastLook _ => exact (hlook _ _ _).imp_right .inl
  | deadline _ _ => exact .inl rfl
  | @operate op shared hshared =>
      rw [finish_shared]
      exact .inr (.inr ⟨op, hshared⟩)
  | notify _ => exact .inl rfl

/-- What entering calls and operations preserve holds of the guarded state in every run. -/
theorem shared_invariant {I : σ → Prop}
    (henter : ∀ request a, I a → M.ready request a = true → I (M.enter request a))
    (hoperate : ∀ op a b, I a → M.operate op a = some b → I b)
    (run : Run M.Step s events t) (hs : I s.shared) : I t.shared := by
  refine run.invariant (I := fun s => I s.shared) (fun s _ t hs hstep => ?_) hs
  rcases shared_cases hstep with heq | ⟨request, hready, heq⟩ | ⟨op, heq⟩
  · rw [heq]
    exact hs
  · rw [heq]
    exact henter request _ hs hready
  · exact hoperate op _ _ hs heq

/-! ## Wake-ups -/

/-- Whatever makes a predicate true is an operation that notifies. -/
structure Notifies (M : Monitor σ ρ ο) : Prop where
  enter : ∀ request request' a, M.ready request' a = true →
    M.ready request (M.enter request' a) = true → M.ready request a = true
  operate : ∀ op a b request, M.operate op a = some b → M.notification op a = .never →
    M.ready request b = true → M.ready request a = true

/-- A call that waits although its predicate holds has a notification under way. -/
def NoLostWakeup (M : Monitor σ ρ ο) (s : State σ ρ) : Prop :=
  ∀ id request, s.calls id = some (request, .waiting) → M.ready request s.shared = true →
    0 < s.notifying

/-- A look that does not make the call wait in front of a true predicate. -/
theorem NoLostWakeup.look (hM : M.Notifies) (hs : M.NoLostWakeup s) (id : ℕ) (request : ρ)
    (otherwise : Pc) : M.NoLostWakeup (M.look s id request otherwise) := by
  intro id' request' hcall hready'
  cases hready : M.ready request s.shared with
  | true =>
      rw [look_of_ready hready] at hcall hready' ⊢
      have hne : id' ≠ id := by
        rintro rfl
        rw [show State.calls _ id' = _ from State.setCall_self s id' _] at hcall
        cases hcall
      have hbefore : s.calls id' = some (request', .waiting) :=
        (State.setCall_of_ne hne).symm.trans hcall
      exact hs id' request' hbefore (hM.enter request' request s.shared hready hready')
  | false =>
      rw [look_of_not_ready hready] at hcall hready' ⊢
      by_cases hid : id' = id
      · rw [hid, State.setCall_self] at hcall
        cases hcall
        rw [State.setCall_shared, hready] at hready'
        cases hready'
      · rw [State.setCall_of_ne hid] at hcall
        exact hs id' request' hcall hready'

theorem NoLostWakeup.setCall (hs : M.NoLostWakeup s) (id : ℕ) (request : ρ) {pc : Pc}
    (hpc : pc ≠ .waiting) : M.NoLostWakeup (s.setCall id (request, pc)) := by
  intro id' request' hcall hready
  by_cases hid : id' = id
  · rw [hid, State.setCall_self] at hcall
    cases hcall
    exact absurd rfl hpc
  · rw [State.setCall_of_ne hid] at hcall
    exact hs id' request' hcall hready

theorem noLostWakeup_step (hM : M.Notifies) (hs : M.NoLostWakeup s) (h : M.Step s event t) :
    M.NoLostWakeup t := by
  cases h with
  | call id request _ => exact hs.setCall id request (by decide)
  | look _ => exact hs.look hM _ _ _
  | lastLook _ => exact hs.look hM _ _ _
  | deadline _ _ => exact hs.setCall _ _ (by decide)
  | @operate op shared hshared =>
      intro id request hcall hready
      unfold finish at hcall hready ⊢
      cases hnotification : M.notification op s.shared with
      | never =>
          simp only [hnotification] at hcall hready ⊢
          exact hs id request hcall (hM.operate op _ _ request hshared hnotification hready)
      | underLock =>
          simp only [hnotification] at hcall
          exact absurd hcall State.notifyAll_not_waiting
      | afterUnlock => exact Nat.succ_pos _
  | notify _ =>
      intro id request hcall _
      exact absurd hcall State.notifyAll_not_waiting

theorem noLostWakeup (hM : M.Notifies) {a : σ} (run : Run M.Step (start a) events s) :
    M.NoLostWakeup s :=
  run.invariant (fun _ _ _ hs h => noLostWakeup_step hM hs h) fun _ _ h => nomatch h

/-- Once its notification has come, a call that waited although its predicate holds takes the
lock and acts. -/
theorem NoLostWakeup.enters (hs : M.NoLostWakeup s) {id : ℕ} {request : ρ}
    (hcall : s.calls id = some (request, .waiting)) (hready : M.ready request s.shared = true) :
    ∃ t, Run M.Step s [.notify, .look id] t ∧ t.calls id = some (request, .returned true) ∧
      t.shared = M.enter request s.shared := by
  have hlooking : s.notifyAll.calls id = some (request, .looking) :=
    congrArg (Option.map notified) hcall
  have hready' : M.ready request s.notifyAll.shared = true := hready
  obtain ⟨hreturned, hshared⟩ :=
    look_enters (s := { s.notifyAll with notifying := s.notifying - 1 }) hready' id .waiting
  exact ⟨_, .cons (.notify (hs id request hcall hready)) (.cons (.look hlooking) (.nil _)),
    hreturned, hshared⟩

/-- So does a call that waits when an operation makes its predicate true and notifies before
it lets go of the lock. -/
theorem enters_of_underLock {id : ℕ} {request : ρ} {op : ο} {shared : σ}
    (hcall : s.calls id = some (request, .waiting)) (hshared : M.operate op s.shared = some shared)
    (hnotification : M.notification op s.shared = .underLock)
    (hready : M.ready request shared = true) :
    ∃ t, Run M.Step s [.operate op, .look id] t ∧ t.calls id = some (request, .returned true) ∧
      t.shared = M.enter request shared := by
  have hfinish : M.finish s op shared = { s.notifyAll with shared } := by
    unfold finish
    rw [hnotification]
  have hlooking : (M.finish s op shared).calls id = some (request, .looking) := by
    rw [hfinish]
    exact congrArg (Option.map notified) hcall
  have hready' : M.ready request (M.finish s op shared).shared = true := by
    rw [finish_shared]
    exact hready
  obtain ⟨hreturned, henter⟩ := look_enters hready' id .waiting
  rw [finish_shared] at henter
  exact ⟨_, .cons (.operate hshared) (.cons (.look hlooking) (.nil _)), hreturned, henter⟩

end Monitor

end Yadcc.Lib
