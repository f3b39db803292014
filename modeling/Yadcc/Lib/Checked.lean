/-
# Computations that can fail a check

Imperative code with assertions, dereferences and loops is modelled in `Except`: an
error is a way the program would go wrong. This module has the two inversion rules of
the monad and a `while` loop with a bound on its iterations. The loop rule asks for an
invariant and a variant, as a total-correctness rule does, so running out of the bound is
excluded together with every other error.
-/

import Mathlib.Tactic

namespace Yadcc.Lib

universe u v w

variable {ε : Type u} {α : Type v} {β : Type v}

@[simp]
theorem ok_bind (a : α) (f : α → Except ε β) : (.ok a : Except ε α) >>= f = f a := rfl

@[simp]
theorem error_bind (e : ε) (f : α → Except ε β) : (.error e : Except ε α) >>= f = .error e := rfl

@[simp]
theorem pure_eq_ok (a : α) : (pure a : Except ε α) = .ok a := rfl

theorem bind_eq_ok {x : Except ε α} {f : α → Except ε β} {b : β} :
    x >>= f = .ok b ↔ ∃ a, x = .ok a ∧ f a = .ok b := by
  constructor
  · intro h
    cases x with
    | error e => cases h
    | ok a => exact ⟨a, rfl, h⟩
  · rintro ⟨a, rfl, h⟩
    exact h

theorem bind_eq_error {x : Except ε α} {f : α → Except ε β} {e : ε} :
    x >>= f = .error e ↔ x = .error e ∨ ∃ a, x = .ok a ∧ f a = .error e := by
  constructor
  · intro h
    cases x with
    | error e' =>
        cases h
        exact .inl rfl
    | ok a => exact .inr ⟨a, rfl, h⟩
  · rintro (rfl | ⟨a, rfl, h⟩)
    · rfl
    · exact h

/-- A loop over a list succeeds when each iteration does. `I` relates what is left of the
list to the state. -/
theorem foldlM_ok {f : β → α → Except ε β} {I : List α → β → Prop}
    (hstep : ∀ a as s, I (a :: as) s → ∃ t, f s a = .ok t ∧ I as t) (as : List α) (s : β)
    (hs : I as s) : ∃ t, as.foldlM f s = .ok t ∧ I [] t := by
  induction as generalizing s with
  | nil => exact ⟨s, rfl, hs⟩
  | cons a as ih =>
      obtain ⟨t, ht, hI⟩ := hstep a as s hs
      rw [List.foldlM_cons, ht]
      exact ih t hI

/-- What each iteration that succeeds preserves, a loop that succeeds preserves. -/
theorem foldlM_invariant {f : β → α → Except ε β} {I : List α → β → Prop}
    (hstep : ∀ a as s t, I (a :: as) s → f s a = .ok t → I as t) {as : List α} {s t : β}
    (hs : I as s) (h : as.foldlM f s = .ok t) : I [] t := by
  induction as generalizing s with
  | nil =>
      cases h
      exact hs
  | cons a as ih =>
      rw [List.foldlM_cons] at h
      obtain ⟨u, hu, hrest⟩ := bind_eq_ok.mp h
      exact ih (hstep a as s u hs hu) hrest

/-- `while cond do body`, for at most `fuel` iterations; more is the error `diverged`. -/
def whileLoop (cond : α → Bool) (body : α → Except ε α) (diverged : ε) :
    ℕ → α → Except ε α
  | 0, s => if cond s then .error diverged else .ok s
  | fuel + 1, s => if cond s then body s >>= whileLoop cond body diverged fuel else .ok s

/-- Total correctness of a loop: if each iteration succeeds, keeps `I` and lowers `μ`,
then a bound of `μ s` iterations is enough, and `I` holds at the exit. -/
theorem whileLoop_ok {cond : α → Bool} {body : α → Except ε α} (diverged : ε)
    {I : α → Prop} {μ : α → ℕ}
    (hbody : ∀ s, I s → cond s = true → ∃ t, body s = .ok t ∧ I t ∧ μ t < μ s) :
    ∀ (fuel : ℕ) (s : α), I s → μ s ≤ fuel →
      ∃ t, whileLoop cond body diverged fuel s = .ok t ∧ I t ∧ cond t = false := by
  intro fuel
  induction fuel with
  | zero =>
      intro s hs hfuel
      cases hc : cond s with
      | false => exact ⟨s, by rw [whileLoop, hc]; rfl, hs, hc⟩
      | true =>
          obtain ⟨t, _, _, hlt⟩ := hbody s hs hc
          omega
  | succ fuel ih =>
      intro s hs hfuel
      cases hc : cond s with
      | false => exact ⟨s, by rw [whileLoop, hc]; rfl, hs, hc⟩
      | true =>
          obtain ⟨t, ht, hI, hlt⟩ := hbody s hs hc
          obtain ⟨u, hu, hIu, hcu⟩ := ih t hI (by omega)
          exact ⟨u, by rw [whileLoop, if_pos hc, ht]; exact hu, hIu, hcu⟩

/-- A loop goes wrong if each iteration does, or leads to one that will: `I` keeps the loop
from its exit, and `μ` bounds the iterations before the error. -/
theorem whileLoop_error {cond : α → Bool} {body : α → Except ε α} (diverged : ε) {e : ε}
    {I : α → Prop} {μ : α → ℕ} (hcond : ∀ s, I s → cond s = true)
    (hbody : ∀ s, I s → body s = .error e ∨ ∃ t, body s = .ok t ∧ I t ∧ μ t < μ s) :
    ∀ (fuel : ℕ) (s : α), I s → μ s < fuel →
      whileLoop cond body diverged fuel s = .error e := by
  intro fuel
  induction fuel with
  | zero =>
      intro s _ hfuel
      cases hfuel
  | succ fuel ih =>
      intro s hs hfuel
      rw [whileLoop, if_pos (hcond s hs)]
      rcases hbody s hs with herror | ⟨t, ht, hI, hlt⟩
      · rw [herror]
        rfl
      · rw [ht]
        exact ih t hI (by omega)

end Yadcc.Lib
