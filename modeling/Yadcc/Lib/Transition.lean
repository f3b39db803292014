/-
# Runs of labelled transition systems

A system is a step relation `step s a t`: in state `s` the labelled step `a` leads
to `t`. A run is a finite list of labels together with the states it passes. The
three rules used throughout are stated once here: an invariant of every step is an
invariant of every run, two runs compose, and a property that every step either
keeps or gives up through a *release* persists until the first release.
-/

import Mathlib.Tactic

namespace Yadcc.Lib

universe u v

variable {σ : Type u} {α : Type v}

/-- `Run step s as t`: from `s` the steps labelled `as`, in order, lead to `t`. -/
inductive Run (step : σ → α → σ → Prop) : σ → List α → σ → Prop
  | nil (s : σ) : Run step s [] s
  | cons {s t u : σ} {a : α} {as : List α} :
      step s a t → Run step t as u → Run step s (a :: as) u

/-- The steps of a system that meet a condition on the state before and the label. -/
def Guarded (step : σ → α → σ → Prop) (guard : σ → α → Prop) (s : σ) (a : α) (t : σ) : Prop :=
  step s a t ∧ guard s a

/-- Take the listed steps with a step function; `none` when one of them is refused. -/
def follow (next : σ → α → Option σ) : List α → σ → Option σ
  | [], s => some s
  | a :: as, s => (next s a).bind (follow next as)

/-- A step function that refuses what does not meet the condition. -/
def guardedNext (next : σ → α → Option σ) (guard : σ → α → Prop)
    [∀ s a, Decidable (guard s a)] (s : σ) (a : α) : Option σ :=
  if guard s a then next s a else none

theorem guarded_of_guardedNext {step : σ → α → σ → Prop} {next : σ → α → Option σ}
    (hnext : ∀ s a t, next s a = some t → step s a t) {guard : σ → α → Prop}
    [∀ s a, Decidable (guard s a)] (s : σ) (a : α) (t : σ)
    (h : guardedNext next guard s a = some t) : Guarded step guard s a t := by
  unfold guardedNext at h
  split at h
  · next hguard => exact ⟨hnext s a t h, hguard⟩
  · cases h

namespace Run

variable {step : σ → α → σ → Prop}

/-- Following a step function yields a run of every relation that contains it. -/
theorem of_follow {next : σ → α → Option σ}
    (hnext : ∀ s a t, next s a = some t → step s a t) {as : List α} {s t : σ}
    (h : follow next as s = some t) : Run step s as t := by
  induction as generalizing s with
  | nil =>
      cases h
      exact .nil _
  | cons a as ih =>
      obtain ⟨u, hu, hrest⟩ := Option.bind_eq_some_iff.mp h
      exact .cons (hnext s a u hu) (ih hrest)

theorem append {s t u : σ} {as bs : List α} (first : Run step s as t) (second : Run step t bs u) :
    Run step s (as ++ bs) u := by
  induction first with
  | nil s => exact second
  | cons hstep _ ih => exact .cons hstep (ih second)

/-- A run of a composite list passes a state at the seam. -/
theorem split {as bs : List α} {s u : σ} (run : Run step s (as ++ bs) u) :
    ∃ t, Run step s as t ∧ Run step t bs u := by
  induction as generalizing s with
  | nil => exact ⟨s, .nil s, run⟩
  | cons a as ih =>
      cases run with
      | cons hstep rest =>
          obtain ⟨t, hfirst, hsecond⟩ := ih rest
          exact ⟨t, .cons hstep hfirst, hsecond⟩

/-- A run that ends with a step. -/
theorem concat_iff {as : List α} {a : α} {s u : σ} :
    Run step s (as ++ [a]) u ↔ ∃ t, Run step s as t ∧ step t a u := by
  constructor
  · intro run
    obtain ⟨t, hfirst, hlast⟩ := split run
    cases hlast with
    | cons hstep rest =>
        cases rest
        exact ⟨t, hfirst, hstep⟩
  · rintro ⟨t, hfirst, hstep⟩
    exact hfirst.append (.cons hstep (.nil u))

theorem mono {step' : σ → α → σ → Prop} (h : ∀ s a t, step s a t → step' s a t) {as : List α}
    {s t : σ} (run : Run step s as t) : Run step' s as t := by
  induction run with
  | nil s => exact .nil s
  | cons hstep _ ih => exact .cons (h _ _ _ hstep) ih

/-- Where steps are determined by their labels, so are runs. -/
theorem unique (hstep : ∀ s a t t', step s a t → step s a t' → t = t') {as : List α}
    {s t t' : σ} (run : Run step s as t) (run' : Run step s as t') : t = t' := by
  induction run with
  | nil s =>
      cases run'
      rfl
  | cons h _ ih =>
      cases run' with
      | cons h' rest' =>
          cases hstep _ _ _ _ h h'
          exact ih rest'

/-- Where steps are determined by their labels, a guarded run that ends with a given step
meets the guard before that step and there. -/
theorem guarded_concat_iff (hunique : ∀ s a t t', step s a t → step s a t' → t = t')
    {guard : σ → α → Prop} {as : List α} {a : α} {s t u : σ} (run : Run step s as t)
    (hlast : step t a u) :
    Run (Guarded step guard) s (as ++ [a]) u ↔ Run (Guarded step guard) s as t ∧ guard t a := by
  rw [concat_iff]
  constructor
  · rintro ⟨t', hfirst, -, hguard⟩
    have htt' : t = t' := unique hunique run (mono (fun _ _ _ h => h.1) hfirst)
    cases htt'
    exact ⟨hfirst, hguard⟩
  · rintro ⟨hfirst, hguard⟩
    exact ⟨t, hfirst, hlast, hguard⟩

/-- A run passes through the step of each of its labels. -/
theorem of_mem {a : α} {as : List α} {s u : σ} (run : Run step s as u) (ha : a ∈ as) :
    ∃ before after t t', as = before ++ a :: after ∧
      Run step s before t ∧ step t a t' ∧ Run step t' after u := by
  obtain ⟨before, after, rfl⟩ := List.append_of_mem ha
  obtain ⟨t, hbefore, hrest⟩ := split run
  cases hrest with
  | cons hstep hafter => exact ⟨before, after, _, _, rfl, hbefore, hstep, hafter⟩

/-- What every step preserves, every run preserves. -/
theorem invariant {I : σ → Prop} (hstep : ∀ s a t, I s → step s a t → I t)
    {s t : σ} {as : List α} (run : Run step s as t) (hs : I s) : I t := by
  induction run with
  | nil s => exact hs
  | cons h _ ih => exact ih (hstep _ _ _ hs h)

/-- The run rule for a property that relates the state to the labels so far: it is
enough to follow it along one more step at the end. -/
theorem invariant_labels {init : σ} {I : List α → σ → Prop} (hinit : I [] init)
    (hstep : ∀ as s a t, I as s → step s a t → I (as ++ [a]) t)
    {as : List α} {t : σ} (run : Run step init as t) : I as t := by
  induction as using List.reverseRecOn generalizing t with
  | nil =>
      cases run
      exact hinit
  | append_singleton as a ih =>
      obtain ⟨s, hfirst, hlast⟩ := split run
      cases hlast with
      | cons h rest =>
          cases rest
          exact hstep as s a _ (ih hfirst) h

/-- `P` holds along a run until the first step that `release`s it: either it holds at
the end, or the run passes a releasing step before which it held. -/
theorem persists_or_release {P : σ → Prop} {release : σ → α → Prop}
    (hstep : ∀ s a t, P s → step s a t → P t ∨ release s a)
    {s t : σ} {as : List α} (run : Run step s as t) (hs : P s) :
    P t ∨ ∃ before a after u, as = before ++ a :: after ∧
      Run step s before u ∧ P u ∧ release u a := by
  induction run with
  | nil s => exact .inl hs
  | @cons s t' u a as h _ ih =>
      rcases hstep _ _ _ hs h with ht | hrelease
      · rcases ih ht with hu | ⟨before, b, after, w, hsplit, hrun, hw, hrel⟩
        · exact .inl hu
        · exact .inr ⟨a :: before, b, after, w, by rw [hsplit, List.cons_append],
            .cons h hrun, hw, hrel⟩
      · exact .inr ⟨[], a, as, s, rfl, .nil s, hs, hrelease⟩

end Run

end Yadcc.Lib
