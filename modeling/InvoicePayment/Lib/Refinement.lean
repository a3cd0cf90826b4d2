import InvoicePayment.Lib.TransitionSystem

/-!
# Refinement mappings

One transition system refines another when each of its states stands for a state of the other and
each of its steps is either a step there, under the event it shows, or no step at all. Then so is
every run (`Refinement.run`), and what the abstract system keeps, the concrete one keeps of the
states it stands for.
-/

/-- A refinement of `A` by `M`. Steps are compared from reachable states on. -/
structure Refinement {σ ℓ τ ε : Type*} (M : TransitionSystem σ ℓ) (A : TransitionSystem τ ε) where
  /-- What a concrete state stands for. -/
  abs : σ → τ
  /-- The abstract step a concrete one shows, `none` if it shows nothing. -/
  event : TransitionSystem.Transition σ ℓ → Option ε
  initial : ∀ s, M.Initial s → A.Initial (abs s)
  step : ∀ x : TransitionSystem.Transition σ ℓ, M.Reachable x.pre →
    M.step x.pre x.label = some x.post →
    (event x).elim (abs x.post = abs x.pre) fun e => A.step (abs x.pre) e = some (abs x.post)

namespace Refinement

variable {σ ℓ τ ε : Type*} {M : TransitionSystem σ ℓ} {A : TransitionSystem τ ε}
  (R : Refinement M A)

/-- What the steps of a run show, in order. -/
def trace (s : σ) (ls : List ℓ) : List ε := (M.steps s ls).filterMap R.event

theorem trace_cons {s t : σ} {l : ℓ} (h : M.step s l = some t) (ls : List ℓ) :
    R.trace s (l :: ls) = (R.event ⟨s, l, t⟩).toList ++ R.trace t ls := by
  rw [trace, TransitionSystem.steps_cons_of_some h, List.filterMap_cons]
  cases R.event ⟨s, l, t⟩ <;> rfl

/-- Where the label of a step says what it shows, the labels of a run say what the run shows. -/
theorem trace_of_label {g : ℓ → Option ε} (hg : ∀ x, R.event x = g x.label) {s t : σ} {ls : List ℓ}
    (h : M.run s ls = some t) : R.trace s ls = ls.filterMap g := by
  induction ls generalizing s with
  | nil => rfl
  | cons l ls ih =>
    rw [TransitionSystem.run_cons] at h
    obtain ⟨u, hu, h⟩ := Option.bind_eq_some_iff.mp h
    rw [R.trace_cons hu, ih h, hg, List.filterMap_cons]
    cases g l <;> rfl

/-- Every run is a run of the abstract system. -/
theorem run {s t : σ} {ls : List ℓ} (hs : M.Reachable s) (h : M.run s ls = some t) :
    A.run (R.abs s) (R.trace s ls) = some (R.abs t) := by
  induction ls generalizing s with
  | nil =>
    obtain rfl := Option.some.inj h
    rfl
  | cons l ls ih =>
    rw [TransitionSystem.run_cons] at h
    obtain ⟨u, hu, h⟩ := Option.bind_eq_some_iff.mp h
    have hrest := ih (hs.step hu) h
    have hstep := R.step ⟨s, l, u⟩ hs hu
    rw [R.trace_cons hu]
    cases hevent : R.event ⟨s, l, u⟩ with
    | none =>
      rw [hevent] at hstep
      rw [← show R.abs u = R.abs s from hstep]
      exact hrest
    | some e =>
      rw [hevent] at hstep
      show A.run (R.abs s) (e :: R.trace u ls) = _
      rw [TransitionSystem.run_cons, show A.step (R.abs s) e = some (R.abs u) from hstep]
      exact hrest

end Refinement
