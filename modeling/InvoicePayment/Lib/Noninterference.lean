import InvoicePayment.Lib.TransitionSystem

/-!
# Noninterference

Some steps of a run are an observer's own, as the state and the label say, and the observer sees
what these answer. `Unwinding` asks two things of a relation between states: an own step answers the
same in related states and leaves them related, and a step of anyone else does not lead out of the
relation. Then the observer cannot tell a run from the run of its own steps alone (`of_run`).
-/

namespace TransitionSystem

variable {σ ℓ ω : Type*} (M : TransitionSystem σ ℓ) (own : σ → ℓ → Bool)

/-- The steps of a run that are the observer's own. -/
def ownSteps (s : σ) (ls : List ℓ) : List (Transition σ ℓ) :=
  (M.steps s ls).filter fun x => own x.pre x.label

/-- The labels of a run, those of the others left out. -/
def purge (s : σ) (ls : List ℓ) : List ℓ := (M.ownSteps own s ls).map Transition.label

/-- What the observer sees of a run. -/
def view (answer : σ → ℓ → ω) (s : σ) (ls : List ℓ) : List ω :=
  (M.ownSteps own s ls).map fun x => answer x.pre x.label

/-- The relation hides from the observer what the others do, along steps that meet `Meets`. -/
structure Unwinding (answer : σ → ℓ → ω) (Meets : Transition σ ℓ → Prop) (R : σ → σ → Prop) :
    Prop where
  kept : ∀ x t, R x.pre t → M.step x.pre x.label = some x.post → Meets x →
    own x.pre x.label = true →
    ∃ t', M.step t x.label = some t' ∧ own t x.label = true ∧
      answer t x.label = answer x.pre x.label ∧ R x.post t'
  hidden : ∀ x t, R x.pre t → M.step x.pre x.label = some x.post → Meets x →
    own x.pre x.label = false → R x.post t

variable {M own} {answer : σ → ℓ → ω} {Meets : Transition σ ℓ → Prop} {R : σ → σ → Prop}

theorem ownSteps_cons {s t : σ} {l : ℓ} (h : M.step s l = some t) (ls : List ℓ) :
    M.ownSteps own s (l :: ls) =
      if own s l then ⟨s, l, t⟩ :: M.ownSteps own t ls else M.ownSteps own t ls := by
  rw [ownSteps, steps_cons_of_some h, List.filter_cons]
  rfl

/-- A step of someone else is left out. -/
theorem purge_view_of_other {s t : σ} {l : ℓ} (h : M.step s l = some t) (hown : own s l = false)
    (ls : List ℓ) : M.purge own s (l :: ls) = M.purge own t ls ∧
      M.view own answer s (l :: ls) = M.view own answer t ls := by
  rw [purge, view, ownSteps_cons h, if_neg (by simp [hown])]
  exact ⟨rfl, rfl⟩

/-- An own step is there, with its answer. -/
theorem purge_view_of_own {s t : σ} {l : ℓ} (h : M.step s l = some t) (hown : own s l = true)
    (ls : List ℓ) : M.purge own s (l :: ls) = l :: M.purge own t ls ∧
      M.view own answer s (l :: ls) = answer s l :: M.view own answer t ls := by
  rw [purge, view, ownSteps_cons h, if_pos hown]
  exact ⟨rfl, rfl⟩

/-- The run of the own steps alone succeeds, looks the same and ends related. -/
theorem Unwinding.of_run (h : Unwinding M own answer Meets R) {s t s' : σ} {ls : List ℓ}
    (hR : R s t) (hrun : M.run s ls = some s') (hmeets : ∀ x ∈ M.steps s ls, Meets x) :
    ∃ t', M.run t (M.purge own s ls) = some t' ∧ R s' t' ∧
      M.view own answer t (M.purge own s ls) = M.view own answer s ls := by
  induction ls generalizing s t with
  | nil =>
    obtain rfl := Option.some.inj hrun
    exact ⟨t, rfl, hR, rfl⟩
  | cons l ls ih =>
    rw [run_cons] at hrun
    obtain ⟨u, hu, hrun⟩ := Option.bind_eq_some_iff.mp hrun
    rw [steps_cons_of_some hu, List.forall_mem_cons] at hmeets
    obtain ⟨hfirst, hrest⟩ := hmeets
    cases hown : own s l with
    | false =>
      obtain ⟨hpurge, hview⟩ := purge_view_of_other hu hown ls
      rw [hpurge, hview]
      exact ih (h.hidden ⟨s, l, u⟩ t hR hu hfirst hown) hrun hrest
    | true =>
      obtain ⟨v, hv, hown', hanswer, hR'⟩ := h.kept ⟨s, l, u⟩ t hR hu hfirst hown
      obtain ⟨t', hrun', hR'', hsame⟩ := ih hR' hrun hrest
      obtain ⟨hpurge, hview⟩ := purge_view_of_own hu hown ls
      rw [hpurge, hview]
      refine ⟨t', ?_, hR'', ?_⟩
      · rw [run_cons, hv]
        exact hrun'
      · rw [(purge_view_of_own hv hown' _).2, hsame, hanswer]

end TransitionSystem
