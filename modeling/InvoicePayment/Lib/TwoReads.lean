import InvoicePayment.Lib.TransitionSystem

/-!
# Two reads of a run

One function of the state is read at the start of a stretch of a run and another one at its end.
If neither ever returns to a value it has left (`Climbs`), the two values held together in some
state of the run exactly when, within the stretch, no step changes the second from the first
change of the first on (`two_reads_iff`).
-/

namespace TransitionSystem

variable {σ ℓ α β : Type*} {M : TransitionSystem σ ℓ} {f : σ → α} {g : σ → β} {rank : α → ℕ}
  {rank' : β → ℕ} {s t u : σ} {ls ls' : List ℓ}

/-! ## Functions that only climb -/

/-- A step that changes `f` raises the rank of its value. -/
def Climbs (M : TransitionSystem σ ℓ) (f : σ → α) (rank : α → ℕ) : Prop :=
  ∀ s l t, M.Reachable s → M.step s l = some t → f t = f s ∨ rank (f s) < rank (f t)

theorem Climbs.rank_le (h : M.Climbs f rank) (hs : M.Reachable s) (hr : M.run s ls = some t) :
    rank (f s) ≤ rank (f t) := by
  induction ls generalizing s with
  | nil =>
    obtain rfl := Option.some.inj hr
    exact Nat.le_refl _
  | cons l ls ih =>
    rw [run_cons] at hr
    obtain ⟨v, hv, hr⟩ := Option.bind_eq_some_iff.mp hr
    have hrest := ih (hs.step hv) hr
    rcases h s l v hs hv with heq | hlt
    · rwa [heq] at hrest
    · omega

/-- A value that is there at both ends has been there all along. -/
theorem Climbs.eq_of_eq (h : M.Climbs f rank) (hs : M.Reachable s) (hr : M.run s ls = some t)
    (heq : f t = f s) : ∀ v ∈ M.states s ls, f v = f s := by
  induction ls generalizing s with
  | nil =>
    intro v hv
    rw [mem_states_nil.mp hv]
  | cons l ls ih =>
    rw [run_cons] at hr
    obtain ⟨u, hu, hr⟩ := Option.bind_eq_some_iff.mp hr
    have hle := h.rank_le (hs.step hu) hr
    have hfirst : f u = f s := by
      rcases h s l u hs hu with hkept | hlt
      · exact hkept
      · rw [heq] at hle
        omega
    intro v hv
    rcases mem_states_cons.mp hv with rfl | ⟨u', hu', hv⟩
    · rfl
    · obtain rfl := Option.some.inj (hu.symm.trans hu')
      rw [← hfirst]
      exact ih (hs.step hu) hr (heq.trans hfirst.symm) v hv

/-- No step of the run changes it either. -/
theorem Climbs.unchanged (h : M.Climbs f rank) (hs : M.Reachable s) (hr : M.run s ls = some t)
    (heq : f t = f s) {x : Transition σ ℓ} (hx : x ∈ M.steps s ls) : f x.post = f x.pre := by
  rw [h.eq_of_eq hs hr heq _ (post_mem_states hx),
    h.eq_of_eq hs hr heq _ (step_of_mem_steps hx).2]

/-! ## Cutting a run at a state -/

theorem exists_run_of_mem_states (hr : M.run s ls = some t) (hu : u ∈ M.states s ls) :
    ∃ front back, ls = front ++ back ∧ M.run s front = some u ∧ M.run u back = some t := by
  induction ls generalizing s with
  | nil =>
    obtain rfl := mem_states_nil.mp hu
    exact ⟨[], [], rfl, rfl, hr⟩
  | cons l ls ih =>
    rcases mem_states_cons.mp hu with rfl | ⟨v, hv, hu⟩
    · exact ⟨[], l :: ls, rfl, rfl, hr⟩
    · rw [run_cons, hv, Option.bind_some] at hr
      obtain ⟨front, back, rfl, hfront, hback⟩ := ih hr hu
      exact ⟨l :: front, back, rfl, by rw [run_cons, hv]; exact hfront, hback⟩

/-- A state of a run that is made of two is a state of the one or of the other. -/
theorem mem_states_append (hr : M.run s ls = some t) (hu : u ∈ M.states s (ls ++ ls')) :
    u ∈ M.states s ls ∨ u ∈ M.states t ls' := by
  rw [states, steps_append hr, List.map_append] at hu
  rcases List.mem_cons.mp hu with rfl | hu
  · exact .inl List.mem_cons_self
  · rcases List.mem_append.mp hu with hu | hu
    · exact .inl (List.mem_cons_of_mem _ hu)
    · exact .inr (List.mem_cons_of_mem _ hu)

theorem mem_states_append_left (hu : u ∈ M.states s ls) (hr : M.run s ls = some t) :
    u ∈ M.states s (ls ++ ls') := by
  rw [states, steps_append hr, List.map_append]
  rcases List.mem_cons.mp hu with rfl | hu
  · exact List.mem_cons_self
  · exact List.mem_cons_of_mem _ (List.mem_append_left _ hu)

theorem mem_states_append_right (hu : u ∈ M.states t ls') (hr : M.run s ls = some t) :
    u ∈ M.states s (ls ++ ls') := by
  rcases List.mem_cons.mp hu with rfl | hu
  · exact mem_states_append_left (mem_states_of_run hr) hr
  · rw [states, steps_append hr, List.map_append]
    exact List.mem_cons_of_mem _ (List.mem_append_right _ hu)

/-! ## The two reads -/

/-- From the first step that changes `f` on, that step included, no step changes `g`. -/
def Undisturbed (f : σ → α) (g : σ → β) (xs : List (Transition σ ℓ)) : Prop :=
  ∀ before x after, xs = before ++ x :: after → f x.post ≠ f x.pre →
    ∀ y ∈ x :: after, g y.post = g y.pre

theorem undisturbed_of_moment (hf : M.Climbs f rank) (hg : M.Climbs g rank')
    (hs : M.Reachable s) (hr : M.run s ls = some t) (hu : u ∈ M.states s ls) (hfu : f u = f s)
    (hgu : g u = g t) : Undisturbed f g (M.steps s ls) := by
  obtain ⟨front, back, rfl, hfront, hback⟩ := exists_run_of_mem_states hr hu
  have hreach := hs.run hfront
  have hkept : ∀ x ∈ M.steps s front, f x.post = f x.pre :=
    fun x hx => hf.unchanged hs hfront hfu hx
  have hkept' : ∀ y ∈ M.steps u back, g y.post = g y.pre :=
    fun y hy => hg.unchanged hreach hback hgu.symm hy
  intro before x after hsplit hchange y hy
  rw [steps_append hfront] at hsplit
  -- the change is behind the cut, and so is everything that follows it
  rcases List.append_eq_append_iff.mp hsplit with ⟨rest, rfl, hrest⟩ | ⟨rest, hbefore, hrest⟩
  · refine hkept' y ?_
    rw [hrest]
    exact List.mem_append_right _ hy
  · cases rest with
    | nil =>
      rw [List.nil_append] at hrest
      rw [← hrest] at hkept'
      exact hkept' y hy
    | cons x' rest =>
      obtain ⟨rfl, -⟩ := List.cons.inj hrest
      refine absurd (hkept x ?_) hchange
      rw [hbefore]
      exact List.mem_append_right _ List.mem_cons_self

theorem moment_of_undisturbed (hr : M.run s ls = some t)
    (h : Undisturbed f g (M.steps s ls)) : ∃ u ∈ M.states s ls, f u = f s ∧ g u = g t := by
  induction ls generalizing s with
  | nil =>
    obtain rfl := Option.some.inj hr
    exact ⟨s, List.mem_cons_self, rfl, rfl⟩
  | cons l ls ih =>
    rw [run_cons] at hr
    obtain ⟨v, hv, hr⟩ := Option.bind_eq_some_iff.mp hr
    rw [steps_cons_of_some hv] at h
    by_cases hchange : f v = f s
    · have hrest : Undisturbed f g (M.steps v ls) := by
        intro before x after hsplit hx y hy
        exact h (⟨s, l, v⟩ :: before) x after (by rw [hsplit, List.cons_append]) hx y hy
      obtain ⟨u, hu, hfu, hgu⟩ := ih hr hrest
      exact ⟨u, mem_states_cons.mpr (.inr ⟨v, hv, hu⟩), hfu.trans hchange, hgu⟩
    · -- `g` does not change any more, so the values held together before the step
      have hkeep : ∀ y ∈ ⟨s, l, v⟩ :: M.steps v ls, g y.post = g y.pre :=
        h [] ⟨s, l, v⟩ (M.steps v ls) rfl hchange
      have hend : g (endState s (⟨s, l, v⟩ :: M.steps v ls)) = g s := by
        have htrace := isTrace_steps (M := M) s (l :: ls)
        rw [steps_cons_of_some hv] at htrace
        exact htrace.keeps (P := fun w => g w = g s) rfl fun y hy hpre => (hkeep y hy).trans hpre
      have ht : endState s (⟨s, l, v⟩ :: M.steps v ls) = t := endState_steps hr
      rw [ht] at hend
      exact ⟨s, List.mem_cons_self, rfl, hend.symm⟩

/-- The two values held together in some state of the run around the stretch, if and only if the
stretch is undisturbed. -/
theorem two_reads_iff (hf : M.Climbs f rank) (hg : M.Climbs g rank') {s₀ t₁ : σ}
    {before after : List ℓ} (h₀ : M.Reachable s₀) (hbefore : M.run s₀ before = some s)
    (hr : M.run s ls = some t) (hafter : M.run t after = some t₁) :
    (∃ u ∈ M.states s₀ (before ++ (ls ++ after)), f u = f s ∧ g u = g t) ↔
      Undisturbed f g (M.steps s ls) := by
  have hs := h₀.run hbefore
  constructor
  · rintro ⟨u, hu, hfu, hgu⟩
    rcases mem_states_append hbefore hu with hu | hu
    · -- before the first read: then the second value was there at the first read
      obtain ⟨front, back, rfl, hfront, hback⟩ := exists_run_of_mem_states hbefore hu
      have hrun : M.run u (back ++ ls) = some t := by rw [run_append, hback]; exact hr
      have hgs : g s = g u := hg.eq_of_eq (h₀.run hfront) hrun hgu.symm s
        (mem_states_append_left (mem_states_of_run hback) hback)
      exact undisturbed_of_moment hf hg hs hr List.mem_cons_self rfl (hgs.trans hgu)
    · rcases mem_states_append hr hu with hu | hu
      · exact undisturbed_of_moment hf hg hs hr hu hfu hgu
      · -- after the second read: then the first value was still there at the second read
        obtain ⟨front, back, rfl, hfront, hback⟩ := exists_run_of_mem_states hafter hu
        have hrun : M.run s (ls ++ front) = some u := by rw [run_append, hr]; exact hfront
        have hft : f t = f s := hf.eq_of_eq hs hrun hfu t
          (mem_states_append_left (mem_states_of_run hr) hr)
        exact undisturbed_of_moment hf hg hs hr (mem_states_of_run hr) hft rfl
  · intro h
    obtain ⟨u, hu, hfu, hgu⟩ := moment_of_undisturbed hr h
    exact ⟨u, mem_states_append_right (mem_states_append_left hu hr) hbefore, hfu, hgu⟩

end TransitionSystem
