import Mathlib.Data.List.Basic
import Mathlib.Data.List.Infix

/-!
# Computed transition systems

A labelled transition system whose step is a partial function, so that a run can be
evaluated, together with the rules the safety proofs use:

* `reachable_of_mem_states` and `Invariant.of_reachable`, the induction over a run;
* `forall_states_of_steps`, an invariant that holds as long as every step of the run meets
  a side condition;
* `forall_states_iff_steps`, the case where that side condition is exactly what keeps the
  property alive;
* `IsTrace.exists_rise` and `IsTrace.keeps`, which find the step a property began with and
  carry it on from there;
* `IsTrace.history` and `run_history`, the induction over the steps or labels taken so far;
* `run_filter` and `run_map`, the erasure of labels that leave no trace and of what later labels
  do not look at.
-/

/-- A labelled transition system with a computed, partial step. -/
structure TransitionSystem (σ ℓ : Type*) where
  /-- Where a run may begin. -/
  Initial : σ → Prop
  /-- The successor under a label, `none` when the label is not enabled. -/
  step : σ → ℓ → Option σ

namespace TransitionSystem

variable {σ ℓ : Type*} (M : TransitionSystem σ ℓ)

/-- One step of a run: the state before, the label, the state after. -/
structure Transition (σ ℓ : Type*) where
  pre : σ
  label : ℓ
  post : σ

/-- Run a list of labels, failing at the first one that is not enabled. -/
def run : σ → List ℓ → Option σ
  | s, [] => some s
  | s, l :: ls => (M.step s l).bind fun t => run t ls

/-- The steps a list of labels takes, up to the first label that is not enabled. -/
def steps : σ → List ℓ → List (Transition σ ℓ)
  | _, [] => []
  | s, l :: ls =>
    match M.step s l with
    | none => []
    | some t => ⟨s, l, t⟩ :: steps t ls

/-- The states a list of labels visits, the first one included. -/
def states (s : σ) (ls : List ℓ) : List σ := s :: (M.steps s ls).map Transition.post

/-- A state some run from an initial state ends in. -/
def Reachable (s : σ) : Prop := ∃ s₀ ls, M.Initial s₀ ∧ M.run s₀ ls = some s

/-! ## Runs -/

@[simp] theorem run_nil (s : σ) : M.run s [] = some s := rfl

theorem run_cons (s : σ) (l : ℓ) (ls : List ℓ) :
    M.run s (l :: ls) = (M.step s l).bind fun t => M.run t ls := rfl

theorem run_append (s : σ) (ls ls' : List ℓ) :
    M.run s (ls ++ ls') = (M.run s ls).bind fun t => M.run t ls' := by
  induction ls generalizing s with
  | nil => rfl
  | cons l ls ih =>
    rw [List.cons_append, run_cons, run_cons]
    cases M.step s l with
    | none => rfl
    | some t => exact ih t

theorem run_singleton (s : σ) (l : ℓ) : M.run s [l] = M.step s l := by
  rw [run_cons]
  cases M.step s l <;> rfl

variable {M}

/-- What holds before the first label and is kept by a step holds of the labels of a run and the
state they lead to. -/
theorem run_history {P : List ℓ → σ → Prop} {s₀ : σ} (h₀ : P [] s₀)
    (hstep : ∀ ls l s t, P ls s → M.step s l = some t → P (ls ++ [l]) t) {ls : List ℓ} {s : σ}
    (h : M.run s₀ ls = some s) : P ls s := by
  induction ls using List.reverseRecOn generalizing s with
  | nil =>
    obtain rfl := Option.some.inj h
    exact h₀
  | append_singleton ls l ih =>
    rw [run_append] at h
    obtain ⟨t, ht, hlast⟩ := Option.bind_eq_some_iff.mp h
    rw [run_singleton] at hlast
    exact hstep ls l t s (ih ht) hlast

theorem Reachable.of_initial {s : σ} (h : M.Initial s) : M.Reachable s := ⟨s, [], h, rfl⟩

theorem Reachable.run {s t : σ} {ls : List ℓ} (h : M.Reachable s) (hr : M.run s ls = some t) :
    M.Reachable t := by
  obtain ⟨s₀, ls₀, h₀, hs⟩ := h
  exact ⟨s₀, ls₀ ++ ls, h₀, by rw [run_append, hs]; exact hr⟩

theorem Reachable.step {s t : σ} {l : ℓ} (h : M.Reachable s) (hs : M.step s l = some t) :
    M.Reachable t := by
  have hr : M.run s [l] = some t := by rw [run_singleton]; exact hs
  exact h.run hr

/-- Some run leads from one state to the other. -/
def Leads (M : TransitionSystem σ ℓ) (s t : σ) : Prop := ∃ ls, M.run s ls = some t

theorem Leads.refl (s : σ) : M.Leads s s := ⟨[], rfl⟩

theorem Leads.head {s t u : σ} {l : ℓ} (h : M.step s l = some t) (h' : M.Leads t u) :
    M.Leads s u := by
  obtain ⟨ls, hls⟩ := h'
  refine ⟨l :: ls, ?_⟩
  rw [run_cons, h]
  exact hls

theorem Leads.single {s t : σ} {l : ℓ} (h : M.step s l = some t) : M.Leads s t :=
  .head h (.refl t)

theorem Leads.reachable {s t : σ} (h : M.Leads s t) (hs : M.Reachable s) : M.Reachable t := by
  obtain ⟨ls, hls⟩ := h
  exact hs.run hls

/-- Labels that leave no trace can be erased. A clean state is reached through clean states only;
a label that is not kept changes nothing but what `forget` hides, and a label that is kept does
not look at it. Then the kept labels alone lead to the same state, but for what is hidden. -/
theorem run_filter {keep : ℓ → Bool} {forget : σ → σ} {Clean : σ → Prop} {s₀ : σ}
    (h₀ : M.Initial s₀) (hforget : forget s₀ = s₀)
    (hclean : ∀ s l t, M.Reachable s → M.step s l = some t → Clean t → Clean s)
    (herased : ∀ s l t, M.Reachable s → M.step s l = some t → Clean t → keep l = false →
      forget t = forget s)
    (hkept : ∀ s l t, M.Reachable s → M.step s l = some t → Clean t → keep l = true →
      M.step (forget s) l = some (forget t))
    {ls : List ℓ} {s : σ} (hrun : M.run s₀ ls = some s) (hs : Clean s) :
    M.run s₀ (ls.filter keep) = some (forget s) := by
  induction ls using List.reverseRecOn generalizing s with
  | nil =>
    obtain rfl := Option.some.inj hrun
    rw [List.filter_nil, run_nil, hforget]
  | append_singleton ls l ih =>
    rw [run_append] at hrun
    obtain ⟨t, ht, hlast⟩ := Option.bind_eq_some_iff.mp hrun
    rw [run_singleton] at hlast
    have hreach : M.Reachable t := ⟨s₀, ls, h₀, ht⟩
    have hfront := ih ht (hclean t l s hreach hlast hs)
    rw [List.filter_append, run_append, hfront, Option.bind_some]
    cases hkeep : keep l with
    | false =>
      rw [List.filter_cons_of_neg (by simp [hkeep]), List.filter_nil, run_nil,
        herased t l s hreach hlast hs hkeep]
    | true =>
      rw [List.filter_cons_of_pos hkeep, List.filter_nil, run_singleton]
      exact hkept t l s hreach hlast hs hkeep

/-- A run of labels that do not look at what `forget` hides is the same run without it. -/
theorem run_map {ok : ℓ → Prop} {forget : σ → σ} {Good : σ → Prop}
    (hgood : ∀ s l t, Good s → ok l → M.step s l = some t → Good t)
    (hmap : ∀ s l, Good s → ok l → M.step (forget s) l = (M.step s l).map forget)
    {s : σ} (hs : Good s) {ls : List ℓ} (hls : ∀ l ∈ ls, ok l) :
    M.run (forget s) ls = (M.run s ls).map forget := by
  induction ls generalizing s with
  | nil => rfl
  | cons l ls ih =>
    have hl : ok l := hls l List.mem_cons_self
    rw [run_cons, run_cons, hmap s l hs hl]
    cases hstep : M.step s l with
    | none => rfl
    | some t => exact ih (hgood s l t hs hl hstep) fun l' hl' => hls l' (List.mem_cons_of_mem _ hl')

/-! ## Steps and states -/

theorem steps_cons_of_some {s t : σ} {l : ℓ} (hs : M.step s l = some t) (ls : List ℓ) :
    M.steps s (l :: ls) = ⟨s, l, t⟩ :: M.steps t ls := by
  rw [steps, hs]

/-- A step of a run is the first one, or a step of the rest. -/
theorem mem_steps_cons {s : σ} {l : ℓ} {ls : List ℓ} {x : Transition σ ℓ} :
    x ∈ M.steps s (l :: ls) ↔
      ∃ t, M.step s l = some t ∧ (x = ⟨s, l, t⟩ ∨ x ∈ M.steps t ls) := by
  rw [steps]
  cases M.step s l with
  | none => simp
  | some t => simp

/-- A state of a run is the first one, or a state of the rest. -/
theorem mem_states_cons {s t : σ} {l : ℓ} {ls : List ℓ} :
    t ∈ M.states s (l :: ls) ↔ t = s ∨ ∃ u, M.step s l = some u ∧ t ∈ M.states u ls := by
  rw [states, steps]
  cases M.step s l with
  | none => simp
  | some u => simp [states]

theorem mem_states_nil {s t : σ} : t ∈ M.states s [] ↔ t = s := by simp [states, steps]

theorem post_mem_states {s : σ} {ls : List ℓ} {x : Transition σ ℓ} (hx : x ∈ M.steps s ls) :
    x.post ∈ M.states s ls := List.mem_cons_of_mem _ (List.mem_map_of_mem hx)

/-- Every step listed by `steps` is a step of the system, from a state the run visits. -/
theorem step_of_mem_steps {s : σ} {ls : List ℓ} {x : Transition σ ℓ} (hx : x ∈ M.steps s ls) :
    M.step x.pre x.label = some x.post ∧ x.pre ∈ M.states s ls := by
  induction ls generalizing s with
  | nil => cases hx
  | cons l ls ih =>
    obtain ⟨t, hs, rfl | hx⟩ := mem_steps_cons.mp hx
    · exact ⟨hs, List.mem_cons_self⟩
    · obtain ⟨hstep, hpre⟩ := ih hx
      exact ⟨hstep, mem_states_cons.mpr (.inr ⟨t, hs, hpre⟩)⟩

/-- A run that goes on takes its first steps first. -/
theorem steps_append {s t : σ} {ls : List ℓ} (h : M.run s ls = some t) (ls' : List ℓ) :
    M.steps s (ls ++ ls') = M.steps s ls ++ M.steps t ls' := by
  induction ls generalizing s with
  | nil =>
    obtain rfl : s = t := by simpa using h
    rfl
  | cons l ls ih =>
    rw [run_cons] at h
    obtain ⟨u, hu, h⟩ := Option.bind_eq_some_iff.mp h
    rw [List.cons_append, steps_cons_of_some hu, steps_cons_of_some hu, ih h, List.cons_append]

/-- The label of a step is one of the labels the run was given. -/
theorem label_mem_of_mem_steps {s : σ} {ls : List ℓ} {x : Transition σ ℓ}
    (hx : x ∈ M.steps s ls) : x.label ∈ ls := by
  induction ls generalizing s with
  | nil => cases hx
  | cons l ls ih =>
    obtain ⟨t, -, rfl | hx⟩ := mem_steps_cons.mp hx
    · exact List.mem_cons_self
    · exact List.mem_cons_of_mem _ (ih hx)

theorem reachable_of_mem_states {s t : σ} {ls : List ℓ} (h : M.Reachable s)
    (ht : t ∈ M.states s ls) : M.Reachable t := by
  induction ls generalizing s with
  | nil =>
    obtain rfl := mem_states_nil.mp ht
    exact h
  | cons l ls ih =>
    rcases mem_states_cons.mp ht with rfl | ⟨u, hs, ht⟩
    · exact h
    · exact ih (h.step hs) ht

/-- A run ends in one of its states. -/
theorem mem_states_of_run {s t : σ} {ls : List ℓ} (h : M.run s ls = some t) :
    t ∈ M.states s ls := by
  induction ls generalizing s with
  | nil =>
    obtain rfl : s = t := by simpa using h
    exact List.mem_cons_self
  | cons l ls ih =>
    rw [run_cons] at h
    obtain ⟨u, hu, h⟩ := Option.bind_eq_some_iff.mp h
    exact mem_states_cons.mpr (.inr ⟨u, hu, ih h⟩)

theorem reachable_of_mem_steps {s : σ} {ls : List ℓ} {x : Transition σ ℓ} (h : M.Reachable s)
    (hx : x ∈ M.steps s ls) : M.Reachable x.pre :=
  reachable_of_mem_states h (step_of_mem_steps hx).2

/-- A step taken in the course of a run is one of the run's steps. -/
theorem mem_steps_of_run {s t u : σ} {ls ls' : List ℓ} {l : ℓ} (h : M.run s ls = some t)
    (hs : M.step t l = some u) : ⟨t, l, u⟩ ∈ M.steps s (ls ++ l :: ls') := by
  rw [steps_append h, steps_cons_of_some hs]
  exact List.mem_append_right _ List.mem_cons_self

/-! ## Invariants -/

/-- A property that every initial state has and every step keeps. -/
structure Invariant (M : TransitionSystem σ ℓ) (P : σ → Prop) : Prop where
  initial : ∀ s, M.Initial s → P s
  step : ∀ s l t, P s → M.step s l = some t → P t

theorem Invariant.run {P : σ → Prop} (h : Invariant M P) {s t : σ} {ls : List ℓ} (hs : P s)
    (hr : M.run s ls = some t) : P t := by
  induction ls generalizing s with
  | nil =>
    obtain rfl : s = t := by simpa using hr
    exact hs
  | cons l ls ih =>
    rw [run_cons] at hr
    obtain ⟨u, hu, hr⟩ := Option.bind_eq_some_iff.mp hr
    exact ih (h.step s l u hs hu) hr

theorem Invariant.of_reachable {P : σ → Prop} (h : Invariant M P) {s : σ} (hs : M.Reachable s) :
    P s := by
  obtain ⟨s₀, ls, h₀, hr⟩ := hs
  exact h.run (h.initial s₀ h₀) hr

/-- A property kept by every step taken from a reachable state. -/
theorem invariant_of_reachable {P : σ → Prop} (h₀ : ∀ s, M.Initial s → P s)
    (hstep : ∀ s l t, M.Reachable s → P s → M.step s l = some t → P t) {s : σ}
    (hs : M.Reachable s) : P s := by
  have h : Invariant M fun s => M.Reachable s ∧ P s :=
    { initial := fun s hs => ⟨.of_initial hs, h₀ s hs⟩
      step := fun s l t hs ht => ⟨hs.1.step ht, hstep s l t hs.1 hs.2 ht⟩ }
  exact (h.of_reachable hs).2

/-- What the last state has and every step hands back to the state before it, every state of the
run has. -/
theorem forall_states_of_last {P : σ → Prop}
    (hback : ∀ s l t, M.Reachable s → M.step s l = some t → P t → P s)
    {s t : σ} {ls : List ℓ} (hs : M.Reachable s) (hr : M.run s ls = some t) (ht : P t) :
    ∀ u ∈ M.states s ls, P u := by
  induction ls generalizing s with
  | nil =>
    intro u hu
    obtain rfl := mem_states_nil.mp hu
    obtain rfl := Option.some.inj hr
    exact ht
  | cons l ls ih =>
    rw [run_cons] at hr
    obtain ⟨v, hv, hr⟩ := Option.bind_eq_some_iff.mp hr
    have hrest := ih (hs.step hv) hr
    intro u hu
    rcases mem_states_cons.mp hu with rfl | ⟨v', hv', hu⟩
    · exact hback u l v hs hv (hrest v List.mem_cons_self)
    · obtain rfl := Option.some.inj (hv.symm.trans hv')
      exact hrest u hu

/-! ## Properties that a side condition on the steps keeps -/

/-- If every step that meets `C` keeps `P`, then `P` holds all along a run whose steps all
meet `C`. -/
theorem forall_states_of_steps {P : σ → Prop} {C : Transition σ ℓ → Prop}
    (hgood : ∀ x : Transition σ ℓ, M.Reachable x.pre → P x.pre →
      M.step x.pre x.label = some x.post → C x → P x.post)
    {s : σ} (hs : M.Reachable s) (hP : P s) {ls : List ℓ} (hC : ∀ x ∈ M.steps s ls, C x) :
    ∀ t ∈ M.states s ls, P t := by
  induction ls generalizing s with
  | nil =>
    intro t ht
    obtain rfl := mem_states_nil.mp ht
    exact hP
  | cons l ls ih =>
    intro t ht
    rcases mem_states_cons.mp ht with rfl | ⟨u, hs', ht⟩
    · exact hP
    · -- the first step meets `C`, so the rest of the run starts with `P` as well
      have hu : P u := hgood ⟨s, l, u⟩ hs hP hs' (hC _ (mem_steps_cons.mpr ⟨u, hs', .inl rfl⟩))
      refine ih (hs.step hs') hu (fun x hx => hC x ?_) t ht
      exact mem_steps_cons.mpr ⟨u, hs', .inr hx⟩

/-- If moreover a step that breaks `C` breaks `P`, then `P` holds all along a run exactly
when every step of it meets `C`. -/
theorem forall_states_iff_steps {P : σ → Prop} {C : Transition σ ℓ → Prop}
    (hgood : ∀ x : Transition σ ℓ, M.Reachable x.pre → P x.pre →
      M.step x.pre x.label = some x.post → C x → P x.post)
    (hbad : ∀ x : Transition σ ℓ, M.Reachable x.pre → P x.pre →
      M.step x.pre x.label = some x.post → P x.post → C x)
    {s : σ} (hs : M.Reachable s) (hP : P s) (ls : List ℓ) :
    (∀ t ∈ M.states s ls, P t) ↔ ∀ x ∈ M.steps s ls, C x := by
  refine ⟨fun h x hx => ?_, forall_states_of_steps hgood hs hP⟩
  obtain ⟨hstep, hpre⟩ := step_of_mem_steps hx
  exact hbad x (reachable_of_mem_states hs hpre) (h _ hpre) hstep (h _ (post_mem_states hx))

/-! ## Traces -/

/-- Steps that follow one another, from `s` on. -/
def IsTrace (M : TransitionSystem σ ℓ) : σ → List (Transition σ ℓ) → Prop
  | _, [] => True
  | s, x :: xs => x.pre = s ∧ M.step s x.label = some x.post ∧ IsTrace M x.post xs

/-- The state a trace ends in. -/
def endState : σ → List (Transition σ ℓ) → σ
  | s, [] => s
  | _, x :: xs => endState x.post xs

theorem isTrace_steps (s : σ) (ls : List ℓ) : M.IsTrace s (M.steps s ls) := by
  induction ls generalizing s with
  | nil => trivial
  | cons l ls ih =>
    simp only [steps]
    cases hs : M.step s l with
    | none => trivial
    | some t => exact ⟨rfl, hs, ih t⟩

theorem isTrace_append {s : σ} {xs ys : List (Transition σ ℓ)} :
    M.IsTrace s (xs ++ ys) ↔ M.IsTrace s xs ∧ M.IsTrace (endState s xs) ys := by
  induction xs generalizing s with
  | nil => simp [IsTrace, endState]
  | cons x xs ih =>
    simp only [List.cons_append, IsTrace, endState, ih]
    exact ⟨fun ⟨h₁, h₂, h₃, h₄⟩ => ⟨⟨h₁, h₂, h₃⟩, h₄⟩, fun ⟨⟨h₁, h₂, h₃⟩, h₄⟩ => ⟨h₁, h₂, h₃, h₄⟩⟩

/-- The steps before a step of a run lead from the first state to that step. -/
theorem isTrace_before {s : σ} {ls : List ℓ} {before after : List (Transition σ ℓ)}
    {c : Transition σ ℓ} (h : M.steps s ls = before ++ c :: after) :
    M.IsTrace s before ∧ c.pre = endState s before := by
  have htrace := isTrace_steps (M := M) s ls
  rw [h, isTrace_append] at htrace
  exact ⟨htrace.1, htrace.2.1⟩

/-- The steps between two steps of a run lead from the one to the other. -/
theorem isTrace_between {s : σ} {ls : List ℓ} {front between after : List (Transition σ ℓ)}
    {r c : Transition σ ℓ} (h : M.steps s ls = front ++ r :: (between ++ c :: after)) :
    M.IsTrace r.post between ∧ c.pre = endState r.post between := by
  have htrace := isTrace_steps (M := M) s ls
  rw [h, isTrace_append] at htrace
  obtain ⟨-, -, -, hrest⟩ := htrace
  rw [isTrace_append] at hrest
  exact ⟨hrest.1, hrest.2.1⟩

theorem endState_append (s : σ) (xs ys : List (Transition σ ℓ)) :
    endState s (xs ++ ys) = endState (endState s xs) ys := by
  induction xs generalizing s with
  | nil => rfl
  | cons x xs ih => exact ih x.post

/-- The steps of a run that goes through lead to its last state. -/
theorem endState_steps {s t : σ} {ls : List ℓ} (h : M.run s ls = some t) :
    endState s (M.steps s ls) = t := by
  induction ls generalizing s with
  | nil => simpa [steps, endState] using h
  | cons l ls ih =>
    rw [run_cons] at h
    obtain ⟨u, hu, h⟩ := Option.bind_eq_some_iff.mp h
    rw [steps_cons_of_some hu]
    exact ih h

/-- The steps a run begins with lead to one of its states. -/
theorem endState_mem_states {s : σ} {ls : List ℓ} {front after : List (Transition σ ℓ)}
    (h : M.steps s ls = front ++ after) : endState s front ∈ M.states s ls := by
  rcases List.eq_nil_or_concat front with rfl | ⟨front, x, rfl⟩
  · exact List.mem_cons_self
  · rw [List.concat_eq_append] at h ⊢
    rw [endState_append]
    have hx : x ∈ M.steps s ls := by
      rw [h]
      simp
    exact post_mem_states hx

/-- A property of the steps taken so far and of the state they have led to, carried along a
trace one step at a time. -/
theorem IsTrace.history {P : List (Transition σ ℓ) → σ → Prop} {s : σ}
    {xs : List (Transition σ ℓ)} (h : M.IsTrace s xs) (h₀ : P [] s)
    (hstep : ∀ front x after, xs = front ++ x :: after → M.step x.pre x.label = some x.post →
      P front x.pre → P (front ++ [x]) x.post) :
    ∀ front after, xs = front ++ after → P front (endState s front) := by
  intro front
  induction front using List.reverseRecOn with
  | nil =>
    intro _ _
    exact h₀
  | append_singleton front x ih =>
    intro after hxs
    have hsplit : xs = front ++ x :: after := by rw [hxs, List.append_assoc, List.singleton_append]
    have hfront : P front (endState s front) := ih (x :: after) hsplit
    rw [hsplit, isTrace_append] at h
    obtain ⟨-, hpre, hx, -⟩ := h
    rw [← hpre] at hfront hx
    rw [endState_append]
    exact hstep front x after hsplit hx hfront

/-- What every step of a trace keeps holds at its end. -/
theorem IsTrace.keeps {P : σ → Prop} {s : σ} {xs : List (Transition σ ℓ)} (h : M.IsTrace s xs)
    (hs : P s) (hkeep : ∀ x ∈ xs, P x.pre → P x.post) : P (endState s xs) := by
  induction xs generalizing s with
  | nil => exact hs
  | cons x xs ih =>
    obtain ⟨hpre, -, hrest⟩ := h
    rw [← hpre] at hs
    have hx : P x.post := hkeep x List.mem_cons_self hs
    exact ih hrest hx fun y hy => hkeep y (List.mem_cons_of_mem _ hy)

/-- What does not hold at the start of a trace and holds at its end began to hold at some step
of it. -/
theorem IsTrace.exists_rise {P : σ → Prop} {s : σ} {xs : List (Transition σ ℓ)}
    (h : M.IsTrace s xs) (hs : ¬ P s) (hend : P (endState s xs)) :
    ∃ front r between, xs = front ++ r :: between ∧ ¬ P r.pre ∧ P r.post := by
  induction xs generalizing s with
  | nil => exact absurd hend hs
  | cons x xs ih =>
    obtain ⟨hpre, -, hrest⟩ := h
    by_cases hx : P x.post
    · refine ⟨[], x, xs, rfl, ?_, hx⟩
      rw [hpre]
      exact hs
    · obtain ⟨front, r, between, hxs, hr⟩ := ih hrest hx hend
      exact ⟨x :: front, r, between, by rw [hxs, List.cons_append], hr⟩

end TransitionSystem
