import InvoicePayment.Lib.TransitionSystem
import Mathlib.Algebra.Order.BigOperators.Group.Finset

/-!
# Infinite runs

An `Execution` of a transition system is an infinite run; `window` is the list of steps taken
between two moments. `exists_of_rank` and `not_forever` are the two ways liveness is proved here:
a rank that can always be lowered, and a measure that never rises and falls at every tick;
`exists_no_more_given` is the second one for what many hold and each gives away only once.
`exists_of_strategy` makes an execution, and `exists_append` puts a finite run in front of it.
-/

namespace TransitionSystem

variable {σ ℓ : Type*} {M : TransitionSystem σ ℓ}

/-- An infinite run. -/
structure Execution (M : TransitionSystem σ ℓ) where
  state : ℕ → σ
  label : ℕ → ℓ
  step : ∀ n, M.step (state n) (label n) = some (state (n + 1))

namespace Execution

variable (e : M.Execution)

/-- The `n`-th step. -/
def transition (n : ℕ) : Transition σ ℓ := ⟨e.state n, e.label n, e.state (n + 1)⟩

/-- The first `len` steps from the `n`-th on. -/
def window (n len : ℕ) : List (Transition σ ℓ) :=
  (List.range len).map fun i => e.transition (n + i)

@[simp] theorem window_zero (n : ℕ) : e.window n 0 = [] := rfl

theorem window_succ (n len : ℕ) :
    e.window n (len + 1) = e.window n len ++ [e.transition (n + len)] := by
  simp [window, List.range_succ]

theorem window_append (n len len' : ℕ) :
    e.window n (len + len') = e.window n len ++ e.window (n + len) len' := by
  induction len' with
  | zero => rw [Nat.add_zero, window_zero, List.append_nil]
  | succ len' ih =>
    rw [← Nat.add_assoc, window_succ, ih, window_succ, List.append_assoc, Nat.add_assoc]

theorem reachable (h : M.Initial (e.state 0)) (n : ℕ) : M.Reachable (e.state n) := by
  induction n with
  | zero => exact .of_initial h
  | succ n ih => exact ih.step (e.step n)

/-- The first labels are a run. -/
theorem run_labels (n : ℕ) :
    M.run (e.state 0) ((List.range n).map e.label) = some (e.state n) := by
  induction n with
  | zero => rfl
  | succ n ih =>
    rw [List.range_succ, List.map_append, run_append, ih, Option.bind_some]
    exact (M.run_singleton _ _).trans (e.step n)

/-- What holds at some moment and is kept by every step after it, holds from then on. -/
theorem keeps {P : σ → Prop} {n : ℕ} (h : P (e.state n))
    (hstep : ∀ m, n ≤ m → P (e.state m) → P (e.state (m + 1))) {m : ℕ} (hm : n ≤ m) :
    P (e.state m) := by
  induction m, hm using Nat.le_induction with
  | base => exact h
  | succ m hm ih => exact hstep m hm ih

/-! ## A strategy -/

/-- The states in which a strategy picks the labels. -/
def follow (M : TransitionSystem σ ℓ) (label : ℕ → σ → ℓ) (s : σ) : ℕ → σ
  | 0 => s
  | n + 1 => (M.step (follow M label s n) (label n (follow M label s n))).getD (follow M label s n)

/-- A strategy that is always enabled has an execution. -/
theorem exists_of_strategy {label : ℕ → σ → ℓ} {P : ℕ → σ → Prop} {s : σ} (hstart : P 0 s)
    (h : ∀ n t, P n t → ∃ t', M.step t (label n t) = some t' ∧ P (n + 1) t') :
    ∃ e : M.Execution, e.state 0 = s ∧ ∀ n, P n (e.state n) ∧ e.label n = label n (e.state n) := by
  have hall : ∀ n, P n (follow M label s n) := by
    intro n
    induction n with
    | zero => exact hstart
    | succ n ih =>
      obtain ⟨t', hstep, hP⟩ := h n _ ih
      rw [follow, hstep]
      exact hP
  let e : M.Execution :=
    { state := follow M label s
      label := fun n => label n (follow M label s n)
      step := fun n => by
        obtain ⟨t', hstep, -⟩ := h n _ (hall n)
        rw [follow, hstep, Option.getD_some] }
  exact ⟨e, rfl, fun n => ⟨hall n, rfl⟩⟩

/-! ## A finite run in front -/

/-- One step in front. -/
def cons {s : σ} {l : ℓ} (h : M.step s l = some (e.state 0)) : M.Execution where
  state
    | 0 => s
    | n + 1 => e.state n
  label
    | 0 => l
    | n + 1 => e.label n
  step
    | 0 => h
    | n + 1 => e.step n

theorem map_label_steps {s t : σ} {ls : List ℓ} (h : M.run s ls = some t) :
    (M.steps s ls).map Transition.label = ls := by
  induction ls generalizing s with
  | nil => rfl
  | cons l ls ih =>
    rw [run_cons] at h
    obtain ⟨u, hu, hrest⟩ := Option.bind_eq_some_iff.mp h
    rw [steps_cons_of_some hu, List.map_cons, ih hrest]

theorem exists_append {s : σ} {ls : List ℓ} (h : M.run s ls = some (e.state 0)) :
    ∃ e' : M.Execution, e'.state 0 = s ∧ e'.window 0 ls.length = M.steps s ls ∧
      ∀ n, e'.transition (ls.length + n) = e.transition n := by
  induction ls generalizing s with
  | nil =>
    obtain rfl := Option.some.inj h
    exact ⟨e, rfl, rfl, fun n => by rw [List.length_nil, Nat.zero_add]⟩
  | cons l ls ih =>
    rw [run_cons] at h
    obtain ⟨t, ht, hrest⟩ := Option.bind_eq_some_iff.mp h
    obtain ⟨e', hstart, hwindow, hlater⟩ := ih hrest
    have hfirst : M.step s l = some (e'.state 0) := by rw [hstart, ht]
    have hshift : ∀ n, (e'.cons hfirst).transition (n + 1) = e'.transition n := fun n => rfl
    refine ⟨e'.cons hfirst, rfl, ?_, fun n => ?_⟩
    · have hhead : (e'.cons hfirst).transition 0 = ⟨s, l, t⟩ := by
        show (⟨s, l, e'.state 0⟩ : Transition σ ℓ) = _
        rw [hstart]
      rw [steps_cons_of_some ht, ← hwindow, window, window, List.length_cons,
        List.range_succ_eq_map, List.map_cons, List.map_map, Nat.zero_add, hhead]
      refine congrArg _ (List.map_congr_left fun i _ => ?_)
      show (e'.cons hfirst).transition (0 + (i + 1)) = e'.transition (0 + i)
      rw [← Nat.add_assoc]
      exact hshift _
    · rw [List.length_cons, Nat.add_right_comm, hshift]
      exact hlater n

end Execution

/-! ## Liveness -/

/-- A rank that can be lowered as long as the goal is not reached. -/
theorem exists_of_rank {goal : ℕ → Prop} (rank : ℕ → ℕ) {n : ℕ}
    (h : ∀ m, n ≤ m → ¬ goal m → ∃ m', m ≤ m' ∧ rank m' < rank m) : ∃ m, n ≤ m ∧ goal m := by
  induction hrank : rank n using Nat.strong_induction_on generalizing n with
  | _ r ih =>
    by_cases hgoal : goal n
    · exact ⟨n, le_refl n, hgoal⟩
    · obtain ⟨m, hm, hlt⟩ := h n (le_refl n) hgoal
      obtain ⟨m', hm', hgoal'⟩ := ih (rank m) (hrank ▸ hlt) (fun k hk => h k (hm.trans hk)) rfl
      exact ⟨m', hm.trans hm', hgoal'⟩

/-- A value that is another later has changed at some step. -/
theorem exists_change {α : Type*} {f : ℕ → α} {n m : ℕ} (hm : n ≤ m) (h : f m ≠ f n) :
    ∃ k, n ≤ k ∧ k < m ∧ f k = f n ∧ f (k + 1) ≠ f n := by
  induction m, hm using Nat.le_induction with
  | base => exact absurd rfl h
  | succ m hm ih =>
    by_cases hsame : f m = f n
    · exact ⟨m, hm, Nat.lt_succ_self m, hsame, h⟩
    · obtain ⟨k, hk, hlt, hkeep, hchange⟩ := ih hsame
      exact ⟨k, hk, Nat.lt_succ_of_lt hlt, hkeep, hchange⟩

/-- A measure that never rises cannot fall at infinitely many ticks. -/
theorem not_forever {tick : ℕ → Prop} {μ : ℕ → ℕ} {n : ℕ} (hticks : ∀ m, ∃ m', m ≤ m' ∧ tick m')
    (hkeep : ∀ m, n ≤ m → μ (m + 1) ≤ μ m) (hfall : ∀ m, n ≤ m → tick m → μ (m + 1) < μ m) :
    False := by
  have hle : ∀ m m', n ≤ m → m ≤ m' → μ m' ≤ μ m := by
    intro m m' hm hm'
    induction m', hm' using Nat.le_induction with
    | base => exact le_refl _
    | succ m' hm' ih => exact (hkeep m' (hm.trans hm')).trans ih
  have hnever : ∃ m, n ≤ m ∧ False := by
    refine exists_of_rank μ fun m hm _ => ?_
    obtain ⟨m', hm', htick⟩ := hticks m
    have hfalls := hfall m' (hm.trans hm') htick
    have hbelow := hle m m' hm hm'
    exact ⟨m' + 1, by omega, by omega⟩
  obtain ⟨_, -, hfalse⟩ := hnever
  exact hfalse

/-- So there is a last tick at which it falls. -/
theorem exists_no_more {tick : ℕ → Prop} {μ : ℕ → ℕ} {n : ℕ}
    (hkeep : ∀ m, n ≤ m → μ (m + 1) ≤ μ m) (hfall : ∀ m, n ≤ m → tick m → μ (m + 1) < μ m) :
    ∃ m, n ≤ m ∧ ∀ m', m ≤ m' → ¬ tick m' := by
  by_contra hnone
  push Not at hnone
  refine not_forever (fun m => ?_) hkeep hfall
  obtain ⟨m', hm', htick⟩ := hnone (max n m) (le_max_left n m)
  exact ⟨m', (le_max_right n m).trans hm', htick⟩

/-- What is in finitely many hands, and in none of them more than before, is given away only so
often. -/
theorem exists_no_more_given {tick : ℕ → Prop} (hand : ℕ → ℕ → ℕ) {n : ℕ}
    (hfew : ∃ B, ∀ w, B ≤ w → hand n w = 0)
    (hkeep : ∀ m, n ≤ m → ∀ w, hand (m + 1) w ≤ hand m w)
    (hfall : ∀ m, n ≤ m → tick m → ∃ w, hand (m + 1) w < hand m w) :
    ∃ m, n ≤ m ∧ ∀ m', m ≤ m' → ¬ tick m' := by
  obtain ⟨B, hB⟩ := hfew
  -- the hands it is in are below `B` and stay so
  have hbelow : ∀ m, n ≤ m → ∀ w, B ≤ w → hand m w = 0 := by
    intro m hm
    induction m, hm using Nat.le_induction with
    | base => exact hB
    | succ m hm ih => exact fun w hw => Nat.le_zero.mp ((hkeep m hm w).trans (ih w hw).le)
  refine exists_no_more (μ := fun m => ∑ w ∈ Finset.range B, hand m w)
    (fun m hm => Finset.sum_le_sum fun w _ => hkeep m hm w) fun m hm htick => ?_
  obtain ⟨w, hlt⟩ := hfall m hm htick
  have hwB : w < B := by
    by_contra hge
    rw [hbelow m hm w (Nat.le_of_not_lt hge)] at hlt
    exact Nat.not_lt_zero _ hlt
  exact Finset.sum_lt_sum (fun w _ => hkeep m hm w) ⟨w, Finset.mem_range.mpr hwB, hlt⟩

end TransitionSystem
