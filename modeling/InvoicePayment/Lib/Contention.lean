import InvoicePayment.Lib.TransitionSystem
import Mathlib.Logic.Function.Basic

/-!
# Tickets that contend for items

Each ticket is entered for one item and settled once. An item takes a new entry only while none of
its entries is live, that is, pending or won. `serial` says what this makes of every run: the
entries of an item come one after another, each settled before the next one begins, and a won one is
the last.
-/

namespace Contention

variable {ι τ ω : Type*}

/-- What is known of a ticket that has been entered. -/
structure Entry (ι ω : Type*) where
  item : ι
  outcome : Option ω := none

/-- Pending or won. -/
def Entry.IsLive (wins : ω → Bool) (e : Entry ι ω) : Prop :=
  ∀ o, e.outcome = some o → wins o = true

/-- The entries under their tickets. -/
abbrev Board (ι τ ω : Type*) := τ → Option (Entry ι ω)

inductive Event (ι τ ω : Type*) where
  | enter (ticket : τ) (item : ι)
  | settle (ticket : τ) (item : ι) (outcome : ω)

def Event.item : Event ι τ ω → ι
  | .enter _ i => i
  | .settle _ i _ => i

/-- No entry of the item is live. -/
def Board.IsFree (wins : ω → Bool) (b : Board ι τ ω) (i : ι) : Prop :=
  ∀ t e, b t = some e → e.item = i → ¬ e.IsLive wins

section Machine

variable [DecidableEq τ]

open Classical in
noncomputable def step (wins : ω → Bool) (b : Board ι τ ω) : Event ι τ ω → Option (Board ι τ ω)
  | .enter t i =>
    if b t = none ∧ b.IsFree wins i then some (Function.update b t (some { item := i })) else none
  | .settle t i o =>
    if b t = some { item := i } then
      some (Function.update b t (some { item := i, outcome := some o }))
    else none

/-- It begins with no entry. -/
noncomputable def system (wins : ω → Bool) : TransitionSystem (Board ι τ ω) (Event ι τ ω) where
  Initial b := b = fun _ => none
  step := step wins

theorem step_enter {wins : ω → Bool} {b b' : Board ι τ ω} {t : τ} {i : ι} :
    step wins b (.enter t i) = some b' ↔
      (b t = none ∧ b.IsFree wins i) ∧ Function.update b t (some { item := i }) = b' := by
  simp only [step, Option.ite_none_right_eq_some, Option.some.injEq]

theorem step_settle {wins : ω → Bool} {b b' : Board ι τ ω} {t : τ} {i : ι} {o : ω} :
    step wins b (.settle t i o) = some b' ↔ b t = some { item := i } ∧
      Function.update b t (some { item := i, outcome := some o }) = b' := by
  simp only [step, Option.ite_none_right_eq_some, Option.some.injEq]

/-! ## The life of an item -/

/-- Where an item is: nothing under way, a ticket pending, or won by a ticket. -/
inductive Phase (τ : Type*) where
  | idle
  | running (ticket : τ)
  | won (ticket : τ)

/-- The one way on from a phase. -/
def Phase.next (wins : ω → Bool) : Phase τ → Event ι τ ω → Option (Phase τ)
  | .idle, .enter t _ => some (.running t)
  | .running t, .settle t' _ o =>
    if t' = t then some (if wins o then .won t else .idle) else none
  | _, _ => none

/-- The phase the events of an item lead to, if they follow one another as they should. -/
def phaseAfter [DecidableEq ι] (wins : ω → Bool) (i : ι) (es : List (Event ι τ ω)) :
    Option (Phase τ) :=
  (es.filter fun e => e.item = i).foldlM (Phase.next wins) .idle

/-- What the board says of an item in this phase. -/
def Phase.Of (wins : ω → Bool) (b : Board ι τ ω) (i : ι) : Phase τ → Prop
  | .idle => b.IsFree wins i
  | .running t => b t = some { item := i } ∧
    ∀ t' e, b t' = some e → e.item = i → e.IsLive wins → t' = t
  | .won t => (∃ o, wins o = true ∧ b t = some { item := i, outcome := some o }) ∧
    ∀ t' e, b t' = some e → e.item = i → e.IsLive wins → t' = t

variable {wins : ω → Bool} {b b' : Board ι τ ω} {i : ι} {p : Phase τ}

theorem Entry.isLive_pending (i : ι) : ({ item := i } : Entry ι ω).IsLive wins := by
  intro o ho
  cases ho

theorem Entry.isLive_settled (i : ι) (o : ω) :
    ({ item := i, outcome := some o } : Entry ι ω).IsLive wins ↔ wins o = true := by
  refine ⟨fun h => h o rfl, fun h o' ho' => ?_⟩
  obtain rfl := Option.some.inj ho'
  exact h

/-- An entry of another ticket is as it was. -/
theorem update_eq_some {t t' : τ} {e e' : Entry ι ω}
    (h : Function.update b t (some e) t' = some e') : (t' = t ∧ e' = e) ∨ b t' = some e' := by
  by_cases ht : t' = t
  · subst ht
    rw [Function.update_self] at h
    exact .inl ⟨rfl, (Option.some.inj h).symm⟩
  · rw [Function.update_of_ne ht] at h
    exact .inr h

/-- A step writes one entry, of the item it is about. -/
theorem exists_update {e : Event ι τ ω} (hstep : step wins b e = some b') :
    ∃ t e', b' = Function.update b t (some e') ∧ e'.item = e.item ∧
      ∀ e₀, b t = some e₀ → e₀.item = e.item := by
  cases e with
  | enter t j =>
    obtain ⟨⟨hnone, -⟩, rfl⟩ := step_enter.mp hstep
    refine ⟨t, _, rfl, rfl, fun e₀ he₀ => ?_⟩
    rw [hnone] at he₀
    cases he₀
  | settle t j o =>
    obtain ⟨hpending, rfl⟩ := step_settle.mp hstep
    refine ⟨t, _, rfl, rfl, fun e₀ he₀ => ?_⟩
    rw [hpending] at he₀
    obtain rfl := Option.some.inj he₀
    rfl

/-- So it leaves the entries of another item alone. -/
theorem entry_iff_of_ne {e : Event ι τ ω} (hstep : step wins b e = some b') (hne : e.item ≠ i)
    {t : τ} {e' : Entry ι ω} (hitem : e'.item = i) : b' t = some e' ↔ b t = some e' := by
  obtain ⟨t₀, new, rfl, hnew, hold⟩ := exists_update hstep
  by_cases ht : t = t₀
  · subst ht
    rw [Function.update_self]
    refine ⟨fun h => ?_, fun h => absurd ((hold e' h).symm.trans hitem) hne⟩
    obtain rfl := Option.some.inj h
    exact absurd (hnew.symm.trans hitem) hne
  · rw [Function.update_of_ne ht]

/-- A step about another item does not change the phase. -/
theorem Phase.of_step_ne {e : Event ι τ ω} (hp : p.Of wins b i) (hstep : step wins b e = some b')
    (hne : e.item ≠ i) : p.Of wins b' i := by
  have hkept := fun {t : τ} {e' : Entry ι ω} (h : e'.item = i) =>
    entry_iff_of_ne (t := t) hstep hne h
  cases p with
  | idle => exact fun t e' he' hitem => hp t e' ((hkept hitem).mp he') hitem
  | running t =>
    exact ⟨(hkept rfl).mpr hp.1, fun t' e' he' hitem => hp.2 t' e' ((hkept hitem).mp he') hitem⟩
  | won t =>
    obtain ⟨⟨o, hwins, hwon⟩, hone⟩ := hp
    exact ⟨⟨o, hwins, (hkept rfl).mpr hwon⟩,
      fun t' e' he' hitem => hone t' e' ((hkept hitem).mp he') hitem⟩

/-- An item with a live entry takes no other one. -/
theorem Phase.of_step_enter {t : τ} (hp : p.Of wins b i)
    (hstep : step wins b (.enter t i) = some b') :
    p.next wins (.enter t i) = some (.running t) ∧ (Phase.running t).Of wins b' i := by
  obtain ⟨⟨hnone, hfree⟩, rfl⟩ := step_enter.mp hstep
  refine ⟨?_, Function.update_self _ _ _, fun t' e he hitem hlive => ?_⟩
  · cases p with
    | idle => rfl
    | running t₀ => exact absurd (Entry.isLive_pending i) (hfree t₀ _ hp.1 rfl)
    | won t₀ =>
      obtain ⟨⟨o, hwins, hwon⟩, -⟩ := hp
      exact absurd ((Entry.isLive_settled i o).mpr hwins) (hfree t₀ _ hwon rfl)
  · rcases update_eq_some he with ⟨ht, -⟩ | hold
    · exact ht
    · exact absurd hlive (hfree t' e hold hitem)

/-- The entry that is settled is the one the item was waiting for. -/
theorem Phase.of_step_settle {t : τ} {o : ω} (hp : p.Of wins b i)
    (hstep : step wins b (.settle t i o) = some b') :
    ∃ p', p.next wins (.settle t i o) = some p' ∧ p'.Of wins b' i := by
  obtain ⟨hpending, rfl⟩ := step_settle.mp hstep
  have hlive : ({ item := i } : Entry ι ω).IsLive wins := Entry.isLive_pending i
  cases p with
  | idle => exact absurd hlive (hp t _ hpending rfl)
  | won t₀ =>
    obtain ⟨⟨o', -, hwon⟩, hone⟩ := hp
    rw [← hone t _ hpending rfl hlive, hpending] at hwon
    cases hwon
  | running t₀ =>
    obtain rfl : t = t₀ := hp.2 t _ hpending rfl hlive
    refine ⟨_, if_pos rfl, ?_⟩
    -- no other entry of the item is live
    have hother : ∀ t' e, Function.update b t (some { item := i, outcome := some o }) t' = some e →
        e.item = i → e.IsLive wins → t' = t := by
      intro t' e he hitem hlive
      rcases update_eq_some he with ⟨ht, -⟩ | hold
      · exact ht
      · exact hp.2 t' e hold hitem hlive
    by_cases hwins : wins o = true
    · rw [if_pos hwins]
      exact ⟨⟨o, hwins, Function.update_self _ _ _⟩, hother⟩
    · rw [if_neg hwins]
      intro t' e he hitem hlive
      obtain rfl := hother t' e he hitem hlive
      rw [Function.update_self] at he
      obtain rfl := Option.some.inj he
      exact hwins ((Entry.isLive_settled i o).mp hlive)

/-- A step about the item takes its phase on. -/
theorem Phase.of_step {e : Event ι τ ω} (hp : p.Of wins b i) (hstep : step wins b e = some b')
    (hitem : e.item = i) : ∃ p', p.next wins e = some p' ∧ p'.Of wins b' i := by
  cases e with
  | enter t j =>
    obtain rfl : j = i := hitem
    exact ⟨_, Phase.of_step_enter hp hstep⟩
  | settle t j o =>
    obtain rfl : j = i := hitem
    exact Phase.of_step_settle hp hstep

/-- In every run the events of an item follow one another, and the board knows where they have
led. -/
theorem serial [DecidableEq ι] {b₀ : Board ι τ ω} {es : List (Event ι τ ω)}
    (h₀ : (system wins).Initial b₀) (hrun : (system wins).run b₀ es = some b) (i : ι) :
    ∃ p, phaseAfter wins i es = some p ∧ p.Of wins b i := by
  refine TransitionSystem.run_history (M := system wins)
    (P := fun es b => ∃ p, phaseAfter wins i es = some p ∧ p.Of wins b i) ?_ ?_ hrun
  · refine ⟨.idle, rfl, ?_⟩
    rintro t e he
    rw [show b₀ = fun _ => none from h₀] at he
    cases he
  · rintro es e b b' ⟨p, hphase, hp⟩ hstep
    rw [phaseAfter] at hphase
    by_cases hitem : e.item = i
    · obtain ⟨p', hnext, hp'⟩ := Phase.of_step hp hstep hitem
      refine ⟨p', ?_, hp'⟩
      rw [phaseAfter, List.filter_append, List.filter_singleton, List.foldlM_append, hphase]
      simp [hitem, hnext]
    · refine ⟨p, ?_, Phase.of_step_ne hp hstep hitem⟩
      rw [phaseAfter, List.filter_append, List.filter_singleton, List.foldlM_append, hphase]
      simp [hitem]

end Machine

end Contention
