import InvoicePayment.Lib.Table
import InvoicePayment.Psp.MockPsp

/-!
# PSPs

A `Psp` is what a payment service provider does with one charge request, its freedom resolved
by a choice `δ`. `definitePsp` is what the reconciler assumes of a provider, `mockPsp` the mock
answering its calls one at a time; `mockPsp_isDefinite` says the mock keeps the assumption.
What the assumption buys: a recorded outcome stays, a definite result is the recorded outcome,
and the effect has run once per key.
-/

namespace InvoicePayment

/-- How a PSP serves a request made for an attempt: the result the client reads and the PSP's
new state, `none` when the choice is not open to it. -/
abbrev Psp (δ : Type) := PspState → Uuid → ChargeRequest → δ → Option (PspResult × PspState)

/-- What a provider may do with a request: ignore it, or settle on an outcome; either way its
answer may be lost. -/
structure DefiniteChoice where
  outcome : Option ChargeOutcome
  lost : Option UnknownReason

namespace DefiniteChoice

/-- The result the client reads. -/
def result (d : DefiniteChoice) : PspResult :=
  match d.outcome, d.lost with
  | some outcome, none => outcome.toResult
  | _, some reason => .unknown reason
  | none, none => .unknown .pspNetworkError

end DefiniteChoice

/-- All calls with one key get the same definite outcome or no answer, and the effect runs once
per key: the only outcome open to a known key is the recorded one. -/
def definitePsp : Psp DefiniteChoice := fun st attemptId request d =>
  match d.outcome with
  | none => some (d.result, st)
  | some outcome =>
    match MockPsp.lookup st request with
    | some prev => if outcome = prev then some (d.result, st) else none
    | none => some (d.result, MockPsp.insert (st.execute attemptId request outcome) request outcome)

/-- References already minted. -/
def PspState.minted (st : PspState) (pspRef : String) : Bool :=
  st.charges.any fun c => c.outcome = .succeeded pspRef

theorem PspState.ne_succeeded_of_not_minted {st : PspState} {pspRef : String}
    (h : st.minted pspRef = false) {c : Charge} (hc : c ∈ st.charges) :
    c.outcome ≠ .succeeded pspRef := by
  intro ho
  have hminted : st.minted pspRef = true :=
    List.any_eq_true.mpr ⟨c, hc, by rw [ho]; exact decide_eq_true rfl⟩
  rw [h] at hminted
  cases hminted

/-- The mock PSP, a charge at a time. `Uuid::new_v4` mints a reference no charge has. -/
def mockPsp : Psp String := fun st attemptId request pspRef =>
  if st.minted pspRef then none
  else
    let (response, st') := MockPsp.charge st attemptId request pspRef
    some (PspClient.classify (.response response), st')

/-- Every answer of `psp` is one `definitePsp` could have given. -/
def Psp.IsDefinite {δ : Type} (psp : Psp δ) : Prop :=
  ∀ st attemptId request choice r st', psp st attemptId request choice = some (r, st') →
    ∃ d, definitePsp st attemptId request d = some (r, st')

theorem definitePsp_isDefinite : Psp.IsDefinite definitePsp := by
  intro st attemptId request d r st' h
  exact ⟨d, h⟩

/-- What the mock answers, by what its lookup and its table say. -/
theorem mockPsp_eq_some {st st' : PspState} {attemptId : Uuid} {request : ChargeRequest}
    {pspRef : String} {r : PspResult} (h : mockPsp st attemptId request pspRef = some (r, st')) :
    (∃ prev, MockPsp.lookup st request = some prev ∧ r = prev.toResult ∧ st' = st) ∨
    (MockPsp.lookup st request = none ∧ r = .unknown .pspNetworkError ∧ st' = st) ∨
    ∃ outcome, MockPsp.lookup st request = none ∧
      MockPsp.effect request.cardToken pspRef = .ok outcome ∧ st.minted pspRef = false ∧
      r = outcome.toResult ∧
      st' = MockPsp.insert (st.execute attemptId request outcome) request outcome := by
  unfold mockPsp at h
  split_ifs at h with hminted
  simp only [Option.some.injEq, Prod.mk.injEq] at h
  obtain ⟨rfl, rfl⟩ := h
  cases hl : MockPsp.lookup st request with
  | some prev =>
    rw [MockPsp.charge_of_hit hl]
    exact .inl ⟨prev, rfl, MockPsp.classify_respond prev, rfl⟩
  | none =>
    cases he : MockPsp.effect request.cardToken pspRef with
    | error response =>
      rw [MockPsp.charge_of_refused hl he]
      exact .inr (.inl ⟨rfl, MockPsp.classify_effect_error he, rfl⟩)
    | ok outcome =>
      rw [MockPsp.charge_of_ok hl he]
      exact .inr (.inr ⟨outcome, rfl, rfl, by simpa using hminted,
        MockPsp.classify_respond outcome, rfl⟩)

theorem mockPsp_isDefinite : Psp.IsDefinite mockPsp := by
  intro st attemptId request pspRef r st' h
  rcases mockPsp_eq_some h with ⟨prev, hl, rfl, rfl⟩ | ⟨hl, rfl, rfl⟩ |
    ⟨outcome, hl, he, -, rfl, rfl⟩
  · refine ⟨⟨some prev, none⟩, ?_⟩
    simp [definitePsp, hl, DefiniteChoice.result]
  · -- a refused token is a request the PSP ignores
    refine ⟨⟨none, none⟩, ?_⟩
    simp [definitePsp, DefiniteChoice.result]
  · refine ⟨⟨some outcome, none⟩, ?_⟩
    simp [definitePsp, hl, DefiniteChoice.result]

/-! ## What a definite PSP does with a keyed request -/

theorem DefiniteChoice.result_of_outcome {d : DefiniteChoice} {outcome : ChargeOutcome}
    (h : d.outcome = some outcome) :
    (∃ reason, d.result = .unknown reason) ∨ d.result = outcome.toResult := by
  unfold result
  rw [h]
  cases d.lost with
  | none => exact .inr rfl
  | some reason => exact .inl ⟨reason, rfl⟩

theorem DefiniteChoice.result_of_ignored {d : DefiniteChoice} (h : d.outcome = none) :
    ∃ reason, d.result = .unknown reason := by
  unfold result
  rw [h]
  cases d.lost with
  | none => exact ⟨_, rfl⟩
  | some reason => exact ⟨reason, rfl⟩

/-- The PSP changes nothing, or settles on an outcome for a key it has not seen. -/
theorem Psp.IsDefinite.cases {δ : Type} {psp : Psp δ} (hpsp : psp.IsDefinite) {st st' : PspState}
    {attemptId : Uuid} {request : ChargeRequest} {choice : δ} {r : PspResult}
    (h : psp st attemptId request choice = some (r, st')) :
    (st' = st ∧ ((∃ reason, r = .unknown reason) ∨
      ∃ outcome, MockPsp.lookup st request = some outcome ∧ r = outcome.toResult)) ∨
    (MockPsp.lookup st request = none ∧ ∃ outcome,
      st' = MockPsp.insert (st.execute attemptId request outcome) request outcome ∧
      ((∃ reason, r = .unknown reason) ∨ r = outcome.toResult)) := by
  obtain ⟨d, hd⟩ := hpsp _ _ _ _ _ _ h
  unfold definitePsp at hd
  split at hd
  · rename_i hignored
    obtain ⟨rfl, rfl⟩ := Prod.mk.inj (Option.some.inj hd)
    exact .inl ⟨rfl, .inl (DefiniteChoice.result_of_ignored hignored)⟩
  rename_i outcome hout
  have hresult := DefiniteChoice.result_of_outcome hout
  split at hd
  · rename_i prev hprev
    split_ifs at hd with heq
    obtain ⟨rfl, rfl⟩ := Prod.mk.inj (Option.some.inj hd)
    refine .inl ⟨rfl, hresult.imp id fun hr => ⟨prev, hprev, ?_⟩⟩
    rw [hr, heq]
  · rename_i hnone
    obtain ⟨rfl, rfl⟩ := Prod.mk.inj (Option.some.inj hd)
    exact .inr ⟨hnone, outcome, rfl, hresult⟩

namespace PspState

/-- The effect has run at most once per key, and what it led to is on record. -/
structure OncePerKey (st : PspState) : Prop where
  recorded : ∀ c ∈ st.charges, ∃ key, c.request.idempotencyKey = some key ∧
    st.seen key = some c.outcome
  once : (st.charges.map fun c => c.request.idempotencyKey).Nodup

theorem oncePerKey_empty : OncePerKey {} := by
  constructor <;> simp

end PspState

section Served

variable {δ : Type} {psp : Psp δ} {st st' : PspState} {attemptId : Uuid} {request : ChargeRequest}
  {key : String} {choice : δ} {r : PspResult}

theorem insert_execute (hkey : request.idempotencyKey = some key) (outcome : ChargeOutcome) :
    MockPsp.insert (st.execute attemptId request outcome) request outcome =
      (st.execute attemptId request outcome).record key outcome := by
  rw [MockPsp.insert, hkey]

theorem lookup_eq (hkey : request.idempotencyKey = some key) :
    MockPsp.lookup st request = st.seen key := by
  rw [MockPsp.lookup, hkey, Option.bind_some]

/-- A recorded outcome stays. -/
theorem Psp.IsDefinite.seen_mono (hpsp : psp.IsDefinite)
    (hkey : request.idempotencyKey = some key)
    (h : psp st attemptId request choice = some (r, st')) {key' : String} {o : ChargeOutcome}
    (hseen : st.seen key' = some o) : st'.seen key' = some o := by
  rcases hpsp.cases h with ⟨rfl, -⟩ | ⟨hnone, outcome, rfl, -⟩
  · exact hseen
  · rw [lookup_eq hkey] at hnone
    -- a key with an outcome on record is not the one the lookup missed
    have hne : request.idempotencyKey ≠ some key' := by
      rw [hkey]
      rintro ⟨rfl⟩
      cases hnone.symm.trans hseen
    rw [MockPsp.seen_insert, if_neg hne]
    exact hseen

/-- A definite result is the outcome on record. -/
theorem Psp.IsDefinite.result_recorded (hpsp : psp.IsDefinite)
    (hkey : request.idempotencyKey = some key)
    (h : psp st attemptId request choice = some (r, st')) :
    (∃ reason, r = .unknown reason) ∨ ∃ o, st'.seen key = some o ∧ r = o.toResult := by
  rcases hpsp.cases h with ⟨rfl, hunknown | ⟨o, ho, hr⟩⟩ | ⟨-, o, rfl, hunknown | hr⟩
  · exact .inl hunknown
  · rw [lookup_eq hkey] at ho
    exact .inr ⟨o, ho, hr⟩
  · exact .inl hunknown
  · refine .inr ⟨o, ?_, hr⟩
    rw [MockPsp.seen_insert, if_pos hkey]

/-- A charge is an old one, or the one just run for this request. -/
theorem Psp.IsDefinite.charges (hpsp : psp.IsDefinite)
    (h : psp st attemptId request choice = some (r, st')) {c : Charge} (hc : c ∈ st'.charges) :
    c ∈ st.charges ∨ (c.attemptId = attemptId ∧ c.request = request) := by
  rcases hpsp.cases h with ⟨rfl, -⟩ | ⟨-, outcome, rfl, -⟩
  · exact .inl hc
  · rw [MockPsp.charges_insert, PspState.execute, List.mem_append, List.mem_singleton] at hc
    rcases hc with hc | rfl
    · exact .inl hc
    · exact .inr ⟨rfl, rfl⟩

theorem Psp.IsDefinite.oncePerKey (hpsp : psp.IsDefinite)
    (hkey : request.idempotencyKey = some key)
    (h : psp st attemptId request choice = some (r, st')) (hst : st.OncePerKey) :
    st'.OncePerKey := by
  have hmono : ∀ key' o, st.seen key' = some o → st'.seen key' = some o :=
    fun _ _ => hpsp.seen_mono hkey h
  rcases hpsp.cases h with ⟨rfl, -⟩ | ⟨hnone, outcome, rfl, -⟩
  · exact hst
  rw [lookup_eq hkey] at hnone
  rw [insert_execute hkey] at hmono ⊢
  have hcharges : ((st.execute attemptId request outcome).record key outcome).charges
      = st.charges ++ [⟨attemptId, request, outcome⟩] := rfl
  constructor
  · intro c hc
    rw [hcharges, List.mem_append, List.mem_singleton] at hc
    rcases hc with hc | rfl
    · obtain ⟨key', hkey', hseen⟩ := hst.recorded c hc
      exact ⟨key', hkey', hmono key' c.outcome hseen⟩
    · exact ⟨key, hkey, by simp [PspState.record]⟩
  · rw [hcharges]
    apply Table.nodup_map_append_singleton hst.once
    -- a charge under this key would have recorded an outcome
    intro hmem
    obtain ⟨c, hc, hck⟩ := List.mem_map.mp hmem
    obtain ⟨key', hkey', hseen⟩ := hst.recorded c hc
    obtain rfl : key' = key := by
      rw [hkey'] at hck
      exact Option.some.inj (hck.trans hkey)
    rw [hnone] at hseen
    cases hseen

end Served

end InvoicePayment
