import InvoicePayment.Psp.Server

/-!
# One charge per key

Nothing is held between the lookup of a request and its insert, so two requests with one key
that overlap there both run the effect, and the later insert overwrites the earlier one. As
long as no request misses its lookup beside another one whose outcome may differ, the key is
charged once and its outcome stays (`charged_once`).
-/

namespace InvoicePayment.MockPsp

/-- The handler has missed its lookup and not responded. -/
def Call.IsPending (c : Call) : Prop := c.stage = .missed ∨ ∃ o, c.stage = .charged o

/-- The response reports an outcome for the key. -/
structure Call.Reports (c : Call) (key : String) (o : ChargeOutcome) : Prop where
  key : c.request.idempotencyKey = some key
  answered : c.stage = .answered (respond o)

/-- Two tokens that may lead to different outcomes: all but the refused ones, and the same
decline twice. -/
def Clash (token token' : String) : Prop :=
  ∃ pspRef pspRef' o o', effect token pspRef = .ok o ∧ effect token' pspRef' = .ok o' ∧ o ≠ o'

/-- No request misses its lookup while another one with its key, and a token that clashes with
its own, is between its missed lookup and its insert. -/
def Exclusive (x : TransitionSystem.Transition Server Event) : Prop :=
  ∀ i c key, x.label = .act i .look → x.pre.calls[i]? = some c →
    c.request.idempotencyKey = some key → x.pre.psp.seen key = none →
    ∀ j d, j ≠ i → x.pre.calls[j]? = some d → d.request.idempotencyKey = some key →
      d.IsPending → ¬ Clash c.request.cardToken d.request.cardToken

/-- The money a key has moved. -/
def moves (psp : PspState) (key : String) : ℕ :=
  psp.charges.countP fun m => m.request.idempotencyKey = some key && m.outcome.movesMoney

/-- The money-moving effect has run at most once for a key, and all its responses agree. -/
structure ChargedOnce (s : Server) : Prop where
  minted : ∀ key, moves s.psp key ≤ 1
  agree : ∀ c ∈ s.calls, ∀ d ∈ s.calls, ∀ key o o', c.Reports key o → d.Reports key o' → o = o'

/-- A request that arrives after an outcome was reported for its key is answered with it, if it
is answered. -/
def OutcomesStay (s : Server) (ls : List Event) : Prop :=
  ∀ front back t, ls = front ++ back → server.run s front = some t →
    ∀ c ∈ t.calls, ∀ key o, c.Reports key o →
    ∀ u ∈ server.states t back, ∀ i d, t.calls.length ≤ i → u.calls[i]? = some d →
      d.request.idempotencyKey = some key →
      d.stage = .arrived ∨ d.stage = .dropped ∨ d.stage = .answered (respond o)

/-- The invariant: pending requests of one key lead to one outcome, the recorded one if there
is one; whatever moved money is recorded or about to be; what was reported is recorded. -/
structure Guarded (s : Server) : Prop where
  apart : ∀ (i j : ℕ) (c d : Call) key, i ≠ j → s.calls[i]? = some c → s.calls[j]? = some d →
    c.request.idempotencyKey = some key → d.request.idempotencyKey = some key →
    c.IsPending → d.IsPending → ¬ Clash c.request.cardToken d.request.cardToken
  charged : ∀ c ∈ s.calls, ∀ o, c.stage = .charged o →
    ∃ pspRef, effect c.request.cardToken pspRef = .ok o
  follows : ∀ c ∈ s.calls, c.IsPending → ∀ key, c.request.idempotencyKey = some key →
    ∀ o, s.psp.seen key = some o →
    ∀ pspRef o', effect c.request.cardToken pspRef = .ok o' → o' = o
  moved : ∀ m ∈ s.psp.charges, ∀ key, m.request.idempotencyKey = some key →
    m.outcome.movesMoney = true → s.psp.seen key = some m.outcome ∨
    ∃ c ∈ s.calls, c.request.idempotencyKey = some key ∧ c.stage = .charged m.outcome
  reported : ∀ c ∈ s.calls, ∀ key o, c.Reports key o → s.psp.seen key = some o
  once : ∀ key, moves s.psp key ≤ 1

/-! ## Responses and tokens -/

theorem Clash.symm {token token' : String} (h : Clash token token') : Clash token' token := by
  obtain ⟨pspRef, pspRef', o, o', ho, ho', hne⟩ := h
  exact ⟨pspRef', pspRef, o', o, ho', ho, hne.symm⟩

theorem respond_injective {o o' : ChargeOutcome} (h : respond o = respond o') : o = o' := by
  apply ChargeOutcome.toResult_injective
  rw [← classify_respond, ← classify_respond, h]

/-- A refusal reports no outcome. -/
theorem ne_respond_of_refused {token pspRef : String} {response : HttpResponse}
    (h : effect token pspRef = .error response) (o : ChargeOutcome) : response ≠ respond o := by
  rintro rfl
  have hunknown := classify_effect_error h
  rw [classify_respond] at hunknown
  exact o.toResult_ne_unknown _ hunknown

theorem chargedOnce_of_guarded {s : Server} (hg : Guarded s) : ChargedOnce s := by
  refine ⟨hg.once, ?_⟩
  intro c hc d hd key o o' ho ho'
  have hseen := hg.reported c hc key o ho
  rw [hg.reported d hd key o' ho'] at hseen
  exact (Option.some.inj hseen).symm

/-! ## One step -/

section Step

variable {s : Server} {i : ℕ} {c c' : Call} {psp : PspState}

theorem mem_set_cases {d : Call} (h : d ∈ s.calls.set i c') : d ∈ s.calls ∨ d = c' :=
  List.mem_or_eq_of_mem_set h

theorem getElem?_set_cases {d : Call} {j : ℕ} (h : (s.calls.set i c')[j]? = some d) :
    (j = i ∧ d = c') ∨ (j ≠ i ∧ s.calls[j]? = some d) := by
  rw [List.getElem?_set] at h
  split_ifs at h with hij
  · exact .inl ⟨hij.symm, (Option.some.inj h).symm⟩
  · exact .inr ⟨Ne.symm hij, h⟩

/-- The handlers other than the one that moved are as they were. -/
theorem mem_set_of_ne (hi : s.calls[i]? = some c) {d : Call} (hd : d ∈ s.calls) (hne : d ≠ c) :
    d ∈ s.calls.set i c' := by
  obtain ⟨j, hj⟩ := List.mem_iff_getElem?.mp hd
  have hij : i ≠ j := by
    rintro rfl
    exact hne (Option.some.inj (hj.symm.trans hi))
  refine List.mem_iff_getElem?.mpr ⟨j, ?_⟩
  rw [List.getElem?_set_ne hij]
  exact hj

/-- Whatever moved money before a handler's step stays recorded or about to be, if that handler
had not charged. -/
theorem Guarded.moved_set (hg : Guarded s) (hi : s.calls[i]? = some c)
    (hbefore : ∀ o, c.stage ≠ .charged o) {m : Charge} (hm : m ∈ s.psp.charges) {key : String}
    (hkey : m.request.idempotencyKey = some key) (hmoves : m.outcome.movesMoney = true) :
    s.psp.seen key = some m.outcome ∨
      ∃ d ∈ s.calls.set i c', d.request.idempotencyKey = some key ∧ d.stage = .charged m.outcome := by
  rcases hg.moved m hm key hkey hmoves with hseen | ⟨d, hd, hdk, hst⟩
  · exact .inl hseen
  · -- the handler that has charged is another one
    refine .inr ⟨d, mem_set_of_ne hi hd ?_, hdk, hst⟩
    rintro rfl
    exact hbefore _ hst

/-- A pending request among the others is one that was pending, if the one that moved is not. -/
theorem Guarded.apart_set (hg : Guarded s) (hc : ¬ c'.IsPending) :
    ∀ (j k : ℕ) (d e : Call) key, j ≠ k → (s.calls.set i c')[j]? = some d →
      (s.calls.set i c')[k]? = some e → d.request.idempotencyKey = some key →
      e.request.idempotencyKey = some key →
      d.IsPending → e.IsPending → ¬ Clash d.request.cardToken e.request.cardToken := by
  intro j k d e key hjk hd he hdk hek hdp hep
  rcases getElem?_set_cases hd with ⟨-, rfl⟩ | ⟨-, hd⟩
  · exact absurd hdp hc
  rcases getElem?_set_cases he with ⟨-, rfl⟩ | ⟨-, he⟩
  · exact absurd hep hc
  exact hg.apart j k d e key hjk hd he hdk hek hdp hep

/-- A handler that goes on without touching the PSP, to a response it may report. -/
theorem guarded_quiet (hg : Guarded s) (hi : s.calls[i]? = some c)
    (hbefore : ∀ o, c.stage ≠ .charged o) (hafter : ¬ c'.IsPending)
    (hreport : ∀ key o, c'.Reports key o → s.psp.seen key = some o) :
    Guarded { psp := s.psp, calls := s.calls.set i c' } := by
  constructor
  · exact hg.apart_set hafter
  · intro d hd o hst
    rcases mem_set_cases hd with hd | rfl
    · exact hg.charged d hd o hst
    · exact absurd (.inr ⟨o, hst⟩) hafter
  · intro d hd hp
    rcases mem_set_cases hd with hd | rfl
    · exact hg.follows d hd hp
    · exact absurd hp hafter
  · intro m hm key hkey hmoves
    exact hg.moved_set hi hbefore hm hkey hmoves
  · intro d hd key o hd'
    rcases mem_set_cases hd with hd | rfl
    · exact hg.reported d hd key o hd'
    · exact hreport key o hd'
  · exact hg.once

/-- A lookup that misses, beside no request that may lead to something else. -/
theorem guarded_miss (hg : Guarded s) (hi : s.calls[i]? = some c) (hstage : c.stage = .arrived)
    (hl : lookup s.psp c.request = none)
    (hex : ∀ key, c.request.idempotencyKey = some key → s.psp.seen key = none →
      ∀ j d, j ≠ i → s.calls[j]? = some d → d.request.idempotencyKey = some key →
      d.IsPending → ¬ Clash c.request.cardToken d.request.cardToken) :
    Guarded { psp := s.psp, calls := s.calls.set i { c with stage := .missed } } := by
  have hunseen : ∀ key, c.request.idempotencyKey = some key → s.psp.seen key = none := by
    intro key hkey
    rw [lookup, hkey] at hl
    exact hl
  constructor
  · intro j k d e key hjk hd he hdk hek hdp hep
    rcases getElem?_set_cases hd with ⟨rfl, rfl⟩ | ⟨hji, hd₀⟩
    · rcases getElem?_set_cases he with ⟨rfl, -⟩ | ⟨hki, he₀⟩
      · exact absurd rfl hjk
      · exact hex key hdk (hunseen key hdk) k e hki he₀ hek hep
    · rcases getElem?_set_cases he with ⟨rfl, rfl⟩ | ⟨hki, he₀⟩
      · intro hclash
        exact hex key hek (hunseen key hek) j d hji hd₀ hdk hdp hclash.symm
      · exact hg.apart j k d e key hjk hd₀ he₀ hdk hek hdp hep
  · intro d hd o hst
    rcases mem_set_cases hd with hd | rfl
    · exact hg.charged d hd o hst
    · cases hst
  · intro d hd hp key hkey o hseen
    rcases mem_set_cases hd with hd | rfl
    · exact hg.follows d hd hp key hkey o hseen
    · rw [hunseen key hkey] at hseen
      cases hseen
  · intro m hm key hkey hmoves
    exact hg.moved_set hi (by rw [hstage]; exact fun _ => Stage.noConfusion) hm hkey hmoves
  · intro d hd key o hd'
    rcases mem_set_cases hd with hd | rfl
    · exact hg.reported d hd key o hd'
    · cases hd'.answered
  · exact hg.once

/-- Nothing has moved money for the key of a request about to move some. -/
theorem moves_eq_zero (hg : Guarded s) (hi : s.calls[i]? = some c) (hstage : c.stage = .missed)
    {pspRef key : String} (hfresh : s.psp.minted pspRef = false)
    (he : effect c.request.cardToken pspRef = .ok (.succeeded pspRef))
    (hkey : c.request.idempotencyKey = some key) : moves s.psp key = 0 := by
  have hnot : ∀ m ∈ s.psp.charges, m.outcome ≠ .succeeded pspRef := by
    intro m hm
    exact PspState.ne_succeeded_of_not_minted hfresh hm
  refine List.countP_eq_zero.mpr fun m hm hmover => ?_
  simp only [Bool.and_eq_true, decide_eq_true_eq] at hmover
  rcases hg.moved m hm key hmover.1 hmover.2 with hseen | ⟨d, hd, hdk, hst⟩
  · have hsame := hg.follows c (List.mem_of_getElem? hi) (.inl hstage) key hkey _ hseen _ _ he
    exact hnot m hm hsame.symm
  · obtain ⟨j, hj⟩ := List.mem_iff_getElem?.mp hd
    have hij : i ≠ j := by
      rintro rfl
      obtain rfl := Option.some.inj (hi.symm.trans hj)
      rw [hstage] at hst
      cases hst
    obtain ⟨pspRef', he'⟩ := hg.charged d hd _ hst
    refine hg.apart i j c d key hij hi hj hkey hdk (.inl hstage) (.inr ⟨_, hst⟩) ?_
    exact ⟨pspRef, pspRef', _, _, he, he', (hnot m hm).symm⟩

/-- The effect of a request that is guarded. -/
theorem guarded_charged (hg : Guarded s) (hi : s.calls[i]? = some c) (hstage : c.stage = .missed)
    {pspRef : String} {o : ChargeOutcome} (hfresh : s.psp.minted pspRef = false)
    (he : effect c.request.cardToken pspRef = .ok o) :
    Guarded { psp := s.psp.execute c.attemptId c.request o,
              calls := s.calls.set i { c with stage := .charged o } } := by
  have hc := List.mem_of_getElem? hi
  constructor
  · intro j k d e key hjk hd he' hdk hek hdp hep
    rcases getElem?_set_cases hd with ⟨rfl, rfl⟩ | ⟨hji, hd₀⟩
    · rcases getElem?_set_cases he' with ⟨rfl, -⟩ | ⟨hki, he₀⟩
      · exact absurd rfl hjk
      · exact hg.apart j k c e key hjk hi he₀ hdk hek (.inl hstage) hep
    · rcases getElem?_set_cases he' with ⟨rfl, rfl⟩ | ⟨hki, he₀⟩
      · exact hg.apart j k d c key hjk hd₀ hi hdk hek hdp (.inl hstage)
      · exact hg.apart j k d e key hjk hd₀ he₀ hdk hek hdp hep
  · intro d hd o' hst
    rcases mem_set_cases hd with hd | rfl
    · exact hg.charged d hd o' hst
    · obtain rfl := Stage.charged.inj hst
      exact ⟨pspRef, he⟩
  · intro d hd hp key hkey o' hseen
    rcases mem_set_cases hd with hd | rfl
    · exact hg.follows d hd hp key hkey o' hseen
    · exact hg.follows c hc (.inl hstage) key hkey o' hseen
  · intro m hm key hkey hmoves
    have hi' : i < s.calls.length := (List.getElem?_eq_some_iff.mp hi).1
    rcases List.mem_append.mp hm with hm | hm
    · exact hg.moved_set hi (by rw [hstage]; exact fun _ => Stage.noConfusion) hm hkey hmoves
    · -- the new charge is the one of the request itself
      obtain rfl := List.mem_singleton.mp hm
      exact .inr ⟨{ c with stage := .charged o }, List.mem_set hi' _, hkey, rfl⟩
  · intro d hd key o' hd'
    rcases mem_set_cases hd with hd | rfl
    · exact hg.reported d hd key o' hd'
    · cases hd'.answered
  · intro key
    show List.countP _ (s.psp.charges ++ [⟨c.attemptId, c.request, o⟩]) ≤ 1
    rw [List.countP_append, List.countP_singleton]
    split_ifs with hmover
    · simp only [Bool.and_eq_true, decide_eq_true_eq] at hmover
      obtain rfl := eq_succeeded_of_moves he hmover.2
      have hzero := moves_eq_zero hg hi hstage hfresh he hmover.1
      rw [moves] at hzero
      omega
    · exact hg.once key

/-- The insert of a guarded request changes no outcome on record. -/
theorem Guarded.seen_insert (hg : Guarded s) (hi : s.calls[i]? = some c) {o o' : ChargeOutcome}
    (hstage : c.stage = .charged o) {key : String} (hseen : s.psp.seen key = some o') :
    (insert s.psp c.request o).seen key = some o' := by
  have hc := List.mem_of_getElem? hi
  obtain ⟨pspRef, he⟩ := hg.charged c hc o hstage
  rw [MockPsp.seen_insert]
  split_ifs with hkey
  · -- what was on record under the key is what the request records
    rw [hg.follows c hc (.inr ⟨o, hstage⟩) key hkey o' hseen _ _ he]
  · exact hseen

/-- The insert of a request that is guarded: it overwrites nothing else. -/
theorem guarded_recorded (hg : Guarded s) (hi : s.calls[i]? = some c) {o : ChargeOutcome}
    (hstage : c.stage = .charged o) :
    Guarded { psp := insert s.psp c.request o,
              calls := s.calls.set i { c with stage := .answered (respond o) } } := by
  have hc := List.mem_of_getElem? hi
  obtain ⟨pspRef, he⟩ := hg.charged c hc o hstage
  have hafter : ¬ ({ c with stage := .answered (respond o) } : Call).IsPending := by
    rintro (h | ⟨o', h⟩) <;> cases h
  constructor
  · exact hg.apart_set hafter
  · intro d hd o' hst
    rcases mem_set_cases hd with hd | rfl
    · exact hg.charged d hd o' hst
    · cases hst
  · intro d hd hp key hdk o' hseen' pspRef' o₂ he₂
    rcases mem_set_cases hd with hd' | rfl
    · rw [seen_insert] at hseen'
      split_ifs at hseen' with hkey
      · obtain rfl := Option.some.inj hseen'
        -- a pending request of the same key leads to the same outcome
        obtain ⟨j, hj⟩ := List.mem_iff_getElem?.mp hd
        rcases getElem?_set_cases hj with ⟨-, rfl⟩ | ⟨hji, hj⟩
        · exact absurd hp hafter
        · by_contra hne
          exact hg.apart j i d c key hji hj hi hdk hkey hp (.inr ⟨o, hstage⟩)
            ⟨pspRef', pspRef, o₂, o, he₂, he, hne⟩
      · exact hg.follows d hd' hp key hdk o' hseen' pspRef' o₂ he₂
    · exact absurd hp hafter
  · intro m hm key hkey hmoves
    rw [charges_insert] at hm
    rcases hg.moved m hm key hkey hmoves with hseen' | ⟨d, hd, hdk, hst⟩
    · exact .inl (hg.seen_insert hi hstage hseen')
    · by_cases hdc : d = c
      · -- the request itself has moved the money, and records it
        subst hdc
        obtain rfl := Stage.charged.inj (hstage.symm.trans hst)
        left
        show (insert s.psp d.request m.outcome).seen key = _
        rw [seen_insert, if_pos hdk]
      · exact .inr ⟨d, mem_set_of_ne hi hd hdc, hdk, hst⟩
  · intro d hd key o' hd'
    show (insert s.psp c.request o).seen key = some o'
    rcases mem_set_cases hd with hd | rfl
    · exact hg.seen_insert hi hstage (hg.reported d hd key o' hd')
    · have hkey : c.request.idempotencyKey = some key := hd'.key
      obtain rfl := respond_injective (Stage.answered.inj hd'.answered)
      rw [seen_insert, if_pos hkey]
  · intro key
    show List.countP _ (insert s.psp c.request o).charges ≤ 1
    rw [charges_insert]
    exact hg.once key

end Step

theorem getElem?_append_cases {calls : List Call} {c d : Call} {j : ℕ}
    (h : (calls ++ [c])[j]? = some d) : calls[j]? = some d ∨ (j = calls.length ∧ d = c) := by
  rw [List.getElem?_append] at h
  split_ifs at h with hj
  · exact .inl h
  · rw [List.getElem?_singleton] at h
    split_ifs at h with hzero
    exact .inr ⟨by omega, (Option.some.inj h).symm⟩

theorem guarded_arrive {s : Server} (hg : Guarded s) (attemptId : Uuid) (request : ChargeRequest) :
    Guarded { s with calls := s.calls ++ [{ attemptId, request }] } := by
  have hnew : ¬ ({ attemptId, request } : Call).IsPending := by
    rintro (h | ⟨o, h⟩) <;> cases h
  have hold : ∀ d ∈ s.calls ++ [({ attemptId, request } : Call)], d.stage ≠ .arrived →
      d ∈ s.calls := by
    intro d hd hst
    rcases List.mem_append.mp hd with hd | hd
    · exact hd
    · obtain rfl := List.mem_singleton.mp hd
      exact absurd rfl hst
  constructor
  · intro j k d e key hjk hd he hdk hek hdp hep
    rcases getElem?_append_cases hd with hd | ⟨-, rfl⟩
    · rcases getElem?_append_cases he with he | ⟨-, rfl⟩
      · exact hg.apart j k d e key hjk hd he hdk hek hdp hep
      · exact absurd hep hnew
    · exact absurd hdp hnew
  · intro d hd o hst
    exact hg.charged d (hold d hd (by rw [hst]; exact Stage.noConfusion)) o hst
  · intro d hd hp
    refine hg.follows d (hold d hd ?_) hp
    rintro hst
    rcases hp with h | ⟨o, h⟩ <;> cases hst.symm.trans h
  · intro m hm key hkey hmoves
    rcases hg.moved m hm key hkey hmoves with hseen | ⟨d, hd, hdk, hst⟩
    · exact .inl hseen
    · exact .inr ⟨d, List.mem_append_left _ hd, hdk, hst⟩
  · intro d hd key o hd'
    exact hg.reported d (hold d hd (by rw [hd'.answered]; exact Stage.noConfusion)) key o hd'
  · exact hg.once

theorem guarded_step {s s' : Server} {l : Event} (hg : Guarded s)
    (h : server.step s l = some s') (hex : Exclusive ⟨s, l, s'⟩) : Guarded s' := by
  cases l with
  | arrive attemptId request =>
    obtain rfl := Option.some.inj h
    exact guarded_arrive hg attemptId request
  | act i action =>
    obtain ⟨c, c', psp, hi, hact, rfl⟩ := step_act h
    cases hact with
    | hit hstage hl =>
      refine guarded_quiet hg hi (by rw [hstage]; exact fun _ => Stage.noConfusion) ?_ ?_
      · rintro (h | ⟨o, h⟩) <;> cases h
      · intro key o hr
        obtain rfl := respond_injective (Stage.answered.inj hr.answered)
        have hkey : c.request.idempotencyKey = some key := hr.key
        rw [lookup, hkey] at hl
        exact hl
    | miss hstage hl =>
      exact guarded_miss hg hi hstage hl fun key hkey hseen j d =>
        hex i c key rfl hi hkey hseen j d
    | refused hstage he =>
      refine guarded_quiet hg hi (by rw [hstage]; exact fun _ => Stage.noConfusion) ?_ ?_
      · rintro (h | ⟨o, h⟩) <;> cases h
      · intro key o hr
        exact absurd (Stage.answered.inj hr.answered) (ne_respond_of_refused he o)
    | charged hstage hfresh he => exact guarded_charged hg hi hstage hfresh he
    | recorded hstage => exact guarded_recorded hg hi hstage
    | dropped hstage =>
      refine guarded_quiet hg hi ?_ ?_ ?_
      · intro o h
        rcases hstage with hst | hst <;> cases hst.symm.trans h
      · rintro (h | ⟨o, h⟩) <;> cases h
      · intro key o hr
        cases hr.answered

/-! ## What a later request gets -/

/-- The outcome `o` is on record for the key, and the request `i` gets nothing else. -/
structure Fixed (key : String) (o : ChargeOutcome) (i : ℕ) (s : Server) : Prop where
  seen : s.psp.seen key = some o
  gets : ∀ d, s.calls[i]? = some d → d.request.idempotencyKey = some key →
    d.stage = .arrived ∨ d.stage = .dropped ∨ d.stage = .answered (respond o)

/-- The record of a key stays what it is. -/
theorem seen_mono {s : Server} (hg : Guarded s) {i : ℕ} {c c' : Call} {psp : PspState}
    {action : Action} (hi : s.calls[i]? = some c) (h : Call.Acted s.psp c action psp c')
    {key : String} {o : ChargeOutcome} (hseen : s.psp.seen key = some o) :
    psp.seen key = some o := by
  cases h with
  | recorded hstage => exact hg.seen_insert hi hstage hseen
  | _ => exact hseen

theorem fixed_step {s s' : Server} {l : Event} {key : String} {o : ChargeOutcome} {i : ℕ}
    (hg : Guarded s) (hf : Fixed key o i s) (h : server.step s l = some s') :
    Fixed key o i s' := by
  cases l with
  | arrive attemptId request =>
    obtain rfl := Option.some.inj h
    refine ⟨hf.seen, fun d hd hkey => ?_⟩
    rcases getElem?_append_cases hd with hd | ⟨-, rfl⟩
    · exact hf.gets d hd hkey
    · exact .inl rfl
  | act j action =>
    obtain ⟨c, c', psp, hj, hact, rfl⟩ := step_act h
    refine ⟨seen_mono hg hj hact hf.seen, fun d hd hkey => ?_⟩
    rcases getElem?_set_cases hd with ⟨rfl, rfl⟩ | ⟨-, hd⟩
    · -- the request's own step
      rw [hact.request_eq] at hkey
      have hbefore := hf.gets c hj hkey
      cases hact with
      | @hit prev hstage hl =>
        rw [lookup, hkey] at hl
        obtain rfl : prev = o := Option.some.inj (hl.symm.trans hf.seen)
        exact .inr (.inr rfl)
      | miss hstage hl =>
        rw [lookup, hkey] at hl
        cases hl.symm.trans hf.seen
      | refused hstage he => rcases hbefore with h | h | h <;> cases hstage.symm.trans h
      | charged hstage hfresh he => rcases hbefore with h | h | h <;> cases hstage.symm.trans h
      | recorded hstage => rcases hbefore with h | h | h <;> cases hstage.symm.trans h
      | dropped hstage => exact .inr (.inl rfl)
    · exact hf.gets d hd hkey

/-! ## Every run -/

theorem guarded_initial : Guarded {} := by
  constructor
  · intro j k d e key hjk hd
    cases hd
  · intro d hd
    cases hd
  · intro d hd
    cases hd
  · intro m hm
    cases hm
  · intro d hd
    cases hd
  · intro key
    exact Nat.zero_le 1

/-- As long as no request misses its lookup beside one that may lead to another outcome, the
mock charges once per key, and an outcome it has returned is what later requests get. -/
theorem charged_once {s : Server} (h : server.Initial s) (ls : List Event)
    (hex : ∀ x ∈ server.steps s ls, Exclusive x) :
    (∀ t ∈ server.states s ls, ChargedOnce t) ∧ OutcomesStay s ls := by
  have hinit : Guarded s := by
    obtain rfl : s = {} := h
    exact guarded_initial
  have hguarded : ∀ {t ls}, server.Reachable t → Guarded t →
      (∀ x ∈ server.steps t ls, Exclusive x) → ∀ u ∈ server.states t ls, Guarded u := by
    intro t ls hreach ht hC
    refine TransitionSystem.forall_states_of_steps ?_ hreach ht hC
    intro x _ hg hstep hx
    exact guarded_step hg hstep hx
  have hreach : server.Reachable s := .of_initial h
  constructor
  · intro t ht
    exact chargedOnce_of_guarded (hguarded hreach hinit hex t ht)
  · intro front back t hls hrun c hc key o hr u hu i d hi hd hkey
    have hsteps := TransitionSystem.steps_append hrun back
    rw [← hls] at hsteps
    have hback : ∀ x ∈ server.steps t back, Exclusive x := by
      intro x hx
      refine hex x ?_
      rw [hsteps]
      exact List.mem_append_right _ hx
    have hfront : ∀ x ∈ server.steps s front, Exclusive x := by
      intro x hx
      refine hex x ?_
      rw [hsteps]
      exact List.mem_append_left _ hx
    have ht : Guarded t := hguarded hreach hinit hfront t (TransitionSystem.mem_states_of_run hrun)
    have hfixed : Fixed key o i t := by
      refine ⟨ht.reported c hc key o hr, fun d' hd' => ?_⟩
      rw [List.getElem?_eq_none hi] at hd'
      cases hd'
    have hboth := TransitionSystem.forall_states_of_steps
      (P := fun v => Guarded v ∧ Fixed key o i v) (C := Exclusive)
      (fun x _ hx hstep hxc => ⟨guarded_step hx.1 hstep hxc, fixed_step hx.1 hx.2 hstep⟩)
      (hreach.run hrun) ⟨ht, hfixed⟩ hback
    exact (hboth u hu).2.gets d hd hkey

/-! ## Requests that overlap -/

/-- A charge request with the key `k`. -/
def keyed (cardToken : String) : ChargeRequest :=
  { cardToken, amountCents := 500, idempotencyKey := some "k" }

def Call.isPending (c : Call) : Bool :=
  match c.stage with
  | .missed => true
  | .charged _ => true
  | _ => false

/-- No request with the same key is pending when a request looks its key up. -/
def exclusive (x : TransitionSystem.Transition Server Event) : Bool :=
  match x.label with
  | .act i .look => (x.pre.calls[i]?).all fun c => x.pre.calls.all fun d =>
      d.request.idempotencyKey ≠ c.request.idempotencyKey || !d.isPending
  | _ => true

theorem exclusive_of_eq_true {x : TransitionSystem.Transition Server Event}
    (h : exclusive x = true) : Exclusive x := by
  intro i c key hl hc hkey _ j d _ hd hdk hp
  simp only [exclusive, hl, hc, Option.all_some] at h
  have hd' := List.all_eq_true.mp h d (List.mem_of_getElem? hd)
  have hpending : d.isPending = true := by
    unfold Call.isPending
    rcases hp with hst | ⟨o, hst⟩ <;> rw [hst]
  simp only [hkey, hdk, hpending, ne_eq, not_true_eq_false, decide_false, Bool.not_true,
    Bool.or_self] at hd'
  cases hd'

/-- A client retries after its first request was dropped, and once more with another card. -/
def retryRun : List Event :=
  [.arrive (Uuid.nil) (keyed "tok_success"), .act 0 .look, .act 0 .drop,
   .arrive (Uuid.nil) (keyed "tok_success"), .act 1 .look, .act 1 (.effect "psp_1"),
   .act 1 .record,
   .arrive (Uuid.nil) (keyed "tok_card_declined"), .act 2 .look]

theorem charged_once_retryRun :
    (∀ t ∈ server.states {} retryRun, ChargedOnce t) ∧ OutcomesStay {} retryRun := by
  refine charged_once rfl retryRun ?_
  have hall : (server.steps {} retryRun).all exclusive = true := by decide +kernel
  intro x hx
  exact exclusive_of_eq_true (List.all_eq_true.mp hall x hx)

/-- Two requests with one key both miss their lookup before either is recorded. -/
def overlapRun : List Event :=
  [.arrive (Uuid.nil) (keyed "tok_success"), .arrive (Uuid.nil) (keyed "tok_success"),
   .act 0 .look, .act 1 .look, .act 0 (.effect "psp_1"), .act 1 (.effect "psp_2"),
   .act 0 .record, .act 1 .record]

/-- Both move money. -/
theorem overlap_charges_twice :
    ∃ t, server.run {} overlapRun = some t ∧ moves t.psp "k" = 2 ∧ ¬ ChargedOnce t := by
  have hrun : (server.run {} overlapRun).any (fun t => moves t.psp "k" = 2) = true := by
    decide +kernel
  obtain ⟨t, ht, htwice⟩ := (Option.any_eq_true _ _).mp hrun
  have hmoves : moves t.psp "k" = 2 := of_decide_eq_true htwice
  refine ⟨t, ht, hmoves, fun honce => ?_⟩
  have hle := honce.minted "k"
  rw [hmoves] at hle
  omega

end InvoicePayment.MockPsp
