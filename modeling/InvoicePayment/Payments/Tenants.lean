import InvoicePayment.Payments.Definite

/-!
# Recorded outcomes and the attempts they belong to

The service deduplicates on the business and the key and forwards the key alone, and the mock
PSP deduplicates on the key alone, without looking at the token or the amount. An outcome
belongs to the attempt it is recorded on as long as the PSP answers no call from the record of
another attempt (`outcomes_owned`); two businesses with one key break it.
-/

namespace InvoicePayment.Payments

variable {sha256 : List UInt8 → List UInt8} {s s' : State} {l : Label String}

/-! ## The mock PSP's record -/

namespace PspState

/-- Every recorded outcome was charged for, and every reference was minted once. -/
structure Backed (st : PspState) : Prop where
  charged : ∀ key o, st.seen key = some o →
    ∃ c ∈ st.charges, c.request.idempotencyKey = some key ∧ c.outcome = o
  minted : st.charges.Pairwise fun c d =>
    c.outcome.movesMoney = true → c.outcome ≠ d.outcome

end PspState

/-- What the mock makes of a call: the record, a refusal, or a new charge under a reference no
charge has. -/
theorem mockPsp_cases {st st' : PspState} {attemptId : Uuid} {request : ChargeRequest}
    {pspRef : String} {r : PspResult} (h : mockPsp st attemptId request pspRef = some (r, st')) :
    (st' = st ∧ ((∃ reason, r = .unknown reason) ∨
      ∃ o, MockPsp.lookup st request = some o ∧ r = o.toResult)) ∨
    ∃ o, st' = MockPsp.insert (st.execute attemptId request o) request o ∧ r = o.toResult ∧
      (o.movesMoney = true → ∀ c ∈ st.charges, c.outcome ≠ o) := by
  rcases mockPsp_eq_some h with ⟨prev, hl, hr, hst⟩ | ⟨-, hr, hst⟩ |
    ⟨o, -, he, hminted, hr, hst⟩
  · exact .inl ⟨hst, .inr ⟨prev, hl, hr⟩⟩
  · exact .inl ⟨hst, .inl ⟨_, hr⟩⟩
  · refine .inr ⟨o, hst, hr, fun hmoves c hc hco => ?_⟩
    -- a success carries the new reference
    have hfresh : o = .succeeded pspRef := MockPsp.eq_succeeded_of_moves he hmoves
    exact PspState.ne_succeeded_of_not_minted hminted hc (hco.trans hfresh)

theorem backed_mockPsp {st st' : PspState} {attemptId : Uuid} {request : ChargeRequest}
    {pspRef : String} {r : PspResult}
    (h : mockPsp st attemptId request pspRef = some (r, st')) (hb : PspState.Backed st) :
    PspState.Backed st' := by
  rcases mockPsp_cases h with ⟨rfl, -⟩ | ⟨o, rfl, -, hfresh⟩
  · exact hb
  have hcharges : (MockPsp.insert (st.execute attemptId request o) request o).charges
      = st.charges ++ [⟨attemptId, request, o⟩] := MockPsp.charges_insert _ _ _
  constructor
  · intro key' o' hseen
    rw [hcharges]
    rw [MockPsp.seen_insert] at hseen
    split_ifs at hseen with heq
    · exact ⟨⟨attemptId, request, o⟩, List.mem_append_right _ List.mem_cons_self, heq,
        Option.some.inj hseen⟩
    · obtain ⟨c, hc, hck, hco⟩ := hb.charged key' o' hseen
      exact ⟨c, List.mem_append_left _ hc, hck, hco⟩
  · rw [hcharges]
    refine List.pairwise_append.mpr ⟨hb.minted, List.pairwise_singleton _ _, ?_⟩
    intro c hc d hd hmoves hsame
    obtain rfl := List.mem_singleton.mp hd
    have hmoves' : o.movesMoney = true := by
      rw [← show c.outcome = o from hsame]
      exact hmoves
    exact hfresh hmoves' c hc hsame

theorem backed_of_reachable (h : (mockSystem sha256).Reachable s) : PspState.Backed s.psp := by
  refine TransitionSystem.invariant_of_reachable (P := fun s => PspState.Backed s.psp) ?_ ?_ h
  · intro s hs
    rw [hs.psp]
    constructor
    · intro key o hseen
      cases hseen
    · exact List.Pairwise.nil
  · intro s l t _ hb hstep
    cases step_effect hstep with
    | serve _ hserve => exact backed_mockPsp hserve hb
    | move _ happly => exact hb
    | _ => exact hb

/-- Charges with one success are one charge. -/
theorem charge_eq_of_success {st : PspState} (hb : PspState.Backed st) {c d : Charge}
    (hc : c ∈ st.charges) (hd : d ∈ st.charges) (hmoves : c.outcome.movesMoney = true)
    (hsame : c.outcome = d.outcome) : c = d := by
  by_contra hne
  have hsymm : Std.Symm fun x y : Charge =>
      x.outcome.movesMoney = true → x.outcome ≠ y.outcome :=
    { symm := fun x y hxy hy hyx => hxy (by rw [← hyx]; exact hy) hyx.symm }
  exact List.Pairwise.forall hb.minted hc hd hne hmoves hsame

/-! ## Outcomes that belong to their attempt -/

/-- The PSP has charged the attempt's own request and got the outcome. -/
def ChargedWith (s : State) (job : Job) (o : ChargeOutcome) : Prop :=
  ∃ c ∈ s.psp.charges, c.attemptId = job.attemptId ∧ c.request = job.request ∧ c.outcome = o

/-- A call answered from the record is answered with the outcome of its own attempt. -/
def AnswersOwn (x : Step String) : Prop :=
  ∀ i choice m, x.label = .serve i choice → x.pre.inFlight[i]? = some m →
    ∀ c ∈ x.pre.psp.charges, c.request.idempotencyKey = some m.job.idempotencyKey →
      c.attemptId = m.job.attemptId

/-- The recorded outcomes belong to the attempts they are recorded on. -/
structure OutcomesOwned (s : State) : Prop where
  succeeded : ∀ a ∈ s.db.paymentAttempts, a.status = .succeeded →
    ∃ c ∈ s.psp.charges, c.request.cardToken = a.cardToken ∧
      c.request.amountCents = a.amountCents ∧
      ∃ pspRef, c.outcome = .succeeded pspRef ∧ a.pspRef = some pspRef
  failed : ∀ a ∈ s.db.paymentAttempts, a.status = .failed →
    ∃ c ∈ s.psp.charges, c.request.cardToken = a.cardToken ∧ ∃ code, c.outcome = .failed code
  distinct : ∀ a ∈ s.db.paymentAttempts, ∀ b ∈ s.db.paymentAttempts, a.status = .succeeded →
    b.status = .succeeded → a.pspRef = b.pspRef → a = b

/-- The invariant behind it: results in hand and settled attempts carry their own charge's
outcome. -/
structure Owned (s : State) : Prop where
  results : ∀ w W job r, s.workers w = some W → W.result = some (job, r) →
    (∃ reason, r = .unknown reason) ∨ ∃ o, ChargedWith s job o ∧ r = o.toResult
  attempts : ∀ a ∈ s.db.paymentAttempts, a.status ≠ .pending →
    ∃ o, ChargedWith s (Job.ofAttempt a) o ∧ Carries a o

theorem outcomesOwned_of_owned (hs : Sound { sha256, psp := mockPsp } s)
    (hb : PspState.Backed s.psp) (ho : Owned s) : OutcomesOwned s := by
  have hsuccess : ∀ a ∈ s.db.paymentAttempts, a.status = .succeeded →
      ∃ pspRef, ChargedWith s (Job.ofAttempt a) (.succeeded pspRef) ∧ a.pspRef = some pspRef := by
    intro a ha hst
    obtain ⟨o, hcharged, hcarries⟩ :=
      ho.attempts a ha (by rw [hst]; exact PaymentStatus.noConfusion)
    cases o with
    | succeeded pspRef => exact ⟨pspRef, hcharged, hcarries.pspRef⟩
    | failed code => cases hst.symm.trans hcarries.status
  constructor
  · intro a ha hst
    obtain ⟨pspRef, ⟨c, hc, -, hrequest, hoc⟩, href⟩ := hsuccess a ha hst
    exact ⟨c, hc, by rw [hrequest]; rfl, by rw [hrequest]; rfl, pspRef, hoc, href⟩
  · intro a ha hst
    obtain ⟨o, ⟨c, hc, -, hrequest, hoc⟩, hcarries⟩ :=
      ho.attempts a ha (by rw [hst]; exact PaymentStatus.noConfusion)
    cases o with
    | succeeded pspRef => cases hst.symm.trans hcarries.status
    | failed code => exact ⟨c, hc, by rw [hrequest]; rfl, code, hoc⟩
  · intro a ha b hb' hsta hstb href
    obtain ⟨ra, ⟨c, hc, hca, -, hoc⟩, hra⟩ := hsuccess a ha hsta
    obtain ⟨rb, ⟨d, hd, hdb, -, hod⟩, hrb⟩ := hsuccess b hb' hstb
    obtain rfl : ra = rb := by
      rw [hra, hrb] at href
      exact Option.some.inj href
    have hcd : c = d := by
      refine charge_eq_of_success hb hc hd ?_ (hoc.trans hod.symm)
      rw [hoc]
      rfl
    refine hs.attempt_eq ha hb' ?_
    rw [hcd] at hca
    exact hca.symm.trans hdb

/-! ## One step -/

theorem ChargedWith.mono (he : Effect { sha256, psp := mockPsp } s l s') {job : Job}
    {o : ChargeOutcome} (h : ChargedWith s job o) : ChargedWith s' job o := by
  obtain ⟨c, hc, hcharge⟩ := h
  refine ⟨c, ?_, hcharge⟩
  cases he with
  | serve _ hserve =>
    rcases mockPsp_cases hserve with ⟨hsame, -⟩ | ⟨o', hpost, -, -⟩
    · rw [served_psp, hsame]
      exact hc
    · rw [served_psp, hpost, MockPsp.charges_insert]
      exact List.mem_append_left _ hc
  | _ => exact hc

/-- A served call gets the outcome of its own charge. -/
theorem chargedWith_of_serve (hs : Sound { sha256, psp := mockPsp } s) (hd : Settled s)
    (hb : PspState.Backed s.psp) {i : ℕ} {m : InFlight} {r : PspResult} {psp : PspState}
    {pspRef : String} (hm : s.inFlight[i]? = some m)
    (hserve : mockPsp s.psp m.job.attemptId m.job.request pspRef = some (r, psp))
    (hown : ∀ c ∈ s.psp.charges, c.request.idempotencyKey = some m.job.idempotencyKey →
      c.attemptId = m.job.attemptId) :
    (∃ reason, r = .unknown reason) ∨
    ∃ o, ChargedWith (served s i m r psp) m.job o ∧ r = o.toResult := by
  rcases mockPsp_cases hserve with ⟨rfl, hunknown | ⟨o, hlookup, hr⟩⟩ | ⟨o, rfl, hr, -⟩
  · exact .inl hunknown
  · -- the record is this attempt's, so its charge was of this very request
    rw [lookup_eq rfl] at hlookup
    obtain ⟨c, hc, hck, hco⟩ := hb.charged _ _ hlookup
    have hid := hown c hc hck
    obtain ⟨job, hjob, hjobId, hrequest⟩ := hd.charged c hc
    have hsame : job = m.job :=
      hs.ledger.job_eq hjob (hs.sent m (List.mem_of_getElem? hm)) (hjobId.trans hid)
    rw [hsame] at hrequest
    exact .inr ⟨o, ⟨c, hc, hid, hrequest.symm, hco⟩, hr⟩
  · refine .inr ⟨o, ⟨⟨m.job.attemptId, m.job.request, o⟩, ?_, rfl, rfl, rfl⟩, hr⟩
    rw [served_psp, MockPsp.charges_insert]
    exact List.mem_append_right _ List.mem_cons_self

theorem owned_step (hs : Sound { sha256, psp := mockPsp } s) (hd : Settled s)
    (hb : PspState.Backed s.psp) (ho : Owned s) (he : Effect { sha256, psp := mockPsp } s l s')
    (hown : AnswersOwn ⟨s, l, s'⟩) : Owned s' := by
  constructor
  · intro w W job r hw hr
    rcases he.result hw hr with ⟨W₀, hW₀, hold⟩ | hunknown |
      ⟨i, choice, m, psp, W₀, rfl, hm, rfl, hserve, rfl, hW₀, hwait, hheld⟩
    · rcases ho.results w W₀ job r hW₀ hold with hunknown | ⟨o, hcharged, hro⟩
      · exact .inl hunknown
      · exact .inr ⟨o, hcharged.mono he, hro⟩
    · exact .inl hunknown
    · obtain rfl := hs.job_eq_of_awaited (List.mem_of_getElem? hm) hW₀ hwait hheld hr
      exact chargedWith_of_serve hs hd hb hm hserve (hown i choice m rfl hm)
  · intro a' ha' hsettled
    rcases he.attempt ha' with ⟨a, ha, hjob, hst, href, hcode⟩ | hpending |
      ⟨w, W, job, r, a, hw, hr, ha, hp, rfl⟩
    · rw [hst] at hsettled
      obtain ⟨o, hcharged, hcarries⟩ := ho.attempts a ha hsettled
      refine ⟨o, ?_, ?_, ?_, ?_⟩
      · rw [hjob]
        exact hcharged.mono he
      · rw [hjob, hst]
        exact hcarries.status
      · rw [hjob, href]
        exact hcarries.pspRef
      · rw [hjob, hcode]
        exact hcarries.failureCode
    · exact absurd hpending hsettled
    · have hjob := hs.ofAttempt_of_isPending (hs.result_job hw hr) ha hp
      simp only [PaymentService.isPending, Bool.and_eq_true, decide_eq_true_eq] at hp
      rcases ho.results w W job r hw hr with ⟨reason, rfl⟩ | ⟨o, hcharged, rfl⟩
      · exact absurd hp.2 hsettled
      · rcases hd.attempt hs ha with ⟨-, href, hcode⟩ | ⟨o', -, hcarries⟩
        · refine ⟨o, ?_, carries_settle href hcode o⟩
          rw [PaymentService.ofAttempt_settle, ← hjob]
          exact hcharged.mono he
        · exact absurd hp.2 hcarries.ne_pending

/-! ## Every run -/

/-- Along a run in which every call answered from the record is answered with its own
attempt's outcome, every recorded outcome belongs to its attempt. -/
theorem outcomes_owned (sha256 : List UInt8 → List UInt8) {s : State} (h : Initial s)
    (ls : List (Label String)) (hown : ∀ x ∈ (mockSystem sha256).steps s ls, AnswersOwn x) :
    ∀ t ∈ (mockSystem sha256).states s ls, OutcomesOwned t := by
  have hreach : (mockSystem sha256).Reachable s := .of_initial h
  have hinit : Owned s := by
    constructor
    · exact fun w W job r hw => (h.no_worker hw).elim
    · simp [h.attempts]
  have howned := TransitionSystem.forall_states_of_steps (P := Owned) (C := AnswersOwn) ?_ hreach
    hinit hown
  · intro t ht
    have hrt := TransitionSystem.reachable_of_mem_states hreach ht
    exact outcomesOwned_of_owned (sound_of_reachable hrt) (backed_of_reachable hrt) (howned t ht)
  · intro x hx ho hstep hxown
    exact owned_step (sound_of_reachable hx) (settled_of_reachable mockPsp_isDefinite hx)
      (backed_of_reachable hx) ho (step_effect hstep) hxown

/-! ## Two businesses with one key -/

/-- Business `2` pays invoice `10`, and the PSP has answered. -/
def ownRun : List (Label String) :=
  openInvoice ++
    [.startPay 1 (payCall "k" "tok_success"), .work 1 (shopFresh 0), .work 1 (shopFresh 20),
     .work 1 (shopFresh 0), .serve 0 "psp_1", .work 1 (shopFresh 30)]

/-- Business `3` calls with the same key and a card that is declined. -/
def otherCall : PayCall :=
  { businessId := shopId 3, invoiceId := shopId 50, idempotencyKey := "k"
    req := ⟨"tok_card_declined"⟩ }

/-- Then business `3` pays invoice `50` under the same key. -/
def sharedKeyRun : List (Label String) :=
  ownRun ++ openInvoiceOf (shopId 3) (shopId 4) 2 50 ++
    [.startPay 3 otherCall, .work 3 (shopFresh 0), .work 3 (shopFresh 60), .work 3 (shopFresh 0),
     .serve 0 "psp_2", .work 3 (shopFresh 70)]

/-- The condition of `outcomes_owned`, checked on one step. -/
def answersOwn (x : Step String) : Bool :=
  match x.label with
  | .serve i _ =>
    match x.pre.inFlight[i]? with
    | none => true
    | some m => x.pre.psp.charges.all fun c =>
        c.request.idempotencyKey ≠ some m.job.idempotencyKey || c.attemptId = m.job.attemptId
  | _ => true

theorem answersOwn_of_eq_true {x : Step String} (h : answersOwn x = true) : AnswersOwn x := by
  intro i choice m hl hm c hc hkey
  simp only [answersOwn, hl, hm, List.all_eq_true, Bool.or_eq_true, decide_eq_true_eq] at h
  rcases h c hc with hne | hid
  · exact absurd hkey hne
  · exact hid

theorem outcomes_owned_ownRun :
    ((mockSystem shopSha256).run shop ownRun).isSome = true ∧
      ∀ t ∈ (mockSystem shopSha256).states shop ownRun, OutcomesOwned t := by
  refine ⟨by decide +kernel, outcomes_owned shopSha256 shop_initial ownRun ?_⟩
  have hall : ((mockSystem shopSha256).steps shop ownRun).all answersOwn = true := by decide +kernel
  intro x hx
  exact answersOwn_of_eq_true (List.all_eq_true.mp hall x hx)

/-- A succeeded attempt whose token the PSP never charged. -/
def succeededUncharged (s : State) : Bool :=
  s.db.paymentAttempts.any fun a =>
    a.status = .succeeded && s.psp.charges.all fun c => c.request.cardToken ≠ a.cardToken

/-- The attempt of business `3` is marked succeeded from the record of business `2`. -/
theorem succeeded_from_other_business :
    ∃ s, (mockSystem shopSha256).run shop sharedKeyRun = some s ∧ succeededUncharged s = true ∧
      ¬ OutcomesOwned s := by
  have hrun : ((mockSystem shopSha256).run shop sharedKeyRun).any succeededUncharged = true := by
    decide +kernel
  obtain ⟨s, hs, hbad⟩ := (Option.any_eq_true _ _).mp hrun
  refine ⟨s, hs, hbad, fun howned => ?_⟩
  simp only [succeededUncharged, List.any_eq_true, Bool.and_eq_true, decide_eq_true_eq,
    List.all_eq_true] at hbad
  obtain ⟨a, ha, hst, hnone⟩ := hbad
  obtain ⟨c, hc, htoken, -⟩ := howned.succeeded a ha hst
  exact hnone c hc htoken

end InvoicePayment.Payments
