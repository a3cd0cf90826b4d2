import InvoicePayment.Payments.Definite

/-!
# Money taken and invoice state

`finalize` marks the attempt and the invoice with two conditional `UPDATE`s and looks at
neither's row count, and an admin transition does not look at the attempts. The two tables
agree all along a run exactly when every success is recorded while its invoice is open
(`paid_iff_succeeded`); an invoice voided while its charge is in flight breaks it.
-/

namespace InvoicePayment.Payments

open PaymentService (answer settle isPending isOpen Commits)

variable {sha256 : List UInt8 → List UInt8} {s s' : State} {l : Label DefiniteChoice}

/-- The invoice says paid exactly when an attempt says succeeded, and so does an answer. -/
structure PaidAgrees (s : State) : Prop where
  paid_iff : ∀ i ∈ s.db.invoices,
    i.state = .paid ↔ ∃ a ∈ s.db.paymentAttempts, a.invoiceId = i.id ∧ a.status = .succeeded
  closed : ∀ i ∈ s.db.invoices, i.state = .void ∨ i.state = .uncollectible →
    ∀ a ∈ s.db.paymentAttempts, a.invoiceId = i.id → a.status ≠ .succeeded
  answered : ∀ w W call resp, s.workers w = some W → W.outcome = some (call, (.ok, resp)) →
    resp.invoiceState = "paid" → ∃ i ∈ s.db.invoices, i.id = resp.invoiceId ∧ i.state = .paid

/-- A success that is recorded for a pending attempt finds the invoice open. -/
def RecordsOnOpen (x : Step DefiniteChoice) : Prop :=
  ∀ w fresh W job pspRef, x.label = .work w fresh → x.pre.workers w = some W →
    W.result = some (job, .succeeded pspRef) → Commits x.pre.db fresh (.succeeded pspRef) →
    (∃ a ∈ x.pre.db.paymentAttempts, isPending job.attemptId a = true) →
    ∃ i ∈ x.pre.db.invoices, isOpen job.invoiceId i = true

/-- The direction of the agreement that can fail. -/
def SucceededPaid (s : State) : Prop :=
  ∀ a ∈ s.db.paymentAttempts, a.status = .succeeded → ∀ i ∈ s.db.invoices,
    i.id = a.invoiceId → i.state = .paid

theorem paidAgrees_iff (h : (definiteSystem sha256).Reachable s) :
    PaidAgrees s ↔ SucceededPaid s := by
  have hs := sound_of_reachable h
  have hd := settled_of_reachable definitePsp_isDefinite h
  constructor
  · intro hp a ha hst i hi hid
    exact (hp.paid_iff i hi).mpr ⟨a, ha, hid.symm, hst⟩
  · intro hp
    refine ⟨?_, ?_, ?_⟩
    · intro i hi
      constructor
      · exact hd.paid i hi
      · rintro ⟨a, ha, hinv, hst⟩
        exact hp a ha hst i hi hinv.symm
    · intro i hi hclosed a ha hinv hst
      have hpaid := hp a ha hst i hi hinv.symm
      rw [hpaid] at hclosed
      rcases hclosed with h | h <;> cases h
    · intro w W call resp hw ho hstate
      have hok : StatusCode.ok ≠ .accepted := by decide
      obtain ⟨a, ha, -, -, o, -, hcarries, hanswer⟩ := hd.answers w W call _ hw ho hok
      cases o with
      | failed code =>
        have hdeclined : StatusCode.ok ≠ .paymentRequired := by decide
        exact absurd (congrArg Prod.fst hanswer) hdeclined
      | succeeded pspRef =>
        have hresp : resp.invoiceId = a.invoiceId := by
          rw [show resp = (answer (Job.ofAttempt a) (.succeeded pspRef)).2 from
            congrArg Prod.snd hanswer]
          rfl
        obtain ⟨i, hi, hid⟩ := hs.exists_invoice ha
        exact ⟨i, hi, hid.trans hresp.symm, hp a ha hcarries.status i hi hid⟩

/-! ## One step -/

theorem succeededPaid_finalize {env : Env DefiniteChoice} (hs : Sound env s)
    (hp : SucceededPaid s) {w : WorkerId} {W : Worker} {fresh : Fresh} {job : Job} {r : PspResult}
    {db : Db} {o : PayOutcome} (hw : s.workers w = some W) (hr : W.result = some (job, r))
    (hfinal : PaymentService.Finalized s.db s.now fresh job r db o)
    (hopen : ∀ pspRef, r = .succeeded pspRef →
      (∃ a ∈ s.db.paymentAttempts, isPending job.attemptId a = true) →
      ∃ i ∈ s.db.invoices, isOpen job.invoiceId i = true) :
    ∀ a ∈ db.paymentAttempts, a.status = .succeeded → ∀ i ∈ db.invoices,
      i.id = a.invoiceId → i.state = .paid := by
  intro a' ha' hst i' hi' hid
  rw [hfinal.attempts] at ha'
  rw [hfinal.invoices] at hi'
  obtain ⟨a, ha, rfl⟩ := Table.mem_update.mp ha'
  -- an invoice that was paid stays paid
  have hkept : ∀ i ∈ s.db.invoices, i.id = i'.id → i.state = .paid → i'.state = .paid := by
    intro i hi hii' hpaid
    split_ifs at hi'
    · obtain ⟨j, hj, rfl⟩ := Table.mem_update.mp hi'
      split_ifs at hii' ⊢
      · rfl
      · rw [hs.invoice_eq hj hi hii'.symm]
        exact hpaid
    · rw [hs.invoice_eq hi' hi hii'.symm]
      exact hpaid
  split_ifs at hst hid with hpending
  · cases r with
    | succeeded pspRef =>
      obtain ⟨i, hi, hio⟩ := hopen pspRef rfl ⟨a, ha, hpending⟩
      have hinv : job.invoiceId = a.invoiceId :=
        congrArg Job.invoiceId (hs.ofAttempt_of_isPending (hs.result_job hw hr) ha hpending)
      simp only [PaymentService.eventType, if_true] at hi'
      obtain ⟨j, hj, rfl⟩ := Table.mem_update.mp hi'
      split_ifs at hid ⊢ with hjo
      · rfl
      · -- the open invoice is this one
        have hij : i = j := by
          simp only [isOpen, Bool.and_eq_true, decide_eq_true_eq] at hio
          exact hs.invoice_eq hi hj (by rw [hio.1, hinv, hid]; rfl)
        rw [hij] at hio
        exact absurd hio hjo
    | declined code => cases hst
    | unknown reason =>
      simp only [isPending, Bool.and_eq_true, decide_eq_true_eq] at hpending
      rw [settle, hpending.2] at hst
      cases hst
  · obtain ⟨i, hi, hia⟩ := hs.exists_invoice ha
    exact hkept i hi (hia.trans hid.symm) (hp a ha hst i hi hia)

theorem succeededPaid_step {env : Env DefiniteChoice} (hs : Sound env s) (hp : SucceededPaid s)
    (he : Effect env s l s') (hopen : RecordsOnOpen ⟨s, l, s'⟩) : SucceededPaid s' := by
  intro a' ha' hst i' hi' hid
  cases he with
  | create hcreated =>
    simp only [State.setDb, hcreated.attempts, hcreated.invoices, List.mem_append,
      List.mem_singleton] at ha' hi'
    rcases hi' with hi' | rfl
    · exact hp a' ha' hst i' hi' hid
    · obtain ⟨b, hb, hof⟩ := hs.ledger.billed _ (mem_jobs ha')
      exact absurd (hof.id.trans hid.symm) (id_ne_of_created hcreated hb)
  | lease _ _ =>
    obtain ⟨a, ha, rfl⟩ := Table.mem_update.mp ha'
    refine hp a ha ?_ i' hi' ?_
    · split_ifs at hst <;> exact hst
    · split_ifs at hid <;> exact hid
  | claim _ _ _ hclaimed =>
    simp only [State.setWorker, State.setDb, hclaimed.post, List.mem_append,
      List.mem_singleton] at ha' hi'
    rcases ha' with ha' | rfl
    · exact hp a' ha' hst i' hi' hid
    · cases hst
  | @finalize w fresh W W' job r db o hw hr hfinal _ =>
    refine succeededPaid_finalize hs hp hw hr hfinal ?_ a' ha' hst i' hi' hid
    intro pspRef hsuccess hpending
    subst hsuccess
    exact hopen w fresh W job pspRef rfl hw hr hfinal.commits hpending
  | @move w fresh call current db inv hw happly =>
    obtain ⟨rfl, -⟩ := InvoiceService.apply_eq_ok happly
    obtain ⟨i, hi, rfl⟩ := Table.mem_update.mp hi'
    split_ifs at hid ⊢ with hin
    · -- a paid invoice accepts no transition
      have hpaid : i.state = .paid := hp a' ha' hst i hi hid
      simp only [InvoiceRepo.isIn, Bool.and_eq_true, decide_eq_true_eq] at hin
      have hcan := hs.loaded w _ call current hw rfl
      rw [← hin.2, hpaid, InvoiceState.canTransitionTo_eq_false_of_isTerminal rfl] at hcan
      cases hcan
    · exact hp a' ha' hst i hi hid
  | _ => exact hp a' ha' hst i' hi' hid

/-- A success recorded on an invoice that is not open leaves the tables in disagreement. -/
theorem recordsOnOpen_of_succeededPaid {env : Env DefiniteChoice} (hs : Sound env s)
    (hd : Settled s) (h : step env s l = some s') (hp' : SucceededPaid s') :
    RecordsOnOpen ⟨s, l, s'⟩ := by
  intro w fresh W job pspRef hl hw hr hcommits hpending
  obtain ⟨a, ha, hpend⟩ := hpending
  obtain rfl : l = .work w fresh := hl
  obtain ⟨o, hfinal⟩ := finalized_of_commits h hw hr hcommits
  obtain ⟨i, hi, hid⟩ := hs.exists_invoice ha
  refine ⟨i, hi, ?_⟩
  by_contra hclosed
  have hi' : i ∈ s'.db.invoices := by
    rw [hfinal.invoices]
    exact Table.mem_update_of_not hi (by simpa using hclosed)
  have ha' : settle s.now (.succeeded pspRef) a ∈ s'.db.paymentAttempts := by
    rw [hfinal.attempts]
    exact Table.mem_update_of_pos ha hpend
  have hpaid : i.state = .paid := hp' _ ha' rfl i hi' hid
  -- then another attempt has already succeeded, beside the pending one
  simp only [isPending, Bool.and_eq_true, decide_eq_true_eq] at hpend
  exact hd.not_pending_of_paid hs hi hpaid ha hid.symm hpend.2

/-! ## Every run -/

/-- Along a run the invoices agree with the attempts exactly when every success recorded for a
pending attempt finds its invoice open. -/
theorem paid_iff_succeeded (sha256 : List UInt8 → List UInt8) {s : State} (h : Initial s)
    (ls : List (Label DefiniteChoice)) :
    (∀ t ∈ (definiteSystem sha256).states s ls, PaidAgrees t) ↔
      ∀ x ∈ (definiteSystem sha256).steps s ls, RecordsOnOpen x := by
  have hreach : (definiteSystem sha256).Reachable s := .of_initial h
  have hinit : SucceededPaid s := by
    intro a ha
    rw [h.attempts] at ha
    cases ha
  have hagrees : (∀ t ∈ (definiteSystem sha256).states s ls, PaidAgrees t) ↔
      ∀ t ∈ (definiteSystem sha256).states s ls, SucceededPaid t := by
    refine forall₂_congr fun t ht => ?_
    exact paidAgrees_iff (TransitionSystem.reachable_of_mem_states hreach ht)
  rw [hagrees]
  refine TransitionSystem.forall_states_iff_steps ?_ ?_ hreach hinit ls
  · intro x hx hp hstep hopen
    exact succeededPaid_step (sound_of_reachable hx) hp (step_effect hstep) hopen
  · intro x hx _ hstep hp'
    exact recordsOnOpen_of_succeededPaid (sound_of_reachable hx)
      (settled_of_reachable definitePsp_isDefinite hx) hstep hp'

/-! ## An invoice voided while its charge is in flight -/

/-- The invoice is voided between the charge request and the PSP's answer. -/
def voidRun : List (Label DefiniteChoice) :=
  openInvoice ++
    [.startPay 1 (payCall "k1" "tok_success"), .work 1 (shopFresh 0), .work 1 (shopFresh 20),
     .work 1 (shopFresh 0),
     .startAdmin 2 { businessId := shopId 2, id := shopId 10, action := .void },
     .work 2 (shopFresh 0), .work 2 (shopFresh 0),
     .serve 0 ⟨some (.succeeded "psp_1"), none⟩, .work 1 (shopFresh 30)]

/-- The tables agree along the run with the second card, and not along this one. -/
theorem paid_iff_succeeded_voidRun :
    (∀ t ∈ (definiteSystem shopSha256).states shop secondCardRun, PaidAgrees t) ∧
    ((∀ t ∈ (definiteSystem shopSha256).states shop voidRun, PaidAgrees t) ↔
      ∀ x ∈ (definiteSystem shopSha256).steps shop voidRun, RecordsOnOpen x) := by
  refine ⟨?_, paid_iff_succeeded shopSha256 shop_initial voidRun⟩
  refine (paid_iff_succeeded shopSha256 shop_initial secondCardRun).mpr ?_
  intro x hx w fresh W job pspRef hl hw hr _ _
  exact (finalizes_secondCardRun hx hl hw hr).2

/-- A void invoice with a succeeded attempt. -/
def closedButCharged (s : State) : Bool :=
  s.db.invoices.any fun i => i.state = .void && s.db.paymentAttempts.any fun a =>
    a.invoiceId = i.id && a.status = .succeeded

theorem not_paidAgrees_of_closedButCharged (h : closedButCharged s = true) : ¬ PaidAgrees s := by
  intro hp
  simp only [closedButCharged, List.any_eq_true, Bool.and_eq_true, decide_eq_true_eq] at h
  obtain ⟨i, hi, hvoid, a, ha, hinv, hst⟩ := h
  exact hp.closed i hi (.inl hvoid) a ha hinv hst

/-- The run ends with a void invoice, a succeeded attempt and a `200` that says `paid`. -/
theorem void_after_charge :
    ∃ s, (definiteSystem shopSha256).run shop voidRun = some s ∧ closedButCharged s = true ∧
      ¬ PaidAgrees s := by
  have hrun : ((definiteSystem shopSha256).run shop voidRun).any closedButCharged = true := by
    decide +kernel
  obtain ⟨s, hs, hcharged⟩ := (Option.any_eq_true _ _).mp hrun
  exact ⟨s, hs, hcharged, not_paidAgrees_of_closedButCharged hcharged⟩

end InvoicePayment.Payments
