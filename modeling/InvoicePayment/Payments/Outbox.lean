import InvoicePayment.Payments.Definite

/-!
# The payment events of the outbox

`finalize` emits an event whether or not its conditional `UPDATE`s changed a row. The events
count the paid invoices and the failed attempts all along a run exactly when every definite
result is recorded for a pending attempt, a success with its invoice open (`outbox_agrees_iff`).
Two finalizations of one attempt break it.
-/

namespace InvoicePayment.Payments

open PaymentService (answer settle isPending isOpen Commits paymentEvent)

variable {δ : Type} {env : Env δ} {s s' : State} {l : Label δ}

/-! ## Events about an invoice and about an attempt -/

/-- The `attempt_id` in the payload of a payment event. -/
def attemptIdOf (e : WebhookEvent) : Option String := e.payload.field "attempt_id" JsonValue.asStr

/-- An `invoice.paid` event of the invoice. -/
def isPaidEvent (invoiceId : Uuid) (e : WebhookEvent) : Bool :=
  e.eventType = .invoicePaid && e.aggregateId = invoiceId

/-- An `invoice.payment_failed` event of the attempt. -/
def isFailedEvent (attemptId : Uuid) (e : WebhookEvent) : Bool :=
  e.eventType = .invoicePaymentFailed && attemptIdOf e = some attemptId.toString

/-- The outbox counts the paid invoices and the failed attempts, and no failure of an invoice
comes after its payment. -/
structure OutboxAgrees (s : State) : Prop where
  paid : ∀ i ∈ s.db.invoices,
    s.db.webhookEvents.countP (isPaidEvent i.id) = if i.state = .paid then 1 else 0
  failed : ∀ a ∈ s.db.paymentAttempts,
    s.db.webhookEvents.countP (isFailedEvent a.id) = if a.status = .failed then 1 else 0
  ordered : s.db.webhookEvents.Pairwise fun e f =>
    e.eventType = .invoicePaid → f.eventType = .invoicePaymentFailed →
      e.aggregateId ≠ f.aggregateId

/-- A definite result that is recorded finds its attempt pending and, if it is a success, the
invoice open. -/
def RecordsOnce (x : Step δ) : Prop :=
  ∀ w fresh W job r, x.label = .work w fresh → x.pre.workers w = some W →
    W.result = some (job, r) → (PaymentService.eventType r).isSome = true →
    Commits x.pre.db fresh r →
    (∃ a ∈ x.pre.db.paymentAttempts, isPending job.attemptId a = true) ∧
    (∀ pspRef, r = .succeeded pspRef → ∃ i ∈ x.pre.db.invoices, isOpen job.invoiceId i = true)

theorem attemptId_answer (job : Job) (r : PspResult) :
    (answer job r).2.attemptId = job.attemptId := by cases r <;> rfl

section PaymentEvent

variable (now : Timestamp) (fresh : Fresh) (job : Job) (t : EventType) (r : PspResult) (id : Uuid)

theorem attemptIdOf_paymentEvent :
    attemptIdOf (paymentEvent now fresh job t (answer job r).2) = some job.attemptId.toString := by
  rw [← attemptId_answer job r]
  rfl

theorem isPaidEvent_paymentEvent :
    isPaidEvent id (paymentEvent now fresh job t (answer job r).2) =
      (decide (t = .invoicePaid) && decide (job.invoiceId = id)) := rfl

theorem isFailedEvent_paymentEvent :
    isFailedEvent id (paymentEvent now fresh job t (answer job r).2) =
      (decide (t = .invoicePaymentFailed) && decide (job.attemptId = id)) := by
  have hid : (some job.attemptId.toString = some id.toString) ↔ job.attemptId = id := by
    rw [Option.some.injEq]
    exact ⟨Uuid.toString_injective, fun h => by rw [h]⟩
  rw [isFailedEvent, attemptIdOf_paymentEvent]
  simp only [hid]
  rfl

end PaymentEvent

/-! ## No event without its row -/

/-- Every payment event is about an invoice and an attempt that exist. -/
structure Grounded (s : State) : Prop where
  paid : ∀ e ∈ s.db.webhookEvents, e.eventType = .invoicePaid →
    ∃ b ∈ s.db.bills, b.id = e.aggregateId
  failed : ∀ e ∈ s.db.webhookEvents, e.eventType = .invoicePaymentFailed →
    ∃ job ∈ s.db.jobs, attemptIdOf e = some job.attemptId.toString

/-- A step leaves bills, items and events alone, adds the event of a result in hand, or creates
an invoice. -/
theorem Effect.billing (he : Effect env s l s') :
    (s'.db.bills = s.db.bills ∧ s'.db.invoiceLineItems = s.db.invoiceLineItems ∧
      (s'.db.webhookEvents = s.db.webhookEvents ∨
      ∃ w W job r fresh t, s.workers w = some W ∧ W.result = some (job, r) ∧
        PaymentService.eventType r = some t ∧ s'.db.webhookEvents =
          s.db.webhookEvents ++ [paymentEvent s.now fresh job t (answer job r).2])) ∨
    ∃ businessId req fresh inv,
      InvoiceService.Created s.db s.now businessId req fresh s'.db inv := by
  cases he with
  | create hcreated => exact .inr ⟨_, _, _, _, hcreated⟩
  | claim _ _ _ hclaimed =>
    rw [State.setWorker, State.setDb, hclaimed.post]
    exact .inl ⟨rfl, rfl, .inl rfl⟩
  | @finalize w fresh W W' job r db o hw hr hfinal _ =>
    refine .inl ⟨hfinal.static.2.2, by rw [State.setWorker, State.setDb, hfinal.rest], ?_⟩
    simp only [State.setWorker, State.setDb, hfinal.events, hfinal.answered]
    cases ht : PaymentService.eventType r with
    | none => exact .inl (List.append_nil _)
    | some t => exact .inr ⟨w, W, job, r, fresh, t, hw, hr, ht, rfl⟩
  | move _ happly =>
    obtain ⟨rfl, -⟩ := InvoiceService.apply_eq_ok happly
    exact .inl ⟨InvoiceService.bills_move _ _ _ _ _ _, rfl, .inl rfl⟩
  | _ => exact .inl ⟨rfl, rfl, .inl rfl⟩

/-- An event is an old one, the one of a new invoice, or the one of a definite result. -/
theorem Effect.event (he : Effect env s l s') {e : WebhookEvent}
    (h : e ∈ s'.db.webhookEvents) :
    e ∈ s.db.webhookEvents ∨ e.eventType = .invoiceCreated ∨
    ∃ w W job r fresh t, s.workers w = some W ∧ W.result = some (job, r) ∧
      e = paymentEvent s.now fresh job t (answer job r).2 := by
  rcases he.billing with
    ⟨-, -, hevents | ⟨w, W, job, r, fresh, t, hw, hr, -, hevents⟩⟩ | ⟨_, _, _, _, hcreated⟩
  · rw [hevents] at h
    exact .inl h
  · rw [hevents] at h
    rcases List.mem_append.mp h with h | h
    · exact .inl h
    · exact .inr (.inr ⟨w, W, job, r, fresh, t, hw, hr, List.mem_singleton.mp h⟩)
  · rw [hcreated.events] at h
    rcases List.mem_append.mp h with h | h
    · exact .inl h
    · rw [List.mem_singleton.mp h]
      exact .inr (.inl rfl)

theorem grounded_step (hs : Sound env s) (hg : Grounded s) (he : Effect env s l s') :
    Grounded s' := by
  constructor
  · intro e h ht
    rcases he.event h with hold | hcreated | ⟨w, W, job, r, fresh, t, hw, hr, rfl⟩
    · obtain ⟨b, hb, hid⟩ := hg.paid e hold ht
      exact ⟨b, he.bills_mono hb, hid⟩
    · rw [hcreated] at ht
      cases ht
    · obtain ⟨b, hb, hof⟩ := hs.ledger.billed job (hs.result_job hw hr)
      exact ⟨b, he.bills_mono hb, hof.id⟩
  · intro e h ht
    rcases he.event h with hold | hcreated | ⟨w, W, job, r, fresh, t, hw, hr, rfl⟩
    · obtain ⟨job, hjob, hid⟩ := hg.failed e hold ht
      exact ⟨job, he.jobs_mono hjob, hid⟩
    · rw [hcreated] at ht
      cases ht
    · exact ⟨job, he.jobs_mono (hs.result_job hw hr), attemptIdOf_paymentEvent _ _ _ _ _⟩

theorem grounded_of_reachable (h : (system env).Reachable s) : Grounded s := by
  refine TransitionSystem.invariant_of_reachable ?_ ?_ h
  · intro s hs
    constructor <;> simp [hs.events]
  · intro s l t hs hg hstep
    exact grounded_step (sound_of_reachable hs) hg (step_effect hstep)

/-- A new invoice has no `invoice.paid` event. -/
theorem countP_paid_of_new (hg : Grounded s) {id : Uuid} (hnew : ∀ b ∈ s.db.bills, b.id ≠ id) :
    s.db.webhookEvents.countP (isPaidEvent id) = 0 := by
  rw [List.countP_eq_zero]
  intro e he hpaid
  simp only [isPaidEvent, Bool.and_eq_true, decide_eq_true_eq] at hpaid
  obtain ⟨b, hb, hid⟩ := hg.paid e he hpaid.1
  exact hnew b hb (hid.trans hpaid.2)

/-- A new attempt has no `invoice.payment_failed` event. -/
theorem countP_failed_of_new (hg : Grounded s) {id : Uuid}
    (hnew : ∀ a ∈ s.db.paymentAttempts, a.id ≠ id) :
    s.db.webhookEvents.countP (isFailedEvent id) = 0 := by
  rw [List.countP_eq_zero]
  intro e he hfailed
  simp only [isFailedEvent, Bool.and_eq_true, decide_eq_true_eq] at hfailed
  obtain ⟨job, hjob, hid⟩ := hg.failed e he hfailed.1
  obtain ⟨a, ha, rfl⟩ := Sound.exists_attempt_of_job hjob
  refine hnew a ha (Uuid.toString_injective ?_)
  exact Option.some.inj (hid.symm.trans hfailed.2)

/-! ## A definite finalization -/

section Finalize

variable {w : WorkerId} {W : Worker} {fresh : Fresh} {job : Job} {r : PspResult} {db : Db}
  {o : PayOutcome}

/-- How many `invoice.paid` events a finalization adds. -/
theorem countP_paid_finalize (hfinal : PaymentService.Finalized s.db s.now fresh job r db o)
    (id : Uuid) : db.webhookEvents.countP (isPaidEvent id) =
      s.db.webhookEvents.countP (isPaidEvent id) +
        if PaymentService.eventType r = some .invoicePaid ∧ job.invoiceId = id then 1 else 0 := by
  rw [hfinal.events, hfinal.answered, List.countP_append]
  cases r with
  | succeeded pspRef =>
    simp [PaymentService.eventType, isPaidEvent_paymentEvent, List.countP_singleton]
  | declined code =>
    simp [PaymentService.eventType, isPaidEvent_paymentEvent]
  | unknown reason => simp [PaymentService.eventType]

/-- How many `invoice.payment_failed` events a finalization adds. -/
theorem countP_failed_finalize (hfinal : PaymentService.Finalized s.db s.now fresh job r db o)
    (id : Uuid) : db.webhookEvents.countP (isFailedEvent id) =
      s.db.webhookEvents.countP (isFailedEvent id) +
        if PaymentService.eventType r = some .invoicePaymentFailed ∧ job.attemptId = id then 1
        else 0 := by
  rw [hfinal.events, hfinal.answered, List.countP_append]
  cases r with
  | succeeded pspRef =>
    simp [PaymentService.eventType, isFailedEvent_paymentEvent]
  | declined code =>
    simp [PaymentService.eventType, isFailedEvent_paymentEvent, List.countP_singleton]
  | unknown reason => simp [PaymentService.eventType]

/-- A definite result recorded for a pending attempt, a success with its invoice open. -/
structure Clean (s : State) (job : Job) (r : PspResult) : Prop where
  pending : ∃ a ∈ s.db.paymentAttempts, isPending job.attemptId a = true
  opened : ∀ pspRef, r = .succeeded pspRef → ∃ i ∈ s.db.invoices, isOpen job.invoiceId i = true

theorem paid_finalize (hs : Sound env s) (hp : OutboxAgrees s)
    (hfinal : PaymentService.Finalized s.db s.now fresh job r db o)
    (hclean : (PaymentService.eventType r).isSome = true → Clean s job r) :
    ∀ i ∈ db.invoices,
      db.webhookEvents.countP (isPaidEvent i.id) = if i.state = .paid then 1 else 0 := by
  intro i' hi'
  rw [countP_paid_finalize hfinal]
  rw [hfinal.invoices] at hi'
  by_cases hevent : PaymentService.eventType r = some .invoicePaid
  · rw [if_pos hevent] at hi'
    obtain ⟨pspRef, rfl⟩ : ∃ pspRef, r = .succeeded pspRef := by
      cases r with
      | succeeded pspRef => exact ⟨pspRef, rfl⟩
      | declined _ => cases hevent
      | unknown _ => cases hevent
    obtain ⟨i₀, hi₀, hopen⟩ := (hclean rfl).opened pspRef rfl
    have hopen' := hopen
    simp only [isOpen, Bool.and_eq_true, decide_eq_true_eq] at hopen'
    obtain ⟨i, hi, rfl⟩ := Table.mem_update.mp hi'
    by_cases hid : i.id = job.invoiceId
    · -- the invoice the event is about goes from open to paid
      obtain rfl := hs.invoice_eq hi hi₀ (hid.trans hopen'.1.symm)
      have hcount := hp.paid i hi
      rw [hopen'.2, if_neg InvoiceState.noConfusion] at hcount
      have hadds : PaymentService.eventType (.succeeded pspRef) = some .invoicePaid ∧
          job.invoiceId = i.id := ⟨hevent, hid.symm⟩
      rw [if_pos hopen]
      show s.db.webhookEvents.countP (isPaidEvent i.id) +
        (if _ ∧ job.invoiceId = i.id then 1 else 0) = 1
      rw [hcount, if_pos hadds]
    · have hnot : ¬ isOpen job.invoiceId i = true := by simp [isOpen, hid]
      have hnone : ¬ (PaymentService.eventType (.succeeded pspRef) = some .invoicePaid ∧
          job.invoiceId = i.id) := fun h => hid h.2.symm
      rw [if_neg hnot, if_neg hnone, hp.paid i hi, Nat.add_zero]
  · rw [if_neg hevent] at hi'
    have hnone : ¬ (PaymentService.eventType r = some .invoicePaid ∧ job.invoiceId = i'.id) :=
      fun h => hevent h.1
    rw [if_neg hnone, hp.paid i' hi', Nat.add_zero]

theorem failed_finalize (hs : Sound env s) (hp : OutboxAgrees s)
    (hfinal : PaymentService.Finalized s.db s.now fresh job r db o)
    (hclean : (PaymentService.eventType r).isSome = true → Clean s job r) :
    ∀ a ∈ db.paymentAttempts,
      db.webhookEvents.countP (isFailedEvent a.id) = if a.status = .failed then 1 else 0 := by
  intro a' ha'
  rw [countP_failed_finalize hfinal]
  rw [hfinal.attempts] at ha'
  obtain ⟨a, ha, rfl⟩ := Table.mem_update.mp ha'
  have hcount := hp.failed a ha
  have hid : (settle s.now r a).id = a.id := by cases r <;> rfl
  by_cases hpend : isPending job.attemptId a = true
  · rw [if_pos hpend, hid, hcount]
    simp only [isPending, Bool.and_eq_true, decide_eq_true_eq] at hpend
    cases r with
    | succeeded pspRef => simp [PaymentService.eventType, settle, hpend.2]
    | declined code => simp [PaymentService.eventType, settle, hpend.1, hpend.2]
    | unknown reason => simp [PaymentService.eventType, settle, hpend.2]
  · rw [if_neg hpend, hcount]
    have hnone : ¬ (PaymentService.eventType r = some .invoicePaymentFailed ∧
        job.attemptId = a.id) := by
      rintro ⟨hevent, haid⟩
      have hsome : (PaymentService.eventType r).isSome = true := by rw [hevent]; rfl
      obtain ⟨b, hb, hbpend⟩ := (hclean hsome).pending
      have hab : b = a := by
        simp only [isPending, Bool.and_eq_true, decide_eq_true_eq] at hbpend
        exact hs.attempt_eq hb ha (hbpend.1.trans haid)
      rw [hab] at hbpend
      exact hpend hbpend
    rw [if_neg hnone, Nat.add_zero]

theorem ordered_finalize (hs : Sound env s) (hd : Settled s) (hp : OutboxAgrees s)
    (hw : s.workers w = some W) (hr : W.result = some (job, r))
    (hfinal : PaymentService.Finalized s.db s.now fresh job r db o)
    (hclean : (PaymentService.eventType r).isSome = true → Clean s job r) :
    db.webhookEvents.Pairwise fun e f =>
      e.eventType = .invoicePaid → f.eventType = .invoicePaymentFailed →
        e.aggregateId ≠ f.aggregateId := by
  rw [hfinal.events]
  cases hevent : PaymentService.eventType r with
  | none => simpa using hp.ordered
  | some t =>
    simp only [Option.toList_some, List.map_cons, List.map_nil]
    refine List.pairwise_append.mpr ⟨hp.ordered, List.pairwise_singleton _ _, ?_⟩
    intro e he f hf hpaid hfailed hsame
    obtain rfl := List.mem_singleton.mp hf
    -- a failure of an invoice that is already paid: its attempt is pending beside a succeeded one
    obtain ⟨a, ha, hpend⟩ := (hclean (by rw [hevent]; rfl)).pending
    have hinv : job.invoiceId = a.invoiceId :=
      congrArg Job.invoiceId (hs.ofAttempt_of_isPending (hs.result_job hw hr) ha hpend)
    obtain ⟨i, hi, hid⟩ := hs.exists_invoice ha
    have hcounted : 0 < s.db.webhookEvents.countP (isPaidEvent i.id) := by
      rw [List.countP_pos_iff]
      refine ⟨e, he, ?_⟩
      have hagg : e.aggregateId = i.id := by
        rw [hsame, hid, ← hinv]
        rfl
      simp [isPaidEvent, hpaid, hagg]
    have hstate : i.state = .paid := by
      by_contra hne
      rw [hp.paid i hi, if_neg hne] at hcounted
      exact Nat.lt_irrefl 0 hcounted
    simp only [isPending, Bool.and_eq_true, decide_eq_true_eq] at hpend
    exact hd.not_pending_of_paid hs hi hstate ha hid.symm hpend.2

/-- A finalization that leaves the outbox in agreement was clean. -/
theorem clean_of_outboxAgrees (hs : Sound env s) (hd : Settled s) (hp : OutboxAgrees s)
    (hp' : OutboxAgrees s') (hw : s.workers w = some W) (hr : W.result = some (job, r))
    (hfinal : PaymentService.Finalized s.db s.now fresh job r s'.db o)
    (hsome : (PaymentService.eventType r).isSome = true) : Clean s job r := by
  obtain ⟨a, ha, rfl⟩ := Sound.exists_attempt_of_job (hs.result_job hw hr)
  obtain ⟨i, hi, hid⟩ := hs.exists_invoice ha
  cases r with
  | unknown reason => cases hsome
  | declined code =>
    refine ⟨⟨a, ha, ?_⟩, fun _ h => by cases h⟩
    by_contra hpend
    have ha' : a ∈ s'.db.paymentAttempts := by
      rw [hfinal.attempts]
      exact Table.mem_update_of_not ha (by simpa using hpend)
    have hcount := hp'.failed a ha'
    have hadd : (PaymentService.eventType (.declined code) = some .invoicePaymentFailed ∧
        (Job.ofAttempt a).attemptId = a.id) := ⟨rfl, rfl⟩
    rw [countP_failed_finalize hfinal, hp.failed a ha, if_pos hadd] at hcount
    omega
  | succeeded pspRef =>
    have hadd : (PaymentService.eventType (.succeeded pspRef) = some .invoicePaid ∧
        (Job.ofAttempt a).invoiceId = i.id) := ⟨rfl, hid.symm⟩
    have hopen : isOpen (Job.ofAttempt a).invoiceId i = true := by
      by_contra hclosed
      have hi' : i ∈ s'.db.invoices := by
        rw [hfinal.invoices]
        exact Table.mem_update_of_not hi (by simpa using hclosed)
      have hcount := hp'.paid i hi'
      rw [countP_paid_finalize hfinal, hp.paid i hi, if_pos hadd] at hcount
      omega
    refine ⟨⟨a, ha, ?_⟩, fun _ _ => ⟨i, hi, hopen⟩⟩
    simp only [isOpen, Bool.and_eq_true, decide_eq_true_eq] at hopen
    -- an attempt that is not pending has succeeded, and then its invoice is not open
    rcases hd.attempt hs ha with ⟨hpending, -, -⟩ | ⟨outcome, hseen, hcarries⟩
    · simp [isPending, hpending, Job.ofAttempt]
    · rcases hd.results w W _ _ hw hr with ⟨reason, hunknown⟩ | ⟨outcome', hseen', hresult⟩
      · cases hunknown
      · obtain rfl : outcome = outcome' := Option.some.inj (hseen.symm.trans hseen')
        have hst : a.status = .succeeded := by
          rw [hcarries.succeeded_iff]
          cases outcome with
          | succeeded _ => rfl
          | failed _ => cases hresult
        exact absurd hopen.2 (hs.notOpen a ha hst i hi hid)

end Finalize

/-! ## One step -/

theorem outboxAgrees_move (hs : Sound env s) (hp : OutboxAgrees s) {w : WorkerId}
    {call : AdminCall} {current : InvoiceState}
    (hw : s.workers w = some (.admin call (.loaded current))) :
    ∀ i ∈ Table.update (InvoiceRepo.isIn call.businessId call.id current)
        (InvoiceRepo.move s.now call.action.target) s.db.invoices,
      s.db.webhookEvents.countP (isPaidEvent i.id) = if i.state = .paid then 1 else 0 := by
  intro i' hi'
  obtain ⟨i, hi, rfl⟩ := Table.mem_update.mp hi'
  by_cases hin : InvoiceRepo.isIn call.businessId call.id current i = true
  · rw [if_pos hin]
    simp only [InvoiceRepo.isIn, Bool.and_eq_true, decide_eq_true_eq] at hin
    have hcan := hs.loaded w _ call current hw rfl
    have hbefore : i.state ≠ .paid := by
      intro hpaid
      rw [← hin.2, hpaid, InvoiceState.canTransitionTo_eq_false_of_isTerminal rfl] at hcan
      cases hcan
    have hafter : call.action.target ≠ .paid := by
      cases call.action <;> exact InvoiceState.noConfusion
    have hcount := hp.paid i hi
    rw [if_neg hbefore] at hcount
    show s.db.webhookEvents.countP (isPaidEvent i.id) =
      if call.action.target = .paid then 1 else 0
    rw [hcount, if_neg hafter]
  · rw [if_neg hin]
    exact hp.paid i hi

theorem outboxAgrees_step (hs : Sound env s) (hd : Settled s) (hg : Grounded s)
    (hp : OutboxAgrees s) (he : Effect env s l s') (honce : RecordsOnce ⟨s, l, s'⟩) :
    OutboxAgrees s' := by
  cases he with
  | create hcreated =>
    constructor
    · intro i hi
      simp only [State.setDb, hcreated.invoices, hcreated.events, List.mem_append,
        List.mem_singleton, List.countP_append, List.countP_singleton] at hi ⊢
      rcases hi with hi | rfl
      · rw [hp.paid i hi]
        simp [isPaidEvent]
      · rw [countP_paid_of_new hg fun b hb => id_ne_of_created hcreated hb, hcreated.draft]
        simp [isPaidEvent]
    · intro a ha
      simp only [State.setDb, hcreated.attempts, hcreated.events, List.countP_append,
        List.countP_singleton] at ha ⊢
      rw [hp.failed a ha]
      simp [isFailedEvent]
    · simp only [State.setDb, hcreated.events]
      refine List.pairwise_append.mpr ⟨hp.ordered, List.pairwise_singleton _ _, ?_⟩
      intro e _ f hf _ hfailed
      obtain rfl := List.mem_singleton.mp hf
      cases hfailed
  | @lease w locked ids _ _ =>
    refine ⟨hp.paid, ?_, hp.ordered⟩
    intro a' ha'
    obtain ⟨a, ha, rfl⟩ := Table.mem_update.mp ha'
    by_cases hid : ids.contains a.id = true
    · rw [if_pos hid]
      exact hp.failed a ha
    · rw [if_neg hid]
      exact hp.failed a ha
  | claim _ _ _ hclaimed =>
    have hnew : ∀ b ∈ s.db.paymentAttempts, b.id ≠ (PaymentService.newAttempt _).id :=
      fun b hb => Table.UniqueIndex.ne_of_not_conflicts hclaimed.freshId rfl hb rfl
    simp only [State.setWorker, State.setDb, hclaimed.post]
    refine ⟨hp.paid, ?_, hp.ordered⟩
    intro a ha
    rcases List.mem_append.mp ha with ha | ha
    · exact hp.failed a ha
    · obtain rfl := List.mem_singleton.mp ha
      exact countP_failed_of_new hg hnew
  | @finalize w fresh W W' job r db o hw hr hfinal _ =>
    have hclean : (PaymentService.eventType r).isSome = true → Clean s job r := by
      intro hsome
      obtain ⟨hpending, hopened⟩ := honce w fresh W job r rfl hw hr hsome hfinal.commits
      exact ⟨hpending, hopened⟩
    exact ⟨paid_finalize hs hp hfinal hclean, failed_finalize hs hp hfinal hclean,
      ordered_finalize hs hd hp hw hr hfinal hclean⟩
  | move hw happly =>
    obtain ⟨rfl, -⟩ := InvoiceService.apply_eq_ok happly
    exact ⟨outboxAgrees_move hs hp hw, hp.failed, hp.ordered⟩
  | _ => exact ⟨hp.paid, hp.failed, hp.ordered⟩

/-! ## Every run -/

/-- Along a run the outbox agrees with the tables exactly when every definite result recorded
finds its attempt pending, and a success its invoice open. -/
theorem outbox_agrees_iff (sha256 : List UInt8 → List UInt8) {s : State} (h : Initial s)
    (ls : List (Label DefiniteChoice)) :
    (∀ t ∈ (definiteSystem sha256).states s ls, OutboxAgrees t) ↔
      ∀ x ∈ (definiteSystem sha256).steps s ls, RecordsOnce x := by
  have hinit : OutboxAgrees s := by
    constructor <;> simp [h.invoices, h.attempts, h.events]
  refine TransitionSystem.forall_states_iff_steps ?_ ?_ (.of_initial h) hinit ls
  · intro x hx hp hstep honce
    exact outboxAgrees_step (sound_of_reachable hx)
      (settled_of_reachable definitePsp_isDefinite hx) (grounded_of_reachable hx) hp
      (step_effect hstep) honce
  · intro x hx hp hstep hp' w fresh W job r hl hw hr hsome hcommits
    rw [hl] at hstep
    obtain ⟨o, hfinal⟩ := finalized_of_commits hstep hw hr hcommits
    have hclean := clean_of_outboxAgrees (sound_of_reachable hx)
      (settled_of_reachable definitePsp_isDefinite hx) hp hp' hw hr hfinal hsome
    exact ⟨hclean.pending, hclean.opened⟩

/-! ## An attempt finalized twice -/

/-- A reconciler leases the attempt while its handler is calling the PSP; both read the success
and both finalize. -/
def doubleRun : List (Label DefiniteChoice) :=
  openInvoice ++
    [.startPay 1 (payCall "k1" "tok_success"), .work 1 (shopFresh 0), .work 1 (shopFresh 20),
     .work 1 (shopFresh 0),
     .tick 2 [] [shopId 21], .work 2 (shopFresh 0),
     .serve 0 ⟨some (.succeeded "psp_1"), none⟩, .serve 0 ⟨some (.succeeded "psp_1"), none⟩,
     .work 1 (shopFresh 30), .work 2 (shopFresh 40)]

/-- The outbox agrees with the tables along the run with the second card, and not along this
one. -/
theorem outbox_agrees_iff_doubleRun :
    (∀ t ∈ (definiteSystem shopSha256).states shop secondCardRun, OutboxAgrees t) ∧
    ((∀ t ∈ (definiteSystem shopSha256).states shop doubleRun, OutboxAgrees t) ↔
      ∀ x ∈ (definiteSystem shopSha256).steps shop doubleRun, RecordsOnce x) := by
  refine ⟨?_, outbox_agrees_iff shopSha256 shop_initial doubleRun⟩
  refine (outbox_agrees_iff shopSha256 shop_initial secondCardRun).mpr ?_
  intro x hx w fresh W job r hl hw hr _ _
  obtain ⟨hpending, hopen⟩ := finalizes_secondCardRun hx hl hw hr
  exact ⟨hpending, fun _ _ => hopen⟩

/-- Two `invoice.paid` events of one invoice. -/
def paidTwice (s : State) : Bool :=
  s.db.invoices.any fun i => s.db.webhookEvents.countP (isPaidEvent i.id) = 2

/-- The run ends with two `invoice.paid` events of one invoice. -/
theorem paid_event_twice :
    ∃ s, (definiteSystem shopSha256).run shop doubleRun = some s ∧ paidTwice s = true ∧
      ¬ OutboxAgrees s := by
  have hrun : ((definiteSystem shopSha256).run shop doubleRun).any paidTwice = true := by
    decide +kernel
  obtain ⟨s, hs, htwice⟩ := (Option.any_eq_true _ _).mp hrun
  refine ⟨s, hs, htwice, fun hp => ?_⟩
  obtain ⟨i, hi, hcount⟩ := List.any_eq_true.mp htwice
  have hagrees := hp.paid i hi
  rw [of_decide_eq_true hcount] at hagrees
  split_ifs at hagrees
  omega

end InvoicePayment.Payments
