import InvoicePayment.Payments.Outbox
import Mathlib.Algebra.Order.BigOperators.Group.List

/-!
# One amount everywhere

The total of an invoice is computed once, from the line items it is created with, and copied
from then on: into its `invoice.created` event, into the attempts, from there into the charge
requests and the payment events. `Amounts` is the invariant on the tables; the copies a worker
carries between its steps are covered by `Sound`.
-/

namespace InvoicePayment.Payments

open PaymentService (answer paymentEvent)

variable {δ : Type} {env : Env δ} {s s' : State} {l : Label δ}

/-! ## The amount of an event -/

/-- An `invoice.created` event of the invoice. -/
def isCreatedEvent (invoiceId : Uuid) (e : WebhookEvent) : Bool :=
  e.eventType = .invoiceCreated && e.aggregateId = invoiceId

/-- The amount in the payload of an event. -/
def eventAmount (e : WebhookEvent) : Option Int :=
  match e.eventType with
  | .invoiceCreated => e.payload.field "total_cents" JsonValue.asNum
  | _ => e.payload.field "amount_cents" JsonValue.asNum

/-- What a payment event says. -/
theorem eventAmount_paymentEvent {r : PspResult} {t : EventType}
    (ht : PaymentService.eventType r = some t) (now : Timestamp) (fresh : Fresh) (job : Job) :
    eventAmount (paymentEvent now fresh job t (answer job r).2) = some job.amountCents.toInt := by
  cases r with
  | succeeded pspRef =>
    obtain rfl : .invoicePaid = t := Option.some.inj ht
    rfl
  | declined code =>
    obtain rfl : .invoicePaymentFailed = t := Option.some.inj ht
    rfl
  | unknown reason => cases ht

/-! ## The invariant on the tables -/

/-- Every item belongs to an invoice and is worth its quantity times its unit amount; every
invoice has the total of its items and one `invoice.created` event; every event carries the
total of its invoice. -/
structure Amounts (db : Db) : Prop where
  items : ∀ li ∈ db.invoiceLineItems, InvoiceService.IsItemOf li.invoiceId li ∧
    ∃ b ∈ db.bills, b.id = li.invoiceId
  totals : ∀ b ∈ db.bills, b.totalCents.toInt = InvoiceRepo.sumAmounts db b.id
  created : ∀ b ∈ db.bills, db.webhookEvents.countP (isCreatedEvent b.id) = 1
  events : ∀ e ∈ db.webhookEvents, ∃ b ∈ db.bills, b.id = e.aggregateId ∧
    eventAmount e = some b.totalCents.toInt

/-- The sum of an invoice only depends on its own items. -/
theorem sumAmounts_append {db db' : Db} {rows : List LineItem} {id : Uuid}
    (hitems : db'.invoiceLineItems = db.invoiceLineItems ++ rows)
    (hrows : ∀ li ∈ rows, li.invoiceId ≠ id) :
    InvoiceRepo.sumAmounts db' id = InvoiceRepo.sumAmounts db id := by
  have hnone : rows.filter (fun li => li.invoiceId = id) = [] := by
    simpa using hrows
  rw [InvoiceRepo.sumAmounts, hitems, List.filter_append, hnone, List.append_nil]
  rfl

/-- A new invoice brings its own items, its total and its event. -/
theorem amounts_create {db db' : Db} {now : Timestamp} {businessId : Uuid}
    {req : CreateInvoiceRequest} {fresh : Fresh} {inv : Invoice} (h : Amounts db)
    (hcreated : InvoiceService.Created db now businessId req fresh db' inv) : Amounts db' := by
  obtain ⟨rows, hitems, hrows, htotal⟩ := hcreated.items
  have hnew : ∀ b ∈ db.bills, b.id ≠ inv.id := fun b hb => id_ne_of_created hcreated hb
  have hbills : db'.bills = db.bills ++ [Bill.ofInvoice inv] := by
    simp [Db.bills, hcreated.invoices]
  have hnewBill : Bill.ofInvoice inv ∈ db'.bills := by simp [hbills]
  have hold : ∀ b ∈ db.bills, b ∈ db'.bills := by
    intro b hb
    rw [hbills]
    exact List.mem_append_left _ hb
  constructor
  · intro li hli
    rw [hitems] at hli
    rcases List.mem_append.mp hli with hli | hli
    · obtain ⟨hitem, b, hb, hid⟩ := h.items li hli
      exact ⟨hitem, b, hold b hb, hid⟩
    · have hitem := hrows li hli
      rw [hitem.invoiceId]
      exact ⟨hitem, _, hnewBill, rfl⟩
  · intro b hb
    rw [hbills] at hb
    rcases List.mem_append.mp hb with hb | hb
    · rw [h.totals b hb, sumAmounts_append hitems]
      intro li hli hid
      exact hnew b hb (hid.symm.trans (hrows li hli).invoiceId)
    · obtain rfl := List.mem_singleton.mp hb
      exact htotal
  · intro b hb
    rw [hbills] at hb
    rw [hcreated.events, List.countP_append, List.countP_singleton]
    rcases List.mem_append.mp hb with hb | hb
    · have hother : ¬ inv.id = b.id := fun hid => hnew b hb hid.symm
      simp [h.created b hb, isCreatedEvent, hother]
    · obtain rfl := List.mem_singleton.mp hb
      -- no earlier event is about the new invoice
      have hzero : db.webhookEvents.countP (isCreatedEvent inv.id) = 0 := by
        rw [List.countP_eq_zero]
        intro e he hfor
        obtain ⟨b, hb, hid, -⟩ := h.events e he
        simp only [isCreatedEvent, Bool.and_eq_true, decide_eq_true_eq] at hfor
        exact hnew b hb (hid.trans hfor.2)
      simp [Bill.ofInvoice, hzero, isCreatedEvent]
  · intro e he
    rw [hcreated.events] at he
    rcases List.mem_append.mp he with he | he
    · obtain ⟨b, hb, hid, hamount⟩ := h.events e he
      exact ⟨b, hold b hb, hid, hamount⟩
    · obtain rfl := List.mem_singleton.mp he
      exact ⟨_, hnewBill, rfl, rfl⟩

theorem amounts_step (hs : Sound env s) (h : Amounts s.db) (he : Effect env s l s') :
    Amounts s'.db := by
  rcases he.billing with ⟨hbills, hitems, hevents⟩ | ⟨businessId, req, fresh, inv, hcreated⟩
  · have hsum : ∀ id, InvoiceRepo.sumAmounts s'.db id = InvoiceRepo.sumAmounts s.db id := by
      intro id
      rw [InvoiceRepo.sumAmounts, hitems]
      rfl
    rcases hevents with hevents | ⟨w, W, job, r, fresh, t, hw, hr, ht, hevents⟩
    · exact
        { items := by rw [hitems, hbills]; exact h.items
          totals := by simpa only [hsum, hbills] using h.totals
          created := by rw [hevents, hbills]; exact h.created
          events := by rw [hevents, hbills]; exact h.events }
    · obtain ⟨b, hb, hof⟩ := hs.ledger.billed job (hs.result_job hw hr)
      refine ⟨by rw [hitems, hbills]; exact h.items, by simpa only [hsum, hbills] using h.totals,
        ?_, ?_⟩
      · intro b hb
        rw [hbills] at hb
        have hpayment : isCreatedEvent b.id (paymentEvent s.now fresh job t (answer job r).2)
            = false := by
          cases r <;> cases ht <;> rfl
        rw [hevents, List.countP_append, h.created b hb, List.countP_singleton, hpayment]
        rfl
      · intro e he
        rw [hevents] at he
        rw [hbills]
        rcases List.mem_append.mp he with he | he
        · exact h.events e he
        · obtain rfl := List.mem_singleton.mp he
          refine ⟨b, hb, hof.id, ?_⟩
          rw [eventAmount_paymentEvent ht, hof.totalCents]
  · exact amounts_create h hcreated

theorem amounts_of_reachable (h : (system env).Reachable s) : Amounts s.db := by
  refine TransitionSystem.invariant_of_reachable (P := fun s => Amounts s.db) ?_ ?_ h
  · intro s hs
    constructor <;> simp [hs.lineItems, hs.events, Db.bills, hs.invoices]
  · intro s l t hs hp hstep
    exact amounts_step (sound_of_reachable hs) hp (step_effect hstep)

/-! ## Every run -/

/-- The line items of an invoice. -/
def itemsOf (s : State) (invoiceId : Uuid) : List LineItem :=
  s.db.invoiceLineItems.filter fun li => li.invoiceId = invoiceId

/-- The total of an invoice and everything that repeats it. -/
structure OneAmount (s : State) (i : Invoice) : Prop where
  total : i.totalCents.cents.toInt =
    ((itemsOf s i.id).map fun li => li.quantity.toInt * li.unitAmountCents.cents.toInt).sum
  nonneg : 0 ≤ i.totalCents.cents.toInt
  lt : i.totalCents.cents.toInt < 2 ^ 63
  created : s.db.webhookEvents.countP (isCreatedEvent i.id) = 1
  events : ∀ e ∈ s.db.webhookEvents, e.aggregateId = i.id →
    eventAmount e = some i.totalCents.cents.toInt
  attempts : ∀ a ∈ s.db.paymentAttempts, a.invoiceId = i.id →
    a.amountCents = i.totalCents.cents

/-- The request repeats an attempt's token and key, and the total of its invoice. -/
def ChargesAttempt (s : State) (m : InFlight) : Prop :=
  ∃ a ∈ s.db.paymentAttempts, ∃ i ∈ s.db.invoices, a.id = m.job.attemptId ∧
    a.invoiceId = i.id ∧ a.amountCents = i.totalCents.cents ∧
    m.job.request = { cardToken := a.cardToken, amountCents := i.totalCents.cents
                      idempotencyKey := some a.idempotencyKey }

theorem oneAmount_of_reachable (h : (system env).Reachable s) {i : Invoice}
    (hi : i ∈ s.db.invoices) : OneAmount s i := by
  have hs : Sound env s := sound_of_reachable h
  have hamounts := amounts_of_reachable h
  have hsum : InvoiceRepo.sumAmounts s.db i.id =
      ((itemsOf s i.id).map fun li => li.quantity.toInt * li.unitAmountCents.cents.toInt).sum := by
    rw [InvoiceRepo.sumAmounts, itemsOf]
    refine congrArg List.sum (List.map_congr_left fun li hli => ?_)
    exact (hamounts.items li (List.mem_filter.mp hli).1).1.amount
  have htotal := (hamounts.totals _ (mem_bills hi)).trans hsum
  refine ⟨htotal, ?_, i.totalCents.cents.toInt_lt, hamounts.created _ (mem_bills hi), ?_, ?_⟩
  · have hnonneg : 0 ≤ ((itemsOf s i.id).map
        fun li => li.quantity.toInt * li.unitAmountCents.cents.toInt).sum := by
      refine List.sum_nonneg fun n hn => ?_
      obtain ⟨li, hli, rfl⟩ := List.mem_map.mp hn
      have hitem := (hamounts.items li (List.mem_filter.mp hli).1).1
      exact Int.mul_nonneg (Int.le_of_lt hitem.quantity) hitem.unitAmount
    rw [← htotal] at hnonneg
    exact hnonneg
  · intro e he hid
    obtain ⟨b, hb, hb', hamount⟩ := hamounts.events e he
    obtain rfl : b = Bill.ofInvoice i := hs.ledger.bill_eq hb (mem_bills hi) (hb'.trans hid)
    exact hamount
  · intro a ha hid
    obtain ⟨b, hb, hof⟩ := hs.ledger.billed _ (mem_jobs ha)
    obtain rfl : b = Bill.ofInvoice i := hs.ledger.bill_eq hb (mem_bills hi) (hof.id.trans hid)
    exact hof.totalCents.symm

/-- Everything on its way to the PSP is the charge of an attempt. -/
theorem chargesAttempt_of_reachable (h : (system env).Reachable s) {m : InFlight}
    (hm : m ∈ s.inFlight) : ChargesAttempt s m := by
  have hs : Sound env s := sound_of_reachable h
  obtain ⟨a, ha, hjob⟩ := Sound.exists_attempt_of_job (hs.sent m hm)
  obtain ⟨i, hi, hid⟩ := hs.exists_invoice ha
  have hamount := (oneAmount_of_reachable h hi).attempts a ha hid.symm
  refine ⟨a, ha, i, hi, ?_, hid.symm, hamount, ?_⟩
  · rw [← hjob]
    rfl
  · rw [← hjob, ← hamount]
    rfl

/-- One amount everywhere, all along a run: each invoice has the total of its line items, in
range, in its one `invoice.created` event, in its attempts and in its payment events; a charge
request, seen here while it is on its way, repeats the amount, the token and the key of its
attempt; and no step changes a total. -/
theorem one_amount (env : Env δ) {s : State} (h : Initial s) (ls : List (Label δ)) :
    (∀ t ∈ (system env).states s ls,
      (∀ i ∈ t.db.invoices, OneAmount t i) ∧ ∀ m ∈ t.inFlight, ChargesAttempt t m) ∧
    ∀ x ∈ (system env).steps s ls, ∀ i ∈ x.pre.db.invoices,
      ∃ i' ∈ x.post.db.invoices, i'.id = i.id ∧ i'.totalCents = i.totalCents := by
  refine ⟨fun t ht => ?_, fun x hx i hi => ?_⟩
  · have hreach : (system env).Reachable t :=
      TransitionSystem.reachable_of_mem_states (.of_initial h) ht
    exact ⟨fun i hi => oneAmount_of_reachable hreach hi,
      fun m hm => chargesAttempt_of_reachable hreach hm⟩
  · have he := step_effect (TransitionSystem.step_of_mem_steps hx).1
    obtain ⟨i', hi', hbill⟩ := List.mem_map.mp (he.bills_mono (mem_bills hi))
    refine ⟨i', hi', congrArg Bill.id hbill, ?_⟩
    exact congrArg (fun b => Money.mk b.totalCents) hbill

theorem one_amount_doubleRun :
    ((definiteSystem shopSha256).run shop doubleRun).isSome = true ∧
    (∀ t ∈ (definiteSystem shopSha256).states shop doubleRun,
      (∀ i ∈ t.db.invoices, OneAmount t i) ∧ ∀ m ∈ t.inFlight, ChargesAttempt t m) ∧
    ∀ x ∈ (definiteSystem shopSha256).steps shop doubleRun, ∀ i ∈ x.pre.db.invoices,
      ∃ i' ∈ x.post.db.invoices, i'.id = i.id ∧ i'.totalCents = i.totalCents :=
  ⟨by decide +kernel, one_amount _ shop_initial doubleRun⟩

end InvoicePayment.Payments
