import InvoicePayment.Lib.Columns
import InvoicePayment.Service.Changes
import InvoicePayment.Service.Rejections

/-!
# The constraints of the schema

The statements of the model check the unique indexes and the `CHECK`s they can run against, and no
foreign key. `schema_integrity` says that nothing is missed: whatever requests, dispatchers,
reconcilers and crashes do to a database that conforms to the migrations, it conforms to them
afterwards, and every row stays with the business of the row it refers to.
-/

namespace InvoicePayment.Service

open Table (ForeignKey Keeps)

variable {δ : Type} {env : Env δ} {s t : State} {lower : String → String}

/-! ## The foreign keys

Each is stated with `business_id` among its columns, which is more than the migrations ask for. -/

def fkInvoicesCustomer : ForeignKey Invoice Customer (Uuid × Uuid) where
  col i := some (i.customerId, i.businessId)
  key c := (c.id, c.businessId)

def fkLineItemsInvoice : ForeignKey LineItem Invoice Uuid where
  col li := some li.invoiceId
  key i := i.id

def fkAttemptsInvoice : ForeignKey PaymentAttempt Invoice (Uuid × Uuid) where
  col a := some (a.invoiceId, a.businessId)
  key i := (i.id, i.businessId)

def fkKeysAttempt : ForeignKey IdempotencyKey PaymentAttempt (Uuid × Uuid) where
  col k := k.attemptId.map fun id => (id, k.businessId)
  key a := (a.id, a.businessId)

def fkEventsInvoice : ForeignKey WebhookEvent Invoice (Uuid × Uuid) where
  col e := some (e.aggregateId, e.businessId)
  key i := (i.id, i.businessId)

def fkDeliveriesEvent : ForeignKey WebhookDelivery WebhookEvent (Uuid × Uuid) where
  col d := some (d.eventId, d.businessId)
  key e := (e.id, e.businessId)

def fkDeliveriesEndpoint : ForeignKey WebhookDelivery WebhookEndpoint (Uuid × Uuid) where
  col d := some (d.endpointId, d.businessId)
  key ep := (ep.id, ep.businessId)

/-! ## The constraints -/

structure PrimaryKeys (db : Db) : Prop where
  customerIds : (db.customers.map Customer.id).Nodup
  invoiceIds : (db.invoices.map Invoice.id).Nodup
  itemIds : (db.invoiceLineItems.map LineItem.id).Nodup
  attemptIds : (db.paymentAttempts.map PaymentAttempt.id).Nodup
  keyIds : (db.idempotencyKeys.map IdempotencyKey.id).Nodup
  endpointIds : (db.webhookEndpoints.map WebhookEndpoint.id).Nodup
  eventIds : (db.webhookEvents.map WebhookEvent.id).Nodup
  deliveryIds : (db.webhookDeliveries.map WebhookDelivery.id).Nodup
  apiKeyIds : (db.apiKeys.map ApiKey.id).Nodup

structure UniqueIndexes (lower : String → String) (db : Db) : Prop where
  apiKeysPrefix : uqApiKeysPrefix.Holds db.apiKeys
  customersBusinessEmail : (uqCustomersBusinessEmail lower).Holds db.customers
  activeAttemptPerInvoice : uqActiveAttemptPerInvoice.Holds db.paymentAttempts
  idempotencyBusinessKey : uqIdempotencyBusinessKey.Holds db.idempotencyKeys
  deliveryEventEndpoint : uqDeliveryEventEndpoint.Holds db.webhookDeliveries

structure References (db : Db) : Prop where
  invoiceCustomer : fkInvoicesCustomer.Holds db.invoices db.customers
  itemInvoice : fkLineItemsInvoice.Holds db.invoiceLineItems db.invoices
  attemptInvoice : fkAttemptsInvoice.Holds db.paymentAttempts db.invoices
  keyAttempt : fkKeysAttempt.Holds db.idempotencyKeys db.paymentAttempts
  eventInvoice : fkEventsInvoice.Holds db.webhookEvents db.invoices
  deliveryEvent : fkDeliveriesEvent.Holds db.webhookDeliveries db.webhookEvents
  deliveryEndpoint : fkDeliveriesEndpoint.Holds db.webhookDeliveries db.webhookEndpoints

/-- The `CHECK`s, the generated column and `last_four char(4)`. -/
structure Checks (db : Db) : Prop where
  currency : ∀ i ∈ db.invoices, i.currency = "USD"
  totalCents : ∀ i ∈ db.invoices, 0 ≤ i.totalCents.cents.toInt
  items : ∀ li ∈ db.invoiceLineItems, InvoiceService.IsItemOf li.invoiceId li
  amountCents : ∀ a ∈ db.paymentAttempts, 0 ≤ a.amountCents.toInt
  lastFour : ∀ k ∈ db.apiKeys, k.lastFour.toList.length = 4

/-- `business_id REFERENCES businesses(id)`, in every table. -/
structure Tenants (businesses : List Uuid) (db : Db) : Prop where
  customers : ∀ c ∈ db.customers, c.businessId ∈ businesses
  invoices : ∀ i ∈ db.invoices, i.businessId ∈ businesses
  attempts : ∀ a ∈ db.paymentAttempts, a.businessId ∈ businesses
  keys : ∀ k ∈ db.idempotencyKeys, k.businessId ∈ businesses
  endpoints : ∀ ep ∈ db.webhookEndpoints, ep.businessId ∈ businesses
  events : ∀ e ∈ db.webhookEvents, e.businessId ∈ businesses
  deliveries : ∀ d ∈ db.webhookDeliveries, d.businessId ∈ businesses
  apiKeys : ∀ k ∈ db.apiKeys, k.businessId ∈ businesses

/-- The database conforms to the migrations. -/
structure Conforms (businesses : List Uuid) (lower : String → String) (db : Db) : Prop extends
  PrimaryKeys db, UniqueIndexes lower db, References db, Checks db, Tenants businesses db

/-! ## What the payment invariants do not cover -/

/-- The constraints that are kept change by change; the other ones are in `Linked`, `Sound` and
`Amounts`, or follow from these. -/
structure Stored (businesses : List Uuid) (lower : String → String) (db : Db) : Prop where
  keyIds : (db.idempotencyKeys.map IdempotencyKey.id).Nodup
  endpointIds : (db.webhookEndpoints.map WebhookEndpoint.id).Nodup
  deliveryIds : (db.webhookDeliveries.map WebhookDelivery.id).Nodup
  apiKeyIds : (db.apiKeys.map ApiKey.id).Nodup
  apiKeysPrefix : uqApiKeysPrefix.Holds db.apiKeys
  customersBusinessEmail : (uqCustomersBusinessEmail lower).Holds db.customers
  deliveryEventEndpoint : uqDeliveryEventEndpoint.Holds db.webhookDeliveries
  invoiceCustomer : fkInvoicesCustomer.Holds db.invoices db.customers
  eventInvoice : fkEventsInvoice.Holds db.webhookEvents db.invoices
  deliveryEvent : fkDeliveriesEvent.Holds db.webhookDeliveries db.webhookEvents
  deliveryEndpoint : fkDeliveriesEndpoint.Holds db.webhookDeliveries db.webhookEndpoints
  currency : ∀ i ∈ db.invoices, i.currency = "USD"
  amountCents : ∀ a ∈ db.paymentAttempts, 0 ≤ a.amountCents.toInt
  lastFour : ∀ k ∈ db.apiKeys, k.lastFour.toList.length = 4
  customers : ∀ c ∈ db.customers, c.businessId ∈ businesses
  endpoints : ∀ ep ∈ db.webhookEndpoints, ep.businessId ∈ businesses
  apiKeys : ∀ k ∈ db.apiKeys, k.businessId ∈ businesses

theorem Conforms.stored {businesses : List Uuid} {db : Db} (h : Conforms businesses lower db) :
    Stored businesses lower db :=
  { h.toPrimaryKeys, h.toUniqueIndexes, h.toReferences, h.toChecks, h.toTenants with }

namespace Stored

variable {businesses : List Uuid} {db : Db}

/-- A new invoice and its event. -/
theorem invoice {now : Timestamp} {businessId : Uuid} {req : CreateInvoiceRequest} {fresh : Fresh}
    {inv : Invoice} {db' : Db} (h : Stored businesses lower db)
    (hcustomer : ∃ c ∈ db.customers, c.id = req.customerId ∧ c.businessId = businessId)
    (hcreated : InvoiceService.Created db now businessId req fresh db' inv) :
    Stored businesses lower db' := by
  obtain ⟨c, hc, hid, hbusiness⟩ := hcustomer
  have hinvoices := hcreated.invoices
  have hevents := hcreated.events
  rw [hcreated.rest]
  refine
    { h with
      invoiceCustomer := ?_
      eventInvoice := ?_
      deliveryEvent := ?_
      currency := ?_ }
  · show fkInvoicesCustomer.Holds db'.invoices db.customers
    rw [hinvoices]
    refine h.invoiceCustomer.append fun i hi k hk => ⟨c, hc, ?_⟩
    obtain rfl := List.mem_singleton.mp hi
    rw [hcreated.row] at hk
    rw [← Option.some.inj hk, ← hid, ← hbusiness]
    rfl
  · show fkEventsInvoice.Holds db'.webhookEvents db'.invoices
    rw [hinvoices, hevents]
    refine (h.eventInvoice.grow (Keeps.append _ _ _)).append fun e he k hk => ?_
    obtain rfl := List.mem_singleton.mp he
    refine ⟨inv, List.mem_append_right _ List.mem_cons_self, ?_⟩
    rw [← Option.some.inj hk, ← hcreated.business]
    rfl
  · show fkDeliveriesEvent.Holds db.webhookDeliveries db'.webhookEvents
    rw [hevents]
    exact h.deliveryEvent.grow (Keeps.append _ _ _)
  · show ∀ i ∈ db'.invoices, i.currency = "USD"
    rw [hinvoices, List.forall_mem_append]
    refine ⟨h.currency, fun i hi => ?_⟩
    obtain rfl := List.mem_singleton.mp hi
    rw [hcreated.row]

/-- A state transition of an invoice changes none of the columns that constraints are about. -/
theorem updateInvoices {p : Invoice → Bool} {f : Invoice → Invoice}
    (h : Stored businesses lower db) (hid : ∀ i, (f i).id = i.id)
    (hbusiness : ∀ i, (f i).businessId = i.businessId)
    (hcustomer : ∀ i, (f i).customerId = i.customerId)
    (hcurrency : ∀ i, (f i).currency = i.currency) :
    Stored businesses lower { db with invoices := Table.update p f db.invoices } := by
  refine { h with invoiceCustomer := ?_, eventInvoice := ?_, currency := ?_ }
  · refine h.invoiceCustomer.update fun i _ => ?_
    simp only [fkInvoicesCustomer, hcustomer, hbusiness]
  · refine h.eventInvoice.grow (Keeps.update fun i _ _ => ?_)
    simp only [fkEventsInvoice, hid, hbusiness]
  · refine Table.forall_update h.currency fun i _ _ hi => ?_
    rw [hcurrency, hi]

/-- An update of attempts does not touch their amounts. -/
theorem updateAttempts {p : PaymentAttempt → Bool} {f : PaymentAttempt → PaymentAttempt}
    (h : Stored businesses lower db) (hamount : ∀ a, (f a).amountCents = a.amountCents) :
    Stored businesses lower { db with paymentAttempts := Table.update p f db.paymentAttempts } := by
  refine { h with amountCents := ?_ }
  refine Table.forall_update h.amountCents fun a _ _ ha => ?_
  rw [hamount]
  exact ha

/-- An update of deliveries does not touch their id and their target. -/
theorem updateDeliveries {p : WebhookDelivery → Bool} {f : WebhookDelivery → WebhookDelivery}
    (h : Stored businesses lower db) (hid : ∀ d, (f d).id = d.id)
    (htarget : ∀ d, Dispatcher.target (f d) = Dispatcher.target d) :
    Stored businesses lower
      { db with webhookDeliveries := Table.update p f db.webhookDeliveries } := by
  have hevent : ∀ d, (f d).eventId = d.eventId := fun d => congrArg (·.1) (htarget d)
  have hendpoint : ∀ d, (f d).endpointId = d.endpointId := fun d => congrArg (·.2.1) (htarget d)
  have hbusiness : ∀ d, (f d).businessId = d.businessId := fun d => congrArg (·.2.2) (htarget d)
  refine
    { h with
      deliveryIds := ?_
      deliveryEventEndpoint := ?_
      deliveryEvent := ?_
      deliveryEndpoint := ?_ }
  · rw [Table.map_update WebhookDelivery.id fun d _ _ => hid d]
    exact h.deliveryIds
  · refine Table.UniqueIndex.holds_update h.deliveryEventEndpoint (fun d _ _ => ?_) fun _ _ _ _ =>
      rfl
    simp only [uqDeliveryEventEndpoint, hevent, hendpoint]
  · refine h.deliveryEvent.update fun d _ => ?_
    simp only [fkDeliveriesEvent, hevent, hbusiness]
  · refine h.deliveryEndpoint.update fun d _ => ?_
    simp only [fkDeliveriesEndpoint, hendpoint, hbusiness]

/-- So does an update of API keys. -/
theorem updateApiKeys {p : ApiKey → Bool} {f : ApiKey → ApiKey}
    (h : Stored businesses lower db) (hid : ∀ k, (f k).id = k.id)
    (hkeyPrefix : ∀ k, (f k).keyPrefix = k.keyPrefix)
    (hbusiness : ∀ k, (f k).businessId = k.businessId)
    (hlastFour : ∀ k, (f k).lastFour = k.lastFour) :
    Stored businesses lower { db with apiKeys := Table.update p f db.apiKeys } := by
  refine
    { h with
      apiKeyIds := ?_
      apiKeysPrefix := ?_
      lastFour := ?_
      apiKeys := ?_ }
  · rw [Table.map_update ApiKey.id fun k _ _ => hid k]
    exact h.apiKeyIds
  · exact Table.UniqueIndex.holds_update h.apiKeysPrefix (fun k _ _ => hkeyPrefix k)
      fun _ _ _ _ => rfl
  · refine Table.forall_update h.lastFour fun k _ _ hk => ?_
    rw [hlastFour, hk]
  · refine Table.forall_update h.apiKeys fun k _ _ hk => ?_
    rw [hbusiness]
    exact hk

/-- Fan-out adds deliveries of an event to an endpoint of its business. -/
theorem fanOut {now : Timestamp} {fresh : Fresh} {rows : List WebhookDelivery}
    (h : Stored businesses lower db)
    (hrows : Dispatcher.insertDeliveries now fresh.newId 0 (Dispatcher.fanOutPairs db now)
      db.webhookDeliveries = .ok rows) :
    Stored businesses lower { db with webhookDeliveries := rows } := by
  have hnew : ∀ d ∈ rows, d ∈ db.webhookDeliveries ∨ ∃ e ∈ db.webhookEvents,
      ∃ ep ∈ db.webhookEndpoints, ep.businessId = e.businessId ∧
        Dispatcher.target d = (e.id, ep.id, e.businessId) := by
    intro d hd
    rcases Dispatcher.mem_insertDeliveries hrows hd with hold | ⟨id, ⟨e, ep⟩, hpair, rfl⟩
    · exact .inl hold
    · obtain ⟨he, -, hep, hadmits⟩ := Dispatcher.mem_fanOutPairs.mp hpair
      exact .inr ⟨e, he, ep, hep, (Dispatcher.admits_iff.mp hadmits).1, rfl⟩
  refine
    { h with
      deliveryIds := (Dispatcher.insertDeliveries_eq_ok hrows).2 h.deliveryIds
      deliveryEventEndpoint := Dispatcher.holds_insertDeliveries hrows h.deliveryEventEndpoint
      deliveryEvent := ?_
      deliveryEndpoint := ?_ }
  · intro d hd k hk
    rcases hnew d hd with hold | ⟨e, he, ep, -, -, htarget⟩
    · exact h.deliveryEvent d hold k hk
    · refine ⟨e, he, ?_⟩
      obtain ⟨hevent, htarget⟩ := Prod.mk.inj htarget
      obtain ⟨-, hbusiness⟩ := Prod.mk.inj htarget
      rw [← Option.some.inj hk, hevent, hbusiness]
      rfl
  · intro d hd k hk
    rcases hnew d hd with hold | ⟨e, -, ep, hep, hsame, htarget⟩
    · exact h.deliveryEndpoint d hold k hk
    · refine ⟨ep, hep, ?_⟩
      obtain ⟨-, htarget⟩ := Prod.mk.inj htarget
      obtain ⟨hendpoint, hbusiness⟩ := Prod.mk.inj htarget
      rw [← Option.some.inj hk, hendpoint, hbusiness, ← hsame]
      rfl

/-- Transaction 2 writes to the rows of its job and adds an event about its invoice. -/
theorem finalize {now : Timestamp} {fresh : Fresh} {job : Job} {result : PspResult} {db' : Db}
    {o : PayOutcome} (h : Stored businesses lower db)
    (hbilled : ∃ i ∈ db.invoices, i.id = job.invoiceId ∧ i.businessId = job.businessId)
    (hfinal : PaymentService.Finalized db now fresh job result db' o) :
    Stored businesses lower db' := by
  have hkeys := hfinal.keys
  have hevents := hfinal.events
  have hinvoices : Stored businesses lower { db with invoices := db'.invoices } := by
    rw [hfinal.invoices]
    split_ifs
    · exact h.updateInvoices (fun _ => rfl) (fun _ => rfl) (fun _ => rfl) fun _ => rfl
    · exact h
  have hattempts : Stored businesses lower
      { db with invoices := db'.invoices, paymentAttempts := db'.paymentAttempts } := by
    rw [hfinal.attempts]
    refine hinvoices.updateAttempts fun a => ?_
    cases result <;> rfl
  -- the invoice of the job is still there, in the columns the event refers to
  have hbill : ∃ i ∈ db'.invoices, i.id = job.invoiceId ∧ i.businessId = job.businessId := by
    obtain ⟨i, hi, hof⟩ := hbilled
    have hbills : Bill.ofInvoice i ∈ db'.bills := by
      rw [hfinal.static.2.2]
      exact Payments.mem_bills hi
    obtain ⟨i', hi', heq⟩ := List.mem_map.mp hbills
    obtain ⟨hid, hbusiness, -⟩ := Bill.mk.inj heq
    exact ⟨i', hi', hid.trans hof.1, hbusiness.trans hof.2⟩
  rw [hfinal.rest]
  refine { hattempts with keyIds := ?_, eventInvoice := ?_, deliveryEvent := ?_ }
  · show (db'.idempotencyKeys.map IdempotencyKey.id).Nodup
    rw [hkeys]
    split_ifs
    · have hid : ∀ k, (PaymentService.completedKey o k).id = k.id := fun _ => rfl
      rw [Table.map_update IdempotencyKey.id fun k _ _ => hid k]
      exact h.keyIds
    · exact h.keyIds
  · show fkEventsInvoice.Holds db'.webhookEvents db'.invoices
    rw [hevents]
    refine hinvoices.eventInvoice.append fun e he k hk => ?_
    obtain ⟨i, hi, hid, hbusiness⟩ := hbill
    obtain ⟨t, -, rfl⟩ := List.mem_map.mp he
    refine ⟨i, hi, ?_⟩
    rw [← Option.some.inj hk]
    exact Prod.ext hid hbusiness
  · show fkDeliveriesEvent.Holds db.webhookDeliveries db'.webhookEvents
    rw [hevents]
    exact h.deliveryEvent.grow (Keeps.append _ _ _)

theorem change {asker : Option Uuid} {db' : Db} (h : Stored businesses env.lower s.db)
    (hasker : ∀ b, asker = some b → b ∈ businesses)
    (hbilled : ∀ job ∈ s.db.jobs, ∃ i ∈ s.db.invoices, i.id = job.invoiceId ∧
      i.businessId = job.businessId)
    (hchange : Change env s asker db') : Stored businesses env.lower db' := by
  cases hchange with
  | same => exact h
  | customer hbusiness hid hemail =>
    refine
      { h with
        customersBusinessEmail :=
          Table.UniqueIndex.holds_append_singleton h.customersBusinessEmail hemail
        invoiceCustomer := h.invoiceCustomer.grow (Keeps.append _ _ _)
        customers := ?_ }
    rw [List.forall_mem_append, List.forall_mem_singleton, hbusiness]
    exact ⟨h.customers, hasker _ rfl⟩
  | invoice hcustomer hcreated => exact h.invoice hcustomer hcreated
  | move =>
    exact h.updateInvoices (fun _ => rfl) (fun _ => rfl) (fun _ => rfl) fun _ => rfl
  | @claim _ fresh fp state job db hkeyId hamount hclaimed =>
    rw [hclaimed.post]
    refine { h with keyIds := ?_, amountCents := ?_ }
    · refine Table.nodup_map_append_singleton h.keyIds fun hmem => ?_
      obtain ⟨k, hk, hid⟩ := List.mem_map.mp hmem
      exact hkeyId k hk hid
    · rw [List.forall_mem_append, List.forall_mem_singleton]
      exact ⟨h.amountCents, hamount⟩
  | lease _ => exact h.updateAttempts fun _ => rfl
  | finalize hjob hfinal => exact h.finalize (hbilled _ hjob) hfinal
  | endpoint hbusiness hid =>
    refine
      { h with
        endpointIds := nodup_ids_insert h.endpointIds hid
        deliveryEndpoint := h.deliveryEndpoint.grow (Keeps.append _ _ _)
        endpoints := ?_ }
    rw [List.forall_mem_append, List.forall_mem_singleton, hbusiness]
    exact ⟨h.endpoints, hasker _ rfl⟩
  | fanOut hrows => exact h.fanOut hrows
  | batch => exact h.updateDeliveries (fun _ => rfl) fun _ => rfl
  | outcome hf => exact h.updateDeliveries hf.id hf.keys
  | redeliver => exact h.updateDeliveries (fun _ => rfl) fun _ => rfl
  | key hbusiness hlastFour hid hkeyPrefix =>
    refine
      { h with
        apiKeyIds := nodup_ids_insert h.apiKeyIds hid
        apiKeysPrefix := Table.UniqueIndex.holds_append_singleton h.apiKeysPrefix hkeyPrefix
        lastFour := ?_
        apiKeys := ?_ }
    · rw [List.forall_mem_append, List.forall_mem_singleton]
      exact ⟨h.lastFour, hlastFour⟩
    · rw [List.forall_mem_append, List.forall_mem_singleton, hbusiness]
      exact ⟨h.apiKeys, hasker _ rfl⟩
  | revoke => exact h.updateApiKeys (fun _ => rfl) (fun _ => rfl) (fun _ => rfl) fun _ => rfl
  | touch => exact h.updateApiKeys (fun _ => rfl) (fun _ => rfl) (fun _ => rfl) fun _ => rfl

end Stored

/-! ## Every run -/

/-- The payment tables keep their amounts, whoever writes to them. -/
theorem amounts_of_reachable (h : (system env).Reachable s) : Payments.Amounts s.db := by
  refine TransitionSystem.invariant_of_reachable (P := fun s => Payments.Amounts s.db) ?_ ?_ h
  · intro s₀ h₀
    constructor <;>
      simp [Db.bills, h₀.payments.lineItems, h₀.payments.invoices, h₀.payments.events]
  · intro s l t hreach hs hstep
    rcases payments_or_books hstep with ⟨pl, hpl⟩ | ⟨hbooks, -⟩
    · exact Payments.amounts_step (sound_of_reachable hreach) hs (Payments.step_effect hpl)
    · have hbills : t.db.bills = s.db.bills := by rw [Db.bills, Db.bills, hbooks.invoices]
      constructor <;> simp only [hbills, hbooks.lineItems, hbooks.events]
      · exact hs.items
      · intro b hb
        rw [hs.totals b hb, InvoiceRepo.sumAmounts, InvoiceRepo.sumAmounts, hbooks.lineItems]
      · exact hs.created
      · exact hs.events

theorem stored_of_run {businesses : List Uuid} {s₀ : State} (h₀ : Initial s₀)
    (hdb : Stored businesses env.lower s₀.db) {ls : List (Label δ)}
    (hasked : ∀ l ∈ ls, ∀ b, l.asker = some b → b ∈ businesses)
    (hrun : (system env).run s₀ ls = some s) : Stored businesses env.lower s.db := by
  have hstates := TransitionSystem.forall_states_of_steps (M := system env)
    (P := fun s => Stored businesses env.lower s.db)
    (C := fun x => ∀ b, x.label.asker = some b → b ∈ businesses) ?_
    (TransitionSystem.Reachable.of_initial h₀) hdb
    fun x (hx : x ∈ (system env).steps s₀ ls) =>
      hasked x.label (TransitionSystem.label_mem_of_mem_steps hx)
  · exact hstates s (TransitionSystem.mem_states_of_run hrun)
  · intro x hreach hpre hstep hlabel
    have hs := sound_of_reachable hreach
    refine hpre.change hlabel (fun job hjob => ?_) (step_change hs hstep)
    obtain ⟨b, hb, hof⟩ := hs.ledger.billed job hjob
    obtain ⟨i, hi, rfl⟩ := List.mem_map.mp hb
    exact ⟨i, hi, hof.id, hof.businessId⟩

/-- A total is a sum of amounts that are not negative. -/
theorem totalCents_nonneg {db : Db} (h : Payments.Amounts db) {i : Invoice} (hi : i ∈ db.invoices) :
    0 ≤ i.totalCents.cents.toInt := by
  have htotal := h.totals _ (Payments.mem_bills hi)
  rw [show (Bill.ofInvoice i).totalCents = i.totalCents.cents from rfl] at htotal
  rw [htotal, InvoiceRepo.sumAmounts]
  refine List.sum_nonneg fun n hn => ?_
  obtain ⟨li, hli, rfl⟩ := List.mem_map.mp hn
  have hitem := (h.items li (List.mem_of_mem_filter hli)).1
  rw [hitem.amount]
  exact mul_nonneg hitem.quantity.le hitem.unitAmount

/-- The attempt of a key, and the invoice of an attempt, are of the same business. -/
theorem keyAttempt_of_reachable (h : (system env).Reachable s) :
    fkKeysAttempt.Holds s.db.idempotencyKeys s.db.paymentAttempts := by
  intro k hk pair hpair
  have hlink : KeyLink.ofKey k ∈ s.db.links := List.mem_map_of_mem hk
  obtain ⟨job, hjob, hclaims⟩ := (sound_of_reachable h).ledger.keyJob _ hlink
  obtain ⟨a, ha, rfl⟩ := List.mem_map.mp hjob
  have hattempt : k.attemptId = some a.id := hclaims.attemptId
  have hbusiness : k.businessId = a.businessId := hclaims.businessId
  refine ⟨a, ha, ?_⟩
  simp only [fkKeysAttempt, hattempt, Option.map_some, hbusiness] at hpair
  exact Option.some.inj hpair

/-- The constraints of a reachable database, from the invariants that cover them. -/
theorem Stored.conforms {businesses : List Uuid} (hs : Stored businesses lower s.db)
    (h : (system env).Reachable s) : Conforms businesses lower s.db := by
  have hlinked := linked_of_reachable h
  have hamounts := amounts_of_reachable h
  have hkeyAttempt := keyAttempt_of_reachable h
  have hitems : fkLineItemsInvoice.Holds s.db.invoiceLineItems s.db.invoices := by
    rintro li hli _ ⟨⟩
    exact hlinked.itemOf li hli
  have hattempts : fkAttemptsInvoice.Holds s.db.paymentAttempts s.db.invoices := by
    rintro a ha _ ⟨⟩
    obtain ⟨i, hi, hid, hbusiness⟩ := hlinked.attemptOf a ha
    exact ⟨i, hi, Prod.ext hid hbusiness⟩
  -- along the references, every row is a row of a known business
  have hinvoices : ∀ i ∈ s.db.invoices, i.businessId ∈ businesses := by
    intro i hi
    obtain ⟨c, hc, heq⟩ := hs.invoiceCustomer i hi _ rfl
    rw [← show c.businessId = i.businessId from congrArg (·.2) heq]
    exact hs.customers c hc
  have hattemptsOf : ∀ a ∈ s.db.paymentAttempts, a.businessId ∈ businesses := by
    intro a ha
    obtain ⟨i, hi, heq⟩ := hattempts a ha _ rfl
    rw [← show i.businessId = a.businessId from congrArg (·.2) heq]
    exact hinvoices i hi
  exact
    { hs, hlinked with
      activeAttemptPerInvoice := (sound_of_reachable h).active
      idempotencyBusinessKey := hlinked.keyPairs
      itemInvoice := hitems
      attemptInvoice := hattempts
      keyAttempt := hkeyAttempt
      totalCents := fun i hi => totalCents_nonneg hamounts hi
      items := fun li hli => (hamounts.items li hli).1
      invoices := hinvoices
      attempts := hattemptsOf
      keys := by
        intro k hk
        have hlink : KeyLink.ofKey k ∈ s.db.links := List.mem_map_of_mem hk
        obtain ⟨job, hjob, hclaims⟩ := (sound_of_reachable h).ledger.keyJob _ hlink
        obtain ⟨a, ha, rfl⟩ := List.mem_map.mp hjob
        rw [show k.businessId = a.businessId from hclaims.businessId]
        exact hattemptsOf a ha
      events := by
        intro e he
        obtain ⟨i, hi, heq⟩ := hs.eventInvoice e he _ rfl
        rw [← show i.businessId = e.businessId from congrArg (·.2) heq]
        exact hinvoices i hi
      deliveries := by
        intro d hd
        obtain ⟨ep, hep, heq⟩ := hs.deliveryEndpoint d hd _ rfl
        rw [← show ep.businessId = d.businessId from congrArg (·.2) heq]
        exact hs.endpoints ep hep }

/-- Whatever the service does to a database that conforms to the migrations, for businesses that
are there, it conforms to them at every moment. -/
theorem schema_integrity {businesses : List Uuid} {s₀ : State} (h₀ : Initial s₀)
    (hdb : Conforms businesses env.lower s₀.db) {ls : List (Label δ)}
    (hasked : ∀ l ∈ ls, ∀ b, l.asker = some b → b ∈ businesses)
    (hrun : (system env).run s₀ ls = some s) : Conforms businesses env.lower s.db :=
  (stored_of_run h₀ hdb.stored hasked hrun).conforms ⟨s₀, ls, h₀, hrun⟩

/-! ## A payment with a receiver -/

/-- Business `2` registers a receiver and creates a key, is paid, and the events are fanned out. -/
def hookedRun : List (Label DefiniteChoice) :=
  .call 1 (.registerEndpoint (shopId 2) (shopId 60) [7] { url := "https://shop.example/hook" }) ::
    .call 2 (.createKey (shopId 2) (shopId 61)
      ⟨List.replicate 36 'a', List.length_replicate,
        fun _ h => (List.eq_of_mem_replicate h) ▸ rfl⟩ { name := none }) ::
    (refusedRun ++ [.dispatcher (.fanOut (shopFresh 70))])

theorem openShop_conforms : Conforms [shopId 2, shopId 3] id openShop.db := by
  have hemails : (uqCustomersBusinessEmail id).Holds openShop.db.customers := by
    refine List.pairwise_pair.mpr fun hcovers => ?_
    cases hcovers
  refine ⟨⟨openShop_initial.customers, ?_, ?_, ?_, ?_, ?_, ?_, ?_, ?_⟩,
    ⟨.nil, hemails, .nil, .nil, .nil⟩, ⟨?_, ?_, ?_, ?_, ?_, ?_, ?_⟩, ⟨?_, ?_, ?_, ?_, ?_⟩,
    ⟨by decide, ?_, ?_, ?_, ?_, ?_, ?_, ?_⟩⟩
  any_goals exact List.nodup_nil
  all_goals exact fun _ h => absurd h List.not_mem_nil

theorem schema_integrity_hookedRun :
    ∃ s, (system shopEnv).run openShop hookedRun = some s ∧
      s.db.webhookDeliveries.length = 2 ∧ Conforms [shopId 2, shopId 3] id s.db := by
  have hrun : ((system shopEnv).run openShop hookedRun).any (fun s =>
      decide (s.db.webhookDeliveries.length = 2)) = true := by decide +kernel
  obtain ⟨s, hs, hcheck⟩ := (Option.any_eq_true _ _).mp hrun
  have hasked : ∀ l ∈ hookedRun, ∀ b, l.asker = some b → b ∈ [shopId 2, shopId 3] := by
    have hall : (hookedRun.all fun l => l.asker.all fun b => decide (b ∈ [shopId 2, shopId 3])) =
        true := by decide +kernel
    intro l hl b hb
    have hl := List.all_eq_true.mp hall l hl
    rw [hb] at hl
    exact of_decide_eq_true hl
  exact ⟨s, hs, of_decide_eq_true hcheck,
    schema_integrity openShop_initial openShop_conforms hasked hs⟩

end InvoicePayment.Service
