import InvoicePayment.Payments.Amounts
import InvoicePayment.Service.System
import InvoicePayment.Webhooks.Effects

/-!
# The links between the rows

What every reachable database keeps, whoever writes to it: ids are unique, a line item has its
invoice, an attempt has an invoice of its own business. The payment tables are written by the
steps of the payment system and by the creation of an invoice only, so `Payments.Sound` carries
over to the service.
-/

namespace InvoicePayment

/-! ## New rows -/

theorem map_eq_ok {ε α β : Type} {x : Except ε α} {f : α → β} {b : β}
    (h : x.map f = .ok b) : ∃ a, x = .ok a ∧ f a = b := by
  cases x with
  | error e => cases h
  | ok a => exact ⟨a, rfl, Except.ok.inj h⟩

/-- The ids of a table stay unique when a row is inserted that does not conflict. -/
theorem nodup_ids_insert {α : Type} {id : α → Uuid} {t : List α} {r : α} (h : (t.map id).Nodup)
    (hr : (primaryKey id).conflicts t r = false) : ((t ++ [r]).map id).Nodup :=
  Table.nodup_map_append_singleton h
    (Table.UniqueIndex.not_mem_keys_of_not_conflicts (fun _ => rfl) hr)

/-- A new customer has a new id. -/
theorem CustomerService.create_eq_ok {lower : String → String} {db db' : Db} {now : Timestamp}
    {id businessId : Uuid} {req : CreateCustomerRequest} {resp : CustomerResponse}
    (h : create lower db now id businessId req = .ok (db', resp)) :
    ∃ c : Customer, (primaryKey Customer.id).conflicts db.customers c = false ∧
      db' = { db with customers := db.customers ++ [c] } := by
  unfold create at h
  split at h
  · cases h
  · split at h
    · rename_i db₁ c hinsert
      obtain ⟨rfl, -⟩ := Prod.mk.inj (Except.ok.inj h)
      unfold CustomerRepo.insert at hinsert
      dsimp only at hinsert
      split_ifs at hinsert with htext hconflict
      obtain ⟨rfl, rfl⟩ := Prod.mk.inj (Except.ok.inj hinsert)
      rw [not_or, Bool.not_eq_true] at hconflict
      exact ⟨_, hconflict.1, rfl⟩
    · cases h

/-- The creation of a key writes keys only. -/
theorem ApiKeys.db_of_create {sha256 : List UInt8 → List UInt8} {db db' : Db} {now : Timestamp}
    {id businessId : Uuid} {random : Auth.RandomBody} {req : CreateApiKeyRequest}
    {resp : CreateApiKeyResponse}
    (h : create sha256 db now id random businessId req = .ok (db', resp)) :
    ∃ rows, db' = { db with apiKeys := rows } := by
  unfold create at h
  dsimp only at h
  split at h
  · cases h
  · rename_i db₁ id' hinsert
    obtain ⟨rfl, -⟩ := Prod.mk.inj (Except.ok.inj h)
    unfold ApiKeyRepo.insert at hinsert
    dsimp only at hinsert
    split_ifs at hinsert
    obtain ⟨rfl, -⟩ := Prod.mk.inj (Except.ok.inj hinsert)
    exact ⟨_, rfl⟩

/-- So does a revocation. -/
theorem ApiKeys.db_of_revoke {db db' : Db} {now : Timestamp} {businessId id : Uuid}
    (h : revoke db now businessId id = .ok db') : ∃ rows, db' = { db with apiKeys := rows } := by
  unfold revoke ApiKeyRepo.revoke at h
  split at h
  · rename_i heq
    obtain rfl := Except.ok.inj h
    obtain ⟨rfl, -⟩ := Prod.mk.inj heq
    exact ⟨_, rfl⟩
  · cases h

namespace InvoiceService

theorem itemIds_insertLineItem {db db' : Db} {id invoiceId : Uuid} {li : CreateLineItem}
    {pos : Int} (h : InvoiceRepo.insertLineItem db id invoiceId li pos = .ok db')
    (hdb : (db.invoiceLineItems.map LineItem.id).Nodup) :
    (db'.invoiceLineItems.map LineItem.id).Nodup := by
  unfold InvoiceRepo.insertLineItem at h
  split at h
  · cases h
  split at h
  · cases h
  split at h
  · cases h
  dsimp only at h
  split_ifs at h with hconflict
  obtain rfl := Except.ok.inj h
  exact nodup_ids_insert hdb (by simpa using hconflict)

theorem itemIds_insertLineItems {newId : ℕ → Uuid} {invoiceId : Uuid}
    {items : List CreateLineItem} {pos : ℕ} {db db' : Db}
    (h : insertLineItems newId invoiceId pos items db = .ok db')
    (hdb : (db.invoiceLineItems.map LineItem.id).Nodup) :
    (db'.invoiceLineItems.map LineItem.id).Nodup := by
  induction items generalizing pos db with
  | nil =>
    obtain rfl := Except.ok.inj h
    exact hdb
  | cons li rest ih =>
    simp only [insertLineItems] at h
    split at h
    · cases h
    · rename_i db₁ hli
      exact ih h (itemIds_insertLineItem hli hdb)

theorem itemIds_create {db db' : Db} {now : Timestamp} {businessId : Uuid}
    {req : CreateInvoiceRequest} {fresh : Fresh} {resp : InvoiceResponse}
    (h : create db now businessId req fresh = .ok (db', resp))
    (hdb : (db.invoiceLineItems.map LineItem.id).Nodup) :
    (db'.invoiceLineItems.map LineItem.id).Nodup := by
  unfold create at h
  split at h
  · cases h
  split_ifs at h
  cases htx : createTx db now businessId req fresh with
  | error e => simp [htx, orRaise] at h
  | ok p =>
    obtain rfl : p = (db', resp) := by simpa [htx, orRaise] using h
    unfold createTx at htx
    obtain ⟨⟨db₁, inv⟩, hinv, htx⟩ := bind_eq_ok htx
    obtain ⟨db₂, hitems, htx⟩ := bind_eq_ok htx
    obtain ⟨⟨db₃, total⟩, hsync, htx⟩ := bind_eq_ok htx
    obtain ⟨db₄, hemit, htx⟩ := bind_eq_ok htx
    obtain ⟨-, -, rfl⟩ := insertInvoice_eq_ok hinv
    have hids := itemIds_insertLineItems hitems hdb
    obtain ⟨-, rfl⟩ := syncTotal_eq_ok hsync
    obtain ⟨-, rfl⟩ := WebhookService.emitEvent_eq_ok hemit
    obtain ⟨rfl, -⟩ := Prod.mk.inj (Except.ok.inj htx)
    exact hids

end InvoiceService

namespace Service

variable {δ : Type} {env : Env δ} {s t : State} {l : Label δ}

/-! ## Who writes the payment tables -/

/-- The tables the payments are kept in are the same. -/
structure SameBooks (db db' : Db) : Prop where
  invoices : db'.invoices = db.invoices
  lineItems : db'.invoiceLineItems = db.invoiceLineItems
  attempts : db'.paymentAttempts = db.paymentAttempts
  keys : db'.idempotencyKeys = db.idempotencyKeys
  events : db'.webhookEvents = db.webhookEvents

theorem SameBooks.refl (db : Db) : SameBooks db db := ⟨rfl, rfl, rfl, rfl, rfl⟩

/-- A dispatcher writes deliveries only. -/
theorem db_of_isDispatcher {maxAttempts : Int} {h h' : Webhooks.State} {l : Webhooks.Label}
    (hl : isDispatcher l = true) (hstep : Webhooks.step maxAttempts h l = some h') :
    ∃ rows, h'.db = { h.db with webhookDeliveries := rows } := by
  cases Webhooks.step_effect hstep with
  | advance _ => cases hl
  | register _ => cases hl
  | emit _ => cases hl
  | redeliver _ => cases hl
  | fanOut hfanOut =>
    obtain ⟨rows, -, rfl⟩ := Dispatcher.fanOut_eq_ok hfanOut
    exact ⟨rows, rfl⟩
  | claim _ _ hclaim _ =>
    rw [Dispatcher.claim_eq_ok hclaim]
    exact ⟨_, rfl⟩
  | release _ _ _ => exact ⟨h.db.webhookDeliveries, rfl⟩
  | write _ _ _ hsend =>
    obtain ⟨f, -, rfl⟩ := Dispatcher.sendOne_eq_ok hsend
    exact ⟨_, rfl⟩

/-- Of the requests served by one transaction, the creation of an invoice alone writes to the
books. -/
theorem Call.books {db db' : Db} {now : Timestamp} {req : Call} {a : Answer}
    (h : req.perform env db now = .ok (db', a)) :
    SameBooks db db' ∨ ∃ businessId body fresh resp,
      InvoiceService.create db now businessId body fresh = .ok (db', resp) := by
  cases req with
  | createCustomer businessId id body =>
    obtain ⟨⟨db₁, resp⟩, hcreate, heq⟩ := map_eq_ok h
    obtain ⟨rfl, -⟩ := Prod.mk.inj heq
    obtain ⟨c, -, rfl⟩ := CustomerService.create_eq_ok hcreate
    exact .inl ⟨rfl, rfl, rfl, rfl, rfl⟩
  | createInvoice businessId body fresh =>
    obtain ⟨⟨db₁, resp⟩, hcreate, heq⟩ := map_eq_ok h
    obtain ⟨rfl, -⟩ := Prod.mk.inj heq
    exact .inr ⟨_, _, _, _, hcreate⟩
  | registerEndpoint businessId id secret body =>
    obtain ⟨⟨db₁, resp⟩, hcreate, heq⟩ := map_eq_ok h
    obtain ⟨rfl, -⟩ := Prod.mk.inj heq
    obtain rfl := WebhookService.registerEndpoint_eq_ok hcreate
    exact .inl ⟨rfl, rfl, rfl, rfl, rfl⟩
  | redeliver businessId deliveryId =>
    obtain ⟨db₁, hredeliver, heq⟩ := map_eq_ok h
    obtain ⟨rfl, -⟩ := Prod.mk.inj heq
    obtain ⟨-, rfl⟩ := WebhookService.redeliver_eq_ok hredeliver
    exact .inl ⟨rfl, rfl, rfl, rfl, rfl⟩
  | createKey businessId id random body =>
    obtain ⟨⟨db₁, resp⟩, hcreate, heq⟩ := map_eq_ok h
    obtain ⟨rfl, -⟩ := Prod.mk.inj heq
    obtain ⟨rows, rfl⟩ := ApiKeys.db_of_create hcreate
    exact .inl ⟨rfl, rfl, rfl, rfl, rfl⟩
  | revokeKey businessId id =>
    obtain ⟨db₁, hrevoke, heq⟩ := map_eq_ok h
    obtain ⟨rfl, -⟩ := Prod.mk.inj heq
    obtain ⟨rows, rfl⟩ := ApiKeys.db_of_revoke hrevoke
    exact .inl ⟨rfl, rfl, rfl, rfl, rfl⟩

/-- A step of the service is a step of the payment system, or it leaves the books and the
workers. -/
theorem payments_or_books (h : step env s l = some t) :
    (∃ pl, Payments.step env.toEnv s.toState pl = some t.toState) ∨
    (SameBooks s.db t.db ∧ t.workers = s.workers ∧ t.inFlight = s.inFlight ∧
      t.nextCall = s.nextCall) := by
  cases l with
  | payments pl =>
    obtain ⟨p, hp, rfl⟩ := Option.map_eq_some_iff.mp h
    exact .inl ⟨pl, hp⟩
  | dispatcher l =>
    simp only [step] at h
    split_ifs at h with hl
    obtain ⟨hooks, hhooks, rfl⟩ := Option.map_eq_some_iff.mp h
    obtain ⟨rows, hrows⟩ := db_of_isDispatcher hl hhooks
    refine .inr ⟨?_, rfl, rfl, rfl⟩
    rw [show (s.withHooks hooks).db = { s.db with webhookDeliveries := rows } from hrows]
    exact ⟨rfl, rfl, rfl, rfl, rfl⟩
  | call c req =>
    simp only [step, callStep] at h
    split at h
    · cases h
    · split at h
      · obtain rfl := Option.some.inj h
        exact .inr ⟨.refl _, rfl, rfl, rfl⟩
      · rename_i db a hperform
        obtain rfl := Option.some.inj h
        rcases Call.books hperform with hbooks | ⟨businessId, body, fresh, resp, hcreate⟩
        · exact .inr ⟨hbooks, rfl, rfl, rfl⟩
        · refine .inl ⟨.create businessId body fresh, ?_⟩
          simp only [Payments.step, hcreate]
          rfl
  | touch keyPrefix =>
    obtain rfl := Option.some.inj h
    exact .inr ⟨⟨rfl, rfl, rfl, rfl, rfl⟩, rfl, rfl, rfl⟩

/-- The payment invariant looks at the books and the workers only. -/
theorem sound_of_books {penv : Payments.Env δ} {p q : Payments.State} (h : Payments.Sound penv p)
    (hbooks : SameBooks p.db q.db) (hworkers : q.workers = p.workers)
    (hinFlight : q.inFlight = p.inFlight) (hnextCall : q.nextCall = p.nextCall) :
    Payments.Sound penv q := by
  have hjobs : q.db.jobs = p.db.jobs := by rw [Db.jobs, Db.jobs, hbooks.attempts]
  have hlinks : q.db.links = p.db.links := by rw [Db.links, Db.links, hbooks.keys]
  have hbills : q.db.bills = p.db.bills := by rw [Db.bills, Db.bills, hbooks.invoices]
  constructor <;>
    simp only [hjobs, hlinks, hbills, hbooks.attempts, hbooks.invoices, hworkers, hinFlight,
      hnextCall]
  · exact h.ledger
  · exact h.active
  · exact h.notDraft
  · exact h.notOpen
  · exact h.held
  · exact h.sent
  · exact h.callIds
  · exact h.waits
  · exact h.awaited
  · exact h.read
  · exact h.opened
  · exact h.replaying
  · exact h.charging
  · exact h.loaded

theorem sound_of_reachable (h : (system env).Reachable s) :
    Payments.Sound env.toEnv s.toState := by
  refine TransitionSystem.invariant_of_reachable
    (P := fun s => Payments.Sound env.toEnv s.toState) ?_ ?_ h
  · intro s₀ h₀
    exact Payments.sound_initial h₀.payments
  · intro s l t _ hs hstep
    rcases payments_or_books hstep with ⟨pl, hpl⟩ | ⟨hbooks, hworkers, hinFlight, hnextCall⟩
    · exact hs.step (Payments.step_effect hpl)
    · exact sound_of_books hs hbooks hworkers hinFlight hnextCall

/-! ## The links -/

/-- What every reachable database keeps. -/
structure Linked (db : Db) : Prop where
  customerIds : (db.customers.map Customer.id).Nodup
  invoiceIds : (db.invoices.map Invoice.id).Nodup
  itemIds : (db.invoiceLineItems.map LineItem.id).Nodup
  itemOf : ∀ li ∈ db.invoiceLineItems, ∃ i ∈ db.invoices, i.id = li.invoiceId
  attemptIds : (db.paymentAttempts.map PaymentAttempt.id).Nodup
  attemptOf : ∀ a ∈ db.paymentAttempts, ∃ i ∈ db.invoices, i.id = a.invoiceId ∧
    i.businessId = a.businessId
  keyPairs : uqIdempotencyBusinessKey.Holds db.idempotencyKeys
  eventIds : (db.webhookEvents.map WebhookEvent.id).Nodup

/-- The part of it that the payment invariant does not speak about. -/
structure Filed (db : Db) : Prop where
  customerIds : (db.customers.map Customer.id).Nodup
  itemIds : (db.invoiceLineItems.map LineItem.id).Nodup
  itemOf : ∀ li ∈ db.invoiceLineItems, ∃ b ∈ db.bills, b.id = li.invoiceId
  eventIds : (db.webhookEvents.map WebhookEvent.id).Nodup

theorem Filed.of_books {db db' : Db} (h : Filed db) (hbooks : SameBooks db db')
    (hcustomers : (db'.customers.map Customer.id).Nodup) : Filed db' := by
  have hbills : db'.bills = db.bills := by rw [Db.bills, Db.bills, hbooks.invoices]
  refine ⟨hcustomers, ?_, ?_, ?_⟩
  · rw [hbooks.lineItems]
    exact h.itemIds
  · rw [hbooks.lineItems, hbills]
    exact h.itemOf
  · rw [hbooks.events]
    exact h.eventIds

/-- A new invoice comes with the links of its items. -/
theorem Filed.create {db db' : Db} {now : Timestamp} {businessId : Uuid}
    {req : CreateInvoiceRequest} {fresh : Fresh} {resp : InvoiceResponse} (h : Filed db)
    (hcreate : InvoiceService.create db now businessId req fresh = .ok (db', resp)) :
    Filed db' := by
  obtain ⟨inv, hcreated⟩ := InvoiceService.create_eq_ok hcreate
  obtain ⟨rows, hitems, hrows, -⟩ := hcreated.items
  have hbills : db'.bills = db.bills ++ [Bill.ofInvoice inv] := by
    simp [Db.bills, hcreated.invoices]
  refine ⟨?_, InvoiceService.itemIds_create hcreate h.itemIds, fun li hli => ?_, ?_⟩
  · rw [hcreated.rest]
    exact h.customerIds
  · rw [hitems] at hli
    rw [hbills]
    rcases List.mem_append.mp hli with hli | hli
    · obtain ⟨b, hb, hid⟩ := h.itemOf li hli
      exact ⟨b, List.mem_append_left _ hb, hid⟩
    · exact ⟨_, List.mem_append_right _ List.mem_cons_self, (hrows li hli).invoiceId.symm⟩
  · rw [hcreated.events]
    refine Table.nodup_map_append_singleton h.eventIds fun hmem => ?_
    obtain ⟨e, he, hid⟩ := List.mem_map.mp hmem
    exact hcreated.eventId e he hid

/-- No other step of the payment system writes to these tables, but for the events of definite
results, which have new ids. -/
theorem Filed.of_effect {penv : Payments.Env δ} {p q : Payments.State} {pl : Payments.Label δ}
    (h : Filed p.db) (he : Payments.Effect penv p pl q)
    (hcreate : ∀ businessId req fresh, pl ≠ .create businessId req fresh) : Filed q.db := by
  cases he with
  | advance _ => exact ⟨h.customerIds, h.itemIds, h.itemOf, h.eventIds⟩
  | create _ => exact absurd rfl (hcreate _ _ _)
  | lease _ _ => exact ⟨h.customerIds, h.itemIds, h.itemOf, h.eventIds⟩
  | quiet _ _ => exact ⟨h.customerIds, h.itemIds, h.itemOf, h.eventIds⟩
  | send _ _ _ => exact ⟨h.customerIds, h.itemIds, h.itemOf, h.eventIds⟩
  | claim _ _ _ hclaimed =>
    rw [Payments.State.setWorker, Payments.State.setDb, hclaimed.post]
    exact ⟨h.customerIds, h.itemIds, h.itemOf, h.eventIds⟩
  | replay _ => exact ⟨h.customerIds, h.itemIds, h.itemOf, h.eventIds⟩
  | serve _ _ => exact ⟨h.customerIds, h.itemIds, h.itemOf, h.eventIds⟩
  | @finalize w fresh W W' job result db o hw hresult hfinal _ =>
    have hbills : db.bills = p.db.bills := hfinal.static.2.2
    have hcustomers : db.customers = p.db.customers := by rw [hfinal.rest]
    have hitems : db.invoiceLineItems = p.db.invoiceLineItems := by rw [hfinal.rest]
    have hevents : (db.webhookEvents.map WebhookEvent.id).Nodup := by
      rw [hfinal.events]
      cases result with
      | unknown reason =>
        rw [show (PaymentService.eventType (.unknown reason)).toList = [] from rfl, List.map_nil,
          List.append_nil]
        exact h.eventIds
      | succeeded pspRef =>
        refine Table.nodup_map_append_singleton h.eventIds fun hmem => ?_
        obtain ⟨e, he, hid⟩ := List.mem_map.mp hmem
        exact hfinal.commits.2 e he hid
      | declined code =>
        refine Table.nodup_map_append_singleton h.eventIds fun hmem => ?_
        obtain ⟨e, he, hid⟩ := List.mem_map.mp hmem
        exact hfinal.commits.2 e he hid
    refine ⟨?_, ?_, ?_, hevents⟩
    · show (db.customers.map Customer.id).Nodup
      rw [hcustomers]
      exact h.customerIds
    · show (db.invoiceLineItems.map LineItem.id).Nodup
      rw [hitems]
      exact h.itemIds
    · show ∀ li ∈ db.invoiceLineItems, ∃ b ∈ db.bills, b.id = li.invoiceId
      rw [hitems, hbills]
      exact h.itemOf
  | move _ happly =>
    obtain ⟨rfl, -⟩ := InvoiceService.apply_eq_ok happly
    refine ⟨h.customerIds, h.itemIds, ?_, h.eventIds⟩
    have hbills := InvoiceService.bills_move p.db p.now
    intro li hli
    obtain ⟨b, hb, hid⟩ := h.itemOf li hli
    refine ⟨b, ?_, hid⟩
    rw [← hbills] at hb
    exact hb

/-- A step of the payment system files what it adds. -/
theorem Filed.payments {penv : Payments.Env δ} {p q : Payments.State} {pl : Payments.Label δ}
    (h : Filed p.db) (hstep : Payments.step penv p pl = some q) : Filed q.db := by
  by_cases hcreate : ∃ businessId req fresh, pl = .create businessId req fresh
  · obtain ⟨businessId, req, fresh, rfl⟩ := hcreate
    simp only [Payments.step] at hstep
    split at hstep
    · cases hstep
    · rename_i db resp hdb
      obtain rfl := Option.some.inj hstep
      exact h.create hdb
  · refine h.of_effect (Payments.step_effect hstep) fun businessId req fresh hpl => ?_
    exact hcreate ⟨businessId, req, fresh, hpl⟩

/-- A request that leaves the books may add a customer under a new id. -/
theorem customerIds_call {db db' : Db} {now : Timestamp} {req : Call} {a : Answer}
    (h : req.perform env db now = .ok (db', a)) (hdb : (db.customers.map Customer.id).Nodup) :
    (db'.customers.map Customer.id).Nodup := by
  cases req with
  | createCustomer businessId id body =>
    obtain ⟨⟨db₁, resp⟩, hcreate, heq⟩ := map_eq_ok h
    obtain ⟨rfl, -⟩ := Prod.mk.inj heq
    obtain ⟨c, hfresh, rfl⟩ := CustomerService.create_eq_ok hcreate
    exact nodup_ids_insert hdb hfresh
  | createInvoice businessId body fresh =>
    obtain ⟨⟨db₁, resp⟩, hcreate, heq⟩ := map_eq_ok h
    obtain ⟨rfl, -⟩ := Prod.mk.inj heq
    obtain ⟨inv, hcreated⟩ := InvoiceService.create_eq_ok hcreate
    rw [hcreated.rest]
    exact hdb
  | registerEndpoint businessId id secret body =>
    obtain ⟨⟨db₁, resp⟩, hcreate, heq⟩ := map_eq_ok h
    obtain ⟨rfl, -⟩ := Prod.mk.inj heq
    rw [WebhookService.registerEndpoint_eq_ok hcreate]
    exact hdb
  | redeliver businessId deliveryId =>
    obtain ⟨db₁, hredeliver, heq⟩ := map_eq_ok h
    obtain ⟨rfl, -⟩ := Prod.mk.inj heq
    obtain ⟨-, rfl⟩ := WebhookService.redeliver_eq_ok hredeliver
    exact hdb
  | createKey businessId id random body =>
    obtain ⟨⟨db₁, resp⟩, hcreate, heq⟩ := map_eq_ok h
    obtain ⟨rfl, -⟩ := Prod.mk.inj heq
    obtain ⟨rows, rfl⟩ := ApiKeys.db_of_create hcreate
    exact hdb
  | revokeKey businessId id =>
    obtain ⟨db₁, hrevoke, heq⟩ := map_eq_ok h
    obtain ⟨rfl, -⟩ := Prod.mk.inj heq
    obtain ⟨rows, rfl⟩ := ApiKeys.db_of_revoke hrevoke
    exact hdb

theorem filed_step (h : Filed s.db) (hstep : step env s l = some t) : Filed t.db := by
  cases l with
  | payments pl =>
    obtain ⟨p, hp, rfl⟩ := Option.map_eq_some_iff.mp hstep
    exact h.payments hp
  | dispatcher l =>
    simp only [step] at hstep
    split_ifs at hstep with hl
    obtain ⟨hooks, hhooks, rfl⟩ := Option.map_eq_some_iff.mp hstep
    obtain ⟨rows, hrows⟩ := db_of_isDispatcher hl hhooks
    rw [show (s.withHooks hooks).db = { s.db with webhookDeliveries := rows } from hrows]
    exact h.of_books ⟨rfl, rfl, rfl, rfl, rfl⟩ h.customerIds
  | call c req =>
    simp only [step, callStep] at hstep
    split at hstep
    · cases hstep
    · split at hstep
      · obtain rfl := Option.some.inj hstep
        exact h
      · rename_i db a hperform
        obtain rfl := Option.some.inj hstep
        rcases Call.books hperform with hbooks | ⟨businessId, body, fresh, resp, hcreate⟩
        · exact h.of_books hbooks (customerIds_call hperform h.customerIds)
        · exact h.create hcreate
  | touch keyPrefix =>
    obtain rfl := Option.some.inj hstep
    exact h.of_books ⟨rfl, rfl, rfl, rfl, rfl⟩ h.customerIds

theorem filed_of_reachable (h : (system env).Reachable s) : Filed s.db := by
  refine TransitionSystem.invariant_of_reachable (P := fun s => Filed s.db) ?_ ?_ h
  · intro s₀ h₀
    exact ⟨h₀.customers, by simp [h₀.payments.lineItems], by simp [h₀.payments.lineItems],
      by simp [h₀.payments.events]⟩
  · intro s l t _ hs hstep
    exact filed_step hs hstep

theorem linked_of_reachable (h : (system env).Reachable s) : Linked s.db := by
  have hs := sound_of_reachable h
  have hfiled := filed_of_reachable h
  have hids : s.db.bills.map Bill.id = s.db.invoices.map Invoice.id := by
    rw [Db.bills, List.map_map]
    rfl
  refine
    { customerIds := hfiled.customerIds
      invoiceIds := hids ▸ hs.ledger.invoiceIds
      itemIds := hfiled.itemIds
      itemOf := fun li hli => ?_
      attemptIds := hs.attemptIds
      attemptOf := fun a ha => ?_
      keyPairs := ?_
      eventIds := hfiled.eventIds }
  · obtain ⟨b, hb, hid⟩ := hfiled.itemOf li hli
    obtain ⟨i, hi, rfl⟩ := List.mem_map.mp hb
    exact ⟨i, hi, hid⟩
  · obtain ⟨b, hb, hof⟩ := hs.ledger.billed _ (Payments.mem_jobs ha)
    obtain ⟨i, hi, rfl⟩ := List.mem_map.mp hb
    exact ⟨i, hi, hof.id, hof.businessId⟩
  · rw [Table.UniqueIndex.holds_iff_nodup fun _ => rfl]
    have hpairs : s.db.links.map KeyLink.pair =
        s.db.idempotencyKeys.map uqIdempotencyBusinessKey.key := by
      rw [Db.links, List.map_map]
      rfl
    rw [← hpairs]
    exact hs.ledger.keyPairs

end Service

end InvoicePayment
