import InvoicePayment.Lib.Owned
import InvoicePayment.Services.InvoiceServiceTheorems

/-!
# What the creation of an invoice adds

Under ids that are on no row, `createTx` adds to any database what it adds to the empty one, and
fails where it fails there: `createTx_eq_map`. So what it does to two databases is the same.
-/

namespace InvoicePayment

/-- The rows of `δ` after those of `db`. -/
def Db.append (db δ : Db) : Db :=
  { customers := db.customers ++ δ.customers
    invoices := db.invoices ++ δ.invoices
    invoiceLineItems := db.invoiceLineItems ++ δ.invoiceLineItems
    paymentAttempts := db.paymentAttempts ++ δ.paymentAttempts
    idempotencyKeys := db.idempotencyKeys ++ δ.idempotencyKeys
    webhookEndpoints := db.webhookEndpoints ++ δ.webhookEndpoints
    webhookEvents := db.webhookEvents ++ δ.webhookEvents
    webhookDeliveries := db.webhookDeliveries ++ δ.webhookDeliveries
    apiKeys := db.apiKeys ++ δ.apiKeys }

theorem Db.append_empty (db : Db) : db.append {} = db := by
  simp only [Db.append, List.append_nil]

/-- An id that is on no row of the front part conflicts with the new part only. -/
theorem conflicts_append_of_fresh {α : Type} {id : α → Uuid} {t : List α} {r : α}
    (h : ∀ x ∈ t, id x ≠ id r) (t' : List α) :
    (primaryKey id).conflicts (t ++ t') r = (primaryKey id).conflicts t' r := by
  have hfree : (primaryKey id).conflicts t r = false :=
    Table.UniqueIndex.conflicts_eq_false fun x hx _ => h x hx
  rw [Table.UniqueIndex.conflicts_append, hfree, Bool.false_or]

namespace InvoiceService

variable {db δ : Db} {now : Timestamp} {businessId : Uuid} {fresh : Fresh}

/-- The same addition on top of `db`. -/
def onto {α : Type} (db : Db) (p : Db × α) : Db × α := (db.append p.1, p.2)

theorem insertInvoice_append {id : Uuid} (h : ∀ i ∈ db.invoices, i.id ≠ id) (customerId : Uuid) :
    InvoiceRepo.insertInvoice (db.append δ) now id businessId customerId =
      (InvoiceRepo.insertInvoice δ now id businessId customerId).map (onto db) := by
  have hconflicts : (primaryKey Invoice.id).conflicts (db.append δ).invoices
        { id, businessId, customerId, createdAt := now } =
      (primaryKey Invoice.id).conflicts δ.invoices
        { id, businessId, customerId, createdAt := now } := conflicts_append_of_fresh h _
  simp only [InvoiceRepo.insertInvoice, hconflicts]
  split
  · rfl
  · simp only [Except.map, onto, Db.append, List.append_assoc]

theorem insertLineItem_append {id : Uuid} (h : ∀ li ∈ db.invoiceLineItems, li.id ≠ id)
    (invoiceId : Uuid) (li : CreateLineItem) (pos : Int) :
    InvoiceRepo.insertLineItem (db.append δ) id invoiceId li pos =
      (InvoiceRepo.insertLineItem δ id invoiceId li pos).map db.append := by
  unfold InvoiceRepo.insertLineItem
  split
  · rfl
  · split
    · rfl
    · split
      · rfl
      · have hconflicts : ∀ item : LineItem, item.id = id →
            (primaryKey LineItem.id).conflicts (db.append δ).invoiceLineItems item =
              (primaryKey LineItem.id).conflicts δ.invoiceLineItems item := by
          rintro item rfl
          exact conflicts_append_of_fresh h _
        simp only [hconflicts]
        split
        · rfl
        · simp only [Except.map, Db.append, List.append_assoc]

theorem insertLineItems_append (h : ∀ li ∈ db.invoiceLineItems, ∀ pos, li.id ≠ fresh.newId (pos + 1))
    (invoiceId : Uuid) (pos : ℕ) (items : List CreateLineItem) :
    insertLineItems fresh.newId invoiceId pos items (db.append δ) =
      (insertLineItems fresh.newId invoiceId pos items δ).map db.append := by
  induction items generalizing pos δ with
  | nil => rfl
  | cons li rest ih =>
    simp only [insertLineItems]
    rw [insertLineItem_append fun li hli => h li hli pos]
    cases InvoiceRepo.insertLineItem δ (fresh.newId (pos + 1)) invoiceId li (position pos) with
    | error e => rfl
    | ok δ' => exact ih (pos + 1)

/-- No item of the front part is on the invoice. -/
theorem itemsOf_append {invoiceId : Uuid} (h : ∀ li ∈ db.invoiceLineItems, li.invoiceId ≠ invoiceId) :
    (db.append δ).invoiceLineItems.filter (fun li => li.invoiceId = invoiceId) =
      δ.invoiceLineItems.filter fun li => li.invoiceId = invoiceId := by
  have hnone : db.invoiceLineItems.filter (fun li => li.invoiceId = invoiceId) = [] :=
    List.filter_eq_nil_iff.mpr fun li hli => by simpa using h li hli
  rw [Db.append, List.filter_append, hnone, List.nil_append]

theorem syncTotal_append {invoiceId : Uuid} (hi : ∀ i ∈ db.invoices, i.id ≠ invoiceId)
    (hli : ∀ li ∈ db.invoiceLineItems, li.invoiceId ≠ invoiceId) :
    InvoiceRepo.syncTotal (db.append δ) invoiceId =
      (InvoiceRepo.syncTotal δ invoiceId).map (onto db) := by
  have hsum : InvoiceRepo.sumAmounts (db.append δ) invoiceId =
      InvoiceRepo.sumAmounts δ invoiceId := by
    rw [InvoiceRepo.sumAmounts, InvoiceRepo.sumAmounts, itemsOf_append hli]
  unfold InvoiceRepo.syncTotal
  rw [hsum]
  split
  · rfl
  · split
    · rfl
    · rename_i total _ _
      have hold : Table.update (fun i : Invoice => i.id = invoiceId)
          (fun i => { i with totalCents := ⟨total⟩ }) db.invoices = db.invoices :=
        Table.update_eq_self fun i hmem => decide_eq_false (hi i hmem)
      simp only [Except.map, onto, Db.append, Table.update_append, hold]

theorem emitEvent_append {id : Uuid} (h : ∀ e ∈ db.webhookEvents, e.id ≠ id) (sequence : Int)
    (eventType : EventType) (aggregateId : Uuid) (payload : JsonValue) :
    WebhookService.emitEvent (db.append δ) now id sequence businessId eventType aggregateId payload =
      (WebhookService.emitEvent δ now id sequence businessId eventType aggregateId payload).map
        db.append := by
  have hconflicts : ∀ e : WebhookEvent, e.id = id →
      (primaryKey WebhookEvent.id).conflicts (db.append δ).webhookEvents e =
        (primaryKey WebhookEvent.id).conflicts δ.webhookEvents e := by
    rintro e rfl
    exact conflicts_append_of_fresh h _
  simp only [WebhookService.emitEvent, hconflicts]
  split
  · rfl
  · simp only [Except.map, Db.append, List.append_assoc]

/-- `createTx` adds to a database what it adds to the empty one. -/
theorem createTx_eq_map {req : CreateInvoiceRequest} (hi : ∀ i ∈ db.invoices, i.id ≠ fresh.newId 0)
    (hid : ∀ li ∈ db.invoiceLineItems, ∀ pos, li.id ≠ fresh.newId (pos + 1))
    (hli : ∀ li ∈ db.invoiceLineItems, li.invoiceId ≠ fresh.newId 0)
    (he : ∀ e ∈ db.webhookEvents, e.id ≠ fresh.newId (req.lineItems.length + 1)) :
    createTx db now businessId req fresh =
      (createTx {} now businessId req fresh).map (onto db) := by
  unfold createTx
  have hinsert : InvoiceRepo.insertInvoice (db.append {}) now (fresh.newId 0) businessId
      req.customerId = _ := insertInvoice_append hi req.customerId
  rw [Db.append_empty] at hinsert
  rw [hinsert]
  cases hinv : InvoiceRepo.insertInvoice {} now (fresh.newId 0) businessId req.customerId with
  | error e => rfl
  | ok p =>
    obtain ⟨δ₁, inv⟩ := p
    have hinvId : inv.id = fresh.newId 0 := by
      rw [(insertInvoice_eq_ok hinv).1]
    simp only [Except.map, onto, bind, Except.bind]
    rw [insertLineItems_append hid]
    cases insertLineItems fresh.newId inv.id 0 req.lineItems δ₁ with
    | error e => rfl
    | ok δ₂ =>
      rw [← hinvId] at hi hli
      simp only [Except.map]
      rw [syncTotal_append hi hli]
      cases InvoiceRepo.syncTotal δ₂ inv.id with
      | error e => rfl
      | ok q =>
        obtain ⟨δ₃, total⟩ := q
        simp only [Except.map, onto]
        rw [emitEvent_append he]
        cases WebhookService.emitEvent δ₃ now (fresh.newId (req.lineItems.length + 1))
            fresh.sequence businessId .invoiceCreated inv.id (createdPayload inv total) with
        | error e => rfl
        | ok δ₄ =>
          have hlist : InvoiceRepo.listLineItems (db.append δ₃) inv.id =
              InvoiceRepo.listLineItems δ₃ inv.id := by
            rw [InvoiceRepo.listLineItems, InvoiceRepo.listLineItems, itemsOf_append hli]
          simp only [Except.map, hlist]
          rfl

end InvoiceService

end InvoicePayment
