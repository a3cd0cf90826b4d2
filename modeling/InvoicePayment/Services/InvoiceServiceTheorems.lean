import InvoicePayment.Services.InvoiceService
import InvoicePayment.Services.PaymentServiceTheorems
import InvoicePayment.Reconciler

/-!
# Invoices and leases — one specification per function

What `create` commits (`create_eq_ok`), what the conditional `UPDATE` of a transition commits
(`apply_eq_ok`), and that a transition and a lease change none of the static columns.
-/

namespace InvoicePayment

namespace InvoiceService

/-! ## Creation -/

/-- A stored line item of the invoice: its amount is the product, computed without overflow. -/
structure IsItemOf (invoiceId : Uuid) (li : LineItem) : Prop where
  invoiceId : li.invoiceId = invoiceId
  quantity : 0 < li.quantity.toInt
  unitAmount : 0 ≤ li.unitAmountCents.cents.toInt
  amount : li.amountCents.cents.toInt = li.quantity.toInt * li.unitAmountCents.cents.toInt

/-- What `create` has checked when it commits, and what it adds. -/
structure Created (db : Db) (now : Timestamp) (businessId : Uuid) (req : CreateInvoiceRequest)
    (fresh : Fresh) (db' : Db) (inv : Invoice) : Prop where
  freshId : (primaryKey Invoice.id).conflicts db.invoices inv = false
  id : inv.id = fresh.newId 0
  business : inv.businessId = businessId
  draft : inv.state = .draft
  row : inv = { id := fresh.newId 0, businessId, customerId := req.customerId, createdAt := now
                totalCents := inv.totalCents }
  items : ∃ rows, db'.invoiceLineItems = db.invoiceLineItems ++ rows ∧
    (∀ li ∈ rows, IsItemOf inv.id li) ∧
    inv.totalCents.cents.toInt = InvoiceRepo.sumAmounts db' inv.id
  eventId : ∀ e ∈ db.webhookEvents, e.id ≠ fresh.newId (req.lineItems.length + 1)
  invoices : db'.invoices = db.invoices ++ [inv]
  attempts : db'.paymentAttempts = db.paymentAttempts
  keys : db'.idempotencyKeys = db.idempotencyKeys
  events : db'.webhookEvents = db.webhookEvents ++
    [{ id := fresh.newId (req.lineItems.length + 1), businessId, eventType := .invoiceCreated
       aggregateId := inv.id, payload := createdPayload inv inv.totalCents
       sequence := fresh.sequence, createdAt := now }]
  rest : db' = { db with
    invoices := db'.invoices
    invoiceLineItems := db'.invoiceLineItems
    webhookEvents := db'.webhookEvents }

theorem insertLineItem_eq_ok {db db' : Db} {id invoiceId : Uuid} {li : CreateLineItem} {pos : Int}
    (h : InvoiceRepo.insertLineItem db id invoiceId li pos = .ok db') :
    ∃ item, IsItemOf invoiceId item ∧
      db' = { db with invoiceLineItems := db.invoiceLineItems ++ [item] } := by
  unfold InvoiceRepo.insertLineItem at h
  split at h
  · cases h
  split at h
  · cases h
  rename_i amount hmul
  split at h
  · cases h
  rename_i hpos
  dsimp only at h
  split_ifs at h
  refine ⟨_, ?_, (Except.ok.inj h).symm⟩
  obtain ⟨cents, hcents, rfl⟩ := Option.map_eq_some_iff.mp hmul
  simp only [not_or, Int64.not_le, Int64.not_lt] at hpos
  exact
    { invoiceId := rfl
      quantity := Int64.lt_iff_toInt_lt.mp hpos.1
      unitAmount := Int64.le_iff_toInt_le.mp hpos.2
      amount := (toInt_of_checkedI64 hcents).trans (Int.mul_comm _ _) }

/-- The insert loop only adds line items of the invoice. -/
theorem insertLineItems_eq_ok {newId : ℕ → Uuid} {invoiceId : Uuid} {items : List CreateLineItem}
    {pos : ℕ} {db db' : Db} (h : insertLineItems newId invoiceId pos items db = .ok db') :
    ∃ rows, (∀ li ∈ rows, IsItemOf invoiceId li) ∧
      db' = { db with invoiceLineItems := db.invoiceLineItems ++ rows } := by
  induction items generalizing pos db with
  | nil =>
    simp only [insertLineItems, Except.ok.injEq] at h
    exact ⟨[], by simp, by simp [h]⟩
  | cons li rest ih =>
    simp only [insertLineItems] at h
    split at h
    · cases h
    rename_i db₁ hli
    obtain ⟨item, hitem, rfl⟩ := insertLineItem_eq_ok hli
    obtain ⟨rows, hrows, rfl⟩ := ih h
    refine ⟨item :: rows, ?_, by simp⟩
    intro li hli
    rcases List.mem_cons.mp hli with rfl | hli
    · exact hitem
    · exact hrows li hli

theorem insertInvoice_eq_ok {db db' : Db} {now : Timestamp} {id businessId customerId : Uuid}
    {inv : Invoice} (h : InvoiceRepo.insertInvoice db now id businessId customerId = .ok (db', inv)) :
    inv = { id, businessId, customerId, createdAt := now } ∧
    (primaryKey Invoice.id).conflicts db.invoices inv = false ∧
    db' = { db with invoices := db.invoices ++ [inv] } := by
  unfold InvoiceRepo.insertInvoice at h
  dsimp only at h
  split_ifs at h with hconflict
  simp only [Except.ok.injEq, Prod.mk.injEq] at h
  obtain ⟨rfl, rfl⟩ := h
  exact ⟨rfl, by simpa using hconflict, rfl⟩

theorem syncTotal_eq_ok {db db' : Db} {invoiceId : Uuid} {total : Money}
    (h : InvoiceRepo.syncTotal db invoiceId = .ok (db', total)) :
    total.cents.toInt = InvoiceRepo.sumAmounts db invoiceId ∧
    db' = { db with
      invoices := Table.update (fun i => i.id = invoiceId)
        (fun i => { i with totalCents := total }) db.invoices } := by
  unfold InvoiceRepo.syncTotal at h
  split at h
  · cases h
  rename_i cents hcents
  split_ifs at h
  simp only [Except.ok.injEq, Prod.mk.injEq] at h
  obtain ⟨rfl, rfl⟩ := h
  exact ⟨toInt_of_checkedI64 hcents, rfl⟩

theorem bind_eq_ok {ε α β : Type} {x : Except ε α} {f : α → Except ε β} {b : β}
    (h : (x >>= f) = .ok b) : ∃ a, x = .ok a ∧ f a = .ok b := by
  cases x with
  | error e => cases h
  | ok a => exact ⟨a, rfl, h⟩

theorem createTx_eq_ok {db db' : Db} {now : Timestamp} {businessId : Uuid}
    {req : CreateInvoiceRequest} {fresh : Fresh} {resp : InvoiceResponse}
    (h : createTx db now businessId req fresh = .ok (db', resp)) :
    ∃ inv, Created db now businessId req fresh db' inv := by
  unfold createTx at h
  obtain ⟨⟨db₁, inv⟩, hinv, h⟩ := bind_eq_ok h
  obtain ⟨db₂, hitems, h⟩ := bind_eq_ok h
  obtain ⟨⟨db₃, total⟩, hsync, h⟩ := bind_eq_ok h
  obtain ⟨db₄, hemit, h⟩ := bind_eq_ok h
  obtain ⟨rfl, hfresh, rfl⟩ := insertInvoice_eq_ok hinv
  obtain ⟨rows, hrows, rfl⟩ := insertLineItems_eq_ok hitems
  obtain ⟨htotal, rfl⟩ := syncTotal_eq_ok hsync
  obtain ⟨heventId, hpost⟩ := WebhookService.emitEvent_eq_ok hemit
  obtain rfl : db₄ = db' := by
    simp only [pure, Except.pure, Except.ok.injEq, Prod.mk.injEq] at h
    exact h.1
  subst hpost
  -- the total goes to the new row only: no other row has its id
  have hold : Table.update (fun i : Invoice => i.id = fresh.newId 0)
      (fun i => { i with totalCents := total }) db.invoices = db.invoices := by
    refine Table.update_eq_self fun i hi => decide_eq_false ?_
    exact Table.UniqueIndex.ne_of_not_conflicts hfresh rfl hi rfl
  have hinvoices : Table.update (fun i : Invoice => i.id = fresh.newId 0)
      (fun i => { i with totalCents := total }) (db.invoices ++
        [{ id := fresh.newId 0, businessId, customerId := req.customerId, createdAt := now }])
      = db.invoices ++ [{ id := fresh.newId 0, businessId, customerId := req.customerId
                          createdAt := now, totalCents := total }] := by
    rw [Table.update_append, hold]
    simp [Table.update]
  refine ⟨{ id := fresh.newId 0, businessId, customerId := req.customerId, createdAt := now
            totalCents := total }, ?_⟩
  exact
    { freshId := hfresh
      id := rfl
      business := rfl
      draft := rfl
      row := rfl
      items := ⟨rows, rfl, hrows, htotal⟩
      eventId := heventId
      invoices := hinvoices
      attempts := rfl
      keys := rfl
      events := rfl
      rest := rfl }

theorem create_eq_ok {db db' : Db} {now : Timestamp} {businessId : Uuid}
    {req : CreateInvoiceRequest} {fresh : Fresh} {resp : InvoiceResponse}
    (h : create db now businessId req fresh = .ok (db', resp)) :
    ∃ inv, Created db now businessId req fresh db' inv := by
  unfold create at h
  split at h
  · cases h
  split_ifs at h
  cases htx : createTx db now businessId req fresh with
  | error e => simp [htx, orRaise] at h
  | ok p =>
    obtain rfl : p = (db', resp) := by simpa [htx, orRaise] using h
    exact createTx_eq_ok htx

/-! ## Transitions -/

theorem apply_eq_ok {db db' : Db} {now : Timestamp} {businessId id : Uuid}
    {current toState : InvoiceState} {inv : Invoice}
    (h : apply db now businessId id current toState = .ok (db', inv)) :
    db' = { db with
      invoices := Table.update (InvoiceRepo.isIn businessId id current)
        (InvoiceRepo.move now toState) db.invoices } ∧
    ∃ i ∈ db.invoices, InvoiceRepo.isIn businessId id current i = true ∧
      inv = InvoiceRepo.move now toState i := by
  unfold apply InvoiceRepo.transition at h
  split at h
  · cases h
  rename_i db₁ updated heq
  simp only [Prod.mk.injEq, Option.map_eq_some_iff] at heq
  obtain ⟨rfl, i, hfind, rfl⟩ := heq
  simp only [Except.ok.injEq, Prod.mk.injEq] at h
  exact ⟨h.1.symm, i, List.mem_of_find?_eq_some hfind, List.find?_some hfind, h.2.symm⟩

theorem check_eq_ok {current toState : InvoiceState} {u : Unit}
    (h : check current toState = .ok u) : current.canTransitionTo toState = true := by
  unfold check at h
  split_ifs at h with _ hcan
  simpa using hcan

/-- A transition keeps the bills. -/
theorem bills_move (db : Db) (now : Timestamp) (businessId id : Uuid)
    (current toState : InvoiceState) :
    (Table.update (InvoiceRepo.isIn businessId id current) (InvoiceRepo.move now toState)
      db.invoices).map Bill.ofInvoice = db.bills :=
  Table.map_update Bill.ofInvoice fun _ _ _ => rfl

end InvoiceService

/-! ## Leases -/

namespace Reconciler

/-- A lease keeps the jobs. -/
theorem jobs_lease (db : Db) (now : Timestamp) (ids : List Uuid) :
    (lease db now ids).1.jobs = db.jobs :=
  Table.map_update Job.ofAttempt fun _ _ _ => rfl

/-- The jobs of a lease are the leased rows. -/
theorem mem_lease_jobs {db : Db} {now : Timestamp} {ids : List Uuid} {job : Job}
    (h : job ∈ (lease db now ids).2) :
    ∃ a ∈ db.paymentAttempts, a.id ∈ ids ∧ Job.ofAttempt a = job := by
  obtain ⟨a, ha, hjob⟩ := List.mem_map.mp h
  obtain ⟨hmem, hid⟩ := Table.mem_withIds ha
  exact ⟨a, hmem, hid, hjob⟩

/-- A lease returns no row twice. -/
theorem nodup_lease_jobs {db : Db} {now : Timestamp} {ids : List Uuid} (h : ids.Nodup) :
    ((lease db now ids).2.map Job.attemptId).Nodup := by
  rw [lease, List.map_map]
  exact h.sublist Table.map_withIds_sublist

/-- What the query checks of every row it leases. -/
theorem isDue_of_isBatch {db : Db} {now : Timestamp} {locked ids : List Uuid}
    (h : isBatch db now locked ids = true) :
    ids.Nodup ∧ ∀ id ∈ ids, ∃ a ∈ db.paymentAttempts, a.id = id ∧ isDue now a = true :=
  Table.due_of_isBatch h

end Reconciler

end InvoicePayment
