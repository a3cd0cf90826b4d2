import InvoicePayment.Service.Additions
import InvoicePayment.Service.Links
import InvoicePayment.Service.Operations
import InvoicePayment.Service.Rejections

/-!
# Tenant isolation

What a business gets from an operation depends on its own rows, and it leaves the rows of every
other business as they were. Most queries are scoped by `business_id`; for the others (the line
items of an invoice, the invoice of an attempt, the `UPDATE`s of transaction 2) the links between
the rows say whose rows they meet.
-/

namespace InvoicePayment

open Table (OwnWrite)

/-! ## The rows of a business -/

/-- The line item is on an invoice of the business. -/
def Db.isItemOf (db : Db) (b : Uuid) (li : LineItem) : Bool :=
  db.invoices.any fun i => i.id = li.invoiceId && i.businessId = b

/-- The rows of one business. -/
def Db.rowsOf (db : Db) (b : Uuid) : Db :=
  { customers := db.customers.filter fun c => c.businessId = b
    invoices := db.invoices.filter fun i => i.businessId = b
    invoiceLineItems := db.invoiceLineItems.filter (db.isItemOf b)
    paymentAttempts := db.paymentAttempts.filter fun a => a.businessId = b
    idempotencyKeys := db.idempotencyKeys.filter fun k => k.businessId = b
    webhookEndpoints := db.webhookEndpoints.filter fun ep => ep.businessId = b
    webhookEvents := db.webhookEvents.filter fun e => e.businessId = b
    webhookDeliveries := db.webhookDeliveries.filter fun d => d.businessId = b
    apiKeys := db.apiKeys.filter fun k => k.businessId = b }

/-- The same rows in every table. -/
structure Db.SameRows (db db' : Db) : Prop where
  customers : db.customers.Perm db'.customers
  invoices : db.invoices.Perm db'.invoices
  lineItems : db.invoiceLineItems.Perm db'.invoiceLineItems
  attempts : db.paymentAttempts.Perm db'.paymentAttempts
  keys : db.idempotencyKeys.Perm db'.idempotencyKeys
  endpoints : db.webhookEndpoints.Perm db'.webhookEndpoints
  events : db.webhookEvents.Perm db'.webhookEvents
  deliveries : db.webhookDeliveries.Perm db'.webhookDeliveries
  apiKeys : db.apiKeys.Perm db'.apiKeys

namespace Service

/-- The two databases agree on all rows of business `b`. -/
def Agree (b : Uuid) (db₁ db₂ : Db) : Prop := (db₁.rowsOf b).SameRows (db₂.rowsOf b)

/-- What a business does to two databases: they agree on its rows, and the rows of the others are
as they were. -/
structure Isolated (b : Uuid) (db₁ db₂ db₁' db₂' : Db) : Prop where
  customers : OwnWrite Customer.businessId b db₁.customers db₂.customers db₁'.customers
    db₂'.customers
  invoices : OwnWrite Invoice.businessId b db₁.invoices db₂.invoices db₁'.invoices db₂'.invoices
  lineItems : (db₁'.invoiceLineItems.filter (db₁'.isItemOf b)).Perm
    (db₂'.invoiceLineItems.filter (db₂'.isItemOf b))
  otherItems₁ : ∀ c, c ≠ b → db₁'.invoiceLineItems.filter (db₁'.isItemOf c) =
    db₁.invoiceLineItems.filter (db₁.isItemOf c)
  otherItems₂ : ∀ c, c ≠ b → db₂'.invoiceLineItems.filter (db₂'.isItemOf c) =
    db₂.invoiceLineItems.filter (db₂.isItemOf c)
  attempts : OwnWrite PaymentAttempt.businessId b db₁.paymentAttempts db₂.paymentAttempts
    db₁'.paymentAttempts db₂'.paymentAttempts
  keys : OwnWrite IdempotencyKey.businessId b db₁.idempotencyKeys db₂.idempotencyKeys
    db₁'.idempotencyKeys db₂'.idempotencyKeys
  endpoints : OwnWrite WebhookEndpoint.businessId b db₁.webhookEndpoints db₂.webhookEndpoints
    db₁'.webhookEndpoints db₂'.webhookEndpoints
  events : OwnWrite WebhookEvent.businessId b db₁.webhookEvents db₂.webhookEvents
    db₁'.webhookEvents db₂'.webhookEvents
  deliveries : OwnWrite WebhookDelivery.businessId b db₁.webhookDeliveries db₂.webhookDeliveries
    db₁'.webhookDeliveries db₂'.webhookDeliveries
  apiKeys : OwnWrite ApiKey.businessId b db₁.apiKeys db₂.apiKeys db₁'.apiKeys db₂'.apiKeys

variable {b : Uuid} {db₁ db₂ db₁' db₂' db₁'' db₂'' : Db}

namespace Isolated

theorem nothing (h : Agree b db₁ db₂) : Isolated b db₁ db₂ db₁ db₂ :=
  { customers := .nothing h.customers
    invoices := .nothing h.invoices
    lineItems := h.lineItems
    otherItems₁ := fun _ _ => rfl
    otherItems₂ := fun _ _ => rfl
    attempts := .nothing h.attempts
    keys := .nothing h.keys
    endpoints := .nothing h.endpoints
    events := .nothing h.events
    deliveries := .nothing h.deliveries
    apiKeys := .nothing h.apiKeys }

theorem trans (h : Isolated b db₁ db₂ db₁' db₂') (h' : Isolated b db₁' db₂' db₁'' db₂'') :
    Isolated b db₁ db₂ db₁'' db₂'' :=
  { customers := h.customers.trans h'.customers
    invoices := h.invoices.trans h'.invoices
    lineItems := h'.lineItems
    otherItems₁ := fun c hc => (h'.otherItems₁ c hc).trans (h.otherItems₁ c hc)
    otherItems₂ := fun c hc => (h'.otherItems₂ c hc).trans (h.otherItems₂ c hc)
    attempts := h.attempts.trans h'.attempts
    keys := h.keys.trans h'.keys
    endpoints := h.endpoints.trans h'.endpoints
    events := h.events.trans h'.events
    deliveries := h.deliveries.trans h'.deliveries
    apiKeys := h.apiKeys.trans h'.apiKeys }

theorem agree (h : Isolated b db₁ db₂ db₁' db₂') : Agree b db₁' db₂' :=
  { customers := h.customers.agree
    invoices := h.invoices.agree
    lineItems := h.lineItems
    attempts := h.attempts.agree
    keys := h.keys.agree
    endpoints := h.endpoints.agree
    events := h.events.agree
    deliveries := h.deliveries.agree
    apiKeys := h.apiKeys.agree }

theorem rowsOf₁ (h : Isolated b db₁ db₂ db₁' db₂') {c : Uuid} (hc : c ≠ b) :
    db₁'.rowsOf c = db₁.rowsOf c := by
  simp only [Db.rowsOf, h.customers.others₁ c hc, h.invoices.others₁ c hc, h.otherItems₁ c hc,
    h.attempts.others₁ c hc, h.keys.others₁ c hc, h.endpoints.others₁ c hc,
    h.events.others₁ c hc, h.deliveries.others₁ c hc, h.apiKeys.others₁ c hc]

theorem rowsOf₂ (h : Isolated b db₁ db₂ db₁' db₂') {c : Uuid} (hc : c ≠ b) :
    db₂'.rowsOf c = db₂.rowsOf c := by
  simp only [Db.rowsOf, h.customers.others₂ c hc, h.invoices.others₂ c hc, h.otherItems₂ c hc,
    h.attempts.others₂ c hc, h.keys.others₂ c hc, h.endpoints.others₂ c hc,
    h.events.others₂ c hc, h.deliveries.others₂ c hc, h.apiKeys.others₂ c hc]

end Isolated

/-- Two runs of a transaction end the same way. -/
inductive SameEnd (b : Uuid) (db₁ db₂ : Db) {ε α : Type} :
    Except ε (Db × α) → Except ε (Db × α) → Prop
  | error (e : ε) : SameEnd b db₁ db₂ (.error e) (.error e)
  | ok (a : α) {db₁' db₂' : Db} (h : Isolated b db₁ db₂ db₁' db₂') :
    SameEnd b db₁ db₂ (.ok (db₁', a)) (.ok (db₂', a))

/-- Two runs of an operation give the same answer. -/
def SameRun (b : Uuid) (db₁ db₂ : Db) {α : Type} (r₁ r₂ : Db × Except AppError α) : Prop :=
  r₁.2 = r₂.2 ∧ Isolated b db₁ db₂ r₁.1 r₂.1

theorem SameEnd.commit {α : Type} {x₁ x₂ : Except AppError (Db × α)} (hagree : Agree b db₁ db₂)
    (h : SameEnd b db₁ db₂ x₁ x₂) :
    SameRun b db₁ db₂ (Service.commit db₁ x₁) (Service.commit db₂ x₂) := by
  cases h with
  | error e => exact ⟨rfl, .nothing hagree⟩
  | ok a h => exact ⟨rfl, h⟩

/-! ## Customers -/

theorem getCustomer_eq (hagree : Agree b db₁ db₂) (h₁ : Linked db₁) (id : Uuid) :
    CustomerService.get db₁ b id = CustomerService.get db₂ b id := by
  have hfind : CustomerRepo.get db₁ b id = CustomerRepo.get db₂ b id := by
    refine Table.find?_eq_of_own hagree.customers (fun c _ hc => ?_) (fun c _ hc => ?_)
      fun c hc d hd hcid hdid => ?_
    · simp only [decide_eq_true_eq] at hc ⊢
      exact hc.2
    · simp only [decide_eq_true_eq] at hc ⊢
      exact hc.2
    · simp only [decide_eq_true_eq] at hcid hdid
      exact List.inj_on_of_nodup_map h₁.customerIds hc hd (hcid.1.trans hdid.1.symm)
  rw [CustomerService.get, CustomerService.get, hfind]

/-- A list by `(created_at, id)` shows the rows in an order their ids decide. -/
theorem select_eq {α : Type} {id : α → Uuid} {createdAt : α → Timestamp} {t₁ t₂ : List α}
    (hperm : t₁.Perm t₂) (hids : (t₁.map id).Nodup) (n : ℕ) (cursor : Option Pagination.Key) :
    Keyset.select (fun r => Pagination.key (createdAt r) (id r)) n cursor t₁ =
      Keyset.select (fun r => Pagination.key (createdAt r) (id r)) n cursor t₂ := by
  refine Keyset.select_eq_of_perm hperm ?_ n
  exact List.pairwise_map.mpr ((List.pairwise_map.mp hids).imp fun hne heq =>
    hne (Pagination.key_injective heq).2)

theorem nodup_filter_ids {α : Type} {id : α → Uuid} {t : List α} (h : (t.map id).Nodup)
    (p : α → Bool) : ((t.filter p).map id).Nodup := h.sublist (List.filter_sublist.map id)

theorem listCustomers_eq (hagree : Agree b db₁ db₂) (h₁ : Linked db₁) (rfc : Pagination.Rfc3339)
    (limit : Option Int64) (cursor : Option String) :
    CustomerService.list rfc db₁ b limit cursor = CustomerService.list rfc db₂ b limit cursor := by
  have hfetch : CustomerRepo.list db₁ b = CustomerRepo.list db₂ b := by
    funext n c
    exact select_eq hagree.customers (nodup_filter_ids h₁.customerIds _) n _
  rw [CustomerService.list, CustomerService.list, hfetch]

theorem createCustomer_same (hagree : Agree b db₁ db₂) (lower : String → String)
    (now : Timestamp) {id : Uuid} (req : CreateCustomerRequest)
    (hfresh₁ : ∀ c ∈ db₁.customers, c.id ≠ id) (hfresh₂ : ∀ c ∈ db₂.customers, c.id ≠ id) :
    SameEnd b db₁ db₂ (CustomerService.create lower db₁ now id b req)
      (CustomerService.create lower db₂ now id b req) := by
  have hinsert : SameEnd b db₁ db₂
      (CustomerRepo.insert lower db₁ now id b req.email req.name)
      (CustomerRepo.insert lower db₂ now id b req.email req.name) := by
    unfold CustomerRepo.insert
    by_cases htext : req.email.all isPgText ∧ req.name.all isPgText
    · rw [if_neg (not_not.mpr htext), if_neg (not_not.mpr htext)]
      dsimp only
      have hid : ∀ {t : List Customer}, (∀ c ∈ t, c.id ≠ id) →
          (primaryKey Customer.id).conflicts t
            { id, businessId := b, email := req.email, name := req.name, createdAt := now } =
          false := fun hfresh => Table.UniqueIndex.conflicts_eq_false fun c hc _ => hfresh c hc
      -- the index on the address compares customers of one business
      have hown : ∀ c : Customer, (c.businessId, c.email.map lower) =
          (b, req.email.map lower) → decide (c.businessId = b) = true :=
        fun c hkey => decide_eq_true (Prod.mk.inj hkey).1
      have hemail : (uqCustomersBusinessEmail lower).conflicts db₁.customers
            { id, businessId := b, email := req.email, name := req.name, createdAt := now } =
          (uqCustomersBusinessEmail lower).conflicts db₂.customers
            { id, businessId := b, email := req.email, name := req.name, createdAt := now } :=
        Table.UniqueIndex.conflicts_eq_of_own hagree.customers (fun c _ _ hkey => hown c hkey)
          fun c _ _ hkey => hown c hkey
      simp only [hid hfresh₁, hid hfresh₂, hemail, Bool.false_eq_true, false_or]
      split
      · exact .error _
      · exact .ok _ { Isolated.nothing hagree with
          customers := .insert hagree.customers fun c hc => by rw [List.mem_singleton.mp hc] }
    · rw [if_pos htext, if_pos htext]
      exact .error _
  unfold CustomerService.create
  generalize CustomerRepo.insert lower db₁ now id b req.email req.name = x₁ at hinsert
  generalize CustomerRepo.insert lower db₂ now id b req.email req.name = x₂ at hinsert
  split
  · exact .error _
  · cases hinsert with
    | error e => exact .error _
    | ok c h => exact .ok _ h

/-! ## Invoices -/

/-- Who owns an item depends on the ids and the businesses of the invoices only. -/
theorem isItemOf_congr {db db' : Db}
    (h : db'.invoices.map (fun i => (i.id, i.businessId)) =
      db.invoices.map fun i => (i.id, i.businessId)) : db'.isItemOf = db.isItemOf := by
  funext c li
  have hany : ∀ t : List Invoice, (t.any fun i => i.id = li.invoiceId && i.businessId = c) =
      (t.map fun i => (i.id, i.businessId)).any fun p => p.1 = li.invoiceId && p.2 = c := by
    intro t
    rw [List.any_map]
    rfl
  rw [Db.isItemOf, Db.isItemOf, hany, hany, h]

/-- What an item is listed by. -/
def itemRank (li : LineItem) : Int ×ₗ List ℕ :=
  toLex (li.position, li.id.asBytes.map UInt8.toNat)

theorem byPosition_iff (x y : LineItem) :
    InvoiceRepo.byPosition x y = true ↔ itemRank x ≤ itemRank y := by
  rw [InvoiceRepo.byPosition, itemRank, itemRank, Prod.Lex.toLex_le_toLex]
  simp only [Bool.or_eq_true, Bool.and_eq_true, decide_eq_true_eq]

/-- The items of an invoice are own rows of its business, and their order leaves no choice. -/
theorem listLineItems_eq (hagree : Agree b db₁ db₂) (h₁ : Linked db₁) {i : Invoice}
    (hi₁ : i ∈ db₁.invoices) (hi₂ : i ∈ db₂.invoices) (hb : i.businessId = b) :
    InvoiceRepo.listLineItems db₁ i.id = InvoiceRepo.listLineItems db₂ i.id := by
  have hown : ∀ {db : Db}, i ∈ db.invoices → ∀ li ∈ db.invoiceLineItems,
      decide (li.invoiceId = i.id) = true → db.isItemOf b li = true := by
    intro db hi li _ hli
    refine List.any_eq_true.mpr ⟨i, hi, ?_⟩
    simp only [Bool.and_eq_true, decide_eq_true_eq]
    exact ⟨(of_decide_eq_true hli).symm, hb⟩
  have hperm := Table.filter_perm_of_own hagree.lineItems (hown hi₁) (hown hi₂)
  have htotal : Std.Total fun x y : LineItem => InvoiceRepo.byPosition x y = true :=
    ⟨fun x y => by
      rw [byPosition_iff, byPosition_iff]
      exact le_total _ _⟩
  have htrans : IsTrans LineItem fun x y => InvoiceRepo.byPosition x y = true :=
    ⟨fun x y z hxy hyz => by
      rw [byPosition_iff] at hxy hyz ⊢
      exact hxy.trans hyz⟩
  refine Table.insertionSort_eq_of_perm hperm fun x hx y hy hxy hyx => ?_
  rw [byPosition_iff] at hxy hyx
  have hrank : (x.position, x.id.asBytes.map UInt8.toNat) =
      (y.position, y.id.asBytes.map UInt8.toNat) := toLex.injective (le_antisymm hxy hyx)
  have hinj : Function.Injective UInt8.toNat := fun m n hmn => UInt8.toNat_inj.mp hmn
  have hid : x.id = y.id :=
    Uuid.asBytes_injective (List.map_injective_iff.mpr hinj (Prod.mk.inj hrank).2)
  exact List.inj_on_of_nodup_map h₁.itemIds (List.mem_of_mem_filter hx)
    (List.mem_of_mem_filter hy) hid

/-- A query by id and business finds the same invoice. -/
theorem findInvoice_eq (hagree : Agree b db₁ db₂) (h₁ : Linked db₁) (id : Uuid)
    {p : Invoice → Bool} (hp : ∀ i, p i = true → i.id = id ∧ i.businessId = b) :
    db₁.invoices.find? p = db₂.invoices.find? p :=
  Table.find?_eq_of_own hagree.invoices (fun i _ hi => decide_eq_true (hp i hi).2)
    (fun i _ hi => decide_eq_true (hp i hi).2) fun i hi j hj hpi hpj =>
      List.inj_on_of_nodup_map h₁.invoiceIds hi hj ((hp i hpi).1.trans (hp j hpj).1.symm)

theorem getRow_eq (hagree : Agree b db₁ db₂) (h₁ : Linked db₁) (id : Uuid) :
    InvoiceRepo.get db₁ b id = InvoiceRepo.get db₂ b id :=
  findInvoice_eq hagree h₁ id fun i hi => by simpa only [decide_eq_true_eq] using hi

theorem of_getRow {db : Db} {id : Uuid} {i : Invoice} (h : InvoiceRepo.get db b id = some i) :
    i ∈ db.invoices ∧ i.id = id ∧ i.businessId = b :=
  ⟨List.mem_of_find?_eq_some h, by simpa only [decide_eq_true_eq] using List.find?_some h⟩

theorem getInvoice_eq (hagree : Agree b db₁ db₂) (h₁ : Linked db₁) (id : Uuid) :
    InvoiceService.get db₁ b id = InvoiceService.get db₂ b id := by
  have hrow := getRow_eq hagree h₁ id
  rw [InvoiceService.get, InvoiceService.get, ← hrow]
  cases hi : InvoiceRepo.get db₁ b id with
  | none => rfl
  | some i =>
    obtain ⟨hi₁, rfl, hb⟩ := of_getRow hi
    obtain ⟨hi₂, -, -⟩ := of_getRow (hrow.symm.trans hi)
    dsimp only
    rw [listLineItems_eq hagree h₁ hi₁ hi₂ hb]

theorem listInvoices_eq (hagree : Agree b db₁ db₂) (h₁ : Linked db₁) (rfc : Pagination.Rfc3339)
    (state : Option InvoiceState) (limit : Option Int64) (cursor : Option String) :
    InvoiceService.list rfc db₁ b state limit cursor =
      InvoiceService.list rfc db₂ b state limit cursor := by
  have hfetch : InvoiceRepo.list db₁ b state = InvoiceRepo.list db₂ b state := by
    funext n c
    refine select_eq (Table.filter_perm_of_own hagree.invoices (fun i _ hi => ?_)
      fun i _ hi => ?_) (nodup_filter_ids h₁.invoiceIds _) n _
    · exact (Bool.and_eq_true_iff.mp hi).1
    · exact (Bool.and_eq_true_iff.mp hi).1
  rw [InvoiceService.list, InvoiceService.list, hfetch]

/-- A statement that rewrites own invoices and leaves their ids and owners. -/
theorem Isolated.updateInvoices (hagree : Agree b db₁ db₂) {p : Invoice → Bool}
    {f : Invoice → Invoice} (hp₁ : ∀ i ∈ db₁.invoices, p i = true → i.businessId = b)
    (hp₂ : ∀ i ∈ db₂.invoices, p i = true → i.businessId = b)
    (hf : ∀ i, (f i).id = i.id ∧ (f i).businessId = i.businessId) :
    Isolated b db₁ db₂ { db₁ with invoices := Table.update p f db₁.invoices }
      { db₂ with invoices := Table.update p f db₂.invoices } := by
  have hitems : ∀ db : Db, Db.isItemOf { db with invoices := Table.update p f db.invoices } =
      db.isItemOf :=
    fun db => isItemOf_congr (Table.map_update _ fun i _ _ => Prod.ext (hf i).1 (hf i).2)
  exact
    { Isolated.nothing hagree with
      invoices := .update hagree.invoices hp₁ hp₂ fun i => (hf i).2
      lineItems := by
        rw [hitems, hitems]
        exact hagree.lineItems
      otherItems₁ := fun c _ => by rw [hitems]
      otherItems₂ := fun c _ => by rw [hitems] }

theorem transition_same (hagree : Agree b db₁ db₂) (h₁ : Linked db₁) (now : Timestamp) (id : Uuid)
    (toState : InvoiceState) :
    SameEnd b db₁ db₂ (InvoiceService.transition db₁ now b id toState)
      (InvoiceService.transition db₂ now b id toState) := by
  have hrow := getRow_eq hagree h₁ id
  unfold InvoiceService.transition InvoiceService.load
  rw [← hrow]
  cases hi : InvoiceRepo.get db₁ b id with
  | none => exact .error _
  | some current =>
    obtain ⟨hi₁, rfl, hb⟩ := of_getRow hi
    obtain ⟨hi₂, -, -⟩ := of_getRow (hrow.symm.trans hi)
    cases hcheck : InvoiceService.check current.state toState with
    | error e =>
      simp only [bind, Except.bind, hcheck]
      exact .error _
    | ok u =>
      have hisIn : ∀ i, InvoiceRepo.isIn b current.id current.state i = true →
          i.id = current.id ∧ i.businessId = b := by
        intro i hi
        simp only [InvoiceRepo.isIn, Bool.and_eq_true, decide_eq_true_eq] at hi
        exact hi.1
      have hfind := findInvoice_eq hagree h₁ current.id hisIn
      simp only [bind, Except.bind, hcheck, InvoiceService.apply, InvoiceRepo.transition, ← hfind]
      cases db₁.invoices.find? (InvoiceRepo.isIn b current.id current.state) with
      | none => exact .error _
      | some i =>
        have hitems := listLineItems_eq hagree h₁ hi₁ hi₂ hb
        have hsame : ∀ db : Db, InvoiceRepo.listLineItems { db with
            invoices := Table.update (InvoiceRepo.isIn b current.id current.state)
              (InvoiceRepo.move now toState) db.invoices } current.id =
            InvoiceRepo.listLineItems db current.id := fun _ => rfl
        simp only [Option.map_some, hsame, hitems]
        exact .ok _ (.updateInvoices hagree (fun i _ hi => (hisIn i hi).2)
          (fun i _ hi => (hisIn i hi).2) fun _ => ⟨rfl, rfl⟩)

/-! ## New invoices -/

section Create

variable {now : Timestamp} {req : CreateInvoiceRequest} {fresh : Fresh} {δ db : Db} {inv : Invoice}

/-- Whose the items are when an invoice has been added: those that were there keep their owner,
the new ones belong to the new invoice. -/
theorem filter_isItemOf_append (hcreated : InvoiceService.Created {} now b req fresh δ inv)
    (hdb : Linked db) (hfresh : ∀ i ∈ db.invoices, i.id ≠ inv.id) (c : Uuid) :
    (db.append δ).invoiceLineItems.filter ((db.append δ).isItemOf c) =
      db.invoiceLineItems.filter (db.isItemOf c) ++
        δ.invoiceLineItems.filter fun _ => decide (b = c) := by
  have hinvoices : (db.append δ).invoices = db.invoices ++ [inv] := by
    rw [Db.append, hcreated.invoices]
    rfl
  have hany : ∀ li, (db.append δ).isItemOf c li =
      (db.isItemOf c li || (decide (inv.id = li.invoiceId) && decide (inv.businessId = c))) := by
    intro li
    rw [Db.isItemOf, hinvoices, List.any_append, List.any_cons, List.any_nil, Bool.or_false]
    rfl
  have hold : ∀ li ∈ db.invoiceLineItems, (db.append δ).isItemOf c li = db.isItemOf c li := by
    intro li hli
    obtain ⟨i, hi, hid⟩ := hdb.itemOf li hli
    have hne : ¬ inv.id = li.invoiceId := fun heq => hfresh i hi (hid.trans heq.symm)
    rw [hany, decide_eq_false hne, Bool.false_and, Bool.or_false]
  have hnew : ∀ li ∈ δ.invoiceLineItems, (db.append δ).isItemOf c li = decide (b = c) := by
    intro li hli
    obtain ⟨rows, hitems, hrows, -⟩ := hcreated.items
    rw [hitems] at hli
    have hid : li.invoiceId = inv.id := (hrows li (by simpa using hli)).invoiceId
    have hnone : db.isItemOf c li = false := by
      rw [Db.isItemOf, List.any_eq_false]
      intro i hi hp
      simp only [Bool.and_eq_true, decide_eq_true_eq] at hp
      exact hfresh i hi (hp.1.trans hid)
    rw [hany, hnone, hid, hcreated.business]
    simp
  rw [Db.append, List.filter_append, ← List.filter_congr hold, ← List.filter_congr hnew]
  rfl

theorem Isolated.append (hagree : Agree b db₁ db₂) (h₁ : Linked db₁) (h₂ : Linked db₂)
    (hcreated : InvoiceService.Created {} now b req fresh δ inv)
    (hfresh₁ : ∀ i ∈ db₁.invoices, i.id ≠ inv.id) (hfresh₂ : ∀ i ∈ db₂.invoices, i.id ≠ inv.id) :
    Isolated b db₁ db₂ (db₁.append δ) (db₂.append δ) := by
  have hothers : ∀ c, c ≠ b → (δ.invoiceLineItems.filter fun _ => decide (b = c)) = [] := by
    intro c hc
    refine List.filter_eq_nil_iff.mpr fun _ _ => ?_
    rw [decide_eq_true_eq]
    exact fun heq => hc heq.symm
  refine
    { customers := .insert hagree.customers ?_
      invoices := .insert hagree.invoices ?_
      lineItems := ?_
      otherItems₁ := fun c hc => ?_
      otherItems₂ := fun c hc => ?_
      attempts := .insert hagree.attempts ?_
      keys := .insert hagree.keys ?_
      endpoints := .insert hagree.endpoints ?_
      events := .insert hagree.events ?_
      deliveries := .insert hagree.deliveries ?_
      apiKeys := .insert hagree.apiKeys ?_ }
  · rw [hcreated.rest]
    simp
  · rw [hcreated.invoices]
    intro i hi
    obtain rfl := List.mem_singleton.mp hi
    exact hcreated.business
  · rw [filter_isItemOf_append hcreated h₁ hfresh₁, filter_isItemOf_append hcreated h₂ hfresh₂]
    exact hagree.lineItems.append_right _
  · rw [filter_isItemOf_append hcreated h₁ hfresh₁, hothers c hc, List.append_nil]
  · rw [filter_isItemOf_append hcreated h₂ hfresh₂, hothers c hc, List.append_nil]
  · rw [hcreated.attempts]
    simp
  · rw [hcreated.keys]
    simp
  · rw [hcreated.rest]
    simp
  · rw [hcreated.events]
    intro e he
    obtain rfl := List.mem_singleton.mp he
    rfl
  · rw [hcreated.rest]
    simp
  · rw [hcreated.rest]
    simp

theorem createInvoice_same (hagree : Agree b db₁ db₂) (h₁ : Linked db₁) (h₂ : Linked db₂)
    (out : Outside) (hfresh₁ : (Op.createInvoice req fresh).Fresh out db₁)
    (hfresh₂ : (Op.createInvoice req fresh).Fresh out db₂) :
    SameEnd b db₁ db₂ (InvoiceService.create db₁ now b req fresh)
      (InvoiceService.create db₂ now b req fresh) := by
  have hcustomer : InvoiceService.customerExists db₁ b req.customerId =
      InvoiceService.customerExists db₂ b req.customerId :=
    Table.any_eq_of_own hagree.customers (fun c _ hc => (Bool.and_eq_true_iff.mp hc).2)
      fun c _ hc => (Bool.and_eq_true_iff.mp hc).2
  -- an item is on an invoice, so no item is on one that is not there yet
  have htx : ∀ {db : Db}, Linked db → (Op.createInvoice req fresh).Fresh out db →
      InvoiceService.createTx db now b req fresh =
        (InvoiceService.createTx {} now b req fresh).map (InvoiceService.onto db) := by
    rintro db hdb ⟨hi, hli, he⟩
    refine InvoiceService.createTx_eq_map hi hli (fun li hmem hid => ?_) he
    obtain ⟨i, himem, hiid⟩ := hdb.itemOf li hmem
    exact hi i himem (hiid.trans hid)
  unfold InvoiceService.create
  rw [hcustomer, htx h₁ hfresh₁, htx h₂ hfresh₂]
  split
  · exact .error _
  · split
    · cases hadds : InvoiceService.createTx {} now b req fresh with
      | error e => exact .error _
      | ok p =>
        obtain ⟨δ, resp⟩ := p
        obtain ⟨inv, hcreated⟩ := InvoiceService.createTx_eq_ok hadds
        refine .ok resp (.append hagree h₁ h₂ hcreated ?_ ?_)
        · rw [hcreated.id]
          exact hfresh₁.1
        · rw [hcreated.id]
          exact hfresh₂.1
    · exact .error _

end Create

/-! ## Payments -/

section Payments

open PaymentService (isKey newAttempt)

variable {now : Timestamp} {fresh fresh' : Fresh} {invoiceId : Uuid} {key : String}
  {req : PayRequest} {job : Job} {result : PspResult}

theorem readInvoice_eq (hagree : Agree b db₁ db₂) (h₁ : Linked db₁) :
    PaymentService.readInvoice db₁ b invoiceId req =
      PaymentService.readInvoice db₂ b invoiceId req := by
  have hfind := findInvoice_eq hagree h₁ invoiceId
    (p := fun i => i.id = invoiceId && i.businessId = b) fun i hi => by
      simpa only [Bool.and_eq_true, decide_eq_true_eq] using hi
  rw [PaymentService.readInvoice, PaymentService.readInvoice, hfind]

/-- All invoices of the id are the business's. -/
def OwnInvoice (b invoiceId : Uuid) (db : Db) : Prop :=
  ∀ i ∈ db.invoices, i.id = invoiceId → i.businessId = b

theorem ownInvoice_of_readInvoice {db : Db} (hdb : Linked db) {p : InvoiceState × Int64}
    (h : PaymentService.readInvoice db b invoiceId req = .ok p) : OwnInvoice b invoiceId db := by
  unfold PaymentService.readInvoice at h
  split_ifs at h
  split at h
  · cases h
  · rename_i i hfind
    have hi := List.mem_of_find?_eq_some hfind
    have hp := List.find?_some hfind
    simp only [Bool.and_eq_true, decide_eq_true_eq] at hp
    intro j hj hid
    rw [List.inj_on_of_nodup_map hdb.invoiceIds hj hi (hid.trans hp.1.symm)]
    exact hp.2

/-- The attempts of an own invoice are own rows. -/
theorem own_attempt {db : Db} (hdb : Linked db) (hown : OwnInvoice b invoiceId db)
    {a : PaymentAttempt} (ha : a ∈ db.paymentAttempts) (hid : a.invoiceId = invoiceId) :
    a.businessId = b := by
  obtain ⟨i, hi, hia, hb⟩ := hdb.attemptOf a ha
  rw [← hb]
  exact hown i hi (hia.trans hid)

theorem own_of_isKey {k : IdempotencyKey} (h : isKey b key k = true) : k.businessId = b :=
  of_decide_eq_true (Bool.and_eq_true_iff.mp h).1

/-- The two inserts of the key go the same way. -/
theorem insertKey_same (hagree : Agree b db₁ db₂) {id : Uuid}
    (hkey₁ : ∀ k ∈ db₁.idempotencyKeys, k.id ≠ id) (hkey₂ : ∀ k ∈ db₂.idempotencyKeys, k.id ≠ id)
    (key : String) (fp : List UInt8) :
    (∃ e, PaymentService.insertKey db₁ id b key fp = .error e ∧
      PaymentService.insertKey db₂ id b key fp = .error e) ∨
    (PaymentService.insertKey db₁ id b key fp = .ok none ∧
      PaymentService.insertKey db₂ id b key fp = .ok none) ∨
    ∃ row : IdempotencyKey, row.businessId = b ∧
      PaymentService.insertKey db₁ id b key fp =
        .ok (some { db₁ with idempotencyKeys := db₁.idempotencyKeys ++ [row] }) ∧
      PaymentService.insertKey db₂ id b key fp =
        .ok (some { db₂ with idempotencyKeys := db₂.idempotencyKeys ++ [row] }) := by
  have hown : ∀ k : IdempotencyKey, (k.businessId, k.idempotencyKey) = (b, key) →
      decide (k.businessId = b) = true := fun k hpair => decide_eq_true (Prod.mk.inj hpair).1
  have hpair : uqIdempotencyBusinessKey.conflicts db₁.idempotencyKeys
        { id, businessId := b, idempotencyKey := key, requestFingerprint := fp } =
      uqIdempotencyBusinessKey.conflicts db₂.idempotencyKeys
        { id, businessId := b, idempotencyKey := key, requestFingerprint := fp } :=
    Table.UniqueIndex.conflicts_eq_of_own hagree.keys (fun k _ _ hkey => hown k hkey)
      fun k _ _ hkey => hown k hkey
  have hid : ∀ {t : List IdempotencyKey}, (∀ k ∈ t, k.id ≠ id) →
      (primaryKey IdempotencyKey.id).conflicts t
        { id, businessId := b, idempotencyKey := key, requestFingerprint := fp } = false :=
    fun hfresh => Table.UniqueIndex.conflicts_eq_false fun k hk _ => hfresh k hk
  unfold PaymentService.insertKey
  by_cases htext : isPgText key = true
  · rw [if_neg (not_not.mpr htext), if_neg (not_not.mpr htext)]
    simp only [hpair, hid hkey₁, hid hkey₂, Bool.false_eq_true, if_false]
    split
    · exact .inr (.inl ⟨rfl, rfl⟩)
    · exact .inr (.inr ⟨_, rfl, rfl, rfl⟩)
  · rw [if_pos htext, if_pos htext]
    exact .inl ⟨_, rfl, rfl⟩

/-- The two inserts of the attempt go the same way: whoever holds the invoice is the business. -/
theorem insertAttempt_same (hagree : Agree b db₁ db₂) (h₁ : Linked db₁) (h₂ : Linked db₂) (job : Job)
    (hown₁ : OwnInvoice b job.invoiceId db₁) (hown₂ : OwnInvoice b job.invoiceId db₂)
    (hid₁ : ∀ a ∈ db₁.paymentAttempts, a.id ≠ job.attemptId)
    (hid₂ : ∀ a ∈ db₂.paymentAttempts, a.id ≠ job.attemptId) {keys₁ keys₂ : List IdempotencyKey} :
    (∃ e, PaymentService.insertAttempt { db₁ with idempotencyKeys := keys₁ } job = .error e ∧
      PaymentService.insertAttempt { db₂ with idempotencyKeys := keys₂ } job = .error e) ∨
    (PaymentService.insertAttempt { db₁ with idempotencyKeys := keys₁ } job =
        .ok { db₁ with
          idempotencyKeys := keys₁
          paymentAttempts := db₁.paymentAttempts ++ [newAttempt job] } ∧
      PaymentService.insertAttempt { db₂ with idempotencyKeys := keys₂ } job =
        .ok { db₂ with
          idempotencyKeys := keys₂
          paymentAttempts := db₂.paymentAttempts ++ [newAttempt job] }) := by
  have hactive : uqActiveAttemptPerInvoice.conflicts db₁.paymentAttempts (newAttempt job) =
      uqActiveAttemptPerInvoice.conflicts db₂.paymentAttempts (newAttempt job) :=
    Table.UniqueIndex.conflicts_eq_of_own hagree.attempts
      (fun a ha _ hid => decide_eq_true (own_attempt h₁ hown₁ ha hid))
      fun a ha _ hid => decide_eq_true (own_attempt h₂ hown₂ ha hid)
  have hid : ∀ {t : List PaymentAttempt}, (∀ a ∈ t, a.id ≠ job.attemptId) →
      (primaryKey PaymentAttempt.id).conflicts t (newAttempt job) = false :=
    fun hfresh => Table.UniqueIndex.conflicts_eq_false fun a ha _ => hfresh a ha
  unfold PaymentService.insertAttempt
  by_cases hcheck : ¬ isPgText job.cardToken ∨ job.amountCents < 0
  · rw [if_pos hcheck, if_pos hcheck]
    exact .inl ⟨_, rfl, rfl⟩
  · rw [if_neg hcheck, if_neg hcheck]
    simp only [hactive, hid hid₁, hid hid₂, Bool.false_eq_true, false_or]
    split
    · exact .inl ⟨_, rfl, rfl⟩
    · exact .inr ⟨rfl, rfl⟩

/-- Two runs of transaction 1 end the same way. -/
inductive SameClaim (b : Uuid) (db₁ db₂ : Db) :
    PaymentService.Claim → PaymentService.Claim → Prop
  | replay : SameClaim b db₁ db₂ .replay .replay
  | refused (e : AppError) : SameClaim b db₁ db₂ (.refused e) (.refused e)
  | claimed (job : Job) {db₁' db₂' : Db} (h : Isolated b db₁ db₂ db₁' db₂') :
    SameClaim b db₁ db₂ (.claimed db₁' job) (.claimed db₂' job)

theorem claim_same (hagree : Agree b db₁ db₂) (h₁ : Linked db₁) (h₂ : Linked db₂)
    (hown₁ : OwnInvoice b invoiceId db₁) (hown₂ : OwnInvoice b invoiceId db₂)
    (hkey₁ : ∀ k ∈ db₁.idempotencyKeys, k.id ≠ fresh.newId 0)
    (hkey₂ : ∀ k ∈ db₂.idempotencyKeys, k.id ≠ fresh.newId 0)
    (hid₁ : ∀ a ∈ db₁.paymentAttempts, a.id ≠ fresh.newId 1)
    (hid₂ : ∀ a ∈ db₂.paymentAttempts, a.id ≠ fresh.newId 1)
    (sha256 : List UInt8 → List UInt8) (state : InvoiceState) (amount : Int64) :
    SameClaim b db₁ db₂ (PaymentService.claim sha256 db₁ fresh b invoiceId key req state amount)
      (PaymentService.claim sha256 db₂ fresh b invoiceId key req state amount) := by
  unfold PaymentService.claim
  rcases insertKey_same hagree hkey₁ hkey₂ key
      (PaymentService.fingerprint sha256 invoiceId req.cardToken amount) with
    ⟨e, hi₁, hi₂⟩ | ⟨hi₁, hi₂⟩ | ⟨row, hrow, hi₁, hi₂⟩
  · rw [hi₁, hi₂]
    exact .refused _
  · rw [hi₁, hi₂]
    exact .replay
  · rw [hi₁, hi₂]
    dsimp only
    by_cases hopen : state ≠ .open
    · rw [if_pos hopen, if_pos hopen]
      exact .refused _
    · rw [if_neg hopen, if_neg hopen]
      let job : Job :=
        { attemptId := fresh.newId 1, invoiceId, businessId := b, idempotencyKey := key
          amountCents := amount, cardToken := req.cardToken }
      rcases insertAttempt_same hagree h₁ h₂ job hown₁ hown₂ hid₁ hid₂ with
        ⟨e, ha₁, ha₂⟩ | ⟨ha₁, ha₂⟩
      · rw [ha₁, ha₂]
        exact .refused _
      · rw [ha₁, ha₂]
        have hkeys : OwnWrite IdempotencyKey.businessId b db₁.idempotencyKeys db₂.idempotencyKeys
            (db₁.idempotencyKeys ++ [row]) (db₂.idempotencyKeys ++ [row]) :=
          .insert hagree.keys fun k hk => by rw [List.mem_singleton.mp hk, hrow]
        refine .claimed _
          { Isolated.nothing hagree with
            attempts := .insert hagree.attempts fun a ha => by rw [List.mem_singleton.mp ha]; rfl
            keys := hkeys.trans (.update hkeys.agree (fun k _ hk => own_of_isKey hk)
              (fun k _ hk => own_of_isKey hk) fun k => rfl) }

theorem commitOutcome_eq {db : Db} {t : EventType} {status : StatusCode}
    {resp : PaymentAttemptResponse} (h : ∀ e ∈ db.webhookEvents, e.id ≠ fresh.newId 0) :
    PaymentService.commitOutcome db now fresh job t status resp =
      .ok (PaymentService.completeKey { db with
        webhookEvents := db.webhookEvents ++ [PaymentService.paymentEvent now fresh job t resp] }
        job.businessId job.idempotencyKey status resp, (status, resp)) := by
  obtain ⟨⟨db', o⟩, hcommit⟩ : ∃ p, PaymentService.commitOutcome db now fresh job t status resp =
      .ok p := PaymentService.exists_commitOutcome h
  obtain ⟨-, rfl, rfl⟩ := PaymentService.commitOutcome_eq_ok hcommit
  exact hcommit

/-- Two runs of transaction 2 end the same way: it writes to the attempt, to the invoice and to the
key by their ids, and all of them are own rows. -/
theorem finalize_same (hagree : Agree b db₁ db₂) (hb : job.businessId = b)
    (hown₁ : OwnInvoice b job.invoiceId db₁) (hown₂ : OwnInvoice b job.invoiceId db₂)
    (hattempt₁ : ∀ a ∈ db₁.paymentAttempts, a.id = job.attemptId → a.businessId = b)
    (hattempt₂ : ∀ a ∈ db₂.paymentAttempts, a.id = job.attemptId → a.businessId = b)
    (hevent₁ : ∀ e ∈ db₁.webhookEvents, e.id ≠ fresh.newId 0)
    (hevent₂ : ∀ e ∈ db₂.webhookEvents, e.id ≠ fresh.newId 0) :
    SameEnd b db₁ db₂ (PaymentService.finalize db₁ now fresh job result)
      (PaymentService.finalize db₂ now fresh job result) := by
  have hpending : ∀ a, PaymentService.isPending job.attemptId a = true → a.id = job.attemptId :=
    fun a ha => of_decide_eq_true (Bool.and_eq_true_iff.mp ha).1
  have hopen : ∀ i, PaymentService.isOpen job.invoiceId i = true → i.id = job.invoiceId :=
    fun i hi => of_decide_eq_true (Bool.and_eq_true_iff.mp hi).1
  have hattempts : ∀ f : PaymentAttempt → PaymentAttempt, (∀ a, (f a).businessId = a.businessId) →
      OwnWrite PaymentAttempt.businessId b db₁.paymentAttempts db₂.paymentAttempts
        (Table.update (PaymentService.isPending job.attemptId) f db₁.paymentAttempts)
        (Table.update (PaymentService.isPending job.attemptId) f db₂.paymentAttempts) :=
    fun f hf => .update hagree.attempts (fun a ha hp => hattempt₁ a ha (hpending a hp))
      (fun a ha hp => hattempt₂ a ha (hpending a hp)) hf
  have hpaid := Isolated.updateInvoices hagree
    (p := PaymentService.isOpen job.invoiceId)
    (f := fun i => { i with state := .paid, paidAt := some now, version := i.version + 1 })
    (fun i hi hp => hown₁ i hi (hopen i hp)) (fun i hi hp => hown₂ i hi (hopen i hp))
    fun _ => ⟨rfl, rfl⟩
  have hkeys : ∀ o, OwnWrite IdempotencyKey.businessId b db₁.idempotencyKeys
      db₂.idempotencyKeys
      (Table.update (isKey job.businessId job.idempotencyKey) (PaymentService.completedKey o)
        db₁.idempotencyKeys)
      (Table.update (isKey job.businessId job.idempotencyKey) (PaymentService.completedKey o)
        db₂.idempotencyKeys) := by
    intro o
    rw [hb]
    exact .update hagree.keys (fun k _ hk => own_of_isKey hk) (fun k _ hk => own_of_isKey hk)
      fun _ => rfl
  have hevents : ∀ t resp, OwnWrite WebhookEvent.businessId b db₁.webhookEvents db₂.webhookEvents
      (db₁.webhookEvents ++ [PaymentService.paymentEvent now fresh job t resp])
      (db₂.webhookEvents ++ [PaymentService.paymentEvent now fresh job t resp]) :=
    fun t resp => .insert hagree.events fun e he => by rw [List.mem_singleton.mp he]; exact hb
  cases result with
  | succeeded pspRef =>
    unfold PaymentService.finalize
    dsimp only
    by_cases htext : isPgText pspRef = true
    · rw [if_neg (not_not.mpr htext), if_neg (not_not.mpr htext), commitOutcome_eq,
        commitOutcome_eq]
      · exact .ok _ { hpaid with
          attempts := hattempts _ fun _ => rfl
          keys := hkeys (.ok, PaymentService.succeededResponse job pspRef)
          events := hevents .invoicePaid (PaymentService.succeededResponse job pspRef) }
      · exact hevent₂
      · exact hevent₁
    · rw [if_pos htext, if_pos htext]
      exact .error _
  | declined code =>
    unfold PaymentService.finalize
    dsimp only
    by_cases htext : isPgText code = true
    · rw [if_neg (not_not.mpr htext), if_neg (not_not.mpr htext), commitOutcome_eq,
        commitOutcome_eq]
      · exact .ok _ { Isolated.nothing hagree with
          attempts := hattempts _ fun _ => rfl
          keys := hkeys (.paymentRequired, PaymentService.declinedResponse job code)
          events := hevents .invoicePaymentFailed (PaymentService.declinedResponse job code) }
      · exact hevent₂
      · exact hevent₁
    · rw [if_pos htext, if_pos htext]
      exact .error _
  | unknown reason =>
    exact .ok _ { Isolated.nothing hagree with attempts := hattempts _ fun _ => rfl }

/-- The row a replay answers from is an own row. -/
theorem replay_eq (hagree : Agree b db₁ db₂) (h₁ : Linked db₁) (key : String) (fp : List UInt8)
    (invoiceId : Uuid) :
    PaymentService.replay db₁ b key fp invoiceId = PaymentService.replay db₂ b key fp invoiceId := by
  have hfind : db₁.idempotencyKeys.find? (isKey b key) = db₂.idempotencyKeys.find? (isKey b key) := by
    refine Table.find?_eq_of_own hagree.keys (fun k _ hk => decide_eq_true (own_of_isKey hk))
      (fun k _ hk => decide_eq_true (own_of_isKey hk)) fun k hk k' hk' hkey hkey' => ?_
    simp only [isKey, Bool.and_eq_true, decide_eq_true_eq] at hkey hkey'
    exact h₁.keyPairs.eq_of_mem hk hk' rfl rfl
      (Prod.ext (hkey.1.trans hkey'.1.symm) (hkey.2.trans hkey'.2.symm))
  rw [PaymentService.replay, PaymentService.replay, hfind]

theorem pay_same (hagree : Agree b db₁ db₂) (h₁ : Linked db₁) (h₂ : Linked db₂) (out : Outside)
    (hfresh₁ : (Op.pay invoiceId key req result fresh fresh').Fresh out db₁)
    (hfresh₂ : (Op.pay invoiceId key req result fresh fresh').Fresh out db₂)
    (sha256 : List UInt8 → List UInt8) :
    SameRun b db₁ db₂
      (PaymentService.pay sha256 db₁ now fresh fresh' b invoiceId key req result)
      (PaymentService.pay sha256 db₂ now fresh fresh' b invoiceId key req result) := by
  have hreadEq : PaymentService.readInvoice db₁ b invoiceId req =
      PaymentService.readInvoice db₂ b invoiceId req := readInvoice_eq hagree h₁
  unfold PaymentService.pay
  rw [← hreadEq]
  cases hread : PaymentService.readInvoice db₁ b invoiceId req with
  | error e => exact ⟨rfl, .nothing hagree⟩
  | ok p =>
    obtain ⟨state, amount⟩ := p
    have hown₁ := ownInvoice_of_readInvoice h₁ hread
    have hown₂ := ownInvoice_of_readInvoice h₂ (hreadEq.symm.trans hread)
    have hclaim : SameClaim b db₁ db₂
        (PaymentService.claim sha256 db₁ fresh b invoiceId key req state amount)
        (PaymentService.claim sha256 db₂ fresh b invoiceId key req state amount) :=
      claim_same hagree h₁ h₂ hown₁ hown₂ hfresh₁.1 hfresh₂.1 hfresh₁.2.1 hfresh₂.2.1 sha256 state
        amount
    dsimp only
    generalize hc₁ : PaymentService.claim sha256 db₁ fresh b invoiceId key req state amount = c₁
      at hclaim
    generalize hc₂ : PaymentService.claim sha256 db₂ fresh b invoiceId key req state amount = c₂
      at hclaim
    cases hclaim with
    | replay => exact ⟨replay_eq hagree h₁ key _ invoiceId, .nothing hagree⟩
    | refused e => exact ⟨rfl, .nothing hagree⟩
    | @claimed job db₁' db₂' hisolated =>
      -- the job is for the invoice that was read, and its attempt is a new row
      have hjob := (PaymentService.claim_claimed hc₁).1
      have hafter : ∀ {db db' : Db}, OwnInvoice b invoiceId db →
          (Op.pay invoiceId key req result fresh fresh').Fresh out db →
          PaymentService.claim sha256 db fresh b invoiceId key req state amount =
            .claimed db' job →
          OwnInvoice b job.invoiceId db' ∧
          (∀ a ∈ db'.paymentAttempts, a.id = job.attemptId → a.businessId = b) ∧
          ∀ e ∈ db'.webhookEvents, e.id ≠ fresh'.newId 0 := by
        intro db db' hown hfresh hc
        obtain ⟨-, hclaimed⟩ := PaymentService.claim_claimed hc
        rw [hclaimed.post]
        refine ⟨?_, ?_, hfresh.2.2⟩
        · rw [hjob.1]
          exact hown
        · intro a ha hid
          rcases List.mem_append.mp ha with ha | ha
          · exact absurd (hid.trans hclaimed.attemptId) (hfresh.2.1 a ha)
          · rw [List.mem_singleton.mp ha]
            exact hjob.2.1
      obtain ⟨hinv₁, hatt₁, hev₁⟩ := hafter hown₁ hfresh₁ hc₁
      obtain ⟨hinv₂, hatt₂, hev₂⟩ := hafter hown₂ hfresh₂ hc₂
      have hfinalize : SameEnd b db₁' db₂'
          (PaymentService.finalize db₁' now fresh' job result)
          (PaymentService.finalize db₂' now fresh' job result) :=
        finalize_same hisolated.agree hjob.2.1 hinv₁ hinv₂ hatt₁ hatt₂ hev₁ hev₂
      dsimp only
      generalize PaymentService.finalize db₁' now fresh' job result = r₁ at hfinalize
      generalize PaymentService.finalize db₂' now fresh' job result = r₂ at hfinalize
      cases hfinalize with
      | error e => exact ⟨rfl, hisolated⟩
      | ok o h => exact ⟨rfl, hisolated.trans h⟩

/-- The poll reads the invoice by its id alone, but the attempt it has read says whose it is. -/
theorem getAttempt_eq (hagree : Agree b db₁ db₂) (h₁ : Linked db₁) (h₂ : Linked db₂)
    (invoiceId attemptId : Uuid) :
    PaymentService.getAttempt db₁ b invoiceId attemptId =
      PaymentService.getAttempt db₂ b invoiceId attemptId := by
  have hsplit : ∀ {a : PaymentAttempt}, PaymentService.isAttempt b invoiceId attemptId a = true →
      a.id = attemptId ∧ a.invoiceId = invoiceId ∧ a.businessId = b := by
    intro a ha
    simp only [PaymentService.isAttempt, Bool.and_eq_true, decide_eq_true_eq] at ha
    exact ⟨ha.1.1, ha.1.2, ha.2⟩
  have hattempt : db₁.paymentAttempts.find? (PaymentService.isAttempt b invoiceId attemptId) =
      db₂.paymentAttempts.find? (PaymentService.isAttempt b invoiceId attemptId) :=
    Table.find?_eq_of_own hagree.attempts (fun a _ ha => decide_eq_true (hsplit ha).2.2)
      (fun a _ ha => decide_eq_true (hsplit ha).2.2) fun a ha a' ha' hp hp' =>
        List.inj_on_of_nodup_map h₁.attemptIds ha ha' ((hsplit hp).1.trans (hsplit hp').1.symm)
  unfold PaymentService.getAttempt
  rw [← hattempt]
  cases ha : db₁.paymentAttempts.find? (PaymentService.isAttempt b invoiceId attemptId) with
  | none => rfl
  | some a =>
    obtain ⟨-, hid, hb⟩ := hsplit (List.find?_some ha)
    -- the invoice of the attempt is there, and it is the only one with its id
    have hown : ∀ {db : Db}, Linked db →
        db.paymentAttempts.find? (PaymentService.isAttempt b invoiceId attemptId) = some a →
        OwnInvoice b invoiceId db := by
      intro db hdb hfind i hi hiid
      obtain ⟨j, hj, hja, hjb⟩ := hdb.attemptOf a (List.mem_of_find?_eq_some hfind)
      rw [List.inj_on_of_nodup_map hdb.invoiceIds hi hj (hiid.trans (hja.trans hid).symm)]
      exact hjb.trans hb
    have hinvoice : (db₁.invoices.find? fun i => i.id = invoiceId) =
        db₂.invoices.find? fun i => i.id = invoiceId := by
      refine Table.find?_eq_of_own hagree.invoices
        (fun i hi hp => decide_eq_true (hown h₁ ha i hi (of_decide_eq_true hp)))
        (fun i hi hp => decide_eq_true
          (hown h₂ (hattempt.symm.trans ha) i hi (of_decide_eq_true hp)))
        fun i hi j hj hpi hpj => ?_
      exact List.inj_on_of_nodup_map h₁.invoiceIds hi hj
        ((of_decide_eq_true hpi).trans (of_decide_eq_true hpj).symm)
    dsimp only
    rw [hinvoice]

end Payments

/-! ## Webhooks -/

theorem registerEndpoint_same (hagree : Agree b db₁ db₂) (now : Timestamp) {id : Uuid}
    (secret : List UInt8) (req : CreateEndpointRequest)
    (hfresh₁ : ∀ ep ∈ db₁.webhookEndpoints, ep.id ≠ id)
    (hfresh₂ : ∀ ep ∈ db₂.webhookEndpoints, ep.id ≠ id) :
    SameEnd b db₁ db₂ (WebhookService.registerEndpoint db₁ now id secret b req)
      (WebhookService.registerEndpoint db₂ now id secret b req) := by
  have hid : ∀ {t : List WebhookEndpoint} {ep : WebhookEndpoint}, (∀ x ∈ t, x.id ≠ id) →
      ep.id = id → (primaryKey WebhookEndpoint.id).conflicts t ep = false := by
    rintro t ep hfresh rfl
    exact Table.UniqueIndex.conflicts_eq_false fun x hx _ => hfresh x hx
  unfold WebhookService.registerEndpoint
  split
  · exact .error _
  · split
    · exact .error _
    · dsimp only
      rw [hid hfresh₁ rfl, hid hfresh₂ rfl, if_neg Bool.false_ne_true, if_neg Bool.false_ne_true]
      exact .ok _ { Isolated.nothing hagree with
        endpoints := .insert hagree.endpoints fun ep hep => by rw [List.mem_singleton.mp hep] }

theorem listEvents_eq (hagree : Agree b db₁ db₂) (h₁ : Linked db₁) (rfc : Pagination.Rfc3339)
    (limit : Option Int64) (cursor : Option String) :
    WebhookService.listEvents rfc db₁ b limit cursor =
      WebhookService.listEvents rfc db₂ b limit cursor := by
  have hfetch : WebhookService.fetchEvents db₁ b = WebhookService.fetchEvents db₂ b := by
    funext n c
    exact select_eq hagree.events (nodup_filter_ids h₁.eventIds _) n _
  rw [WebhookService.listEvents, WebhookService.listEvents, hfetch]

theorem listDeliveries_eq (hagree : Agree b db₁ db₂) (scan : List WebhookDelivery)
    (status : Option String) :
    WebhookService.listDeliveries db₁ scan b status =
      WebhookService.listDeliveries db₂ scan b status := by
  have hperm := Table.filter_perm_of_own (p := WebhookService.isListed b status)
    hagree.deliveries (fun d _ hd => (Bool.and_eq_true_iff.mp hd).1)
    fun d _ hd => (Bool.and_eq_true_iff.mp hd).1
  rw [WebhookService.listDeliveries, WebhookService.listDeliveries,
    Table.orderDesc_eq_of_perm _ hperm]

/-- Two runs of a statement that answers nothing. -/
inductive SameWrite (b : Uuid) (db₁ db₂ : Db) : Except AppError Db → Except AppError Db → Prop
  | error (e : AppError) : SameWrite b db₁ db₂ (.error e) (.error e)
  | ok {db₁' db₂' : Db} (h : Isolated b db₁ db₂ db₁' db₂') : SameWrite b db₁ db₂ (.ok db₁') (.ok db₂')

theorem redeliver_same (hagree : Agree b db₁ db₂) (now : Timestamp) (deliveryId : Uuid) :
    SameWrite b db₁ db₂ (WebhookService.redeliver db₁ now b deliveryId)
      (WebhookService.redeliver db₂ now b deliveryId) := by
  have hown : ∀ d, WebhookService.canRedeliver b deliveryId d = true → d.businessId = b := by
    intro d hd
    simp only [WebhookService.canRedeliver, Bool.and_eq_true, decide_eq_true_eq] at hd
    exact hd.1.2
  have hany : db₁.webhookDeliveries.any (WebhookService.canRedeliver b deliveryId) =
      db₂.webhookDeliveries.any (WebhookService.canRedeliver b deliveryId) :=
    Table.any_eq_of_own hagree.deliveries (fun d _ hd => decide_eq_true (hown d hd))
      fun d _ hd => decide_eq_true (hown d hd)
  unfold WebhookService.redeliver
  rw [hany]
  split
  · exact .ok { Isolated.nothing hagree with
      deliveries := .update hagree.deliveries (fun d _ hd => hown d hd) (fun d _ hd => hown d hd)
        fun _ => rfl }
  · exact .error _

/-! ## API keys -/

theorem createKey_same (hagree : Agree b db₁ db₂) (out : Outside) (now : Timestamp) {id : Uuid}
    {random : Auth.RandomBody} {req : CreateApiKeyRequest}
    (hfresh₁ : (Op.createKey id random req).Fresh out db₁)
    (hfresh₂ : (Op.createKey id random req).Fresh out db₂) :
    SameEnd b db₁ db₂ (ApiKeys.create out.sha256 db₁ now id random b req)
      (ApiKeys.create out.sha256 db₂ now id random b req) := by
  have hfree : ∀ {db : Db} {k : ApiKey}, (Op.createKey id random req).Fresh out db → k.id = id →
      k.keyPrefix = (Auth.generateKey out.sha256 (req.env.getD "test") random).keyPrefix →
      ((primaryKey ApiKey.id).conflicts db.apiKeys k ∨ uqApiKeysPrefix.conflicts db.apiKeys k) =
        False := by
    intro db k hfresh hid hpre
    have hid' : (primaryKey ApiKey.id).conflicts db.apiKeys k = false :=
      Table.UniqueIndex.conflicts_eq_false fun x hx _ => by
        rw [show (primaryKey ApiKey.id).key k = id from hid]
        exact (hfresh x hx).1
    have hpre' : uqApiKeysPrefix.conflicts db.apiKeys k = false :=
      Table.UniqueIndex.conflicts_eq_false fun x hx _ => by
        rw [show uqApiKeysPrefix.key k = _ from hpre]
        exact (hfresh x hx).2
    simp [hid', hpre']
  unfold ApiKeys.create ApiKeyRepo.insert
  dsimp only
  by_cases htext : req.name.all isPgText = true
  · simp only [htext, not_true_eq_false, if_false, hfree hfresh₁, hfree hfresh₂]
    exact .ok _ { Isolated.nothing hagree with
      apiKeys := .insert hagree.apiKeys fun k hk => by rw [List.mem_singleton.mp hk] }
  · rw [if_pos htext, if_pos htext]
    exact .error _

theorem listKeys_eq (hagree : Agree b db₁ db₂) (scan : List ApiKey) :
    ApiKeyRepo.list db₁ scan b = ApiKeyRepo.list db₂ scan b := by
  have hperm : (db₁.apiKeys.filter fun k => k.businessId = b).Perm
      (db₂.apiKeys.filter fun k => k.businessId = b) := hagree.apiKeys
  rw [ApiKeyRepo.list, ApiKeyRepo.list, Table.orderDesc_eq_of_perm _ hperm]

theorem revokeKey_same (hagree : Agree b db₁ db₂) (now : Timestamp) (id : Uuid) :
    SameWrite b db₁ db₂ (ApiKeys.revoke db₁ now b id) (ApiKeys.revoke db₂ now b id) := by
  have hown : ∀ k, ApiKeyRepo.isRevocable b id k = true → k.businessId = b := by
    intro k hk
    simp only [ApiKeyRepo.isRevocable, Bool.and_eq_true, decide_eq_true_eq] at hk
    exact hk.1.2
  have hany : db₁.apiKeys.any (ApiKeyRepo.isRevocable b id) =
      db₂.apiKeys.any (ApiKeyRepo.isRevocable b id) :=
    Table.any_eq_of_own hagree.apiKeys (fun k _ hk => decide_eq_true (hown k hk))
      fun k _ hk => decide_eq_true (hown k hk)
  unfold ApiKeys.revoke ApiKeyRepo.revoke
  rw [hany]
  cases db₂.apiKeys.any (ApiKeyRepo.isRevocable b id) with
  | false => exact .error _
  | true =>
    exact .ok { Isolated.nothing hagree with
      apiKeys := .update hagree.apiKeys (fun k _ hk => hown k hk) (fun k _ hk => hown k hk)
        fun _ => rfl }

/-! ## Every operation -/

/-- What an operation may give on one database, it gives on the other. -/
theorem perform_same {out : Outside} {now : Timestamp} {op : Op} {a : Except AppError Reply}
    (hagree : Agree b db₁ db₂) (h₁ : Linked db₁) (h₂ : Linked db₂) (hfresh₁ : op.Fresh out db₁)
    (hfresh₂ : op.Fresh out db₂) (h : op.perform out now b db₁ = some (db₁', a)) :
    ∃ db₂', op.perform out now b db₂ = some (db₂', a) ∧ Isolated b db₁ db₂ db₁' db₂' := by
  -- the three shapes an operation has
  have hquery : ∀ {a' : Except AppError Reply}, op.perform out now b db₁ = some (db₁, a') →
      op.perform out now b db₂ = some (db₂, a') →
      ∃ db₂', op.perform out now b db₂ = some (db₂', a) ∧ Isolated b db₁ db₂ db₁' db₂' := by
    intro a' hp₁ hp₂
    rw [hp₁] at h
    obtain ⟨rfl, rfl⟩ := Prod.mk.inj (Option.some.inj h)
    exact ⟨db₂, hp₂, .nothing hagree⟩
  have hrun : ∀ {α : Type} {f : α → Reply} {r₁ r₂ : Db × Except AppError α},
      SameRun b db₁ db₂ r₁ r₂ → op.perform out now b db₁ = some (r₁.1, r₁.2.map f) →
      op.perform out now b db₂ = some (r₂.1, r₂.2.map f) →
      ∃ db₂', op.perform out now b db₂ = some (db₂', a) ∧ Isolated b db₁ db₂ db₁' db₂' := by
    intro α f r₁ r₂ hsame hp₁ hp₂
    rw [hp₁] at h
    obtain ⟨rfl, rfl⟩ := Prod.mk.inj (Option.some.inj h)
    rw [hsame.1]
    exact ⟨_, hp₂, hsame.2⟩
  have hwrite : ∀ {r₁ r₂ : Except AppError Db}, SameWrite b db₁ db₂ r₁ r₂ →
      op.perform out now b db₁ = some (afterWrite db₁ r₁) →
      op.perform out now b db₂ = some (afterWrite db₂ r₂) →
      ∃ db₂', op.perform out now b db₂ = some (db₂', a) ∧ Isolated b db₁ db₂ db₁' db₂' := by
    intro r₁ r₂ hsame hp₁ hp₂
    rw [hp₁] at h
    cases hsame with
    | error e =>
      obtain ⟨rfl, rfl⟩ := Prod.mk.inj (Option.some.inj h)
      exact ⟨_, hp₂, .nothing hagree⟩
    | ok hisolated =>
      obtain ⟨rfl, rfl⟩ := Prod.mk.inj (Option.some.inj h)
      exact ⟨_, hp₂, hisolated⟩
  cases op with
  | createCustomer id req =>
    exact hrun ((createCustomer_same hagree out.lower now req hfresh₁ hfresh₂).commit hagree) rfl rfl
  | getCustomer id =>
    refine hquery rfl ?_
    rw [getCustomer_eq hagree h₁ id]
    rfl
  | listCustomers limit cursor =>
    refine hquery rfl ?_
    rw [listCustomers_eq hagree h₁]
    rfl
  | createInvoice req fresh =>
    exact hrun ((createInvoice_same hagree h₁ h₂ out hfresh₁ hfresh₂).commit hagree) rfl rfl
  | getInvoice id =>
    refine hquery rfl ?_
    rw [getInvoice_eq hagree h₁ id]
    rfl
  | listInvoices state limit cursor =>
    refine hquery rfl ?_
    rw [listInvoices_eq hagree h₁]
    rfl
  | transition id action =>
    exact hrun ((transition_same hagree h₁ now id action.target).commit hagree) rfl rfl
  | pay invoiceId key req result fresh fresh' =>
    exact hrun (pay_same hagree h₁ h₂ out hfresh₁ hfresh₂ out.sha256) rfl rfl
  | getAttempt invoiceId attemptId =>
    refine hquery rfl ?_
    rw [getAttempt_eq hagree h₁ h₂]
    rfl
  | registerEndpoint id secret req =>
    exact hrun ((registerEndpoint_same hagree now secret req hfresh₁ hfresh₂).commit hagree) rfl rfl
  | listEvents limit cursor =>
    refine hquery rfl ?_
    rw [listEvents_eq hagree h₁]
    rfl
  | listDeliveries status scan =>
    obtain ⟨r, hr, hra⟩ := Option.map_eq_some_iff.mp h
    obtain ⟨rfl, rfl⟩ := Prod.mk.inj hra
    rw [listDeliveries_eq hagree] at hr
    exact ⟨db₂, Option.map_eq_some_iff.mpr ⟨r, hr, rfl⟩, .nothing hagree⟩
  | redeliver deliveryId =>
    exact hwrite (redeliver_same hagree now deliveryId) rfl rfl
  | createKey id random req =>
    exact hrun ((createKey_same hagree out now hfresh₁ hfresh₂).commit hagree) rfl rfl
  | listKeys scan =>
    obtain ⟨items, hitems, hia⟩ := Option.map_eq_some_iff.mp h
    obtain ⟨rfl, rfl⟩ := Prod.mk.inj hia
    rw [listKeys_eq hagree] at hitems
    exact ⟨db₂, Option.map_eq_some_iff.mpr ⟨items, hitems, rfl⟩, .nothing hagree⟩
  | revokeKey id =>
    exact hwrite (revokeKey_same hagree now id) rfl rfl

/-- Every operation of a business gives the same answer on two reachable databases that agree on
its rows, leaves them agreeing, and leaves the rows of every other business alone. -/
theorem tenant_isolation {δ₁ δ₂ : Type} {env₁ : Env δ₁} {env₂ : Env δ₂} {s₁ s₂ : State}
    (h₁ : (system env₁).Reachable s₁) (h₂ : (system env₂).Reachable s₂)
    (hagree : Agree b s₁.db s₂.db) {out : Outside} {now : Timestamp} {op : Op}
    (hfresh₁ : op.Fresh out s₁.db) (hfresh₂ : op.Fresh out s₂.db) {a : Except AppError Reply}
    (h : op.perform out now b s₁.db = some (db₁', a)) :
    ∃ db₂', op.perform out now b s₂.db = some (db₂', a) ∧ Agree b db₁' db₂' ∧
      ∀ c, c ≠ b → db₁'.rowsOf c = s₁.db.rowsOf c ∧ db₂'.rowsOf c = s₂.db.rowsOf c := by
  obtain ⟨db₂', hperform, hisolated⟩ := perform_same hagree (linked_of_reachable h₁)
    (linked_of_reachable h₂) hfresh₁ hfresh₂ h
  exact ⟨db₂', hperform, hisolated.agree,
    fun c hc => ⟨hisolated.rowsOf₁ hc, hisolated.rowsOf₂ hc⟩⟩

/-- Business `3` bills its customer. -/
def billSecond : Op :=
  .createInvoice
    { customerId := shopId 4
      lineItems := [{ description := "item", quantity := 2, unitAmountCents := 300 }] }
    { newId := fun i => shopId (40 + min i 5), sequence := 7 }

def shopOutside : Outside :=
  { sha256 := Payments.shopSha256, lower := id
    rfc := { toRfc3339 := fun _ => "", parseFromRfc3339 := fun _ => none } }

/-- Nothing of business `3` is there but its customer, and the ids of `billSecond` are unused. -/
def onlyCustomerOfSecond (db : Db) : Bool :=
  let rows := db.rowsOf (shopId 3)
  decide (rows.customers = openShop.db.customers.filter fun c => c.businessId = shopId 3) &&
    (rows.invoices.isEmpty && rows.invoiceLineItems.isEmpty && rows.paymentAttempts.isEmpty &&
      rows.idempotencyKeys.isEmpty && rows.webhookEndpoints.isEmpty &&
      rows.webhookEvents.isEmpty && rows.webhookDeliveries.isEmpty && rows.apiKeys.isEmpty) &&
    (List.range 6).all fun k => db.invoices.all (·.id ≠ shopId (40 + k)) &&
      db.invoiceLineItems.all (·.id ≠ shopId (40 + k)) &&
      db.webhookEvents.all (·.id ≠ shopId (40 + k))

theorem agree_of_onlyCustomerOfSecond {db₁ db₂ : Db} (h₁ : onlyCustomerOfSecond db₁ = true)
    (h₂ : onlyCustomerOfSecond db₂ = true) : Agree (shopId 3) db₁ db₂ := by
  simp only [onlyCustomerOfSecond, Bool.and_eq_true, decide_eq_true_eq, List.isEmpty_iff] at h₁ h₂
  obtain ⟨⟨hcustomers₁, hempty₁⟩, -⟩ := h₁
  obtain ⟨⟨hcustomers₂, hempty₂⟩, -⟩ := h₂
  constructor
  · rw [hcustomers₁, hcustomers₂]
  all_goals simp only [hempty₁, hempty₂, List.Perm.refl]

theorem fresh_of_onlyCustomerOfSecond {db : Db} (h : onlyCustomerOfSecond db = true) :
    billSecond.Fresh shopOutside db := by
  simp only [onlyCustomerOfSecond, Bool.and_eq_true, List.all_eq_true, List.mem_range,
    decide_eq_true_eq] at h
  have hfree := fun i : ℕ => h.2 (min i 5) (Nat.lt_succ_of_le (min_le_right i 5))
  exact ⟨(hfree _).1.1, fun li hli pos => (hfree _).1.2 li hli, (hfree _).2⟩

/-- Business `2` has opened an invoice and been paid, and to business `3` it makes no
difference. -/
theorem tenant_isolation_billSecond :
    ∃ s db₁' a db₂', (system shopEnv).run openShop refusedRun = some s ∧
      s.db.invoices.map Invoice.state = [.paid] ∧
      billSecond.perform shopOutside 1 (shopId 3) openShop.db = some (db₁', .ok a) ∧
      billSecond.perform shopOutside 1 (shopId 3) s.db = some (db₂', .ok a) ∧
      Agree (shopId 3) db₁' db₂' := by
  have hrun : ((system shopEnv).run openShop refusedRun).any (fun s =>
      decide (s.db.invoices.map Invoice.state = [.paid]) && onlyCustomerOfSecond s.db) = true := by
    decide +kernel
  obtain ⟨s, hs, hcheck⟩ := (Option.any_eq_true _ _).mp hrun
  obtain ⟨hpaid, honly⟩ := Bool.and_eq_true_iff.mp hcheck
  have honly₀ : onlyCustomerOfSecond openShop.db = true := by decide +kernel
  have hbill : (billSecond.perform shopOutside 1 (shopId 3) openShop.db).any
      (fun p => p.2.isOk) = true := by decide +kernel
  obtain ⟨⟨db₁', _ | a⟩, hperform, hok⟩ := (Option.any_eq_true _ _).mp hbill
  · cases hok
  · have hreach : (system shopEnv).Reachable openShop := .of_initial openShop_initial
    obtain ⟨db₂', hsecond, hafter, -⟩ := tenant_isolation hreach (hreach.run hs)
      (agree_of_onlyCustomerOfSecond honly₀ honly) (fresh_of_onlyCustomerOfSecond honly₀)
      (fresh_of_onlyCustomerOfSecond honly) hperform
    exact ⟨s, db₁', a, db₂', hs, of_decide_eq_true hpaid, hperform, hsecond, hafter⟩

end Service

end InvoicePayment
