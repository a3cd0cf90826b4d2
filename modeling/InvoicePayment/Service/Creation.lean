import Mathlib.Algebra.Order.BigOperators.Group.List
import InvoicePayment.Lib.Transaction
import InvoicePayment.Payments.System
import InvoicePayment.Service.Additions

/-!
# Invoice creation is exact

`createCall` runs `create` statement by statement in its transaction; `createCall_eq` says that it
commits what `create` returns, however many rows it had inserted when it failed. The amounts are
computed by the database, by the generated column and by the cast of the `SUM`, and could be by
`Money`; all three agree with the integers as long as the integers fit (`createTx_eq`,
`moneyTotal_eq`), which is when `create` succeeds (`creation_exact`).
-/

namespace InvoicePayment.InvoiceService

open Program (stmt query Meets)

/-! ## Statement by statement -/

def insertLineItemStmts (newId : ℕ → Uuid) (invoiceId : Uuid) :
    ℕ → List CreateLineItem → Program SqlError Db Unit
  | _, [] => pure ()
  | pos, li :: rest => do
    stmt fun db =>
      (InvoiceRepo.insertLineItem db (newId (pos + 1)) invoiceId li (position pos)).map (·, ())
    insertLineItemStmts newId invoiceId (pos + 1) rest

def createStmts (now : Timestamp) (businessId : Uuid) (req : CreateInvoiceRequest)
    (fresh : Fresh) : Program SqlError Db InvoiceResponse := do
  let invoice ← stmt fun db =>
    InvoiceRepo.insertInvoice db now (fresh.newId 0) businessId req.customerId
  insertLineItemStmts fresh.newId invoice.id 0 req.lineItems
  let total ← stmt fun db => InvoiceRepo.syncTotal db invoice.id
  let items ← query fun db => InvoiceRepo.listLineItems db invoice.id
  stmt fun db =>
    (WebhookService.emitEvent db now (fresh.newId (req.lineItems.length + 1)) fresh.sequence
      businessId .invoiceCreated invoice.id (createdPayload invoice total)).map (·, ())
  return InvoiceResponse.fromParts { invoice with totalCents := total } items

/-- The database after `create`, and what it answers. -/
def createCall (db : Db) (now : Timestamp) (businessId : Uuid) (req : CreateInvoiceRequest)
    (fresh : Fresh) : Db × Except AppError InvoiceResponse :=
  match validateLineItems req with
  | .error e => (db, .error e)
  | .ok () =>
    if customerExists db businessId req.customerId then
      let (db', r) := (createStmts now businessId req fresh).atomically db
      (db', orRaise r)
    else (db, .error (.notFound "customer not found"))

variable {db : Db} {now : Timestamp} {businessId : Uuid} {req : CreateInvoiceRequest}
  {fresh : Fresh} {items : List CreateLineItem} {li : CreateLineItem}

theorem meets_insertLineItemStmts (newId : ℕ → Uuid) (invoiceId : Uuid) (pos : ℕ)
    (items : List CreateLineItem) : Meets (insertLineItemStmts newId invoiceId pos items)
      fun db => (insertLineItems newId invoiceId pos items db).map (·, ()) := by
  induction items generalizing pos with
  | nil => exact Program.meets_pure ()
  | cons li rest ih =>
    refine ((Program.meets_stmt _).bind fun _ => ih (pos + 1)).congr fun db => ?_
    simp only [insertLineItems]
    cases InvoiceRepo.insertLineItem db (newId (pos + 1)) invoiceId li (position pos) with
    | error e => rfl
    | ok db' => rfl

theorem meets_createStmts : Meets (createStmts now businessId req fresh)
    fun db => createTx db now businessId req fresh := by
  unfold createStmts
  refine ((Program.meets_stmt _).bind fun invoice =>
    (meets_insertLineItemStmts _ _ _ _).bind fun _ => (Program.meets_stmt _).bind fun total =>
      (Program.meets_query _).bind fun items => (Program.meets_stmt _).bind fun _ =>
        Program.meets_pure _).congr fun db => ?_
  unfold createTx
  refine bind_congr fun p => ?_
  obtain ⟨db₁, invoice⟩ := p
  dsimp only
  cases insertLineItems fresh.newId invoice.id 0 req.lineItems db₁ with
  | error e => rfl
  | ok db₂ =>
    simp only [Except.map, bind, Except.bind, pure, Except.pure]
    cases InvoiceRepo.syncTotal db₂ invoice.id with
    | error e => rfl
    | ok q =>
      dsimp only
      cases WebhookService.emitEvent q.1 now (fresh.newId (req.lineItems.length + 1))
          fresh.sequence businessId .invoiceCreated invoice.id (createdPayload invoice q.2) with
      | error e => rfl
      | ok db₄ => rfl

/-- What `create` returns is committed, and nothing else. -/
theorem createCall_eq : createCall db now businessId req fresh =
    match create db now businessId req fresh with
    | .error e => (db, .error e)
    | .ok (db', resp) => (db', .ok resp) := by
  unfold createCall create
  cases validateLineItems req with
  | error e => rfl
  | ok u =>
    dsimp only
    split
    · rw [Program.atomically_eq meets_createStmts]
      cases createTx db now businessId req fresh with
      | error e => rfl
      | ok p => rfl
    · rfl

/-! ## What a request asks for -/

/-- The amount of an item, as an integer. -/
def amount (li : CreateLineItem) : Int := li.quantity.toInt * li.unitAmountCents.toInt

def total (items : List CreateLineItem) : Int := (items.map amount).sum

/-- The total as `Money` would compute it. -/
def moneyTotal (items : List CreateLineItem) : Option Money :=
  items.foldlM (fun acc li => do
    let lineAmount ← (Money.mk li.unitAmountCents).checkedMulQty li.quantity
    acc.checkedAdd lineAmount) Money.zero

/-- An item that passes the validation. -/
structure AcceptableItem (li : CreateLineItem) : Prop where
  description : ∃ c ∈ li.description.toList, isWhitespace c = false
  quantity : 0 < li.quantity.toInt
  unitAmount : 0 ≤ li.unitAmountCents.toInt

/-- A list of items that passes the validation. -/
structure Acceptable (items : List CreateLineItem) : Prop where
  nonempty : items ≠ []
  each : ∀ li ∈ items, AcceptableItem li

/-- No product and not the total exceeds a `bigint`. -/
def Fits (items : List CreateLineItem) : Prop :=
  (∀ li ∈ items, amount li ≤ 2 ^ 63 - 1) ∧ total items ≤ 2 ^ 63 - 1

instance (items : List CreateLineItem) : Decidable (Fits items) :=
  inferInstanceAs (Decidable (_ ∧ _))

theorem AcceptableItem.amount_nonneg (h : AcceptableItem li) : 0 ≤ amount li :=
  Int.mul_nonneg (by have := h.quantity; omega) h.unitAmount

theorem total_nonneg (h : ∀ li ∈ items, AcceptableItem li) : 0 ≤ total items := by
  refine List.sum_nonneg fun n hn => ?_
  obtain ⟨li, hli, rfl⟩ := List.mem_map.mp hn
  exact (h li hli).amount_nonneg

@[simp] theorem total_cons (li : CreateLineItem) (items : List CreateLineItem) :
    total (li :: items) = amount li + total items := rfl

theorem lineItemErrors_eq_nil_iff {i : ℕ} : lineItemErrors i li = [] ↔ AcceptableItem li := by
  have hblank : isBlank li.description = false ↔
      ∃ c ∈ li.description.toList, isWhitespace c = false := by
    rw [isBlank, List.all_eq_false]
    simp only [Bool.not_eq_true]
  have hquantity : ¬ li.quantity ≤ 0 ↔ 0 < li.quantity.toInt := by
    rw [Int64.not_le, Int64.lt_iff_toInt_lt]
    rfl
  have hunit : ¬ li.unitAmountCents < 0 ↔ 0 ≤ li.unitAmountCents.toInt := by
    rw [Int64.not_lt, Int64.le_iff_toInt_le]
    rfl
  have hnil : ∀ {p : Prop} [Decidable p] (e : FieldError),
      (if p then [e] else []) = [] ↔ ¬ p := by
    intro p _ e
    split <;> simp [*]
  simp only [lineItemErrors, List.append_eq_nil_iff, hnil, hquantity, hunit, Bool.not_eq_true,
    hblank]
  exact ⟨fun h => ⟨h.1.1, h.1.2, h.2⟩, fun h => ⟨⟨h.description, h.quantity⟩, h.unitAmount⟩⟩

/-- The validator accepts exactly the acceptable lists. -/
theorem validateLineItems_eq_ok_iff :
    validateLineItems req = .ok () ↔ Acceptable req.lineItems := by
  have hnonempty : (if req.lineItems.isEmpty then
      [⟨"line_items", "at least one line item is required"⟩] else ([] : List FieldError)) = [] ↔
      req.lineItems ≠ [] := by
    cases req.lineItems <;> simp
  have heach : (req.lineItems.zipIdx.map fun p => lineItemErrors p.2 p.1).flatten = [] ↔
      ∀ li ∈ req.lineItems, AcceptableItem li := by
    rw [List.flatten_eq_nil_iff, List.forall_mem_map]
    simp only [lineItemErrors_eq_nil_iff]
    conv_rhs => rw [← List.zipIdx_map_fst 0 req.lineItems, List.forall_mem_map]
  have hok : ∀ errors : List FieldError, (if errors.isEmpty then .ok () else
      .error (.validation errors) : Except AppError Unit) = .ok () ↔ errors = [] := by
    intro errors
    cases errors <;> simp
  refine (hok _).trans ?_
  rw [List.append_eq_nil_iff, hnonempty, heach]
  exact ⟨fun h => ⟨h.1, h.2⟩, fun h => ⟨h.nonempty, h.each⟩⟩

/-! ## The amounts of the database -/

theorem checkedI64_eq {n : Int} (h : 0 ≤ n) :
    checkedI64 n = if n ≤ 2 ^ 63 - 1 then some (Int64.ofInt n) else none := by
  unfold checkedI64
  by_cases hn : n ≤ 2 ^ 63 - 1
  · rw [if_pos (by omega), if_pos hn]
  · rw [if_neg (by omega), if_neg hn]

theorem toInt_ofInt {n : Int} (h : 0 ≤ n) (hn : n ≤ 2 ^ 63 - 1) : (Int64.ofInt n).toInt = n :=
  Int64.toInt_ofInt_of_le (by omega) (by omega)

theorem checkedMulQty_eq (h : AcceptableItem li) :
    (Money.mk li.unitAmountCents).checkedMulQty li.quantity =
      if amount li ≤ 2 ^ 63 - 1 then some ⟨Int64.ofInt (amount li)⟩ else none := by
  have hcomm : li.unitAmountCents.toInt * li.quantity.toInt = amount li := Int.mul_comm _ _
  rw [Money.checkedMulQty, hcomm, checkedI64_eq h.amount_nonneg]
  split <;> rfl

/-- The row of an item. -/
def itemRow (id invoiceId : Uuid) (position : Int) (li : CreateLineItem) : LineItem :=
  { id, invoiceId, description := li.description, quantity := li.quantity
    unitAmountCents := ⟨li.unitAmountCents⟩, amountCents := ⟨Int64.ofInt (amount li)⟩, position }

def itemRows (newId : ℕ → Uuid) (invoiceId : Uuid) : ℕ → List CreateLineItem → List LineItem
  | _, [] => []
  | pos, li :: rest =>
    itemRow (newId (pos + 1)) invoiceId (position pos) li ::
      itemRows newId invoiceId (pos + 1) rest

/-- The generated column and the `CHECK`s: of an acceptable item only the product can fail. -/
theorem insertLineItem_eq {id invoiceId : Uuid} {pos : Int} (h : AcceptableItem li)
    (htext : isPgText li.description = true) (hid : ∀ item ∈ db.invoiceLineItems, item.id ≠ id) :
    InvoiceRepo.insertLineItem db id invoiceId li pos =
      if amount li ≤ 2 ^ 63 - 1 then
        .ok { db with invoiceLineItems := db.invoiceLineItems ++ [itemRow id invoiceId pos li] }
      else .error .other := by
  unfold InvoiceRepo.insertLineItem
  rw [if_neg (not_not.mpr htext), checkedMulQty_eq h]
  by_cases hfits : amount li ≤ 2 ^ 63 - 1
  · have hchecks : ¬ (li.quantity ≤ 0 ∨ li.unitAmountCents < 0) := by
      rintro (hneg | hneg)
      · exact absurd (Int64.le_iff_toInt_le.mp hneg) (not_le.mpr h.quantity)
      · exact absurd (Int64.lt_iff_toInt_lt.mp hneg) (not_lt.mpr h.unitAmount)
    have hfree : (primaryKey LineItem.id).conflicts db.invoiceLineItems
        (itemRow id invoiceId pos li) = false :=
      Table.UniqueIndex.conflicts_eq_false fun item hitem _ => hid item hitem
    rw [if_pos hfits, if_pos hfits]
    dsimp only
    rw [if_neg hchecks]
    exact if_neg (Bool.eq_false_iff.mp hfree)
  · rw [if_neg hfits, if_neg hfits]

/-- The loop stops at the first product that does not fit. -/
theorem insertLineItems_eq {newId : ℕ → Uuid} {invoiceId : Uuid} {pos : ℕ}
    (h : ∀ li ∈ items, AcceptableItem li) (htext : ∀ li ∈ items, isPgText li.description = true)
    (hid : ∀ item ∈ db.invoiceLineItems, ∀ p, pos ≤ p → p < pos + items.length →
      item.id ≠ newId (p + 1))
    (hdistinct : ∀ p q, p < pos + items.length → q < pos + items.length →
      newId (p + 1) = newId (q + 1) → p = q) :
    insertLineItems newId invoiceId pos items db =
      if ∀ li ∈ items, amount li ≤ 2 ^ 63 - 1 then
        .ok { db with
          invoiceLineItems := db.invoiceLineItems ++ itemRows newId invoiceId pos items }
      else .error .other := by
  induction items generalizing pos db with
  | nil => simp [insertLineItems, itemRows]
  | cons li rest ih =>
    rw [List.length_cons] at hid hdistinct
    rw [insertLineItems, insertLineItem_eq (h li List.mem_cons_self) (htext li List.mem_cons_self)
      fun item hitem => hid item hitem pos (le_refl pos) (by omega)]
    by_cases hfits : amount li ≤ 2 ^ 63 - 1
    · rw [if_pos hfits]
      dsimp only
      rw [ih (fun l hl => h l (List.mem_cons_of_mem _ hl))
        (fun l hl => htext l (List.mem_cons_of_mem _ hl)) ?_
        (fun p q hp hq => hdistinct p q (by omega) (by omega))]
      · simp only [List.forall_mem_cons, hfits, true_and, itemRows, List.append_assoc,
          List.singleton_append]
      · intro item hitem p hp hlt
        rcases List.mem_append.mp hitem with hitem | hitem
        · exact hid item hitem p (by omega) (by omega)
        · obtain rfl := List.mem_singleton.mp hitem
          intro heq
          have hpos : pos = p := hdistinct pos p (by omega) (by omega) heq
          omega
    · rw [if_neg hfits, if_neg fun hall => hfits (hall li List.mem_cons_self)]

/-! ## The sum -/

theorem sum_itemRows {newId : ℕ → Uuid} {invoiceId : Uuid} {pos : ℕ}
    (h : ∀ li ∈ items, AcceptableItem li) (hfits : ∀ li ∈ items, amount li ≤ 2 ^ 63 - 1) :
    ((itemRows newId invoiceId pos items).map fun li => li.amountCents.cents.toInt).sum =
      total items := by
  induction items generalizing pos with
  | nil => rfl
  | cons li rest ih =>
    have hli : (Int64.ofInt (amount li)).toInt = amount li :=
      toInt_ofInt (h li List.mem_cons_self).amount_nonneg (hfits li List.mem_cons_self)
    rw [itemRows, List.map_cons, List.sum_cons, ih (fun l hl => h l (List.mem_cons_of_mem _ hl))
      (fun l hl => hfits l (List.mem_cons_of_mem _ hl))]
    exact congrArg (· + total rest) hli

theorem filter_itemRows (newId : ℕ → Uuid) (invoiceId : Uuid) (pos : ℕ)
    (items : List CreateLineItem) :
    (itemRows newId invoiceId pos items).filter (fun li => li.invoiceId = invoiceId) =
      itemRows newId invoiceId pos items := by
  induction items generalizing pos with
  | nil => rfl
  | cons li rest ih =>
    rw [itemRows, List.filter_cons_of_pos, ih]
    exact decide_eq_true rfl

/-- The row of the invoice once its total is set. -/
def createdInvoice (now : Timestamp) (businessId : Uuid) (req : CreateInvoiceRequest)
    (fresh : Fresh) : Invoice :=
  { id := fresh.newId 0, businessId, customerId := req.customerId, createdAt := now
    totalCents := ⟨Int64.ofInt (total req.lineItems)⟩ }

/-- What `create` adds. -/
def additions (now : Timestamp) (businessId : Uuid) (req : CreateInvoiceRequest)
    (fresh : Fresh) : Db :=
  { invoices := [createdInvoice now businessId req fresh]
    invoiceLineItems := itemRows fresh.newId (fresh.newId 0) 0 req.lineItems
    webhookEvents :=
      [{ id := fresh.newId (req.lineItems.length + 1), businessId, eventType := .invoiceCreated
         aggregateId := fresh.newId 0
         payload := createdPayload (createdInvoice now businessId req fresh)
           ⟨Int64.ofInt (total req.lineItems)⟩
         sequence := fresh.sequence, createdAt := now }] }

/-- What `create` answers. -/
def createdResponse (now : Timestamp) (businessId : Uuid) (req : CreateInvoiceRequest)
    (fresh : Fresh) : InvoiceResponse :=
  .fromParts (createdInvoice now businessId req fresh)
    (InvoiceRepo.listLineItems (additions now businessId req fresh) (fresh.newId 0))

/-- The cast of the `SUM` back to `bigint`. -/
theorem syncTotal_eq (h : ∀ li ∈ req.lineItems, AcceptableItem li)
    (hfits : ∀ li ∈ req.lineItems, amount li ≤ 2 ^ 63 - 1) :
    InvoiceRepo.syncTotal
        { invoices := [{ id := fresh.newId 0, businessId, customerId := req.customerId
                         createdAt := now }]
          invoiceLineItems := itemRows fresh.newId (fresh.newId 0) 0 req.lineItems }
        (fresh.newId 0) =
      if total req.lineItems ≤ 2 ^ 63 - 1 then
        .ok ({ invoices := [createdInvoice now businessId req fresh]
               invoiceLineItems := itemRows fresh.newId (fresh.newId 0) 0 req.lineItems },
          ⟨Int64.ofInt (total req.lineItems)⟩)
      else .error .other := by
  have hnonneg := total_nonneg h
  unfold InvoiceRepo.syncTotal InvoiceRepo.sumAmounts
  dsimp only
  rw [filter_itemRows, sum_itemRows h hfits, checkedI64_eq hnonneg]
  by_cases htotal : total req.lineItems ≤ 2 ^ 63 - 1
  · have hcheck : ¬ Int64.ofInt (total req.lineItems) < 0 := by
      rw [Int64.lt_iff_toInt_lt, toInt_ofInt hnonneg htotal]
      exact not_lt.mpr hnonneg
    rw [if_pos htotal, if_pos htotal]
    dsimp only
    rw [if_neg hcheck]
    simp [Table.update, createdInvoice]
  · rw [if_neg htotal, if_neg htotal]

/-- On an empty database the transaction fails exactly where an integer does not fit. -/
theorem createTx_eq (h : ∀ li ∈ req.lineItems, AcceptableItem li)
    (htext : ∀ li ∈ req.lineItems, isPgText li.description = true)
    (hdistinct : ∀ p q, p < req.lineItems.length → q < req.lineItems.length →
      fresh.newId (p + 1) = fresh.newId (q + 1) → p = q) :
    createTx {} now businessId req fresh =
      if Fits req.lineItems then
        .ok (additions now businessId req fresh, createdResponse now businessId req fresh)
      else .error .other := by
  have hinsert : InvoiceRepo.insertInvoice {} now (fresh.newId 0) businessId req.customerId =
      .ok ({ invoices := [{ id := fresh.newId 0, businessId, customerId := req.customerId
                            createdAt := now }] },
        { id := fresh.newId 0, businessId, customerId := req.customerId, createdAt := now }) := rfl
  unfold createTx
  rw [hinsert]
  simp only [bind, Except.bind]
  rw [insertLineItems_eq h htext ?_ ?_]
  · by_cases hfits : ∀ li ∈ req.lineItems, amount li ≤ 2 ^ 63 - 1
    · rw [if_pos hfits]
      dsimp only [List.nil_append]
      rw [syncTotal_eq h hfits]
      by_cases htotal : total req.lineItems ≤ 2 ^ 63 - 1
      · rw [if_pos htotal, if_pos ⟨hfits, htotal⟩]
        rfl
      · rw [if_neg htotal, if_neg fun hboth => htotal hboth.2]
    · rw [if_neg hfits, if_neg fun hboth => hfits hboth.1]
  · exact fun item hitem => absurd hitem List.not_mem_nil
  · simpa using hdistinct

/-! ## The same with `Money` -/

theorem checkedAdd_eq {m n : Int} (hm : 0 ≤ m) (hn : 0 ≤ n) (hm' : m ≤ 2 ^ 63 - 1)
    (hn' : n ≤ 2 ^ 63 - 1) : (Money.mk (Int64.ofInt m)).checkedAdd ⟨Int64.ofInt n⟩ =
      if m + n ≤ 2 ^ 63 - 1 then some ⟨Int64.ofInt (m + n)⟩ else none := by
  rw [Money.checkedAdd, toInt_ofInt hm hm', toInt_ofInt hn hn', checkedI64_eq (by omega)]
  split <;> rfl

/-- The fold stops where a product or a partial sum does not fit; the partial sums only grow, so
that is when the total does not. -/
theorem foldlM_money {acc : Int} (h : ∀ li ∈ items, AcceptableItem li) (hacc : 0 ≤ acc)
    (hacc' : acc ≤ 2 ^ 63 - 1) :
    items.foldlM (fun acc li => do
      let lineAmount ← (Money.mk li.unitAmountCents).checkedMulQty li.quantity
      acc.checkedAdd lineAmount) (Money.mk (Int64.ofInt acc)) =
      if (∀ li ∈ items, amount li ≤ 2 ^ 63 - 1) ∧ acc + total items ≤ 2 ^ 63 - 1 then
        some ⟨Int64.ofInt (acc + total items)⟩
      else none := by
  induction items generalizing acc with
  | nil =>
    have hzero : acc + total [] = acc := Int.add_zero acc
    rw [hzero, if_pos ⟨by simp, hacc'⟩]
    rfl
  | cons li rest ih =>
    have hli := h li List.mem_cons_self
    have hrest : ∀ l ∈ rest, AcceptableItem l := fun l hl => h l (List.mem_cons_of_mem _ hl)
    have hnonneg := hli.amount_nonneg
    have hrestNonneg := total_nonneg hrest
    rw [List.foldlM_cons, checkedMulQty_eq hli]
    by_cases hfits : amount li ≤ 2 ^ 63 - 1
    · rw [if_pos hfits]
      simp only [bind, Option.bind]
      rw [checkedAdd_eq hacc hnonneg hacc' hfits]
      by_cases hsum : acc + amount li ≤ 2 ^ 63 - 1
      · rw [if_pos hsum]
        dsimp only
        have hassoc : acc + amount li + total rest = acc + (amount li + total rest) := by omega
        refine (ih hrest (by omega) hsum).trans ?_
        simp only [List.forall_mem_cons, hfits, true_and, total_cons, hassoc]
      · rw [if_neg hsum, if_neg]
        rintro ⟨-, hall⟩
        rw [total_cons] at hall
        omega
    · rw [if_neg hfits, if_neg fun hall => hfits (hall.1 li List.mem_cons_self)]
      rfl

theorem moneyTotal_eq (h : ∀ li ∈ items, AcceptableItem li) :
    moneyTotal items = if Fits items then some ⟨Int64.ofInt (total items)⟩ else none := by
  have hfold := foldlM_money h (le_refl (0 : Int)) (by omega)
  rw [Int.zero_add] at hfold
  exact hfold

/-! ## The order of the items -/

theorem position_eq {pos : ℕ} (h : pos < 2 ^ 31) : position pos = pos :=
  Int32.toInt_ofNat_of_lt h

theorem le_position_of_mem_itemRows {newId : ℕ → Uuid} {invoiceId : Uuid} {pos : ℕ}
    {item : LineItem} (hpos : pos + items.length ≤ 2 ^ 31)
    (h : item ∈ itemRows newId invoiceId pos items) : (pos : Int) ≤ item.position := by
  induction items generalizing pos with
  | nil => cases h
  | cons li rest ih =>
    rw [List.length_cons] at hpos
    rcases List.mem_cons.mp h with rfl | h
    · exact (position_eq (by omega)).ge
    · have hnext := ih (by omega) h
      omega

/-- `ORDER BY position` keeps the rows as they were inserted, while the positions are positive. -/
theorem sorted_itemRows {newId : ℕ → Uuid} {invoiceId : Uuid} {pos : ℕ}
    (hpos : pos + items.length ≤ 2 ^ 31) :
    (itemRows newId invoiceId pos items).Pairwise fun a b => InvoiceRepo.byPosition a b := by
  induction items generalizing pos with
  | nil => exact List.Pairwise.nil
  | cons li rest ih =>
    rw [List.length_cons] at hpos
    refine List.pairwise_cons.mpr ⟨fun b hb => ?_, ih (by omega)⟩
    have hfirst : (itemRow (newId (pos + 1)) invoiceId (position pos) li).position = pos :=
      position_eq (by omega)
    have hlater := le_position_of_mem_itemRows (by omega) hb
    have hbefore : (itemRow (newId (pos + 1)) invoiceId (position pos) li).position < b.position := by
      omega
    simp only [InvoiceRepo.byPosition, hbefore, decide_true, Bool.true_or]

theorem lineItems_createdResponse (hlength : req.lineItems.length ≤ 2 ^ 31) :
    (createdResponse now businessId req fresh).lineItems =
      (itemRows fresh.newId (fresh.newId 0) 0 req.lineItems).map LineItemResponse.ofLineItem := by
  unfold createdResponse InvoiceResponse.fromParts InvoiceRepo.listLineItems additions
  dsimp only
  rw [filter_itemRows, List.Pairwise.insertionSort_eq (sorted_itemRows (by omega))]

/-- What a line of the response says. -/
def responseLine (r : LineItemResponse) : String × Int64 × Int64 × Int :=
  (r.description, r.quantity, r.unitAmountCents, r.amountCents.toInt)

theorem lines_itemRows {newId : ℕ → Uuid} {invoiceId : Uuid} {pos : ℕ}
    (h : ∀ li ∈ items, AcceptableItem li) (hfits : ∀ li ∈ items, amount li ≤ 2 ^ 63 - 1) :
    ((itemRows newId invoiceId pos items).map .ofLineItem).map responseLine =
      items.map fun li => (li.description, li.quantity, li.unitAmountCents, amount li) := by
  induction items generalizing pos with
  | nil => rfl
  | cons li rest ih =>
    have hli : (Int64.ofInt (amount li)).toInt = amount li :=
      toInt_ofInt (h li List.mem_cons_self).amount_nonneg (hfits li List.mem_cons_self)
    rw [itemRows, List.map_cons, List.map_cons, List.map_cons,
      ih (fun l hl => h l (List.mem_cons_of_mem _ hl))
      (fun l hl => hfits l (List.mem_cons_of_mem _ hl))]
    simp only [responseLine, LineItemResponse.ofLineItem, itemRow, hli]

/-! ## Creation -/

/-- What `new_id()` draws is on no row, and no two items get the same. -/
structure Draws (db : Db) (req : CreateInvoiceRequest) (fresh : Fresh) : Prop where
  invoice : ∀ i ∈ db.invoices, i.id ≠ fresh.newId 0
  items : ∀ li ∈ db.invoiceLineItems, ∀ pos, li.id ≠ fresh.newId (pos + 1)
  distinct : ∀ p q, p < req.lineItems.length → q < req.lineItems.length →
    fresh.newId (p + 1) = fresh.newId (q + 1) → p = q
  event : ∀ e ∈ db.webhookEvents, e.id ≠ fresh.newId (req.lineItems.length + 1)

/-- What the database holds and the request brings: `REFERENCES invoices(id)`, a customer of the
business and texts without NUL. -/
structure Requested (db : Db) (businessId : Uuid) (req : CreateInvoiceRequest) : Prop where
  references : ∀ li ∈ db.invoiceLineItems, ∃ i ∈ db.invoices, i.id = li.invoiceId
  customer : customerExists db businessId req.customerId = true
  text : ∀ li ∈ req.lineItems, isPgText li.description = true

/-- No item is on the new invoice yet. -/
theorem Requested.no_item (h : Requested db businessId req) (hdraws : Draws db req fresh) :
    ∀ li ∈ db.invoiceLineItems, li.invoiceId ≠ fresh.newId 0 := by
  intro li hli heq
  obtain ⟨i, hi, hid⟩ := h.references li hli
  exact hdraws.invoice i hi (hid.trans heq)

/-- A valid request is created, or overflows. -/
theorem create_eq (h : Requested db businessId req) (hdraws : Draws db req fresh)
    (hvalid : Acceptable req.lineItems) : create db now businessId req fresh =
      if Fits req.lineItems then
        .ok (db.append (additions now businessId req fresh),
          createdResponse now businessId req fresh)
      else .error .internal := by
  have hinvoice := h.no_item hdraws
  unfold create
  rw [validateLineItems_eq_ok_iff.mpr hvalid]
  dsimp only
  rw [if_pos h.customer, createTx_eq_map hdraws.invoice hdraws.items hinvoice hdraws.event,
    createTx_eq hvalid.each h.text hdraws.distinct]
  split <;> rfl

theorem create_of_not_acceptable (hvalid : ¬ Acceptable req.lineItems) :
    ∃ e, create db now businessId req fresh = .error e := by
  unfold create
  cases hcheck : validateLineItems req with
  | error e => exact ⟨e, rfl⟩
  | ok u => exact absurd (validateLineItems_eq_ok_iff.mp hcheck) hvalid

/-- The invoice is there for `get`. -/
theorem get_additions (h : Requested db businessId req) (hdraws : Draws db req fresh) :
    get (db.append (additions now businessId req fresh)) businessId (fresh.newId 0) =
      .ok (createdResponse now businessId req fresh) := by
  have hinvoice := h.no_item hdraws
  have hold : db.invoices.find? (fun i => i.id = fresh.newId 0 ∧ i.businessId = businessId) =
      none := by
    rw [List.find?_eq_none]
    intro i hi hfound
    exact hdraws.invoice i hi (of_decide_eq_true hfound).1
  have hfind : InvoiceRepo.get (db.append (additions now businessId req fresh)) businessId
      (fresh.newId 0) = some (createdInvoice now businessId req fresh) := by
    unfold InvoiceRepo.get Db.append
    dsimp only
    rw [List.find?_append, hold, Option.none_or]
    exact List.find?_cons_of_pos (decide_eq_true ⟨rfl, rfl⟩)
  have hlist : InvoiceRepo.listLineItems (db.append (additions now businessId req fresh))
      (fresh.newId 0) =
      InvoiceRepo.listLineItems (additions now businessId req fresh) (fresh.newId 0) := by
    rw [InvoiceRepo.listLineItems, InvoiceRepo.listLineItems, itemsOf_append hinvoice]
  rw [get, hfind]
  dsimp only
  rw [hlist]
  rfl

/-- What a creation that succeeds leaves in `db'` and answers. -/
structure ExactlyCreated (db : Db) (businessId : Uuid) (req : CreateInvoiceRequest) (db' : Db)
    (resp : InvoiceResponse) : Prop where
  /-- The integer sum of the products. -/
  total : resp.totalCents.toInt = total req.lineItems
  /-- What `Money` makes of the items. -/
  money : moneyTotal req.lineItems = some ⟨resp.totalCents⟩
  /-- The same for the items in any other order. -/
  reordered : ∀ items : List CreateLineItem, items.Perm req.lineItems → ∀ now fresh,
    Draws db { req with lineItems := items } fresh → ∃ resp',
      (createCall db now businessId { req with lineItems := items } fresh).2 = .ok resp' ∧
      resp'.totalCents = resp.totalCents
  /-- The items in request order. Their positions are `i32`s; a body of at most two megabytes, the
  limit of the `Json` extractor, has far fewer items. -/
  lines : req.lineItems.length ≤ 2 ^ 31 → resp.lineItems.map responseLine =
    req.lineItems.map fun li => (li.description, li.quantity, li.unitAmountCents, amount li)
  got : get db' businessId resp.id = .ok resp

/-- The creation is exact, or leaves nothing. -/
structure ExactCreation (db : Db) (now : Timestamp) (businessId : Uuid)
    (req : CreateInvoiceRequest) (fresh : Fresh) : Prop where
  succeeds : (∃ resp, (createCall db now businessId req fresh).2 = .ok resp) ↔
    Acceptable req.lineItems ∧ Fits req.lineItems
  created : ∀ resp, (createCall db now businessId req fresh).2 = .ok resp →
    ExactlyCreated db businessId req (createCall db now businessId req fresh).1 resp
  rolledBack : ∀ e, (createCall db now businessId req fresh).2 = .error e →
    (createCall db now businessId req fresh).1 = db
  overflows : Acceptable req.lineItems → (moneyTotal req.lineItems = none ↔
    (createCall db now businessId req fresh).2 = .error .internal)

theorem createCall_of_fits (h : Requested db businessId req) (hdraws : Draws db req fresh)
    (hvalid : Acceptable req.lineItems) (hfits : Fits req.lineItems) :
    createCall db now businessId req fresh =
      (db.append (additions now businessId req fresh),
        .ok (createdResponse now businessId req fresh)) := by
  rw [createCall_eq, create_eq h hdraws hvalid, if_pos hfits]

theorem createCall_of_not_fits (h : Requested db businessId req) (hdraws : Draws db req fresh)
    (hvalid : Acceptable req.lineItems) (hfits : ¬ Fits req.lineItems) :
    createCall db now businessId req fresh = (db, .error .internal) := by
  rw [createCall_eq, create_eq h hdraws hvalid, if_neg hfits]

theorem createCall_of_not_acceptable (hvalid : ¬ Acceptable req.lineItems) :
    ∃ e, createCall db now businessId req fresh = (db, .error e) := by
  obtain ⟨e, he⟩ := create_of_not_acceptable hvalid
  exact ⟨e, by rw [createCall_eq, he]⟩

/-- The order of the items decides nothing about their sum. -/
theorem Acceptable.of_perm {items' : List CreateLineItem} (h : Acceptable items)
    (hperm : items'.Perm items) : Acceptable items' where
  nonempty := by
    rintro rfl
    exact h.nonempty hperm.symm.eq_nil
  each := fun li hli => h.each li (hperm.mem_iff.mp hli)

theorem total_eq_of_perm {items' : List CreateLineItem} (hperm : items'.Perm items) :
    total items' = total items := (hperm.map amount).sum_eq

theorem Fits.of_perm {items' : List CreateLineItem} (h : Fits items)
    (hperm : items'.Perm items) : Fits items' :=
  ⟨fun li hli => h.1 li (hperm.mem_iff.mp hli), by rw [total_eq_of_perm hperm]; exact h.2⟩

theorem exactlyCreated (h : Requested db businessId req) (hdraws : Draws db req fresh)
    (hvalid : Acceptable req.lineItems) (hfits : Fits req.lineItems) :
    ExactlyCreated db businessId req (db.append (additions now businessId req fresh))
      (createdResponse now businessId req fresh) where
  total := toInt_ofInt (total_nonneg hvalid.each) hfits.2
  money := by
    rw [moneyTotal_eq hvalid.each, if_pos hfits]
    rfl
  reordered := by
    intro items hperm now' fresh' hdraws'
    have hrequested : Requested db businessId { req with lineItems := items } :=
      ⟨h.references, h.customer, fun li hli => h.text li (hperm.mem_iff.mp hli)⟩
    refine ⟨_, congrArg Prod.snd (createCall_of_fits hrequested hdraws' (hvalid.of_perm hperm)
      (hfits.of_perm hperm)), ?_⟩
    exact congrArg Int64.ofInt (total_eq_of_perm hperm)
  lines := by
    intro hlength
    rw [lineItems_createdResponse hlength, lines_itemRows hvalid.each hfits.1]
  got := get_additions h hdraws

/-- Every request to create an invoice. -/
theorem creation_exact (h : Requested db businessId req) (hdraws : Draws db req fresh) :
    ExactCreation db now businessId req fresh := by
  by_cases hvalid : Acceptable req.lineItems
  · by_cases hfits : Fits req.lineItems
    · have hcall : createCall db now businessId req fresh = _ :=
        createCall_of_fits h hdraws hvalid hfits
      constructor
      · rw [hcall]
        exact ⟨fun _ => ⟨hvalid, hfits⟩, fun _ => ⟨_, rfl⟩⟩
      · intro resp hresp
        rw [hcall] at hresp ⊢
        obtain rfl := Except.ok.inj hresp
        exact exactlyCreated h hdraws hvalid hfits
      · intro e he
        rw [hcall] at he
        cases he
      · intro _
        rw [hcall, moneyTotal_eq hvalid.each, if_pos hfits]
        simp
    · have hcall : createCall db now businessId req fresh = _ :=
        createCall_of_not_fits h hdraws hvalid hfits
      constructor
      · rw [hcall]
        constructor
        · rintro ⟨resp, hresp⟩
          cases hresp
        · exact fun hboth => absurd hboth.2 hfits
      · intro resp hresp
        rw [hcall] at hresp
        cases hresp
      · intro e _
        rw [hcall]
      · intro _
        rw [hcall, moneyTotal_eq hvalid.each, if_neg hfits]
        simp
  · have hfails : ∃ e, createCall db now businessId req fresh = (db, .error e) :=
      createCall_of_not_acceptable hvalid
    obtain ⟨e, hcall⟩ := hfails
    constructor
    · rw [hcall]
      constructor
      · rintro ⟨resp, hresp⟩
        cases hresp
      · exact fun hboth => absurd hboth.1 hvalid
    · intro resp hresp
      rw [hcall] at hresp
      cases hresp
    · intro e _
      rw [hcall]
    · exact fun hacceptable => absurd hacceptable hvalid

/-! ## An invoice of two items -/

def twoItems : CreateInvoiceRequest :=
  { customerId := shopId 1
    lineItems :=
      [{ description := "item", quantity := 2, unitAmountCents := 500 },
       { description := "other", quantity := 1, unitAmountCents := 250 }] }

theorem creation_exact_twoItems :
    ExactCreation Payments.shop.db 0 (shopId 2) twoItems (shopFresh 10) ∧
    (createCall Payments.shop.db 0 (shopId 2) twoItems (shopFresh 10)).2.toOption.map
      InvoiceResponse.totalCents = some 1250 := by
  have hdistinct : ∀ p < 2, ∀ q < 2, (shopFresh 10).newId (p + 1) = (shopFresh 10).newId (q + 1) →
      p = q := by decide +kernel
  have hdraws : Draws Payments.shop.db twoItems (shopFresh 10) :=
    { invoice := fun _ hi => absurd hi List.not_mem_nil
      items := fun _ hli => absurd hli List.not_mem_nil
      distinct := fun p q hp hq => hdistinct p hp q hq
      event := fun _ he => absurd he List.not_mem_nil }
  have hrequested : Requested Payments.shop.db (shopId 2) twoItems :=
    { references := fun _ hli => absurd hli List.not_mem_nil
      customer := by decide +kernel
      text := by decide +kernel }
  exact ⟨creation_exact hrequested hdraws, by decide +kernel⟩

end InvoicePayment.InvoiceService
