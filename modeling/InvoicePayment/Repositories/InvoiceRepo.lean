import InvoicePayment.Schema
import InvoicePayment.Common.Error
import InvoicePayment.Common.Pagination
import InvoicePayment.Common.Text
import Mathlib.Data.List.Sort

/-!
# Invoice and line-item persistence

The SQL of the invoice repository over the lists of rows.
-/

namespace InvoicePayment.InvoiceRepo

/-- `INSERT INTO invoices (id, business_id, customer_id) .. RETURNING ..`. -/
def insertInvoice (db : Db) (now : Timestamp) (id businessId customerId : Uuid) :
    Except SqlError (Db × Invoice) :=
  let inv : Invoice := { id, businessId, customerId, createdAt := now }
  if (primaryKey Invoice.id).conflicts db.invoices inv then .error .uniqueViolation
  else .ok ({ db with invoices := db.invoices ++ [inv] }, inv)

/-- `INSERT INTO invoice_line_items`: the text and `CHECK`s of the columns, the generated
`quantity * unit_amount_cents`, the primary key. -/
def insertLineItem (db : Db) (id invoiceId : Uuid) (li : CreateLineItem) (position : Int) :
    Except SqlError Db :=
  if ¬ isPgText li.description then .error .other
  else
    match (Money.mk li.unitAmountCents).checkedMulQty li.quantity with
    | none => .error .other
    | some amountCents =>
      if li.quantity ≤ 0 ∨ li.unitAmountCents < 0 then .error .other
      else
        let item : LineItem :=
          { id, invoiceId, description := li.description, quantity := li.quantity
            unitAmountCents := ⟨li.unitAmountCents⟩, amountCents, position }
        if (primaryKey LineItem.id).conflicts db.invoiceLineItems item then
          .error .uniqueViolation
        else .ok { db with invoiceLineItems := db.invoiceLineItems ++ [item] }

/-- `SELECT COALESCE(SUM(amount_cents), 0) .. WHERE invoice_id = $1`, a `numeric`. -/
def sumAmounts (db : Db) (invoiceId : Uuid) : Int :=
  ((db.invoiceLineItems.filter fun li => li.invoiceId = invoiceId).map
    fun li => li.amountCents.cents.toInt).sum

/-- Recompute the total from the line items; the sum is cast back to `bigint`. -/
def syncTotal (db : Db) (invoiceId : Uuid) : Except SqlError (Db × Money) :=
  match checkedI64 (sumAmounts db invoiceId) with
  | none => .error .other
  | some total =>
    if total < 0 then .error .other
    else
      .ok ({ db with
        invoices := Table.update (fun i => i.id = invoiceId)
          (fun i => { i with totalCents := ⟨total⟩ }) db.invoices }, ⟨total⟩)

/-- `SELECT .. WHERE id = $1 AND business_id = $2`. -/
def get (db : Db) (businessId id : Uuid) : Option Invoice :=
  db.invoices.find? fun i => i.id = id ∧ i.businessId = businessId

/-- `ORDER BY position, id`. -/
def byPosition (a b : LineItem) : Bool :=
  a.position < b.position
    || (a.position = b.position
      && decide (a.id.asBytes.map UInt8.toNat ≤ b.id.asBytes.map UInt8.toNat))

def listLineItems (db : Db) (invoiceId : Uuid) : List LineItem :=
  (db.invoiceLineItems.filter fun li => li.invoiceId = invoiceId).insertionSort
    (fun a b => byPosition a b)

def sortKey (i : Invoice) : Pagination.Key := Pagination.key i.createdAt i.id

/-- List invoices, optionally filtered by state. -/
def list (db : Db) (businessId : Uuid) (state : Option InvoiceState) (limit : ℕ)
    (cursor : Option (Timestamp × Uuid)) : List Invoice :=
  Keyset.select sortKey limit (cursor.map fun c => Pagination.key c.1 c.2)
    (db.invoices.filter fun i => i.businessId = businessId && state.all (i.state = ·))

/-- What the `SET` clause of the transition does to a row. -/
def move (now : Timestamp) (toState : InvoiceState) (i : Invoice) : Invoice :=
  { i with
    state := toState
    version := i.version + 1
    finalizedAt := if toState = .open then some now else i.finalizedAt
    voidedAt := if toState = .void then some now else i.voidedAt }

/-- `WHERE id = $1 AND business_id = $2 AND state = $4`. -/
def isIn (businessId id : Uuid) (fromState : InvoiceState) (i : Invoice) : Bool :=
  i.id = id && i.businessId = businessId && i.state = fromState

/-- Status-conditional transition with a version bump; `none` if the row was not in
`fromState`. -/
def transition (db : Db) (now : Timestamp) (businessId id : Uuid) (fromState toState : InvoiceState) :
    Db × Option Invoice :=
  ({ db with invoices := Table.update (isIn businessId id fromState) (move now toState) db.invoices },
    (db.invoices.find? (isIn businessId id fromState)).map (move now toState))

end InvoicePayment.InvoiceRepo
