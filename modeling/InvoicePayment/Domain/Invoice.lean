import InvoicePayment.Common.Ids
import InvoicePayment.Common.Money

/-!
# Invoices

The invoice entity, its line items, the lifecycle states and the state-machine rules.
-/

namespace InvoicePayment

/-- Invoice lifecycle, the `invoice_state` enum. -/
inductive InvoiceState where
  | draft
  | open
  | paid
  | void
  | uncollectible
deriving DecidableEq, Repr

namespace InvoiceState

def asStr : InvoiceState → String
  | draft => "draft"
  | .open => "open"
  | paid => "paid"
  | void => "void"
  | uncollectible => "uncollectible"

theorem asStr_injective {s t : InvoiceState} (h : s.asStr = t.asStr) : s = t := by
  cases s <;> cases t <;> first | rfl | exact absurd h (by decide)

/-- Terminal states accept no further transitions. -/
def isTerminal : InvoiceState → Bool
  | paid | void | uncollectible => true
  | _ => false

/-- Which transitions are legal; it governs the admin-driven ones, the payment path does its
own conditional `UPDATE`. -/
def canTransitionTo : InvoiceState → InvoiceState → Bool
  | draft, .open => true
  | draft, void => true
  | .open, paid => true
  | .open, void => true
  | .open, uncollectible => true
  | _, _ => false

theorem canTransitionTo_eq_false_of_isTerminal {s t : InvoiceState} (h : s.isTerminal = true) :
    s.canTransitionTo t = false := by
  cases s <;> cases t <;> first | rfl | exact Bool.noConfusion h

/-- No legal transition enters `open` except from `draft`. -/
theorem eq_draft_of_canTransitionTo_open {s : InvoiceState}
    (h : s.canTransitionTo .open = true) : s = draft := by
  cases s <;> first | rfl | exact Bool.noConfusion h

end InvoiceState

/-- A row of `invoices`. -/
structure Invoice where
  id : Uuid
  businessId : Uuid
  customerId : Uuid
  state : InvoiceState := .draft
  currency : String := "USD"
  totalCents : Money := Money.zero
  finalizedAt : Option Timestamp := none
  paidAt : Option Timestamp := none
  voidedAt : Option Timestamp := none
  version : Int := 0
  createdAt : Timestamp

/-- A row of `invoice_line_items`; `amountCents` is the stored generated column. -/
structure LineItem where
  id : Uuid
  invoiceId : Uuid
  description : String
  quantity : Int64
  unitAmountCents : Money
  amountCents : Money
  position : Int

structure CreateLineItem where
  description : String
  quantity : Int64
  unitAmountCents : Int64

/-- The body of `POST /v1/invoices`: there is no total. -/
structure CreateInvoiceRequest where
  customerId : Uuid
  lineItems : List CreateLineItem

structure LineItemResponse where
  description : String
  quantity : Int64
  unitAmountCents : Int64
  amountCents : Int64
deriving DecidableEq

def LineItemResponse.ofLineItem (li : LineItem) : LineItemResponse :=
  { description := li.description
    quantity := li.quantity
    unitAmountCents := li.unitAmountCents.cents
    amountCents := li.amountCents.cents }

structure InvoiceResponse where
  id : Uuid
  customerId : Uuid
  state : InvoiceState
  currency : String
  totalCents : Int64
  lineItems : List LineItemResponse
  finalizedAt : Option Timestamp
  paidAt : Option Timestamp
  createdAt : Timestamp
deriving DecidableEq

def InvoiceResponse.fromParts (inv : Invoice) (items : List LineItem) : InvoiceResponse :=
  { id := inv.id
    customerId := inv.customerId
    state := inv.state
    currency := inv.currency
    totalCents := inv.totalCents.cents
    lineItems := items.map LineItemResponse.ofLineItem
    finalizedAt := inv.finalizedAt
    paidAt := inv.paidAt
    createdAt := inv.createdAt }

end InvoicePayment
