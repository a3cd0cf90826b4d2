import InvoicePayment.Repositories.InvoiceRepo
import InvoicePayment.Services.WebhookService

/-!
# Invoice use-cases

Creation with a server-computed total, retrieval, and the admin-driven transitions. A
transition is a read followed by a status-conditional `UPDATE`, so it is cut into `load`,
`check` and `apply`; `create` runs in one transaction after the customer lookup.
-/

namespace InvoicePayment.InvoiceService

/-! ## Creation -/

/-- The problems of one line item. -/
def lineItemErrors (i : ℕ) (li : CreateLineItem) : List FieldError :=
  (if isBlank li.description then
    [⟨s!"line_items[{i}].description", "must not be empty"⟩] else [])
  ++ (if li.quantity ≤ 0 then
    [⟨s!"line_items[{i}].quantity", "must be greater than 0"⟩] else [])
  ++ (if li.unitAmountCents < 0 then
    [⟨s!"line_items[{i}].unit_amount_cents", "must not be negative"⟩] else [])

def validateLineItems (req : CreateInvoiceRequest) : Except AppError Unit :=
  let errors :=
    (if req.lineItems.isEmpty then
      [⟨"line_items", "at least one line item is required"⟩] else [])
    ++ (req.lineItems.zipIdx.map fun p => lineItemErrors p.2 p.1).flatten
  if errors.isEmpty then .ok () else .error (.validation errors)

/-- `pos as i32`, which keeps the low 32 bits. -/
def position (pos : ℕ) : Int := (Int32.ofNat pos).toInt

/-- The insert loop: item `pos` takes the id after the invoice's and its predecessors'. -/
def insertLineItems (newId : ℕ → Uuid) (invoiceId : Uuid) :
    ℕ → List CreateLineItem → Db → Except SqlError Db
  | _, [], db => .ok db
  | pos, li :: rest, db =>
    match InvoiceRepo.insertLineItem db (newId (pos + 1)) invoiceId li (position pos) with
    | .error e => .error e
    | .ok db' => insertLineItems newId invoiceId (pos + 1) rest db'

def createdPayload (inv : Invoice) (total : Money) : JsonValue :=
  .obj
    [("id", .str inv.id.toString),
     ("customer_id", .str inv.customerId.toString),
     ("state", .str "draft"),
     ("total_cents", .num total.cents.toInt),
     ("currency", .str "USD")]

/-- The transaction of `create`. -/
def createTx (db : Db) (now : Timestamp) (businessId : Uuid) (req : CreateInvoiceRequest)
    (fresh : Fresh) : Except SqlError (Db × InvoiceResponse) := do
  let (db₁, invoice) ←
    InvoiceRepo.insertInvoice db now (fresh.newId 0) businessId req.customerId
  let db₂ ← insertLineItems fresh.newId invoice.id 0 req.lineItems db₁
  let (db₃, total) ← InvoiceRepo.syncTotal db₂ invoice.id
  let items := InvoiceRepo.listLineItems db₃ invoice.id
  let db₄ ← WebhookService.emitEvent db₃ now (fresh.newId (req.lineItems.length + 1))
    fresh.sequence businessId .invoiceCreated invoice.id (createdPayload invoice total)
  return (db₄, InvoiceResponse.fromParts { invoice with totalCents := total } items)

/-- The customer must belong to the business. -/
def customerExists (db : Db) (businessId customerId : Uuid) : Bool :=
  db.customers.any fun c => c.id = customerId && c.businessId = businessId

def create (db : Db) (now : Timestamp) (businessId : Uuid) (req : CreateInvoiceRequest)
    (fresh : Fresh) : Except AppError (Db × InvoiceResponse) :=
  match validateLineItems req with
  | .error e => .error e
  | .ok () =>
    if customerExists db businessId req.customerId then
      orRaise (createTx db now businessId req fresh)
    else .error (.notFound "customer not found")

/-! ## Retrieval -/

def get (db : Db) (businessId id : Uuid) : Except AppError InvoiceResponse :=
  match InvoiceRepo.get db businessId id with
  | none => .error (.notFound "invoice not found")
  | some invoice => .ok (.fromParts invoice (InvoiceRepo.listLineItems db id))

/-- The list view omits the line items. -/
def list (rfc : Pagination.Rfc3339) (db : Db) (businessId : Uuid) (state : Option InvoiceState)
    (limit : Option Int64) (cursor : Option String) : Pagination.Page InvoiceResponse :=
  Pagination.paginate rfc (InvoiceRepo.list db businessId state) Invoice.createdAt Invoice.id
    (InvoiceResponse.fromParts · []) limit cursor

/-! ## Transitions -/

/-- The three admin actions. -/
inductive AdminAction where
  | finalize
  | void
  | markUncollectible
deriving DecidableEq, Repr

/-- The state each action requests. -/
def AdminAction.target : AdminAction → InvoiceState
  | finalize => .open
  | void => .void
  | markUncollectible => .uncollectible

/-- The error of every refused transition. -/
def invalidTransition (current toState : InvoiceState) : AppError :=
  .invalidStateTransition current.asStr toState.asStr

/-- The read of `transition`. -/
def load (db : Db) (businessId id : Uuid) : Except AppError Invoice :=
  match InvoiceRepo.get db businessId id with
  | none => .error (.notFound "invoice not found")
  | some invoice => .ok invoice

/-- The check of the state machine on the state that was read. -/
def check (current toState : InvoiceState) : Except AppError Unit :=
  if current = toState then .error (invalidTransition current toState)
  else if ¬ current.canTransitionTo toState then .error (invalidTransition current toState)
  else .ok ()

/-- The conditional `UPDATE`; no row back means the race was lost. -/
def apply (db : Db) (now : Timestamp) (businessId id : Uuid) (current toState : InvoiceState) :
    Except AppError (Db × Invoice) :=
  match InvoiceRepo.transition db now businessId id current toState with
  | (_, none) => .error (invalidTransition current toState)
  | (db', some updated) => .ok (db', updated)

/-- The whole of `transition`, run without interruption. -/
def transition (db : Db) (now : Timestamp) (businessId id : Uuid) (toState : InvoiceState) :
    Except AppError (Db × InvoiceResponse) := do
  let current ← load db businessId id
  check current.state toState
  let (db', updated) ← apply db now businessId id current.state toState
  return (db', .fromParts updated (InvoiceRepo.listLineItems db' id))

end InvoicePayment.InvoiceService
