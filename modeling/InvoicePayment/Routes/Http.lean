import InvoicePayment.Auth.Middleware
import InvoicePayment.Common.Envelope
import InvoicePayment.Service.Operations

/-!
# The HTTP layer

The `/v1` routes behind the auth middleware. A handler extracts its input, calls one service
function and maps the result. `Endpoint` is a handler with what its path, query and body extractors
have read, and with what the service function is going to draw from outside; requests that the
extractors reject never reach it.
-/

namespace InvoicePayment.Http

open Service (Op Outside Reply)

/-- The header values under their names, which are kept in lower case. -/
abbrev HeaderMap := List (String × List UInt8)

def HeaderMap.get (headers : HeaderMap) (name : String) : Option (List UInt8) :=
  headers.lookup name

/-- The query of the customer and event lists. -/
structure ListQuery where
  limit : Option Int64 := none
  cursor : Option String := none

structure InvoiceListQuery where
  state : Option InvoiceState := none
  limit : Option Int64 := none
  cursor : Option String := none

structure DeliveryQuery where
  status : Option String := none

/-- The handlers of `routes/api_keys.rs`, `routes/customers.rs`, `routes/invoices.rs` and
`routes/webhooks.rs`. -/
inductive Endpoint where
  | createKey (req : CreateApiKeyRequest) (newId : Uuid) (random : Auth.RandomBody)
  | listKeys (scan : List ApiKey)
  | revokeKey (id : Uuid)
  | createCustomer (req : CreateCustomerRequest) (newId : Uuid)
  | getCustomer (id : Uuid)
  | listCustomers (q : ListQuery)
  | createInvoice (req : CreateInvoiceRequest) (fresh : Fresh)
  | getOne (id : Uuid)
  | listInvoices (q : InvoiceListQuery)
  | finalize (id : Uuid)
  | void (id : Uuid)
  | markUncollectible (id : Uuid)
  | pay (id : Uuid) (req : PayRequest) (result : PspResult) (fresh fresh' : Fresh)
  | getAttempt (id attemptId : Uuid)
  | createEndpoint (req : CreateEndpointRequest) (newId : Uuid) (secret : List UInt8)
  | listEvents (q : ListQuery)
  | listDeliveries (q : DeliveryQuery) (scan : List WebhookDelivery)
  | redeliver (id : Uuid)

structure Request where
  headers : HeaderMap
  endpoint : Endpoint

inductive Body where
  | empty
  | reply (r : Reply)
  | error (envelope : JsonValue)

structure Response where
  status : StatusCode
  body : Body

/-! ## Handlers -/

/-- The `Idempotency-Key` header, trimmed; a payment has to have one. -/
def idempotencyKey (headers : HeaderMap) : Except AppError String :=
  let text := (headers.get "idempotency-key").bind Auth.headerText
  let trimmed := text.map fun s => String.ofList (Auth.trim s.toList)
  match trimmed.filter fun s => ¬ s.isEmpty with
  | some key => .ok key
  | none => .error (.validation [⟨"Idempotency-Key", "this header is required for payments"⟩])

/-- The service call of a handler. -/
def Endpoint.op (headers : HeaderMap) : Endpoint → Except AppError Op
  | createKey req newId random => .ok (.createKey newId random req)
  | listKeys scan => .ok (.listKeys scan)
  | revokeKey id => .ok (.revokeKey id)
  | createCustomer req newId => .ok (.createCustomer newId req)
  | getCustomer id => .ok (.getCustomer id)
  | listCustomers q => .ok (.listCustomers q.limit q.cursor)
  | createInvoice req fresh => .ok (.createInvoice req fresh)
  | getOne id => .ok (.getInvoice id)
  | listInvoices q => .ok (.listInvoices q.state q.limit q.cursor)
  | finalize id => .ok (.transition id .finalize)
  | void id => .ok (.transition id .void)
  | markUncollectible id => .ok (.transition id .markUncollectible)
  | pay id req result fresh fresh' =>
    (idempotencyKey headers).map fun key => .pay id key req result fresh fresh'
  | getAttempt id attemptId => .ok (.getAttempt id attemptId)
  | createEndpoint req newId secret => .ok (.registerEndpoint newId secret req)
  | listEvents q => .ok (.listEvents q.limit q.cursor)
  | listDeliveries q scan => .ok (.listDeliveries q.status scan)
  | redeliver id => .ok (.redeliver id)

/-- `201` for what is created, `204` and `202` without a body, the status of the payment, and `200`
for the rest. -/
def Endpoint.respond (e : Endpoint) (r : Reply) : Response :=
  match e, r with
  | createKey .., r => ⟨⟨201⟩, .reply r⟩
  | createCustomer .., r => ⟨⟨201⟩, .reply r⟩
  | createInvoice .., r => ⟨⟨201⟩, .reply r⟩
  | createEndpoint .., r => ⟨⟨201⟩, .reply r⟩
  | revokeKey _, _ => ⟨⟨204⟩, .empty⟩
  | redeliver _, _ => ⟨.accepted, .empty⟩
  | pay .., .payment outcome => ⟨outcome.1, .reply (.payment outcome)⟩
  | _, r => ⟨.ok, .reply r⟩

def errorResponse (e : AppError) : Response :=
  let (status, body) := e.intoResponse
  ⟨status, .error body.toJson⟩

/-- The handler behind the middleware. -/
def handle (out : Outside) (now : Timestamp) (b : Uuid) (db : Db) (req : Request) :
    Option (Db × Response) :=
  match req.endpoint.op req.headers with
  | .error e => some (db, errorResponse e)
  | .ok op =>
    (op.perform out now b db).map fun p =>
      (p.1, match p.2 with
        | .error e => errorResponse e
        | .ok r => req.endpoint.respond r)

/-- Whom `require_api_key` lets the request through as. -/
def identify (out : Outside) (now : Timestamp) (db : Db) (req : Request) : Except AppError Uuid :=
  Auth.requireApiKey out.sha256 db now (req.headers.get "authorization")

/-- A request to one of the `/v1` routes. -/
def serve (out : Outside) (now : Timestamp) (db : Db) (req : Request) : Option (Db × Response) :=
  match identify out now db req with
  | .error e => some (db, errorResponse e)
  | .ok b => handle out now b db req

/-! ## Requests one after another -/

structure State where
  now : Timestamp
  db : Db

/-- What happens next: the clock moves on, a request is served, or the use of a key, recorded in the
background, reaches the database. -/
inductive Label where
  | advance (now : Timestamp)
  | request (req : Request)
  | touch (keyPrefix : String)

def step (out : Outside) (s : State) : Label → Option State
  | .advance now => if s.now ≤ now then some { s with now } else none
  | .request req => (serve out s.now s.db req).map fun p => { s with db := p.1 }
  | .touch keyPrefix => some { s with db := Auth.touch s.db s.now keyPrefix }

def system (out : Outside) : TransitionSystem State Label where
  Initial s := Service.Initial { now := s.now, db := s.db }
  step := step out

/-- What a request is answered. -/
def answer (out : Outside) (s : State) : Label → Option Response
  | .request req => (serve out s.now s.db req).map Prod.snd
  | _ => none

end InvoicePayment.Http
