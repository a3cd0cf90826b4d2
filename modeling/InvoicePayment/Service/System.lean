import InvoicePayment.Payments.System
import InvoicePayment.Routes.ApiKeys
import InvoicePayment.Auth.Middleware
import InvoicePayment.Services.CustomerService
import InvoicePayment.Webhooks.System

/-!
# The service

The payment system, the dispatchers and the requests that are served by a single transaction,
around one database. A transaction that fails is rolled back, so such a request either commits
what it does or changes nothing; its answer is remembered under its id.
-/

namespace InvoicePayment.Service

/-! ## Requests served by one transaction -/

/-- A writing request and what it draws from outside. -/
inductive Call where
  | createCustomer (businessId id : Uuid) (req : CreateCustomerRequest)
  | createInvoice (businessId : Uuid) (req : CreateInvoiceRequest) (fresh : Fresh)
  | registerEndpoint (businessId id : Uuid) (secret : List UInt8) (req : CreateEndpointRequest)
  | redeliver (businessId deliveryId : Uuid)
  | createKey (businessId id : Uuid) (random : Auth.RandomBody) (req : CreateApiKeyRequest)
  | revokeKey (businessId id : Uuid)

/-- What such a request answers. -/
inductive Answer where
  | customer (c : CustomerResponse)
  | invoice (i : InvoiceResponse)
  | endpoint (ep : WebhookEndpoint)
  | key (k : CreateApiKeyResponse)
  | done

/-- What the service depends on from outside: hash, PSP, the case folding of `citext`, and
`webhook_max_attempts`. -/
structure Env (δ : Type) extends Payments.Env δ where
  lower : String → String
  maxAttempts : Int

variable {δ : Type}

def Call.perform (env : Env δ) (db : Db) (now : Timestamp) : Call → Except AppError (Db × Answer)
  | .createCustomer businessId id req =>
    (CustomerService.create env.lower db now id businessId req).map fun p => (p.1, .customer p.2)
  | .createInvoice businessId req fresh =>
    (InvoiceService.create db now businessId req fresh).map fun p => (p.1, .invoice p.2)
  | .registerEndpoint businessId id secret req =>
    (WebhookService.registerEndpoint db now id secret businessId req).map
      fun p => (p.1, .endpoint p.2)
  | .redeliver businessId deliveryId =>
    (WebhookService.redeliver db now businessId deliveryId).map fun db' => (db', .done)
  | .createKey businessId id random req =>
    (ApiKeys.create env.sha256 db now id random businessId req).map fun p => (p.1, .key p.2)
  | .revokeKey businessId id =>
    (ApiKeys.revoke db now businessId id).map fun db' => (db', .done)

/-! ## States and labels -/

/-- One such request. -/
abbrev CallId := ℕ

structure State extends Payments.State where
  dispatchers : Webhooks.WorkerId → Option Webhooks.Worker := fun _ => none
  answers : CallId → Option (Except AppError Answer) := fun _ => none

/-- What the dispatchers see. -/
def State.hooks (s : State) : Webhooks.State :=
  { now := s.now, db := s.db, workers := s.dispatchers }

/-- What the dispatchers have done. -/
def State.withHooks (s : State) (h : Webhooks.State) : State :=
  { s with db := h.db, dispatchers := h.workers }

def State.withDb (s : State) (db : Db) : State := { s with db }

def State.setAnswer (s : State) (c : CallId) (a : Except AppError Answer) : State :=
  { s with answers := fun c' => if c' = c then some a else s.answers c' }

/-- What a dispatcher does by itself. -/
def isDispatcher : Webhooks.Label → Bool
  | .advance _ => false
  | .register _ _ _ _ => false
  | .emit _ _ _ _ _ => false
  | .redeliver _ _ => false
  | _ => true

inductive Label (δ : Type) where
  /-- A step of the payment system. -/
  | payments (l : Payments.Label δ)
  /-- A step of a dispatcher. -/
  | dispatcher (l : Webhooks.Label)
  /-- A request is served. -/
  | call (c : CallId) (req : Call)
  /-- The auth layer records the use of a key. -/
  | touch (keyPrefix : String)

/-! ## Steps -/

/-- Serve a request under an unused id. -/
def callStep (env : Env δ) (s : State) (c : CallId) (req : Call) : Option State :=
  match s.answers c with
  | some _ => none
  | none =>
    match req.perform env s.db s.now with
    | .error e => some (s.setAnswer c (.error e))
    | .ok (db, a) => some ((s.withDb db).setAnswer c (.ok a))

def step (env : Env δ) (s : State) : Label δ → Option State
  | .payments l => (Payments.step env.toEnv s.toState l).map fun p => { s with toState := p }
  | .dispatcher l =>
    if isDispatcher l then (Webhooks.step env.maxAttempts s.hooks l).map s.withHooks else none
  | .call c req => callStep env s c req
  | .touch keyPrefix => some (s.withDb (Auth.touch s.db s.now keyPrefix))

/-- A database no payment has touched yet, nothing running and nothing asked. -/
structure Initial (s : State) : Prop where
  payments : Payments.Initial s.toState
  customers : (s.db.customers.map Customer.id).Nodup
  dispatchers : s.dispatchers = fun _ => none
  answers : s.answers = fun _ => none

def system (env : Env δ) : TransitionSystem State (Label δ) where
  Initial := Initial
  step := step env

end InvoicePayment.Service
