import InvoicePayment.Service.System

/-!
# The operations of the API

Every operation as the caller of a business sees it, run without interruption: the database it
finds, what it draws from outside, the database it leaves and what it answers.
-/

namespace InvoicePayment.Service

open InvoicePayment.InvoiceService (AdminAction)

/-- An operation and what it draws from outside: ids, secrets, sequence numbers, the PSP's answer,
and the order in which a list without a tie-break meets its rows. -/
inductive Op where
  | createCustomer (id : Uuid) (req : CreateCustomerRequest)
  | getCustomer (id : Uuid)
  | listCustomers (limit : Option Int64) (cursor : Option String)
  | createInvoice (req : CreateInvoiceRequest) (fresh : Fresh)
  | getInvoice (id : Uuid)
  | listInvoices (state : Option InvoiceState) (limit : Option Int64) (cursor : Option String)
  | transition (id : Uuid) (action : AdminAction)
  | pay (invoiceId : Uuid) (key : String) (req : PayRequest) (result : PspResult)
      (fresh fresh' : Fresh)
  | getAttempt (invoiceId attemptId : Uuid)
  | registerEndpoint (id : Uuid) (secret : List UInt8) (req : CreateEndpointRequest)
  | listEvents (limit : Option Int64) (cursor : Option String)
  | listDeliveries (status : Option String) (scan : List WebhookDelivery)
  | redeliver (deliveryId : Uuid)
  | createKey (id : Uuid) (random : Auth.RandomBody) (req : CreateApiKeyRequest)
  | listKeys (scan : List ApiKey)
  | revokeKey (id : Uuid)

/-- What an operation answers. -/
inductive Reply where
  | customer (c : CustomerResponse)
  | customers (page : Pagination.Page CustomerResponse)
  | invoice (i : InvoiceResponse)
  | invoices (page : Pagination.Page InvoiceResponse)
  | payment (outcome : PayOutcome)
  | attempt (a : PaymentAttemptResponse)
  | endpoint (ep : WebhookEndpoint)
  | events (page : Pagination.Page WebhookEventRow)
  | deliveries (rows : List WebhookDeliveryRow)
  | key (k : CreateApiKeyResponse)
  | keys (items : List ApiKeyListItem)
  | done

/-- The end of a transaction: its database if it commits, the old one if it fails. -/
def commit {α : Type} (db : Db) (r : Except AppError (Db × α)) : Db × Except AppError α :=
  match r with
  | .error e => (db, .error e)
  | .ok (db', a) => (db', .ok a)

/-- The end of a statement that answers nothing. -/
def afterWrite (db : Db) (r : Except AppError Db) : Db × Except AppError Reply :=
  match r with
  | .error e => (db, .error e)
  | .ok db' => (db', .ok .done)

/-- What the operations depend on from outside: the hash, the case folding of `citext`, the text
form of times. -/
structure Outside where
  sha256 : List UInt8 → List UInt8
  lower : String → String
  rfc : Pagination.Rfc3339

/-- What a business `b` gets from an operation at the moment `now`. `none` if the order drawn is
not one of the rows that are there. -/
def Op.perform (out : Outside) (now : Timestamp) (b : Uuid) (db : Db) :
    Op → Option (Db × Except AppError Reply)
  | .createCustomer id req =>
    let (db', r) := commit db (CustomerService.create out.lower db now id b req)
    some (db', r.map .customer)
  | .getCustomer id => some (db, (CustomerService.get db b id).map .customer)
  | .listCustomers limit cursor =>
    some (db, .ok (.customers (CustomerService.list out.rfc db b limit cursor)))
  | .createInvoice req fresh =>
    let (db', r) := commit db (InvoiceService.create db now b req fresh)
    some (db', r.map .invoice)
  | .getInvoice id => some (db, (InvoiceService.get db b id).map .invoice)
  | .listInvoices state limit cursor =>
    some (db, .ok (.invoices (InvoiceService.list out.rfc db b state limit cursor)))
  | .transition id action =>
    let (db', r) := commit db (InvoiceService.transition db now b id action.target)
    some (db', r.map .invoice)
  | .pay invoiceId key req result fresh fresh' =>
    let (db', r) := PaymentService.pay out.sha256 db now fresh fresh' b invoiceId key req result
    some (db', r.map .payment)
  | .getAttempt invoiceId attemptId =>
    some (db, (PaymentService.getAttempt db b invoiceId attemptId).map .attempt)
  | .registerEndpoint id secret req =>
    let (db', r) := commit db (WebhookService.registerEndpoint db now id secret b req)
    some (db', r.map .endpoint)
  | .listEvents limit cursor =>
    some (db, .ok (.events (WebhookService.listEvents out.rfc db b limit cursor)))
  | .listDeliveries status scan =>
    (WebhookService.listDeliveries db scan b status).map fun r => (db, r.map .deliveries)
  | .redeliver deliveryId =>
    some (afterWrite db (WebhookService.redeliver db now b deliveryId))
  | .createKey id random req =>
    let (db', r) := commit db (ApiKeys.create out.sha256 db now id random b req)
    some (db', r.map .key)
  | .listKeys scan =>
    (ApiKeyRepo.list db scan b).map fun items => (db, .ok (.keys items))
  | .revokeKey id => some (afterWrite db (ApiKeys.revoke db now b id))

/-- The ids and the key prefix an operation draws are on no row of the database. -/
def Op.Fresh (out : Outside) (db : Db) : Op → Prop
  | .createCustomer id _ => ∀ c ∈ db.customers, c.id ≠ id
  | .createInvoice req fresh =>
    (∀ i ∈ db.invoices, i.id ≠ fresh.newId 0) ∧
    (∀ li ∈ db.invoiceLineItems, ∀ pos, li.id ≠ fresh.newId (pos + 1)) ∧
    ∀ e ∈ db.webhookEvents, e.id ≠ fresh.newId (req.lineItems.length + 1)
  | .pay _ _ _ _ fresh fresh' =>
    (∀ k ∈ db.idempotencyKeys, k.id ≠ fresh.newId 0) ∧
    (∀ a ∈ db.paymentAttempts, a.id ≠ fresh.newId 1) ∧
    ∀ e ∈ db.webhookEvents, e.id ≠ fresh'.newId 0
  | .registerEndpoint id _ _ => ∀ ep ∈ db.webhookEndpoints, ep.id ≠ id
  | .createKey id random req =>
    ∀ k ∈ db.apiKeys, k.id ≠ id ∧
      k.keyPrefix ≠ (Auth.generateKey out.sha256 (req.env.getD "test") random).keyPrefix
  | _ => True

end InvoicePayment.Service
