import InvoicePayment.Lib.Table
import InvoicePayment.Domain.ApiKey
import InvoicePayment.Domain.Customer
import InvoicePayment.Domain.Invoice
import InvoicePayment.Domain.Payment
import InvoicePayment.Domain.Webhook

/-!
# Schema

The database: one list of rows per table, and the unique indexes the inserts run against.
Foreign keys are not checked; no row is ever deleted and every insert takes its references
from rows it has read.
-/

namespace InvoicePayment

/-- The `status` column of `idempotency_keys`. -/
inductive KeyStatus where
  | inProgress
  | completed
deriving DecidableEq, Repr

/-- A row of `idempotency_keys`. -/
structure IdempotencyKey where
  id : Uuid
  businessId : Uuid
  idempotencyKey : String
  requestFingerprint : List UInt8
  status : KeyStatus := .inProgress
  attemptId : Option Uuid := none
  responseStatus : Option Int := none
  responseBody : Option JsonValue := none

/-- The committed contents of the database. -/
structure Db where
  customers : List Customer := []
  invoices : List Invoice := []
  invoiceLineItems : List LineItem := []
  paymentAttempts : List PaymentAttempt := []
  idempotencyKeys : List IdempotencyKey := []
  webhookEndpoints : List WebhookEndpoint := []
  webhookEvents : List WebhookEvent := []
  webhookDeliveries : List WebhookDelivery := []
  apiKeys : List ApiKey := []

/-! ## Indexes -/

/-- The primary key of a table. -/
def primaryKey {α : Type} (id : α → Uuid) : Table.UniqueIndex α Uuid :=
  { covers := fun _ => true, key := id }

/-- `uq_api_keys_prefix`, over live and revoked keys alike. -/
def uqApiKeysPrefix : Table.UniqueIndex ApiKey String :=
  { covers := fun _ => true, key := ApiKey.keyPrefix }

/-- `uq_customers_business_email`. The column is `citext`, which compares what `lower` makes of
two texts. -/
def uqCustomersBusinessEmail (lower : String → String) :
    Table.UniqueIndex Customer (Uuid × Option String) :=
  { covers := fun c => c.email.isSome, key := fun c => (c.businessId, c.email.map lower) }

/-- `status IN ('pending', 'succeeded')`. -/
def PaymentAttempt.isActive (a : PaymentAttempt) : Bool :=
  a.status = .pending || a.status = .succeeded

/-- `uq_active_attempt_per_invoice`, the single-active-charge guard. -/
def uqActiveAttemptPerInvoice : Table.UniqueIndex PaymentAttempt Uuid :=
  { covers := PaymentAttempt.isActive, key := PaymentAttempt.invoiceId }

/-- `uq_idempotency_business_key`, the dedupe guarantee. -/
def uqIdempotencyBusinessKey : Table.UniqueIndex IdempotencyKey (Uuid × String) :=
  { covers := fun _ => true, key := fun k => (k.businessId, k.idempotencyKey) }

/-- `uq_delivery_event_endpoint`, which makes fan-out idempotent. -/
def uqDeliveryEventEndpoint : Table.UniqueIndex WebhookDelivery (Uuid × Uuid) :=
  { covers := fun _ => true, key := fun d => (d.eventId, d.endpointId) }

end InvoicePayment
