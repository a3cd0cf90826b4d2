import InvoicePayment.Common.Ids
import InvoicePayment.Common.Money
import InvoicePayment.Lib.Json

/-!
# Webhooks

Endpoints, the outbox event and the per-endpoint delivery work item.
-/

namespace InvoicePayment

/-- The canonical event types. -/
inductive EventType where
  | invoiceCreated
  | invoicePaid
  | invoicePaymentFailed
deriving DecidableEq, Repr

def EventType.asStr : EventType → String
  | invoiceCreated => "invoice.created"
  | invoicePaid => "invoice.paid"
  | invoicePaymentFailed => "invoice.payment_failed"

/-- The `status` column of `webhook_endpoints`. -/
inductive EndpointStatus where
  | active
  | disabled
deriving DecidableEq, Repr

/-- A row of `webhook_endpoints`; an empty filter subscribes to every event type. -/
structure WebhookEndpoint where
  id : Uuid
  businessId : Uuid
  url : String
  secret : List UInt8
  eventTypes : List String
  status : EndpointStatus := .active
  createdAt : Timestamp

/-- The body of an endpoint registration. -/
structure CreateEndpointRequest where
  url : String
  eventTypes : List String := []

/-- A row of `webhook_events`, the append-only outbox. -/
structure WebhookEvent where
  id : Uuid
  businessId : Uuid
  eventType : EventType
  aggregateId : Uuid
  payload : JsonValue
  sequence : Int
  createdAt : Timestamp

/-- What the event list selects. -/
structure WebhookEventRow where
  id : Uuid
  eventType : EventType
  aggregateId : Uuid
  payload : JsonValue
  sequence : Int
  createdAt : Timestamp

def WebhookEventRow.ofEvent (e : WebhookEvent) : WebhookEventRow :=
  { id := e.id
    eventType := e.eventType
    aggregateId := e.aggregateId
    payload := e.payload
    sequence := e.sequence
    createdAt := e.createdAt }

/-- The `status` column of `webhook_deliveries`. -/
inductive DeliveryStatus where
  | pending
  | inFlight
  | succeeded
  | failed
  | dead
deriving DecidableEq, Repr

def DeliveryStatus.asStr : DeliveryStatus → String
  | pending => "pending"
  | inFlight => "in_flight"
  | succeeded => "succeeded"
  | failed => "failed"
  | dead => "dead"

/-- A row of `webhook_deliveries`. -/
structure WebhookDelivery where
  id : Uuid
  eventId : Uuid
  endpointId : Uuid
  businessId : Uuid
  status : DeliveryStatus := .pending
  attempts : Int := 0
  nextAttemptAt : Timestamp
  lockedUntil : Option Timestamp := none
  lastStatusCode : Option Int := none
  lastError : Option String := none
  lastAttemptAt : Option Timestamp := none
  createdAt : Timestamp
deriving DecidableEq

/-- What the delivery list selects. -/
structure WebhookDeliveryRow where
  id : Uuid
  eventId : Uuid
  endpointId : Uuid
  status : DeliveryStatus
  attempts : Int
  nextAttemptAt : Timestamp
  lastStatusCode : Option Int
  lastError : Option String
  lastAttemptAt : Option Timestamp
  createdAt : Timestamp

def WebhookDeliveryRow.ofDelivery (d : WebhookDelivery) : WebhookDeliveryRow :=
  { id := d.id
    eventId := d.eventId
    endpointId := d.endpointId
    status := d.status
    attempts := d.attempts
    nextAttemptAt := d.nextAttemptAt
    lastStatusCode := d.lastStatusCode
    lastError := d.lastError
    lastAttemptAt := d.lastAttemptAt
    createdAt := d.createdAt }

end InvoicePayment
