import InvoicePayment.Schema
import InvoicePayment.Common.Error
import InvoicePayment.Common.Pagination
import InvoicePayment.Common.Text
import InvoicePayment.Lib.Owned

/-!
# Webhook use-cases

`emitEvent` records an outbox event inside the caller's transaction; `registerEndpoint` adds a
receiver; `listEvents` is the reconciliation source of truth; `listDeliveries` shows the state of
each delivery; `redeliver` resets a failed or dead one.
-/

namespace InvoicePayment.WebhookService

/-- Insert an outbox event. -/
def emitEvent (db : Db) (now : Timestamp) (id : Uuid) (sequence : Int) (businessId : Uuid)
    (eventType : EventType) (aggregateId : Uuid) (payload : JsonValue) : Except SqlError Db :=
  let event : WebhookEvent :=
    { id, businessId, eventType, aggregateId, payload, sequence, createdAt := now }
  if (primaryKey WebhookEvent.id).conflicts db.webhookEvents event then .error .uniqueViolation
  else .ok { db with webhookEvents := db.webhookEvents ++ [event] }

/-- A recorded event has a new id. -/
theorem emitEvent_eq_ok {db db' : Db} {now : Timestamp} {id : Uuid} {sequence : Int}
    {businessId : Uuid} {eventType : EventType} {aggregateId : Uuid} {payload : JsonValue}
    (h : emitEvent db now id sequence businessId eventType aggregateId payload = .ok db') :
    (∀ e ∈ db.webhookEvents, e.id ≠ id) ∧
    db' = { db with webhookEvents := db.webhookEvents ++
      [{ id, businessId, eventType, aggregateId, payload, sequence, createdAt := now }] } := by
  unfold emitEvent at h
  dsimp only at h
  split_ifs at h with hconflict
  refine ⟨fun e he => ?_, (Except.ok.inj h).symm⟩
  exact Table.UniqueIndex.ne_of_not_conflicts (by simpa using hconflict) rfl he rfl

/-- Register a receiver. `secret` is what `fill_bytes` draws; the response carries the id, the
URL, the filter and the secret of the row. -/
def registerEndpoint (db : Db) (now : Timestamp) (id : Uuid) (secret : List UInt8)
    (businessId : Uuid) (req : CreateEndpointRequest) : Except AppError (Db × WebhookEndpoint) :=
  if ¬ (req.url.startsWith "http://" ∨ req.url.startsWith "https://") then
    .error (.validation [⟨"url", "must be an http(s) URL"⟩])
  else if ¬ (isPgText req.url ∧ req.eventTypes.all isPgText) then .error .internal
  else
    let endpoint : WebhookEndpoint :=
      { id, businessId, url := req.url, secret, eventTypes := req.eventTypes, createdAt := now }
    if (primaryKey WebhookEndpoint.id).conflicts db.webhookEndpoints endpoint then
      .error SqlError.uniqueViolation.toAppError
    else .ok ({ db with webhookEndpoints := db.webhookEndpoints ++ [endpoint] }, endpoint)

theorem registerEndpoint_eq_ok {db db' : Db} {now : Timestamp} {id : Uuid} {secret : List UInt8}
    {businessId : Uuid} {req : CreateEndpointRequest} {endpoint : WebhookEndpoint}
    (h : registerEndpoint db now id secret businessId req = .ok (db', endpoint)) :
    db' = { db with webhookEndpoints := db.webhookEndpoints ++ [endpoint] } := by
  unfold registerEndpoint at h
  dsimp only at h
  split_ifs at h
  obtain ⟨rfl, rfl⟩ := Prod.mk.inj (Except.ok.inj h)
  rfl

def eventKey (e : WebhookEvent) : Pagination.Key := Pagination.key e.createdAt e.id

/-- The query of the event list. -/
def fetchEvents (db : Db) (businessId : Uuid) (limit : ℕ) (cursor : Option (Timestamp × Uuid)) :
    List WebhookEvent :=
  Keyset.select eventKey limit (cursor.map fun c => Pagination.key c.1 c.2)
    (db.webhookEvents.filter fun e => e.businessId = businessId)

/-- What events happened, regardless of delivery state. -/
def listEvents (rfc : Pagination.Rfc3339) (db : Db) (businessId : Uuid) (limit : Option Int64)
    (cursor : Option String) : Pagination.Page WebhookEventRow :=
  Pagination.paginate rfc (fetchEvents db businessId) WebhookEvent.createdAt WebhookEvent.id
    WebhookEventRow.ofEvent limit cursor

/-- `WHERE business_id = $1 AND ($2::text IS NULL OR status = $2)`. -/
def isListed (businessId : Uuid) (status : Option String) (d : WebhookDelivery) : Bool :=
  d.businessId = businessId && status.all (d.status.asStr = ·)

/-- Per-delivery state, the latest 200. `scan` is the order the query meets the rows in; nothing
decides between deliveries created at one moment. -/
def listDeliveries (db : Db) (scan : List WebhookDelivery) (businessId : Uuid)
    (status : Option String) : Option (Except AppError (List WebhookDeliveryRow)) :=
  if ¬ status.all isPgText then some (.error .internal)
  else
    (Table.orderDesc WebhookDelivery.createdAt
      (db.webhookDeliveries.filter (isListed businessId status)) scan).map
        fun rows => .ok ((rows.take 200).map .ofDelivery)

/-- Which deliveries a manual replay resets. -/
def canRedeliver (businessId deliveryId : Uuid) (d : WebhookDelivery) : Bool :=
  d.id = deliveryId && d.businessId = businessId && (d.status = .failed || d.status = .dead)

/-- Manual replay: reset a failed or dead delivery to be retried now. -/
def redeliver (db : Db) (now : Timestamp) (businessId deliveryId : Uuid) : Except AppError Db :=
  if db.webhookDeliveries.any (canRedeliver businessId deliveryId) then
    .ok { db with
      webhookDeliveries := Table.update (canRedeliver businessId deliveryId)
        (fun d => { d with status := .pending, attempts := 0, nextAttemptAt := now
                           lockedUntil := none, lastError := none }) db.webhookDeliveries }
  else .error (.notFound "no failed/dead delivery with that id")

end InvoicePayment.WebhookService
