import InvoicePayment.Lib.Schedule
import InvoicePayment.Services.WebhookService
import InvoicePayment.Webhooks.Signing
import Mathlib.Data.UInt

/-!
# The webhook dispatcher

The queries of one dispatcher tick: `fanOut`, the claim of a batch, the query that hydrates it,
and the outcome writes, which address a row by its id alone. `sendOne` is what a send does with
the receiver's answer; `backoffCeiling` is computed in the `u64` of the source.
-/

namespace InvoicePayment.Dispatcher

/-- `BATCH`. -/
def batchSize : ℕ := 50

/-- `MAX_CONCURRENCY`. -/
def maxConcurrency : ℕ := 16

/-- `SEND_TIMEOUT`. -/
def sendTimeout : Int := seconds 10

/-- `BACKOFF_BASE_SECS`. -/
def backoffBaseSecs : UInt64 := 10

/-- `BACKOFF_CAP_SECS`. -/
def backoffCapSecs : UInt64 := 3600

/-- The largest `integer` of Postgres. -/
def maxInteger : Int := 2 ^ 31 - 1

/-! ## Fan-out -/

/-- The `ON` clause: an active endpoint of the event's business whose filter is empty or names
the event's type. -/
def admits (e : WebhookEvent) (ep : WebhookEndpoint) : Bool :=
  ep.businessId = e.businessId && ep.status = .active
    && (ep.eventTypes.isEmpty || ep.eventTypes.contains e.eventType.asStr)

theorem admits_iff {e : WebhookEvent} {ep : WebhookEndpoint} :
    admits e ep = true ↔ ep.businessId = e.businessId ∧ ep.status = .active ∧
      (ep.eventTypes = [] ∨ e.eventType.asStr ∈ ep.eventTypes) := by
  simp [admits, and_assoc]

/-- The rows the fan-out selects: recent events with the endpoints that admit them. -/
def fanOutPairs (db : Db) (now : Timestamp) : List (WebhookEvent × WebhookEndpoint) :=
  (db.webhookEvents.filter fun e => now - seconds 3600 < e.createdAt).flatMap fun e =>
    (db.webhookEndpoints.filter (admits e)).map fun ep => (e, ep)

/-- The row of a new delivery. -/
def newDelivery (now : Timestamp) (id : Uuid) (e : WebhookEvent) (ep : WebhookEndpoint) :
    WebhookDelivery :=
  { id
    eventId := e.id
    endpointId := ep.id
    businessId := e.businessId
    nextAttemptAt := now
    createdAt := now }

/-- `INSERT .. ON CONFLICT (event_id, endpoint_id) DO NOTHING` of the selected rows, the `n`-th
with the id `newId n`. -/
def insertDeliveries (now : Timestamp) (newId : ℕ → Uuid) :
    ℕ → List (WebhookEvent × WebhookEndpoint) → List WebhookDelivery →
    Except SqlError (List WebhookDelivery)
  | _, [], deliveries => .ok deliveries
  | n, (e, ep) :: pairs, deliveries =>
    let row := newDelivery now (newId n) e ep
    if uqDeliveryEventEndpoint.conflicts deliveries row then
      insertDeliveries now newId (n + 1) pairs deliveries
    else if (primaryKey WebhookDelivery.id).conflicts deliveries row then .error .uniqueViolation
    else insertDeliveries now newId (n + 1) pairs (deliveries ++ [row])

/-- Create delivery rows for recent events and matching active endpoints. -/
def fanOut (db : Db) (now : Timestamp) (fresh : Fresh) : Except SqlError Db :=
  match insertDeliveries now fresh.newId 0 (fanOutPairs db now) db.webhookDeliveries with
  | .error e => .error e
  | .ok webhookDeliveries => .ok { db with webhookDeliveries }

/-! ## The claim -/

/-- A delivery to send: pending or failed and due, or in flight under an expired lease. -/
def isDue (now : Timestamp) (d : WebhookDelivery) : Bool :=
  ((d.status = .pending || d.status = .failed) && d.nextAttemptAt ≤ now)
    || (d.status = .inFlight && d.lockedUntil.any (· < now))

/-- `ids` is a batch the subquery may select. -/
def isBatch (db : Db) (now : Timestamp) (locked ids : List Uuid) : Bool :=
  Table.isBatch WebhookDelivery.id (isDue now) (fun a b => a.nextAttemptAt ≤ b.nextAttemptAt)
    batchSize db.webhookDeliveries locked ids

/-- Lease the batch for 30 seconds and count the attempt; an `integer` out of range fails the
query. -/
def claim (db : Db) (now : Timestamp) (ids : List Uuid) : Except SqlError Db :=
  if db.webhookDeliveries.any fun d => ids.contains d.id && maxInteger ≤ d.attempts then
    .error .other
  else
    .ok { db with
      webhookDeliveries := Table.update (fun d => ids.contains d.id)
        (fun d => { d with
          status := .inFlight
          lockedUntil := some (now + seconds 30)
          attempts := d.attempts + 1
          lastAttemptAt := some now }) db.webhookDeliveries }

/-- A claimed delivery with its event and its endpoint. -/
structure Work where
  deliveryId : Uuid
  attempts : Int
  eventId : Uuid
  payload : JsonValue
  url : String
  secret : List UInt8

/-- The join of one delivery. -/
def Work.ofDelivery (db : Db) (d : WebhookDelivery) : Option Work :=
  match db.webhookEvents.find? fun e => e.id = d.eventId,
    db.webhookEndpoints.find? fun ep => ep.id = d.endpointId with
  | some e, some ep =>
    some
      { deliveryId := d.id
        attempts := d.attempts
        eventId := e.id
        payload := e.payload
        url := ep.url
        secret := ep.secret }
  | _, _ => none

/-- Hydrate the claimed deliveries; their `attempts` are read a second time. -/
def hydrate (db : Db) (ids : List Uuid) : List Work :=
  (Table.withIds WebhookDelivery.id db.webhookDeliveries ids).filterMap (Work.ofDelivery db)

/-- When the outcomes of a batch are written that is claimed at `now` and whose sends take
`durations`: the loop waits for a permit before it spawns the next send. -/
def outcomeTimes (now : Timestamp) (durations : List Int) : List Timestamp :=
  Schedule.finish (List.replicate maxConcurrency now) durations

/-! ## The request -/

/-- `Utc::now().timestamp()`. -/
def unixSeconds (now : Timestamp) : Int64 := Int64.ofInt (now / seconds 1)

/-- What is sent to a receiver. -/
structure Request where
  url : String
  contentType : String
  webhookId : String
  webhookSignature : String
  body : List UInt8

/-- The request of a send. `toVec` is `serde_json::to_vec` with its default on failure. -/
def request (hmac : Signing.Hmac) (toVec : JsonValue → List UInt8) (now : Timestamp) (work : Work) :
    Request :=
  let body := toVec work.payload
  { url := work.url
    contentType := "application/json"
    webhookId := work.eventId.toString
    webhookSignature := Signing.signatureHeader hmac work.secret (unixSeconds now) body
    body }

/-- Two requests under one secret have the same signature only if they are of the same second and
carry the same body. -/
theorem request_signature_injective {hmac : Signing.Hmac} {toVec : JsonValue → List UInt8}
    {now now' : Timestamp} {work work' : Work} (hinj : Function.Injective (hmac work.secret))
    (hsecret : work'.secret = work.secret)
    (h : (request hmac toVec now work).webhookSignature =
      (request hmac toVec now' work').webhookSignature) :
    unixSeconds now = unixSeconds now' ∧
      (request hmac toVec now work).body = (request hmac toVec now' work').body := by
  have hparse := congrArg Signing.parseSignatureHeader h
  simp only [request, Signing.parseSignatureHeader_signatureHeader, hsecret] at hparse
  obtain ⟨htime, hmac⟩ := Prod.mk.inj (Option.some.inj hparse)
  exact ⟨htime, (Signing.signedMessage_injective (hinj hmac)).2⟩

/-! ## The outcome -/

/-- What came of a send: the status of the receiver's response, or a transport error. -/
inductive SendResult where
  | response (code : ℕ)
  | error (message : String)
deriving DecidableEq

/-- A `4xx` other than `408` and `429` is the receiver rejecting the delivery. -/
def isNonRetryable (code : ℕ) : Bool := 400 ≤ code && code < 500 && code ≠ 408 && code ≠ 429

/-- `u64::saturating_mul`. -/
def saturatingMul (a b : UInt64) : UInt64 :=
  if a.toNat * b.toNat < 2 ^ 64 then a * b else 2 ^ 64 - 1

/-- The ceiling of the backoff after `attempts` attempts, in seconds. The shift of a release
build keeps the low six bits of its amount. -/
def backoffCeiling (attempts : Int) : UInt64 :=
  let exp := saturatingMul backoffBaseSecs ((1 : UInt64) <<< (max attempts 1 - 1).toNat.toUInt64)
  max (min exp backoffCapSecs) 1

def markSucceeded (db : Db) (id : Uuid) (code : Int) : Db :=
  { db with
    webhookDeliveries := Table.update (fun d => d.id = id)
      (fun d => { d with
        status := .succeeded
        lastStatusCode := some code
        lockedUntil := none }) db.webhookDeliveries }

/-- Dead-letter a delivery whose budget is used up or which the receiver has rejected; give any
other one a later attempt, `delay` seconds from now. -/
def markFailed (db : Db) (now : Timestamp) (maxAttempts : Int) (id : Uuid) (attempts : Int)
    (code : Option Int) (error : String) (nonRetryable : Bool) (delay : ℕ) : Except SqlError Db :=
  if ¬ isPgText error then .error .other
  else if nonRetryable ∨ maxAttempts ≤ attempts then
    .ok { db with
      webhookDeliveries := Table.update (fun d => d.id = id)
        (fun d => { d with
          status := .dead
          lastStatusCode := code
          lastError := some error
          lockedUntil := none }) db.webhookDeliveries }
  else
    .ok { db with
      webhookDeliveries := Table.update (fun d => d.id = id)
        (fun d => { d with
          status := .failed
          lastStatusCode := code
          lastError := some error
          nextAttemptAt := now + seconds delay
          lockedUntil := none }) db.webhookDeliveries }

/-- Record what came of a send. `delay` is what the jitter draws from `0..=ceiling`. -/
def sendOne (db : Db) (now : Timestamp) (maxAttempts : Int) (work : Work) (result : SendResult)
    (delay : ℕ) : Except SqlError Db :=
  match result with
  | .response code =>
    if 200 ≤ code ∧ code < 300 then .ok (markSucceeded db work.deliveryId code)
    else
      markFailed db now maxAttempts work.deliveryId work.attempts (some code) "non-2xx response"
        (isNonRetryable code) delay
  | .error message =>
    markFailed db now maxAttempts work.deliveryId work.attempts none message false delay

end InvoicePayment.Dispatcher
