import InvoicePayment.Schema
import InvoicePayment.Common.Text
import InvoicePayment.Psp.Client
import InvoicePayment.Services.WebhookService

/-!
# The payment flow

`pay` cut at its commits: `readInvoice` (the unlocked read), `claim` (transaction 1),
`replay` (what a claimed key answers) and `finalize` (transaction 2, shared with the
reconciler). The PSP call between the two transactions belongs to the caller.

`sha256` stands for the hash of the `sha2` crate.
-/

namespace InvoicePayment

/-- What it takes to charge and finalize one attempt: the arguments `pay` passes on after
transaction 1, the columns `tick` gets back for a leased row. -/
structure Job where
  attemptId : Uuid
  invoiceId : Uuid
  businessId : Uuid
  idempotencyKey : String
  amountCents : Int64
  cardToken : String
deriving DecidableEq

namespace Job

/-- The body `PspClient::charge` posts. -/
def request (job : Job) : ChargeRequest :=
  { cardToken := job.cardToken
    amountCents := job.amountCents
    idempotencyKey := some job.idempotencyKey }

/-- `RETURNING id, invoice_id, business_id, idempotency_key, amount_cents, card_token`. -/
def ofAttempt (a : PaymentAttempt) : Job :=
  { attemptId := a.id
    invoiceId := a.invoiceId
    businessId := a.businessId
    idempotencyKey := a.idempotencyKey
    amountCents := a.amountCents
    cardToken := a.cardToken }

end Job

namespace PaymentService

/-! ## The unlocked read -/

/-- Check the card token and read the invoice's state and total. -/
def readInvoice (db : Db) (businessId invoiceId : Uuid) (req : PayRequest) :
    Except AppError (InvoiceState × Int64) :=
  if isBlank req.cardToken then .error (.validation [⟨"card_token", "must not be empty"⟩])
  else
    match db.invoices.find? fun i => i.id = invoiceId && i.businessId = businessId with
    | none => .error (.notFound "invoice not found")
    | some inv => .ok (inv.state, inv.totalCents.cents)

/-! ## The fingerprint -/

/-- `i64::to_le_bytes`. -/
def toLeBytes (n : Int64) : List UInt8 := Bytes.leBytes 8 n.toBitVec.toNat

/-- The bytes fed to the hash. -/
def fingerprintInput (invoiceId : Uuid) (cardToken : String) (amountCents : Int64) : List UInt8 :=
  invoiceId.asBytes ++ [0] ++ cardToken.toByteArray.data.toList ++ [0] ++ toLeBytes amountCents

/-- SHA-256 over the canonical request. -/
def fingerprint (sha256 : List UInt8 → List UInt8) (invoiceId : Uuid) (cardToken : String)
    (amountCents : Int64) : List UInt8 :=
  sha256 (fingerprintInput invoiceId cardToken amountCents)

/-! ## Transaction 1 -/

/-- `INSERT INTO idempotency_keys .. ON CONFLICT DO NOTHING`; `none` if the key exists. -/
def insertKey (db : Db) (id businessId : Uuid) (key : String) (requestFingerprint : List UInt8) :
    Except SqlError (Option Db) :=
  if ¬ isPgText key then .error .other
  else
    let row : IdempotencyKey := { id, businessId, idempotencyKey := key, requestFingerprint }
    if uqIdempotencyBusinessKey.conflicts db.idempotencyKeys row then .ok none
    else if (primaryKey IdempotencyKey.id).conflicts db.idempotencyKeys row then
      .error .uniqueViolation
    else .ok (some { db with idempotencyKeys := db.idempotencyKeys ++ [row] })

/-- The row of a new attempt. -/
def newAttempt (job : Job) : PaymentAttempt :=
  { id := job.attemptId
    invoiceId := job.invoiceId
    businessId := job.businessId
    idempotencyKey := job.idempotencyKey
    amountCents := job.amountCents
    cardToken := job.cardToken
    status := .pending
    attemptCount := 1 }

/-- `INSERT INTO payment_attempts`. -/
def insertAttempt (db : Db) (job : Job) : Except SqlError Db :=
  if ¬ isPgText job.cardToken ∨ job.amountCents < 0 then .error .other
  else if (primaryKey PaymentAttempt.id).conflicts db.paymentAttempts (newAttempt job)
      ∨ uqActiveAttemptPerInvoice.conflicts db.paymentAttempts (newAttempt job) then
    .error .uniqueViolation
  else .ok { db with paymentAttempts := db.paymentAttempts ++ [newAttempt job] }

/-- `WHERE business_id = $2 AND idempotency_key = $3`. -/
def isKey (businessId : Uuid) (key : String) (k : IdempotencyKey) : Bool :=
  k.businessId = businessId && k.idempotencyKey = key

/-- Link the key to the attempt. -/
def linkKey (db : Db) (job : Job) : Db :=
  { db with
    idempotencyKeys := Table.update (isKey job.businessId job.idempotencyKey)
      (fun k => { k with attemptId := some job.attemptId }) db.idempotencyKeys }

def invoiceNotPayable (state : InvoiceState) : AppError :=
  .conflict "invoice_not_payable" s!"invoice is in state '{state.asStr}', not 'open'"

def paymentInProgress : AppError :=
  .conflict "payment_in_progress"
    "another payment attempt is already in progress for this invoice"

/-- How transaction 1 ends: rolled back because the key exists, rolled back with an error, or
committed. -/
inductive Claim where
  | replay
  | refused (e : AppError)
  | claimed (db : Db) (job : Job)

/-- Transaction 1: claim the key and create the pending attempt. `invoiceState` and the job's
amount come from the earlier read. -/
def claim (sha256 : List UInt8 → List UInt8) (db : Db) (fresh : Fresh) (businessId : Uuid)
    (invoiceId : Uuid) (key : String) (req : PayRequest) (invoiceState : InvoiceState)
    (amountCents : Int64) : Claim :=
  match insertKey db (fresh.newId 0) businessId key
      (fingerprint sha256 invoiceId req.cardToken amountCents) with
  | .error e => .refused e.toAppError
  | .ok none => .replay
  | .ok (some db₁) =>
    if invoiceState ≠ .open then .refused (invoiceNotPayable invoiceState)
    else
      let job : Job :=
        { attemptId := fresh.newId 1, invoiceId, businessId, idempotencyKey := key, amountCents
          cardToken := req.cardToken }
      match insertAttempt db₁ job with
      | .error e => .refused (if e.isUniqueViolation then paymentInProgress else e.toAppError)
      | .ok db₂ => .claimed (linkKey db₂ job) job

/-! ## Replays -/

def idempotencyKeyReuse : AppError :=
  .conflict "idempotency_key_reuse"
    "this idempotency key was already used with different request parameters"

def pollUrl (invoiceId attemptId : Uuid) : String :=
  s!"/v1/invoices/{invoiceId}/payments/{attemptId}"

/-- The answer while the key is in progress. -/
def inFlightResponse (invoiceId : Uuid) (attemptId : Option Uuid) : PaymentAttemptResponse :=
  { attemptId := attemptId.getD Uuid.nil
    invoiceId
    status := .pending
    amountCents := 0
    invoiceState := "open"
    pspRef := none
    failureCode := none
    message := some "payment is still being processed"
    pollUrl := attemptId.map (pollUrl invoiceId) }

/-- The answer a key row gives. `code as u16` keeps the low sixteen bits. -/
def replayRow (row : IdempotencyKey) (requestFingerprint : List UInt8) (invoiceId : Uuid) :
    Except AppError PayOutcome :=
  if row.requestFingerprint ≠ requestFingerprint then .error idempotencyKeyReuse
  else
    match row.status with
    | .inProgress => .ok (.accepted, inFlightResponse invoiceId row.attemptId)
    | .completed =>
      match row.responseStatus, row.responseBody.bind PaymentAttemptResponse.fromJson with
      | some code, some resp =>
        .ok ((StatusCode.fromU16 (code % 65536).toNat).getD .ok, resp)
      | _, _ => .error .internal

/-- Resolve a replayed idempotency key. -/
def replay (db : Db) (businessId : Uuid) (key : String) (requestFingerprint : List UInt8)
    (invoiceId : Uuid) : Except AppError PayOutcome :=
  match db.idempotencyKeys.find? (isKey businessId key) with
  | none => .error SqlError.rowNotFound.toAppError
  | some row => replayRow row requestFingerprint invoiceId

/-! ## Transaction 2 -/

/-- `WHERE id = $2 AND status = 'pending'`. -/
def isPending (attemptId : Uuid) (a : PaymentAttempt) : Bool :=
  a.id = attemptId && a.status = .pending

def markSucceeded (db : Db) (attemptId : Uuid) (pspRef : String) : Db :=
  { db with
    paymentAttempts := Table.update (isPending attemptId)
      (fun a => { a with status := .succeeded, pspRef := some pspRef }) db.paymentAttempts }

def markFailed (db : Db) (attemptId : Uuid) (code : String) : Db :=
  { db with
    paymentAttempts := Table.update (isPending attemptId)
      (fun a => { a with status := .failed, failureCode := some code }) db.paymentAttempts }

/-- Leave the attempt pending and schedule the next poll in five seconds. -/
def markUnknown (db : Db) (now : Timestamp) (attemptId : Uuid) (reason : UnknownReason) : Db :=
  { db with
    paymentAttempts := Table.update (isPending attemptId)
      (fun a => { a with
        lastError := some reason.asStr
        attemptCount := a.attemptCount + 1
        nextPollAt := some (now + seconds 5) }) db.paymentAttempts }

/-- `WHERE id = $1 AND state = 'open'`. -/
def isOpen (invoiceId : Uuid) (i : Invoice) : Bool :=
  i.id = invoiceId && i.state = .open

/-- `open -> paid`. -/
def markPaid (db : Db) (now : Timestamp) (invoiceId : Uuid) : Db :=
  { db with
    invoices := Table.update (isOpen invoiceId)
      (fun i => { i with state := .paid, paidAt := some now, version := i.version + 1 })
      db.invoices }

def succeededResponse (job : Job) (pspRef : String) : PaymentAttemptResponse :=
  { attemptId := job.attemptId
    invoiceId := job.invoiceId
    status := .succeeded
    amountCents := job.amountCents
    invoiceState := "paid"
    pspRef := some pspRef
    failureCode := none
    message := none
    pollUrl := none }

def declinedResponse (job : Job) (code : String) : PaymentAttemptResponse :=
  { attemptId := job.attemptId
    invoiceId := job.invoiceId
    status := .failed
    amountCents := job.amountCents
    invoiceState := "open"
    pspRef := none
    failureCode := some code
    message := some "the payment was declined"
    pollUrl := none }

def unknownResponse (job : Job) : PaymentAttemptResponse :=
  { attemptId := job.attemptId
    invoiceId := job.invoiceId
    status := .pending
    amountCents := job.amountCents
    invoiceState := "open"
    pspRef := none
    failureCode := none
    message := some "payment is being processed; poll for the result"
    pollUrl := some (pollUrl job.invoiceId job.attemptId) }

/-- The payload of the two payment events. -/
def paymentPayload (invoiceId : Uuid) (resp : PaymentAttemptResponse) (amountCents : Int64) :
    JsonValue :=
  .obj
    [("invoice_id", .str invoiceId.toString),
     ("attempt_id", .str resp.attemptId.toString),
     ("status", .str resp.status.asStr),
     ("amount_cents", .num amountCents.toInt),
     ("failure_code", (resp.failureCode.map .str).getD .null)]

def emit (db : Db) (now : Timestamp) (fresh : Fresh) (businessId : Uuid) (eventType : EventType)
    (invoiceId : Uuid) (resp : PaymentAttemptResponse) (amountCents : Int64) :
    Except SqlError Db :=
  WebhookService.emitEvent db now (fresh.newId 0) fresh.sequence businessId eventType invoiceId
    (paymentPayload invoiceId resp amountCents)

/-- Cache the response under the key, whatever the key's status. -/
def completeKey (db : Db) (businessId : Uuid) (key : String) (status : StatusCode)
    (resp : PaymentAttemptResponse) : Db :=
  { db with
    idempotencyKeys := Table.update (isKey businessId key)
      (fun k => { k with
        status := .completed
        responseStatus := some status.code
        responseBody := some resp.toJson }) db.idempotencyKeys }

/-- What the two definite branches do after their `UPDATE`s: emit the event, complete the
key, commit. -/
def commitOutcome (db : Db) (now : Timestamp) (fresh : Fresh) (job : Job) (eventType : EventType)
    (status : StatusCode) (resp : PaymentAttemptResponse) : Except AppError (Db × PayOutcome) :=
  match emit db now fresh job.businessId eventType job.invoiceId resp job.amountCents with
  | .error e => .error e.toAppError
  | .ok db' =>
    .ok (completeKey db' job.businessId job.idempotencyKey status resp, (status, resp))

/-- Transaction 2: apply a PSP result. A reference or code that is not storable text fails the
transaction. -/
def finalize (db : Db) (now : Timestamp) (fresh : Fresh) (job : Job) (result : PspResult) :
    Except AppError (Db × PayOutcome) :=
  match result with
  | .succeeded pspRef =>
    if ¬ isPgText pspRef then .error .internal
    else
      commitOutcome (markPaid (markSucceeded db job.attemptId pspRef) now job.invoiceId) now fresh
        job .invoicePaid .ok (succeededResponse job pspRef)
  | .declined code =>
    if ¬ isPgText code then .error .internal
    else
      commitOutcome (markFailed db job.attemptId code) now fresh job .invoicePaymentFailed
        .paymentRequired (declinedResponse job code)
  | .unknown reason =>
    .ok (markUnknown db now job.attemptId reason, (.accepted, unknownResponse job))

/-! ## Handlers -/

/-- The whole of `pay`, run without interruption; `result` is what the PSP answers the charge. -/
def pay (sha256 : List UInt8 → List UInt8) (db : Db) (now : Timestamp) (fresh fresh' : Fresh)
    (businessId invoiceId : Uuid) (key : String) (req : PayRequest) (result : PspResult) :
    Db × Except AppError PayOutcome :=
  match readInvoice db businessId invoiceId req with
  | .error e => (db, .error e)
  | .ok (invoiceState, amountCents) =>
    match claim sha256 db fresh businessId invoiceId key req invoiceState amountCents with
    | .replay =>
      (db, replay db businessId key (fingerprint sha256 invoiceId req.cardToken amountCents)
        invoiceId)
    | .refused e => (db, .error e)
    | .claimed db₁ job =>
      match finalize db₁ now fresh' job result with
      | .error e => (db₁, .error e)
      | .ok (db₂, outcome) => (db₂, .ok outcome)

/-- `WHERE id = $1 AND invoice_id = $2 AND business_id = $3`. -/
def isAttempt (businessId invoiceId attemptId : Uuid) (a : PaymentAttempt) : Bool :=
  a.id = attemptId && a.invoiceId = invoiceId && a.businessId = businessId

/-- Fetch a single payment attempt. The state of the invoice is read by its id alone. -/
def getAttempt (db : Db) (businessId invoiceId attemptId : Uuid) :
    Except AppError PaymentAttemptResponse :=
  match db.paymentAttempts.find? (isAttempt businessId invoiceId attemptId) with
  | none => .error (.notFound "payment attempt not found")
  | some attempt =>
    match db.invoices.find? fun i => i.id = invoiceId with
    | none => .error SqlError.rowNotFound.toAppError
    | some invoice =>
      .ok
        { attemptId := attempt.id
          invoiceId := attempt.invoiceId
          status := attempt.status
          amountCents := attempt.amountCents
          invoiceState := invoice.state.asStr
          pspRef := attempt.pspRef
          failureCode := attempt.failureCode
          message := none
          pollUrl := none }

end PaymentService

end InvoicePayment
