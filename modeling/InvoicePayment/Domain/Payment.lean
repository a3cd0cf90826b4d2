import InvoicePayment.Common.Ids
import InvoicePayment.Common.Money
import InvoicePayment.Common.Error
import InvoicePayment.Lib.Json

/-!
# Payments

The payment attempt, its status, the response body, and the JSON form under which a response
is cached and read back: `fromJson_toJson` is the round trip.
-/

namespace InvoicePayment

/-- The `payment_status` enum. -/
inductive PaymentStatus where
  | pending
  | succeeded
  | failed
  | expired
deriving DecidableEq, Repr

namespace PaymentStatus

def asStr : PaymentStatus → String
  | pending => "pending"
  | succeeded => "succeeded"
  | failed => "failed"
  | expired => "expired"

/-- `Deserialize` with `rename_all = "lowercase"`. -/
def ofStr (s : String) : Option PaymentStatus :=
  if s = "pending" then some pending
  else if s = "succeeded" then some succeeded
  else if s = "failed" then some failed
  else if s = "expired" then some expired
  else none

theorem ofStr_asStr (s : PaymentStatus) : ofStr s.asStr = some s := by
  cases s <;> decide

end PaymentStatus

/-- A row of `payment_attempts`. -/
structure PaymentAttempt where
  id : Uuid
  invoiceId : Uuid
  businessId : Uuid
  idempotencyKey : String
  amountCents : Int64
  cardToken : String
  status : PaymentStatus
  pspRef : Option String := none
  failureCode : Option String := none
  lastError : Option String := none
  attemptCount : Int
  nextPollAt : Option Timestamp := none

/-- The body of `POST /v1/invoices/:id/pay`. -/
structure PayRequest where
  cardToken : String
deriving DecidableEq

structure PaymentAttemptResponse where
  attemptId : Uuid
  invoiceId : Uuid
  status : PaymentStatus
  amountCents : Int64
  invoiceState : String
  pspRef : Option String
  failureCode : Option String
  message : Option String
  pollUrl : Option String
deriving DecidableEq

/-- The HTTP status a route emits, with the body. -/
abbrev PayOutcome := StatusCode × PaymentAttemptResponse

namespace PaymentAttemptResponse

/-- `serde_json::to_value`; an absent optional field is skipped. -/
def toJson (r : PaymentAttemptResponse) : JsonValue :=
  .ofMembers
    [("attempt_id", some (.str r.attemptId.toString)),
     ("invoice_id", some (.str r.invoiceId.toString)),
     ("status", some (.str r.status.asStr)),
     ("amount_cents", some (.num r.amountCents.toInt)),
     ("invoice_state", some (.str r.invoiceState)),
     ("psp_ref", r.pspRef.map .str),
     ("failure_code", r.failureCode.map .str),
     ("message", r.message.map .str),
     ("poll_url", r.pollUrl.map .str)]

/-- `serde_json::from_value`. -/
def fromJson (v : JsonValue) : Option PaymentAttemptResponse := do
  let attemptId ← v.field "attempt_id" fun w => w.asStr.bind Uuid.parseStr
  let invoiceId ← v.field "invoice_id" fun w => w.asStr.bind Uuid.parseStr
  let status ← v.field "status" fun w => w.asStr.bind PaymentStatus.ofStr
  let amountCents ← v.field "amount_cents" fun w => w.asNum.bind checkedI64
  let invoiceState ← v.field "invoice_state" JsonValue.asStr
  let pspRef ← v.optionalField "psp_ref" JsonValue.asStr
  let failureCode ← v.optionalField "failure_code" JsonValue.asStr
  let message ← v.optionalField "message" JsonValue.asStr
  let pollUrl ← v.optionalField "poll_url" JsonValue.asStr
  return { attemptId, invoiceId, status, amountCents, invoiceState, pspRef, failureCode, message,
           pollUrl }

/-- A cached response reads back as the response that was cached. -/
theorem fromJson_toJson (r : PaymentAttemptResponse) : fromJson r.toJson = some r := by
  obtain ⟨attemptId, invoiceId, status, amount, invoiceState, pspRef, failureCode, message,
    pollUrl⟩ := r
  have hamount : checkedI64 amount.toInt = some amount := checkedI64_toInt amount
  cases pspRef <;> cases failureCode <;> cases message <;> cases pollUrl <;>
    simp [fromJson, toJson, JsonValue.ofMembers, JsonValue.field, JsonValue.optionalField,
      JsonValue.get, JsonValue.asStr, JsonValue.asNum, List.lookup_cons, Uuid.parseStr_toString,
      PaymentStatus.ofStr_asStr, hamount]

end PaymentAttemptResponse

end InvoicePayment
