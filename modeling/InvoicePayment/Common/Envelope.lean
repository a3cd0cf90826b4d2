import InvoicePayment.Common.Error
import InvoicePayment.Lib.Json

/-!
# The error envelope

What an `AppError` becomes on the wire: a status and a body with a code, a type, a message and the
fields that are wrong. Clients branch on the code.
-/

namespace InvoicePayment

structure ErrorDetail where
  code : String
  type : String
  message : String
  details : List FieldError
deriving DecidableEq, Repr

/-- The body of every error response. -/
structure ErrorBody where
  error : ErrorDetail
deriving DecidableEq, Repr

namespace AppError

/-- The status, the code and the type of an error. -/
def parts : AppError → StatusCode × String × String
  | unauthorized => (⟨401⟩, "unauthorized", "authentication_error")
  | notFound _ => (⟨404⟩, "not_found", "invalid_request_error")
  | validation _ => (⟨422⟩, "validation_error", "invalid_request_error")
  | conflict code _ => (⟨409⟩, code, "invalid_request_error")
  | invalidStateTransition _ _ => (⟨409⟩, "invalid_state_transition", "invalid_request_error")
  | paymentDeclined _ => (.paymentRequired, "payment_declined", "card_error")
  | internal => (⟨500⟩, "internal_error", "api_error")

/-- `Display`; the text of an internal error is its cause's and is logged only. -/
def display : AppError → String
  | unauthorized => "authentication required or invalid credentials"
  | notFound what => what
  | validation _ => "validation failed"
  | conflict code message => s!"{code}: {message}"
  | invalidStateTransition current target =>
    s!"cannot transition invoice from {current} to {target}"
  | paymentDeclined code => s!"payment declined: {code}"
  | internal => ""

/-- The message the client gets and the fields it is told about. -/
def publicText : AppError → String × List FieldError
  | internal => ("an internal error occurred", [])
  | validation fields => ("one or more fields are invalid", fields)
  | conflict _ message => (message, [])
  | e => (e.display, [])

/-- `IntoResponse`. -/
def intoResponse (e : AppError) : StatusCode × ErrorBody :=
  let (status, code, type) := e.parts
  let (message, details) := e.publicText
  (status, { error := { code, type, message, details } })

theorem status_intoResponse (e : AppError) : e.intoResponse.1 = e.status := by
  cases e <;> rfl

end AppError

/-! ## The body as JSON -/

def FieldError.toJson (e : FieldError) : JsonValue :=
  .obj [("field", .str e.field), ("issue", .str e.issue)]

/-- `details` is left out when it is empty. -/
def ErrorBody.toJson (b : ErrorBody) : JsonValue :=
  .obj
    [("error", .ofMembers
      [("code", some (.str b.error.code)),
       ("type", some (.str b.error.type)),
       ("message", some (.str b.error.message)),
       ("details", if b.error.details.isEmpty then none
        else some (.arr (b.error.details.map FieldError.toJson)))])]

end InvoicePayment
