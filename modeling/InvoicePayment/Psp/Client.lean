import InvoicePayment.Common.Money
import InvoicePayment.Lib.Json

/-!
# The PSP client

`PspResult` is a charge call's result as the service sees it; `classify` is how
`PspClient::charge` reads it off the HTTP exchange.
-/

namespace InvoicePayment

/-- Why an outcome is unknown. -/
inductive UnknownReason where
  | pspTimeout
  | pspNetworkError
deriving DecidableEq, Repr

def UnknownReason.asStr : UnknownReason → String
  | pspTimeout => "psp_timeout"
  | pspNetworkError => "psp_network_error"

/-- The result of a charge call, from the service's point of view. -/
inductive PspResult where
  | succeeded (pspRef : String)
  | declined (code : String)
  | unknown (reason : UnknownReason)
deriving DecidableEq, Repr

/-- The body of a charge call, as far as a PSP reads it. -/
structure ChargeRequest where
  cardToken : String
  amountCents : Int64
  idempotencyKey : Option String
deriving DecidableEq

/-- An HTTP response; `body` is `none` when it is not JSON. -/
structure HttpResponse where
  status : Nat
  body : Option JsonValue

/-- What came of sending the request. -/
inductive HttpExchange where
  | response (r : HttpResponse)
  | timeout
  | transportError

namespace PspClient

/-- The two variants of `PspResponse`, tagged by `status`. Array bodies and repeated members, which
`serde` reads otherwise, are left out. -/
def decodeResponse (v : JsonValue) : Option PspResult := do
  let status ← v.field "status" JsonValue.asStr
  if status = "succeeded" then
    return .succeeded (← v.field "psp_ref" JsonValue.asStr)
  else if status = "failed" then
    return .declined (← v.field "code" JsonValue.asStr)
  else none

/-- The three-way classification of `PspClient::charge`. -/
def classify : HttpExchange → PspResult
  | .timeout => .unknown .pspTimeout
  | .transportError => .unknown .pspNetworkError
  | .response r =>
    if 500 ≤ r.status ∧ r.status < 600 then .unknown .pspNetworkError
    else
      match r.body.bind decodeResponse with
      | some result => result
      | none => .unknown .pspNetworkError

end PspClient

end InvoicePayment
