import InvoicePayment.Common.Ids
import InvoicePayment.Psp.Client

/-!
# The mock PSP

The outcome table of `mock-psp`, its record of outcomes per idempotency key and the `charge`
handler run without interruption. `PspState.charges` is the list of effects the PSP has run,
kept beside the table so that properties can speak about the money moved.
-/

namespace InvoicePayment

/-- What the PSP decided about a charge. -/
inductive ChargeOutcome where
  | succeeded (pspRef : String)
  | failed (code : String)
deriving DecidableEq, Repr

namespace ChargeOutcome

/-- `Serialize` with `tag = "status"`. -/
def toJson : ChargeOutcome → JsonValue
  | succeeded pspRef => .obj [("status", .str "succeeded"), ("psp_ref", .str pspRef)]
  | failed code => .obj [("status", .str "failed"), ("code", .str code)]

/-- The outcome as the client reports it. -/
def toResult : ChargeOutcome → PspResult
  | succeeded pspRef => .succeeded pspRef
  | failed code => .declined code

/-- A success moves money, a decline moves none. -/
def movesMoney : ChargeOutcome → Bool
  | succeeded _ => true
  | failed _ => false

theorem toResult_injective {o o' : ChargeOutcome} (h : o.toResult = o'.toResult) : o = o' := by
  cases o <;> cases o' <;> simp_all [toResult]

theorem toResult_ne_unknown (o : ChargeOutcome) (reason : UnknownReason) :
    o.toResult ≠ .unknown reason := by
  cases o <;> exact PspResult.noConfusion

end ChargeOutcome

/-- One run of the PSP's effect, with the payment attempt it was called for. -/
structure Charge where
  attemptId : Uuid
  request : ChargeRequest
  outcome : ChargeOutcome

/-- The PSP: the recorded outcome per idempotency key, and the effects run so far. -/
structure PspState where
  seen : String → Option ChargeOutcome := fun _ => none
  charges : List Charge := []

namespace PspState

/-- `seen.lock().unwrap().insert(key, outcome)`. -/
def record (st : PspState) (key : String) (outcome : ChargeOutcome) : PspState :=
  { st with seen := fun k => if k = key then some outcome else st.seen k }

/-- Run the effect of a charge. -/
def execute (st : PspState) (attemptId : Uuid) (request : ChargeRequest)
    (outcome : ChargeOutcome) : PspState :=
  { st with charges := st.charges ++ [{ attemptId, request, outcome }] }

end PspState

namespace MockPsp

/-- A `200` with a recorded outcome. -/
def respond (outcome : ChargeOutcome) : HttpResponse := ⟨200, some outcome.toJson⟩

/-- The outcome table: what a card token leads to, `pspRef` being the reference a success
mints. -/
def effect (cardToken pspRef : String) : Except HttpResponse ChargeOutcome :=
  if cardToken = "tok_success" then .ok (.succeeded pspRef)
  else if cardToken = "tok_insufficient_funds" then .ok (.failed "insufficient_funds")
  else if cardToken = "tok_card_declined" then .ok (.failed "card_declined")
  else if cardToken = "tok_timeout" then .ok (.succeeded pspRef)
  else if cardToken = "tok_network_error" then
    .error ⟨500, some (.obj [("error", .str "psp_unavailable")])⟩
  else
    .error ⟨400, some (.obj [("error", .str "unknown_token"),
      ("message", .str s!"unknown card token: {cardToken}")])⟩

/-- The lookup of `charge`: the recorded outcome under the request's key. -/
def lookup (st : PspState) (request : ChargeRequest) : Option ChargeOutcome :=
  request.idempotencyKey.bind st.seen

/-- The insert of `charge`: record the outcome if the request carries a key. -/
def insert (st : PspState) (request : ChargeRequest) (outcome : ChargeOutcome) : PspState :=
  match request.idempotencyKey with
  | some key => st.record key outcome
  | none => st

/-- The record under a key after an insert: the new outcome under the request's own key, the old
one elsewhere. -/
theorem seen_insert (st : PspState) (request : ChargeRequest) (o : ChargeOutcome) (key : String) :
    (insert st request o).seen key =
      if request.idempotencyKey = some key then some o else st.seen key := by
  unfold insert
  split
  · rename_i key' hkey'
    rw [hkey']
    by_cases hkk : key = key'
    · rw [if_pos (by rw [hkk])]
      exact if_pos hkk
    · rw [if_neg (fun h => hkk (Option.some.inj h).symm)]
      exact if_neg hkk
  · rename_i hnone
    rw [hnone]
    rfl

theorem charges_insert (st : PspState) (request : ChargeRequest) (o : ChargeOutcome) :
    (insert st request o).charges = st.charges := by
  unfold insert
  split <;> rfl

/-- `charge`, with no other request between its lookup and its insert. -/
def charge (st : PspState) (attemptId : Uuid) (request : ChargeRequest) (pspRef : String) :
    HttpResponse × PspState :=
  match lookup st request with
  | some prev => (respond prev, st)
  | none =>
    match effect request.cardToken pspRef with
    | .error response => (response, st)
    | .ok outcome =>
      (respond outcome, insert (st.execute attemptId request outcome) request outcome)

theorem charge_of_hit {st : PspState} {attemptId : Uuid} {request : ChargeRequest}
    {prev : ChargeOutcome} (hl : lookup st request = some prev) (pspRef : String) :
    charge st attemptId request pspRef = (respond prev, st) := by
  rw [charge, hl]

theorem charge_of_refused {st : PspState} {attemptId : Uuid} {request : ChargeRequest}
    {pspRef : String} {response : HttpResponse} (hl : lookup st request = none)
    (he : effect request.cardToken pspRef = .error response) :
    charge st attemptId request pspRef = (response, st) := by
  simp only [charge, hl, he]

theorem charge_of_ok {st : PspState} {attemptId : Uuid} {request : ChargeRequest}
    {pspRef : String} {outcome : ChargeOutcome} (hl : lookup st request = none)
    (he : effect request.cardToken pspRef = .ok outcome) :
    charge st attemptId request pspRef =
      (respond outcome, insert (st.execute attemptId request outcome) request outcome) := by
  simp only [charge, hl, he]

/-- Only a success moves money, and it carries the new reference. -/
theorem eq_succeeded_of_moves {token pspRef : String} {o : ChargeOutcome}
    (h : effect token pspRef = .ok o) (hmoves : o.movesMoney = true) : o = .succeeded pspRef := by
  unfold effect at h
  split_ifs at h <;> obtain rfl := Except.ok.inj h
  · rfl
  · cases hmoves
  · cases hmoves
  · rfl

/-- The client reads an outcome off the wire as the PSP meant it. -/
theorem classify_respond (outcome : ChargeOutcome) :
    PspClient.classify (.response (respond outcome)) = outcome.toResult := by
  cases outcome <;>
    simp [PspClient.classify, respond, PspClient.decodeResponse, ChargeOutcome.toJson,
      JsonValue.field, JsonValue.get, JsonValue.asStr, List.lookup_cons, ChargeOutcome.toResult]

/-- A refused token reads as an unknown outcome, the `400` included. -/
theorem classify_effect_error {cardToken pspRef : String} {response : HttpResponse}
    (h : effect cardToken pspRef = .error response) :
    PspClient.classify (.response response) = .unknown .pspNetworkError := by
  unfold effect at h
  split_ifs at h
  all_goals
    obtain rfl := Except.error.inj h
    simp [PspClient.classify, PspClient.decodeResponse, JsonValue.field, JsonValue.get,
      List.lookup_cons]

end MockPsp

end InvoicePayment
