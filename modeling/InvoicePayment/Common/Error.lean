/-!
# Errors

`AppError`, what every handler returns on failure, and `SqlError`, what a query raises, with
the conversion between them.
-/

namespace InvoicePayment

/-- A single field-level validation problem. -/
structure FieldError where
  field : String
  issue : String
deriving DecidableEq, Repr

/-- The error type of the whole API; `internal` is logged and scrubbed, so its cause is not
kept. -/
inductive AppError where
  | unauthorized
  | notFound (what : String)
  | validation (fields : List FieldError)
  | conflict (code message : String)
  | invalidStateTransition («from» «to» : String)
  | paymentDeclined (code : String)
  | internal
deriving DecidableEq, Repr

/-- What a query can raise: no row for `fetch_one`, SQLSTATE 23505, or anything else. -/
inductive SqlError where
  | rowNotFound
  | uniqueViolation
  | other
deriving DecidableEq, Repr

/-- `From<sqlx::Error> for AppError`. -/
def SqlError.toAppError : SqlError → AppError
  | rowNotFound => .notFound "resource not found"
  | _ => .internal

/-- `is_unique_violation`. -/
def SqlError.isUniqueViolation : SqlError → Bool
  | uniqueViolation => true
  | _ => false

/-- The `?` operator on a query result. -/
def orRaise {α : Type} : Except SqlError α → Except AppError α
  | .ok a => .ok a
  | .error e => .error e.toAppError

/-- An HTTP status code. -/
structure StatusCode where
  code : Nat
deriving DecidableEq, Repr

namespace StatusCode

def ok : StatusCode := ⟨200⟩
def accepted : StatusCode := ⟨202⟩
def paymentRequired : StatusCode := ⟨402⟩

/-- `StatusCode::from_u16`, defined on 100 to 999. -/
def fromU16 (n : Nat) : Option StatusCode := if 100 ≤ n ∧ n ≤ 999 then some ⟨n⟩ else none

end StatusCode

/-- The HTTP status of an error. -/
def AppError.status : AppError → StatusCode
  | unauthorized => ⟨401⟩
  | notFound _ => ⟨404⟩
  | validation _ => ⟨422⟩
  | conflict _ _ => ⟨409⟩
  | invalidStateTransition _ _ => ⟨409⟩
  | paymentDeclined _ => .paymentRequired
  | internal => ⟨500⟩

end InvoicePayment
