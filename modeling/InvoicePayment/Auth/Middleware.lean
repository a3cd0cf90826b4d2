import InvoicePayment.Schema
import InvoicePayment.Auth.ApiKey
import InvoicePayment.Common.Error

/-!
# The auth middleware

`requireApiKey` reads the bearer token, looks its prefix up among the live keys and compares
hashes.
-/

namespace InvoicePayment.Auth

/-- `HeaderValue::to_str`: visible ASCII characters, blanks and tabs. -/
def headerText (raw : List UInt8) : Option String :=
  if raw.all fun b => (32 ≤ b && b < 127) || b == 9 then fromUtf8 raw else none

/-- `str::trim`. -/
def trim (cs : List Char) : List Char :=
  ((cs.dropWhile isWhitespace).reverse.dropWhile isWhitespace).reverse

/-- The token of an `Authorization` header. -/
def bearerToken (authorization : Option (List UInt8)) : Option String := do
  let header ← authorization
  let raw ← headerText header
  let rest ← raw.toList.dropPrefix? "Bearer ".toList
  let token := String.ofList (trim rest)
  if token.isEmpty then none else some token

/-- The token is what follows `Bearer `, trimmed, unless that is empty. -/
theorem bearerToken_eq_some_iff {authorization : Option (List UInt8)} {token : String} :
    bearerToken authorization = some token ↔
      ∃ header rest, authorization = some header ∧ headerText header = some ("Bearer " ++ rest) ∧
        token = String.ofList (trim rest.toList) ∧ token ≠ "" := by
  simp only [bearerToken, Option.bind_eq_bind, Option.bind_eq_some_iff,
    List.dropPrefix?_eq_some_iff, beq_iff_eq]
  constructor
  · rintro ⟨header, rfl, raw, hraw, rest, ⟨bearer, hsplit, rfl⟩, htoken⟩
    have hjoin : raw = "Bearer " ++ String.ofList rest := by
      rw [← String.toList_inj, hsplit, String.toList_append,
        String.toList_ofList (l := rest)]
    split_ifs at htoken with hempty
    obtain rfl := Option.some.inj htoken
    refine ⟨header, String.ofList rest, rfl, hjoin ▸ hraw, by rw [String.toList_ofList], ?_⟩
    simpa using hempty
  · rintro ⟨header, rest, rfl, hraw, rfl, hne⟩
    refine ⟨header, rfl, _, hraw, rest.toList, ⟨_, String.toList_append, rfl⟩, ?_⟩
    rw [if_neg]
    simpa using hne

/-- `WHERE prefix = $1 AND revoked_at IS NULL AND (expires_at IS NULL OR expires_at > now())`. -/
def isLive (now : Timestamp) (keyPrefix : String) (k : ApiKey) : Bool :=
  k.keyPrefix = keyPrefix && k.revokedAt.isNone && k.expiresAt.all (now < ·)

/-- The business a token stands for. A prefix that Postgres does not take as text fails the
query. -/
def authenticate (sha256 : List UInt8 → List UInt8) (db : Db) (now : Timestamp) (token : String) :
    Except AppError Uuid :=
  let keyPrefix := derivePrefix token
  if ¬ isPgText keyPrefix then .error .internal
  else
    match db.apiKeys.find? (isLive now keyPrefix) with
    | none => .error .unauthorized
    | some row =>
      if constantTimeEq row.keyHash (hashKey sha256 token) then .ok row.businessId
      else .error .unauthorized

/-- What a request is let through as. -/
def requireApiKey (sha256 : List UInt8 → List UInt8) (db : Db) (now : Timestamp)
    (authorization : Option (List UInt8)) : Except AppError Uuid :=
  match bearerToken authorization with
  | none => .error .unauthorized
  | some token => authenticate sha256 db now token

/-- `UPDATE api_keys SET last_used_at = now() WHERE prefix = $1`, some time after the request was
let through. -/
def touch (db : Db) (now : Timestamp) (keyPrefix : String) : Db :=
  { db with
    apiKeys := Table.update (fun k => k.keyPrefix = keyPrefix)
      (fun k => { k with lastUsedAt := some now }) db.apiKeys }

end InvoicePayment.Auth
