import InvoicePayment.Repositories.ApiKeyRepo

/-!
# API-key management endpoints
-/

namespace InvoicePayment.ApiKeys

open Auth (RandomBody generateKey)

/-- Generate a key and insert it; a clash of prefixes is a failure like any other. -/
def create (sha256 : List UInt8 → List UInt8) (db : Db) (now : Timestamp) (id : Uuid)
    (random : RandomBody) (businessId : Uuid) (req : CreateApiKeyRequest) :
    Except AppError (Db × CreateApiKeyResponse) :=
  let key := generateKey sha256 (req.env.getD "test") random
  match ApiKeyRepo.insert db now id businessId req.name key with
  | .error e => .error e.toAppError
  | .ok (db', id) => .ok (db', { id, keyPrefix := key.keyPrefix, key := key.full })

def revoke (db : Db) (now : Timestamp) (businessId id : Uuid) : Except AppError Db :=
  match ApiKeyRepo.revoke db now businessId id with
  | (db', true) => .ok db'
  | (_, false) => .error (.notFound "no active api key with that id")

end InvoicePayment.ApiKeys
