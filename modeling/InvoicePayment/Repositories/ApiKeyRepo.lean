import InvoicePayment.Schema
import InvoicePayment.Auth.ApiKey
import InvoicePayment.Common.Error
import InvoicePayment.Lib.Owned

/-!
# API-key persistence

Creation, listing and revocation. A revoked row stays, and so does its prefix in the unique index.
-/

namespace InvoicePayment.ApiKeyRepo

open Auth (GeneratedKey)

/-- `INSERT INTO api_keys`; the id of the new row. -/
def insert (db : Db) (now : Timestamp) (id businessId : Uuid) (name : Option String)
    (key : GeneratedKey) : Except SqlError (Db × Uuid) :=
  if ¬ name.all isPgText then .error .other
  else
    let row : ApiKey :=
      { id, businessId, name, keyPrefix := key.keyPrefix, keyHash := key.keyHash
        lastFour := key.lastFour, createdAt := now }
    if (primaryKey ApiKey.id).conflicts db.apiKeys row
        ∨ uqApiKeysPrefix.conflicts db.apiKeys row then .error .uniqueViolation
    else .ok ({ db with apiKeys := db.apiKeys ++ [row] }, id)

/-- `WHERE business_id = $1 ORDER BY created_at DESC`. `scan` is the order the query meets the rows
in. -/
def list (db : Db) (scan : List ApiKey) (businessId : Uuid) : Option (List ApiKeyListItem) :=
  (Table.orderDesc ApiKey.createdAt (db.apiKeys.filter fun k => k.businessId = businessId)
    scan).map fun rows => rows.map .ofApiKey

/-- `WHERE id = $1 AND business_id = $2 AND revoked_at IS NULL`. -/
def isRevocable (businessId id : Uuid) (k : ApiKey) : Bool :=
  k.id = id && k.businessId = businessId && k.revokedAt.isNone

/-- Soft revoke; whether a still active key was revoked. -/
def revoke (db : Db) (now : Timestamp) (businessId id : Uuid) : Db × Bool :=
  ({ db with
      apiKeys := Table.update (isRevocable businessId id)
        (fun k => { k with revokedAt := some now }) db.apiKeys },
    db.apiKeys.any (isRevocable businessId id))

end InvoicePayment.ApiKeyRepo
