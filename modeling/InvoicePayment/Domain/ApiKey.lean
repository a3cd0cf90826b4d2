import InvoicePayment.Common.Ids
import InvoicePayment.Common.Money

/-!
# API keys

The row of a key and the DTOs of its endpoints. The text of a key is in no row.
-/

namespace InvoicePayment

/-- A row of `api_keys`; `keyPrefix` is the column `prefix`. -/
structure ApiKey where
  id : Uuid
  businessId : Uuid
  name : Option String
  keyPrefix : String
  keyHash : List UInt8
  lastFour : String
  createdAt : Timestamp
  lastUsedAt : Option Timestamp := none
  revokedAt : Option Timestamp := none
  expiresAt : Option Timestamp := none
deriving DecidableEq

/-- The body of `POST /v1/api-keys`; `env` is `"live"` or `"test"`. -/
structure CreateApiKeyRequest where
  name : Option String
  env : Option String := none

/-- Returned exactly once, at creation. -/
structure CreateApiKeyResponse where
  id : Uuid
  keyPrefix : String
  key : String

structure ApiKeyListItem where
  id : Uuid
  name : Option String
  keyPrefix : String
  lastFour : String
  createdAt : Timestamp
  revokedAt : Option Timestamp

/-- The columns the list selects. -/
def ApiKeyListItem.ofApiKey (k : ApiKey) : ApiKeyListItem :=
  { id := k.id
    name := k.name
    keyPrefix := k.keyPrefix
    lastFour := k.lastFour
    createdAt := k.createdAt
    revokedAt := k.revokedAt }

end InvoicePayment
