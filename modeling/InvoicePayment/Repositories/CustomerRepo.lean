import InvoicePayment.Schema
import InvoicePayment.Common.Error
import InvoicePayment.Common.Pagination

/-!
# Customer persistence

All queries are scoped by `business_id`.
-/

namespace InvoicePayment.CustomerRepo

/-- `INSERT INTO customers .. RETURNING ..`. -/
def insert (lower : String → String) (db : Db) (now : Timestamp) (id businessId : Uuid)
    (email name : Option String) : Except SqlError (Db × Customer) :=
  if ¬ (email.all isPgText ∧ name.all isPgText) then .error .other
  else
    let row : Customer := { id, businessId, email, name, createdAt := now }
    if (primaryKey Customer.id).conflicts db.customers row
        ∨ (uqCustomersBusinessEmail lower).conflicts db.customers row then
      .error .uniqueViolation
    else .ok ({ db with customers := db.customers ++ [row] }, row)

/-- `WHERE id = $1 AND business_id = $2`. -/
def get (db : Db) (businessId id : Uuid) : Option Customer :=
  db.customers.find? fun c => c.id = id ∧ c.businessId = businessId

def sortKey (c : Customer) : Pagination.Key := Pagination.key c.createdAt c.id

/-- `WHERE business_id = $1 AND (created_at, id) < ($2, $3)`, the latest first. -/
def list (db : Db) (businessId : Uuid) (limit : ℕ) (cursor : Option (Timestamp × Uuid)) :
    List Customer :=
  Keyset.select sortKey limit (cursor.map fun c => Pagination.key c.1 c.2)
    (db.customers.filter fun c => c.businessId = businessId)

end InvoicePayment.CustomerRepo
