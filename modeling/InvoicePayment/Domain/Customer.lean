import InvoicePayment.Common.Ids
import InvoicePayment.Common.Money

/-!
# Customers

The customer entity and its DTOs.
-/

namespace InvoicePayment

/-- A row of `customers`. -/
structure Customer where
  id : Uuid
  businessId : Uuid
  email : Option String
  name : Option String
  createdAt : Timestamp
deriving DecidableEq

/-- The body of `POST /v1/customers`. -/
structure CreateCustomerRequest where
  email : Option String
  name : Option String

structure CustomerResponse where
  id : Uuid
  email : Option String
  name : Option String
  createdAt : Timestamp

/-- `From<Customer>`. -/
def CustomerResponse.ofCustomer (c : Customer) : CustomerResponse :=
  { id := c.id, email := c.email, name := c.name, createdAt := c.createdAt }

end InvoicePayment
