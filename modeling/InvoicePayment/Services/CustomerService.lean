import InvoicePayment.Repositories.CustomerRepo

/-!
# Customer use-cases
-/

namespace InvoicePayment.CustomerService

open Pagination (Page Rfc3339 paginate)

/-- Text on the left of the first `@` and a dot on the right of it. -/
def isPlausibleEmail (s : String) : Bool :=
  match splitOnce '@' s with
  | some (a, b) => !a.isEmpty && b.toList.contains '.'
  | none => false

def validate (req : CreateCustomerRequest) : Except AppError Unit :=
  let errors : List FieldError :=
    (if req.email.any (!isPlausibleEmail ·) then
      [⟨"email", "must be a valid email address"⟩] else [])
    ++ (if req.email.isNone ∧ req.name.isNone then
      [⟨"name", "provide at least a name or an email"⟩] else [])
  if errors.isEmpty then .ok () else .error (.validation errors)

def emailExists : AppError :=
  .conflict "customer_email_exists" "a customer with this email already exists for this business"

def create (lower : String → String) (db : Db) (now : Timestamp) (id businessId : Uuid)
    (req : CreateCustomerRequest) : Except AppError (Db × CustomerResponse) :=
  match validate req with
  | .error e => .error e
  | .ok () =>
    match CustomerRepo.insert lower db now id businessId req.email req.name with
    | .ok (db', c) => .ok (db', .ofCustomer c)
    | .error e => .error (if e.isUniqueViolation then emailExists else e.toAppError)

def get (db : Db) (businessId id : Uuid) : Except AppError CustomerResponse :=
  match CustomerRepo.get db businessId id with
  | some c => .ok (.ofCustomer c)
  | none => .error (.notFound "customer not found")

def list (rfc : Rfc3339) (db : Db) (businessId : Uuid) (limit : Option Int64)
    (cursor : Option String) : Page CustomerResponse :=
  paginate rfc (CustomerRepo.list db businessId) Customer.createdAt Customer.id
    CustomerResponse.ofCustomer limit cursor

end InvoicePayment.CustomerService
