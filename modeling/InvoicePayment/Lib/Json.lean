import Mathlib.Data.List.Basic

/-!
# JSON values

The integer fragment of JSON, an object being its list of members, with the accessors a
record decoder is built from.
-/

/-- A JSON value whose numbers are integers. -/
inductive JsonValue where
  | null
  | bool (b : Bool)
  | num (n : Int)
  | str (s : String)
  | arr (items : List JsonValue)
  | obj (fields : List (String × JsonValue))

namespace JsonValue

/-- The member of an object under a name, the first one if it is repeated. -/
def get (v : JsonValue) (name : String) : Option JsonValue :=
  match v with
  | obj fields => fields.lookup name
  | _ => none

def asStr : JsonValue → Option String
  | str s => some s
  | _ => none

def asNum : JsonValue → Option Int
  | num n => some n
  | _ => none

/-- A required member, read with `decode`. -/
def field {α : Type} (v : JsonValue) (name : String) (decode : JsonValue → Option α) : Option α :=
  (v.get name).bind decode

/-- A member that may be absent or null; a member that is present has to decode. -/
def optionalField {α : Type} (v : JsonValue) (name : String) (decode : JsonValue → Option α) :
    Option (Option α) :=
  match v.get name with
  | none => some none
  | some null => some none
  | some w => (decode w).map some

/-- The members of a record, those without a value left out. -/
def ofMembers (members : List (String × Option JsonValue)) : JsonValue :=
  obj (members.filterMap fun m => m.2.map fun v => (m.1, v))

end JsonValue
