import InvoicePayment.Lib.Bytes

/-!
# Ids

A `Uuid` is its sixteen bytes. `toString` is the hyphenated lower-case text the `uuid` crate
displays and serializes, `parseStr` the crate's parser for its four text formats.
-/

namespace InvoicePayment

/-- A UUID, the primary key of every table. -/
structure Uuid where
  bytes : Vector UInt8 16

namespace Uuid

/-- `Uuid::default`, the nil UUID. -/
def nil : Uuid := ⟨Vector.replicate 16 0⟩

/-- `Uuid::as_bytes`. -/
def asBytes (u : Uuid) : List UInt8 := u.bytes.toList

theorem asBytes_injective {u v : Uuid} (h : u.asBytes = v.asBytes) : u = v := by
  obtain ⟨a⟩ := u
  obtain ⟨b⟩ := v
  exact congrArg Uuid.mk (Vector.toList_inj.mp h)

/-- UUIDs are compared from the first byte on. -/
instance : DecidableEq Uuid := fun u v =>
  decidable_of_iff (u.asBytes = v.asBytes) ⟨asBytes_injective, fun h => by rw [h]⟩

/-- The five groups of the hyphenated form. -/
def groups (u : Uuid) : List (List UInt8) :=
  let b := u.asBytes
  [b.take 4, (b.drop 4).take 2, (b.drop 6).take 2, (b.drop 8).take 2, b.drop 10]

/-- The hyphenated lower-case form. -/
protected def toString (u : Uuid) : String := String.ofList (Bytes.encodeGroups u.groups)

instance : ToString Uuid := ⟨Uuid.toString⟩

/-- The UUID with the given bytes, if there are sixteen. -/
def ofBytes (bs : List UInt8) : Option Uuid :=
  if h : bs.toArray.size = 16 then some ⟨⟨bs.toArray, h⟩⟩ else none

/-- `Uuid::parse_str`: the simple, hyphenated, braced and URN forms, told apart by length. -/
def parseStr (s : String) : Option Uuid :=
  let cs := s.toList
  let hyphenated (cs : List Char) := (Bytes.decodeGroups [4, 2, 2, 2, 6] cs).bind ofBytes
  if cs.length = 32 then (Bytes.hexDecode cs).bind ofBytes
  else if cs.length = 36 then hyphenated cs
  else if cs.length = 38 then
    if cs.head? = some '{' ∧ cs.getLast? = some '}' then hyphenated ((cs.drop 1).take 36) else none
  else if cs.length = 45 then
    if cs.take 9 = "urn:uuid:".toList then hyphenated (cs.drop 9) else none
  else none

/-! ## The text form round-trips -/

@[simp] theorem length_asBytes (u : Uuid) : u.asBytes.length = 16 := by simp [asBytes]

theorem ofBytes_asBytes (u : Uuid) : ofBytes u.asBytes = some u := by
  obtain ⟨⟨a, ha⟩⟩ := u
  have hlen : (asBytes ⟨⟨a, ha⟩⟩).toArray = a := by simp [asBytes]
  unfold ofBytes
  rw [dif_pos (by rw [hlen]; exact ha)]
  simp only [hlen]

theorem length_groups (u : Uuid) : u.groups.map List.length = [4, 2, 2, 2, 6] := by
  simp [groups]

theorem flatten_groups (u : Uuid) : u.groups.flatten = u.asBytes := by
  have hdrop : ∀ n m, (u.asBytes.drop n).drop m = u.asBytes.drop (n + m) := by
    intro n m
    exact List.drop_drop
  have h8 : (u.asBytes.drop 8).take 2 ++ u.asBytes.drop 10 = u.asBytes.drop 8 := by
    rw [← hdrop 8 2, List.take_append_drop]
  have h6 : (u.asBytes.drop 6).take 2 ++ u.asBytes.drop 8 = u.asBytes.drop 6 := by
    rw [← hdrop 6 2, List.take_append_drop]
  have h4 : (u.asBytes.drop 4).take 2 ++ u.asBytes.drop 6 = u.asBytes.drop 4 := by
    rw [← hdrop 4 2, List.take_append_drop]
  simp only [groups, List.flatten_cons, List.flatten_nil, List.append_nil]
  rw [h8, h6, h4, List.take_append_drop]

theorem length_encodeGroups (u : Uuid) : (Bytes.encodeGroups u.groups).length = 36 := by
  simp [groups, Bytes.encodeGroups]

/-- `Uuid::parse_str` undoes `Display`. -/
theorem parseStr_toString (u : Uuid) : parseStr u.toString = some u := by
  have hdec : Bytes.decodeGroups [4, 2, 2, 2, 6] (Bytes.encodeGroups u.groups) = some u.asBytes := by
    rw [← length_groups u, Bytes.decodeGroups_encodeGroups, flatten_groups]
  simp only [parseStr, Uuid.toString, String.toList_ofList, length_encodeGroups, hdec,
    Option.bind_some, ofBytes_asBytes]
  rfl

theorem toString_injective {u v : Uuid} (h : u.toString = v.toString) : u = v := by
  have hu := parseStr_toString u
  rw [h, parseStr_toString v] at hu
  exact (Option.some.inj hu).symm

end Uuid

/-- What a step draws from outside: the results of its `new_id()` calls in order, and the
`bigserial` value of the event it inserts. -/
structure Fresh where
  newId : ℕ → Uuid
  sequence : Int

/-- The `n`-th id of the sample runs. -/
def shopId (n : ℕ) : Uuid := ⟨Vector.replicate 16 n.toUInt8⟩

/-- A step of a sample run that draws its ids from the `n`-th on. -/
def shopFresh (n : ℕ) : Fresh := { newId := fun i => shopId (n + i), sequence := n }

end InvoicePayment
