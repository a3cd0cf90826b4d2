import InvoicePayment.Common.Ids
import InvoicePayment.Common.Money
import InvoicePayment.Common.Text
import InvoicePayment.Lib.Decimal
import InvoicePayment.Lib.Keyset
import Mathlib.Data.List.Lex
import Mathlib.Data.Prod.Lex
import Mathlib.Order.Lattice

/-!
# Pagination

Cursors and page limits. Lists are paged on `(created_at, id)`; a cursor is the hexadecimal text
of `"<rfc3339>|<uuid>"`. `paginate` is what every list use-case does with its repository's query.
-/

namespace InvoicePayment.Pagination

/-! ## Limits -/

def defaultLimit : Int64 := 25
def maxLimit : Int64 := 100

/-- Clamp a client-supplied limit into the allowed range. -/
def clampLimit (requested : Option Int64) : Int64 :=
  let n := requested.getD defaultLimit
  if n < 1 then 1 else if maxLimit < n then maxLimit else n

/-- The limit as the number of rows. -/
def pageSize (requested : Option Int64) : ℕ := (clampLimit requested).toInt.toNat

/-- A limit within 1 to 100 is kept, one outside is moved to the nearer end, and without one
pages have 25 rows. -/
theorem toInt_clampLimit (requested : Option Int64) :
    (clampLimit requested).toInt = max 1 (min 100 (requested.elim 25 Int64.toInt)) := by
  have hone : (1 : Int64).toInt = 1 := by decide
  have hmax : maxLimit.toInt = 100 := by decide
  have hrequested : (requested.getD defaultLimit).toInt = requested.elim 25 Int64.toInt := by
    cases requested <;> rfl
  rw [clampLimit]
  split_ifs with hlow hhigh
  all_goals simp only [Int64.lt_iff_toInt_lt, hone, hmax, hrequested] at *
  · omega
  · omega
  · omega

theorem pageSize_pos (requested : Option Int64) : 0 < pageSize requested := by
  rw [pageSize, toInt_clampLimit]
  omega

/-! ## The order of the lists -/

/-- What rows are ordered by and cursors compare: `created_at`, then the bytes of the id. -/
abbrev Key := Timestamp ×ₗ List ℕ

def key (createdAt : Timestamp) (id : Uuid) : Key := toLex (createdAt, id.asBytes.map UInt8.toNat)

theorem key_injective {t t' : Timestamp} {id id' : Uuid} (h : key t id = key t' id') :
    t = t' ∧ id = id' := by
  obtain ⟨ht, hbytes⟩ := Prod.mk.inj (toLex.injective h)
  have hinj : Function.Injective UInt8.toNat := fun a b hab => UInt8.toNat_inj.mp hab
  exact ⟨ht, Uuid.asBytes_injective (List.map_injective_iff.mpr hinj hbytes)⟩

/-! ## Cursors -/

/-- The text form of times of the `chrono` crate: `to_rfc3339` and
`DateTime::parse_from_rfc3339`. -/
structure Rfc3339 (τ : Type := Timestamp) where
  toRfc3339 : τ → String
  parseFromRfc3339 : String → Option τ

section Cursors

variable {τ : Type} {rfc : Rfc3339 τ} {valid : τ → Prop}

/-- What cursors rely on: the text of a time reads back as the time and contains no `|`. -/
structure Rfc3339.Faithful (rfc : Rfc3339 τ) : Prop where
  readsBack : ∀ t, rfc.parseFromRfc3339 (rfc.toRfc3339 t) = some t
  noSeparator : ∀ t, '|' ∉ (rfc.toRfc3339 t).toList

/-- The same of some of the times. -/
structure Rfc3339.FaithfulOn (rfc : Rfc3339 τ) (valid : τ → Prop) : Prop where
  readsBack : ∀ t, valid t → rfc.parseFromRfc3339 (rfc.toRfc3339 t) = some t
  noSeparator : ∀ t, valid t → '|' ∉ (rfc.toRfc3339 t).toList

/-- Encode a `(created_at, id)` pair into an opaque cursor. -/
def encodeCursor (rfc : Rfc3339 τ) (createdAt : τ) (id : Uuid) : String :=
  String.ofList (Bytes.hexEncode (utf8Bytes s!"{rfc.toRfc3339 createdAt}|{id}"))

/-- Decode a cursor back into its `(created_at, id)` pair, if well-formed. -/
def decodeCursor (rfc : Rfc3339 τ) (cursor : String) : Option (τ × Uuid) := do
  let bytes ← Bytes.hexDecode cursor.toList
  let raw ← fromUtf8 bytes
  let (ts, id) ← splitOnce '|' raw
  let createdAt ← rfc.parseFromRfc3339 ts
  let id ← Uuid.parseStr id
  return (createdAt, id)

theorem Rfc3339.FaithfulOn.decodeCursor_encodeCursor (h : rfc.FaithfulOn valid) {createdAt : τ}
    (hvalid : valid createdAt) (id : Uuid) :
    decodeCursor rfc (encodeCursor rfc createdAt id) = some (createdAt, id) := by
  have hraw : s!"{rfc.toRfc3339 createdAt}|{id}" =
      rfc.toRfc3339 createdAt ++ String.singleton '|' ++ id.toString := rfl
  simp only [decodeCursor, encodeCursor, String.toList_ofList, Bytes.hexDecode_hexEncode,
    Option.bind_eq_bind, Option.bind_some, fromUtf8_utf8Bytes]
  rw [hraw, splitOnce_join _ (h.noSeparator createdAt hvalid)]
  simp only [Option.bind_some, h.readsBack createdAt hvalid, Uuid.parseStr_toString]
  rfl

/-- A cursor that was given out decodes to what it was given out for. -/
theorem decodeCursor_encodeCursor (h : rfc.Faithful) (createdAt : τ) (id : Uuid) :
    decodeCursor rfc (encodeCursor rfc createdAt id) = some (createdAt, id) := by
  have hall : rfc.FaithfulOn fun _ => True :=
    ⟨fun t _ => h.readsBack t, fun t _ => h.noSeparator t⟩
  exact hall.decodeCursor_encodeCursor trivial id

end Cursors

/-! ## Cursors of nanosecond times -/

/-- `DateTime<Utc>` of `chrono`: the second since the epoch and the nanoseconds within it, from
`10 ^ 9` on in a leap second. -/
structure DateTime where
  secs : Int
  nanos : ℕ
deriving DecidableEq

/-- The nanoseconds that `to_rfc3339` writes as they are: a leap second is the sixtieth of its
minute. -/
def DateTime.HasFraction (t : DateTime) : Prop :=
  t.nanos < 10 ^ 9 ∨ t.secs % 60 = 59 ∧ t.nanos < 2 * 10 ^ 9

instance : DecidablePred DateTime.HasFraction := fun t =>
  inferInstanceAs (Decidable (t.nanos < 10 ^ 9 ∨ t.secs % 60 = 59 ∧ t.nanos < 2 * 10 ^ 9))

/-- The years 0 to 9999, which `to_rfc3339` writes with four digits. -/
def DateTime.HasFourDigitYear (t : DateTime) : Prop :=
  -62167219200 ≤ t.secs ∧ t.secs < 253402300800 ∧ t.HasFraction

instance : DecidablePred DateTime.HasFourDigitYear := fun t =>
  inferInstanceAs (Decidable (-62167219200 ≤ t.secs ∧ t.secs < 253402300800 ∧ t.HasFraction))

/-- Decoding undoes encoding, to the nanosecond, and no two pairs share a cursor. -/
theorem cursor_round_trips {rfc : Rfc3339 DateTime}
    (h : rfc.FaithfulOn DateTime.HasFourDigitYear) {t : DateTime} (ht : t.HasFourDigitYear)
    (id : Uuid) :
    decodeCursor rfc (encodeCursor rfc t id) = some (t, id) ∧
    ∀ t' id', t'.HasFourDigitYear → encodeCursor rfc t id = encodeCursor rfc t' id' →
      t = t' ∧ id = id' := by
  have hdecode := h.decodeCursor_encodeCursor ht id
  refine ⟨hdecode, fun t' id' ht' heq => ?_⟩
  rw [heq, h.decodeCursor_encodeCursor ht'] at hdecode
  obtain ⟨rfl, rfl⟩ := Prod.mk.inj (Option.some.inj hdecode)
  exact ⟨rfl, rfl⟩

/-- A time with all nine digits of its fraction, the nanosecond before it, and the middle of a leap
second. -/
def sampleTime : DateTime := { secs := 1700000000, nanos := 123456789 }
def earlierTime : DateTime := { secs := 1700000000, nanos := 123456788 }
def leapTime : DateTime := { secs := 1483228799, nanos := 1500000000 }

/-- These times as `chrono` writes them. -/
def sampleTexts : List (DateTime × String) :=
  [(sampleTime, "2023-11-14T22:13:20.123456789+00:00"),
   (earlierTime, "2023-11-14T22:13:20.123456788+00:00"),
   (leapTime, "2016-12-31T23:59:60.500+00:00")]

/-- Seconds and nanoseconds, a text for every other time. -/
def sampleText (t : DateTime) : String := s!"{t.secs}.{t.nanos}"

/-- The text form of `chrono` at the sample times. -/
def sampleRfc3339 : Rfc3339 DateTime where
  toRfc3339 t := ((sampleTexts.find? fun p => p.1 = t).map Prod.snd).getD (sampleText t)
  parseFromRfc3339 s :=
    match sampleTexts.find? fun p => p.2 = s with
    | some p => some p.1
    | none => do
      let (secs, nanos) ← splitOnce '.' s
      let secs ← Decimal.readInt secs.toList
      let nanos ← Decimal.readNat nanos.toList
      return { secs, nanos }

theorem sampleText_eq (t : DateTime) :
    sampleText t = toString t.secs ++ String.singleton '.' ++ t.nanos.repr := rfl

theorem notMem_sampleText (t : DateTime) {c : Char} (hdigit : c.isDigit = false) (hminus : c ≠ '-')
    (hdot : c ≠ '.') : c ∉ (sampleText t).toList := by
  rw [sampleText_eq, String.toList_append, String.toList_append, List.mem_append, List.mem_append]
  rintro ((hmem | hmem) | hmem)
  · exact Decimal.notMem_repr hdigit hminus hmem
  · exact hdot (by simpa using hmem)
  · rw [Nat.toList_repr] at hmem
    rw [Decimal.isDigit_of_mem_toDigits hmem] at hdigit
    exact Bool.noConfusion hdigit

theorem parse_sampleText (t : DateTime) :
    sampleRfc3339.parseFromRfc3339 (sampleText t) = some t := by
  -- the texts of the table have a `T`
  have hother : sampleTexts.find? (fun p => p.2 = sampleText t) = none := by
    rw [List.find?_eq_none]
    intro p hp heq
    have htext : ∀ p ∈ sampleTexts, 'T' ∈ p.2.toList := by decide
    refine notMem_sampleText t (c := 'T') (by decide) (by decide) (by decide) ?_
    rw [← of_decide_eq_true heq]
    exact htext p hp
  have hdot : '.' ∉ (toString t.secs).toList := Decimal.notMem_repr (by decide) (by decide)
  have hsecs : Decimal.readInt (toString t.secs).toList = some t.secs :=
    Decimal.readInt_repr t.secs
  have hnanos : Decimal.readNat t.nanos.repr.toList = some t.nanos := by
    rw [Nat.toList_repr, Decimal.readNat_toDigits]
  simp only [sampleRfc3339, hother]
  rw [sampleText_eq, splitOnce_join _ hdot]
  simp only [Option.bind_eq_bind, Option.bind_some, hsecs, hnanos]
  rfl

theorem sampleRfc3339_faithful : sampleRfc3339.FaithfulOn DateTime.HasFourDigitYear := by
  have htable : ∀ p ∈ sampleTexts,
      sampleRfc3339.parseFromRfc3339 p.2 = some p.1 ∧ '|' ∉ p.2.toList := by
    decide
  have hcases : ∀ t, (t, sampleRfc3339.toRfc3339 t) ∈ sampleTexts ∨
      sampleRfc3339.toRfc3339 t = sampleText t := by
    intro t
    cases hfind : sampleTexts.find? fun p => p.1 = t with
    | none => exact .inr (by simp [sampleRfc3339, hfind])
    | some p =>
      have hp : p.1 = t := by simpa using List.find?_some hfind
      have hrender : sampleRfc3339.toRfc3339 t = p.2 := by
        simp only [sampleRfc3339, hfind, Option.map_some, Option.getD_some]
      rw [hrender, ← hp]
      exact .inl (List.mem_of_find?_eq_some hfind)
  constructor
  · intro t _
    rcases hcases t with hmem | heq
    · exact (htable _ hmem).1
    · rw [heq, parse_sampleText]
  · intro t _
    rcases hcases t with hmem | heq
    · exact (htable _ hmem).2
    · rw [heq]
      exact notMem_sampleText t (by decide) (by decide) (by decide)

/-- A nanosecond makes another cursor, and a leap second keeps its place. -/
theorem cursor_round_trips_nanoseconds :
    decodeCursor sampleRfc3339 (encodeCursor sampleRfc3339 sampleTime (shopId 1)) =
      some (sampleTime, shopId 1) ∧
    encodeCursor sampleRfc3339 sampleTime (shopId 1) ≠
      encodeCursor sampleRfc3339 earlierTime (shopId 1) ∧
    decodeCursor sampleRfc3339 (encodeCursor sampleRfc3339 leapTime (shopId 2)) =
      some (leapTime, shopId 2) := by
  obtain ⟨hdecode, hunique⟩ :=
    cursor_round_trips sampleRfc3339_faithful (t := sampleTime) (by decide) (shopId 1)
  obtain ⟨hleap, -⟩ :=
    cursor_round_trips sampleRfc3339_faithful (t := leapTime) (by decide) (shopId 2)
  exact ⟨hdecode, fun heq => absurd (hunique _ _ (by decide) heq).1 (by decide), hleap⟩

/-! ## Pages -/

/-- A standard list envelope. -/
structure Page (ρ : Type) where
  data : List ρ
  nextCursor : Option String

/-- Fetch one row more than the limit to know whether there is a next page; a cursor that does
not decode starts over. -/
def paginate {α ρ : Type} (rfc : Rfc3339) (fetch : ℕ → Option (Timestamp × Uuid) → List α)
    (createdAt : α → Timestamp) (id : α → Uuid) (response : α → ρ) (limit : Option Int64)
    (cursor : Option String) : Page ρ :=
  let limit := pageSize limit
  let rows := fetch (limit + 1) (cursor.bind (decodeCursor rfc))
  if limit < rows.length then
    { data := (rows.take limit).map response
      nextCursor := rows[limit - 1]?.map fun last => encodeCursor rfc (createdAt last) (id last) }
  else { data := rows.map response, nextCursor := none }

end InvoicePayment.Pagination
