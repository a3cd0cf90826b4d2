import Mathlib.Data.List.Basic
import Mathlib.Tactic.IntervalCases

/-!
# Byte strings

* `leBytes`, the little-endian base-256 digits of a number, injective below `256 ^ k`;
* `hexEncode` and `hexDecode`, lower-case hexadecimal text and its reader, which also
  accepts upper-case digits, with the round trip `hexDecode_hexEncode`;
* `encodeGroups` and `decodeGroups`, hexadecimal groups separated by hyphens, with the
  round trip `decodeGroups_encodeGroups`;
* `tableHash`, a hash that has given digests on some inputs, injective by
  `tableHash_injective`.
-/

namespace Bytes

/-! ## Little-endian digits -/

/-- The `k` low base-256 digits of `n`, the lowest first. -/
def leBytes : ℕ → ℕ → List UInt8
  | 0, _ => []
  | k + 1, n => UInt8.ofNat n :: leBytes k (n / 256)

@[simp] theorem length_leBytes (k n : ℕ) : (leBytes k n).length = k := by
  induction k generalizing n with
  | zero => rfl
  | succ k ih => simp [leBytes, ih]

theorem leBytes_injective {k m n : ℕ} (hm : m < 256 ^ k) (hn : n < 256 ^ k)
    (h : leBytes k m = leBytes k n) : m = n := by
  induction k generalizing m n with
  | zero => omega
  | succ k ih =>
    simp only [leBytes, List.cons.injEq] at h
    obtain ⟨hlow, hhigh⟩ := h
    have hdiv : m / 256 = n / 256 := by
      apply ih _ _ hhigh
      · rw [Nat.div_lt_iff_lt_mul (by omega)]
        rwa [pow_succ] at hm
      · rw [Nat.div_lt_iff_lt_mul (by omega)]
        rwa [pow_succ] at hn
    have hmod : m % 256 = n % 256 := by
      have := congrArg UInt8.toNat hlow
      simpa using this
    omega

/-! ## Hexadecimal text -/

/-- The lower-case digit of a value below 16. -/
def hexDigit (n : ℕ) : Char :=
  if n < 10 then Char.ofNat (48 + n) else Char.ofNat (87 + n)

/-- The value of a hexadecimal digit of either case. -/
def hexValue (c : Char) : Option ℕ :=
  let n := c.toNat
  if 48 ≤ n ∧ n ≤ 57 then some (n - 48)
  else if 97 ≤ n ∧ n ≤ 102 then some (n - 87)
  else if 65 ≤ n ∧ n ≤ 70 then some (n - 55)
  else none

/-- Two digits for every byte, the high half first. -/
def hexEncode (bs : List UInt8) : List Char :=
  bs.flatMap fun b => [hexDigit (b.toNat / 16), hexDigit (b.toNat % 16)]

/-- Read pairs of digits back as bytes. -/
def hexDecode : List Char → Option (List UInt8)
  | [] => some []
  | [_] => none
  | a :: b :: rest => do
    let x ← hexValue a
    let y ← hexValue b
    let bs ← hexDecode rest
    return UInt8.ofNat (16 * x + y) :: bs

@[simp] theorem length_hexEncode (bs : List UInt8) : (hexEncode bs).length = 2 * bs.length := by
  induction bs with
  | nil => rfl
  | cons b bs ih =>
    rw [hexEncode] at ih ⊢
    rw [List.flatMap_cons, List.length_append, ih, List.length_cons]
    simp only [List.length_cons, List.length_nil]
    omega

theorem hexValue_hexDigit {n : ℕ} (h : n < 16) : hexValue (hexDigit n) = some n := by
  interval_cases n <;> rfl

theorem hexDecode_hexEncode (bs : List UInt8) : hexDecode (hexEncode bs) = some bs := by
  induction bs with
  | nil => rfl
  | cons b bs ih =>
    have hb : b.toNat < 256 := UInt8.toNat_lt b
    have hhigh : hexValue (hexDigit (b.toNat / 16)) = some (b.toNat / 16) :=
      hexValue_hexDigit (by omega)
    have hlow : hexValue (hexDigit (b.toNat % 16)) = some (b.toNat % 16) :=
      hexValue_hexDigit (by omega)
    have hbyte : UInt8.ofNat (16 * (b.toNat / 16) + b.toNat % 16) = b := by
      rw [Nat.div_add_mod]
      exact UInt8.ofNat_toNat
    show hexDecode (hexDigit (b.toNat / 16) :: hexDigit (b.toNat % 16) :: hexEncode bs) = _
    simp only [hexDecode, hhigh, hlow, ih, Option.bind_eq_bind, Option.bind_some, hbyte]
    rfl

/-! ## Hyphenated groups -/

/-- The groups in hexadecimal, separated by hyphens. -/
def encodeGroups : List (List UInt8) → List Char
  | [] => []
  | [g] => hexEncode g
  | g :: gs => hexEncode g ++ '-' :: encodeGroups gs

/-- Read groups of the given byte lengths. -/
def decodeGroups : List ℕ → List Char → Option (List UInt8)
  | [], cs => if cs.isEmpty then some [] else none
  | [n], cs => if cs.length = 2 * n then hexDecode cs else none
  | n :: ns, cs => do
    let g ← hexDecode (cs.take (2 * n))
    match cs.drop (2 * n) with
    | '-' :: rest => do
      let gs ← decodeGroups ns rest
      return g ++ gs
    | _ => none

theorem decodeGroups_encodeGroups (gs : List (List UInt8)) :
    decodeGroups (gs.map List.length) (encodeGroups gs) = some gs.flatten := by
  induction gs with
  | nil => rfl
  | cons g gs ih =>
    cases gs with
    | nil => simp [decodeGroups, encodeGroups, hexDecode_hexEncode]
    | cons g' gs =>
      have htake : (hexEncode g ++ '-' :: encodeGroups (g' :: gs)).take (2 * g.length)
          = hexEncode g := List.take_left' (length_hexEncode g)
      have hdrop : (hexEncode g ++ '-' :: encodeGroups (g' :: gs)).drop (2 * g.length)
          = '-' :: encodeGroups (g' :: gs) := List.drop_left' (length_hexEncode g)
      simp only [List.map_cons] at ih
      simp only [List.map_cons, decodeGroups, encodeGroups, htake, hdrop, hexDecode_hexEncode]
      simp [ih]

/-! ## Hashes given by a table -/

/-- The digest in the table, and on every other input a text longer than 32 bytes. -/
def tableHash (digests : List (List UInt8 × List UInt8)) (bytes : List UInt8) : List UInt8 :=
  (digests.lookup bytes).getD (List.replicate 33 0 ++ bytes)

theorem tableHash_injective {digests : List (List UInt8 × List UInt8)}
    (hlength : ∀ p ∈ digests, p.2.length = 32)
    (hdistinct : ∀ p ∈ digests, ∀ q ∈ digests, p.2 = q.2 → p.1 = q.1) :
    Function.Injective (tableHash digests) := by
  have hmem : ∀ {bytes digest}, digests.lookup bytes = some digest →
      (bytes, digest) ∈ digests := by
    intro bytes digest h
    obtain ⟨before, after, hsplit, -⟩ := List.lookup_eq_some_iff.mp h
    rw [hsplit]
    exact List.mem_append_right _ List.mem_cons_self
  -- what stands for the other digests is longer than a digest
  have hlong : ∀ {bytes digest} (other : List UInt8), digests.lookup bytes = some digest →
      digest ≠ List.replicate 33 0 ++ other := by
    rintro bytes digest other h rfl
    have hdigest := hlength _ (hmem h)
    rw [List.length_append, List.length_replicate] at hdigest
    omega
  intro b c h
  unfold tableHash at h
  cases hb : digests.lookup b with
  | some d =>
    cases hc : digests.lookup c with
    | some e =>
      rw [hb, hc] at h
      exact hdistinct _ (hmem hb) _ (hmem hc) h
    | none =>
      rw [hb, hc] at h
      exact absurd h (hlong c hb)
  | none =>
    cases hc : digests.lookup c with
    | some e =>
      rw [hb, hc] at h
      exact absurd h.symm (hlong b hc)
    | none =>
      rw [hb, hc] at h
      exact List.append_cancel_left h

end Bytes
