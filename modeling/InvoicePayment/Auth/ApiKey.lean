import InvoicePayment.Common.Text
import Mathlib.Data.List.Basic

/-!
# Key format, generation and hashing

A key is `dpk_<env>_<random>`. What is stored is its prefix of 17 characters and its SHA-256;
`sha256` stands for the hash of the `sha2` crate.
-/

namespace InvoicePayment.Auth

def prefixLen : ℕ := 17
def randomLen : ℕ := 36

/-- What the generator draws: `randomLen` alphanumeric characters. -/
structure RandomBody where
  chars : List Char
  length_chars : chars.length = randomLen
  alphanumeric : ∀ c ∈ chars, c.isAlphanum = true

structure GeneratedKey where
  full : String
  keyPrefix : String
  lastFour : String
  keyHash : List UInt8

/-- The lookup handle: the first `prefixLen` characters of the key. -/
def derivePrefix (key : String) : String := String.ofList (key.toList.take prefixLen)

/-- SHA-256 of the full key. -/
def hashKey (sha256 : List UInt8 → List UInt8) (key : String) : List UInt8 := sha256 (utf8Bytes key)

/-- Everything but `"live"` makes a test key. -/
def keyEnv (env : String) : String := if env = "live" then "live" else "test"

/-- The text of a key. -/
def fullKey (env : String) (random : RandomBody) : String :=
  s!"dpk_{keyEnv env}_{String.ofList random.chars}"

/-- Generate a fresh key for the given environment. -/
def generateKey (sha256 : List UInt8 → List UInt8) (env : String) (random : RandomBody) :
    GeneratedKey :=
  let full := fullKey env random
  { full
    keyPrefix := derivePrefix full
    lastFour := String.ofList (full.toList.drop (full.toList.length - 4))
    keyHash := hashKey sha256 full }

/-- Byte comparison that looks at every byte. -/
def constantTimeEq (a b : List UInt8) : Bool :=
  if a.length ≠ b.length then false
  else ((a.zip b).foldl (fun diff p => diff ||| (p.1 ^^^ p.2)) 0) == 0

/-! ## The text of a key -/

theorem ascii_of_isAlphanum {c : Char} (h : c.isAlphanum = true) :
    0 < c.toNat ∧ c.toNat ≤ 127 := by
  delta Char.isAlphanum Char.isAlpha Char.isUpper Char.isLower at h
  simp only [Char.isDigit, Bool.or_eq_true, Bool.and_eq_true, decide_eq_true_eq, ge_iff_le,
    UInt32.le_iff_toNat_le] at h
  have htoNat : c.toNat = c.val.toNat := rfl
  simp at h
  omega

/-- A key is ASCII text. -/
theorem ascii_fullKey (env : String) (random : RandomBody) :
    ∀ c ∈ (fullKey env random).toList, 0 < c.toNat ∧ c.toNat ≤ 127 := by
  have hfull : fullKey env random =
      "dpk_" ++ keyEnv env ++ "_" ++ String.ofList random.chars := rfl
  have hhead : (("dpk_" ++ keyEnv env ++ "_").toList.all
      fun c => decide (0 < c.toNat ∧ c.toNat ≤ 127)) = true := by
    by_cases hlive : env = "live"
    · rw [keyEnv, if_pos hlive]
      decide
    · rw [keyEnv, if_neg hlive]
      decide
  intro c hc
  rw [hfull, String.toList_append, List.mem_append, String.toList_ofList] at hc
  exact hc.elim (fun hc => of_decide_eq_true (List.all_eq_true.mp hhead c hc)) fun hc =>
    ascii_of_isAlphanum (random.alphanumeric c hc)

/-! ## The comparison -/

/-- The differences of the bytes accumulate: none is lost. -/
theorem foldl_diff_eq_zero (ps : List (UInt8 × UInt8)) (diff : UInt8) :
    ps.foldl (fun diff p => diff ||| (p.1 ^^^ p.2)) diff = 0 ↔
      diff = 0 ∧ ∀ p ∈ ps, p.1 = p.2 := by
  induction ps generalizing diff with
  | nil => simp
  | cons p ps ih =>
    rw [List.foldl_cons, ih, UInt8.or_eq_zero_iff, UInt8.xor_eq_zero_iff, List.forall_mem_cons]
    exact and_assoc

theorem constantTimeEq_iff (a b : List UInt8) : constantTimeEq a b = true ↔ a = b := by
  unfold constantTimeEq
  split_ifs with hlength
  · exact ⟨fun h => h.elim, fun h => absurd (congrArg List.length h) hlength⟩
  · rw [beq_iff_eq, foldl_diff_eq_zero]
    refine ⟨fun h => ?_, fun h => ⟨rfl, fun p hp => ?_⟩⟩
    · have hzip : (a.zip b).map Prod.fst = (a.zip b).map Prod.snd := List.map_congr_left h.2
      rwa [List.map_fst_zip (by omega), List.map_snd_zip (by omega)] at hzip
    · subst h
      rw [List.zip, List.zipWith_self] at hp
      obtain ⟨x, -, rfl⟩ := List.mem_map.mp hp
      rfl

/-- The hash of a key identifies the key, as long as SHA-256 has no collision. -/
theorem hashKey_injective {sha256 : List UInt8 → List UInt8} (h : Function.Injective sha256)
    {key key' : String} (heq : hashKey sha256 key = hashKey sha256 key') : key = key' := by
  have hbytes := h heq
  have hread := fromUtf8_utf8Bytes key
  rw [hbytes, fromUtf8_utf8Bytes] at hread
  exact (Option.some.inj hread).symm

end InvoicePayment.Auth
