import InvoicePayment.Common.Config
import InvoicePayment.Webhooks.Dispatcher

/-!
# Backoff arithmetic

The ceiling of the jitter is a 64-bit shift, a saturating multiplication and a clamp. The
multiplication cannot overflow. The shift can: its amount grows with the attempts of a delivery,
and nothing bounds these but `WEBHOOK_MAX_ATTEMPTS`.
-/

namespace InvoicePayment.Dispatcher

/-- `a << n` in a build with overflow checks: a shift by all the bits or more panics. -/
def checkedShl (a : UInt64) (n : ℕ) : Option UInt64 :=
  if n < 64 then some (a <<< n.toUInt64) else none

/-- The ceiling of the backoff in a build with overflow checks; `none` is a panic. -/
def checkedBackoffCeiling (attempts : Int) : Option UInt64 := do
  let factor ← checkedShl 1 (max attempts 1 - 1).toNat
  let exp := saturatingMul backoffBaseSecs factor
  return max (min exp backoffCapSecs) 1

/-- `min(cap, base * 2 ^ (attempts - 1))` over the integers. -/
def idealCeiling (attempts : Int) : ℕ := min 3600 (10 * 2 ^ (attempts - 1).toNat)

/-- The ceiling after `attempts` attempts is the ideal one, and a build with overflow checks
computes it too. -/
structure ExactAt (attempts : Int) : Prop where
  ceiling : (backoffCeiling attempts).toNat = idealCeiling attempts
  checked : checkedBackoffCeiling attempts = some (backoffCeiling attempts)

/-- The ceilings of all attempts that stay below `maxAttempts`. -/
structure ExactBackoff (maxAttempts : Int) : Prop where
  exactAt : ∀ attempts, 1 ≤ attempts → attempts < maxAttempts → ExactAt attempts
  mono : ∀ a a', 1 ≤ a → a ≤ a' → a' < maxAttempts → backoffCeiling a ≤ backoffCeiling a'

/-! ## The arithmetic of the source -/

theorem toNat_saturatingMul (a b : UInt64) :
    (saturatingMul a b).toNat = min (a.toNat * b.toNat) (2 ^ 64 - 1) := by
  unfold saturatingMul
  split
  · rename_i hlt
    rw [UInt64.toNat_mul, Nat.mod_eq_of_lt hlt]
    omega
  · have hmax : ((2 : UInt64) ^ 64 - 1).toNat = 2 ^ 64 - 1 := by decide +kernel
    rw [hmax]
    omega

/-- A shift by less than 64 bits is a multiplication by a power of two. -/
theorem toNat_one_shiftLeft {n : ℕ} (hn : n < 64) : ((1 : UInt64) <<< n.toUInt64).toNat = 2 ^ n := by
  have hamount : n.toUInt64.toNat % 64 = n := by
    rw [UInt64.toNat_ofNat']
    omega
  have hpow : 2 ^ n < 2 ^ 64 := Nat.pow_lt_pow_right (by omega) hn
  rw [UInt64.toNat_shiftLeft, hamount, Nat.shiftLeft_eq, UInt64.toNat_one, Nat.one_mul,
    Nat.mod_eq_of_lt hpow]

theorem toNat_min (a b : UInt64) : (min a b).toNat = min a.toNat b.toNat := by
  show (if a ≤ b then a else b).toNat = _
  by_cases hle : a ≤ b
  · have hnat := UInt64.le_iff_toNat_le.mp hle
    rw [if_pos hle]
    omega
  · have hnat : ¬ a.toNat ≤ b.toNat := fun h => hle (UInt64.le_iff_toNat_le.mpr h)
    rw [if_neg hle]
    omega

theorem toNat_max (a b : UInt64) : (max a b).toNat = max a.toNat b.toNat := by
  show (if a ≤ b then b else a).toNat = _
  by_cases hle : a ≤ b
  · have hnat := UInt64.le_iff_toNat_le.mp hle
    rw [if_pos hle]
    omega
  · have hnat : ¬ a.toNat ≤ b.toNat := fun h => hle (UInt64.le_iff_toNat_le.mpr h)
    rw [if_neg hle]
    omega

/-! ## Up to 64 attempts -/

theorem exactAt_of_le {attempts : Int} (hpos : 1 ≤ attempts) (hle : attempts ≤ 64) :
    ExactAt attempts := by
  have hmax : (max attempts 1 - 1).toNat = (attempts - 1).toNat := by omega
  have hamount : (attempts - 1).toNat < 64 := by omega
  constructor
  · have hbase : backoffBaseSecs.toNat = 10 := rfl
    have hcap : backoffCapSecs.toNat = 3600 := rfl
    have hpow : 0 < 2 ^ (attempts - 1).toNat := Nat.two_pow_pos _
    rw [backoffCeiling, toNat_max, toNat_min, toNat_saturatingMul, hmax,
      toNat_one_shiftLeft hamount, hbase, hcap, UInt64.toNat_one, idealCeiling]
    omega
  · rw [checkedBackoffCeiling, checkedShl, hmax, if_pos hamount, backoffCeiling, hmax]
    rfl

theorem le_of_exactAt {attempts : Int} (h : ExactAt attempts) : attempts ≤ 64 := by
  by_contra hgt
  have hamount : ¬ (max attempts 1 - 1).toNat < 64 := by omega
  have hchecked := h.checked
  rw [checkedBackoffCeiling, checkedShl, if_neg hamount] at hchecked
  cases hchecked

theorem idealCeiling_mono {a a' : Int} (h : a ≤ a') : idealCeiling a ≤ idealCeiling a' := by
  have hpow : 2 ^ (a - 1).toNat ≤ 2 ^ (a' - 1).toNat := Nat.pow_le_pow_right (by omega) (by omega)
  unfold idealCeiling
  omega

/-! ## Every configuration -/

/-- The backoff is exact up to 64 attempts, and so for a configuration with at most 65. -/
theorem backoff_exact_iff (cfg : ServiceConfig) :
    (∀ attempts, 1 ≤ attempts → attempts < cfg.webhookMaxAttempts →
      (ExactAt attempts ↔ attempts ≤ 64)) ∧
    (ExactBackoff cfg.webhookMaxAttempts ↔ cfg.webhookMaxAttempts ≤ 65) := by
  refine ⟨fun attempts hpos _ => ⟨le_of_exactAt, exactAt_of_le hpos⟩, ?_⟩
  constructor
  · intro h
    by_contra hgt
    have hle := le_of_exactAt (h.exactAt 65 (by omega) (by omega))
    omega
  · intro hle
    refine ⟨fun attempts hpos hlt => exactAt_of_le hpos (by omega), fun a a' hpos haa' hlt => ?_⟩
    have ha := (exactAt_of_le hpos (by omega)).ceiling
    have ha' := (exactAt_of_le (hpos.trans haa') (by omega)).ceiling
    rw [UInt64.le_iff_toNat_le, ha, ha']
    exact idealCeiling_mono haa'

/-- An environment that allows a hundred attempts. -/
def patientEnv : String → Option String
  | "DATABASE_URL" => some "postgres://db"
  | "WEBHOOK_MAX_ATTEMPTS" => some "100"
  | _ => none

/-- After 65 of them a build with overflow checks panics, and another one waits ten seconds at
most instead of an hour. -/
theorem backoff_overflows :
    ∃ cfg, ServiceConfig.fromEnv patientEnv = some cfg ∧ 65 < cfg.webhookMaxAttempts ∧
      checkedBackoffCeiling 65 = none ∧ backoffCeiling 65 = 10 ∧ idealCeiling 65 = 3600 ∧
      ¬ ExactBackoff cfg.webhookMaxAttempts := by
  refine ⟨{ databaseUrl := "postgres://db", bindAddr := "0.0.0.0:8080"
            pspBaseUrl := "http://localhost:9090", pspTimeout := seconds 5
            webhookMaxAttempts := 100 }, rfl, by decide, rfl, by decide, by decide, ?_⟩
  intro h
  have hle := le_of_exactAt (h.exactAt 65 (by decide) (by decide))
  exact absurd hle (by decide)

end InvoicePayment.Dispatcher
