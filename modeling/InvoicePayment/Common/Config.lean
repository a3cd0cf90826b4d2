import InvoicePayment.Common.Money
import InvoicePayment.Lib.Decimal
import Mathlib.Data.Nat.Notation
import Mathlib.Algebra.Group.Int.Defs
import Mathlib.Algebra.Group.Nat.Defs

/-!
# Configuration

`ServiceConfig::from_env`. A number that does not parse falls back to its default like one that
is not set; only `DATABASE_URL` is required.
-/

namespace InvoicePayment

/-- The value of a non-empty run of ASCII digits. -/
def parseDigits (cs : List Char) : Option ℕ :=
  if cs ≠ [] ∧ cs.all Char.isDigit then
    some (cs.foldl (fun n c => 10 * n + (c.toNat - '0'.toNat)) 0)
  else none

/-- `str::parse::<u64>`: a leading `+` is allowed. -/
def parseU64 (s : String) : Option ℕ :=
  let digits := match s.toList with
    | '+' :: cs => cs
    | cs => cs
  (parseDigits digits).filter fun n => n < 2 ^ 64

/-- `str::parse::<i32>`: a leading sign is allowed. -/
def parseI32 (s : String) : Option Int :=
  match s.toList with
  | '-' :: cs => ((parseDigits cs).filter fun n => n ≤ 2 ^ 31).map fun n => -(n : Int)
  | '+' :: cs => ((parseDigits cs).filter fun n => n < 2 ^ 31).map Int.ofNat
  | cs => ((parseDigits cs).filter fun n => n < 2 ^ 31).map Int.ofNat

/-- `Duration::from_millis`, in microseconds. -/
def millis (n : ℕ) : Int := n * 1000

structure ServiceConfig where
  databaseUrl : String
  bindAddr : String
  pspBaseUrl : String
  pspTimeout : Int
  webhookMaxAttempts : Int

/-- Read the configuration from the environment; `none` without `DATABASE_URL`. -/
def ServiceConfig.fromEnv (env : String → Option String) : Option ServiceConfig :=
  (env "DATABASE_URL").map fun databaseUrl =>
    { databaseUrl
      bindAddr := (env "BIND_ADDR").getD "0.0.0.0:8080"
      pspBaseUrl := (env "PSP_BASE_URL").getD "http://localhost:9090"
      pspTimeout := millis (((env "PSP_TIMEOUT_MS").bind parseU64).getD 5000)
      webhookMaxAttempts := ((env "WEBHOOK_MAX_ATTEMPTS").bind parseI32).getD 8 }

theorem ServiceConfig.pspTimeout_of_unset {env : String → Option String} {cfg : ServiceConfig}
    (h : fromEnv env = some cfg) (hunset : env "PSP_TIMEOUT_MS" = none) :
    cfg.pspTimeout = seconds 5 := by
  obtain ⟨url, -, rfl⟩ := Option.map_eq_some_iff.mp h
  simp only [hunset, Option.bind_none, Option.getD_none]
  rfl

theorem parseDigits_toDigits (n : ℕ) : parseDigits (Nat.toDigits 10 n) = some n :=
  Decimal.readNat_toDigits n

/-- The text of an `i32` parses. -/
theorem parseI32_repr {n : Int} (hlow : -2 ^ 31 ≤ n) (hhigh : n < 2 ^ 31) :
    parseI32 n.repr = some n := by
  have hne : ∀ {c : Char} {cs : List Char} {m : ℕ}, Nat.toDigits 10 m = c :: cs →
      c ≠ '-' ∧ c ≠ '+' := by
    intro c cs m h
    have hdigit : c.isDigit = true := Decimal.isDigit_of_mem_toDigits (h ▸ List.mem_cons_self)
    constructor <;> rintro rfl <;> exact absurd hdigit (by decide)
  unfold parseI32
  rw [Decimal.toList_repr]
  by_cases hneg : n < 0
  · have habs : n.natAbs ≤ 2 ^ 31 := by omega
    have hback : -(n.natAbs : Int) = n := by omega
    simp only [if_pos hneg, List.cons_append, List.nil_append, parseDigits_toDigits,
      Option.filter_some, habs, decide_true, if_true]
    exact congrArg some hback
  · have habs : n.natAbs < 2 ^ 31 := by omega
    have hback : Int.ofNat n.natAbs = n := by
      rw [Int.ofNat_eq_natCast]
      omega
    simp only [if_neg hneg, List.nil_append]
    split
    · rename_i h
      exact absurd rfl (hne h).1
    · rename_i h
      exact absurd rfl (hne h).2
    · simp only [parseDigits_toDigits, Option.filter_some, habs, decide_true, if_true,
        Option.map_some, hback]

/-- `WEBHOOK_MAX_ATTEMPTS` can be any `i32`. -/
theorem ServiceConfig.exists_webhookMaxAttempts {n : Int} (hlow : -2 ^ 31 ≤ n) (hhigh : n < 2 ^ 31) :
    ∃ env cfg, fromEnv env = some cfg ∧ cfg.webhookMaxAttempts = n := by
  refine ⟨fun name => if name = "WEBHOOK_MAX_ATTEMPTS" then some n.repr else some "", _, rfl, ?_⟩
  show (parseI32 n.repr).getD 8 = n
  rw [parseI32_repr hlow hhigh]
  rfl

end InvoicePayment
