import Mathlib.Algebra.Group.Int.Defs

/-!
# Money

Amounts are `i64` cents. A result outside the range is an error, in the database as in
`Money`; neither wraps.
-/

namespace InvoicePayment

/-- A point in time, in microseconds. -/
abbrev Timestamp := Int

/-- `interval 'n seconds'`. -/
def seconds (n : Int) : Int := n * 1000000

/-- A `bigint` result, or the overflow error. -/
def checkedI64 (n : Int) : Option Int64 :=
  if -2 ^ 63 ≤ n ∧ n < 2 ^ 63 then some (Int64.ofInt n) else none

theorem toInt_of_checkedI64 {n : Int} {a : Int64} (h : checkedI64 n = some a) : a.toInt = n := by
  unfold checkedI64 at h
  split at h
  · rename_i hn
    obtain rfl := Option.some.inj h
    exact Int64.toInt_ofInt_of_le hn.1 hn.2
  · cases h

theorem checkedI64_toInt (a : Int64) : checkedI64 a.toInt = some a := by
  unfold checkedI64
  rw [if_pos ⟨a.le_toInt, a.toInt_lt⟩, Int64.ofInt_toInt]

/-- An amount of money in USD cents. -/
structure Money where
  cents : Int64
deriving DecidableEq

namespace Money

def zero : Money := ⟨0⟩

/-- `checked_mul_qty`. -/
def checkedMulQty (m : Money) (qty : Int64) : Option Money :=
  (checkedI64 (m.cents.toInt * qty.toInt)).map Money.mk

/-- `checked_add`. -/
def checkedAdd (m n : Money) : Option Money :=
  (checkedI64 (m.cents.toInt + n.cents.toInt)).map Money.mk

end Money

end InvoicePayment
