import Mathlib.Data.List.Basic
import Mathlib.Data.Nat.Notation
import Mathlib.Tactic.Common

/-!
# Decimal text

`readInt` reads back what `Int.repr` writes (`readInt_repr`), so two integers with the same text
are equal, and the text is made of digits and a minus sign (`isDigit_or_minus`).
-/

namespace Decimal

/-- The value of a non-empty run of ASCII digits. -/
def readNat (cs : List Char) : Option ℕ :=
  if cs ≠ [] ∧ cs.all Char.isDigit then some (Nat.ofDigitChars 10 cs 0) else none

/-- The value of a run of digits, perhaps behind a minus sign. -/
def readInt : List Char → Option Int
  | '-' :: cs => (readNat cs).map fun n : ℕ => -(n : Int)
  | cs => (readNat cs).map fun n : ℕ => (n : Int)

theorem isDigit_of_mem_toDigits {n : ℕ} {c : Char} (h : c ∈ Nat.toDigits 10 n) :
    c.isDigit = true := Nat.isDigit_of_mem_toDigits (by omega) (by omega) h

theorem readNat_toDigits (n : ℕ) : readNat (Nat.toDigits 10 n) = some n := by
  have hdigits : (Nat.toDigits 10 n).all Char.isDigit = true :=
    List.all_eq_true.mpr fun _ hc => isDigit_of_mem_toDigits hc
  rw [readNat, if_pos ⟨Nat.toDigits_ne_nil, hdigits⟩,
    Nat.ofDigitChars_toDigits (by omega) (by omega)]

theorem toList_repr (n : Int) :
    n.repr.toList = (if n < 0 then ['-'] else []) ++ Nat.toDigits 10 n.natAbs := by
  cases n with
  | ofNat n =>
    have hnot : ¬ Int.ofNat n < 0 := Int.not_lt.mpr (Int.natCast_nonneg n)
    rw [if_neg hnot, List.nil_append]
    exact Nat.toList_repr
  | negSucc n =>
    rw [if_pos (Int.negSucc_lt_zero n)]
    simp [Int.repr]

theorem readInt_repr (n : Int) : readInt n.repr.toList = some n := by
  rw [toList_repr]
  by_cases hneg : n < 0
  · rw [if_pos hneg]
    have habs : -(n.natAbs : Int) = n := by omega
    show (readNat (Nat.toDigits 10 n.natAbs)).map (fun n : ℕ => -(n : Int)) = some n
    rw [readNat_toDigits, Option.map_some, habs]
  · have habs : (n.natAbs : Int) = n := by omega
    have hread : readInt (Nat.toDigits 10 n.natAbs) =
        (readNat (Nat.toDigits 10 n.natAbs)).map fun n : ℕ => (n : Int) := by
      unfold readInt
      split
      · rename_i cs heq
        have hminus : '-' ∈ Nat.toDigits 10 n.natAbs := heq ▸ List.mem_cons_self
        exact absurd (isDigit_of_mem_toDigits hminus) (by decide)
      · rfl
    rw [if_neg hneg, List.nil_append, hread, readNat_toDigits, Option.map_some, habs]

theorem repr_injective {m n : Int} (h : m.repr = n.repr) : m = n := by
  have hm := readInt_repr m
  rw [h, readInt_repr] at hm
  exact (Option.some.inj hm).symm

theorem isDigit_or_minus {n : Int} {c : Char} (h : c ∈ n.repr.toList) :
    c.isDigit = true ∨ c = '-' := by
  rw [toList_repr] at h
  rcases List.mem_append.mp h with h | h
  · split at h
    · exact .inr (List.mem_singleton.mp h)
    · cases h
  · exact .inl (isDigit_of_mem_toDigits h)

theorem notMem_repr {n : Int} {c : Char} (hdigit : c.isDigit = false) (hminus : c ≠ '-') :
    c ∉ n.repr.toList := by
  intro h
  rcases isDigit_or_minus h with hd | hm
  · rw [hdigit] at hd
    exact Bool.noConfusion hd
  · exact hminus hm

/-- The text of a number is ASCII. -/
theorem toNat_le_of_mem_repr {n : Int} {c : Char} (h : c ∈ n.repr.toList) : c.toNat ≤ 57 := by
  rcases isDigit_or_minus h with hdigit | rfl
  · simp only [Char.isDigit, Bool.and_eq_true, decide_eq_true_eq] at hdigit
    exact UInt32.le_iff_toNat_le.mp hdigit.2
  · decide

end Decimal
