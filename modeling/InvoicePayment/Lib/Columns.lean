import InvoicePayment.Lib.Table
import Mathlib.Data.List.Infix

/-!
# Columns

What is said of some columns of a table only: that nothing stored in them is ever rewritten
(`Table.Keeps`), and that they refer to a row of another table (`Table.ForeignKey`). A foreign key
lives on when the referenced columns are kept (`ForeignKey.Holds.grow`).
-/

namespace Table

variable {α β γ κ : Type*}

/-! ## Columns that are kept -/

/-- As far as the columns `c` go, the rows of `t` are the first rows of `t'`. -/
def Keeps (c : α → γ) (t t' : List α) : Prop := t.map c <+: t'.map c

namespace Keeps

variable {c : α → γ} {t t' t'' : List α}

theorem refl (c : α → γ) (t : List α) : Keeps c t t := List.prefix_refl _

theorem trans (h : Keeps c t t') (h' : Keeps c t' t'') : Keeps c t t'' := List.IsPrefix.trans h h'

theorem append (c : α → γ) (t new : List α) : Keeps c t (t ++ new) := by
  rw [Keeps, List.map_append]
  exact List.prefix_append _ _

/-- An `UPDATE` keeps the columns its `SET` clause does not touch. -/
theorem update {p : α → Bool} {f : α → α} (h : ∀ x ∈ t, p x = true → c (f x) = c x) :
    Keeps c t (update p f t) := by
  rw [Keeps, map_update c h]

/-- A row stays, in these columns. -/
theorem exists_mem (h : Keeps c t t') {a : α} (ha : a ∈ t) : ∃ a' ∈ t', c a' = c a :=
  List.mem_map.mp (h.subset (List.mem_map_of_mem ha))

end Keeps

/-! ## Foreign keys -/

/-- A foreign key of a table `α` to a table `β`: the referencing columns, `none` where they are
null, and the columns they refer to. -/
structure ForeignKey (α β κ : Type*) where
  col : α → Option κ
  key : β → κ

namespace ForeignKey

variable {fk : ForeignKey α β κ} {t : List α} {t' t'' : List β}

/-- The row refers to a row of `t'`, or to nothing. -/
def Found (fk : ForeignKey α β κ) (t' : List β) (a : α) : Prop :=
  ∀ k, fk.col a = some k → ∃ b ∈ t', fk.key b = k

/-- Every reference from `t` is found in `t'`. -/
def Holds (fk : ForeignKey α β κ) (t : List α) (t' : List β) : Prop := ∀ a ∈ t, fk.Found t' a

/-- A row that is found stays found as long as the referenced columns are kept. -/
theorem Found.grow {a : α} (h : fk.Found t' a) (hkeep : Keeps fk.key t' t'') : fk.Found t'' a := by
  intro k hk
  obtain ⟨b, hb, hkey⟩ := h k hk
  obtain ⟨b', hb', heq⟩ := hkeep.exists_mem hb
  exact ⟨b', hb', heq.trans hkey⟩

theorem Holds.grow (h : fk.Holds t t') (hkeep : Keeps fk.key t' t'') : fk.Holds t t'' :=
  fun a ha => (h a ha).grow hkeep

/-- New rows must find what they refer to. -/
theorem Holds.append (h : fk.Holds t t') {new : List α} (hnew : ∀ a ∈ new, fk.Found t' a) :
    fk.Holds (t ++ new) t' := by
  intro a ha
  rcases List.mem_append.mp ha with ha | ha
  · exact h a ha
  · exact hnew a ha

/-- An `UPDATE` of other columns of the referencing table. -/
theorem Holds.update {p : α → Bool} {f : α → α} (h : fk.Holds t t')
    (hcol : ∀ x, p x = true → fk.col (f x) = fk.col x) : fk.Holds (update p f t) t' := by
  intro a ha k hk
  obtain ⟨x, hx, rfl⟩ := mem_update.mp ha
  refine h x hx k ?_
  split_ifs at hk with hp
  · rw [← hcol x hp]
    exact hk
  · exact hk

end ForeignKey

/-! ## Checks -/

/-- A check on columns that an `UPDATE` does not touch goes on to hold. -/
theorem forall_update {p : α → Bool} {f : α → α} {t : List α} {P : α → Prop}
    (h : ∀ x ∈ t, P x) (hf : ∀ x ∈ t, p x = true → P x → P (f x)) :
    ∀ x ∈ update p f t, P x := by
  intro y hy
  obtain ⟨x, hx, rfl⟩ := mem_update.mp hy
  split_ifs with hp
  · exact hf x hx hp (h x hx)
  · exact h x hx

end Table
