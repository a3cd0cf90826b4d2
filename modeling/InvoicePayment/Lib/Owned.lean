import InvoicePayment.Lib.Table
import Mathlib.Data.List.Sort

/-!
# Tables shared by owners

Two tables seen by one owner: `own₁` and `own₂` say which rows of the one and of the other are
its own, and the tables agree for it when these are the same rows, in any order. A query that
selects own rows only cannot tell such tables apart, and a statement that writes own rows only
leaves them in agreement and every other row as it was.
-/

namespace Table

variable {α κ : Type*}

/-- `ORDER BY rank DESC` without a tie-break: `scan` is the order the query meets the rows in, and
rows of one rank stay in it. `none` if `scan` is not an order of the rows. -/
def orderDesc [DecidableEq α] [LinearOrder κ] (rank : α → κ) (t scan : List α) : Option (List α) :=
  if scan.Perm t then some (scan.insertionSort fun a b => rank b ≤ rank a) else none

section Queries

variable {own₁ own₂ p : α → Bool} {t₁ t₂ : List α}

/-- A query for own rows selects the same rows. -/
theorem filter_perm_of_own (h : (t₁.filter own₁).Perm (t₂.filter own₂))
    (h₁ : ∀ x ∈ t₁, p x = true → own₁ x = true) (h₂ : ∀ x ∈ t₂, p x = true → own₂ x = true) :
    (t₁.filter p).Perm (t₂.filter p) := by
  have hscoped : ∀ {own : α → Bool} {t : List α}, (∀ x ∈ t, p x = true → own x = true) →
      (t.filter own).filter p = t.filter p := by
    intro own t hown
    rw [List.filter_filter]
    refine List.filter_congr fun x hx => ?_
    by_cases hpx : p x = true
    · rw [hpx, hown x hx hpx]
      rfl
    · rw [Bool.not_eq_true] at hpx
      rw [hpx, Bool.false_and]
  rw [← hscoped h₁, ← hscoped h₂]
  exact h.filter p

/-- A test for an own row comes out the same. -/
theorem any_eq_of_own (h : (t₁.filter own₁).Perm (t₂.filter own₂))
    (h₁ : ∀ x ∈ t₁, p x = true → own₁ x = true) (h₂ : ∀ x ∈ t₂, p x = true → own₂ x = true) :
    t₁.any p = t₂.any p := by
  have hperm := filter_perm_of_own h h₁ h₂
  rw [Bool.eq_iff_iff, List.any_eq_true, List.any_eq_true]
  refine exists_congr fun x => ?_
  rw [← List.mem_filter, ← List.mem_filter]
  exact hperm.mem_iff

/-- A query for the one own row that matches finds the same row. -/
theorem find?_eq_of_own (h : (t₁.filter own₁).Perm (t₂.filter own₂))
    (h₁ : ∀ x ∈ t₁, p x = true → own₁ x = true) (h₂ : ∀ x ∈ t₂, p x = true → own₂ x = true)
    (hone : ∀ x ∈ t₁, ∀ y ∈ t₁, p x = true → p y = true → x = y) : t₁.find? p = t₂.find? p := by
  have hperm := filter_perm_of_own h h₁ h₂
  cases hfind : t₂.find? p with
  | none =>
    rw [List.find?_eq_none] at hfind ⊢
    intro x hx hpx
    obtain ⟨hx', -⟩ := List.mem_filter.mp (hperm.mem_iff.mp (List.mem_filter.mpr ⟨hx, hpx⟩))
    exact hfind x hx' hpx
  | some y =>
    have hpy : p y = true := List.find?_some hfind
    have hy₂ : y ∈ t₂.filter p := List.mem_filter.mpr ⟨List.mem_of_find?_eq_some hfind, hpy⟩
    obtain ⟨hy, -⟩ := List.mem_filter.mp (hperm.mem_iff.mpr hy₂)
    obtain ⟨x, hx⟩ := Option.isSome_iff_exists.mp (List.find?_isSome.mpr ⟨y, hy, hpy⟩)
    rw [hx, hone x (List.mem_of_find?_eq_some hx) y hy (List.find?_some hx) hpy]

/-- A list that no order leaves a choice for depends on the rows alone. -/
theorem insertionSort_eq_of_perm {r : α → α → Prop} [DecidableRel r] [Std.Total r] [IsTrans α r]
    (h : t₁.Perm t₂) (hanti : ∀ x ∈ t₁, ∀ y ∈ t₁, r x y → r y x → x = y) :
    t₁.insertionSort r = t₂.insertionSort r := by
  have hperm : (t₁.insertionSort r).Perm (t₂.insertionSort r) :=
    (List.perm_insertionSort r t₁).trans (h.trans (List.perm_insertionSort r t₂).symm)
  refine hperm.eq_of_pairwise ?_ (List.pairwise_insertionSort r t₁)
    (List.pairwise_insertionSort r t₂)
  intro x y hx hy hxy hyx
  have hx' : x ∈ t₁ := List.mem_insertionSort r |>.mp hx
  have hy' : y ∈ t₁ := h.mem_iff.mpr (List.mem_insertionSort r |>.mp hy)
  exact hanti x hx' y hy' hxy hyx

/-- What an unspecific order can return depends on the rows alone. -/
theorem orderDesc_eq_of_perm [DecidableEq α] [LinearOrder κ] (rank : α → κ) (h : t₁.Perm t₂)
    (scan : List α) : orderDesc rank t₁ scan = orderDesc rank t₂ scan := by
  have hiff : scan.Perm t₁ ↔ scan.Perm t₂ := ⟨fun hs => hs.trans h, fun hs => hs.trans h.symm⟩
  simp only [orderDesc, hiff]

end Queries

/-! ## Statements -/

section Statements

variable {own own₁ own₂ p : α → Bool} {f : α → α} {t t₁ t₂ rows : List α}

/-- An `INSERT` of the same rows keeps the agreement. -/
theorem append_perm_of_own (h : (t₁.filter own₁).Perm (t₂.filter own₂))
    (hrows : ∀ x ∈ rows, own₁ x = own₂ x) :
    ((t₁ ++ rows).filter own₁).Perm ((t₂ ++ rows).filter own₂) := by
  rw [List.filter_append, List.filter_append, List.filter_congr hrows]
  exact h.append_right _

/-- An `UPDATE` that hands no row to another owner updates the owner's rows. -/
theorem filter_update (hkeep : ∀ x ∈ t, p x = true → own (f x) = own x) :
    (update p f t).filter own = update p f (t.filter own) := by
  rw [update, List.filter_map, update]
  have hfilter : t.filter (own ∘ fun r => if p r = true then f r else r) = t.filter own := by
    refine List.filter_congr fun x hx => ?_
    by_cases hp : p x = true
    · simp [hp, hkeep x hx hp]
    · simp [hp]
  rw [hfilter]

/-- Such an `UPDATE` keeps the agreement. -/
theorem update_perm_of_own (h : (t₁.filter own₁).Perm (t₂.filter own₂))
    (h₁ : ∀ x ∈ t₁, p x = true → own₁ (f x) = own₁ x)
    (h₂ : ∀ x ∈ t₂, p x = true → own₂ (f x) = own₂ x) :
    ((update p f t₁).filter own₁).Perm ((update p f t₂).filter own₂) := by
  rw [filter_update h₁, filter_update h₂]
  exact h.map _

/-- An `INSERT` of rows of others leaves the owner's rows. -/
theorem filter_append_of_not_own (hrows : ∀ x ∈ rows, own x = false) :
    (t ++ rows).filter own = t.filter own := by
  have hnil : rows.filter own = [] :=
    List.filter_eq_nil_iff.mpr fun x hx => by simp [hrows x hx]
  rw [List.filter_append, hnil, List.append_nil]

/-- An `UPDATE` of rows of others leaves the owner's rows. -/
theorem filter_update_of_not_own (hrows : ∀ x ∈ t, p x = true → own x = false)
    (hkeep : ∀ x ∈ t, p x = true → own (f x) = own x) :
    (update p f t).filter own = t.filter own := by
  rw [filter_update hkeep]
  refine update_eq_self fun x hx => ?_
  obtain ⟨hmem, hown⟩ := List.mem_filter.mp hx
  by_contra hp
  rw [Bool.not_eq_false] at hp
  rw [hrows x hmem hp] at hown
  exact Bool.noConfusion hown

/-- A unique index whose equal keys are own rows raises the same conflicts. -/
theorem UniqueIndex.conflicts_eq_of_own [DecidableEq κ] {ix : UniqueIndex α κ} {r : α}
    (h : (t₁.filter own₁).Perm (t₂.filter own₂))
    (h₁ : ∀ x ∈ t₁, ix.covers x = true → ix.key x = ix.key r → own₁ x = true)
    (h₂ : ∀ x ∈ t₂, ix.covers x = true → ix.key x = ix.key r → own₂ x = true) :
    ix.conflicts t₁ r = ix.conflicts t₂ r := by
  have hany : (t₁.any fun x => ix.covers x && decide (ix.key x = ix.key r)) =
      t₂.any fun x => ix.covers x && decide (ix.key x = ix.key r) := by
    refine any_eq_of_own h (fun x hx hp => ?_) (fun x hx hp => ?_)
    · rw [Bool.and_eq_true, decide_eq_true_eq] at hp
      exact h₁ x hx hp.1 hp.2
    · rw [Bool.and_eq_true, decide_eq_true_eq] at hp
      exact h₂ x hx hp.1 hp.2
  rw [conflicts, conflicts, hany]

theorem UniqueIndex.conflicts_append [DecidableEq κ] (ix : UniqueIndex α κ) (t t' : List α)
    (r : α) : ix.conflicts (t ++ t') r = (ix.conflicts t r || ix.conflicts t' r) := by
  rw [conflicts, conflicts, conflicts, List.any_append, Bool.and_or_distrib_left]

end Statements

/-! ## Writes of one owner -/

section Writes

variable {ω : Type*} [DecidableEq ω]

/-- What one owner writes to two tables that agree for it: they still do, and nobody else's rows
have changed. -/
structure OwnWrite (owner : α → ω) (b : ω) (t₁ t₂ t₁' t₂' : List α) : Prop where
  agree : (t₁'.filter fun x => owner x = b).Perm (t₂'.filter fun x => owner x = b)
  others₁ : ∀ c, c ≠ b → (t₁'.filter fun x => owner x = c) = t₁.filter fun x => owner x = c
  others₂ : ∀ c, c ≠ b → (t₂'.filter fun x => owner x = c) = t₂.filter fun x => owner x = c

variable {owner : α → ω} {b : ω} {t₁ t₂ t₁' t₂' t₁'' t₂'' rows : List α} {p : α → Bool}
  {f : α → α}

namespace OwnWrite

theorem nothing (h : (t₁.filter fun x => owner x = b).Perm (t₂.filter fun x => owner x = b)) :
    OwnWrite owner b t₁ t₂ t₁ t₂ := ⟨h, fun _ _ => rfl, fun _ _ => rfl⟩

theorem trans (h : OwnWrite owner b t₁ t₂ t₁' t₂') (h' : OwnWrite owner b t₁' t₂' t₁'' t₂'') :
    OwnWrite owner b t₁ t₂ t₁'' t₂'' :=
  ⟨h'.agree, fun c hc => (h'.others₁ c hc).trans (h.others₁ c hc),
    fun c hc => (h'.others₂ c hc).trans (h.others₂ c hc)⟩

/-- An `INSERT` of own rows. -/
theorem insert (h : (t₁.filter fun x => owner x = b).Perm (t₂.filter fun x => owner x = b))
    (hrows : ∀ x ∈ rows, owner x = b) : OwnWrite owner b t₁ t₂ (t₁ ++ rows) (t₂ ++ rows) := by
  have hothers : ∀ c, c ≠ b → ∀ x ∈ rows, decide (owner x = c) = false := by
    intro c hc x hx
    exact decide_eq_false fun hown => hc (hown.symm.trans (hrows x hx))
  exact ⟨append_perm_of_own h fun _ _ => rfl,
    fun c hc => filter_append_of_not_own (hothers c hc),
    fun c hc => filter_append_of_not_own (hothers c hc)⟩

/-- An `UPDATE` of own rows that leaves them to their owner. -/
theorem update (h : (t₁.filter fun x => owner x = b).Perm (t₂.filter fun x => owner x = b))
    (h₁ : ∀ x ∈ t₁, p x = true → owner x = b) (h₂ : ∀ x ∈ t₂, p x = true → owner x = b)
    (hkeep : ∀ x, owner (f x) = owner x) :
    OwnWrite owner b t₁ t₂ (Table.update p f t₁) (Table.update p f t₂) := by
  have hkept : ∀ c x, decide (owner (f x) = c) = decide (owner x = c) := by
    intro c x
    rw [hkeep]
  have hothers : ∀ {t : List α}, (∀ x ∈ t, p x = true → owner x = b) → ∀ c, c ≠ b →
      ∀ x ∈ t, p x = true → decide (owner x = c) = false := by
    intro t ht c hc x hx hp
    exact decide_eq_false fun hown => hc (hown.symm.trans (ht x hx hp))
  exact ⟨update_perm_of_own h (fun x _ _ => hkept b x) (fun x _ _ => hkept b x),
    fun c hc => filter_update_of_not_own (hothers h₁ c hc) fun x _ _ => hkept c x,
    fun c hc => filter_update_of_not_own (hothers h₂ c hc) fun x _ _ => hkept c x⟩

end OwnWrite

end Writes

end Table
