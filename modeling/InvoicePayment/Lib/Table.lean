import Mathlib.Data.List.Basic
import Mathlib.Data.List.Pairwise
import Mathlib.Data.List.Nodup
import Mathlib.Data.List.Perm.Subperm

/-!
# Tables as lists of rows

A table is the list of its rows in insertion order. `update` is
`UPDATE t SET .. WHERE ..`, `UniqueIndex` a (possibly partial) unique index, and
`UniqueIndex.Holds` what such an index guarantees. The lemmas say what an `UPDATE` and an
`INSERT` do to the rows and to an index.
-/

namespace Table

variable {α κ : Type*}

/-- `UPDATE t SET f WHERE p`. -/
def update (p : α → Bool) (f : α → α) (t : List α) : List α :=
  t.map fun r => if p r then f r else r

/-- A unique index: the rows it covers (its `WHERE` clause) and the columns it compares. -/
structure UniqueIndex (α : Type*) (κ : Type*) where
  covers : α → Bool
  key : α → κ

namespace UniqueIndex

/-- Inserting `r` would raise a unique violation. -/
def conflicts [DecidableEq κ] (ix : UniqueIndex α κ) (t : List α) (r : α) : Bool :=
  ix.covers r && t.any fun x => ix.covers x && decide (ix.key x = ix.key r)

/-- No two covered rows have the same key. -/
def Holds (ix : UniqueIndex α κ) (t : List α) : Prop :=
  t.Pairwise fun a b => ix.covers a → ix.covers b → ix.key a ≠ ix.key b

end UniqueIndex

/-- `ids` is a batch that `SELECT .. WHERE due ORDER BY .. LIMIT limit FOR UPDATE SKIP LOCKED` may
return while other transactions lock the rows `locked`: due rows, none twice, at most `limit`;
and a due row that is neither locked nor selected is only left out of a full batch, behind
every selected row. The choice among rows of equal rank is the database's. -/
def isBatch [DecidableEq κ] (id : α → κ) (due : α → Bool) (before : α → α → Bool) (limit : ℕ)
    (t : List α) (locked ids : List κ) : Bool :=
  decide ids.Nodup
    && decide (ids.length ≤ limit)
    && ids.all (fun k => !locked.contains k && t.any fun a => id a = k && due a)
    && t.all fun b =>
      !due b || locked.contains (id b) || ids.contains (id b)
        || (decide (ids.length = limit) && t.all fun a => !ids.contains (id a) || before a b)

/-- The rows with the ids `ids`, in that order. -/
def withIds [DecidableEq κ] (id : α → κ) (t : List α) (ids : List κ) : List α :=
  ids.filterMap fun k => t.find? fun a => id a = k

/-! ## Batches -/

section Batches

variable [DecidableEq κ] {id : α → κ} {due : α → Bool} {before : α → α → Bool} {limit : ℕ}
  {t : List α} {locked ids : List κ}

/-- What the query checks of every row it selects. -/
theorem due_of_isBatch (h : isBatch id due before limit t locked ids = true) :
    ids.Nodup ∧ ∀ k ∈ ids, ∃ a ∈ t, id a = k ∧ due a = true := by
  simp only [isBatch, Bool.and_eq_true, decide_eq_true_eq, List.all_eq_true, List.any_eq_true] at h
  obtain ⟨⟨⟨hnodup, -⟩, hdue⟩, -⟩ := h
  exact ⟨hnodup, fun k hk => (hdue k hk).2⟩

/-- A due row that is neither locked nor selected comes after every selected row. -/
theorem before_of_isBatch (h : isBatch id due before limit t locked ids = true) {a b : α}
    (ha : a ∈ t) (hselected : id a ∈ ids) (hb : b ∈ t) (hdue : due b = true)
    (hfree : id b ∉ locked) (hleft : id b ∉ ids) : before a b = true := by
  simp only [isBatch, Bool.and_eq_true, List.all_eq_true, Bool.or_eq_true, Bool.not_eq_true',
    List.contains_iff_mem] at h
  rcases h.2 b hb with ((hnot | hlocked) | hin) | hbehind
  · rw [hdue] at hnot
    cases hnot
  · exact absurd hlocked hfree
  · exact absurd hin hleft
  · rcases hbehind.2 a ha with hout | hbefore
    · rw [List.contains_iff_mem.mpr hselected] at hout
      cases hout
    · exact hbefore

/-- A due row that is neither locked nor selected is only left out of a full batch. -/
theorem full_of_isBatch (h : isBatch id due before limit t locked ids = true) {b : α} (hb : b ∈ t)
    (hdue : due b = true) (hfree : id b ∉ locked) (hleft : id b ∉ ids) : ids.length = limit := by
  simp only [isBatch, Bool.and_eq_true, List.all_eq_true, Bool.or_eq_true, Bool.not_eq_true',
    List.contains_iff_mem, decide_eq_true_eq] at h
  rcases h.2 b hb with ((hnot | hlocked) | hin) | hbehind
  · rw [hdue] at hnot
    cases hnot
  · exact absurd hlocked hfree
  · exact absurd hin hleft
  · exact hbehind.1

theorem mem_withIds {a : α} (h : a ∈ withIds id t ids) : a ∈ t ∧ id a ∈ ids := by
  obtain ⟨k, hk, hfind⟩ := List.mem_filterMap.mp h
  have hid : id a = k := by simpa using List.find?_some hfind
  rw [hid]
  exact ⟨List.mem_of_find?_eq_some hfind, hk⟩

/-- A batch that leaves a due row out has selected `limit` rows. -/
theorem limit_le_countP (h : isBatch id due before limit t locked ids = true) {b : α} (hb : b ∈ t)
    (hdue : due b = true) (hfree : id b ∉ locked) (hleft : id b ∉ ids) :
    limit ≤ t.countP fun a => ids.contains (id a) := by
  obtain ⟨hnodup, hrows⟩ := due_of_isBatch h
  have hsubset : ids ⊆ (t.filter fun a => ids.contains (id a)).map id := by
    intro k hk
    obtain ⟨a, ha, rfl, -⟩ := hrows k hk
    exact List.mem_map_of_mem (List.mem_filter.mpr ⟨ha, List.contains_iff_mem.mpr hk⟩)
  rw [← full_of_isBatch h hb hdue hfree hleft, List.countP_eq_length_filter, ← List.length_map id]
  exact (hnodup.subperm hsubset).length_le

/-- No id is returned twice. -/
theorem map_withIds_sublist : ((withIds id t ids).map id).Sublist ids := by
  induction ids with
  | nil => exact List.Sublist.slnil
  | cons k ids ih =>
    cases hfind : t.find? fun a => id a = k with
    | none =>
      simp only [withIds, List.filterMap_cons, hfind]
      exact ih.cons k
    | some a =>
      have hid : id a = k := by simpa using List.find?_some hfind
      simp only [withIds, List.filterMap_cons, hfind, List.map_cons, hid]
      exact ih.cons_cons k

end Batches

/-! ## Rows after an `UPDATE` -/

@[simp] theorem update_nil (p : α → Bool) (f : α → α) : update p f [] = [] := rfl

theorem update_append (p : α → Bool) (f : α → α) (t t' : List α) :
    update p f (t ++ t') = update p f t ++ update p f t' := by simp [update]

theorem mem_update {p : α → Bool} {f : α → α} {t : List α} {r : α} :
    r ∈ update p f t ↔ ∃ x ∈ t, (if p x then f x else x) = r := by simp [update]

theorem mem_update_of_mem {p : α → Bool} {f : α → α} {t : List α} {x : α} (hx : x ∈ t) :
    (if p x then f x else x) ∈ update p f t := mem_update.mpr ⟨x, hx, rfl⟩

/-- A row the `WHERE` clause does not select stays in the table. -/
theorem mem_update_of_not {p : α → Bool} {f : α → α} {t : List α} {x : α} (hx : x ∈ t)
    (hp : p x = false) : x ∈ update p f t := mem_update.mpr ⟨x, hx, by simp [hp]⟩

/-- A selected row is in the table in its new form. -/
theorem mem_update_of_pos {p : α → Bool} {f : α → α} {t : List α} {x : α} (hx : x ∈ t)
    (hp : p x = true) : f x ∈ update p f t := mem_update.mpr ⟨x, hx, by simp [hp]⟩

/-- An `UPDATE` that selects no row changes nothing. -/
theorem update_eq_self {p : α → Bool} {f : α → α} {t : List α} (h : ∀ x ∈ t, p x = false) :
    update p f t = t := by
  rw [update]
  conv_rhs => rw [← List.map_id t]
  refine List.map_congr_left fun x hx => ?_
  simp [h x hx]

/-- A query that only one row answers finds that row. -/
theorem find?_eq_some_of_unique {p : α → Bool} {t : List α} {x : α} (hx : x ∈ t) (hp : p x = true)
    (hone : ∀ y ∈ t, p y = true → y = x) : t.find? p = some x := by
  cases hfind : t.find? p with
  | none => exact absurd hp (List.find?_eq_none.mp hfind x hx)
  | some y => rw [hone y (List.mem_of_find?_eq_some hfind) (List.find?_some hfind)]

/-- A query on columns the `SET` clause does not touch finds the same row, in its new form. -/
theorem find?_update {p q : α → Bool} {f : α → α} (hq : ∀ x, q (f x) = q x) (t : List α) :
    (update p f t).find? q = (t.find? q).map fun x => if p x then f x else x := by
  have hcomp : (q ∘ fun x => if p x then f x else x) = q := by
    funext x
    by_cases hp : p x = true
    · simp [hp, hq]
    · simp [hp]
  rw [update, List.find?_map, hcomp]

/-- A column the `SET` clause does not touch has the same values after an `UPDATE`. -/
theorem map_update {β : Type*} {p : α → Bool} {f : α → α} {t : List α} (g : α → β)
    (hg : ∀ x ∈ t, p x = true → g (f x) = g x) : (update p f t).map g = t.map g := by
  rw [update, List.map_map]
  refine List.map_congr_left fun x hx => ?_
  by_cases hp : p x = true
  · simp [hp, hg x hx hp]
  · simp [hp]

/-- An `UPDATE` seen through some columns is an `UPDATE` of those columns. -/
theorem map_update_of_comm {β : Type*} {g : α → β} {p : α → Bool} {f : α → α} {p' : β → Bool}
    {f' : β → β} (hp : ∀ x, p' (g x) = p x) (hf : ∀ x, p x = true → g (f x) = f' (g x))
    (t : List α) : (update p f t).map g = update p' f' (t.map g) := by
  rw [update, update, List.map_map, List.map_map]
  refine List.map_congr_left fun x _ => ?_
  by_cases hx : p x = true
  · simp [hx, hp, hf x hx]
  · simp [hx, hp]

/-- An `UPDATE` that brings no row under `q`. -/
theorem countP_update_le {p q : α → Bool} {f : α → α} {t : List α}
    (h : ∀ x ∈ t, p x = true → q (f x) = true → q x = true) :
    (update p f t).countP q ≤ t.countP q := by
  rw [update, List.countP_map]
  refine List.countP_mono_left fun x hx hq => ?_
  by_cases hp : p x = true
  · exact h x hx hp (by simpa [hp] using hq)
  · simpa [hp] using hq

/-- An `UPDATE` that brings no row under `q` and takes one away. -/
theorem countP_update_lt {p q : α → Bool} {f : α → α} {t : List α}
    (h : ∀ x ∈ t, p x = true → q (f x) = true → q x = true) {x : α} (hx : x ∈ t)
    (hp : p x = true) (hq : q x = true) (hfx : q (f x) = false) :
    (update p f t).countP q < t.countP q := by
  obtain ⟨l, l', rfl⟩ := List.append_of_mem hx
  have hl := countP_update_le (t := l) (f := f) fun y hy => h y (List.mem_append_left _ hy)
  have hl' := countP_update_le (t := l') (f := f) fun y hy =>
    h y (List.mem_append_right _ (List.mem_cons_of_mem _ hy))
  have hcons : update p f (x :: l') = f x :: update p f l' := by simp [update, hp]
  rw [update_append, hcons, List.countP_append, List.countP_append,
    List.countP_cons_of_neg (by simp [hfx]), List.countP_cons_of_pos hq]
  omega

/-- An `UPDATE` that takes every row it selects away from under `q`. -/
theorem countP_update_add {p q : α → Bool} {f : α → α} {t : List α}
    (h : ∀ x ∈ t, p x = true → q x = true ∧ q (f x) = false) :
    (update p f t).countP q + t.countP p = t.countP q := by
  induction t with
  | nil => rfl
  | cons x t ih =>
    have htail := ih fun y hy => h y (List.mem_cons_of_mem x hy)
    have hcons : update p f (x :: t) = (if p x then f x else x) :: update p f t := rfl
    rw [hcons, List.countP_cons, List.countP_cons, List.countP_cons]
    by_cases hp : p x = true
    · obtain ⟨hq, hfx⟩ := h x List.mem_cons_self hp
      rw [if_pos hp, hq, hfx, hp]
      simp only [Bool.false_eq_true, if_false, if_true]
      omega
    · rw [if_neg hp, eq_false_of_ne_true hp]
      simp only [Bool.false_eq_true, if_false]
      omega

/-- An `UPDATE` that finds nothing more to change in the rows it has changed can be repeated. -/
theorem update_update {p : α → Bool} {f : α → α}
    (h : ∀ x, p x = true → p (f x) = true → f (f x) = f x) (t : List α) :
    update p f (update p f t) = update p f t := by
  rw [update, update, List.map_map]
  refine List.map_congr_left fun x _ => ?_
  by_cases hx : p x = true
  · by_cases hfx : p (f x) = true
    · simp [hx, hfx, h x hx hfx]
    · simp [hx, hfx]
  · simp [hx]

/-- A row with a new value in a duplicate-free column keeps the column duplicate-free. -/
theorem nodup_map_append_singleton {t : List α} {r : α} {c : α → κ} (h : (t.map c).Nodup)
    (hr : c r ∉ t.map c) : ((t ++ [r]).map c).Nodup := by
  rw [List.map_append, List.map_singleton, ← List.concat_eq_append, List.nodup_concat]
  exact ⟨hr, h⟩

/-- A list has at most one element if any two are related and no two of its elements are. -/
theorem length_le_one_of_pairwise {R : α → α → Prop} {l : List α} (h : l.Pairwise R)
    (hR : ∀ a ∈ l, ∀ b ∈ l, ¬ R a b) : l.length ≤ 1 := by
  match l, h with
  | [], _ => simp
  | [_], _ => simp
  | a :: b :: l, h =>
    have hab : R a b := (List.pairwise_cons.mp h).1 b List.mem_cons_self
    exact absurd hab (hR a List.mem_cons_self b (List.mem_cons_of_mem _ List.mem_cons_self))

/-- At most one row has the value of a duplicate-free column that `q` asks for. -/
theorem length_filter_le_one {t : List α} {c : α → κ} {q : α → Bool} (h : (t.map c).Nodup)
    (hq : ∀ x ∈ t, ∀ y ∈ t, q x = true → q y = true → c x = c y) : (t.filter q).length ≤ 1 := by
  have hpair : (t.filter q).Pairwise fun x y => c x ≠ c y :=
    List.Pairwise.filter q (List.pairwise_map.mp h)
  refine length_le_one_of_pairwise hpair fun x hx y hy hne => ?_
  rw [List.mem_filter] at hx hy
  exact hne (hq x hx.1 y hy.1 hx.2 hy.2)

theorem length_filter_eq_one {t : List α} {c : α → κ} {q : α → Bool} (h : (t.map c).Nodup)
    (hq : ∀ x ∈ t, ∀ y ∈ t, q x = true → q y = true → c x = c y) {r : α} (hr : r ∈ t)
    (hqr : q r = true) : (t.filter q).length = 1 := by
  have hle := length_filter_le_one h hq
  have hpos : 0 < (t.filter q).length :=
    List.length_pos_of_mem (List.mem_filter.mpr ⟨hr, hqr⟩)
  omega

/-! ## Unique indexes -/

namespace UniqueIndex

variable {ix : UniqueIndex α κ}

/-- A row that does not conflict has a key of its own among the covered rows. -/
theorem ne_of_not_conflicts [DecidableEq κ] {t : List α} {r x : α}
    (h : ix.conflicts t r = false) (hr : ix.covers r = true) (hx : x ∈ t)
    (hcx : ix.covers x = true) : ix.key x ≠ ix.key r := by
  intro hkey
  simp only [conflicts, hr, Bool.true_and, List.any_eq_false, Bool.and_eq_true,
    decide_eq_true_eq, not_and] at h
  exact h x hx hcx hkey

/-- A row whose key no covered row has does not conflict. -/
theorem conflicts_eq_false [DecidableEq κ] {t : List α} {r : α}
    (h : ∀ x ∈ t, ix.covers x = true → ix.key x ≠ ix.key r) : ix.conflicts t r = false := by
  have hnone : (t.any fun x => ix.covers x && decide (ix.key x = ix.key r)) = false := by
    simpa only [List.any_eq_false, Bool.and_eq_true, decide_eq_true_eq, not_and] using h
  rw [conflicts, hnone, Bool.and_false]

theorem holds_nil : ix.Holds [] := List.Pairwise.nil

/-- An index over every row keeps its columns duplicate-free. -/
theorem holds_iff_nodup {t : List α} (hcovers : ∀ x, ix.covers x = true) :
    ix.Holds t ↔ (t.map ix.key).Nodup := by
  simp [Holds, List.Nodup, List.pairwise_map, hcovers]

theorem holds_append_singleton [DecidableEq κ] {t : List α} {r : α} (h : ix.Holds t)
    (hr : ix.conflicts t r = false) : ix.Holds (t ++ [r]) := by
  refine List.pairwise_append.mpr ⟨h, List.pairwise_singleton _ _, ?_⟩
  intro a ha b hb hca hcb hkey
  obtain rfl : b = r := by simpa using hb
  exact ne_of_not_conflicts hr hcb ha hca hkey

/-- A row that does not conflict with an index over every row has a new key. -/
theorem not_mem_keys_of_not_conflicts [DecidableEq κ] {t : List α} {r : α}
    (hcovers : ∀ x, ix.covers x = true) (h : ix.conflicts t r = false) :
    ix.key r ∉ t.map ix.key := by
  intro hmem
  obtain ⟨x, hx, hkey⟩ := List.mem_map.mp hmem
  exact ne_of_not_conflicts h (hcovers r) hx (hcovers x) hkey

/-- An `UPDATE` that changes no key and brings no row under the index keeps the index. -/
theorem holds_update {p : α → Bool} {f : α → α} {t : List α} (h : ix.Holds t)
    (hkey : ∀ x ∈ t, p x = true → ix.key (f x) = ix.key x)
    (hcov : ∀ x ∈ t, p x = true → ix.covers (f x) = true → ix.covers x = true) :
    ix.Holds (update p f t) := by
  have hk : ∀ x ∈ t, ix.key (if p x then f x else x) = ix.key x := by
    intro x hx
    by_cases hp : p x = true
    · simp [hp, hkey x hx hp]
    · simp [hp]
  have hc : ∀ x ∈ t, ix.covers (if p x then f x else x) = true → ix.covers x = true := by
    intro x hx hcx
    by_cases hp : p x = true
    · exact hcov x hx hp (by simpa [hp] using hcx)
    · simpa [hp] using hcx
  refine List.pairwise_map.mpr (List.Pairwise.imp_of_mem ?_ h)
  intro a b ha hb hab hca hcb
  rw [hk a ha, hk b hb]
  exact hab (hc a ha hca) (hc b hb hcb)

/-- Two covered rows with one key are the same row. -/
theorem Holds.eq_of_mem {t : List α} (h : ix.Holds t) {a b : α} (ha : a ∈ t) (hb : b ∈ t)
    (hca : ix.covers a = true) (hcb : ix.covers b = true) (hkey : ix.key a = ix.key b) :
    a = b := by
  by_contra hne
  have hsymm : Std.Symm fun x y : α => ix.covers x → ix.covers y → ix.key x ≠ ix.key y :=
    { symm := fun x y hxy hy hx hk => hxy hx hy hk.symm }
  exact List.Pairwise.forall h ha hb hne hca hcb hkey

/-- At most one row is covered and has the key `k`. -/
theorem Holds.length_filter_le_one {t : List α} (h : ix.Holds t) {q : α → Bool} {k : κ}
    (hq : ∀ x ∈ t, q x = true → ix.covers x = true ∧ ix.key x = k) :
    (t.filter q).length ≤ 1 := by
  have hpair : (t.filter q).Pairwise fun a b => ix.covers a → ix.covers b → ix.key a ≠ ix.key b :=
    List.Pairwise.filter q h
  refine length_le_one_of_pairwise hpair fun a ha b hb hne => ?_
  rw [List.mem_filter] at ha hb
  obtain ⟨hca, hka⟩ := hq a ha.1 ha.2
  obtain ⟨hcb, hkb⟩ := hq b hb.1 hb.2
  exact hne hca hcb (hka.trans hkb.symm)

end UniqueIndex

end Table
