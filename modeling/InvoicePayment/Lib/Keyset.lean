import Mathlib.Data.List.Sort

/-!
# Keyset pagination

A listing of a table by a key that no two rows share, the greatest key first. `select` is the
query behind a page, `IsPage` what one page is of the rows it was taken from, and `IsWalk` a
walk: every page is taken from the rows of its moment, below the key of the last row of the page
before. The table may be another one for every page; the results on walks say what is returned
all the same.
-/

namespace Keyset

variable {α κ : Type*} [LinearOrder κ] {key : α → κ} {cursor : Option κ}

/-- The row is listed after the cursor. -/
def isBelow (key : α → κ) (cursor : Option κ) (r : α) : Bool := cursor.all fun c => key r < c

/-- `WHERE key < cursor ORDER BY key DESC LIMIT n`, of the rows that match otherwise. -/
def select (key : α → κ) (n : ℕ) (cursor : Option κ) (t : List α) : List α :=
  ((t.filter (isBelow key cursor)).insertionSort fun a b => key b ≤ key a).take n

/-- What a page of at most `limit` rows, fetched after `cursor`, has to be: rows of the table in
descending order, and everything there is if no cursor comes with it. -/
structure IsPage (key : α → κ) (t : List α) (limit : ℕ) (cursor : Option κ) (data : List α)
    (next : Option κ) : Prop where
  decreasing : data.Pairwise fun a b => key b < key a
  listed : ∀ r ∈ data, r ∈ t ∧ isBelow key cursor r = true
  bounded : data.length ≤ limit
  last : ∀ c, next = some c → (∃ r ∈ data, key r = c) ∧ ∀ r ∈ data, c ≤ key r
  complete : ∀ r ∈ t, isBelow key cursor r = true → r ∈ data ∨ ∃ c, next = some c ∧ key r < c

/-- One page request: the rows at that moment, the limit, and what came back. -/
structure Visit (α κ : Type*) where
  rows : List α
  limit : ℕ
  data : List α
  next : Option κ

/-- A walk follows the cursor of every page to the next one, until there is none. It may be
abandoned at any point. -/
inductive IsWalk (key : α → κ) : Option κ → List (Visit α κ) → Prop
  | nil (cursor : Option κ) : IsWalk key cursor []
  | last {cursor : Option κ} {v : Visit α κ}
      (page : IsPage key v.rows v.limit cursor v.data v.next) (hnext : v.next = none) :
      IsWalk key cursor [v]
  | next {cursor : Option κ} {c : κ} {v : Visit α κ} {vs : List (Visit α κ)}
      (page : IsPage key v.rows v.limit cursor v.data v.next) (hnext : v.next = some c)
      (rest : IsWalk key (some c) vs) : IsWalk key cursor (v :: vs)

/-- The rows of all pages, in the order they came. -/
def returned (vs : List (Visit α κ)) : List α := vs.flatMap Visit.data

/-- The walk came to a page without a cursor. -/
def Ended (vs : List (Visit α κ)) : Prop := ∃ v ∈ vs, v.next = none

/-! ## The query -/

/-- Rows with keys of their own come in strictly descending order. -/
theorem pairwise_sorted {t : List α} (hkey : (t.map key).Nodup) :
    ((t.filter (isBelow key cursor)).insertionSort fun a b => key b ≤ key a).Pairwise
      fun a b => key b < key a := by
  have htotal : Std.Total fun a b : α => key b ≤ key a := ⟨fun a b => le_total (key b) (key a)⟩
  have htrans : IsTrans α fun a b => key b ≤ key a := ⟨fun a b c hab hbc => hbc.trans hab⟩
  have hperm := List.perm_insertionSort (fun a b : α => key b ≤ key a)
    (t.filter (isBelow key cursor))
  have hnodup : (((t.filter (isBelow key cursor)).insertionSort
      fun a b => key b ≤ key a).map key).Nodup := by
    rw [(hperm.map key).nodup_iff]
    exact hkey.sublist (List.filter_sublist.map key)
  have hsorted := List.pairwise_insertionSort (fun a b : α => key b ≤ key a)
    (t.filter (isBelow key cursor))
  refine (hsorted.and (List.pairwise_map.mp hnodup)).imp fun h => ?_
  exact lt_of_le_of_ne h.1 (Ne.symm h.2)

/-- The query depends on the rows alone, not on the order they are in. -/
theorem select_eq_of_perm {t t' : List α} (h : t.Perm t') (hkey : (t.map key).Nodup) (n : ℕ) :
    select key n cursor t = select key n cursor t' := by
  have hkey' : (t'.map key).Nodup := (h.map key).nodup_iff.mp hkey
  have hperm : ((t.filter (isBelow key cursor)).insertionSort fun a b => key b ≤ key a).Perm
      ((t'.filter (isBelow key cursor)).insertionSort fun a b => key b ≤ key a) :=
    (List.perm_insertionSort _ _).trans
      ((h.filter _).trans (List.perm_insertionSort _ _).symm)
  have heq := hperm.eq_of_pairwise (fun a b _ _ hab hba => absurd hab (lt_asymm hba))
    (pairwise_sorted hkey) (pairwise_sorted hkey')
  rw [select, select, heq]

/-- Fetch one row more than the limit; if it is there, keep the limit and go on after the last
row kept. -/
theorem isPage_select {t : List α} (hkey : (t.map key).Nodup) {limit : ℕ} (hlimit : 0 < limit) :
    IsPage key t limit cursor ((select key (limit + 1) cursor t).take limit)
      (if limit < (select key (limit + 1) cursor t).length then
        (select key (limit + 1) cursor t)[limit - 1]?.map key else none) := by
  unfold select
  have hsorted : ((t.filter (isBelow key cursor)).insertionSort fun a b => key b ≤ key a).Pairwise
      fun a b => key b < key a := pairwise_sorted hkey
  have hmem : ∀ r, r ∈ (t.filter (isBelow key cursor)).insertionSort
      (fun a b => key b ≤ key a) ↔ r ∈ t ∧ isBelow key cursor r = true := by
    intro r
    rw [List.mem_insertionSort, List.mem_filter]
  generalize (t.filter (isBelow key cursor)).insertionSort (fun a b => key b ≤ key a) = rows
    at hsorted hmem
  have htake : (rows.take (limit + 1)).take limit = rows.take limit := by
    rw [List.take_take, min_eq_left (Nat.le_succ limit)]
  have hlast : (rows.take (limit + 1))[limit - 1]? = rows[limit - 1]? :=
    List.getElem?_take_of_lt (by omega)
  rw [htake, hlast]
  refine
    { decreasing := hsorted.sublist (List.take_sublist _ _)
      listed := fun r hr => (hmem r).mp (List.mem_of_mem_take hr)
      bounded := List.length_take_le _ _
      last := ?_
      complete := ?_ }
  · intro c hc
    split_ifs at hc with hmore
    obtain ⟨last, hget, rfl⟩ := Option.map_eq_some_iff.mp hc
    obtain ⟨hlt, rfl⟩ := List.getElem?_eq_some_iff.mp hget
    have hkept : limit - 1 < (rows.take limit).length := by
      rw [List.length_take]
      omega
    have heq : (rows.take limit)[limit - 1] = rows[limit - 1] := List.getElem_take
    refine ⟨⟨_, heq ▸ List.getElem_mem hkept, rfl⟩, fun r hr => ?_⟩
    -- the last row kept has the least key of the page
    obtain ⟨i, hi, rfl⟩ := List.mem_iff_getElem.mp hr
    have hi' : i < limit := by
      rw [List.length_take] at hi
      omega
    rw [List.getElem_take]
    rcases Nat.lt_or_ge i (limit - 1) with hlt' | hge
    · exact (List.pairwise_iff_getElem.mp hsorted _ _ _ hlt hlt').le
    · obtain rfl : i = limit - 1 := by omega
      exact le_refl _
  · intro r hr hbelow
    obtain ⟨i, hi, rfl⟩ := List.mem_iff_getElem.mp ((hmem r).mpr ⟨hr, hbelow⟩)
    by_cases hi' : i < limit
    · exact Or.inl (List.mem_take_iff_getElem.mpr ⟨i, by omega, rfl⟩)
    · -- a row the page leaves out comes after the last one it keeps
      have hmore : limit < (rows.take (limit + 1)).length := by
        rw [List.length_take]
        omega
      have hget : rows[limit - 1]? = some rows[limit - 1] := List.getElem?_eq_getElem (by omega)
      refine Or.inr ⟨key rows[limit - 1], by rw [if_pos hmore, hget, Option.map_some], ?_⟩
      exact List.pairwise_iff_getElem.mp hsorted _ _ _ _ (by omega)

/-- The page as it is shown: the rows in another form that keeps their keys. -/
theorem IsPage.map {β : Type*} {t data : List α} {limit : ℕ} {next : Option κ} {f : α → β}
    {key' : β → κ} (h : IsPage key t limit cursor data next) (hkey : ∀ r, key' (f r) = key r) :
    IsPage key' (t.map f) limit cursor (data.map f) next := by
  have hbelow : ∀ r, isBelow key' cursor (f r) = isBelow key cursor r := by
    intro r
    simp only [isBelow, hkey]
  refine
    { decreasing := ?_
      listed := ?_
      bounded := by
        rw [List.length_map]
        exact h.bounded
      last := ?_
      complete := ?_ }
  · rw [List.pairwise_map]
    simpa only [hkey] using h.decreasing
  · intro r' hr'
    obtain ⟨r, hr, rfl⟩ := List.mem_map.mp hr'
    rw [hbelow]
    exact ⟨List.mem_map_of_mem (h.listed r hr).1, (h.listed r hr).2⟩
  · intro c hc
    obtain ⟨⟨r, hr, hrc⟩, hle⟩ := h.last c hc
    refine ⟨⟨f r, List.mem_map_of_mem hr, (hkey r).trans hrc⟩, fun r' hr' => ?_⟩
    obtain ⟨r, hr, rfl⟩ := List.mem_map.mp hr'
    rw [hkey]
    exact hle r hr
  · intro r' hr' hr'below
    obtain ⟨r, hr, rfl⟩ := List.mem_map.mp hr'
    rw [hbelow] at hr'below
    rw [hkey]
    exact (h.complete r hr hr'below).imp List.mem_map_of_mem id

/-! ## Walks -/

theorem isBelow_of_lt {c : κ} {r : α} (h : isBelow key (some c) r = true) : key r < c :=
  of_decide_eq_true h

theorem isBelow_of_forall {r : α} (h : ∀ c, cursor = some c → key r < c) :
    isBelow key cursor r = true := by
  cases cursor with
  | none => rfl
  | some c => exact decide_eq_true (h c rfl)

theorem isBelow_trans {c : κ} {r r' : α} (hr : key r = c) (hbelow : isBelow key cursor r = true)
    (h : key r' < c) : isBelow key cursor r' = true := by
  refine isBelow_of_forall fun d hd => ?_
  subst hd
  exact h.trans (hr ▸ isBelow_of_lt hbelow)

namespace IsWalk

variable {vs : List (Visit α κ)}

/-- Every row returned is a row of its moment. -/
theorem listed (h : IsWalk key cursor vs) : ∀ v ∈ vs, ∀ r ∈ v.data, r ∈ v.rows := by
  induction h with
  | nil cursor => simp
  | last page hnext =>
    intro v hv r hr
    obtain rfl := List.mem_singleton.mp hv
    exact (page.listed r hr).1
  | next page hnext rest ih =>
    intro v hv r hr
    rcases List.mem_cons.mp hv with rfl | hv
    · exact (page.listed r hr).1
    · exact ih v hv r hr

theorem bounded (h : IsWalk key cursor vs) : ∀ v ∈ vs, v.data.length ≤ v.limit := by
  induction h with
  | nil cursor => simp
  | last page hnext =>
    intro v hv
    obtain rfl := List.mem_singleton.mp hv
    exact page.bounded
  | next page hnext rest ih =>
    intro v hv
    rcases List.mem_cons.mp hv with rfl | hv
    · exact page.bounded
    · exact ih v hv

/-- A walk stays below the cursor it starts from. -/
theorem isBelow_returned (h : IsWalk key cursor vs) :
    ∀ r ∈ returned vs, isBelow key cursor r = true := by
  induction h with
  | nil cursor => simp [returned]
  | last page hnext =>
    intro r hr
    rw [returned, List.flatMap_singleton] at hr
    exact (page.listed r hr).2
  | next page hnext rest ih =>
    intro r hr
    rw [returned, List.flatMap_cons, List.mem_append] at hr
    rcases hr with hr | hr
    · exact (page.listed r hr).2
    · obtain ⟨⟨last, hlast, hkey⟩, -⟩ := page.last _ hnext
      exact isBelow_trans hkey (page.listed last hlast).2 (isBelow_of_lt (ih r hr))

/-- A walk returns its rows in strictly descending order, over all pages. -/
theorem decreasing (h : IsWalk key cursor vs) :
    (returned vs).Pairwise fun a b => key b < key a := by
  induction h with
  | nil cursor => exact List.Pairwise.nil
  | last page hnext =>
    rw [returned, List.flatMap_singleton]
    exact page.decreasing
  | next page hnext rest ih =>
    rw [returned, List.flatMap_cons]
    refine List.pairwise_append.mpr ⟨page.decreasing, ih, fun a ha b hb => ?_⟩
    exact lt_of_lt_of_le (isBelow_of_lt (rest.isBelow_returned b hb)) ((page.last _ hnext).2 a ha)

/-- A key that some row has at every page request of a finished walk is returned. -/
theorem complete (h : IsWalk key cursor vs) (hended : Ended vs) {k : κ}
    (hbelow : ∀ c, cursor = some c → k < c)
    (hrows : ∀ v ∈ vs, ∃ r ∈ v.rows, key r = k) : ∃ r ∈ returned vs, key r = k := by
  induction h with
  | nil cursor =>
    obtain ⟨v, hv, -⟩ := hended
    exact absurd hv List.not_mem_nil
  | @last cursor v page hnext =>
    obtain ⟨r, hr, rfl⟩ := hrows v List.mem_cons_self
    have hr' : isBelow key cursor r = true := isBelow_of_forall hbelow
    rw [returned, List.flatMap_singleton]
    rcases page.complete r hr hr' with hdata | ⟨c, hc, -⟩
    · exact ⟨r, hdata, rfl⟩
    · rw [hnext] at hc
      cases hc
  | @next cursor c v vs page hnext rest ih =>
    obtain ⟨r, hr, rfl⟩ := hrows v List.mem_cons_self
    have hr' : isBelow key cursor r = true := isBelow_of_forall hbelow
    rw [returned, List.flatMap_cons]
    rcases page.complete r hr hr' with hdata | ⟨c', hc', hlt⟩
    · exact ⟨r, List.mem_append_left _ hdata, rfl⟩
    · obtain rfl : c' = c := Option.some.inj (hc'.symm.trans hnext)
      have hended' : Ended vs := by
        obtain ⟨u, hu, hnone⟩ := hended
        rcases List.mem_cons.mp hu with rfl | hu
        · rw [hnext] at hnone
          cases hnone
        · exact ⟨u, hu, hnone⟩
      have hbelow' : ∀ d, some c' = some d → key r < d := by
        rintro d ⟨⟩
        exact hlt
      obtain ⟨r', hr', hkey⟩ :=
        ih hended' hbelow' fun v' hv' => hrows v' (List.mem_cons_of_mem _ hv')
      exact ⟨r', List.mem_append_right _ hr', hkey⟩

/-- When a page comes without a cursor, no row is left below what the walk has returned. -/
theorem exhausted (h : IsWalk key cursor vs) :
    ∀ v ∈ vs, v.next = none → ∀ r ∈ v.rows, (∀ r' ∈ returned vs, key r < key r') →
      isBelow key cursor r = false := by
  induction h with
  | nil cursor => simp
  | @last cursor v page hnext =>
    intro v' hv' _ r hr hleft
    obtain rfl := List.mem_singleton.mp hv'
    by_contra hbelow
    rcases page.complete r hr (by simpa using hbelow) with hdata | ⟨c, hc, -⟩
    · exact absurd (hleft r (by rwa [returned, List.flatMap_singleton])) (lt_irrefl _)
    · rw [hnext] at hc
      cases hc
  | @next cursor c v vs page hnext rest ih =>
    intro v' hv' hnone r hr hleft
    rcases List.mem_cons.mp hv' with rfl | hv'
    · rw [hnext] at hnone
      cases hnone
    · -- the last row of this page is returned, so what is left is below its key
      have hleft' : ∀ r' ∈ returned vs, key r < key r' := fun r' hr' =>
        hleft r' (by rw [returned, List.flatMap_cons]; exact List.mem_append_right _ hr')
      have hbelow := ih v' hv' hnone r hr hleft'
      obtain ⟨⟨last, hlast, hkey⟩, -⟩ := page.last _ hnext
      have hlt : key r < c := by
        rw [← hkey]
        exact hleft last (by rw [returned, List.flatMap_cons]; exact List.mem_append_left _ hlast)
      rw [isBelow, Option.all_some, decide_eq_false_iff_not] at hbelow
      exact absurd hlt hbelow

/-- Every page but the last has a row. -/
theorem length_le_returned (h : IsWalk key cursor vs) (hopen : ¬ Ended vs) :
    vs.length ≤ (returned vs).length := by
  induction h with
  | nil cursor => simp
  | @last cursor v page hnext => exact absurd ⟨v, List.mem_cons_self, hnext⟩ hopen
  | @next cursor c v vs page hnext rest ih =>
    have hopen' : ¬ Ended vs := fun ⟨u, hu, hnone⟩ =>
      hopen ⟨u, List.mem_cons_of_mem _ hu, hnone⟩
    obtain ⟨⟨last, hlast, -⟩, -⟩ := page.last _ hnext
    have hpos : 0 < v.data.length := List.length_pos_of_mem hlast
    have hrest := ih hopen'
    rw [returned, List.flatMap_cons, List.length_append, List.length_cons]
    rw [returned] at hrest
    omega

/-- On a table that does not change, a walk that has not ended has fewer pages than the table
has rows to return. -/
theorem length_le (h : IsWalk key cursor vs) {t : List α} (ht : ∀ v ∈ vs, v.rows = t)
    (hopen : ¬ Ended vs) : vs.length ≤ t.length := by
  have hnodup : (returned vs).Nodup := h.decreasing.imp fun hlt heq => by
    rw [heq] at hlt
    exact lt_irrefl _ hlt
  have hsub : returned vs ⊆ t := by
    intro r hr
    obtain ⟨v, hv, hdata⟩ := List.mem_flatMap.mp hr
    exact ht v hv ▸ h.listed v hv r hdata
  exact (h.length_le_returned hopen).trans (List.subperm_of_subset hnodup hsub).length_le

end IsWalk

end Keyset
