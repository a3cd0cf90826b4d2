import Mathlib.Algebra.Order.Monoid.Defs
import Mathlib.Algebra.Order.Monoid.Unbundled.Pow
import Mathlib.Data.List.Count

/-!
# Greedy schedules

Jobs handed out in order to a fixed number of slots, each to the slot that frees first.
`finish` is the time each job ends and `slots` what becomes of the slots. `finish_le` bounds
the ends when no job takes longer than `D`, a round of the slots at a time, and
`finish_replicate` says that jobs which all take `D` reach the bound.
-/

namespace Schedule

variable {T : Type*} [LinearOrder T]

/-- There is a slot that frees first. -/
theorem exists_min {free : List T} (h : free ≠ []) :
    ∃ m, free.min? = some m ∧ m ∈ free ∧ ∀ x ∈ free, m ≤ x := by
  cases hm : free.min? with
  | none => exact absurd (List.min?_eq_none_iff.mp hm) h
  | some m =>
    obtain ⟨hmem, hle⟩ := List.min?_eq_some_iff.mp hm
    exact ⟨m, rfl, hmem, hle⟩

/-- A job keeps the number of slots. -/
theorem length_place {free : List T} {m : T} (hm : m ∈ free) (t : T) :
    (free.erase m ++ [t]).length = free.length := by
  have hpos : 0 < free.length := List.length_pos_of_mem hm
  rw [List.length_append, List.length_erase_of_mem hm, List.length_singleton]
  omega

variable [AddCommMonoid T]

/-- When the jobs of the durations `ds` end, the slots being free from the times `free` on. -/
def finish : List T → List T → List T
  | _, [] => []
  | free, d :: ds =>
    match free.min? with
    | none => []
    | some m => (m + d) :: finish (free.erase m ++ [m + d]) ds

/-- When the slots are free after these jobs. -/
def slots : List T → List T → List T
  | free, [] => free
  | free, d :: ds =>
    match free.min? with
    | none => []
    | some m => slots (free.erase m ++ [m + d]) ds

@[simp] theorem finish_nil (free : List T) : finish free [] = [] := by rw [finish]

@[simp] theorem slots_nil (free : List T) : slots free [] = free := by rw [slots]

theorem finish_cons {free : List T} {m : T} (hm : free.min? = some m) (d : T) (ds : List T) :
    finish free (d :: ds) = (m + d) :: finish (free.erase m ++ [m + d]) ds := by
  rw [finish, hm]

theorem slots_cons {free : List T} {m : T} (hm : free.min? = some m) (d : T) (ds : List T) :
    slots free (d :: ds) = slots (free.erase m ++ [m + d]) ds := by
  rw [slots, hm]

theorem length_slots {free : List T} (h : free ≠ []) (ds : List T) :
    (slots free ds).length = free.length := by
  induction ds generalizing free with
  | nil => rw [slots_nil]
  | cons d ds ih =>
    obtain ⟨m, hm, hmem, -⟩ := exists_min h
    rw [slots_cons hm, ih (by simp), length_place hmem]

theorem finish_append {free : List T} (h : free ≠ []) (ds ds' : List T) :
    finish free (ds ++ ds') = finish free ds ++ finish (slots free ds) ds' := by
  induction ds generalizing free with
  | nil => rw [List.nil_append, finish_nil, slots_nil, List.nil_append]
  | cons d ds ih =>
    obtain ⟨m, hm, -, -⟩ := exists_min h
    rw [List.cons_append, finish_cons hm, finish_cons hm, slots_cons hm, ih (by simp),
      List.cons_append]

/-! ## The upper bound -/

section Bound

variable [IsOrderedAddMonoid T] {D x : T}

/-- One round: as many jobs as there are slots free by the time `x` all end by `x + D`. -/
theorem round {free ds : List T} (hds : ∀ d ∈ ds, d ≤ D)
    (hcount : ds.length ≤ free.countP fun y => decide (y ≤ x))
    (hall : ∀ y ∈ free, y ≤ x + D) :
    (∀ e ∈ finish free ds, e ≤ x + D) ∧ ∀ y ∈ slots free ds, y ≤ x + D := by
  induction ds generalizing free with
  | nil => simpa using hall
  | cons d ds ih =>
    rw [List.length_cons] at hcount
    -- a slot is still free by the time `x`, so the first one to be free is
    obtain ⟨y, hy, hyx⟩ := List.countP_pos_iff.mp (Nat.lt_of_lt_of_le (Nat.succ_pos _) hcount)
    obtain ⟨m, hm, hmem, hmin⟩ := exists_min (List.ne_nil_of_mem hy)
    have hmx : m ≤ x := (hmin y hy).trans (of_decide_eq_true hyx)
    have hend : m + d ≤ x + D := add_le_add hmx (hds d List.mem_cons_self)
    have hcount' : ds.length ≤
        (free.erase m ++ [m + d]).countP fun y => decide (y ≤ x) := by
      rw [List.countP_append, List.countP_erase]
      split_ifs <;> omega
    have hall' : ∀ z ∈ free.erase m ++ [m + d], z ≤ x + D := by
      intro z hz
      rcases List.mem_append.mp hz with hz | hz
      · exact hall z (List.mem_of_mem_erase hz)
      · rw [List.mem_singleton.mp hz]
        exact hend
    obtain ⟨hfinish, hslots⟩ := ih (fun d hd => hds d (List.mem_cons_of_mem _ hd)) hcount' hall'
    rw [finish_cons hm, slots_cons hm]
    refine ⟨fun e he => ?_, hslots⟩
    rcases List.mem_cons.mp he with rfl | he
    · exact hend
    · exact hfinish e he

/-- Jobs of `n` rounds end within `n` times the longest duration. -/
theorem finish_le (hD : 0 ≤ D) {free : List T} (h : free ≠ []) {n : ℕ} {ds : List T}
    (hds : ∀ d ∈ ds, d ≤ D) (hlen : ds.length ≤ n * free.length) (hfree : ∀ y ∈ free, y ≤ x) :
    ∀ e ∈ finish free ds, e ≤ x + n • D := by
  induction n generalizing free ds x with
  | zero =>
    have hnil : ds = [] := List.length_eq_zero_iff.mp (by omega)
    rw [hnil, finish_nil]
    simp
  | succ n ih =>
    -- the first round, and the rest after it
    have hall : ∀ y ∈ free, y ≤ x + D := fun y hy => (hfree y hy).trans (le_add_of_nonneg_right hD)
    have hcount : (ds.take free.length).length ≤ free.countP fun y => decide (y ≤ x) := by
      rw [List.countP_eq_length.mpr fun y hy => decide_eq_true (hfree y hy)]
      exact List.length_take_le _ _
    obtain ⟨hfinish, hslots⟩ := round (fun d hd => hds d (List.mem_of_mem_take hd)) hcount hall
    have hlength := length_slots h (ds.take free.length)
    have hne : slots free (ds.take free.length) ≠ [] := by
      intro hnil
      rw [hnil, List.length_nil] at hlength
      exact h (List.length_eq_zero_iff.mp hlength.symm)
    have hrest : (ds.drop free.length).length ≤
        n * (slots free (ds.take free.length)).length := by
      rw [hlength, List.length_drop]
      rw [Nat.succ_mul] at hlen
      omega
    intro e he
    rw [← List.take_append_drop free.length ds, finish_append h, List.mem_append] at he
    rw [succ_nsmul', ← add_assoc]
    rcases he with he | he
    · exact (hfinish e he).trans (le_add_of_nonneg_right (nsmul_nonneg hD n))
    · exact ih hne (fun d hd => hds d (List.mem_of_mem_drop hd)) hrest hslots e he

/-! ## Jobs of one length -/

/-- Part of a round of jobs that all take `D`: the slots form a queue. -/
theorem finish_replicate_append (hD : 0 ≤ D) (c a b : ℕ) (ds : List T) :
    finish (List.replicate (c + a) x ++ List.replicate b (x + D)) (List.replicate a D ++ ds) =
      List.replicate a (x + D) ++
        finish (List.replicate c x ++ List.replicate (b + a) (x + D)) ds := by
  induction a generalizing b with
  | zero => simp
  | succ a ih =>
    have hm : (List.replicate (c + (a + 1)) x ++ List.replicate b (x + D)).min? = some x := by
      rw [List.min?_eq_some_iff]
      refine ⟨by simp, fun y hy => ?_⟩
      rcases List.mem_append.mp hy with hy | hy
      · exact (List.eq_of_mem_replicate hy).ge
      · rw [List.eq_of_mem_replicate hy]
        exact le_add_of_nonneg_right hD
    have hplace : (List.replicate (c + (a + 1)) x ++ List.replicate b (x + D)).erase x ++ [x + D] =
        List.replicate (c + a) x ++ List.replicate (b + 1) (x + D) := by
      rw [← Nat.add_assoc, List.replicate_succ, List.cons_append, List.erase_cons_head,
        List.append_assoc, List.replicate_succ']
    have hjobs : List.replicate (a + 1) D ++ ds = D :: (List.replicate a D ++ ds) := rfl
    have hslots : b + 1 + a = b + (a + 1) := by omega
    rw [hjobs, finish_cons hm, hplace, ih (b + 1), hslots]
    rfl

/-- Of jobs that all take `D`, those of the round `q` end at `x + (q + 1) • D`. -/
theorem finish_replicate (hD : 0 ≤ D) {k r : ℕ} (hr : r < k) {q n : ℕ} (hn : q * k + r < n) :
    (finish (List.replicate k x) (List.replicate n D))[q * k + r]? =
      some (x + (q + 1) • D) := by
  induction q generalizing x n with
  | zero =>
    rw [Nat.zero_mul, Nat.zero_add] at hn ⊢
    obtain ⟨c, rfl⟩ : ∃ c, k = c + (r + 1) := ⟨k - (r + 1), by omega⟩
    obtain ⟨m, rfl⟩ : ∃ m, n = (r + 1) + m := ⟨n - (r + 1), by omega⟩
    have hround := finish_replicate_append (x := x) hD c (r + 1) 0 (List.replicate m D)
    rw [List.replicate_zero, List.append_nil, List.replicate_append_replicate] at hround
    rw [hround, List.getElem?_append_left (by simp), List.getElem?_replicate_of_lt (by omega),
      Nat.zero_add, one_nsmul]
  | succ q ih =>
    -- the first round, then `q` more
    rw [Nat.succ_mul] at hn
    obtain ⟨m, rfl⟩ : ∃ m, n = k + m := ⟨n - k, by omega⟩
    have hround := finish_replicate_append (x := x) hD 0 k 0 (List.replicate m D)
    rw [List.replicate_zero, List.append_nil, List.replicate_zero, List.nil_append, Nat.zero_add,
      List.replicate_append_replicate] at hround
    have hindex : (q + 1) * k + r - k = q * k + r := by
      rw [Nat.succ_mul]
      omega
    have hle : (List.replicate k (x + D)).length ≤ (q + 1) * k + r := by
      rw [List.length_replicate, Nat.succ_mul]
      omega
    rw [hround, List.getElem?_append_right hle, List.length_replicate, hindex, ih (by omega),
      succ_nsmul' D (q + 1), add_assoc]

end Bound

end Schedule
