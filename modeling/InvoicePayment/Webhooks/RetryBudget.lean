import InvoicePayment.Webhooks.TerminalOutcomes

/-!
# The retry budget

The claim raises `attempts` and takes a delivery without looking at it; the budget is compared
only when a failure is written. `attemptsOf_trace` says that the counter counts the claims since
the last manual replay, so the budget is kept exactly as long as no claim takes an expired or a
failed delivery whose budget is used up (`retry_budget_iff`). A worker that crashes in the last
attempt leaves such a delivery behind.
-/

namespace InvoicePayment.Webhooks

variable {maxAttempts : Int} {s s' : State} {l : Label}

/-- The step claims the delivery for sending. -/
def Claims (id : Uuid) (x : Step) : Bool :=
  match x.label with
  | .claim _ _ ids => ids.contains id
  | _ => false

/-- The step replays the delivery by hand. -/
def Replays (id : Uuid) (x : Step) : Bool :=
  match x.label with
  | .redeliver _ deliveryId => deliveryId = id
  | _ => false

/-- While it is not replayed, a delivery is claimed at most `maxAttempts` times. -/
def ClaimsWithin (maxAttempts : Int) (xs : List Step) : Prop :=
  ∀ id front window after, xs = front ++ window ++ after →
    (∀ x ∈ window, Replays id x = false) → (window.countP (Claims id) : Int) ≤ maxAttempts

/-- No stored counter exceeds the budget. -/
def CountersWithin (maxAttempts : Int) (s : State) : Prop :=
  ∀ d ∈ s.db.webhookDeliveries, d.attempts ≤ maxAttempts

/-- A delivery in flight under an expired lease, or failed, is only claimed while it has
attempts left. -/
def RetriesWithin (maxAttempts : Int) (x : Step) : Prop :=
  ∀ w locked ids, x.label = .claim w locked ids → ∀ d ∈ x.pre.db.webhookDeliveries, d.id ∈ ids →
    d.status = .inFlight ∨ d.status = .failed → d.attempts < maxAttempts

/-! ## The counter counts the claims -/

/-- The counter of a delivery, zero before the delivery is there. -/
def attemptsOf (s : State) (id : Uuid) : Int :=
  ((s.db.webhookDeliveries.find? fun d => d.id = id).map WebhookDelivery.attempts).getD 0

theorem attemptsOf_nonneg (h : ∀ d ∈ s.db.webhookDeliveries, 0 ≤ d.attempts) (id : Uuid) :
    0 ≤ attemptsOf s id := by
  unfold attemptsOf
  cases hfind : s.db.webhookDeliveries.find? fun d => d.id = id with
  | none => exact Int.le_refl 0
  | some d => exact h d (List.mem_of_find?_eq_some hfind)

theorem attemptsOf_le (hmax : 0 ≤ maxAttempts) (h : CountersWithin maxAttempts s) (id : Uuid) :
    attemptsOf s id ≤ maxAttempts := by
  unfold attemptsOf
  cases hfind : s.db.webhookDeliveries.find? fun d => d.id = id with
  | none => exact hmax
  | some d => exact h d (List.mem_of_find?_eq_some hfind)

/-- An `UPDATE` that keeps the counter of the delivery. -/
theorem attemptsOf_update {p : WebhookDelivery → Bool} {f : WebhookDelivery → WebhookDelivery}
    (hrows : s'.db.webhookDeliveries = Table.update p f s.db.webhookDeliveries)
    (hf : ∀ d, (f d).id = d.id) {id : Uuid}
    (hattempts : ∀ d, d.id = id → p d = true → (f d).attempts = d.attempts) :
    attemptsOf s' id = attemptsOf s id := by
  rw [attemptsOf, attemptsOf, hrows, Table.find?_update (fun d => by rw [hf d])]
  cases hfind : s.db.webhookDeliveries.find? fun d => d.id = id with
  | none => rfl
  | some d =>
    have hid : d.id = id := by simpa using List.find?_some hfind
    simp only [Option.map_some, Option.getD_some]
    split_ifs with hp
    · exact hattempts d hid hp
    · rfl

/-- The claim of a delivery raises its counter by one, and nothing but a replay lowers it. -/
theorem attemptsOf_step (he : Effect maxAttempts s l s') {id : Uuid}
    (hreplay : Replays id ⟨s, l, s'⟩ = false) :
    attemptsOf s' id = attemptsOf s id + if Claims id ⟨s, l, s'⟩ then 1 else 0 := by
  cases he with
  | advance _ => exact (Int.add_zero _).symm
  | register _ => exact (Int.add_zero _).symm
  | emit _ => exact (Int.add_zero _).symm
  | fanOut hfan =>
    obtain ⟨rows, hinsert, rfl⟩ := Dispatcher.fanOut_eq_ok hfan
    obtain ⟨⟨new, rfl⟩, -⟩ := Dispatcher.insertDeliveries_eq_ok hinsert
    -- a new row starts at zero
    have hnew : ∀ d ∈ new, d ∈ s.db.webhookDeliveries ∨ d.attempts = 0 := by
      intro d hd
      rcases Dispatcher.mem_insertDeliveries hinsert (List.mem_append_right _ hd) with
        hold | ⟨id', p, -, rfl⟩
      · exact .inl hold
      · exact .inr rfl
    simp only [Claims, Bool.false_eq_true, if_false, Int.add_zero]
    unfold attemptsOf
    simp only [State.setDb, List.find?_append]
    cases hfind : s.db.webhookDeliveries.find? fun d => d.id = id with
    | some d => rfl
    | none =>
      rw [Option.none_or]
      cases hfind' : new.find? fun d => d.id = id with
      | none => rfl
      | some d =>
        rcases hnew d (List.mem_of_find?_eq_some hfind') with hold | hzero
        · have hid : d.id = id := by simpa using List.find?_some hfind'
          exact absurd hid (by simpa using List.find?_eq_none.mp hfind d hold)
        · exact hzero
  | @claim w locked ids db W' hw hbatch hclaim hheld =>
    obtain rfl := Dispatcher.claim_eq_ok hclaim
    by_cases hin : id ∈ ids
    · -- the batch query has seen the row
      have hcontains : ids.contains id = true := List.contains_iff_mem.mpr hin
      obtain ⟨d₀, hd₀, hid₀, -⟩ := (Dispatcher.isDue_of_isBatch hbatch).2 id hin
      simp only [Claims, hcontains, if_true]
      unfold attemptsOf
      simp only [State.setWorker, State.setClaim, State.setDb]
      have hid : ∀ d, decide ((Dispatcher.claimed s.now d).id = id) = decide (d.id = id) :=
        fun _ => rfl
      rw [Table.find?_update hid]
      cases hfind : s.db.webhookDeliveries.find? fun d => d.id = id with
      | none => exact absurd hid₀ (by simpa using List.find?_eq_none.mp hfind d₀ hd₀)
      | some d =>
        have hid : d.id = id := by simpa using List.find?_some hfind
        simp [hid, hin, Dispatcher.claimed]
    · have hout : ids.contains id = false := by simpa using hin
      simp only [Claims, hout, Bool.false_eq_true, if_false, Int.add_zero]
      have hkeep : ∀ d, (Dispatcher.claimed s.now d).id = d.id := fun _ => rfl
      refine attemptsOf_update rfl hkeep fun d hd hp => ?_
      rw [hd, hout] at hp
      cases hp
  | @release l w W W' hl hw hheld =>
    have hlabel : Claims id ⟨s, l, s.setWorker w W'⟩ = false := by
      cases l <;> first | rfl | cases hl
    rw [hlabel]
    exact (Int.add_zero _).symm
  | write hw ht _ hsend =>
    obtain ⟨f, hf, rfl⟩ := Dispatcher.sendOne_eq_ok hsend
    simp only [Claims, Bool.false_eq_true, if_false, Int.add_zero]
    exact attemptsOf_update rfl hf.id fun d _ _ => hf.attempts d
  | @redeliver businessId deliveryId _ hredeliver =>
    obtain ⟨-, rfl⟩ := WebhookService.redeliver_eq_ok hredeliver
    simp only [Claims, Bool.false_eq_true, if_false, Int.add_zero]
    have hne : deliveryId ≠ id := by simpa [Replays] using hreplay
    have hkeep : ∀ d, (WebhookService.redelivered s.now d).id = d.id := fun _ => rfl
    refine attemptsOf_update rfl hkeep fun d hd hp => ?_
    simp only [WebhookService.canRedeliver, Bool.and_eq_true, decide_eq_true_eq] at hp
    exact absurd (hp.1.1.symm.trans hd) hne

/-- While it is not replayed, the counter of a delivery rises by the number of its claims. -/
theorem attemptsOf_trace {xs : List Step} (h : (system maxAttempts).IsTrace s xs) {id : Uuid}
    (hreplay : ∀ x ∈ xs, Replays id x = false) :
    attemptsOf (TransitionSystem.endState s xs) id = attemptsOf s id + xs.countP (Claims id) := by
  induction xs generalizing s with
  | nil => simp [TransitionSystem.endState]
  | cons x xs ih =>
    obtain ⟨rfl, hstep, hrest⟩ := h
    have hx := attemptsOf_step (step_effect hstep) (hreplay x List.mem_cons_self)
    have hxs := ih hrest fun y hy => hreplay y (List.mem_cons_of_mem _ hy)
    rw [TransitionSystem.endState, hxs, hx, List.countP_cons]
    split_ifs <;> push_cast <;> omega

/-! ## The counter stays within the budget -/

/-- The invariant on the rows: a delivery that has never been claimed since its creation or its
replay has spent nothing, and nobody has spent more than the budget. -/
structure Budgeted (maxAttempts : Int) (s : State) : Prop where
  ids : (s.db.webhookDeliveries.map WebhookDelivery.id).Nodup
  nonneg : ∀ d ∈ s.db.webhookDeliveries, 0 ≤ d.attempts
  pending : ∀ d ∈ s.db.webhookDeliveries, d.status = .pending → d.attempts = 0
  within : CountersWithin maxAttempts s

/-- What the claim takes has attempts left. -/
theorem Budgeted.attempts_lt (h : Budgeted maxAttempts s) (hmax : 1 ≤ maxAttempts)
    {w : WorkerId} {locked ids : List Uuid}
    (hbatch : Dispatcher.isBatch s.db s.now locked ids = true) {s' : State}
    (hretry : RetriesWithin maxAttempts ⟨s, .claim w locked ids, s'⟩) {d : WebhookDelivery}
    (hd : d ∈ s.db.webhookDeliveries) (hid : d.id ∈ ids) : d.attempts < maxAttempts := by
  obtain ⟨e, he, heid, hdue⟩ := (Dispatcher.isDue_of_isBatch hbatch).2 _ hid
  obtain rfl : e = d := List.inj_on_of_nodup_map h.ids he hd heid
  cases hst : e.status with
  | pending =>
    have hzero := h.pending e he hst
    omega
  | inFlight => exact hretry w locked ids rfl e he hid (.inl hst)
  | failed => exact hretry w locked ids rfl e he hid (.inr hst)
  | succeeded => simp [Dispatcher.isDue, hst] at hdue
  | dead => simp [Dispatcher.isDue, hst] at hdue

theorem budgeted_step (hmax : 1 ≤ maxAttempts) (h : Budgeted maxAttempts s)
    (he : Effect maxAttempts s l s') (hretry : RetriesWithin maxAttempts ⟨s, l, s'⟩) :
    Budgeted maxAttempts s' := by
  have hids := ids_step he h.ids
  cases he with
  | advance _ => exact ⟨hids, h.nonneg, h.pending, h.within⟩
  | register _ => exact ⟨hids, h.nonneg, h.pending, h.within⟩
  | emit _ => exact ⟨hids, h.nonneg, h.pending, h.within⟩
  | release _ _ _ => exact ⟨hids, h.nonneg, h.pending, h.within⟩
  | fanOut hfan =>
    obtain ⟨rows, hinsert, rfl⟩ := Dispatcher.fanOut_eq_ok hfan
    refine ⟨hids, fun d hd => ?_, fun d hd hst => ?_, fun d hd => ?_⟩
    all_goals
      rcases Dispatcher.mem_insertDeliveries hinsert hd with hold | ⟨id, p, -, rfl⟩
    · exact h.nonneg d hold
    · exact Int.le_refl 0
    · exact h.pending d hold hst
    · rfl
    · exact h.within d hold
    · show (0 : Int) ≤ maxAttempts
      omega
  | claim hw hbatch hclaim hheld =>
    obtain rfl := Dispatcher.claim_eq_ok hclaim
    refine ⟨hids, fun d hd => ?_, fun d hd hst => ?_, fun d hd => ?_⟩
    all_goals
      obtain ⟨e, he, rfl⟩ := Table.mem_update.mp hd
    · have hnonneg := h.nonneg e he
      split_ifs
      · show 0 ≤ e.attempts + 1
        omega
      · exact hnonneg
    · split_ifs at hst ⊢
      · cases hst
      · exact h.pending e he hst
    · split_ifs with hin
      · have hlt := h.attempts_lt hmax hbatch hretry he (List.contains_iff_mem.mp hin)
        show e.attempts + 1 ≤ maxAttempts
        omega
      · exact h.within e he
  | write hw ht _ hsend =>
    obtain ⟨f, hf, rfl⟩ := Dispatcher.sendOne_eq_ok hsend
    refine ⟨hids, fun d hd => ?_, fun d hd hst => ?_, fun d hd => ?_⟩
    all_goals
      obtain ⟨e, he, rfl⟩ := Table.mem_update.mp hd
    · split_ifs
      · rw [hf.attempts]
        exact h.nonneg e he
      · exact h.nonneg e he
    · split_ifs at hst ⊢
      · -- an outcome is never `pending`
        rcases hf.status e with hout | hout | hout <;> cases hout.symm.trans hst
      · exact h.pending e he hst
    · split_ifs
      · rw [hf.attempts]
        exact h.within e he
      · exact h.within e he
  | redeliver hredeliver =>
    obtain ⟨-, rfl⟩ := WebhookService.redeliver_eq_ok hredeliver
    refine ⟨hids, fun d hd => ?_, fun d hd hst => ?_, fun d hd => ?_⟩
    all_goals
      obtain ⟨e, he, rfl⟩ := Table.mem_update.mp hd
    · split_ifs
      · exact Int.le_refl 0
      · exact h.nonneg e he
    · split_ifs at hst ⊢
      · rfl
      · exact h.pending e he hst
    · split_ifs
      · show (0 : Int) ≤ maxAttempts
        omega
      · exact h.within e he

theorem budgeted_initial (h : Initial s) : Budgeted maxAttempts s := by
  constructor <;> simp [h.deliveries, CountersWithin]

/-! ## Every run -/

/-- The windows of a run are within the budget if all its counters are. -/
theorem claimsWithin_of_countersWithin (hmax : 1 ≤ maxAttempts) {ls : List Label}
    (hnonneg : ∀ t ∈ (system maxAttempts).states s ls, ∀ d ∈ t.db.webhookDeliveries,
      0 ≤ d.attempts)
    (hwithin : ∀ t ∈ (system maxAttempts).states s ls, CountersWithin maxAttempts t) :
    ClaimsWithin maxAttempts ((system maxAttempts).steps s ls) := by
  intro id front window after hxs hreplay
  have htrace := TransitionSystem.isTrace_steps (M := system maxAttempts) s ls
  rw [hxs, List.append_assoc, TransitionSystem.isTrace_append,
    TransitionSystem.isTrace_append] at htrace
  have hcount := attemptsOf_trace htrace.2.1 hreplay
  -- the window starts at a counter of at least zero and ends at one within the budget
  have hstart := attemptsOf_nonneg (hnonneg _ (TransitionSystem.endState_mem_states
    (hxs.trans (List.append_assoc front window after)))) id
  have hend := attemptsOf_le (by omega) (hwithin _ (TransitionSystem.endState_mem_states hxs)) id
  rw [TransitionSystem.endState_append] at hend
  omega

/-- A run keeps the retry budget exactly if it never claims a delivery in flight or failed
whose budget is used up. -/
theorem retry_budget_iff (maxAttempts : Int) (hmax : 1 ≤ maxAttempts) {s : State}
    (h : Initial s) (ls : List Label) :
    (ClaimsWithin maxAttempts ((system maxAttempts).steps s ls) ∧
      ∀ t ∈ (system maxAttempts).states s ls, CountersWithin maxAttempts t) ↔
    ∀ x ∈ (system maxAttempts).steps s ls, RetriesWithin maxAttempts x := by
  constructor
  · rintro ⟨-, hwithin⟩ x hx w locked ids hl d hd hid -
    obtain ⟨hstep, -⟩ := TransitionSystem.step_of_mem_steps hx
    have hpost := hwithin x.post (TransitionSystem.post_mem_states hx)
    have he := step_effect hstep
    rw [hl] at he
    generalize x.post = s' at he hpost
    cases he with
    | release howner _ _ => cases howner
    | claim _ _ hclaim _ =>
      -- the claim raises the counter, and the counter stays within the budget
      obtain rfl := Dispatcher.claim_eq_ok hclaim
      have hle := hpost _ (Table.mem_update_of_pos hd (List.contains_iff_mem.mpr hid))
      have hraised : (Dispatcher.claimed x.pre.now d).attempts = d.attempts + 1 := rfl
      omega
  · intro hretry
    have hall : ∀ t ∈ (system maxAttempts).states s ls, Budgeted maxAttempts t := by
      refine TransitionSystem.forall_states_of_steps ?_ (.of_initial h) (budgeted_initial h) hretry
      intro x _ hx hstep hxretry
      exact budgeted_step hmax hx (step_effect hstep) hxretry
    exact ⟨claimsWithin_of_countersWithin hmax (fun t ht => (hall t ht).nonneg)
      fun t ht => (hall t ht).within, fun t ht => (hall t ht).within⟩

/-! ## A worker that crashes in the last attempt -/

/-- Worker `1` claims the delivery and crashes; worker `2` claims it after the lease. -/
def crashedRun : List Label :=
  outboxRun ++ [.claim 1 [] [shopId 40], .crash 1, .advance (seconds 31), .claim 2 [] [shopId 40]]

/-- What the step claims has attempts left. -/
def claimsUnspent (maxAttempts : Int) (x : Step) : Bool :=
  match x.label with
  | .claim _ _ ids => x.pre.db.webhookDeliveries.all fun d =>
      !ids.contains d.id || d.attempts < maxAttempts
  | _ => true

theorem retriesWithin_of_claimsUnspent {x : Step} (h : claimsUnspent maxAttempts x = true) :
    RetriesWithin maxAttempts x := by
  intro w locked ids hl d hd hid _
  simp only [claimsUnspent, hl, List.all_eq_true, Bool.or_eq_true, decide_eq_true_eq] at h
  rcases h d hd with hout | hlt
  · rw [List.contains_iff_mem.mpr hid] at hout
    cases hout
  · exact hlt

/-- With two attempts the retry of `retriedRun` is within the budget, and with one attempt the
claim after a crash is not. -/
theorem retry_budget_iff_crashedRun :
    (ClaimsWithin 2 ((system 2).steps shop retriedRun) ∧
      ∀ t ∈ (system 2).states shop retriedRun, CountersWithin 2 t) ∧
    ((system 1).run shop crashedRun).isSome = true ∧
    ((ClaimsWithin 1 ((system 1).steps shop crashedRun) ∧
      ∀ t ∈ (system 1).states shop crashedRun, CountersWithin 1 t) ↔
    ∀ x ∈ (system 1).steps shop crashedRun, RetriesWithin 1 x) := by
  have hall : ((system 2).steps shop retriedRun).all (claimsUnspent 2) = true := by
    decide +kernel
  refine ⟨(retry_budget_iff 2 (by decide) shop_initial retriedRun).mpr fun x hx => ?_,
    by decide +kernel, retry_budget_iff 1 (by decide) shop_initial crashedRun⟩
  exact retriesWithin_of_claimsUnspent (List.all_eq_true.mp hall x hx)

/-- With a budget of one attempt, the delivery is claimed twice. -/
theorem claimed_beyond_budget :
    ¬ (ClaimsWithin 1 ((system 1).steps shop crashedRun) ∧
      ∀ t ∈ (system 1).states shop crashedRun, CountersWithin 1 t) := by
  rintro ⟨-, hwithin⟩
  have hall : ((system 1).states shop crashedRun).all
      (fun t => t.db.webhookDeliveries.all fun d => d.attempts ≤ 1) = true := by
    simp only [List.all_eq_true, decide_eq_true_eq]
    exact hwithin
  revert hall
  decide +kernel

end InvoicePayment.Webhooks
