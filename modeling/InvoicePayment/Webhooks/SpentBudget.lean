import InvoicePayment.Webhooks.Progress

/-!
# Why a budget is overrun

A run keeps the retry budget as long as no claim takes a delivery whose budget is used up
(`RetriesWithin`). Such a delivery is in the hands of its last claimer, who ends it with the outcome
it writes (`EndsInTime`). So if a claim takes one, then since its last replay a claimer has crashed,
has lost a query or an outcome or has outlived its lease in the last attempt, or has written late
(`exists_cause`).
-/

namespace InvoicePayment.Webhooks

open Dispatcher (SendResult Work)

variable {maxAttempts : Int} {s s' : State} {l : Label} {id : Uuid}

/-- What keeps a delivery from ending in its last attempt. -/
inductive Cause (maxAttempts : Int) (id : Uuid) (x : Step) : Prop
  /-- Its claimer crashes with it in hand. -/
  | crashed {w : WorkerId} {W : Worker} (hl : x.label = .crash w)
      (hclaimed : x.pre.claimedBy id = some w) (hw : x.pre.workers w = some W) (hheld : id ∈ W.held)
  /-- A query of its claimer fails, who lets go of it. -/
  | lost {w : WorkerId} {i : ℕ} {W W' : Worker} (hl : x.label = .dbError w i)
      (hclaimed : x.pre.claimedBy id = some w) (hw : x.pre.workers w = some W) (hheld : id ∈ W.held)
      (hw' : x.post.workers w = some W') (hdropped : id ∉ W'.held)
  /-- The database refuses the outcome its claimer writes. -/
  | refused {w : WorkerId} {i delay : ℕ} {tasks : List Task} {work : Work} {r : SendResult}
      {e : SqlError} (hl : x.label = .write w i delay) (hclaimed : x.pre.claimedBy id = some w)
      (hw : x.pre.workers w = some (.sending tasks))
      (ht : tasks[i]? = some { work, result := some r }) (hid : work.deliveryId = id)
      (hsend : Dispatcher.sendOne x.pre.db x.pre.now maxAttempts work r delay = .error e)
  /-- Its claimer is still at work on it when the lease has run out and another one claims it. -/
  | outlived {w v : WorkerId} {locked ids : List Uuid} {V : Worker}
      (hl : x.label = .claim w locked ids) (hin : id ∈ ids)
      (hclaimed : x.pre.claimedBy id = some v) (hv : x.pre.workers v = some V) (hheld : id ∈ V.held)
  /-- Someone who is not its claimer any more writes an outcome. -/
  | late {w : WorkerId} {work : Work} {r : SendResult}
      (hrecords : Records maxAttempts id x w work r) (hlate : x.pre.claimedBy id ≠ some w)

/-- The delivery is in the hands of its last claimer. -/
def InClaim (id : Uuid) (s : State) : Prop :=
  ∃ w W, s.claimedBy id = some w ∧ s.workers w = some W ∧ id ∈ W.held

/-! ## One step -/

/-- A worker that has read a delivery and is its last claimer was that before the step. -/
theorem claimer_step (h : step maxAttempts s l = some s') {w : WorkerId} {W' : Worker}
    (hw : s'.workers w = some W') (hreads : W'.works ≠ []) (hclaimed : s'.claimedBy id = some w) :
    s.claimedBy id = some w ∧ Claims id ⟨s, l, s'⟩ = false ∧ Replays id ⟨s, l, s'⟩ = false := by
  cases l with
  | claim v locked ids =>
    obtain ⟨-, -, rfl⟩ := claim_eq h
    by_cases hin : ids.contains id = true
    · -- the new claimer has read nothing yet
      obtain rfl : v = w := Option.some.inj ((if_pos hin).symm.trans hclaimed)
      rcases workers_setWorker hw with ⟨-, rfl⟩ | ⟨hne, -⟩
      · split_ifs at hreads <;> exact absurd rfl hreads
      · exact absurd rfl hne
    · exact ⟨(if_neg hin).symm.trans hclaimed, Bool.eq_false_iff.mpr hin, rfl⟩
  | redeliver businessId deliveryId =>
    cases step_effect h with
    | release howner _ _ => cases howner
    | redeliver hredeliver =>
      by_cases hsame : deliveryId = id
      · have hnone : (if [deliveryId].contains id then none else s.claimedBy id) = some w :=
          hclaimed
        simp [hsame] at hnone
      · have hkept : (if [deliveryId].contains id then none else s.claimedBy id) = some w :=
          hclaimed
        rw [if_neg (by simpa using Ne.symm hsame)] at hkept
        exact ⟨hkept, rfl, decide_eq_false hsame⟩
  | _ => cases step_effect h <;> exact ⟨hclaimed, rfl, rfl⟩

/-- A claim puts the delivery in flight and in hand. -/
theorem inClaim_of_claims (h : step maxAttempts s l = some s')
    (hclaims : Claims id ⟨s, l, s'⟩ = true) {d d' : WebhookDelivery} (hd : rowOf id s = some d)
    (hd' : rowOf id s' = some d') : d'.status = .inFlight ∧ InClaim id s' := by
  cases l with
  | claim w locked ids =>
    obtain ⟨-, -, rfl⟩ := claim_eq h
    have hin : ids.contains id = true := hclaims
    have hmem : id ∈ ids := List.contains_iff_mem.mp hin
    have hkeep : ∀ d, (Dispatcher.claimed s.now d).id = d.id := fun _ => rfl
    constructor
    · obtain rfl := Option.some.inj (hd'.symm.trans (rowOf_update rfl hkeep hd))
      obtain ⟨-, hid⟩ := of_rowOf hd
      rw [if_pos (hid ▸ hin)]
      rfl
    · refine ⟨w, .claimed ids, if_pos hin, ?_, hmem⟩
      simp only [State.setWorker, if_true, if_neg (List.ne_nil_of_mem hmem)]
  | _ => cases hclaims

/-- It stays there until its claimer records an outcome, unless the claimer loses it. -/
theorem inClaim_step (hs : Rows s) (hdirected : Directed s) (h : step maxAttempts s l = some s')
    (hrow : ∃ d ∈ s.db.webhookDeliveries, d.id = id)
    (hunclaimed : Claims id ⟨s, l, s'⟩ = false) (hreplays : Replays id ⟨s, l, s'⟩ = false)
    (hrecords : ∀ w work r, ¬ Records maxAttempts id ⟨s, l, s'⟩ w work r)
    (hkept : ¬ Cause maxAttempts id ⟨s, l, s'⟩) (hin : InClaim id s) : InClaim id s' := by
  obtain ⟨w, W, hclaimed, hw, hheld⟩ := hin
  -- a step of this worker is a change of `W` to a `W'` that holds the delivery
  have hset : ∀ {s₁ : State} {v : WorkerId} {V' : Worker}, s₁.claimedBy id = s.claimedBy id →
      s₁.workers = s.workers → (v = w → id ∈ V'.held) → InClaim id (s₁.setWorker v V') := by
    intro s₁ v V' hsame hworkers hkeeps
    by_cases hv : v = w
    · exact ⟨w, V', hsame.trans hclaimed, if_pos hv.symm, hkeeps hv⟩
    · exact ⟨w, W, hsame.trans hclaimed, (if_neg (Ne.symm hv)).trans (hworkers ▸ hw), hheld⟩
  cases l with
  | claim v locked ids =>
    obtain ⟨hnew, -, rfl⟩ := claim_eq h
    have hout : ¬ ids.contains id = true := Bool.eq_false_iff.mp hunclaimed
    refine hset (if_neg hout) rfl fun hv => ?_
    rw [hv, hw] at hnew
    cases hnew
  | hydrate v =>
    obtain ⟨ids, hv, rfl⟩ := hydrate_eq h
    refine hset rfl rfl fun hvw => ?_
    obtain rfl := hvw
    obtain rfl := Option.some.inj (hv.symm.trans hw)
    obtain ⟨d, hd, rfl⟩ := hrow
    obtain ⟨work, hwork, hid⟩ := hdirected.hydrated hs.ids hd hheld
    exact List.mem_map.mpr ⟨{ work }, List.mem_map_of_mem hwork, hid⟩
  | respond v i r =>
    obtain ⟨tasks, work, hv, ht, rfl⟩ := respond_eq h
    refine hset rfl rfl fun hvw => ?_
    obtain rfl := hvw
    obtain rfl := Option.some.inj (hv.symm.trans hw)
    have hsame : (Worker.sending (tasks.set i { work, result := some r })).held =
        (Worker.sending tasks).held := held_set ht rfl
    exact hsame ▸ hheld
  | write v i delay =>
    obtain ⟨tasks, work, r, hv, ht, -, hsent⟩ := write_cases h
    -- the claimer writes the outcome of another delivery
    have hother : v = w → work.deliveryId ≠ id →
        id ∈ (Worker.sending (tasks.eraseIdx i)).held := by
      rintro rfl hne
      obtain rfl := Option.some.inj (hv.symm.trans hw)
      obtain ⟨t, ht', hid⟩ := List.mem_map.mp hheld
      have hhand : (Worker.sending tasks).Hand id t.result := ⟨t, ht', hid, rfl⟩
      exact (hand_eraseIdx ht hne hhand).mem_held
    rcases hsent with ⟨e, hsend, rfl⟩ | ⟨db, hsend, rfl⟩
    · refine hset rfl rfl fun hvw => hother hvw fun hid => hkept ?_
      exact .refused rfl (hvw ▸ hclaimed) hv ht hid hsend
    · refine hset rfl rfl fun hvw => hother hvw fun hid => ?_
      exact hrecords v work r ⟨hid, i, delay, tasks, db, rfl, hv, ht, hsend⟩
  | dbError v i =>
    rcases dbError_cases h with ⟨ids, -, rfl⟩ | ⟨tasks, -, rfl⟩
    all_goals
      refine hset rfl rfl fun hvw => ?_
      by_contra hout
      exact hkept (.lost rfl (hvw ▸ hclaimed) (hvw ▸ hw) hheld (if_pos rfl) hout)
  | crash v =>
    obtain ⟨V, -, rfl⟩ := crash_eq h
    refine hset rfl rfl fun hvw => ?_
    exact absurd (.crashed rfl (hvw ▸ hclaimed) (hvw ▸ hw) hheld) hkept
  | redeliver businessId deliveryId =>
    cases step_effect h with
    | release howner _ _ => cases howner
    | redeliver hredeliver =>
      have hne : deliveryId ≠ id := of_decide_eq_false hreplays
      exact ⟨w, W, (if_neg (by simpa using Ne.symm hne)).trans hclaimed, hw, hheld⟩
  | _ =>
    cases step_effect h with
    | release howner _ _ => cases howner
    | _ => exact ⟨w, W, hclaimed, hw, hheld⟩

/-- A row that is new has not been claimed. -/
theorem row_before (h : step maxAttempts s l = some s') {d' : WebhookDelivery}
    (hd' : d' ∈ s'.db.webhookDeliveries) :
    (∃ d ∈ s.db.webhookDeliveries, d.id = d'.id) ∨ d'.attempts = 0 := by
  have hupdate : ∀ {p : WebhookDelivery → Bool} {f : WebhookDelivery → WebhookDelivery},
      d' ∈ Table.update p f s.db.webhookDeliveries → (∀ d, (f d).id = d.id) →
      ∃ d ∈ s.db.webhookDeliveries, d.id = d'.id := by
    intro p f hmem hf
    obtain ⟨d, hd, rfl⟩ := Table.mem_update.mp hmem
    refine ⟨d, hd, ?_⟩
    split_ifs
    · exact (hf d).symm
    · rfl
  cases step_effect h with
  | fanOut hfan =>
    obtain ⟨rows, hinsert, rfl⟩ := Dispatcher.fanOut_eq_ok hfan
    rcases Dispatcher.mem_insertDeliveries hinsert hd' with hold | ⟨uid, p, -, rfl⟩
    · exact .inl ⟨d', hold, rfl⟩
    · exact .inr rfl
  | claim _ _ hclaim _ =>
    obtain rfl := Dispatcher.claim_eq_ok hclaim
    exact .inl (hupdate hd' fun _ => rfl)
  | write _ _ _ hsend =>
    obtain ⟨f, hf, rfl⟩ := Dispatcher.sendOne_eq_ok hsend
    exact .inl (hupdate hd' hf.id)
  | redeliver hredeliver =>
    obtain ⟨-, rfl⟩ := WebhookService.redeliver_eq_ok hredeliver
    exact .inl (hupdate hd' fun _ => rfl)
  | _ => exact .inl ⟨d', hd', rfl⟩

/-- A replay finds the delivery given up and sets it back. -/
theorem row_of_replays (hs : Rows s) (h : step maxAttempts s l = some s')
    (hreplays : Replays id ⟨s, l, s'⟩ = true) :
    ∃ d, rowOf id s = some d ∧ (d.status = .failed ∨ d.status = .dead) ∧
      rowOf id s' = some (WebhookService.redelivered s.now d) := by
  cases l with
  | redeliver businessId deliveryId =>
    obtain rfl : deliveryId = id := of_decide_eq_true hreplays
    cases step_effect h with
    | release howner _ _ => cases howner
    | redeliver hredeliver =>
      unfold WebhookService.redeliver at hredeliver
      split_ifs at hredeliver with hany
      obtain rfl := Except.ok.inj hredeliver
      obtain ⟨e, he, hcan⟩ := List.any_eq_true.mp hany
      have hcan' := hcan
      simp only [WebhookService.canRedeliver, Bool.and_eq_true, Bool.or_eq_true,
        decide_eq_true_eq] at hcan
      obtain ⟨d, hd⟩ := exists_rowOf ⟨e, he, hcan.1.1⟩
      obtain ⟨hmem, hid⟩ := of_rowOf hd
      obtain rfl := List.inj_on_of_nodup_map hs.ids he hmem (hcan.1.1.trans hid.symm)
      refine ⟨e, hd, hcan.2, ?_⟩
      have hkeep : ∀ d, (WebhookService.redelivered s.now d).id = d.id := fun _ => rfl
      exact (rowOf_update rfl hkeep hd).trans (congrArg some (if_pos hcan'))
  | _ => cases hreplays

/-! ## The last attempt -/

/-- The rows, and what a claimer has read of the counter of its row. -/
structure Known (s : State) : Prop where
  rows : Rows s
  directed : Directed s
  reads : ∀ w W, s.workers w = some W → ∀ work ∈ W.works, s.claimedBy work.deliveryId = some w →
    attemptsOf s work.deliveryId = work.attempts

/-- Once its budget is used up, the delivery has ended or is in flight, in the hands of its last
claimer. -/
def EndsInTime (maxAttempts : Int) (id : Uuid) (s : State) : Prop :=
  ∀ d, rowOf id s = some d → maxAttempts ≤ d.attempts →
    d.status.IsTerminal ∨ d.status = .inFlight ∧ InClaim id s

theorem reads_step (h : Known s) (hstep : step maxAttempts s l = some s') {w : WorkerId}
    {W' : Worker} (hw : s'.workers w = some W') {work : Work} (hwork : work ∈ W'.works)
    (hclaimed : s'.claimedBy work.deliveryId = some w) :
    attemptsOf s' work.deliveryId = work.attempts := by
  obtain ⟨hclaimed, hunclaimed, hreplays⟩ :=
    claimer_step hstep hw (List.ne_nil_of_mem hwork) hclaimed
  rw [attemptsOf_step (step_effect hstep) hreplays, hunclaimed]
  simp only [Bool.false_eq_true, if_false, Int.add_zero]
  rcases works_step hstep hw with ⟨W, hW, hsub⟩ | hnil | ⟨ids, hread⟩
  · exact h.reads w W hW work (hsub.subset hwork) hclaimed
  · rw [hnil] at hwork
    cases hwork
  · rw [hread] at hwork
    obtain ⟨d, hd, hid, hattempts⟩ := row_of_hydrate hwork
    rw [← hid, attemptsOf_eq h.rows hd, hattempts]

theorem known_of_reachable (h : (system maxAttempts).Reachable s) : Known s := by
  refine TransitionSystem.invariant_of_reachable (fun s hs => ?_) (fun s l t hr hs hstep => ?_) h
  · have hreach : (system maxAttempts).Reachable s := .of_initial hs
    exact ⟨rows_of_reachable hreach, directed_initial hs, fun w W hw => (hs.no_worker hw).elim⟩
  · exact ⟨rows_of_reachable (hr.step hstep), directed_step hs.directed (step_effect hstep),
      fun w W hw work hwork => reads_step hs hstep hw hwork⟩

/-- What the last claimer records ends the delivery. -/
theorem Known.hasEnded (h : Known s) (hstep : step maxAttempts s l = some s')
    {d : WebhookDelivery} (hd : rowOf id s = some d) (hspent : maxAttempts ≤ d.attempts)
    (hcause : ¬ Cause maxAttempts id ⟨s, l, s'⟩) {w : WorkerId} {work : Work} {r : SendResult}
    (hrecords : Records maxAttempts id ⟨s, l, s'⟩ w work r) : HasEnded id s' := by
  have hclaimed : s.claimedBy id = some w := by
    by_contra hlate
    exact hcause (.late hrecords hlate)
  obtain ⟨tasks, i, hw, -, ht⟩ := hrecords.eraseIdx hstep
  have hwork : work ∈ (Worker.sending tasks).works :=
    List.mem_map.mpr ⟨_, List.mem_of_getElem? ht, rfl⟩
  have hid := hrecords.ofDelivery
  have hread := h.reads w _ hw work hwork (hid ▸ hclaimed)
  obtain ⟨hmem, hd'⟩ := of_rowOf hd
  rw [hid, ← hd', attemptsOf_eq h.rows hmem] at hread
  exact hrecords.hasEnded (hread ▸ hspent) hstep ⟨d, hd⟩

/-- A replay gives the delivery a new budget. -/
theorem endsInTime_of_replays (hmax : 1 ≤ maxAttempts) (hs : Rows s)
    (h : step maxAttempts s l = some s') (hreplays : Replays id ⟨s, l, s'⟩ = true) :
    EndsInTime maxAttempts id s' := by
  intro d' hd' hspent
  obtain ⟨d, -, -, hpost⟩ := row_of_replays hs h hreplays
  obtain rfl := Option.some.inj (hd'.symm.trans hpost)
  change maxAttempts ≤ 0 at hspent
  omega

theorem endsInTime_step (hmax : 1 ≤ maxAttempts) (hs : Known s)
    (hstep : step maxAttempts s l = some s') (h : EndsInTime maxAttempts id s)
    (hcause : maxAttempts ≤ attemptsOf s id → ¬ Cause maxAttempts id ⟨s, l, s'⟩) :
    EndsInTime maxAttempts id s' := by
  by_cases hreplays : Replays id ⟨s, l, s'⟩ = true
  · exact endsInTime_of_replays hmax hs.rows hstep hreplays
  replace hreplays := Bool.eq_false_of_not_eq_true hreplays
  intro d' hd' hspent
  have he := step_effect hstep
  obtain ⟨hmem', hid'⟩ := of_rowOf hd'
  obtain ⟨d, hd⟩ : ∃ d, rowOf id s = some d := by
    rcases row_before hstep hmem' with ⟨d, hd, hid⟩ | hzero
    · exact exists_rowOf ⟨d, hd, hid.trans hid'⟩
    · omega
  obtain ⟨hmem, hid⟩ := of_rowOf hd
  have hcounter : attemptsOf s id = d.attempts := hid ▸ attemptsOf_eq hs.rows hmem
  have hcounter' : attemptsOf s' id = d'.attempts :=
    hid' ▸ attemptsOf_eq (rows_step he hs.rows) hmem'
  have hcount := attemptsOf_step he hreplays
  obtain ⟨d₁, hd₁, hrow⟩ := row_step hstep hd
  obtain rfl := Option.some.inj (hd'.symm.trans hd₁)
  by_cases hclaims : Claims id ⟨s, l, s'⟩ = true
  · exact .inr (inClaim_of_claims hstep hclaims hd hd')
  replace hclaims := Bool.eq_false_of_not_eq_true hclaims
  rw [hclaims] at hcount
  have hspent' : maxAttempts ≤ d.attempts := by
    simp only [Bool.false_eq_true, if_false] at hcount
    omega
  have hcause' := hcause (hcounter ▸ hspent')
  by_cases hrecords : ∃ w work r, Records maxAttempts id ⟨s, l, s'⟩ w work r
  · obtain ⟨w, work, r, hrecords⟩ := hrecords
    obtain ⟨d₂, hd₂, hterminal⟩ := hs.hasEnded hstep hd hspent' hcause' hrecords
    obtain rfl := Option.some.inj (hd'.symm.trans hd₂)
    exact .inl hterminal
  · push Not at hrecords
    cases hrow with
    | same =>
      refine (h d' hd hspent').imp_right fun ⟨hst, hin⟩ => ⟨hst, ?_⟩
      exact inClaim_step hs.rows hs.directed hstep ⟨d', hmem, hid⟩ hclaims hreplays hrecords
        hcause' hin
    | claimed hclaimed => exact absurd (hid ▸ hclaimed) (Bool.eq_false_iff.mp hclaims)
    | recorded hrecorded _ => exact absurd (hid ▸ hrecorded) (hrecords _ _ _)
    | replayed hreplayed _ => exact absurd (hid ▸ hreplayed) (Bool.eq_false_iff.mp hreplays)

/-! ## Every run -/

/-- Since the last replay of the delivery, something has kept it from ending in its last attempt. -/
def HasCause (maxAttempts : Int) (id : Uuid) (xs : List Step) : Prop :=
  ∃ before x after, xs = before ++ x :: after ∧ maxAttempts ≤ attemptsOf x.pre id ∧
    Cause maxAttempts id x ∧ ∀ y ∈ after, Replays id y = false

theorem HasCause.append {xs : List Step} {x : Step} (h : HasCause maxAttempts id xs)
    (hreplays : Replays id x = false) : HasCause maxAttempts id (xs ++ [x]) := by
  obtain ⟨before, c, after, rfl, hspent, hcause, hafter⟩ := h
  refine ⟨before, c, after ++ [x], by simp, hspent, hcause, fun y hy => ?_⟩
  rcases List.mem_append.mp hy with hy | hy
  · exact hafter y hy
  · rw [List.mem_singleton.mp hy]
    exact hreplays

theorem HasCause.last {xs : List Step} {x : Step} (hspent : maxAttempts ≤ attemptsOf x.pre id)
    (hcause : Cause maxAttempts id x) : HasCause maxAttempts id (xs ++ [x]) :=
  ⟨xs, x, [], rfl, hspent, hcause, by simp⟩

/-- After every run the delivery ends in time, or there is a cause why not. -/
theorem endsInTime_or_hasCause (hmax : 1 ≤ maxAttempts) (h : Initial s) {ls : List Label}
    {t : State} (hrun : (system maxAttempts).run s ls = some t) :
    EndsInTime maxAttempts id t ∨ HasCause maxAttempts id ((system maxAttempts).steps s ls) := by
  have hinit : EndsInTime maxAttempts id s := by
    intro d hd
    have hmem := (of_rowOf hd).1
    rw [h.deliveries] at hmem
    cases hmem
  have hall := (TransitionSystem.isTrace_steps (M := system maxAttempts) s ls).history
    (P := fun front u => EndsInTime maxAttempts id u ∨ HasCause maxAttempts id front) (.inl hinit)
    fun front x after hxs hstep hpast => ?_
  · have hlast := hall _ [] (List.append_nil _).symm
    rwa [TransitionSystem.endState_steps hrun] at hlast
  have hmem : x ∈ (system maxAttempts).steps s ls := by
    rw [hxs]
    simp
  have hknown : Known x.pre :=
    known_of_reachable (TransitionSystem.reachable_of_mem_steps (.of_initial h) hmem)
  by_cases hreplays : Replays id x = true
  · exact .inl (endsInTime_of_replays hmax hknown.rows hstep hreplays)
  rcases hpast with hends | hcause
  · by_cases hcause : maxAttempts ≤ attemptsOf x.pre id ∧ Cause maxAttempts id x
    · exact .inr (.last hcause.1 hcause.2)
    · exact .inl (endsInTime_step hmax hknown hstep hends fun hspent hc => hcause ⟨hspent, hc⟩)
  · exact .inr (hcause.append (Bool.eq_false_of_not_eq_true hreplays))

/-- If a claim takes a delivery whose budget is used up, then its claimer has crashed, has lost a
query or an outcome or has outlived its lease in the last attempt, or someone has written late. -/
theorem exists_cause (hmax : 1 ≤ maxAttempts) (h : Initial s) {ls : List Label} {t t' : State}
    (hrun : (system maxAttempts).run s ls = some t) (hstep : step maxAttempts t l = some t')
    (hover : ¬ RetriesWithin maxAttempts ⟨t, l, t'⟩) :
    ∃ id, Claims id ⟨t, l, t'⟩ = true ∧
      HasCause maxAttempts id ((system maxAttempts).steps s (ls ++ [l])) := by
  rw [RetriesWithin] at hover
  push Not at hover
  obtain ⟨w, locked, ids, hl, d, hmem, hin, hst, hspent⟩ := hover
  obtain rfl : l = .claim w locked ids := hl
  have hrows : Rows t := rows_of_reachable ⟨s, ls, h, hrun⟩
  have hsteps : (system maxAttempts).steps s (ls ++ [.claim w locked ids]) =
      (system maxAttempts).steps s ls ++ [⟨t, .claim w locked ids, t'⟩] := by
    rw [TransitionSystem.steps_append hrun, TransitionSystem.steps_cons_of_some hstep]
    rfl
  refine ⟨d.id, List.contains_iff_mem.mpr hin, ?_⟩
  rw [hsteps]
  have hpast : EndsInTime maxAttempts d.id t ∨
      HasCause maxAttempts d.id ((system maxAttempts).steps s ls) :=
    endsInTime_or_hasCause hmax h hrun
  rcases hpast with hends | hcause
  · rcases hends d (rowOf_of_mem hrows hmem) hspent with hterminal | ⟨-, v, V, hclaimed, hv, hheld⟩
    · rcases hst with hst | hst <;> rcases hterminal with hended | hended <;>
        cases hst.symm.trans hended
    · -- its claimer is still at work on it
      refine .last ?_ (.outlived rfl hin hclaimed hv hheld)
      exact (attemptsOf_eq hrows hmem).symm ▸ hspent
  · exact hcause.append rfl

end InvoicePayment.Webhooks
