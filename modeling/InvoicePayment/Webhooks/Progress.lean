import InvoicePayment.Lib.Columns
import InvoicePayment.Webhooks.RetryPolicy

/-!
# No delivery is forgotten

Infinite runs of any number of dispatchers that crash, lose queries and outlive their leases. The
claim takes fifty rows by `next_attempt_at`, and the rows that come back to it are those whose lease
has run out. As long as dispatchers claim again and again when there are fewer than fifty of these,
a delivery is claimed again and again or ends (`claimed_or_ended`); and if not all its outcomes are
lost and nobody replays it any more, it ends (`eventually_ended`).
-/

namespace InvoicePayment.Webhooks

open Dispatcher (SendResult Work)
open TransitionSystem (Execution)

variable {maxAttempts : Int} {s s' : State} {l : Label} {id : Uuid}

/-! ## The row of a delivery -/

def rowOf (id : Uuid) (s : State) : Option WebhookDelivery :=
  s.db.webhookDeliveries.find? fun d => d.id = id

theorem of_rowOf {d : WebhookDelivery} (h : rowOf id s = some d) :
    d ∈ s.db.webhookDeliveries ∧ d.id = id := by
  unfold rowOf at h
  exact ⟨List.mem_of_find?_eq_some h, by simpa using List.find?_some h⟩

theorem exists_rowOf (h : ∃ d ∈ s.db.webhookDeliveries, d.id = id) : ∃ d, rowOf id s = some d := by
  obtain ⟨d, hd, hid⟩ := h
  exact Option.isSome_iff_exists.mp (List.find?_isSome.mpr ⟨d, hd, decide_eq_true hid⟩)

theorem rowOf_update {p : WebhookDelivery → Bool} {f : WebhookDelivery → WebhookDelivery}
    (hrows : s'.db.webhookDeliveries = Table.update p f s.db.webhookDeliveries)
    (hf : ∀ d, (f d).id = d.id) {d : WebhookDelivery} (h : rowOf id s = some d) :
    rowOf id s' = some (if p d then f d else d) := by
  rw [rowOf, hrows, Table.find?_update (fun d => by rw [hf d]), ← rowOf, h, Option.map_some]

/-- An outcome that the database takes is the policy's. -/
theorem written_of_sendOne {db db' : Db} {now : Timestamp} {work : Work} {r : SendResult}
    {delay : ℕ} (h : Dispatcher.sendOne db now maxAttempts work r delay = .ok db') :
    ∃ f, Written now maxAttempts work.attempts r delay f ∧ db' = { db with
      webhookDeliveries := Table.update (fun d => d.id = work.deliveryId) f
        db.webhookDeliveries } := by
  have htext : ∀ message, r = .error message → isPgText message = true := by
    rintro message rfl
    by_contra hnot
    simp [Dispatcher.sendOne, Dispatcher.markFailed, hnot] at h
  obtain ⟨f, hf, hsend⟩ := sendOne_eq htext
  rw [hsend] at h
  exact ⟨f, hf, (Except.ok.inj h).symm⟩

/-- The step writes this outcome of the delivery, and the database takes it. -/
structure Records (maxAttempts : Int) (id : Uuid) (x : Step) (w : WorkerId) (work : Work)
    (r : SendResult) : Prop where
  ofDelivery : work.deliveryId = id
  sent : ∃ i delay tasks db, x.label = .write w i delay ∧ x.pre.workers w = some (.sending tasks) ∧
    tasks[i]? = some { work, result := some r } ∧
    Dispatcher.sendOne x.pre.db x.pre.now maxAttempts work r delay = .ok db

/-- What a step makes of the row of a delivery. -/
inductive RowStep (maxAttempts : Int) (x : Step) (d : WebhookDelivery) : WebhookDelivery → Prop
  | same : RowStep maxAttempts x d d
  | claimed (hclaims : Claims d.id x = true) :
      RowStep maxAttempts x d (Dispatcher.claimed x.pre.now d)
  | recorded {w : WorkerId} {work : Work} {r : SendResult} {delay : ℕ}
      {f : WebhookDelivery → WebhookDelivery} (hrecords : Records maxAttempts d.id x w work r)
      (hf : Written x.pre.now maxAttempts work.attempts r delay f) : RowStep maxAttempts x d (f d)
  | replayed (hreplays : Replays d.id x = true) (hst : d.status = .failed ∨ d.status = .dead) :
      RowStep maxAttempts x d (WebhookService.redelivered x.pre.now d)

theorem row_step (h : step maxAttempts s l = some s') {d : WebhookDelivery}
    (hd : rowOf id s = some d) :
    ∃ d', rowOf id s' = some d' ∧ RowStep maxAttempts ⟨s, l, s'⟩ d d' := by
  obtain rfl := (of_rowOf hd).2
  cases step_effect h with
  | fanOut hfan =>
    obtain ⟨rows, hinsert, rfl⟩ := Dispatcher.fanOut_eq_ok hfan
    obtain ⟨⟨new, rfl⟩, -⟩ := Dispatcher.insertDeliveries_eq_ok hinsert
    refine ⟨d, ?_, .same⟩
    rw [rowOf] at hd
    rw [rowOf, State.setDb, List.find?_append, hd, Option.some_or]
  | @claim w locked ids db W' hw hbatch hclaim hheld =>
    obtain rfl := Dispatcher.claim_eq_ok hclaim
    have hkeep : ∀ d, (Dispatcher.claimed s.now d).id = d.id := fun _ => rfl
    refine ⟨_, rowOf_update rfl hkeep hd, ?_⟩
    split_ifs with hin
    · exact .claimed hin
    · exact .same
  | @write w i delay tasks task r db hw ht hresult hsend =>
    obtain ⟨f, hf, rfl⟩ := written_of_sendOne hsend
    refine ⟨_, rowOf_update rfl hf.outcome.id hd, ?_⟩
    split_ifs with hid
    · obtain ⟨work, result⟩ := task
      subst hresult
      exact .recorded ⟨(of_decide_eq_true hid).symm, i, delay, tasks, _, rfl, hw, ht, hsend⟩ hf
    · exact .same
  | @redeliver businessId deliveryId db hredeliver =>
    obtain ⟨-, rfl⟩ := WebhookService.redeliver_eq_ok hredeliver
    have hkeep : ∀ d, (WebhookService.redelivered s.now d).id = d.id := fun _ => rfl
    refine ⟨_, rowOf_update rfl hkeep hd, ?_⟩
    split_ifs with hcan
    · simp only [WebhookService.canRedeliver, Bool.and_eq_true, Bool.or_eq_true,
        decide_eq_true_eq] at hcan
      exact .replayed (decide_eq_true hcan.1.1.symm) hcan.2
    · exact .same
  | _ => exact ⟨d, hd, .same⟩

/-! ## What a worker is sending -/

def Worker.works : Worker → List Work
  | .sending tasks => tasks.map Task.work
  | _ => []

theorem works_eraseIdx (tasks : List Task) (i : ℕ) :
    (Worker.sending (tasks.eraseIdx i)).works.Sublist (Worker.sending tasks).works :=
  (List.eraseIdx_sublist tasks i).map Task.work

theorem works_set {tasks : List Task} {i : ℕ} {t t' : Task} (h : tasks[i]? = some t)
    (hwork : t'.work = t.work) :
    (Worker.sending (tasks.set i t')).works = (Worker.sending tasks).works := by
  obtain ⟨hi, rfl⟩ := List.getElem?_eq_some_iff.mp h
  have hi' : i < (tasks.map Task.work).length := by simpa using hi
  simp only [Worker.works, List.map_set, hwork]
  rw [← List.getElem_map (h := hi') Task.work, List.set_getElem_self]

/-- What a worker is sending after a step it was sending before, or has just read. -/
theorem works_step (h : step maxAttempts s l = some s') {v : WorkerId} {V' : Worker}
    (hv : s'.workers v = some V') :
    (∃ V, s.workers v = some V ∧ V'.works.Sublist V.works) ∨ V'.works = [] ∨
      ∃ ids, V'.works = Dispatcher.hydrate s.db ids := by
  have hset : ∀ {w : WorkerId} {W W' : Worker} {s₁ : State}, s.workers w = some W →
      s₁.setWorker w W' = s' → s₁.workers = s.workers → W'.works.Sublist W.works →
      ∃ V, s.workers v = some V ∧ V'.works.Sublist V.works := by
    rintro w W W' s₁ hw rfl hsame hsub
    rcases workers_setWorker hv with ⟨rfl, rfl⟩ | ⟨-, hv⟩
    · exact ⟨W, hw, hsub⟩
    · exact ⟨V', hsame ▸ hv, List.Sublist.refl _⟩
  cases l with
  | claim w locked ids =>
    obtain ⟨-, -, rfl⟩ := claim_eq h
    rcases workers_setWorker hv with ⟨-, rfl⟩ | ⟨-, hv⟩
    · right
      left
      split_ifs <;> rfl
    · exact .inl ⟨V', hv, List.Sublist.refl _⟩
  | hydrate w =>
    obtain ⟨ids, -, rfl⟩ := hydrate_eq h
    rcases workers_setWorker hv with ⟨-, rfl⟩ | ⟨-, hv⟩
    · refine .inr (.inr ⟨ids, ?_⟩)
      rw [Worker.works, List.map_map]
      exact List.map_id _
    · exact .inl ⟨V', hv, List.Sublist.refl _⟩
  | respond w i r =>
    obtain ⟨tasks, work, hw, ht, rfl⟩ := respond_eq h
    have hsame : (Worker.sending (tasks.set i { work, result := some r })).works =
        (Worker.sending tasks).works := works_set ht rfl
    exact .inl (hset hw rfl rfl (hsame ▸ List.Sublist.refl _))
  | write w i delay =>
    obtain ⟨tasks, work, r, hw, -, -, ⟨e, -, rfl⟩ | ⟨db, -, rfl⟩⟩ := write_cases h
    all_goals exact .inl (hset hw rfl rfl (works_eraseIdx tasks i))
  | dbError w i =>
    rcases dbError_cases h with ⟨ids, hw, rfl⟩ | ⟨tasks, hw, rfl⟩
    · exact .inl (hset hw rfl rfl (List.nil_sublist _))
    · exact .inl (hset hw rfl rfl (works_eraseIdx tasks i))
  | crash w =>
    obtain ⟨W, hw, rfl⟩ := crash_eq h
    exact .inl (hset hw rfl rfl (List.nil_sublist _))
  | advance now =>
    simp only [step] at h
    split_ifs at h
    obtain rfl := Option.some.inj h
    exact .inl ⟨V', hv, List.Sublist.refl _⟩
  | _ =>
    simp only [step] at h
    split at h
    · cases h
    · obtain rfl := Option.some.inj h
      exact .inl ⟨V', hv, List.Sublist.refl _⟩

/-! ## The rows in every reachable state -/

/-- The ids are distinct, and what is in flight has a lease. -/
structure Rows (s : State) : Prop where
  ids : (s.db.webhookDeliveries.map WebhookDelivery.id).Nodup
  leases : ∀ d ∈ s.db.webhookDeliveries, d.status = .inFlight → d.lockedUntil ≠ none

theorem rows_step (he : Effect maxAttempts s l s') (h : Rows s) : Rows s' := by
  refine ⟨ids_step he h.ids, ?_⟩
  cases he with
  | fanOut hfan =>
    obtain ⟨rows, hinsert, rfl⟩ := Dispatcher.fanOut_eq_ok hfan
    intro d hd hst
    rcases Dispatcher.mem_insertDeliveries hinsert hd with hold | ⟨uid, p, -, rfl⟩
    · exact h.leases d hold hst
    · cases hst
  | claim _ _ hclaim _ =>
    obtain rfl := Dispatcher.claim_eq_ok hclaim
    exact Table.forall_update h.leases fun d _ _ _ _ => Option.some_ne_none _
  | write _ _ _ hsend =>
    obtain ⟨f, hf, rfl⟩ := Dispatcher.sendOne_eq_ok hsend
    refine Table.forall_update h.leases fun d _ _ _ hst => ?_
    rcases hf.status d with hout | hout | hout <;> cases hst.symm.trans hout
  | redeliver hredeliver =>
    obtain ⟨-, rfl⟩ := WebhookService.redeliver_eq_ok hredeliver
    exact Table.forall_update h.leases fun d _ _ _ hst => by cases hst
  | _ => exact h.leases

theorem rows_of_reachable (h : (system maxAttempts).Reachable s) : Rows s := by
  refine TransitionSystem.invariant_of_reachable (P := Rows) (fun s h₀ => ?_)
    (fun s l t _ hs hstep => rows_step (step_effect hstep) hs) h
  constructor
  · rw [h₀.deliveries]
    exact List.nodup_nil
  · intro d hd
    rw [h₀.deliveries] at hd
    cases hd

theorem rowOf_of_mem (hs : Rows s) {d : WebhookDelivery} (hd : d ∈ s.db.webhookDeliveries) :
    rowOf d.id s = some d :=
  Table.find?_eq_some_of_unique hd (decide_eq_true rfl) fun _ hd' hid =>
    List.inj_on_of_nodup_map hs.ids hd' hd (of_decide_eq_true hid)

/-- A delivery that is claimed is due. -/
theorem isDue_of_claims (hs : Rows s) (h : step maxAttempts s l = some s') {d : WebhookDelivery}
    (hd : d ∈ s.db.webhookDeliveries) (hclaims : Claims d.id ⟨s, l, s'⟩ = true) :
    Dispatcher.isDue s.now d = true := by
  cases l with
  | claim w locked ids =>
    obtain ⟨-, hbatch, -⟩ := claim_eq h
    obtain ⟨d', hd', hid, hdue⟩ :=
      (Dispatcher.isDue_of_isBatch hbatch).2 d.id (List.contains_iff_mem.mp hclaims)
    obtain rfl := List.inj_on_of_nodup_map hs.ids hd' hd hid
    exact hdue
  | _ => cases hclaims

/-! ## The deliveries in front -/

/-- In flight under a lease that has run out. -/
def isExpired (now : Timestamp) (d : WebhookDelivery) : Bool :=
  d.status = .inFlight && d.lockedUntil.any (· < now)

def expired (s : State) : ℕ := s.db.webhookDeliveries.countP (isExpired s.now)

/-- Whoever writes it, and however late: after that time nothing new falls due by it. -/
theorem dueBy_le {due : Timestamp} (hs : Rows s) (hlate : due < s.now)
    (h : step maxAttempts s l = some s') : dueBy due s' ≤ dueBy due s := by
  cases step_effect h with
  | fanOut hfan =>
    obtain ⟨rows, hinsert, rfl⟩ := Dispatcher.fanOut_eq_ok hfan
    obtain ⟨⟨new, rfl⟩, hnodup⟩ := Dispatcher.insertDeliveries_eq_ok hinsert
    have hids := hnodup hs.ids
    rw [List.map_append] at hids
    have hnew : new.countP (isDueBy due) = 0 := by
      rw [List.countP_eq_zero]
      intro d hd
      rcases Dispatcher.mem_insertDeliveries hinsert (List.mem_append_right _ hd) with
        hold | ⟨uid, p, -, rfl⟩
      · exact absurd rfl ((List.nodup_append.mp hids).2.2 _ (List.mem_map_of_mem hold) _
          (List.mem_map_of_mem hd))
      · simp [isDueBy, Dispatcher.newDelivery, not_le.mpr hlate]
    show (s.db.webhookDeliveries ++ new).countP (isDueBy due) ≤ _
    rw [List.countP_append, hnew]
    exact le_refl _
  | claim _ _ hclaim _ =>
    obtain rfl := Dispatcher.claim_eq_ok hclaim
    refine Table.countP_update_le fun d _ _ hdue => ?_
    simp [isDueBy, Dispatcher.claimed] at hdue
  | write _ _ _ hsend =>
    obtain ⟨f, hf, rfl⟩ := written_of_sendOne hsend
    refine Table.countP_update_le fun d _ _ hdue => ?_
    rw [hf.not_isDueBy hlate d] at hdue
    cases hdue
  | redeliver hredeliver =>
    obtain ⟨-, rfl⟩ := WebhookService.redeliver_eq_ok hredeliver
    refine Table.countP_update_le fun d _ _ hdue => ?_
    simp only [isDueBy, WebhookService.redelivered, Bool.and_eq_true] at hdue
    exact absurd (of_decide_eq_true hdue.2) (not_le.mpr hlate)
  | _ => exact le_refl _

/-- A claim that leaves a due delivery out takes fifty rows of those before it, and they are not all
ones whose lease has run out. -/
theorem dueBy_lt {b : WebhookDelivery} {w : WorkerId} {locked ids : List Uuid} (hs : Rows s)
    (hb : b ∈ s.db.webhookDeliveries) (hdue : Dispatcher.isDue s.now b = true)
    (hfree : b.id ∉ locked) (hleft : b.id ∉ ids) (hfew : expired s < Dispatcher.batchSize)
    (h : step maxAttempts s (.claim w locked ids) = some s') :
    dueBy b.nextAttemptAt s' < dueBy b.nextAttemptAt s := by
  obtain ⟨-, hbatch, rfl⟩ := claim_eq h
  obtain ⟨d, hd, hin, hlive⟩ : ∃ d ∈ s.db.webhookDeliveries, ids.contains d.id = true ∧
      isExpired s.now d = false := by
    by_contra hnone
    push Not at hnone
    have hle : s.db.webhookDeliveries.countP (fun d => ids.contains d.id) ≤ expired s :=
      List.countP_mono_left fun d hd hin => by simpa using hnone d hd hin
    have hfull := Table.limit_le_countP hbatch hb hdue hfree hleft
    omega
  have hmem := List.contains_iff_mem.mp hin
  have hbefore := of_decide_eq_true (Table.before_of_isBatch hbatch hd hmem hb hdue hfree hleft)
  obtain ⟨d', hd', hid, hdue'⟩ := (Dispatcher.isDue_of_isBatch hbatch).2 d.id hmem
  obtain rfl := List.inj_on_of_nodup_map hs.ids hd' hd hid
  -- what is taken and has no expired lease is waiting
  have hcounted : isDueBy b.nextAttemptAt d' = true := by
    rw [Dispatcher.isDue, show (d'.status = .inFlight && d'.lockedUntil.any (· < s.now)) = false
      from hlive, Bool.or_false, Bool.and_eq_true] at hdue'
    rw [isDueBy, hdue'.1, Bool.true_and]
    exact decide_eq_true hbefore
  have hout : ∀ d, isDueBy b.nextAttemptAt (Dispatcher.claimed s.now d) = false := by
    intro d
    simp [isDueBy, Dispatcher.claimed]
  refine Table.countP_update_lt (fun d _ _ hclaimed => ?_) hd' hin hcounted (hout d')
  rw [hout d] at hclaimed
  cases hclaimed

/-! ## What is still in hand -/

/-- The measure of one worker, or of none. -/
def ofWorker (f : Worker → ℕ) (s : State) (w : WorkerId) : ℕ := (s.workers w).elim 0 f

theorem ofWorker_of_some {f : Worker → ℕ} {w : WorkerId} {W : Worker} (h : s.workers w = some W) :
    ofWorker f s w = f W := by
  rw [ofWorker, h, Option.elim_some]

/-- How often the worker has the delivery in hand. -/
def handOf (id : Uuid) : State → WorkerId → ℕ := ofWorker fun W => W.held.count id

/-- Only a claim puts a delivery in another hand. -/
theorem handOf_step (h : step maxAttempts s l = some s') (hleft : Claims id ⟨s, l, s'⟩ = false)
    (w : WorkerId) : handOf id s' w ≤ handOf id s w := by
  cases hW' : s'.workers w with
  | none =>
    rw [handOf, ofWorker, hW']
    exact Nat.zero_le _
  | some W' =>
    have hsame : s.workers w = some W' → handOf id s' w ≤ handOf id s w := fun hW => by
      rw [handOf, ofWorker_of_some hW', ofWorker_of_some hW]
    cases step_effect h with
    | @claim v locked ids db V' hv _ _ hheld =>
      rcases workers_setWorker hW' with ⟨rfl, rfl⟩ | ⟨-, hW⟩
      · have hout : id ∉ ids := fun hin =>
          absurd (List.contains_iff_mem.mpr hin) (Bool.eq_false_iff.mp hleft)
        rw [handOf, ofWorker_of_some hW', hheld, List.count_eq_zero.mpr hout]
        exact Nat.zero_le _
      · exact hsame hW
    | release _ hv hheld =>
      rcases workers_setWorker hW' with ⟨rfl, rfl⟩ | ⟨-, hW⟩
      · rw [handOf, ofWorker_of_some hW', ofWorker_of_some hv]
        exact hheld.count_le id
      · exact hsame hW
    | @write v i delay tasks task r db hv _ _ _ =>
      rcases workers_setWorker hW' with ⟨rfl, rfl⟩ | ⟨-, hW⟩
      · rw [handOf, ofWorker_of_some hW', ofWorker_of_some hv]
        exact (held_eraseIdx_sublist tasks i).count_le id
      · exact hsame hW
    | _ => exact hsame hW'

/-- A worker that records an outcome is done with that task. -/
theorem Records.eraseIdx {w : WorkerId} {work : Work} {r : SendResult}
    (h : Records maxAttempts id ⟨s, l, s'⟩ w work r) (hstep : step maxAttempts s l = some s') :
    ∃ tasks i, s.workers w = some (.sending tasks) ∧
      s'.workers w = some (.sending (tasks.eraseIdx i)) ∧
      tasks[i]? = some { work, result := some r } := by
  obtain ⟨i, delay, tasks, db, rfl, hw, ht, hsend⟩ := h.sent
  change s.workers w = some (.sending tasks) at hw
  simp only [step, writeStep, hw, ht] at hstep
  split_ifs at hstep
  split at hstep
  all_goals
    obtain rfl := Option.some.inj hstep
    exact ⟨tasks, i, hw, if_pos rfl, ht⟩

theorem countP_eraseIdx_lt {α : Type*} {p : α → Bool} {as : List α} {i : ℕ} {a : α}
    (h : as[i]? = some a) (ha : p a = true) : (as.eraseIdx i).countP p < as.countP p := by
  obtain ⟨hi, rfl⟩ := List.getElem?_eq_some_iff.mp h
  rw [← (List.getElem_cons_eraseIdx_perm hi).countP_eq p, List.countP_cons_of_pos ha]
  exact Nat.lt_succ_self _

theorem handOf_lt {w : WorkerId} {work : Work} {r : SendResult}
    (h : Records maxAttempts id ⟨s, l, s'⟩ w work r) (hstep : step maxAttempts s l = some s') :
    handOf id s' w < handOf id s w := by
  obtain ⟨tasks, i, hw, hw', ht⟩ := h.eraseIdx hstep
  rw [handOf, ofWorker_of_some hw, ofWorker_of_some hw', Worker.held, Worker.held,
    List.count_eq_countP, List.count_eq_countP, List.countP_map, List.countP_map]
  exact countP_eraseIdx_lt ht (beq_iff_eq.mpr h.ofDelivery)

/-- Worker ids from some on are unused. -/
theorem exists_unused (h : (system maxAttempts).Reachable s) :
    ∃ B, ∀ w, B ≤ w → s.workers w = none := by
  refine TransitionSystem.invariant_of_reachable
    (P := fun s => ∃ B, ∀ w, B ≤ w → s.workers w = none) ?_ ?_ h
  · intro s h₀
    exact ⟨0, fun w _ => by rw [h₀.workers]⟩
  · rintro s l s' - ⟨B, hB⟩ hstep
    have hclaimer : ∃ B', ∀ v locked ids, l = .claim v locked ids → v < B' := by
      cases l with
      | claim v locked ids =>
        refine ⟨v + 1, fun v' locked' ids' hl => ?_⟩
        obtain rfl := (Label.claim.inj hl).1
        exact Nat.lt_succ_self v
      | _ => exact ⟨0, fun v locked ids hl => by cases hl⟩
    obtain ⟨B', hB'⟩ := hclaimer
    refine ⟨max B B', fun w hw => ?_⟩
    cases hW' : s'.workers w with
    | none => rfl
    | some W' =>
      rcases worker_cases (step_effect hstep) hW' with ⟨W, hW⟩ | ⟨locked, ids, hl⟩
      · rw [hB w ((le_max_left _ _).trans hw)] at hW
        cases hW
      · exact absurd ((le_max_right B B').trans hw) (not_le.mpr (hB' w locked ids hl))

/-! ## Dispatchers that keep up -/

/-- Time passes, and from any moment on somebody claims who does not find the row locked, when fewer
than fifty leases have run out. -/
structure KeepsUp (e : (system maxAttempts).Execution) (id : Uuid) : Prop where
  clock : ∀ t : Timestamp, ∃ n, t ≤ (e.state n).now
  claims : ∀ n, ∃ m, n ≤ m ∧ (∃ w locked ids, e.label m = .claim w locked ids ∧ id ∉ locked) ∧
    expired (e.state m) < Dispatcher.batchSize

section Execution

variable {e : (system maxAttempts).Execution}

theorem now_mono (e : (system maxAttempts).Execution) {n m : ℕ} (h : n ≤ m) :
    (e.state n).now ≤ (e.state m).now :=
  e.keeps (P := fun s => (e.state n).now ≤ s.now) (le_refl _)
    (fun m _ hm => hm.trans (step_effect (e.step m)).now_le) h

/-- A delivery that is there stays there. -/
theorem exists_row {n : ℕ} (h : ∃ d, rowOf id (e.state n) = some d) {m : ℕ} (hm : n ≤ m) :
    ∃ d, rowOf id (e.state m) = some d := by
  refine e.keeps (P := fun s => ∃ d, rowOf id s = some d) h (fun m _ hrow => ?_) hm
  obtain ⟨d, hd⟩ := hrow
  obtain ⟨d', hd', -⟩ := row_step (e.step m) hd
  exact ⟨d', hd'⟩

/-- A delivery that is due and never changes is claimed. -/
theorem exists_claim (h₀ : (system maxAttempts).Initial (e.state 0)) {b : WebhookDelivery}
    (hkeeps : KeepsUp e b.id) {n : ℕ}
    (hwaits : ∀ m, n ≤ m → rowOf b.id (e.state m) = some b ∧
      Dispatcher.isDue (e.state m).now b = true ∧ b.nextAttemptAt < (e.state m).now) :
    ∃ m, n ≤ m ∧ Claims b.id (e.transition m) = true := by
  have hrows := fun m => rows_of_reachable (e.reachable h₀ m)
  by_contra hnone
  push Not at hnone
  have hfalse : ∃ m, n ≤ m ∧ False := by
    refine TransitionSystem.exists_of_rank (fun m => dueBy b.nextAttemptAt (e.state m))
      fun m hm _ => ?_
    obtain ⟨m', hm', ⟨w, locked, ids, hl, hfree⟩, hfew⟩ := hkeeps.claims m
    have hmm := hm.trans hm'
    have hbefore : dueBy b.nextAttemptAt (e.state m') ≤ dueBy b.nextAttemptAt (e.state m) :=
      e.keeps (P := fun s => dueBy b.nextAttemptAt s ≤ dueBy b.nextAttemptAt (e.state m))
        (le_refl _) (fun k hk hle =>
          (dueBy_le (hrows k) (hwaits k (hm.trans hk)).2.2 (e.step k)).trans hle) hm'
    have hstep : step maxAttempts (e.state m') (.claim w locked ids) = some (e.state (m' + 1)) := by
      rw [← hl]
      exact e.step m'
    have hleft : b.id ∉ ids := by
      intro hin
      have hclaims : Claims b.id (e.transition m') = true := by
        simp only [Claims, Execution.transition, hl, List.contains_iff_mem.mpr hin]
      exact hnone m' hmm hclaims
    obtain ⟨hrow, hdue, -⟩ := hwaits m' hmm
    exact ⟨m' + 1, Nat.le_succ_of_le hm',
      (dueBy_lt (hrows m') (of_rowOf hrow).1 hdue hfree hleft hfew hstep).trans_le hbefore⟩
  obtain ⟨-, -, hfalse⟩ := hfalse
  exact hfalse

/-- A row that nobody writes any more. -/
structure Untouched (e : (system maxAttempts).Execution) (id : Uuid) (n : ℕ) : Prop where
  unclaimed : ∀ m, n ≤ m → Claims id (e.transition m) = false
  unrecorded : ∀ m, n ≤ m → ∀ w work r, ¬ Records maxAttempts id (e.transition m) w work r

theorem Untouched.row_step {n m : ℕ} (h : Untouched e id n) (hm : n ≤ m) {d : WebhookDelivery}
    (hd : rowOf id (e.state m) = some d) :
    rowOf id (e.state (m + 1)) = some d ∨ (Replays id (e.transition m) = true ∧
      (d.status = .failed ∨ d.status = .dead) ∧
      rowOf id (e.state (m + 1)) = some (WebhookService.redelivered (e.state m).now d)) := by
  obtain ⟨d', hd', hrow⟩ := Webhooks.row_step (e.step m) hd
  obtain rfl := (of_rowOf hd).2
  cases hrow with
  | same => exact .inl hd'
  | claimed hclaims =>
    rw [show Claims d.id ⟨e.state m, e.label m, e.state (m + 1)⟩ = false from
      h.unclaimed m hm] at hclaims
    cases hclaims
  | recorded hrecords _ => exact absurd hrecords (h.unrecorded m hm _ _ _)
  | replayed hreplays hst => exact .inr ⟨hreplays, hst, hd'⟩

/-- A delivery that has not ended does not stay as it is. -/
theorem Untouched.not_waiting {n : ℕ} (h : Untouched e id n)
    (h₀ : (system maxAttempts).Initial (e.state 0)) (hkeeps : KeepsUp e id) {b : WebhookDelivery}
    (hst : ¬ b.status.IsTerminal) {k : ℕ} (hk : n ≤ k)
    (hstays : ∀ m, k ≤ m → rowOf id (e.state m) = some b) : False := by
  obtain ⟨hb, rfl⟩ := of_rowOf (hstays k (le_refl k))
  obtain ⟨k', hk'⟩ := hkeeps.clock (max (b.nextAttemptAt + 1) (b.lockedUntil.getD 0 + 1))
  obtain ⟨m, hm, hclaims⟩ := exists_claim h₀ hkeeps (n := max k k') fun m hm => by
    have hnow := hk'.trans (now_mono e ((le_max_right k k').trans hm))
    have hnext : b.nextAttemptAt < (e.state m).now :=
      Int.lt_of_add_one_le ((le_max_left _ _).trans hnow)
    have hlease : b.lockedUntil.getD 0 < (e.state m).now :=
      Int.lt_of_add_one_le ((le_max_right _ _).trans hnow)
    refine ⟨hstays m ((le_max_left _ _).trans hm), ?_, hnext⟩
    cases hstatus : b.status with
    | pending => simp [Dispatcher.isDue, hstatus, hnext.le]
    | failed => simp [Dispatcher.isDue, hstatus, hnext.le]
    | inFlight =>
      obtain ⟨t, ht⟩ := Option.ne_none_iff_exists'.mp
        ((rows_of_reachable (e.reachable h₀ k)).leases b hb hstatus)
      rw [ht, Option.getD_some] at hlease
      simp [Dispatcher.isDue, hstatus, ht, hlease]
    | succeeded => exact absurd (.inl hstatus) hst
    | dead => exact absurd (.inr hstatus) hst
  rw [h.unclaimed m (hk.trans ((le_max_left _ _).trans hm))] at hclaims
  cases hclaims

/-- So it has ended, and stays so. -/
theorem Untouched.ended {n : ℕ} (h : Untouched e id n)
    (h₀ : (system maxAttempts).Initial (e.state 0)) (hkeeps : KeepsUp e id)
    {d : WebhookDelivery} (hd : rowOf id (e.state n) = some d) :
    d.status.IsTerminal ∧ ∀ m, n ≤ m → rowOf id (e.state m) = some d := by
  have hpending : ∀ k, n ≤ k → ∀ b, rowOf id (e.state k) = some b → b.status ≠ .pending := by
    intro k hk b hb hst
    refine h.not_waiting h₀ hkeeps (b := b) ?_ hk fun m hm =>
      e.keeps (P := fun s => rowOf id s = some b) hb (fun m hm hrow => ?_) hm
    · rw [hst]
      rintro (hsucceeded | hdead)
      · cases hsucceeded
      · cases hdead
    · rcases h.row_step (hk.trans hm) hrow with hsame | ⟨-, hfailed, -⟩
      · exact hsame
      · rw [hst] at hfailed
        rcases hfailed with hfailed | hdead
        · cases hfailed
        · cases hdead
  -- a replay would make it pending
  have hstays : ∀ m, n ≤ m → rowOf id (e.state m) = some d := fun m hm =>
    e.keeps (P := fun s => rowOf id s = some d) hd (fun m hm hrow => by
      rcases h.row_step hm hrow with hsame | ⟨-, -, hreplayed⟩
      · exact hsame
      · exact absurd rfl (hpending (m + 1) (Nat.le_succ_of_le hm) _ hreplayed)) hm
  refine ⟨?_, hstays⟩
  by_contra hst
  exact h.not_waiting h₀ hkeeps hst (le_refl n) hstays

/-- The status of a delivery. -/
def statusOf (id : Uuid) (s : State) : Option DeliveryStatus :=
  (rowOf id s).map WebhookDelivery.status

/-- Whatever crashes, gets lost or comes too late: a delivery is claimed again and again, or it
ends once and for all. -/
theorem claimed_or_ended (h₀ : (system maxAttempts).Initial (e.state 0)) (hkeeps : KeepsUp e id)
    {k : ℕ} (hrow : ∃ d ∈ (e.state k).db.webhookDeliveries, d.id = id) :
    (∀ n, ∃ m, n ≤ m ∧ Claims id (e.transition m) = true) ∨
      ∃ n st, st.IsTerminal ∧ ∀ m, n ≤ m → statusOf id (e.state m) = some st := by
  by_cases hclaims : ∀ n, ∃ m, n ≤ m ∧ Claims id (e.transition m) = true
  · exact .inl hclaims
  right
  push Not at hclaims
  obtain ⟨N, hN⟩ := hclaims
  have hunclaimed : ∀ m, max N k ≤ m → Claims id (e.transition m) = false := fun m hm =>
    Bool.eq_false_iff.mpr (hN m ((le_max_left N k).trans hm))
  -- what is in hand is recorded only so often
  have hfew : ∃ B, ∀ w, B ≤ w → handOf id (e.state (max N k)) w = 0 := by
    obtain ⟨B, hB⟩ := exists_unused (e.reachable h₀ (max N k))
    exact ⟨B, fun w hw => by rw [handOf, ofWorker, hB w hw, Option.elim_none]⟩
  have hgiven : ∀ m, max N k ≤ m → (∃ w work r, Records maxAttempts id (e.transition m) w work r) →
      ∃ w, handOf id (e.state (m + 1)) w < handOf id (e.state m) w := by
    rintro m - ⟨w, work, r, hrecords⟩
    exact ⟨w, handOf_lt hrecords (e.step m)⟩
  obtain ⟨n, hn, hunrecorded⟩ := TransitionSystem.exists_no_more_given
    (fun m => handOf id (e.state m)) hfew (fun m hm => handOf_step (e.step m) (hunclaimed m hm))
    hgiven
  have huntouched : Untouched e id n :=
    ⟨fun m hm => hunclaimed m (hn.trans hm),
      fun m hm w work r hrecords => hunrecorded m hm ⟨w, work, r, hrecords⟩⟩
  obtain ⟨d, hd⟩ := exists_row (exists_rowOf hrow) ((le_max_right N k).trans hn)
  obtain ⟨hst, hstays⟩ := huntouched.ended h₀ hkeeps hd
  exact ⟨n, d.status, hst, fun m hm => by rw [statusOf, hstays m hm, Option.map_some]⟩

end Execution

/-! ## A delivery that is heard of -/

/-- How many outcomes of the delivery the worker may still write as a failure to be retried: it has
read the counter below the budget. -/
def staleOf (maxAttempts : Int) (id : Uuid) : State → WorkerId → ℕ :=
  ofWorker fun W => W.works.countP fun work =>
    work.deliveryId = id && decide (work.attempts < maxAttempts)

theorem attemptsOf_eq (hs : Rows s) {d : WebhookDelivery} (hd : d ∈ s.db.webhookDeliveries) :
    attemptsOf s d.id = d.attempts := by
  rw [attemptsOf, ← rowOf, rowOf_of_mem hs hd, Option.map_some, Option.getD_some]

/-- Once the budget is spent nobody reads the counter below it. -/
theorem staleOf_step (hs : Rows s) (hspent : maxAttempts ≤ attemptsOf s id)
    (h : step maxAttempts s l = some s') (w : WorkerId) :
    staleOf maxAttempts id s' w ≤ staleOf maxAttempts id s w := by
  cases hW' : s'.workers w with
  | none =>
    rw [staleOf, ofWorker, hW']
    exact Nat.zero_le _
  | some W' =>
    rw [staleOf, ofWorker_of_some hW']
    rcases works_step h hW' with ⟨W, hW, hsub⟩ | hnil | ⟨ids, hread⟩
    · rw [ofWorker_of_some hW]
      exact hsub.countP_le
    · rw [hnil]
      exact Nat.zero_le _
    · rw [hread]
      refine (List.countP_eq_zero.mpr fun work hwork hstale => ?_).le.trans (Nat.zero_le _)
      obtain ⟨d, hd, hid, hattempts⟩ := row_of_hydrate hwork
      simp only [Bool.and_eq_true, decide_eq_true_eq] at hstale
      rw [← hstale.1, ← hid, attemptsOf_eq hs hd, hattempts] at hspent
      exact absurd hstale.2 (not_lt.mpr hspent)

theorem staleOf_lt {w : WorkerId} {work : Work} {r : SendResult}
    (h : Records maxAttempts id ⟨s, l, s'⟩ w work r) (hstale : work.attempts < maxAttempts)
    (hstep : step maxAttempts s l = some s') :
    staleOf maxAttempts id s' w < staleOf maxAttempts id s w := by
  obtain ⟨tasks, i, hw, hw', ht⟩ := h.eraseIdx hstep
  rw [staleOf, ofWorker_of_some hw, ofWorker_of_some hw', Worker.works, Worker.works,
    List.countP_map, List.countP_map]
  refine countP_eraseIdx_lt ht ?_
  simp [h.ofDelivery, hstale]

/-- No further attempt follows once the budget is spent. -/
theorem Written.isTerminal {now : Timestamp} {attempts : Int} {r : SendResult} {delay : ℕ}
    {f : WebhookDelivery → WebhookDelivery} (hf : Written now maxAttempts attempts r delay f)
    (hspent : maxAttempts ≤ attempts) (d : WebhookDelivery) : (f d).status.IsTerminal := by
  rw [hf.status d]
  by_cases hsuccess : isSuccess r = true
  · rw [if_pos hsuccess]
    exact .inl rfl
  · rw [if_neg hsuccess, if_pos (by simp [hspent])]
    exact .inr rfl

/-- The delivery has ended. -/
def HasEnded (id : Uuid) (s : State) : Prop := ∃ d, rowOf id s = some d ∧ d.status.IsTerminal

theorem not_claims_of_hasEnded (hs : Rows s) (hended : HasEnded id s)
    (h : step maxAttempts s l = some s') : Claims id ⟨s, l, s'⟩ = false := by
  obtain ⟨d, hd, hst⟩ := hended
  obtain ⟨hmem, rfl⟩ := of_rowOf hd
  refine Bool.eq_false_iff.mpr fun hclaims => ?_
  have hdue := isDue_of_claims hs h hmem hclaims
  rcases hst with hst | hst <;> simp [Dispatcher.isDue, hst] at hdue

/-- The last outcome ends it. -/
theorem Records.hasEnded {w : WorkerId} {work : Work} {r : SendResult}
    (h : Records maxAttempts id ⟨s, l, s'⟩ w work r) (hspent : maxAttempts ≤ work.attempts)
    (hstep : step maxAttempts s l = some s') (hrow : ∃ d, rowOf id s = some d) :
    HasEnded id s' := by
  obtain ⟨d, hd⟩ := hrow
  obtain ⟨hmem, rfl⟩ := of_rowOf hd
  obtain ⟨i, delay, tasks, db, rfl, hw, ht, hsend⟩ := h.sent
  change s.workers w = some (.sending tasks) at hw
  change Dispatcher.sendOne s.db s.now maxAttempts work r delay = .ok db at hsend
  simp only [step, writeStep, hw, ht, hsend] at hstep
  split_ifs at hstep
  obtain rfl := Option.some.inj hstep
  obtain ⟨f, hf, rfl⟩ := written_of_sendOne hsend
  refine ⟨_, rowOf_update rfl hf.outcome.id hd, ?_⟩
  rw [if_pos (decide_eq_true h.ofDelivery.symm)]
  exact hf.isTerminal hspent d

theorem hasEnded_step (hs : Rows s) (h : step maxAttempts s l = some s')
    (hreplays : Replays id ⟨s, l, s'⟩ = false)
    (hlast : ∀ w work r, Records maxAttempts id ⟨s, l, s'⟩ w work r → maxAttempts ≤ work.attempts)
    (hended : HasEnded id s) : HasEnded id s' := by
  have hunclaimed := not_claims_of_hasEnded hs hended h
  obtain ⟨d, hd, hst⟩ := hended
  obtain ⟨d', hd', hrow⟩ := row_step h hd
  obtain ⟨-, rfl⟩ := of_rowOf hd
  cases hrow with
  | same => exact ⟨d, hd', hst⟩
  | claimed hclaims => exact absurd hclaims (Bool.eq_false_iff.mp hunclaimed)
  | recorded hrecords hf => exact ⟨_, hd', hf.isTerminal (hlast _ _ _ hrecords) d⟩
  | replayed hagain _ => exact absurd hagain (Bool.eq_false_iff.mp hreplays)

section Execution

variable {e : (system maxAttempts).Execution}

/-- From some moment on nobody replays the delivery, and its outcomes are not all lost: if it is
claimed again and again, so are they recorded. -/
structure IsHeard (e : (system maxAttempts).Execution) (id : Uuid) (N : ℕ) : Prop where
  replays : ∀ m, N ≤ m → Replays id (e.transition m) = false
  records : (∀ n, ∃ m, n ≤ m ∧ Claims id (e.transition m) = true) →
    ∀ n, ∃ m, n ≤ m ∧ ∃ w work r, Records maxAttempts id (e.transition m) w work r

/-- A delivery that is claimed again and again spends its budget. -/
theorem exists_spent {N : ℕ} (hreplays : ∀ m, N ≤ m → Replays id (e.transition m) = false)
    (hclaims : ∀ n, ∃ m, n ≤ m ∧ Claims id (e.transition m) = true) :
    ∃ n, N ≤ n ∧ ∀ m, n ≤ m → maxAttempts ≤ attemptsOf (e.state m) id := by
  have hstep : ∀ m, N ≤ m → attemptsOf (e.state (m + 1)) id =
      attemptsOf (e.state m) id + if Claims id (e.transition m) then 1 else 0 := fun m hm =>
    attemptsOf_step (step_effect (e.step m)) (hreplays m hm)
  have hmono : ∀ {n m}, N ≤ n → n ≤ m → attemptsOf (e.state n) id ≤ attemptsOf (e.state m) id := by
    intro n m hn hm
    refine e.keeps (P := fun s => attemptsOf (e.state n) id ≤ attemptsOf s id) (le_refl _)
      (fun k hk hle => ?_) hm
    rw [hstep k (hn.trans hk)]
    split_ifs <;> omega
  have hspends : ∃ n, N ≤ n ∧ maxAttempts ≤ attemptsOf (e.state n) id := by
    refine TransitionSystem.exists_of_rank
      (fun m => (maxAttempts - attemptsOf (e.state m) id).toNat) fun m hm hleft => ?_
    obtain ⟨m', hm', hclaim⟩ := hclaims m
    have hnext := hstep m' (hm.trans hm')
    have hle := hmono hm hm'
    rw [if_pos hclaim] at hnext
    exact ⟨m' + 1, Nat.le_succ_of_le hm', by omega⟩
  obtain ⟨n, hn, hspent⟩ := hspends
  exact ⟨n, hn, fun m hm => hspent.trans (hmono hn hm)⟩

/-- Every delivery ends, for good. -/
theorem eventually_ended (h₀ : (system maxAttempts).Initial (e.state 0)) (hkeeps : KeepsUp e id)
    {N : ℕ} (hheard : IsHeard e id N) (hrow : ∃ d ∈ (e.state N).db.webhookDeliveries, d.id = id) :
    ∃ n st, st.IsTerminal ∧ ∀ m, n ≤ m → statusOf id (e.state m) = some st := by
  have hrows := fun m => rows_of_reachable (e.reachable h₀ m)
  refine (claimed_or_ended h₀ hkeeps hrow).resolve_left fun hclaims => ?_
  obtain ⟨n₁, hn₁, hspent⟩ := exists_spent hheard.replays hclaims
  have hfew : ∃ B, ∀ w, B ≤ w → staleOf maxAttempts id (e.state n₁) w = 0 := by
    obtain ⟨B, hB⟩ := exists_unused (e.reachable h₀ n₁)
    exact ⟨B, fun w hw => by rw [staleOf, ofWorker, hB w hw, Option.elim_none]⟩
  -- after the last outcome that can be retried
  have hgiven : ∀ m, n₁ ≤ m → (∃ w work r, Records maxAttempts id (e.transition m) w work r ∧
      work.attempts < maxAttempts) → ∃ w, staleOf maxAttempts id (e.state (m + 1)) w <
        staleOf maxAttempts id (e.state m) w := by
    rintro m - ⟨w, work, r, hrecords, hstale⟩
    exact ⟨w, staleOf_lt hrecords hstale (e.step m)⟩
  obtain ⟨n₂, hn₂, hlast⟩ := TransitionSystem.exists_no_more_given
    (fun m => staleOf maxAttempts id (e.state m)) hfew
    (fun m hm => staleOf_step (hrows m) (hspent m hm) (e.step m)) hgiven
  obtain ⟨m, hm, w, work, r, hrecords⟩ := hheard.records hclaims n₂
  have hfinal : ∀ k, n₂ ≤ k → ∀ w work r, Records maxAttempts id (e.transition k) w work r →
      maxAttempts ≤ work.attempts := fun k hk w work r hk' =>
    not_lt.mp fun hlt => hlast k hk ⟨w, work, r, hk', hlt⟩
  have hN : N ≤ m := hn₁.trans (hn₂.trans hm)
  have hended : HasEnded id (e.state (m + 1)) :=
    hrecords.hasEnded (hfinal m hm w work r hrecords) (e.step m) (exists_row (exists_rowOf hrow) hN)
  -- and what has ended is not claimed again
  obtain ⟨k, hk, hclaim⟩ := hclaims (m + 1)
  have hstill : HasEnded id (e.state k) :=
    e.keeps (P := HasEnded id) hended (fun j hj => hasEnded_step (hrows j) (e.step j)
      (hheard.replays j (hN.trans (Nat.le_of_succ_le hj)))
      (hfinal j (hm.trans (Nat.le_of_succ_le hj)))) hk
  rw [Execution.transition, not_claims_of_hasEnded (hrows k) hstill (e.step k)] at hclaim
  cases hclaim

end Execution

/-! ## The delivery that is refused -/

section Refused

variable {e : (system 8).Execution}

theorem Refused.keepsUp (h : Refused e) : KeepsUp e (shopId 40) := by
  constructor
  · intro t
    obtain ⟨n, -, hnow, -⟩ := h.loneDispatcher.goesOn 0 t
    exact ⟨n, hnow.le⟩
  · intro n
    obtain ⟨m, hm, -, w, locked, ids, hl⟩ := h.loneDispatcher.goesOn (max n 22) 0
    refine ⟨m, (le_max_left n 22).trans hm, ⟨w, locked, ids, hl, ?_⟩, ?_⟩
    · rw [(h.label_cases m).2 w locked ids hl]
      exact List.not_mem_nil
    · obtain ⟨k, rfl⟩ := Nat.exists_eq_add_of_le ((le_max_right n 22).trans hm)
      have hnone : expired (e.state (22 + k)) = 0 := by
        refine List.countP_eq_zero.mpr fun d hd => ?_
        simp [isExpired, not_inFlight_of_terminal ((h.later k).1.done d hd)]
      rw [hnone]
      decide

theorem Refused.isHeard (h : Refused e) : IsHeard e (shopId 40) 3 := by
  refine ⟨fun m hm => h.attended.replays m hm, fun hclaims => ?_⟩
  -- it is not claimed any more
  obtain ⟨m, hm, hclaim⟩ := hclaims 22
  obtain ⟨k, rfl⟩ := Nat.exists_eq_add_of_le hm
  simp only [Claims, Execution.transition, (h.later k).2, idleLabel] at hclaim
  split_ifs at hclaim
  cases hclaim

theorem Refused.row (h : Refused e) :
    ∃ d ∈ (e.state 3).db.webhookDeliveries, d.id = shopId 40 := by
  obtain ⟨d, hd, hid, -⟩ := lives_starts (e.step 2) h.attended.starts
  exact ⟨d, hd, hid⟩

/-- It is claimed four times on the way. -/
theorem Refused.claims (h : Refused e) : (e.window 0 22).countP (Claims (shopId 40)) = 4 := by
  rw [h.first]
  decide +kernel

end Refused

theorem claimed_or_ended_refused :
    ∃ e : (system 8).Execution, e.state 0 = shop ∧ KeepsUp e (shopId 40) ∧
      (e.window 0 22).countP (Claims (shopId 40)) = 4 ∧
      ((∀ n, ∃ m, n ≤ m ∧ Claims (shopId 40) (e.transition m) = true) ∨
        ∃ n st, st.IsTerminal ∧ ∀ m, n ≤ m → statusOf (shopId 40) (e.state m) = some st) := by
  obtain ⟨e, h⟩ := exists_refused
  exact ⟨e, h.start, h.keepsUp, h.claims,
    claimed_or_ended (h.start ▸ shop_initial) h.keepsUp h.row⟩

theorem eventually_ended_refused :
    ∃ e : (system 8).Execution, e.state 0 = shop ∧ IsHeard e (shopId 40) 3 ∧
      (e.window 0 22).countP (Claims (shopId 40)) = 4 ∧
      ∃ n st, st.IsTerminal ∧ ∀ m, n ≤ m → statusOf (shopId 40) (e.state m) = some st := by
  obtain ⟨e, h⟩ := exists_refused
  exact ⟨e, h.start, h.isHeard, h.claims,
    eventually_ended (h.start ▸ shop_initial) h.keepsUp h.isHeard h.row⟩

end InvoicePayment.Webhooks
