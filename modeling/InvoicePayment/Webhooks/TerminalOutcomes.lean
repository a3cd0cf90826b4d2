import InvoicePayment.Webhooks.Effects

/-!
# Terminal outcomes

`markSucceeded` and `markFailed` address a delivery by its id alone, so what protects an
outcome is the lease: as long as no worker claims a delivery another one is still at work on, a
delivery in hand is in flight and its latest claim is the worker's own, and a delivery that is
succeeded or dead is nobody's (`terminal_outcomes_stay`). A send that outlives its lease
overwrites what the next worker has written.
-/

namespace InvoicePayment

/-- A delivery nothing but a manual replay should touch again. -/
def DeliveryStatus.IsTerminal (status : DeliveryStatus) : Prop :=
  status = .succeeded ∨ status = .dead

namespace Webhooks

variable {maxAttempts : Int} {s s' : State} {l : Label}

/-- A succeeded or dead delivery leaves its status in no step but its replay. -/
def TerminalStays (x : Step) : Prop :=
  ∀ d ∈ x.pre.db.webhookDeliveries, d.status.IsTerminal →
    ∀ d' ∈ x.post.db.webhookDeliveries, d'.id = d.id →
    d'.status = d.status ∨ ∃ businessId, x.label = .redeliver businessId d.id

/-- An outcome is written by the worker whose claim is the latest one. -/
def WritesLatest (x : Step) : Prop :=
  ∀ w i delay tasks task, x.label = .write w i delay → x.pre.workers w = some (.sending tasks) →
    tasks[i]? = some task → x.pre.claimedBy task.work.deliveryId = some w

/-- No claim takes a delivery a live worker has claimed and written no outcome for. -/
def ClaimsReleased (x : Step) : Prop :=
  ∀ w locked ids, x.label = .claim w locked ids → ∀ v V, x.pre.workers v = some V →
    ∀ id ∈ V.held, id ∉ ids

/-- A delivery in the hands of `w`. -/
structure HeldBy (s : State) (w : WorkerId) (id : Uuid) : Prop where
  row : ∃ d ∈ s.db.webhookDeliveries, d.id = id
  inFlight : ∀ d ∈ s.db.webhookDeliveries, d.id = id → d.status = .inFlight
  claimed : s.claimedBy id = some w

/-- The invariant: what a worker has in hand is in flight and claimed by it alone. -/
structure Leased (s : State) : Prop where
  ids : (s.db.webhookDeliveries.map WebhookDelivery.id).Nodup
  once : ∀ w W, s.workers w = some W → W.held.Nodup
  held : ∀ w W, s.workers w = some W → ∀ id ∈ W.held, HeldBy s w id

/-! ## Rows and workers -/

/-- Deliveries with one id are one row. -/
theorem Leased.delivery_eq (h : Leased s) {d d' : WebhookDelivery}
    (hd : d ∈ s.db.webhookDeliveries) (hd' : d' ∈ s.db.webhookDeliveries) (hid : d.id = d'.id) :
    d = d' := List.inj_on_of_nodup_map h.ids hd hd' hid

theorem not_inFlight_of_terminal {status : DeliveryStatus} (h : status.IsTerminal) :
    status ≠ .inFlight := by
  rcases h with rfl | rfl <;> exact DeliveryStatus.noConfusion

/-- A terminal delivery is in nobody's hands. -/
theorem Leased.not_held (h : Leased s) {d : WebhookDelivery} (hd : d ∈ s.db.webhookDeliveries)
    (hterminal : d.status.IsTerminal) {w : WorkerId} {W : Worker} (hw : s.workers w = some W) :
    d.id ∉ W.held := fun hheld =>
  not_inFlight_of_terminal hterminal ((h.held w W hw d.id hheld).inFlight d hd rfl)

/-- The `i`-th task of a worker is for a delivery it holds. -/
theorem mem_held_of_task {tasks : List Task} {i : ℕ} {task : Task} (h : tasks[i]? = some task) :
    task.work.deliveryId ∈ (Worker.sending tasks).held :=
  List.mem_map.mpr ⟨task, List.mem_of_getElem? h, rfl⟩

theorem workers_setWorker {w v : WorkerId} {W V : Worker}
    (h : (s.setWorker w W).workers v = some V) :
    (v = w ∧ V = W) ∨ (v ≠ w ∧ s.workers v = some V) := by
  simp only [State.setWorker] at h
  split_ifs at h with hv
  · exact .inl ⟨hv, (Option.some.inj h).symm⟩
  · exact .inr ⟨hv, h⟩

/-- A worker that has written the outcome of a task holds the others, and not that one. -/
theorem not_mem_held_eraseIdx {tasks : List Task} {i : ℕ} {task : Task}
    (hnodup : (Worker.sending tasks).held.Nodup) (h : tasks[i]? = some task) :
    task.work.deliveryId ∉ (Worker.sending (tasks.eraseIdx i)).held := by
  intro hmem
  obtain ⟨task', htask', hid⟩ := List.mem_map.mp hmem
  obtain ⟨j, hji, hj⟩ := List.mem_eraseIdx_iff_getElem?.mp htask'
  obtain ⟨hi', hi⟩ := List.getElem?_eq_some_iff.mp h
  obtain ⟨hj', hj⟩ := List.getElem?_eq_some_iff.mp hj
  have hjd : j < (Worker.sending tasks).held.length := by
    simpa [Worker.held] using hj'
  have hid' : i < (Worker.sending tasks).held.length := by
    simpa [Worker.held] using hi'
  have hsame : (Worker.sending tasks).held[j] = (Worker.sending tasks).held[i] := by
    simp [Worker.held, hi, hj, hid]
  exact hji ((List.Nodup.getElem_inj_iff hnodup).mp hsame)

/-! ## One step -/

/-- A change to the rows of other deliveries, and to other claims, leaves a delivery in hand. -/
theorem HeldBy.update {p : WebhookDelivery → Bool} {f : WebhookDelivery → WebhookDelivery}
    {w : WorkerId} {id : Uuid} (h : HeldBy s w id)
    (hdb : s'.db.webhookDeliveries = Table.update p f s.db.webhookDeliveries)
    (hf : ∀ d, (f d).id = d.id) (hp : ∀ d, d.id = id → p d = false)
    (hclaim : s'.claimedBy id = s.claimedBy id) : HeldBy s' w id := by
  constructor
  · obtain ⟨d, hd, hid⟩ := h.row
    rw [hdb]
    exact ⟨d, Table.mem_update_of_not hd (hp d hid), hid⟩
  · intro d' hd' hid
    rw [hdb] at hd'
    obtain ⟨d, hd, rfl⟩ := Table.mem_update.mp hd'
    split_ifs at hid ⊢ with hpd
    · rw [hf d] at hid
      rw [hp d hid] at hpd
      cases hpd
    · exact h.inFlight d hd hid
  · rw [hclaim]
    exact h.claimed

theorem leased_claim (h : Leased s) {w : WorkerId} {locked ids : List Uuid} {db : Db}
    {W' : Worker} (hbatch : Dispatcher.isBatch s.db s.now locked ids = true)
    (hclaim : Dispatcher.claim s.db s.now ids = .ok db) (hheld : W'.held = ids)
    (hrel : ∀ v V, s.workers v = some V → ∀ id ∈ V.held, id ∉ ids) :
    Leased (((s.setDb db).setClaim ids (some w)).setWorker w W') := by
  obtain ⟨hnodup, hdue⟩ := Dispatcher.isDue_of_isBatch hbatch
  obtain rfl := Dispatcher.claim_eq_ok hclaim
  constructor
  · exact ids_update (fun _ => rfl) h.ids
  · intro v V hv
    rcases workers_setWorker hv with ⟨-, rfl⟩ | ⟨-, hv⟩
    · rw [hheld]
      exact hnodup
    · exact h.once v V hv
  · intro v V hv id hid
    rcases workers_setWorker hv with ⟨rfl, rfl⟩ | ⟨-, hv⟩
    · -- the worker's own batch
      rw [hheld] at hid
      have hin : ids.contains id = true := List.contains_iff_mem.mpr hid
      obtain ⟨d, hd, rfl, -⟩ := hdue id hid
      refine ⟨⟨_, Table.mem_update_of_pos hd hin, rfl⟩, ?_, if_pos hin⟩
      intro d' hd' hid'
      obtain ⟨e, he, rfl⟩ := Table.mem_update.mp hd'
      split_ifs at hid' ⊢ with hout
      · rfl
      · rw [hid'] at hout
        exact absurd hin hout
    · -- the batches of the others are out of it
      have hout : ids.contains id = false := by
        by_contra hin
        exact hrel v V hv id hid (List.contains_iff_mem.mp (by simpa using hin))
      refine (h.held v V hv id hid).update rfl (fun _ => rfl) (fun d hd => ?_) ?_
      · rw [hd]
        exact hout
      · show (if ids.contains id = true then _ else _) = _
        rw [hout]
        rfl

theorem leased_write (h : Leased s) {w : WorkerId} {i delay : ℕ} {tasks : List Task} {task : Task}
    {result : Dispatcher.SendResult} {db : Db} (hw : s.workers w = some (.sending tasks))
    (ht : tasks[i]? = some task)
    (hsend : Dispatcher.sendOne s.db s.now maxAttempts task.work result delay = .ok db) :
    Leased ((s.setDb db).setWorker w (.sending (tasks.eraseIdx i))) := by
  obtain ⟨f, hf, hdb⟩ := Dispatcher.sendOne_eq_ok hsend
  have hmine := h.held w _ hw _ (mem_held_of_task ht)
  -- a delivery still in somebody's hands is not the one written
  have hother : ∀ v V,
      ((s.setDb db).setWorker w (.sending (tasks.eraseIdx i))).workers v = some V →
      ∀ id ∈ V.held, id ≠ task.work.deliveryId ∧ HeldBy s v id := by
    intro v V hv id hid
    rcases workers_setWorker hv with ⟨rfl, rfl⟩ | ⟨hne, hv⟩
    · refine ⟨?_, h.held v _ hw id ((held_eraseIdx_sublist tasks i).subset hid)⟩
      rintro rfl
      exact not_mem_held_eraseIdx (h.once v _ hw) ht hid
    · refine ⟨?_, h.held v V hv id hid⟩
      rintro rfl
      exact hne (Option.some.inj ((h.held v V hv _ hid).claimed.symm.trans hmine.claimed))
  obtain rfl := hdb
  constructor
  · exact ids_update hf.id h.ids
  · intro v V hv
    rcases workers_setWorker hv with ⟨-, rfl⟩ | ⟨-, hv⟩
    · exact (h.once w _ hw).sublist (held_eraseIdx_sublist tasks i)
    · exact h.once v V hv
  · intro v V hv id hid
    obtain ⟨hne, hheld⟩ := hother v V hv id hid
    refine hheld.update rfl hf.id (fun d hd => ?_) rfl
    rw [hd]
    exact decide_eq_false hne

theorem leased_redeliver (h : Leased s) {businessId deliveryId : Uuid} {db : Db}
    (hredeliver : WebhookService.redeliver s.db s.now businessId deliveryId = .ok db) :
    Leased ((s.setDb db).setClaim [deliveryId] none) := by
  obtain ⟨⟨d, hd, hdid, hst⟩, rfl⟩ := WebhookService.redeliver_eq_ok hredeliver
  refine ⟨ids_update (fun _ => rfl) h.ids, h.once, fun v V hv id hid => ?_⟩
  have hheld := h.held v V hv id hid
  -- a delivery in hand is in flight, so it is not the one replayed
  have hne : id ≠ deliveryId := by
    rintro rfl
    have hflight := hheld.inFlight d hd hdid
    rcases hst with hst | hst <;> cases hst.symm.trans hflight
  refine hheld.update rfl (fun _ => rfl) (fun e he => ?_) ?_
  · simp [WebhookService.canRedeliver, he, hne]
  · exact if_neg (by simpa using hne)

theorem leased_step (h : Leased s) (he : Effect maxAttempts s l s')
    (hrel : ClaimsReleased ⟨s, l, s'⟩) : Leased s' := by
  cases he with
  | advance _ => exact ⟨h.ids, h.once, fun v V hv id hid =>
      { h.held v V hv id hid with }⟩
  | register _ => exact ⟨h.ids, h.once, fun v V hv id hid => { h.held v V hv id hid with }⟩
  | emit _ => exact ⟨h.ids, h.once, fun v V hv id hid => { h.held v V hv id hid with }⟩
  | fanOut hfan =>
    obtain ⟨rows, hinsert, rfl⟩ := Dispatcher.fanOut_eq_ok hfan
    obtain ⟨-, hnodup⟩ := Dispatcher.insertDeliveries_eq_ok hinsert
    refine ⟨hnodup h.ids, h.once, fun v V hv id hid => ?_⟩
    obtain ⟨⟨d, hd, hdid⟩, hflight, hclaimed⟩ := h.held v V hv id hid
    have hd' : d ∈ rows := Dispatcher.subset_insertDeliveries hinsert hd
    refine ⟨⟨d, hd', hdid⟩, fun e he heid => ?_, hclaimed⟩
    -- the new rows have new ids
    rw [List.inj_on_of_nodup_map (hnodup h.ids) he hd' (heid.trans hdid.symm)]
    exact hflight d hd hdid
  | claim hw hbatch hclaim hheld =>
    exact leased_claim h hbatch hclaim hheld fun v V hv => hrel _ _ _ rfl v V hv
  | @release _ w W W' _ hw hheld =>
    refine ⟨h.ids, fun v V hv => ?_, fun v V hv id hid => ?_⟩
    · rcases workers_setWorker hv with ⟨-, rfl⟩ | ⟨-, hv⟩
      · exact (h.once w W hw).sublist hheld
      · exact h.once v V hv
    · rcases workers_setWorker hv with ⟨rfl, rfl⟩ | ⟨-, hv⟩
      · exact { h.held v W hw id (hheld.subset hid) with }
      · exact { h.held v V hv id hid with }
  | write hw ht _ hsend => exact leased_write h hw ht hsend
  | redeliver hredeliver => exact leased_redeliver h hredeliver

/-- A terminal delivery stays through every step but its replay. -/
theorem terminalStays_step (h : Leased s) (he : Effect maxAttempts s l s') :
    TerminalStays ⟨s, l, s'⟩ := by
  intro d hd hterminal d' hd' hid
  have hsame : d' ∈ s.db.webhookDeliveries → d'.status = d.status := by
    intro hd'
    rw [h.delivery_eq hd' hd hid]
  cases he with
  | advance _ => exact .inl (hsame hd')
  | register _ => exact .inl (hsame hd')
  | emit _ => exact .inl (hsame hd')
  | fanOut hfan =>
    obtain ⟨rows, hinsert, rfl⟩ := Dispatcher.fanOut_eq_ok hfan
    obtain ⟨-, hnodup⟩ := Dispatcher.insertDeliveries_eq_ok hinsert
    have hmem : d ∈ rows := Dispatcher.subset_insertDeliveries hinsert hd
    rw [List.inj_on_of_nodup_map (hnodup h.ids) hd' hmem hid]
    exact .inl rfl
  | claim hw hbatch hclaim _ =>
    obtain rfl := Dispatcher.claim_eq_ok hclaim
    obtain ⟨e, he, rfl⟩ := Table.mem_update.mp hd'
    split_ifs at hid ⊢ with hin
    · -- a terminal delivery is not due
      obtain ⟨f, hf, hfid, hdue⟩ := (Dispatcher.isDue_of_isBatch hbatch).2 _
        (List.contains_iff_mem.mp hin)
      rw [h.delivery_eq hf hd (hfid.trans hid)] at hdue
      rcases hterminal with hst | hst <;> simp [Dispatcher.isDue, hst] at hdue
    · exact .inl (congrArg _ (h.delivery_eq he hd hid))
  | release _ _ _ => exact .inl (hsame hd')
  | @write w i delay tasks task result db hw ht _ hsend =>
    obtain ⟨f, hf, rfl⟩ := Dispatcher.sendOne_eq_ok hsend
    obtain ⟨e, he, rfl⟩ := Table.mem_update.mp hd'
    split_ifs at hid ⊢ with hwritten
    · -- a terminal delivery is in nobody's hands
      refine absurd (mem_held_of_task ht) ?_
      rw [← of_decide_eq_true hwritten, ← hf.id e, hid]
      exact h.not_held hd hterminal hw
    · exact .inl (congrArg _ (h.delivery_eq he hd hid))
  | @redeliver businessId deliveryId _ hredeliver =>
    obtain ⟨-, rfl⟩ := WebhookService.redeliver_eq_ok hredeliver
    obtain ⟨e, he, rfl⟩ := Table.mem_update.mp hd'
    split_ifs at hid ⊢ with hcan
    · simp only [WebhookService.canRedeliver, Bool.and_eq_true, decide_eq_true_eq] at hcan
      refine .inr ⟨businessId, ?_⟩
      rw [← hid, ← hcan.1.1]
      rfl
    · exact .inl (congrArg _ (h.delivery_eq he hd hid))

/-- Only the worker of the latest claim writes. -/
theorem writesLatest (h : Leased s) (l : Label) (s' : State) : WritesLatest ⟨s, l, s'⟩ := by
  intro w i delay tasks task _ hw ht
  exact (h.held w _ hw _ (mem_held_of_task ht)).claimed

/-! ## Every run -/

theorem leased_initial (h : Initial s) : Leased s :=
  ⟨by simp [h.deliveries], fun w W hw => (h.no_worker hw).elim,
    fun w W hw => (h.no_worker hw).elim⟩

/-- Along a run in which no claim takes a delivery another worker is still at work on, a
terminal delivery changes only by a replay, and outcomes are written by the latest claim. -/
theorem terminal_outcomes_stay (maxAttempts : Int) {s : State} (h : Initial s) (ls : List Label)
    (hrel : ∀ x ∈ (system maxAttempts).steps s ls, ClaimsReleased x) :
    ∀ x ∈ (system maxAttempts).steps s ls, TerminalStays x ∧ WritesLatest x := by
  have hleased : ∀ t ∈ (system maxAttempts).states s ls, Leased t := by
    refine TransitionSystem.forall_states_of_steps ?_ (.of_initial h) (leased_initial h) hrel
    intro x _ hx hstep hxrel
    exact leased_step hx (step_effect hstep) hxrel
  intro x hx
  obtain ⟨hstep, hpre⟩ := TransitionSystem.step_of_mem_steps hx
  exact ⟨terminalStays_step (hleased _ hpre) (step_effect hstep),
    writesLatest (hleased _ hpre) x.label x.post⟩

/-! ## A send that outlives its lease -/

/-- A receiver, an event and its delivery, the row `40`. -/
def outboxRun : List Label :=
  [.register (shopId 2) { url := "https://shop.test/hook" } (shopId 20) [1],
   .emit (shopId 2) .invoicePaid (shopId 10) .null (shopFresh 30), .fanOut (shopFresh 40)]

/-- Worker `w` claims the delivery and its send ends with `result`. -/
def sendRun (w : WorkerId) (result : Dispatcher.SendResult) : List Label :=
  [.claim w [] [shopId 40], .hydrate w, .respond w 0 result]

/-- Worker `1` gets an error within its lease, and worker `2` retries. -/
def retriedRun : List Label :=
  outboxRun ++ sendRun 1 (.response 500) ++ [.write 1 0 10, .advance (seconds 10)]
    ++ sendRun 2 (.response 200) ++ [.write 2 0 0]

/-- The send of worker `1` ends after its lease; meanwhile worker `2` claims the delivery and
succeeds. -/
def outlivedRun : List Label :=
  outboxRun ++ [.claim 1 [] [shopId 40], .hydrate 1, .advance (seconds 31)]
    ++ sendRun 2 (.response 200) ++ [.write 2 0 0, .respond 1 0 (.response 500), .write 1 0 10]

/-- The condition of `terminal_outcomes_stay` on the workers `1` and `2`, checked on one step. -/
def claimsReleased (x : Step) : Bool :=
  match x.label with
  | .claim w _ ids => (w = 1 || w = 2) && [1, 2].all fun v => (x.pre.workers v).all fun V =>
      V.held.all fun id => !ids.contains id
  | _ => true

/-- A worker was there before the step, or has just claimed. -/
theorem worker_cases (he : Effect maxAttempts s l s') {v : WorkerId} {V : Worker}
    (hv : s'.workers v = some V) :
    (∃ W, s.workers v = some W) ∨ ∃ locked ids, l = .claim v locked ids := by
  cases he with
  | claim _ _ _ _ =>
    rcases workers_setWorker hv with ⟨rfl, -⟩ | ⟨-, hv⟩
    · exact .inr ⟨_, _, rfl⟩
    · exact .inl ⟨V, hv⟩
  | release _ hw _ =>
    rcases workers_setWorker hv with ⟨rfl, -⟩ | ⟨-, hv⟩
    · exact .inl ⟨_, hw⟩
    · exact .inl ⟨V, hv⟩
  | write hw _ _ _ =>
    rcases workers_setWorker hv with ⟨rfl, -⟩ | ⟨-, hv⟩
    · exact .inl ⟨_, hw⟩
    · exact .inl ⟨V, hv⟩
  | _ => exact .inl ⟨V, hv⟩

/-- All workers are the ones that have claimed. -/
theorem worker_of_claims {P : WorkerId → Prop} (h : Initial s) {ls : List Label}
    (hclaims : ∀ x ∈ (system maxAttempts).steps s ls, ∀ w locked ids,
      x.label = .claim w locked ids → P w) {t : State}
    (ht : t ∈ (system maxAttempts).states s ls) {v : WorkerId} {V : Worker}
    (hv : t.workers v = some V) : P v := by
  have hall : ∀ t ∈ (system maxAttempts).states s ls, ∀ v V, t.workers v = some V → P v := by
    refine TransitionSystem.forall_states_of_steps (C := fun x => ∀ w locked ids,
      x.label = .claim w locked ids → P w) ?_ (.of_initial h)
      (fun v V hv => (h.no_worker hv).elim) hclaims
    intro x _ hpre hstep hx v V hv
    rcases worker_cases (step_effect hstep) hv with ⟨W, hW⟩ | ⟨locked, ids, hl⟩
    · exact hpre v W hW
    · exact hx v locked ids hl
  exact hall t ht v V hv

theorem claimsReleased_of_all {ls : List Label}
    (hall : ((system maxAttempts).steps shop ls).all claimsReleased = true) :
    ∀ x ∈ (system maxAttempts).steps shop ls, ClaimsReleased x := by
  have hcheck := List.all_eq_true.mp hall
  have hclaims : ∀ x ∈ (system maxAttempts).steps shop ls, ∀ w locked ids,
      x.label = .claim w locked ids → w = 1 ∨ w = 2 := by
    intro x hx w locked ids hl
    have h := hcheck x hx
    simp only [claimsReleased, hl, Bool.and_eq_true, Bool.or_eq_true, decide_eq_true_eq] at h
    exact h.1
  intro x hx w locked ids hl v V hv id hheld hid
  have h := hcheck x hx
  simp only [claimsReleased, hl, Bool.and_eq_true] at h
  have hmem : v ∈ [1, 2] := by
    have hv' := worker_of_claims shop_initial hclaims (TransitionSystem.step_of_mem_steps hx).2 hv
    simpa using hv'
  have hv' := List.all_eq_true.mp h.2 v hmem
  rw [hv, Option.all_some] at hv'
  have hout := List.all_eq_true.mp hv' id hheld
  rw [List.contains_iff_mem.mpr hid] at hout
  cases hout

theorem terminal_outcomes_stay_retriedRun :
    ((system 5).run shop retriedRun).isSome = true ∧
      ∀ x ∈ (system 5).steps shop retriedRun, TerminalStays x ∧ WritesLatest x := by
  refine ⟨by decide +kernel, terminal_outcomes_stay 5 shop_initial retriedRun ?_⟩
  exact claimsReleased_of_all (by decide +kernel)

/-- A succeeded delivery is failed after the step. -/
def overwrites (x : Step) : Bool :=
  x.pre.db.webhookDeliveries.any fun d => d.status = .succeeded &&
    x.post.db.webhookDeliveries.any fun d' => d'.id = d.id && d'.status = .failed

/-- Worker `1` marks the delivery failed after worker `2` has delivered it. -/
theorem succeeded_overwritten :
    ∃ x ∈ (system 5).steps shop outlivedRun, x.label = .write 1 0 10 ∧ ¬ TerminalStays x := by
  have hany : ((system 5).steps shop outlivedRun).any (fun x =>
      overwrites x && (match x.label with
        | .write w i delay => w = 1 && i = 0 && delay = 10
        | _ => false)) = true := by decide +kernel
  obtain ⟨x, hx, h⟩ := List.any_eq_true.mp hany
  rw [Bool.and_eq_true] at h
  have hl : x.label = .write 1 0 10 := by
    have hlabel := h.2
    split at hlabel
    · rename_i w i delay hl
      simp only [Bool.and_eq_true, decide_eq_true_eq] at hlabel
      rw [hl, hlabel.1.1, hlabel.1.2, hlabel.2]
    · cases hlabel
  refine ⟨x, hx, hl, fun hstays => ?_⟩
  simp only [overwrites, List.any_eq_true, Bool.and_eq_true, decide_eq_true_eq] at h
  obtain ⟨d, hd, hst, d', hd', hid, hst'⟩ := h.1
  rcases hstays d hd (.inl hst) d' hd' hid with hsame | ⟨businessId, hredeliver⟩
  · rw [hst, hst'] at hsame
    cases hsame
  · rw [hl] at hredeliver
    cases hredeliver

end Webhooks

end InvoicePayment
