import InvoicePayment.Payments.Effects

/-!
# What a step leaves a worker with

For each thing a worker may have in hand, where it can have come from: the worker had it
before the step, or the step is one of the few that hand it out. Then what a step adds to the
static columns of the database.
-/

namespace InvoicePayment.Payments

variable {δ : Type} {env : Env δ} {s s' : State} {l : Label δ} {v : WorkerId} {W' : Worker}

/-! ## Delivering a result -/

namespace Worker

variable (W : Worker) (callId : ℕ) (r : PspResult)

/-- A delivery changes nothing but the charge call of a worker that waits. -/
theorem deliver_congr {β : Type} (f : Worker → β)
    (hpay : ∀ call job claimedAt c c',
      f (.pay call (.charging job claimedAt c)) = f (.pay call (.charging job claimedAt c')))
    (htick : ∀ leasedAt jobs c c', f (.tick leasedAt jobs c) = f (.tick leasedAt jobs c')) :
    f (W.deliver callId r) = f W := by
  unfold deliver
  split
  · split_ifs
    · exact hpay _ _ _ _ _
    · rfl
  · split_ifs
    · exact htick _ _ _ _
    · rfl
  · rfl

@[simp] theorem holdings_deliver : (W.deliver callId r).holdings = W.holdings :=
  deliver_congr W callId r holdings (fun _ _ _ _ _ => rfl) fun _ _ _ _ => rfl

@[simp] theorem outcome_deliver : (W.deliver callId r).outcome = W.outcome :=
  deliver_congr W callId r outcome (fun _ _ _ _ _ => rfl) fun _ _ _ _ => rfl

@[simp] theorem charging_deliver : (W.deliver callId r).charging = W.charging :=
  deliver_congr W callId r charging (fun _ _ _ _ _ => rfl) fun _ _ _ _ => rfl

@[simp] theorem reading_deliver : (W.deliver callId r).reading = W.reading :=
  deliver_congr W callId r reading (fun _ _ _ _ _ => rfl) fun _ _ _ _ => rfl

@[simp] theorem replaying_deliver : (W.deliver callId r).replaying = W.replaying :=
  deliver_congr W callId r replaying (fun _ _ _ _ _ => rfl) fun _ _ _ _ => rfl

@[simp] theorem loaded_deliver : (W.deliver callId r).loaded = W.loaded :=
  deliver_congr W callId r loaded (fun _ _ _ _ _ => rfl) fun _ _ _ _ => rfl

variable {W callId r}

theorem waitsFor_of_deliver {c : ℕ} (h : (W.deliver callId r).waitsFor = some c) :
    W.waitsFor = some c := by
  unfold deliver at h
  split at h
  · split_ifs at h
    · cases h
    · exact h
  · split_ifs at h
    · cases h
    · exact h
  · exact h

/-- A delivered result is the one in hand only if the worker waited for it. -/
theorem result_of_deliver {job : Job} {r' : PspResult}
    (h : (W.deliver callId r).result = some (job, r')) :
    W.result = some (job, r') ∨ (W.waitsFor = some callId ∧ r' = r) := by
  unfold deliver at h
  split at h
  · split_ifs at h with hc
    · simp only [result, Option.some.injEq, Prod.mk.injEq] at h
      exact .inr ⟨by rw [waitsFor, hc], h.2.symm⟩
    · exact .inl h
  · rename_i leasedAt jobs c
    split_ifs at h with hc
    · rcases jobs with _ | ⟨job', rest⟩
      · cases h
      · simp only [result, Option.some.injEq, Prod.mk.injEq] at h
        exact .inr ⟨by rw [waitsFor, hc], h.2.symm⟩
    · exact .inl h
  · exact .inl h

end Worker

/-! ## The workers after a step -/

theorem workers_setWorker {w : WorkerId} {W : Worker}
    (h : (s.setWorker w W).workers v = some W') :
    (v = w ∧ W' = W) ∨ (v ≠ w ∧ s.workers v = some W') := by
  simp only [State.setWorker] at h
  split_ifs at h with hv
  · exact .inl ⟨hv, (Option.some.inj h).symm⟩
  · exact .inr ⟨hv, h⟩

theorem workers_served {i : ℕ} {m : InFlight} {result : PspResult} {psp : PspState}
    (h : (served s i m result psp).workers v = some W') :
    ∃ W, s.workers v = some W ∧
      (W' = W ∨ (v = m.worker ∧ W' = W.deliver m.callId result)) := by
  simp only [served] at h
  split_ifs at h with hv
  · obtain ⟨W, hW, rfl⟩ := Option.map_eq_some_iff.mp h
    exact ⟨W, hW, .inr ⟨hv, rfl⟩⟩
  · exact ⟨W', h, .inl rfl⟩

/-- How the worker of an id came to be what it is after a step. -/
inductive Became (env : Env δ) (s : State) (l : Label δ) (s' : State) (v : WorkerId)
    (W' : Worker) : Prop
  | same (hv : s.workers v = some W')
  | leased {locked ids : List Uuid} (hl : l = .tick v locked ids)
      (hbatch : Reconciler.isBatch s.db s.now locked ids = true)
      (hdb : s'.db = (Reconciler.lease s.db s.now ids).1)
      (hW' : W' = .tick s.now (Reconciler.lease s.db s.now ids).2 .ready)
  | quiet (hl : l.worker = some v) (h : Quiet s v W') (hs' : s' = s.setWorker v W')
  | sent {fresh : Fresh} {W : Worker} {held : Holding} {rest : List Holding}
      (hl : l = .work v fresh) (hv : s.workers v = some W) (hheld : W.holdings = held :: rest)
      (h : Sent W W' s.nextCall) (hs' : s' = (s.send v held.job).setWorker v W')
  | claimed {fresh : Fresh} {call : PayCall} {state : InvoiceState} {amount : Int64} {job : Job}
      (hl : l = .work v fresh) (hv : s.workers v = some (.pay call (.read state amount)))
      (hjob : call.IsOf job) (h : PaymentService.Claimed s.db fresh
        (PaymentService.fingerprint env.sha256 call.invoiceId call.req.cardToken amount)
        state job s'.db)
      (hW' : W' = .pay call (.charging job s.now .ready))
  | replayed {call : PayCall} {amount : Int64}
      (hv : s.workers v = some (.pay call (.replaying amount))) (hdb : s'.db = s.db)
      (hW' : W' = .pay call (.done
        (PaymentService.replay s.db call.businessId call.idempotencyKey
          (PaymentService.fingerprint env.sha256 call.invoiceId call.req.cardToken amount)
          call.invoiceId)))
  | delivered {i : ℕ} {choice : δ} {m : InFlight} {r : PspResult} {psp : PspState} {W : Worker}
      (hl : l = .serve i choice) (hm : s.inFlight[i]? = some m) (hworker : m.worker = v)
      (h : env.psp s.psp m.job.attemptId m.job.request choice = some (r, psp))
      (hs' : s' = served s i m r psp) (hv : s.workers v = some W)
      (hW' : W' = W.deliver m.callId r)
  | finalized {fresh : Fresh} {W : Worker} {job : Job} {r : PspResult} {o : PayOutcome}
      (hv : s.workers v = some W) (hr : W.result = some (job, r))
      (h : PaymentService.Finalized s.db s.now fresh job r s'.db o) (hW' : Finished W W' o)
  | moved {call : AdminCall} {current : InvoiceState} {inv : Invoice}
      (hv : s.workers v = some (.admin call (.loaded current)))
      (hW' : W' = .admin call (.done (.ok inv)))

theorem Effect.became (h : Effect env s l s') (hv : s'.workers v = some W') :
    Became env s l s' v W' := by
  cases h with
  | advance _ => exact .same hv
  | create _ => exact .same hv
  | lease hw hbatch =>
    rcases workers_setWorker hv with ⟨rfl, rfl⟩ | ⟨-, hv⟩
    · exact .leased rfl hbatch rfl rfl
    · exact .same hv
  | quiet hl hq =>
    rcases workers_setWorker hv with ⟨rfl, rfl⟩ | ⟨-, hv⟩
    · exact .quiet hl hq rfl
    · exact .same hv
  | send hw hheld hsent =>
    rcases workers_setWorker hv with ⟨rfl, rfl⟩ | ⟨-, hv⟩
    · exact .sent rfl hw hheld hsent rfl
    · exact .same hv
  | claim hw hjob _ hclaimed =>
    rcases workers_setWorker hv with ⟨rfl, rfl⟩ | ⟨-, hv⟩
    · exact .claimed rfl hw hjob hclaimed rfl
    · exact .same hv
  | replay hw =>
    rcases workers_setWorker hv with ⟨rfl, rfl⟩ | ⟨-, hv⟩
    · exact .replayed hw rfl rfl
    · exact .same hv
  | serve hm hserve =>
    obtain ⟨W, hW, rfl | ⟨rfl, rfl⟩⟩ := workers_served hv
    · exact .same hW
    · exact .delivered rfl hm rfl hserve rfl hW rfl
  | finalize hw hr hfinal hfin =>
    rcases workers_setWorker hv with ⟨rfl, rfl⟩ | ⟨-, hv⟩
    · exact .finalized hw hr hfinal hfin
    · exact .same hv
  | move hw _ =>
    rcases workers_setWorker hv with ⟨rfl, rfl⟩ | ⟨-, hv⟩
    · exact .moved hw rfl
    · exact .same hv

/-- A worker of the state after was there before, or the label is about it. -/
theorem Effect.worker (h : Effect env s l s') (hv : s'.workers v = some W') :
    (∃ W, s.workers v = some W) ∨ l.worker = some v := by
  cases h.became hv with
  | same hv => exact .inl ⟨W', hv⟩
  | leased hl _ _ _ =>
    rw [hl]
    exact .inr rfl
  | quiet hl _ _ => exact .inr hl
  | sent _ hv _ _ _ => exact .inl ⟨_, hv⟩
  | claimed _ hv _ _ _ => exact .inl ⟨_, hv⟩
  | replayed hv _ _ => exact .inl ⟨_, hv⟩
  | delivered _ _ _ _ _ hv _ => exact .inl ⟨_, hv⟩
  | finalized hv _ _ _ => exact .inl ⟨_, hv⟩
  | moved hv _ => exact .inl ⟨_, hv⟩

theorem Worker.deliver_of_waitsFor_eq_none {W : Worker} (h : W.waitsFor = none) (callId : ℕ)
    (r : PspResult) : W.deliver callId r = W := by
  unfold Worker.deliver
  split
  · cases h
  · cases h
  · rfl

theorem workers_setWorker_of_ne {w : WorkerId} (h : v ≠ w) (W : Worker) :
    (s.setWorker w W).workers v = s.workers v := if_neg h

/-- Another worker's step leaves a worker alone, or hands it a result of the PSP. -/
theorem Effect.workers_of_ne (h : Effect env s l s') (hl : l.worker ≠ some v) :
    s'.workers v = s.workers v ∨
    ∃ callId r, s'.workers v = (s.workers v).map (Worker.deliver callId r) := by
  have hne : ∀ {w : WorkerId}, l.worker = some w → v ≠ w := by
    rintro w hw rfl
    exact hl hw
  cases h with
  | advance _ => exact .inl rfl
  | create _ => exact .inl rfl
  | lease _ _ => exact .inl (workers_setWorker_of_ne (hne rfl) _)
  | quiet hw _ => exact .inl (workers_setWorker_of_ne (hne hw) _)
  | send _ _ _ => exact .inl (workers_setWorker_of_ne (hne rfl) _)
  | claim _ _ _ _ => exact .inl (workers_setWorker_of_ne (hne rfl) _)
  | replay _ => exact .inl (workers_setWorker_of_ne (hne rfl) _)
  | @serve i choice m result psp _ _ =>
    simp only [served]
    split_ifs
    · exact .inr ⟨m.callId, result, rfl⟩
    · exact .inl rfl
  | finalize _ _ _ _ => exact .inl (workers_setWorker_of_ne (hne rfl) _)
  | move _ _ => exact .inl (workers_setWorker_of_ne (hne rfl) _)

/-- A worker that waits for nothing is left alone by every step that is not its own. -/
theorem Effect.worker_kept (h : Effect env s l s') (hl : l.worker ≠ some v) {W : Worker}
    (hv : s.workers v = some W) (hwait : W.waitsFor = none) : s'.workers v = some W := by
  rcases h.workers_of_ne hl with hsame | ⟨callId, r, hdeliver⟩
  · exact hsame.trans hv
  · rw [hdeliver, hv, Option.map_some, Worker.deliver_of_waitsFor_eq_none hwait]

/-- A tick that has not charged yet has no result. -/
theorem result_tick_ready (leasedAt : Timestamp) (jobs : List Job) :
    (Worker.tick leasedAt jobs .ready).result = none := by
  cases jobs <;> rfl

/-- The attempts in hand: only a claim and a lease hand out new ones. -/
theorem Effect.holding (h : Effect env s l s') (hv : s'.workers v = some W') {held : Holding}
    (hheld : held ∈ W'.holdings) :
    (∃ W, s.workers v = some W ∧ held ∈ W.holdings) ∨
    (∃ state fp fresh, l = .work v fresh ∧ held.since = s.now ∧ held.holder = .handler ∧
      PaymentService.Claimed s.db fresh fp state held.job s'.db) ∨
    (∃ locked ids, l = .tick v locked ids ∧ held.since = s.now ∧
      held.holder = .reconciler ∧ held.job ∈ (Reconciler.lease s.db s.now ids).2 ∧
      Reconciler.isBatch s.db s.now locked ids = true ∧
      s'.db = (Reconciler.lease s.db s.now ids).1) := by
  cases h.became hv with
  | same hv => exact .inl ⟨W', hv, hheld⟩
  | leased hl hbatch hdb hW' =>
    subst hW'
    simp only [Worker.holdings, List.mem_map] at hheld
    obtain ⟨job, hjob, rfl⟩ := hheld
    exact .inr (.inr ⟨_, _, hl, rfl, rfl, hjob, hbatch, hdb⟩)
  | quiet _ hq _ =>
    rcases hq.holdings with hnil | ⟨W, hW, hsuffix⟩
    · rw [hnil] at hheld
      cases hheld
    · exact .inl ⟨W, hW, hsuffix.subset hheld⟩
  | sent _ hW _ hsent _ =>
    rw [hsent.holdings] at hheld
    exact .inl ⟨_, hW, hheld⟩
  | @claimed fresh call state amount job hl hW _ hclaimed hW' =>
    subst hW'
    obtain rfl : held = ⟨job, s.now, .handler⟩ := List.mem_singleton.mp hheld
    exact .inr (.inl ⟨state, _, fresh, hl, rfl, rfl, hclaimed⟩)
  | replayed _ _ hW' =>
    subst hW'
    cases hheld
  | delivered _ _ _ _ _ hW hW' =>
    subst hW'
    rw [Worker.holdings_deliver] at hheld
    exact .inl ⟨_, hW, hheld⟩
  | finalized hW _ _ hfin =>
    rw [hfin.holdings] at hheld
    exact .inl ⟨_, hW, List.mem_of_mem_tail hheld⟩
  | moved _ hW' =>
    subst hW'
    cases hheld

/-- A result in hand: a new one is unknown or what the PSP has just served. -/
theorem Effect.result (h : Effect env s l s') (hv : s'.workers v = some W') {job : Job}
    {r : PspResult} (hr : W'.result = some (job, r)) :
    (∃ W, s.workers v = some W ∧ W.result = some (job, r)) ∨ (∃ reason, r = .unknown reason) ∨
    (∃ i choice m psp W, l = .serve i choice ∧ s.inFlight[i]? = some m ∧ m.worker = v ∧
      env.psp s.psp m.job.attemptId m.job.request choice = some (r, psp) ∧
      s' = served s i m r psp ∧ s.workers v = some W ∧ W.waitsFor = some m.callId ∧
      W.holdings = W'.holdings) := by
  cases h.became hv with
  | same hv => exact .inl ⟨W', hv, hr⟩
  | leased _ _ _ hW' =>
    rw [hW', result_tick_ready] at hr
    cases hr
  | quiet _ hq _ => exact .inr (.inl (hq.result job r hr))
  | sent _ _ _ hsent _ =>
    rw [hsent.result] at hr
    cases hr
  | claimed _ _ _ _ hW' =>
    subst hW'
    cases hr
  | replayed _ _ hW' =>
    subst hW'
    cases hr
  | delivered hl hm hworker hserve hs' hW hW' =>
    subst hW'
    rcases Worker.result_of_deliver hr with hold | ⟨hwait, rfl⟩
    · exact .inl ⟨_, hW, hold⟩
    · refine .inr (.inr ⟨_, _, _, _, _, hl, hm, hworker, hserve, hs', hW, hwait, ?_⟩)
      rw [Worker.holdings_deliver]
  | finalized _ _ _ hfin =>
    rw [hfin.result] at hr
    cases hr
  | moved _ hW' =>
    subst hW'
    cases hr

/-- A call waited for is an old one or the one just sent. -/
theorem Effect.waitsFor (h : Effect env s l s') (hv : s'.workers v = some W') {c : ℕ}
    (hc : W'.waitsFor = some c) :
    (∃ W, s.workers v = some W ∧ W.waitsFor = some c ∧ W.holdings = W'.holdings) ∨
    (∃ W held rest, s.workers v = some W ∧ W.holdings = held :: rest ∧
      W'.holdings = W.holdings ∧ c = s.nextCall ∧ s' = (s.send v held.job).setWorker v W') := by
  cases h.became hv with
  | same hv => exact .inl ⟨W', hv, hc, rfl⟩
  | leased _ _ _ hW' =>
    subst hW'
    cases hc
  | quiet _ hq _ =>
    rw [hq.waits] at hc
    cases hc
  | sent _ hW hheld hsent hs' =>
    rw [hsent.waits] at hc
    exact .inr ⟨_, _, _, hW, hheld, hsent.holdings, (Option.some.inj hc).symm, hs'⟩
  | claimed _ _ _ _ hW' =>
    subst hW'
    cases hc
  | replayed _ _ hW' =>
    subst hW'
    cases hc
  | delivered _ _ _ _ _ hW hW' =>
    subst hW'
    refine .inl ⟨_, hW, Worker.waitsFor_of_deliver hc, ?_⟩
    rw [Worker.holdings_deliver]
  | finalized _ _ _ hfin =>
    rw [hfin.waits] at hc
    cases hc
  | moved _ hW' =>
    subst hW'
    cases hc

/-- A handler's answer: a new one comes from a replay or a finalization. -/
theorem Effect.outcome (h : Effect env s l s') (hv : s'.workers v = some W') {call : PayCall}
    {o : PayOutcome} (ho : W'.outcome = some (call, o)) :
    (∃ W, s.workers v = some W ∧ W.outcome = some (call, o)) ∨
    (∃ amount, s.workers v = some (.pay call (.replaying amount)) ∧ s'.db = s.db ∧
      PaymentService.replay s.db call.businessId call.idempotencyKey
        (PaymentService.fingerprint env.sha256 call.invoiceId call.req.cardToken amount)
        call.invoiceId = .ok o) ∨
    (∃ W job r fresh, s.workers v = some W ∧ W.result = some (job, r) ∧
      W.charging = some (call, job) ∧
      PaymentService.Finalized s.db s.now fresh job r s'.db o) := by
  cases h.became hv with
  | same hv => exact .inl ⟨W', hv, ho⟩
  | leased _ _ _ hW' =>
    subst hW'
    cases ho
  | quiet _ hq _ =>
    rw [hq.outcome] at ho
    cases ho
  | sent _ _ _ hsent _ =>
    rw [hsent.outcome] at ho
    cases ho
  | claimed _ _ _ _ hW' =>
    subst hW'
    cases ho
  | @replayed call' amount hW hdb hW' =>
    subst hW'
    unfold Worker.outcome at ho
    split at ho
    · rename_i call'' o' heq
      simp only [Worker.pay.injEq, PayStage.done.injEq] at heq
      obtain ⟨rfl, hreplay⟩ := heq
      simp only [Option.some.injEq, Prod.mk.injEq] at ho
      obtain ⟨rfl, rfl⟩ := ho
      exact .inr (.inl ⟨amount, hW, hdb, hreplay⟩)
    · cases ho
  | delivered _ _ _ _ _ hW hW' =>
    subst hW'
    rw [Worker.outcome_deliver] at ho
    exact .inl ⟨_, hW, ho⟩
  | finalized hW hr hfinal hfin =>
    rcases hfin.outcome with hnone | ⟨call', job', hsome, hcharging⟩
    · rw [hnone] at ho
      cases ho
    · rw [hsome] at ho
      simp only [Option.some.injEq, Prod.mk.injEq] at ho
      obtain ⟨rfl, rfl⟩ := ho
      obtain rfl := Worker.job_eq_of_charging hcharging hr
      exact .inr (.inr ⟨_, _, _, _, hW, hr, hcharging, hfinal⟩)
  | moved _ hW' =>
    subst hW'
    cases ho

/-- The attempt a handler charges is the one it has claimed. -/
theorem Effect.charging (h : Effect env s l s') (hv : s'.workers v = some W') {call : PayCall}
    {job : Job} (hcharging : W'.charging = some (call, job)) :
    (∃ W, s.workers v = some W ∧ W.charging = some (call, job)) ∨ call.IsOf job := by
  cases h.became hv with
  | same hv => exact .inl ⟨W', hv, hcharging⟩
  | leased _ _ _ hW' =>
    subst hW'
    cases hcharging
  | quiet _ hq _ =>
    rcases hq.charging with hnone | ⟨W, hW, hsame⟩
    · rw [hnone] at hcharging
      cases hcharging
    · rw [hsame] at hcharging
      exact .inl ⟨W, hW, hcharging⟩
  | sent _ hW _ hsent _ =>
    rw [hsent.charging] at hcharging
    exact .inl ⟨_, hW, hcharging⟩
  | claimed _ _ hjob _ hW' =>
    subst hW'
    simp only [Worker.charging, Option.some.injEq, Prod.mk.injEq] at hcharging
    obtain ⟨rfl, rfl⟩ := hcharging
    exact .inr hjob
  | replayed _ _ hW' =>
    subst hW'
    cases hcharging
  | delivered _ _ _ _ _ hW hW' =>
    subst hW'
    rw [Worker.charging_deliver] at hcharging
    exact .inl ⟨_, hW, hcharging⟩
  | finalized _ _ _ hfin =>
    rw [hfin.charging] at hcharging
    cases hcharging
  | moved _ hW' =>
    subst hW'
    cases hcharging

/-- What a handler has read: new only in a step that read it from the database. -/
theorem Effect.reading (h : Effect env s l s') (hv : s'.workers v = some W') {call : PayCall}
    {state : InvoiceState} {amount : Int64} (hread : W'.reading = some (call, state, amount)) :
    (∃ W, s.workers v = some W ∧ W.reading = some (call, state, amount)) ∨
    (s'.db = s.db ∧ ∃ i ∈ s.db.invoices, i.id = call.invoiceId ∧
      i.businessId = call.businessId ∧ i.state = state ∧ i.totalCents.cents = amount) := by
  cases h.became hv with
  | same hv => exact .inl ⟨W', hv, hread⟩
  | leased _ _ _ hW' =>
    subst hW'
    cases hread
  | quiet _ hq hs' =>
    subst hs'
    exact .inr ⟨rfl, hq.reading call state amount hread⟩
  | sent _ _ _ hsent _ =>
    rw [hsent.reading] at hread
    cases hread
  | claimed _ _ _ _ hW' =>
    subst hW'
    cases hread
  | replayed _ _ hW' =>
    subst hW'
    cases hread
  | delivered _ _ _ _ _ hW hW' =>
    subst hW'
    rw [Worker.reading_deliver] at hread
    exact .inl ⟨_, hW, hread⟩
  | finalized _ _ _ hfin =>
    rw [hfin.reading] at hread
    cases hread
  | moved _ hW' =>
    subst hW'
    cases hread

/-- A handler about to replay has read before, and found its key taken. -/
theorem Effect.replaying (h : Effect env s l s') (hv : s'.workers v = some W') {call : PayCall}
    {amount : Int64} (hreplay : W'.replaying = some (call, amount)) :
    (∃ W, s.workers v = some W ∧ W.replaying = some (call, amount)) ∨
    ∃ W state, s.workers v = some W ∧ W.reading = some (call, state, amount) := by
  cases h.became hv with
  | same hv => exact .inl ⟨W', hv, hreplay⟩
  | leased _ _ _ hW' =>
    subst hW'
    cases hreplay
  | quiet _ hq _ => exact .inr (hq.replaying call amount hreplay).1
  | sent _ _ _ hsent _ =>
    rw [hsent.replaying] at hreplay
    cases hreplay
  | claimed _ _ _ _ hW' =>
    subst hW'
    cases hreplay
  | replayed _ _ hW' =>
    subst hW'
    cases hreplay
  | delivered _ _ _ _ _ hW hW' =>
    subst hW'
    rw [Worker.replaying_deliver] at hreplay
    exact .inl ⟨_, hW, hreplay⟩
  | finalized _ _ _ hfin =>
    rw [hfin.replaying] at hreplay
    cases hreplay
  | moved _ hW' =>
    subst hW'
    cases hreplay

/-- A state an admin handler has checked allows its action. -/
theorem Effect.loaded (h : Effect env s l s') (hv : s'.workers v = some W') {call : AdminCall}
    {current : InvoiceState} (hload : W'.loaded = some (call, current)) :
    (∃ W, s.workers v = some W ∧ W.loaded = some (call, current)) ∨
    current.canTransitionTo call.action.target = true := by
  cases h.became hv with
  | same hv => exact .inl ⟨W', hv, hload⟩
  | leased _ _ _ hW' =>
    subst hW'
    cases hload
  | quiet _ hq _ => exact .inr (hq.loaded call current hload)
  | sent _ _ _ hsent _ =>
    rw [hsent.loaded] at hload
    cases hload
  | claimed _ _ _ _ hW' =>
    subst hW'
    cases hload
  | replayed _ _ hW' =>
    subst hW'
    cases hload
  | delivered _ _ _ _ _ hW hW' =>
    subst hW'
    rw [Worker.loaded_deliver] at hload
    exact .inl ⟨_, hW, hload⟩
  | finalized _ _ _ hfin =>
    rw [hfin.loaded] at hload
    cases hload
  | moved _ hW' =>
    subst hW'
    cases hload

/-! ## The static columns after a step -/

/-- What a step does to the static columns: nothing, one attempt and its key, or one invoice. -/
theorem Effect.static (h : Effect env s l s') :
    (s'.db.jobs = s.db.jobs ∧ s'.db.links = s.db.links ∧ s'.db.bills = s.db.bills) ∨
    (∃ w W call state amount fresh job, s.workers w = some W ∧
      W.reading = some (call, state, amount) ∧ call.IsOf job ∧ job.amountCents = amount ∧
      PaymentService.Claimed s.db fresh
        (PaymentService.fingerprint env.sha256 call.invoiceId call.req.cardToken amount)
        state job s'.db) ∨
    (∃ businessId req fresh inv,
      InvoiceService.Created s.db s.now businessId req fresh s'.db inv) := by
  cases h with
  | advance _ => exact .inl ⟨rfl, rfl, rfl⟩
  | create hcreated => exact .inr (.inr ⟨_, _, _, _, hcreated⟩)
  | lease _ _ => exact .inl ⟨Reconciler.jobs_lease _ _ _, rfl, rfl⟩
  | quiet _ _ => exact .inl ⟨rfl, rfl, rfl⟩
  | send _ _ _ => exact .inl ⟨rfl, rfl, rfl⟩
  | claim hw hjob hamount hclaimed =>
    exact .inr (.inl ⟨_, _, _, _, _, _, _, hw, rfl, hjob, hamount, hclaimed⟩)
  | replay _ => exact .inl ⟨rfl, rfl, rfl⟩
  | serve _ _ => exact .inl ⟨rfl, rfl, rfl⟩
  | finalize _ _ hfinal _ => exact .inl hfinal.static
  | move _ happly =>
    obtain ⟨rfl, -⟩ := InvoiceService.apply_eq_ok happly
    exact .inl ⟨rfl, rfl, InvoiceService.bills_move _ _ _ _ _ _⟩

end InvoicePayment.Payments
