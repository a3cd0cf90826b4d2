import InvoicePayment.Payments.System
import InvoicePayment.Services.InvoiceServiceTheorems

/-!
# What a step can do

The invariants of the payment system are not proved on `step` itself but on its `Effect`: ten
kinds of change, each with what was checked before it. `step_effect` is the inversion; a
`Quiet` change moves one worker on without touching the database or the PSP.
-/

namespace InvoicePayment.Payments

variable {δ : Type} {env : Env δ} {s s' : State}

/-! ## What a worker has in hand -/

/-- Who took an attempt. -/
inductive Holder where
  | handler
  | reconciler
deriving DecidableEq

/-- An attempt a worker has taken and not finalized. -/
structure Holding where
  job : Job
  since : Timestamp
  holder : Holder

namespace Worker

/-- The attempts a worker has taken, the current one first. -/
def holdings : Worker → List Holding
  | .pay _ (.charging job claimedAt _) => [⟨job, claimedAt, .handler⟩]
  | .tick leasedAt jobs _ => jobs.map fun job => ⟨job, leasedAt, .reconciler⟩
  | _ => []

/-- The PSP result a worker has in hand, with its job. -/
def result : Worker → Option (Job × PspResult)
  | .pay _ (.charging job _ (.got r)) => some (job, r)
  | .tick _ (job :: _) (.got r) => some (job, r)
  | _ => none

/-- What a pay handler has answered, if it was no error. -/
def outcome : Worker → Option (PayCall × PayOutcome)
  | .pay call (.done (.ok o)) => some (call, o)
  | _ => none

/-- What a pay handler has read and not acted on yet. -/
def reading : Worker → Option (PayCall × InvoiceState × Int64)
  | .pay call (.read state amountCents) => some (call, state, amountCents)
  | _ => none

/-- The call of a handler about to answer from its key, with the total it has read. -/
def replaying : Worker → Option (PayCall × Int64)
  | .pay call (.replaying amountCents) => some (call, amountCents)
  | _ => none

/-- The call of a handler that has claimed its key, with the attempt it charges. -/
def charging : Worker → Option (PayCall × Job)
  | .pay call (.charging job _ _) => some (call, job)
  | _ => none

/-- The call of an admin handler about to update, with the state it has checked. -/
def loaded : Worker → Option (AdminCall × InvoiceState)
  | .admin call (.loaded current) => some (call, current)
  | _ => none

/-- The current job has a result only if it is the first of the holdings. -/
theorem head_of_result {W : Worker} {job : Job} {r : PspResult} (h : W.result = some (job, r)) :
    ∃ since holder, W.holdings.head? = some ⟨job, since, holder⟩ := by
  unfold result at h
  split at h
  · obtain ⟨rfl, -⟩ := Prod.mk.inj (Option.some.inj h)
    exact ⟨_, _, rfl⟩
  · obtain ⟨rfl, -⟩ := Prod.mk.inj (Option.some.inj h)
    exact ⟨_, _, rfl⟩
  · cases h

/-- A handler's result is for the attempt it charges. -/
theorem job_eq_of_charging {W : Worker} {call : PayCall} {job job' : Job} {r : PspResult}
    (h : W.charging = some (call, job)) (hr : W.result = some (job', r)) : job' = job := by
  unfold charging at h
  split at h
  · rename_i call' job₁ claimedAt c
    cases c with
    | got r' =>
      simp only [result, Option.some.injEq, Prod.mk.injEq] at hr h
      rw [← hr.1, h.2]
    | _ => cases hr
  · cases h

end Worker

/-- The attempt a call makes. -/
structure PayCall.IsOf (call : PayCall) (job : Job) : Prop where
  businessId : job.businessId = call.businessId
  idempotencyKey : job.idempotencyKey = call.idempotencyKey
  invoiceId : job.invoiceId = call.invoiceId
  cardToken : job.cardToken = call.req.cardToken

/-! ## The effects -/

/-- Worker `w` becomes `W'` and nothing else of the system changes: what `W'` may have in
hand. -/
structure Quiet (s : State) (w : WorkerId) (W' : Worker) : Prop where
  holdings : W'.holdings = [] ∨ ∃ W, s.workers w = some W ∧ W'.holdings <:+ W.holdings
  waits : W'.waitsFor = none
  result : ∀ job r, W'.result = some (job, r) → ∃ reason, r = .unknown reason
  outcome : W'.outcome = none
  charging : W'.charging = none ∨ ∃ W, s.workers w = some W ∧ W'.charging = W.charging
  reading : ∀ call state amount, W'.reading = some (call, state, amount) →
    ∃ i ∈ s.db.invoices, i.id = call.invoiceId ∧ i.businessId = call.businessId ∧
      i.state = state ∧ i.totalCents.cents = amount
  replaying : ∀ call amount, W'.replaying = some (call, amount) →
    (∃ W state, s.workers w = some W ∧ W.reading = some (call, state, amount)) ∧
    ∃ k ∈ s.db.idempotencyKeys,
      PaymentService.isKey call.businessId call.idempotencyKey k = true
  loaded : ∀ call current, W'.loaded = some (call, current) →
    current.canTransitionTo call.action.target = true

/-- The worker has nothing in hand. -/
structure Idle (W : Worker) : Prop where
  holdings : W.holdings = []
  waits : W.waitsFor = none
  result : W.result = none
  outcome : W.outcome = none
  charging : W.charging = none
  reading : W.reading = none
  replaying : W.replaying = none
  loaded : W.loaded = none

theorem Idle.quiet {W : Worker} (h : Idle W) (s : State) (w : WorkerId) : Quiet s w W :=
  { holdings := .inl h.holdings
    waits := h.waits
    result := by simp [h.result]
    outcome := h.outcome
    charging := .inl h.charging
    reading := by simp [h.reading]
    replaying := by simp [h.replaying]
    loaded := by simp [h.loaded] }

/-- What `w` is after it has sent a request: the same attempts in hand, waiting. -/
structure Sent (W W' : Worker) (callId : ℕ) : Prop where
  holdings : W'.holdings = W.holdings
  waits : W'.waitsFor = some callId
  result : W'.result = none
  outcome : W'.outcome = none
  charging : W'.charging = W.charging
  reading : W'.reading = none
  replaying : W'.replaying = none
  loaded : W'.loaded = none

/-- What `w` is after a finalization: the rest of the attempts in hand, and an answer if it is
a handler. -/
structure Finished (W W' : Worker) (o : PayOutcome) : Prop where
  holdings : W'.holdings = W.holdings.tail
  waits : W'.waitsFor = none
  result : W'.result = none
  outcome : W'.outcome = none ∨
    ∃ call job, W'.outcome = some (call, o) ∧ W.charging = some (call, job)
  charging : W'.charging = none
  reading : W'.reading = none
  replaying : W'.replaying = none
  loaded : W'.loaded = none

/-- The state after the PSP has served a request. -/
def served (s : State) (i : ℕ) (m : InFlight) (result : PspResult) (psp : PspState) : State :=
  { s with
    psp
    inFlight := s.inFlight.eraseIdx i
    workers := fun v =>
      if v = m.worker then (s.workers v).map (Worker.deliver m.callId result) else s.workers v }

@[simp] theorem served_psp (s : State) (i : ℕ) (m : InFlight) (result : PspResult)
    (psp : PspState) : (served s i m result psp).psp = psp := rfl

/-- What a step may change, with what it has checked. -/
inductive Effect (env : Env δ) (s : State) : Label δ → State → Prop
  | advance {now : Timestamp} (h : s.now ≤ now) : Effect env s (.advance now) { s with now }
  | create {businessId : Uuid} {req : CreateInvoiceRequest} {fresh : Fresh} {db : Db}
      {inv : Invoice} (h : InvoiceService.Created s.db s.now businessId req fresh db inv) :
      Effect env s (.create businessId req fresh) (s.setDb db)
  | lease {w : WorkerId} {locked ids : List Uuid} (hw : s.workers w = none)
      (hbatch : Reconciler.isBatch s.db s.now locked ids = true) :
      Effect env s (.tick w locked ids)
        ((s.setDb (Reconciler.lease s.db s.now ids).1).setWorker w
          (.tick s.now (Reconciler.lease s.db s.now ids).2 .ready))
  | quiet {l : Label δ} {w : WorkerId} {W' : Worker} (hl : l.worker = some w)
      (h : Quiet s w W') :
      Effect env s l (s.setWorker w W')
  | send {w : WorkerId} {fresh : Fresh} {W W' : Worker} {held : Holding} {rest : List Holding}
      (hw : s.workers w = some W) (hheld : W.holdings = held :: rest)
      (h : Sent W W' s.nextCall) :
      Effect env s (.work w fresh) ((s.send w held.job).setWorker w W')
  | claim {w : WorkerId} {fresh : Fresh} {call : PayCall} {state : InvoiceState} {amount : Int64}
      {db : Db} {job : Job} (hw : s.workers w = some (.pay call (.read state amount)))
      (hjob : call.IsOf job) (hamount : job.amountCents = amount)
      (h : PaymentService.Claimed s.db fresh
        (PaymentService.fingerprint env.sha256 call.invoiceId call.req.cardToken amount)
        state job db) :
      Effect env s (.work w fresh)
        ((s.setDb db).setWorker w (.pay call (.charging job s.now .ready)))
  | replay {w : WorkerId} {fresh : Fresh} {call : PayCall} {amount : Int64}
      (hw : s.workers w = some (.pay call (.replaying amount))) :
      Effect env s (.work w fresh)
        (s.setWorker w (.pay call (.done
          (PaymentService.replay s.db call.businessId call.idempotencyKey
            (PaymentService.fingerprint env.sha256 call.invoiceId call.req.cardToken amount)
            call.invoiceId))))
  | serve {i : ℕ} {choice : δ} {m : InFlight} {result : PspResult} {psp : PspState}
      (hm : s.inFlight[i]? = some m)
      (h : env.psp s.psp m.job.attemptId m.job.request choice = some (result, psp)) :
      Effect env s (.serve i choice) (served s i m result psp)
  | finalize {w : WorkerId} {fresh : Fresh} {W W' : Worker} {job : Job} {result : PspResult}
      {db : Db} {o : PayOutcome} (hw : s.workers w = some W)
      (hresult : W.result = some (job, result))
      (h : PaymentService.Finalized s.db s.now fresh job result db o)
      (hW' : Finished W W' o) :
      Effect env s (.work w fresh) ((s.setDb db).setWorker w W')
  | move {w : WorkerId} {fresh : Fresh} {call : AdminCall} {current : InvoiceState} {db : Db}
      {inv : Invoice} (hw : s.workers w = some (.admin call (.loaded current)))
      (h : InvoiceService.apply s.db s.now call.businessId call.id current call.action.target
        = .ok (db, inv)) :
      Effect env s (.work w fresh) ((s.setDb db).setWorker w (.admin call (.done (.ok inv))))

/-! ## The inversion -/

theorem idle_pay_begun (call : PayCall) : Idle (.pay call .begun) :=
  ⟨rfl, rfl, rfl, rfl, rfl, rfl, rfl, rfl⟩

theorem idle_pay_error (call : PayCall) (e : AppError) : Idle (.pay call (.done (.error e))) :=
  ⟨rfl, rfl, rfl, rfl, rfl, rfl, rfl, rfl⟩

theorem idle_admin_begun (call : AdminCall) : Idle (.admin call .begun) :=
  ⟨rfl, rfl, rfl, rfl, rfl, rfl, rfl, rfl⟩

theorem idle_admin_done (call : AdminCall) (a : Except AppError Invoice) :
    Idle (.admin call (.done a)) := ⟨rfl, rfl, rfl, rfl, rfl, rfl, rfl, rfl⟩

theorem idle_crashed : Idle .crashed := ⟨rfl, rfl, rfl, rfl, rfl, rfl, rfl, rfl⟩

/-- A tick that drops its current job is quiet. -/
theorem quiet_tick_next {w : WorkerId} {leasedAt : Timestamp} {job : Job} {rest : List Job}
    {call : ChargeCall} (hw : s.workers w = some (.tick leasedAt (job :: rest) call)) :
    Quiet s w (.tick leasedAt rest .ready) :=
  { holdings := .inr ⟨_, hw, List.suffix_cons _ _⟩
    waits := rfl
    result := by
      intro job r h
      cases rest <;> cases h
    outcome := rfl
    charging := .inl rfl
    reading := by intro _ _ _ h; cases h
    replaying := by intro _ _ h; cases h
    loaded := by intro _ _ h; cases h }

theorem readInvoice_eq_ok {db : Db} {businessId invoiceId : Uuid} {req : PayRequest}
    {state : InvoiceState} {amount : Int64}
    (h : PaymentService.readInvoice db businessId invoiceId req = .ok (state, amount)) :
    isBlank req.cardToken = false ∧ ∃ i ∈ db.invoices, i.id = invoiceId ∧
      i.businessId = businessId ∧ i.state = state ∧ i.totalCents.cents = amount := by
  unfold PaymentService.readInvoice at h
  split at h
  · cases h
  rename_i hblank
  split at h
  · cases h
  rename_i i hfind
  simp only [Except.ok.injEq, Prod.mk.injEq] at h
  have hi := List.find?_some hfind
  simp only [Bool.and_eq_true, decide_eq_true_eq] at hi
  exact ⟨by simpa using hblank, i, List.mem_of_find?_eq_some hfind, hi.1, hi.2, h.1, h.2⟩

theorem payStep_effect {w : WorkerId} {call : PayCall} {stage : PayStage} {fresh : Fresh}
    (hw : s.workers w = some (.pay call stage)) (h : payStep env s w call fresh stage = some s') :
    Effect env s (.work w fresh) s' := by
  cases stage with
  | begun =>
    simp only [payStep] at h
    split at h
    · obtain rfl := Option.some.inj h
      exact .quiet rfl ((idle_pay_error _ _).quiet s w)
    · rename_i state amount hread
      obtain rfl := Option.some.inj h
      obtain ⟨-, i, hi, hid, hb, hst, hamt⟩ := readInvoice_eq_ok hread
      refine .quiet rfl
        { holdings := .inl rfl
          waits := rfl
          result := by intro _ _ h; cases h
          outcome := rfl
          charging := .inl rfl
          reading := ?_
          replaying := by intro _ _ h; cases h
          loaded := by intro _ _ h; cases h }
      intro call' state' amount' hr
      simp only [Worker.reading, Option.some.injEq, Prod.mk.injEq] at hr
      obtain ⟨rfl, rfl, rfl⟩ := hr
      exact ⟨i, hi, hid, hb, hst, hamt⟩
  | read state amount =>
    simp only [payStep] at h
    split at h
    · rename_i hclaim
      obtain rfl := Option.some.inj h
      refine .quiet rfl
        { holdings := .inl rfl
          waits := rfl
          result := by intro _ _ h; cases h
          outcome := rfl
          charging := .inl rfl
          reading := by intro _ _ _ h; cases h
          replaying := ?_
          loaded := by intro _ _ h; cases h }
      intro call' amount' hr
      simp only [Worker.replaying, Option.some.injEq, Prod.mk.injEq] at hr
      obtain ⟨rfl, rfl⟩ := hr
      exact ⟨⟨_, state, hw, rfl⟩, PaymentService.exists_key_of_claim_replay hclaim⟩
    · obtain rfl := Option.some.inj h
      exact .quiet rfl ((idle_pay_error _ _).quiet s w)
    · rename_i db job hclaim
      obtain rfl := Option.some.inj h
      obtain ⟨⟨hinv, hb, hkey, hamount, htoken⟩, hclaimed⟩ := PaymentService.claim_claimed hclaim
      exact .claim hw ⟨hb, hkey, hinv, htoken⟩ hamount hclaimed
  | replaying amount =>
    simp only [payStep, Option.some.injEq] at h
    subst h
    exact .replay hw
  | charging job claimedAt c =>
    cases c with
    | ready =>
      simp only [payStep, Option.some.injEq] at h
      subst h
      exact .send hw rfl ⟨rfl, rfl, rfl, rfl, rfl, rfl, rfl, rfl⟩
    | waiting callId => cases h
    | got result =>
      simp only [payStep] at h
      split at h
      · obtain rfl := Option.some.inj h
        exact .quiet rfl ((idle_pay_error _ _).quiet s w)
      · rename_i db o hfin
        obtain rfl := Option.some.inj h
        exact .finalize hw rfl (PaymentService.finalize_finalized hfin)
          ⟨rfl, rfl, rfl, .inr ⟨call, job, rfl, rfl⟩, rfl, rfl, rfl, rfl⟩
  | done answer => cases h

theorem adminStep_effect {w : WorkerId} {call : AdminCall} {stage : AdminStage} {fresh : Fresh}
    (hw : s.workers w = some (.admin call stage)) (h : adminStep s w call stage = some s') :
    Effect env s (.work w fresh) s' := by
  cases stage with
  | begun =>
    simp only [adminStep] at h
    split at h
    · obtain rfl := Option.some.inj h
      exact .quiet rfl ((idle_admin_done _ _).quiet s w)
    rename_i invoice hload
    split at h
    · obtain rfl := Option.some.inj h
      exact .quiet rfl ((idle_admin_done _ _).quiet s w)
    rename_i hcheck
    obtain rfl := Option.some.inj h
    refine .quiet rfl
      { holdings := .inl rfl
        waits := rfl
        result := by intro _ _ h; cases h
        outcome := rfl
        charging := .inl rfl
        reading := by intro _ _ _ h; cases h
        replaying := by intro _ _ h; cases h
        loaded := ?_ }
    intro call' current hl
    simp only [Worker.loaded, Option.some.injEq, Prod.mk.injEq] at hl
    obtain ⟨rfl, rfl⟩ := hl
    exact InvoiceService.check_eq_ok hcheck
  | loaded current =>
    simp only [adminStep] at h
    split at h
    · obtain rfl := Option.some.inj h
      exact .quiet rfl ((idle_admin_done _ _).quiet s w)
    · rename_i db inv happly
      obtain rfl := Option.some.inj h
      exact .move hw happly
  | done answer => cases h

theorem tickStep_effect {w : WorkerId} {leasedAt : Timestamp} {jobs : List Job} {c : ChargeCall}
    {fresh : Fresh} (hw : s.workers w = some (.tick leasedAt jobs c))
    (h : tickStep s w leasedAt fresh jobs c = some s') : Effect env s (.work w fresh) s' := by
  cases jobs with
  | nil => cases h
  | cons job rest =>
    cases c with
    | ready =>
      simp only [tickStep, Option.some.injEq] at h
      subst h
      exact .send hw rfl ⟨rfl, rfl, rfl, rfl, rfl, rfl, rfl, rfl⟩
    | waiting callId => cases h
    | got result =>
      simp only [tickStep] at h
      split at h
      · obtain rfl := Option.some.inj h
        exact .quiet rfl (quiet_tick_next hw)
      · rename_i db o hfin
        obtain rfl := Option.some.inj h
        refine .finalize hw rfl (PaymentService.finalize_finalized hfin)
          ⟨rfl, rfl, ?_, .inl rfl, rfl, rfl, rfl, rfl⟩
        cases rest <;> rfl

theorem workerStep_effect {w : WorkerId} {W : Worker} {fresh : Fresh} (hw : s.workers w = some W)
    (h : workerStep env s w fresh W = some s') : Effect env s (.work w fresh) s' := by
  cases W with
  | pay call stage => exact payStep_effect hw h
  | admin call stage => exact adminStep_effect hw h
  | tick leasedAt jobs c => exact tickStep_effect hw h
  | crashed => cases h

/-- Giving up leaves the worker with an unknown result. -/
theorem quiet_giveUp {w : WorkerId} {W : Worker} {callId : ℕ} {reason : UnknownReason}
    (hw : s.workers w = some W) (hwait : W.waitsFor = some callId) :
    Quiet s w (W.deliver callId (.unknown reason)) := by
  unfold Worker.waitsFor at hwait
  split at hwait
  · rename_i call job claimedAt c
    obtain rfl := Option.some.inj hwait
    simp only [Worker.deliver, if_pos]
    exact
      { holdings := .inr ⟨_, hw, List.suffix_refl _⟩
        waits := rfl
        result := by
          intro job' r hr
          simp only [Worker.result, Option.some.injEq, Prod.mk.injEq] at hr
          exact ⟨reason, hr.2.symm⟩
        outcome := rfl
        charging := .inr ⟨_, hw, rfl⟩
        reading := by intro _ _ _ h; cases h
        replaying := by intro _ _ h; cases h
        loaded := by intro _ _ h; cases h }
  · rename_i leasedAt jobs c
    obtain rfl := Option.some.inj hwait
    simp only [Worker.deliver, if_pos]
    exact
      { holdings := .inr ⟨_, hw, List.suffix_refl _⟩
        waits := rfl
        result := by
          intro job' r hr
          cases jobs with
          | nil => cases hr
          | cons job rest =>
            simp only [Worker.result, Option.some.injEq, Prod.mk.injEq] at hr
            exact ⟨reason, hr.2.symm⟩
        outcome := rfl
        charging := .inr ⟨_, hw, rfl⟩
        reading := by intro _ _ _ h; cases h
        replaying := by intro _ _ h; cases h
        loaded := by intro _ _ h; cases h }
  · cases hwait

theorem quiet_dbError {w : WorkerId} {W W' : Worker} (hw : s.workers w = some W)
    (h : W.onDbError = some W') : Quiet s w W' := by
  unfold Worker.onDbError at h
  split at h
  · cases h
  · cases h
  · cases h
  · obtain rfl := Option.some.inj h
    exact (idle_pay_error _ _).quiet s w
  · cases h
  · obtain rfl := Option.some.inj h
    exact (idle_admin_done _ _).quiet s w
  · obtain rfl := Option.some.inj h
    exact quiet_tick_next hw
  · cases h
  · cases h

/-- Every step has one of the ten effects. -/
theorem step_effect {l : Label δ} (h : step env s l = some s') : Effect env s l s' := by
  cases l with
  | advance now =>
    simp only [step] at h
    split_ifs at h with hnow
    obtain rfl := Option.some.inj h
    exact .advance hnow
  | create businessId req fresh =>
    simp only [step] at h
    split at h
    · cases h
    rename_i db resp hcreate
    obtain rfl := Option.some.inj h
    obtain ⟨inv, hinv⟩ := InvoiceService.create_eq_ok hcreate
    exact .create hinv
  | startPay w call =>
    simp only [step, startStep] at h
    split at h
    · cases h
    obtain rfl := Option.some.inj h
    exact .quiet rfl ((idle_pay_begun call).quiet s w)
  | startAdmin w call =>
    simp only [step, startStep] at h
    split at h
    · cases h
    obtain rfl := Option.some.inj h
    exact .quiet rfl ((idle_admin_begun call).quiet s w)
  | tick w locked ids =>
    simp only [step] at h
    split_ifs at h with hbatch
    unfold startStep at h
    split at h
    · cases h
    rename_i hw
    obtain rfl := Option.some.inj h
    exact .lease hw hbatch
  | work w fresh =>
    simp only [step] at h
    obtain ⟨W, hw, hstep⟩ := Option.bind_eq_some_iff.mp h
    exact workerStep_effect hw hstep
  | serve i choice =>
    simp only [step, serveStep] at h
    split at h
    · cases h
    rename_i m hm
    split at h
    · cases h
    rename_i result psp hserve
    obtain rfl := Option.some.inj h
    exact .serve hm hserve
  | giveUp w reason =>
    simp only [step] at h
    split at h
    · cases h
    rename_i W hw
    obtain ⟨callId, hwait, rfl⟩ := Option.map_eq_some_iff.mp h
    exact .quiet rfl (quiet_giveUp hw hwait)
  | dbError w =>
    simp only [step] at h
    obtain ⟨W', hW', rfl⟩ := Option.map_eq_some_iff.mp h
    obtain ⟨W, hw, hstep⟩ := Option.bind_eq_some_iff.mp hW'
    exact .quiet rfl (quiet_dbError hw hstep)
  | crash w =>
    simp only [step] at h
    split at h
    · cases h
    split_ifs at h
    obtain rfl := Option.some.inj h
    exact .quiet rfl (idle_crashed.quiet s w)

/-- A worker that commits transaction 2 has finalized its current attempt. -/
theorem finalized_of_commits {w : WorkerId} {W : Worker} {fresh : Fresh} {job : Job}
    {r : PspResult} (h : step env s (.work w fresh) = some s') (hw : s.workers w = some W)
    (hr : W.result = some (job, r)) (hcommits : PaymentService.Commits s.db fresh r) :
    ∃ o, PaymentService.Finalized s.db s.now fresh job r s'.db o := by
  obtain ⟨⟨db, o⟩, hfin⟩ : ∃ p, PaymentService.finalize s.db s.now fresh job r = .ok p :=
    PaymentService.exists_finalize hcommits
  have hfinal := PaymentService.finalize_finalized hfin
  simp only [step, hw, Option.bind_some] at h
  unfold Worker.result at hr
  split at hr
  · obtain ⟨rfl, rfl⟩ := Prod.mk.inj (Option.some.inj hr)
    simp only [workerStep, payStep, hfin, Option.some.injEq] at h
    subst h
    exact ⟨o, hfinal⟩
  · obtain ⟨rfl, rfl⟩ := Prod.mk.inj (Option.some.inj hr)
    simp only [workerStep, tickStep, hfin, Option.some.injEq] at h
    subst h
    exact ⟨o, hfinal⟩
  · cases hr

end InvoicePayment.Payments
