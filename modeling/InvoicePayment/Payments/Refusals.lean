import InvoicePayment.Payments.Soundness

/-!
# Refused calls

A pay or admin call that is refused has committed nothing and sent nothing on its way: every one
of its steps only moves its worker on. `step_forget` is the other half: no other step looks at
such a worker, so the system without it takes the same steps.
-/

namespace InvoicePayment

/-- A client error: 404, 409 or 422. -/
def AppError.isRejection (e : AppError) : Bool := [404, 409, 422].contains e.status.code

namespace Payments

variable {δ : Type} {env : Env δ} {s t : State} {l : Label δ} {w : WorkerId}

/-- A call that has read, or has been refused, and nothing else. -/
def Worker.isClean : Worker → Bool
  | .pay _ .begun => true
  | .pay _ (.read _ _) => true
  | .pay _ (.replaying _) => true
  | .pay _ (.done (.error e)) => e.isRejection
  | .admin _ .begun => true
  | .admin _ (.loaded _) => true
  | .admin _ (.done (.error e)) => e.isRejection
  | _ => false

/-- The error a pay or admin call was answered with. -/
def Worker.error : Worker → Option AppError
  | .pay _ (.done (.error e)) => some e
  | .admin _ (.done (.error e)) => some e
  | _ => none

theorem Worker.isClean_of_error {W : Worker} {e : AppError} (h : W.error = some e)
    (he : e.isRejection = true) : W.isClean = true := by
  unfold Worker.error at h
  split at h
  · obtain rfl := Option.some.inj h
    exact he
  · obtain rfl := Option.some.inj h
    exact he
  · cases h

/-- The system without a worker. -/
def State.forget (s : State) (w : WorkerId) : State :=
  { s with workers := fun v => if v = w then none else s.workers v }

@[simp] theorem forget_db (s : State) (w : WorkerId) : (s.forget w).db = s.db := rfl
@[simp] theorem forget_now (s : State) (w : WorkerId) : (s.forget w).now = s.now := rfl
@[simp] theorem forget_nextCall (s : State) (w : WorkerId) :
    (s.forget w).nextCall = s.nextCall := rfl

/-- The worker a step has set, seen in the state after it. -/
theorem eq_of_setWorker {W W' : Worker} (h : (s.setWorker w W').workers w = some W) : W' = W :=
  Option.some.inj ((if_pos rfl).symm.trans h)

/-! ## Which errors come from where -/

theorem commitOutcome_error {db : Db} {now : Timestamp} {fresh : Fresh} {job : Job}
    {eventType : EventType} {status : StatusCode} {resp : PaymentAttemptResponse} {e : AppError}
    (h : PaymentService.commitOutcome db now fresh job eventType status resp = .error e) :
    e = .internal := by
  unfold PaymentService.commitOutcome PaymentService.emit WebhookService.emitEvent at h
  dsimp only at h
  split_ifs at h
  exact (Except.error.inj h).symm

/-- After the claim only a failure is left, no refusal. -/
theorem finalize_error {db : Db} {now : Timestamp} {fresh : Fresh} {job : Job}
    {result : PspResult} {e : AppError}
    (h : PaymentService.finalize db now fresh job result = .error e) : e = .internal := by
  unfold PaymentService.finalize at h
  split at h
  · split_ifs at h
    · exact commitOutcome_error h
    · exact (Except.error.inj h).symm
  · split_ifs at h
    · exact commitOutcome_error h
    · exact (Except.error.inj h).symm
  · cases h

/-- The claim refuses an invoice or a second payment only under a key that is free. -/
theorem claim_refused {sha256 : List UInt8 → List UInt8} {db : Db} {fresh : Fresh}
    {businessId invoiceId : Uuid} {key : String} {req : PayRequest} {state : InvoiceState}
    {amount : Int64} {e : AppError}
    (h : PaymentService.claim sha256 db fresh businessId invoiceId key req state amount =
      .refused e) :
    e = .internal ∨ ∀ k ∈ db.idempotencyKeys, PaymentService.isKey businessId key k = false := by
  unfold PaymentService.claim at h
  split at h
  · rename_i e' hinsert
    obtain rfl := PaymentService.Claim.refused.inj h
    unfold PaymentService.insertKey at hinsert
    dsimp only at hinsert
    split_ifs at hinsert
    · obtain rfl := Except.error.inj hinsert
      exact Or.inl rfl
    · obtain rfl := Except.error.inj hinsert
      exact Or.inl rfl
  · cases h
  · rename_i db₁ hinsert
    obtain ⟨-, hfree, -⟩ := PaymentService.insertKey_eq_some hinsert
    refine Or.inr fun k hk => ?_
    have hne := Table.UniqueIndex.ne_of_not_conflicts hfree rfl hk rfl
    by_contra hkey
    simp only [PaymentService.isKey, Bool.not_eq_false, Bool.and_eq_true,
      decide_eq_true_eq] at hkey
    exact hne (Prod.ext hkey.1 hkey.2)

/-- No error of a replay says that the invoice cannot be paid. -/
theorem replay_error {db : Db} {businessId invoiceId : Uuid} {key : String}
    {requestFingerprint : List UInt8} {e : AppError}
    (h : PaymentService.replay db businessId key requestFingerprint invoiceId = .error e) :
    e = SqlError.rowNotFound.toAppError ∨ e = PaymentService.idempotencyKeyReuse ∨
      e = .internal := by
  unfold PaymentService.replay at h
  split at h
  · exact Or.inl (Except.error.inj h).symm
  · unfold PaymentService.replayRow at h
    split_ifs at h
    · exact Or.inr (Or.inl (Except.error.inj h).symm)
    · split at h
      · cases h
      · split at h
        · cases h
        · exact Or.inr (Or.inr (Except.error.inj h).symm)

theorem readInvoice_error {db : Db} {businessId invoiceId : Uuid} {req : PayRequest}
    {e : AppError} (h : PaymentService.readInvoice db businessId invoiceId req = .error e) :
    e = .validation [⟨"card_token", "must not be empty"⟩] ∨ e = .notFound "invoice not found" := by
  unfold PaymentService.readInvoice at h
  split_ifs at h
  · exact Or.inl (Except.error.inj h).symm
  · split at h
    · exact Or.inr (Except.error.inj h).symm
    · cases h

/-- The call is refused for the invoice it is to pay: it cannot be paid, or another payment of it
is under way. -/
def IsRefusal (e : AppError) : Prop :=
  e = PaymentService.paymentInProgress ∨ ∃ state, e = PaymentService.invoiceNotPayable state

theorem not_isRefusal_internal : ¬ IsRefusal .internal := by
  rintro (h | ⟨state, h⟩)
  · cases h
  · cases h

theorem isClean_of_isRefusal {call : PayCall} {e : AppError} (h : IsRefusal e) :
    (Worker.pay call (.done (.error e))).isClean = true := by
  rcases h with rfl | ⟨state, rfl⟩
  · rfl
  · rfl

/-- A pay handler that refuses the invoice finds its key free. -/
theorem payStep_refused {call call' : PayCall} {fresh : Fresh} {stage : PayStage} {e : AppError}
    (h : payStep env s w call fresh stage = some t)
    (hw : t.workers w = some (.pay call' (.done (.error e)))) (he : IsRefusal e) :
    call' = call ∧ ∀ k ∈ s.db.idempotencyKeys,
      PaymentService.isKey call.businessId call.idempotencyKey k = false := by
  unfold payStep at h
  split at h
  · split at h
    · rename_i e' hread
      obtain rfl := Option.some.inj h
      obtain ⟨rfl, hdone⟩ := Worker.pay.inj (eq_of_setWorker hw)
      obtain rfl := Except.error.inj (PayStage.done.inj hdone)
      rcases readInvoice_error hread with rfl | rfl
      · rcases he with he | ⟨state, he⟩
        · cases he
        · cases he
      · rcases he with he | ⟨state, he⟩
        · cases he
        · cases he
    · obtain rfl := Option.some.inj h
      cases eq_of_setWorker hw
  · split at h
    · obtain rfl := Option.some.inj h
      cases eq_of_setWorker hw
    · rename_i e' hclaim
      obtain rfl := Option.some.inj h
      obtain ⟨rfl, hdone⟩ := Worker.pay.inj (eq_of_setWorker hw)
      obtain rfl := Except.error.inj (PayStage.done.inj hdone)
      rcases claim_refused hclaim with rfl | hfree
      · exact absurd he not_isRefusal_internal
      · exact ⟨rfl, hfree⟩
    · obtain rfl := Option.some.inj h
      cases eq_of_setWorker hw
  · obtain rfl := Option.some.inj h
    obtain ⟨rfl, hdone⟩ := Worker.pay.inj (eq_of_setWorker hw)
    rcases replay_error (PayStage.done.inj hdone) with rfl | rfl | rfl
    · rcases he with he | ⟨state, he⟩
      · cases he
      · cases he
    · rcases he with he | ⟨state, he⟩
      · exact absurd he (by decide)
      · exact absurd (AppError.conflict.inj he).1 (by decide)
    · exact absurd he not_isRefusal_internal
  · obtain rfl := Option.some.inj h
    cases eq_of_setWorker hw
  · cases h
  · split at h
    · rename_i e' hfinalize
      obtain rfl := Option.some.inj h
      obtain ⟨rfl, hdone⟩ := Worker.pay.inj (eq_of_setWorker hw)
      obtain rfl := Except.error.inj (PayStage.done.inj hdone)
      rw [finalize_error hfinalize] at he
      exact absurd he not_isRefusal_internal
    · obtain rfl := Option.some.inj h
      cases eq_of_setWorker hw
  · cases h

/-! ## The steps of a refused call -/

theorem payStep_of_clean {call : PayCall} {fresh : Fresh} {stage : PayStage}
    (h : payStep env s w call fresh stage = some t) {W : Worker} (hw : t.workers w = some W)
    (hW : W.isClean = true) :
    (Worker.pay call stage).isClean = true ∧ t = s.setWorker w W := by
  unfold payStep at h
  split at h
  · split at h
    · obtain rfl := Option.some.inj h
      exact ⟨rfl, by rw [eq_of_setWorker hw]⟩
    · obtain rfl := Option.some.inj h
      exact ⟨rfl, by rw [eq_of_setWorker hw]⟩
  · split at h
    · obtain rfl := Option.some.inj h
      exact ⟨rfl, by rw [eq_of_setWorker hw]⟩
    · obtain rfl := Option.some.inj h
      exact ⟨rfl, by rw [eq_of_setWorker hw]⟩
    · -- a key that is claimed is charged
      obtain rfl := Option.some.inj h
      rw [← eq_of_setWorker hw] at hW
      exact Bool.noConfusion hW
  · obtain rfl := Option.some.inj h
    exact ⟨rfl, by rw [eq_of_setWorker hw]⟩
  · obtain rfl := Option.some.inj h
    rw [← eq_of_setWorker hw] at hW
    exact Bool.noConfusion hW
  · cases h
  · split at h
    · rename_i e hfinalize
      obtain rfl := Option.some.inj h
      rw [← eq_of_setWorker hw, finalize_error hfinalize] at hW
      exact Bool.noConfusion hW
    · obtain rfl := Option.some.inj h
      rw [← eq_of_setWorker hw] at hW
      exact Bool.noConfusion hW
  · cases h

theorem adminStep_of_clean {call : AdminCall} {stage : AdminStage}
    (h : adminStep s w call stage = some t) {W : Worker} (hw : t.workers w = some W)
    (hW : W.isClean = true) :
    (Worker.admin call stage).isClean = true ∧ t = s.setWorker w W := by
  unfold adminStep at h
  split at h
  · split at h
    · obtain rfl := Option.some.inj h
      exact ⟨rfl, by rw [eq_of_setWorker hw]⟩
    · split at h
      · obtain rfl := Option.some.inj h
        exact ⟨rfl, by rw [eq_of_setWorker hw]⟩
      · obtain rfl := Option.some.inj h
        exact ⟨rfl, by rw [eq_of_setWorker hw]⟩
  · split at h
    · obtain rfl := Option.some.inj h
      exact ⟨rfl, by rw [eq_of_setWorker hw]⟩
    · obtain rfl := Option.some.inj h
      rw [← eq_of_setWorker hw] at hW
      exact Bool.noConfusion hW
  · cases h

theorem tickStep_unclean {leasedAt : Timestamp} {fresh : Fresh} {jobs : List Job}
    {call : ChargeCall} (h : tickStep s w leasedAt fresh jobs call = some t) {W : Worker}
    (hw : t.workers w = some W) : W.isClean = false := by
  unfold tickStep at h
  split at h
  · cases h
  · obtain rfl := Option.some.inj h
    rw [← eq_of_setWorker hw]
    rfl
  · cases h
  · split at h
    · obtain rfl := Option.some.inj h
      rw [← eq_of_setWorker hw]
      rfl
    · obtain rfl := Option.some.inj h
      rw [← eq_of_setWorker hw]
      rfl

/-- A call that waits has sent something. -/
theorem unclean_deliver {W : Worker} {c : ℕ} (h : W.waitsFor = some c) (callId : ℕ)
    (r : PspResult) : (W.deliver callId r).isClean = false := by
  unfold Worker.waitsFor at h
  split at h
  · unfold Worker.deliver
    dsimp only
    split_ifs
    · rfl
    · rfl
  · unfold Worker.deliver
    dsimp only
    split_ifs
    · rfl
    · rfl
  · cases h

theorem unclean_onDbError {W W' : Worker} (h : W.onDbError = some W') : W'.isClean = false := by
  unfold Worker.onDbError at h
  split at h
  · cases h
  · cases h
  · cases h
  · obtain rfl := Option.some.inj h
    rfl
  · cases h
  · obtain rfl := Option.some.inj h
    rfl
  · obtain rfl := Option.some.inj h
    rfl
  · cases h
  · cases h

/-- A step of its own that leaves a call clean found it clean, or found no call, and did nothing
but move it on. -/
theorem step_of_clean (h : step env s l = some t) (hl : l.worker = some w) {W : Worker}
    (hw : t.workers w = some W) (hW : W.isClean = true) :
    (∀ W₀, s.workers w = some W₀ → W₀.isClean = true) ∧ t = s.setWorker w W := by
  cases l with
  | advance now => cases hl
  | create businessId req fresh => cases hl
  | serve i choice => cases hl
  | startPay v call =>
    obtain rfl := Option.some.inj hl
    simp only [step, startStep] at h
    split at h
    · cases h
    · rename_i hnone
      obtain rfl := Option.some.inj h
      refine ⟨fun W₀ hW₀ => ?_, by rw [eq_of_setWorker hw]⟩
      rw [hnone] at hW₀
      cases hW₀
  | startAdmin v call =>
    obtain rfl := Option.some.inj hl
    simp only [step, startStep] at h
    split at h
    · cases h
    · rename_i hnone
      obtain rfl := Option.some.inj h
      refine ⟨fun W₀ hW₀ => ?_, by rw [eq_of_setWorker hw]⟩
      rw [hnone] at hW₀
      cases hW₀
  | tick v locked ids =>
    obtain rfl := Option.some.inj hl
    simp only [step, startStep] at h
    split_ifs at h
    split at h
    · cases h
    · obtain rfl := Option.some.inj h
      rw [← eq_of_setWorker hw] at hW
      exact Bool.noConfusion hW
  | work v fresh =>
    obtain rfl := Option.some.inj hl
    obtain ⟨W₀, hW₀, hown⟩ := Option.bind_eq_some_iff.mp h
    have hclean : W₀.isClean = true ∧ t = s.setWorker v W := by
      cases W₀ with
      | pay call stage => exact payStep_of_clean hown hw hW
      | admin call stage => exact adminStep_of_clean hown hw hW
      | tick leasedAt jobs call =>
        rw [tickStep_unclean hown hw] at hW
        exact Bool.noConfusion hW
      | crashed => cases hown
    refine ⟨fun W₁ hW₁ => ?_, hclean.2⟩
    rw [← Option.some.inj (hW₀.symm.trans hW₁)]
    exact hclean.1
  | giveUp v reason =>
    obtain rfl := Option.some.inj hl
    simp only [step] at h
    split at h
    · cases h
    · obtain ⟨c, hc, rfl⟩ := Option.map_eq_some_iff.mp h
      rw [← eq_of_setWorker hw, unclean_deliver hc] at hW
      exact Bool.noConfusion hW
  | dbError v =>
    obtain rfl := Option.some.inj hl
    obtain ⟨W', hW', rfl⟩ := Option.map_eq_some_iff.mp h
    obtain ⟨W₀, -, herror⟩ := Option.bind_eq_some_iff.mp hW'
    rw [← eq_of_setWorker hw, unclean_onDbError herror] at hW
    exact Bool.noConfusion hW
  | crash v =>
    obtain rfl := Option.some.inj hl
    simp only [step] at h
    split at h
    · cases h
    · split_ifs at h
      obtain rfl := Option.some.inj h
      rw [← eq_of_setWorker hw] at hW
      exact Bool.noConfusion hW

/-- An admin handler stays one. -/
theorem admin_of_adminStep {call : AdminCall} {stage : AdminStage}
    (h : adminStep s w call stage = some t) : ∃ stage', t.workers w = some (.admin call stage') := by
  unfold adminStep at h
  split at h
  · split at h
    · obtain rfl := Option.some.inj h
      exact ⟨_, if_pos rfl⟩
    · split at h
      · obtain rfl := Option.some.inj h
        exact ⟨_, if_pos rfl⟩
      · obtain rfl := Option.some.inj h
        exact ⟨_, if_pos rfl⟩
  · split at h
    · obtain rfl := Option.some.inj h
      exact ⟨_, if_pos rfl⟩
    · obtain rfl := Option.some.inj h
      exact ⟨_, if_pos rfl⟩
  · cases h

/-- The step that refuses to pay the invoice finds the key of its call free. -/
theorem key_free_of_refused (h : step env s l = some t) (hl : l.worker = some w)
    {call : PayCall} {e : AppError} (hw : t.workers w = some (.pay call (.done (.error e))))
    (he : IsRefusal e) :
    ∀ k ∈ s.db.idempotencyKeys,
      PaymentService.isKey call.businessId call.idempotencyKey k = false := by
  cases l with
  | advance now => cases hl
  | create businessId req fresh => cases hl
  | serve i choice => cases hl
  | startPay v call' =>
    obtain rfl := Option.some.inj hl
    simp only [step, startStep] at h
    split at h
    · cases h
    · obtain rfl := Option.some.inj h
      cases eq_of_setWorker hw
  | startAdmin v call' =>
    obtain rfl := Option.some.inj hl
    simp only [step, startStep] at h
    split at h
    · cases h
    · obtain rfl := Option.some.inj h
      cases eq_of_setWorker hw
  | tick v locked ids =>
    obtain rfl := Option.some.inj hl
    simp only [step, startStep] at h
    split_ifs at h
    split at h
    · cases h
    · obtain rfl := Option.some.inj h
      cases eq_of_setWorker hw
  | work v fresh =>
    obtain rfl := Option.some.inj hl
    obtain ⟨W₀, hW₀, hown⟩ := Option.bind_eq_some_iff.mp h
    cases W₀ with
    | pay call' stage =>
      obtain ⟨rfl, hfree⟩ := payStep_refused hown hw he
      exact hfree
    | admin call' stage =>
      obtain ⟨stage', hstays⟩ := admin_of_adminStep hown
      cases hstays.symm.trans hw
    | tick leasedAt jobs c =>
      have hunclean : (Worker.pay call (.done (.error e))).isClean = false := tickStep_unclean hown hw
      rw [isClean_of_isRefusal he] at hunclean
      exact Bool.noConfusion hunclean
    | crashed => cases hown
  | giveUp v reason =>
    obtain rfl := Option.some.inj hl
    simp only [step] at h
    split at h
    · cases h
    · obtain ⟨c, hc, rfl⟩ := Option.map_eq_some_iff.mp h
      have hunclean := unclean_deliver hc c (.unknown reason)
      rw [eq_of_setWorker hw, isClean_of_isRefusal he] at hunclean
      exact Bool.noConfusion hunclean
  | dbError v =>
    obtain rfl := Option.some.inj hl
    obtain ⟨W', hW', rfl⟩ := Option.map_eq_some_iff.mp h
    obtain ⟨W₀, -, herror⟩ := Option.bind_eq_some_iff.mp hW'
    have hunclean := unclean_onDbError herror
    rw [eq_of_setWorker hw, isClean_of_isRefusal he] at hunclean
    exact Bool.noConfusion hunclean
  | crash v =>
    obtain rfl := Option.some.inj hl
    simp only [step] at h
    split at h
    · cases h
    · split_ifs at h
      obtain rfl := Option.some.inj h
      cases eq_of_setWorker hw

/-! ## The steps of everything else -/

/-- A clean call was there before the step of another worker. -/
theorem worker_of_clean (h : step env s l = some t) (hl : l.worker ≠ some w) {W : Worker}
    (hw : t.workers w = some W) (hW : W.isClean = true) : s.workers w = some W := by
  rcases (step_effect h).workers_of_ne hl with hsame | ⟨callId, r, hdeliver⟩
  · rw [← hsame, hw]
  · rw [hdeliver] at hw
    obtain ⟨W₀, hW₀, rfl⟩ := Option.map_eq_some_iff.mp hw
    cases hwaits : W₀.waitsFor with
    | none => rw [hW₀, Worker.deliver_of_waitsFor_eq_none hwaits]
    | some c =>
      rw [unclean_deliver hwaits] at hW
      exact Bool.noConfusion hW

section Forget

variable {v : WorkerId}

/-- Without the worker, what it did to itself is gone. -/
theorem setWorker_forget (s : State) (w : WorkerId) (W : Worker) :
    (s.setWorker w W).forget w = s.forget w := by
  have hworkers : ((s.setWorker w W).forget w).workers = (s.forget w).workers := by
    funext u
    by_cases hu : u = w
    · simp [State.forget, hu]
    · simp [State.setWorker, State.forget, hu]
  exact congrArg (fun f => { s with workers := f }) hworkers

theorem forget_setWorker (hv : v ≠ w) (s : State) (W : Worker) :
    (s.forget w).setWorker v W = (s.setWorker v W).forget w := by
  have hworkers : ((s.forget w).setWorker v W).workers = ((s.setWorker v W).forget w).workers := by
    funext u
    by_cases hu : u = v
    · simp [State.setWorker, State.forget, hu, hv]
    · simp [State.setWorker, State.forget, hu]
  exact congrArg (fun f => { s with workers := f }) hworkers

theorem workers_forget (hv : v ≠ w) (s : State) : (s.forget w).workers v = s.workers v :=
  if_neg hv

theorem payStep_forget (hv : v ≠ w) (s : State) (call : PayCall) (fresh : Fresh)
    (stage : PayStage) :
    payStep env (s.forget w) v call fresh stage =
      (payStep env s v call fresh stage).map fun t => t.forget w := by
  unfold payStep
  simp only [forget_db, forget_now, forget_nextCall]
  split
  · split
    · exact congrArg some (forget_setWorker hv s _)
    · exact congrArg some (forget_setWorker hv s _)
  · split
    · exact congrArg some (forget_setWorker hv s _)
    · exact congrArg some (forget_setWorker hv s _)
    · exact congrArg some (forget_setWorker hv (s.setDb _) _)
  · exact congrArg some (forget_setWorker hv s _)
  · exact congrArg some (forget_setWorker hv (s.send v _) _)
  · rfl
  · split
    · exact congrArg some (forget_setWorker hv s _)
    · exact congrArg some (forget_setWorker hv (s.setDb _) _)
  · rfl

theorem adminStep_forget (hv : v ≠ w) (s : State) (call : AdminCall) (stage : AdminStage) :
    adminStep (s.forget w) v call stage = (adminStep s v call stage).map fun t => t.forget w := by
  unfold adminStep
  simp only [forget_db, forget_now]
  split
  · split
    · exact congrArg some (forget_setWorker hv s _)
    · split
      · exact congrArg some (forget_setWorker hv s _)
      · exact congrArg some (forget_setWorker hv s _)
  · split
    · exact congrArg some (forget_setWorker hv s _)
    · exact congrArg some (forget_setWorker hv (s.setDb _) _)
  · rfl

theorem tickStep_forget (hv : v ≠ w) (s : State) (leasedAt : Timestamp) (fresh : Fresh)
    (jobs : List Job) (call : ChargeCall) :
    tickStep (s.forget w) v leasedAt fresh jobs call =
      (tickStep s v leasedAt fresh jobs call).map fun t => t.forget w := by
  unfold tickStep
  simp only [forget_db, forget_now, forget_nextCall]
  split
  · rfl
  · exact congrArg some (forget_setWorker hv (s.send v _) _)
  · rfl
  · split
    · exact congrArg some (forget_setWorker hv s _)
    · exact congrArg some (forget_setWorker hv (s.setDb _) _)

theorem startStep_forget (hv : v ≠ w) (s : State) (W : Worker) :
    startStep (s.forget w) v W = (startStep s v W).map fun t => t.forget w := by
  unfold startStep
  rw [workers_forget hv]
  split
  · rfl
  · exact congrArg some (forget_setWorker hv s _)

theorem serveStep_forget (hsent : ∀ m ∈ s.inFlight, m.worker ≠ w) (i : ℕ) (choice : δ) :
    serveStep env (s.forget w) i choice =
      (serveStep env s i choice).map fun t => t.forget w := by
  unfold serveStep
  have hinFlight : (s.forget w).inFlight = s.inFlight := rfl
  have hpsp : (s.forget w).psp = s.psp := rfl
  rw [hinFlight, hpsp]
  split
  · rfl
  · rename_i m hm
    have hmw : m.worker ≠ w := hsent m (List.mem_of_getElem? hm)
    split
    · rfl
    · rename_i result psp hserved
      refine congrArg some ?_
      have hworkers : (fun v => if v = m.worker then
            ((s.forget w).workers v).map (Worker.deliver m.callId result)
          else (s.forget w).workers v) =
          fun v => if v = w then none else
            if v = m.worker then (s.workers v).map (Worker.deliver m.callId result)
            else s.workers v := by
        funext v
        by_cases hv : v = w
        · simp [State.forget, hv, Ne.symm hmw]
        · simp [State.forget, hv]
      exact congrArg (fun f => { s with psp, inFlight := s.inFlight.eraseIdx i, workers := f })
        hworkers

/-- A step that is not the worker's own does not look at the worker. -/
theorem step_forget (hl : l.worker ≠ some w) (hsent : ∀ m ∈ s.inFlight, m.worker ≠ w) :
    step env (s.forget w) l = (step env s l).map fun t => t.forget w := by
  have hne : ∀ {v : WorkerId}, l.worker = some v → v ≠ w := by
    rintro v hv rfl
    exact hl hv
  cases l with
  | advance now =>
    by_cases hle : s.now ≤ now
    · have hforget : step env (s.forget w) (.advance now) = _ := if_pos hle
      have hplain : step env s (.advance now) = _ := if_pos hle
      rw [hforget, hplain]
      rfl
    · have hforget : step env (s.forget w) (.advance now) = none := if_neg hle
      have hplain : step env s (.advance now) = none := if_neg hle
      rw [hforget, hplain]
      rfl
  | create businessId req fresh =>
    simp only [step, forget_db, forget_now]
    split
    · rfl
    · rfl
  | startPay v call => exact startStep_forget (hne rfl) s _
  | startAdmin v call => exact startStep_forget (hne rfl) s _
  | tick v locked ids =>
    by_cases hbatch : Reconciler.isBatch s.db s.now locked ids = true
    · have hforget : step env (s.forget w) (.tick v locked ids) = _ := if_pos hbatch
      have hplain : step env s (.tick v locked ids) = _ := if_pos hbatch
      rw [hforget, hplain]
      exact startStep_forget (hne rfl) (s.setDb _) _
    · have hforget : step env (s.forget w) (.tick v locked ids) = none := if_neg hbatch
      have hplain : step env s (.tick v locked ids) = none := if_neg hbatch
      rw [hforget, hplain]
      rfl
  | work v fresh =>
    simp only [step, workers_forget (hne rfl)]
    cases hW : s.workers v with
    | none => rfl
    | some W =>
      cases W with
      | pay call stage => exact payStep_forget (hne rfl) s call fresh stage
      | admin call stage => exact adminStep_forget (hne rfl) s call stage
      | tick leasedAt jobs call => exact tickStep_forget (hne rfl) s leasedAt fresh jobs call
      | crashed => rfl
  | serve i choice => exact serveStep_forget hsent i choice
  | giveUp v reason =>
    simp only [step, workers_forget (hne rfl)]
    cases s.workers v with
    | none => rfl
    | some W =>
      cases hwaits : W.waitsFor with
      | none => simp [hwaits]
      | some c => simp [hwaits, forget_setWorker (hne rfl)]
  | dbError v =>
    simp only [step, workers_forget (hne rfl)]
    cases (s.workers v).bind Worker.onDbError with
    | none => rfl
    | some W => exact congrArg some (forget_setWorker (hne rfl) s W)
  | crash v =>
    simp only [step, workers_forget (hne rfl)]
    cases s.workers v with
    | none => rfl
    | some W =>
      dsimp only
      split_ifs
      · exact congrArg some (forget_setWorker (hne rfl) s _)
      · rfl

end Forget

/-! ## What is in flight -/

/-- A step of a worker leaves a worker there. -/
theorem exists_worker_own (h : step env s l = some t) (hl : l.worker = some w) :
    ∃ W, t.workers w = some W := by
  cases step_effect h with
  | advance _ => cases hl
  | create _ => cases hl
  | serve _ _ => cases hl
  | lease _ _ =>
    obtain rfl := Option.some.inj hl
    exact ⟨_, if_pos rfl⟩
  | quiet hl' _ =>
    obtain rfl := Option.some.inj (hl.symm.trans hl')
    exact ⟨_, if_pos rfl⟩
  | send _ _ _ =>
    obtain rfl := Option.some.inj hl
    exact ⟨_, if_pos rfl⟩
  | claim _ _ _ _ =>
    obtain rfl := Option.some.inj hl
    exact ⟨_, if_pos rfl⟩
  | replay _ =>
    obtain rfl := Option.some.inj hl
    exact ⟨_, if_pos rfl⟩
  | finalize _ _ _ _ =>
    obtain rfl := Option.some.inj hl
    exact ⟨_, if_pos rfl⟩
  | move _ _ =>
    obtain rfl := Option.some.inj hl
    exact ⟨_, if_pos rfl⟩

/-- A worker stays a worker. -/
theorem exists_worker (h : step env s l = some t) {W : Worker} (hw : s.workers w = some W) :
    ∃ W', t.workers w = some W' := by
  by_cases hl : l.worker = some w
  · exact exists_worker_own h hl
  · rcases (step_effect h).workers_of_ne hl with hsame | ⟨callId, r, hdeliver⟩
    · exact ⟨W, hsame.trans hw⟩
    · exact ⟨W.deliver callId r, by rw [hdeliver, hw, Option.map_some]⟩

/-- Every request in flight was sent by a worker that is clean no more. -/
def SentUnclean (s : State) : Prop :=
  ∀ m ∈ s.inFlight, ∃ W, s.workers m.worker = some W ∧ W.isClean = false

theorem waitsFor_of_clean {W : Worker} (h : W.isClean = true) : W.waitsFor = none := by
  unfold Worker.isClean at h
  split at h
  · rfl
  · rfl
  · rfl
  · rfl
  · rfl
  · rfl
  · rfl
  · exact Bool.noConfusion h

/-- A clean call holds no attempt. -/
theorem holdings_of_clean {W : Worker} (h : W.isClean = true) : W.holdings = [] := by
  unfold Worker.isClean at h
  split at h
  · rfl
  · rfl
  · rfl
  · rfl
  · rfl
  · rfl
  · rfl
  · exact Bool.noConfusion h

theorem sentUnclean_step (hs : SentUnclean s) (h : step env s l = some t) : SentUnclean t := by
  intro m hm
  rcases (step_effect h).inFlight hm with hold | ⟨W, W', rest, since, holder, -, hheld, -, rfl, heq⟩
  · obtain ⟨W, hW, hunclean⟩ := hs m hold
    obtain ⟨W', hW'⟩ := exists_worker h hW
    refine ⟨W', hW', ?_⟩
    -- no step makes a worker clean again
    by_contra hclean
    rw [Bool.not_eq_false] at hclean
    by_cases hl : l.worker = some m.worker
    · rw [(step_of_clean h hl hW' hclean).1 W hW] at hunclean
      exact Bool.noConfusion hunclean
    · have hsame := worker_of_clean h hl hW' hclean
      rw [Option.some.inj (hW.symm.trans hsame), hclean] at hunclean
      exact Bool.noConfusion hunclean
  · refine ⟨W', if_pos rfl, ?_⟩
    by_contra hclean
    rw [Bool.not_eq_false] at hclean
    rw [← heq, holdings_of_clean hclean] at hheld
    exact List.cons_ne_nil _ _ hheld.symm

end Payments

end InvoicePayment
