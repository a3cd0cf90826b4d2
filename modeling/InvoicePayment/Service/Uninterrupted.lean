import InvoicePayment.Service.History
import InvoicePayment.Service.Operations

/-!
# Operations without interruption are runs

`Op.perform` runs an operation from its first read to its last commit with nothing in between. It
is a run of the service all the same: `perform_leads` names the steps, so that what holds of every
reachable state holds after every sequence of such operations.
-/

namespace InvoicePayment

open Service (commit)

/-! ## The handlers of the payment system -/

namespace Payments

variable {δ : Type} {s t : State} {w : WorkerId}

/-- `t` is `s` with another database, after a worker has come and gone. -/
structure Served (s t : State) (w : WorkerId) (W : Worker) (db : Db) : Prop where
  now : t.now = s.now
  db : t.db = db
  inFlight : t.inFlight = []
  worker : t.workers w = some W
  others : ∀ v, v ≠ w → t.workers v = s.workers v

namespace Served

variable {W : Worker} {db : Db}

/-- The worker has taken a step by itself. -/
theorem then_ (h : Served s t w W db) (W' : Worker) : Served s (t.setWorker w W') w W' db :=
  { now := h.now
    db := h.db
    inFlight := h.inFlight
    worker := if_pos rfl
    others := fun v hv => (if_neg hv).trans (h.others v hv) }

/-- The worker has committed. -/
theorem commits (h : Served s t w W db) (db' : Db) (W' : Worker) :
    Served s ((t.setDb db').setWorker w W') w W' db' :=
  { now := h.now
    db := rfl
    inFlight := h.inFlight
    worker := if_pos rfl
    others := fun v hv => (if_neg hv).trans (h.others v hv) }

/-- The worker has gone on from where it was. -/
theorem trans {u : State} {W' : Worker} {db' : Db} (h : Served s t w W db)
    (h' : Served t u w W' db') : Served s u w W' db' :=
  { now := h'.now.trans h.now
    db := h'.db
    inFlight := h'.inFlight
    worker := h'.worker
    others := fun v hv => (h'.others v hv).trans (h.others v hv) }

end Served

theorem work_eq (env : Env δ) {W : Worker} (hw : s.workers w = some W) (fresh : Fresh) :
    (system env).step s (.work w fresh) = workerStep env s w fresh W := by
  show (s.workers w).bind _ = _
  rw [hw]
  rfl

theorem start_eq (hw : s.workers w = none) (W : Worker) :
    startStep s w W = some (s.setWorker w W) := by
  rw [startStep, hw]

/-- A PSP that answers as it is told to. -/
def toldPsp : Psp PspResult := fun st _ _ result => some (result, st)

/-- The environment in which the answers of the PSP are drawn from outside. -/
def toldEnv (sha256 : List UInt8 → List UInt8) : Env PspResult := { sha256, psp := toldPsp }

variable (sha256 : List UInt8 → List UInt8) (fresh fresh' : Fresh) (result : PspResult)

/-- From the committed claim on: the charge, its answer and transaction 2. -/
theorem charge_leads {call : PayCall} {job : Job} {claimedAt : Timestamp}
    (hw : s.workers w = some (.pay call (.charging job claimedAt .ready)))
    (hflight : s.inFlight = []) :
    ∃ t, (system (toldEnv sha256)).Leads s t ∧
      Served s t w
        (.pay call (.done (commit s.db (PaymentService.finalize s.db s.now fresh' job result)).2))
        (commit s.db (PaymentService.finalize s.db s.now fresh' job result)).1 := by
  let waiting := Worker.pay call (.charging job claimedAt (.waiting s.nextCall))
  let got := Worker.pay call (.charging job claimedAt (.got result))
  let s₁ := (s.send w job).setWorker w waiting
  have hsend : (system (toldEnv sha256)).step s (.work w fresh') = some s₁ := by
    rw [work_eq _ hw]
    rfl
  have hmessage : s₁.inFlight = [{ callId := s.nextCall, worker := w, job }] := by
    show s.inFlight ++ _ = _
    rw [hflight]
    rfl
  obtain ⟨s₂, hserve, hs₂⟩ : ∃ s₂, (system (toldEnv sha256)).step s₁ (.serve 0 result) = some s₂ ∧
      Served s s₂ w got s.db := by
    refine ⟨{ s₁ with
      inFlight := s₁.inFlight.eraseIdx 0
      workers := fun v =>
        if v = w then (s₁.workers v).map (Worker.deliver s.nextCall result) else s₁.workers v }, ?_,
      rfl, rfl, ?_, ?_, ?_⟩
    · show serveStep (toldEnv sha256) s₁ 0 result = _
      rw [serveStep, hmessage]
      rfl
    · show s₁.inFlight.eraseIdx 0 = []
      rw [hmessage]
      rfl
    · show (if w = w then (s₁.workers w).map _ else _) = _
      rw [if_pos rfl, show s₁.workers w = some waiting from if_pos rfl]
      show some (Worker.deliver s.nextCall result waiting) = some got
      simp [waiting, got, Worker.deliver]
    · intro v hv
      exact (if_neg hv).trans (if_neg hv)
  have hstep := work_eq (toldEnv sha256) hs₂.worker fresh'
  cases hfinal : PaymentService.finalize s.db s.now fresh' job result with
  | error e =>
    have hlast : (system (toldEnv sha256)).step s₂ (.work w fresh') =
        some (s₂.setWorker w (.pay call (.done (.error e)))) := by
      rw [hstep]
      simp only [got, workerStep, payStep]
      rw [hs₂.db, hs₂.now, hfinal]
    exact ⟨_, .head hsend (.head hserve (.single hlast)), hs₂.then_ _⟩
  | ok p =>
    have hlast : (system (toldEnv sha256)).step s₂ (.work w fresh') =
        some ((s₂.setDb p.1).setWorker w (.pay call (.done (.ok p.2)))) := by
      rw [hstep]
      simp only [got, workerStep, payStep]
      rw [hs₂.db, hs₂.now, hfinal]
    exact ⟨_, .head hsend (.head hserve (.single hlast)), hs₂.commits p.1 _⟩

/-- A pay handler that nothing interrupts. -/
theorem pay_leads (hw : s.workers w = none) (hflight : s.inFlight = []) (call : PayCall) :
    ∃ t, (system (toldEnv sha256)).Leads s t ∧
      Served s t w
        (.pay call (.done (PaymentService.pay sha256 s.db s.now fresh fresh' call.businessId
          call.invoiceId call.idempotencyKey call.req result).2))
        (PaymentService.pay sha256 s.db s.now fresh fresh' call.businessId
          call.invoiceId call.idempotencyKey call.req result).1 := by
  let s₁ := s.setWorker w (.pay call .begun)
  have hstart : (system (toldEnv sha256)).step s (.startPay w call) = some s₁ := start_eq hw _
  have hs₁ : Served s s₁ w (.pay call .begun) s.db :=
    ⟨rfl, rfl, hflight, if_pos rfl, fun _ hv => if_neg hv⟩
  have hread := work_eq (toldEnv sha256) hs₁.worker fresh
  simp only [workerStep, payStep] at hread
  unfold PaymentService.pay
  cases hinvoice : PaymentService.readInvoice s.db call.businessId call.invoiceId call.req with
  | error e =>
    rw [hs₁.db, hinvoice] at hread
    exact ⟨_, .head hstart (.single hread), hs₁.then_ _⟩
  | ok p =>
    obtain ⟨state, amountCents⟩ := p
    rw [hs₁.db, hinvoice] at hread
    have hs₂ := hs₁.then_ (.pay call (.read state amountCents))
    have hclaim := work_eq (toldEnv sha256) hs₂.worker fresh
    simp only [workerStep, payStep] at hclaim
    dsimp only
    rw [hs₂.db] at hclaim
    cases hkey : PaymentService.claim sha256 s.db fresh call.businessId call.invoiceId
        call.idempotencyKey call.req state amountCents with
    | replay =>
      rw [show (toldEnv sha256).sha256 = sha256 from rfl, hkey] at hclaim
      have hs₃ := hs₂.then_ (.pay call (.replaying amountCents))
      have hreplay := work_eq (toldEnv sha256) hs₃.worker fresh
      simp only [workerStep, payStep] at hreplay
      rw [hs₃.db] at hreplay
      exact ⟨_, .head hstart (.head hread (.head hclaim (.single hreplay))), hs₃.then_ _⟩
    | refused e =>
      rw [show (toldEnv sha256).sha256 = sha256 from rfl, hkey] at hclaim
      exact ⟨_, .head hstart (.head hread (.single hclaim)), hs₂.then_ _⟩
    | claimed db₁ job =>
      rw [show (toldEnv sha256).sha256 = sha256 from rfl, hkey] at hclaim
      have hs₃ := hs₂.commits db₁ (.pay call (.charging job s.now .ready))
      obtain ⟨t, hleads, ht⟩ := charge_leads sha256 fresh' result hs₃.worker hs₃.inFlight
      rw [hs₃.db, hs₃.now] at ht
      refine ⟨t, .head hstart (.head hread (.head hclaim hleads)), ?_⟩
      dsimp only
      have hboth := hs₃.trans ht
      cases hfinal : PaymentService.finalize db₁ s.now fresh' job result with
      | error e =>
        rw [hfinal] at hboth
        exact hboth
      | ok p =>
        rw [hfinal] at hboth
        exact hboth

/-- An admin handler that nothing interrupts. -/
theorem transition_leads (env : Env δ) (fresh : Fresh) (hw : s.workers w = none)
    (hflight : s.inFlight = []) (call : AdminCall) :
    ∃ t W, (system env).Leads s t ∧
      Served s t w W
        (commit s.db (InvoiceService.transition s.db s.now call.businessId call.id
          call.action.target)).1 := by
  let s₁ := s.setWorker w (.admin call .begun)
  have hstart : (system env).step s (.startAdmin w call) = some s₁ := start_eq hw _
  have hs₁ : Served s s₁ w (.admin call .begun) s.db :=
    ⟨rfl, rfl, hflight, if_pos rfl, fun _ hv => if_neg hv⟩
  have hload := work_eq env hs₁.worker fresh
  simp only [workerStep, adminStep] at hload
  rw [hs₁.db] at hload
  unfold InvoiceService.transition
  cases hinvoice : InvoiceService.load s.db call.businessId call.id with
  | error e =>
    rw [hinvoice] at hload
    exact ⟨_, _, .head hstart (.single hload), hs₁.then_ _⟩
  | ok i =>
    rw [hinvoice] at hload
    dsimp only at hload
    cases hcheck : InvoiceService.check i.state call.action.target with
    | error e =>
      rw [hcheck] at hload
      simp only [bind, Except.bind, hcheck]
      exact ⟨_, _, .head hstart (.single hload), hs₁.then_ _⟩
    | ok u =>
      rw [hcheck] at hload
      have hs₂ := hs₁.then_ (.admin call (.loaded i.state))
      have happly := work_eq env hs₂.worker fresh
      simp only [workerStep, adminStep] at happly
      rw [hs₂.db, hs₂.now] at happly
      cases hupdate : InvoiceService.apply s.db s.now call.businessId call.id i.state
          call.action.target with
      | error e =>
        rw [hupdate] at happly
        simp only [bind, Except.bind, hcheck, hupdate]
        exact ⟨_, _, .head hstart (.head hload (.single happly)), hs₂.then_ _⟩
      | ok p =>
        rw [hupdate] at happly
        simp only [bind, Except.bind, hcheck, hupdate]
        exact ⟨_, _, .head hstart (.head hload (.single happly)), hs₂.commits p.1 _⟩

end Payments

/-! ## Every operation -/

namespace Service

variable {δ : Type} {env : Env δ} {s t : State} {out : Outside} {b : Uuid} {op : Op} {db' : Db}
  {a : Except AppError Reply}

/-- A run of the payment system is a run of the service. -/
theorem leads_of_payments {p : Payments.State}
    (h : (Payments.system env.toEnv).Leads s.toState p) :
    (system env).Leads s { s with toState := p } := by
  obtain ⟨ls, hls⟩ := h
  induction ls generalizing s with
  | nil =>
    obtain rfl := Option.some.inj hls
    exact .refl s
  | cons l ls ih =>
    rw [TransitionSystem.run_cons] at hls
    obtain ⟨q, hq, hls⟩ := Option.bind_eq_some_iff.mp hls
    have hstep : (system env).step s (.payments l) = some { s with toState := q } :=
      Option.map_eq_some_iff.mpr ⟨q, hq, rfl⟩
    exact .head hstep (ih (s := { s with toState := q }) hls)

/-- No worker and no request is left, and the ids from `n` on are unused. -/
structure Unused (s : State) (n : ℕ) : Prop where
  workers : ∀ w, n ≤ w → s.workers w = none
  answers : ∀ c, n ≤ c → s.answers c = none
  inFlight : s.inFlight = []

/-- The service as the operations see it, the answers of the PSP drawn from outside. -/
def Outside.told (out : Outside) (maxAttempts : Int) : Env PspResult :=
  { Payments.toldEnv out.sha256 with lower := out.lower, maxAttempts }

/-- A request served by one transaction. -/
theorem call_leads {n : ℕ} (hn : Unused s n) (env : Env δ) (req : Call) :
    ∃ t, (system env).Leads s t ∧ t.db = (commit s.db (req.perform env s.db s.now)).1 ∧
      t.now = s.now ∧ Unused t (n + 1) := by
  have hfree := hn.answers n le_rfl
  have hanswers : ∀ (s' : State) (r : Except AppError Answer), s'.answers = s.answers →
      ∀ c, n + 1 ≤ c → (s'.setAnswer n r).answers c = none := by
    intro s' r hs' c hc
    show (if c = n then some r else s'.answers c) = none
    rw [if_neg (by omega), hs']
    exact hn.answers c (by omega)
  have hworkers : ∀ w, n + 1 ≤ w → s.workers w = none := fun w hw => hn.workers w (by omega)
  cases hperform : req.perform env s.db s.now with
  | error e =>
    have hstep : (system env).step s (.call n req) = some (s.setAnswer n (.error e)) := by
      show callStep env s n req = _
      rw [callStep, hfree, hperform]
    exact ⟨_, .single hstep, rfl, rfl, hworkers, hanswers s _ rfl, hn.inFlight⟩
  | ok p =>
    have hstep : (system env).step s (.call n req) =
        some ((s.withDb p.1).setAnswer n (.ok p.2)) := by
      show callStep env s n req = _
      rw [callStep, hfree, hperform]
    exact ⟨_, .single hstep, rfl, rfl, hworkers, hanswers (s.withDb p.1) _ rfl, hn.inFlight⟩

theorem commit_map {α β : Type} (db : Db) (r : Except AppError (Db × α)) (f : α → β) :
    (commit db (r.map fun p => (p.1, f p.2))).1 = (commit db r).1 := by
  cases r <;> rfl

theorem afterWrite_eq (db : Db) (r : Except AppError Db) (x : Answer) :
    (afterWrite db r).1 = (commit db (r.map fun db' => (db', x))).1 := by
  cases r <;> rfl

/-- A worker that has come and gone leaves the next ids unused. -/
theorem Unused.served {n : ℕ} {p : Payments.State} {W : Payments.Worker} {db : Db}
    (hn : Unused s n) (h : Payments.Served s.toState p n W db) :
    Unused { s with toState := p } (n + 1) :=
  { workers := fun w hw => (h.others w (Nat.ne_of_gt hw)).trans (hn.workers w (by omega))
    answers := fun c hc => hn.answers c (by omega)
    inFlight := h.inFlight }

/-- An operation that nothing interrupts is a run of the service. -/
theorem perform_leads (maxAttempts : Int) {n : ℕ} (hn : Unused s n)
    (h : op.perform out s.now b s.db = some (db', a)) :
    ∃ t, (system (out.told maxAttempts)).Leads s t ∧ t.db = db' ∧ t.now = s.now ∧
      Unused t (n + 1) := by
  have hnext : Unused s (n + 1) :=
    ⟨fun w hw => hn.workers w (by omega), fun c hc => hn.answers c (by omega), hn.inFlight⟩
  have hcall : ∀ req : Call, (commit s.db (req.perform (out.told maxAttempts) s.db s.now)).1 = db' →
      ∃ t, (system (out.told maxAttempts)).Leads s t ∧ t.db = db' ∧ t.now = s.now ∧
        Unused t (n + 1) := by
    rintro req rfl
    exact call_leads hn _ req
  have hquery : db' = s.db → ∃ t, (system (out.told maxAttempts)).Leads s t ∧ t.db = db' ∧
      t.now = s.now ∧ Unused t (n + 1) := by
    rintro rfl
    exact ⟨s, .refl s, rfl, rfl, hnext⟩
  have hfree := hn.workers n le_rfl
  cases op with
  | createCustomer id req =>
    refine hcall (.createCustomer b id req) ?_
    rw [← (Prod.mk.inj (Option.some.inj h)).1]
    exact commit_map _ _ _
  | createInvoice req fresh =>
    refine hcall (.createInvoice b req fresh) ?_
    rw [← (Prod.mk.inj (Option.some.inj h)).1]
    exact commit_map _ _ _
  | registerEndpoint id secret req =>
    refine hcall (.registerEndpoint b id secret req) ?_
    rw [← (Prod.mk.inj (Option.some.inj h)).1]
    exact commit_map _ _ _
  | createKey id random req =>
    refine hcall (.createKey b id random req) ?_
    rw [← (Prod.mk.inj (Option.some.inj h)).1]
    exact commit_map _ _ _
  | redeliver deliveryId =>
    refine hcall (.redeliver b deliveryId) ?_
    rw [← (Prod.mk.inj (Option.some.inj h)).1]
    exact (afterWrite_eq _ _ _).symm
  | revokeKey id =>
    refine hcall (.revokeKey b id) ?_
    rw [← (Prod.mk.inj (Option.some.inj h)).1]
    exact (afterWrite_eq _ _ _).symm
  | transition id action =>
    obtain ⟨p, W, hleads, hp⟩ := Payments.transition_leads (out.told maxAttempts).toEnv
      { newId := fun _ => Uuid.nil, sequence := 0 } hfree hn.inFlight ⟨b, id, action⟩
    refine ⟨_, leads_of_payments hleads, ?_, hp.now, hn.served hp⟩
    rw [← (Prod.mk.inj (Option.some.inj h)).1]
    exact hp.db
  | pay invoiceId key req result fresh fresh' =>
    obtain ⟨p, hleads, hp⟩ := Payments.pay_leads out.sha256 fresh fresh' result hfree hn.inFlight
      ⟨b, invoiceId, key, req⟩
    refine ⟨_, leads_of_payments hleads, ?_, hp.now, hn.served hp⟩
    rw [← (Prod.mk.inj (Option.some.inj h)).1]
    exact hp.db
  | listDeliveries status scan =>
    obtain ⟨r, -, hr⟩ := Option.map_eq_some_iff.mp h
    exact hquery (Prod.mk.inj hr).1.symm
  | listKeys scan =>
    obtain ⟨items, -, hr⟩ := Option.map_eq_some_iff.mp h
    exact hquery (Prod.mk.inj hr).1.symm
  | _ => exact hquery (Prod.mk.inj (Option.some.inj h)).1.symm

end Service

end InvoicePayment
