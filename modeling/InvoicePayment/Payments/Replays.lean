import InvoicePayment.Payments.Definite

/-!
# Replays

What a pay call does that comes in after its key has been claimed. Such a call is `Late`: it
reads, finds the key taken and answers from the key, so its own steps change nothing but itself
(`late_own`). What it answers is decided by the fingerprint of the key row, which names the
invoice, the token and the amount, and by whether the attempt is settled
(`replays_transparent`).
-/

namespace InvoicePayment.Payments

open PaymentService (answer idempotencyKeyReuse)

variable {δ : Type} {env : Env δ} {s s' : State} {l : Label δ} {job : Job} {call : PayCall}

/-! ## The calls of a key -/

/-- The call comes in under the key the attempt was made with. -/
structure PayCall.IsUnder (call : PayCall) (job : Job) : Prop where
  businessId : call.businessId = job.businessId
  idempotencyKey : call.idempotencyKey = job.idempotencyKey

/-- The call asks for what the attempt was made for. -/
def PayCall.Repeats (call : PayCall) (job : Job) : Prop :=
  call.invoiceId = job.invoiceId ∧ call.req.cardToken = job.cardToken

/-- The call has a token and its invoice is there. -/
def PayCall.IsValid (call : PayCall) (s : State) : Prop :=
  isBlank call.req.cardToken = false ∧
    ∃ i ∈ s.db.invoices, i.id = call.invoiceId ∧ i.businessId = call.businessId

/-- The handler `w` has answered the call with `200` or `402`. -/
def FinalAnswer (s : State) (w : WorkerId) (call : PayCall) (o : PayOutcome) : Prop :=
  (∃ W, s.workers w = some W ∧ W.outcome = some (call, o)) ∧
    (o.1 = .ok ∨ o.1 = .paymentRequired)

/-- The attempt is settled. -/
def IsSettled (s : State) (job : Job) : Prop :=
  ∃ a ∈ s.db.paymentAttempts, Job.ofAttempt a = job ∧ a.status ≠ .pending

theorem answered_of_finalAnswer (hd : Settled s) {w : WorkerId} {o : PayOutcome}
    (h : FinalAnswer s w call o) : Answered s call o := by
  obtain ⟨⟨W, hw, ho⟩, hstatus⟩ := h
  refine hd.answers w W call o hw ho ?_
  rcases hstatus with hok | hrequired
  · rw [hok]
    decide
  · rw [hrequired]
    decide

/-- All calls of one key that have answered `200` or `402` have answered the same. -/
theorem finalAnswer_eq (hs : Sound env s) (hd : Settled s) {w v : WorkerId} {call' : PayCall}
    {o o' : PayOutcome} (h : FinalAnswer s w call o) (h' : FinalAnswer s v call' o')
    (hb : call.businessId = call'.businessId)
    (hkey : call.idempotencyKey = call'.idempotencyKey) : o = o' := by
  obtain ⟨a, ha, hab, hak, outcome, hseen, -, ho⟩ := answered_of_finalAnswer hd h
  obtain ⟨b, hb', hbb, hbk, outcome', hseen', -, ho'⟩ := answered_of_finalAnswer hd h'
  have hjob : Job.ofAttempt a = Job.ofAttempt b :=
    hs.ledger.job_eq_of_key (mem_jobs ha) (mem_jobs hb') ((hab.trans hb).trans hbb.symm)
      ((hak.trans hkey).trans hbk.symm)
  have hsame : outcome = outcome' := by
    rw [show a.idempotencyKey = b.idempotencyKey from congrArg Job.idempotencyKey hjob,
      hseen'] at hseen
    exact (Option.some.inj hseen).symm
  rw [ho, ho', hjob, hsame]

theorem isSettled_of_finalAnswer (hs : Sound env s) (hd : Settled s) (hjob : job ∈ s.db.jobs)
    (hunder : call.IsUnder job) {w : WorkerId} {o : PayOutcome} (h : FinalAnswer s w call o) :
    IsSettled s job := by
  obtain ⟨a, ha, hab, hak, outcome, -, hcarries, -⟩ := answered_of_finalAnswer hd h
  refine ⟨a, ha, ?_, hcarries.ne_pending⟩
  exact hs.ledger.job_eq_of_key (mem_jobs ha) hjob (hab.trans hunder.businessId)
    (hak.trans hunder.idempotencyKey)

theorem IsSettled.mono (he : Effect env s l s') (h : IsSettled s job) : IsSettled s' job := by
  obtain ⟨a, ha, rfl, hst⟩ := h
  obtain ⟨a', ha', hjob, hst', -, -⟩ := he.settled_mono ha hst
  exact ⟨a', ha', hjob, by rw [hst']; exact hst⟩

theorem PayCall.IsValid.mono (hs : Sound env s) (he : Effect env s l s')
    (h : call.IsValid s) : call.IsValid s' := by
  obtain ⟨htoken, i, hi, hid, hb⟩ := h
  obtain ⟨i', hi', hid', hb', -⟩ := he.invoice_mono hs hi
  exact ⟨htoken, i', hi', hid'.trans hid, hb'.trans hb⟩

/-! ## The key row -/

/-- The row a call finds under its key is the one claimed for the attempt. -/
theorem exists_find_key (hs : Sound env s) (hjob : job ∈ s.db.jobs) (hunder : call.IsUnder job) :
    ∃ k, s.db.idempotencyKeys.find?
        (PaymentService.isKey call.businessId call.idempotencyKey) = some k ∧
      k ∈ s.db.idempotencyKeys ∧
      PaymentService.isKey call.businessId call.idempotencyKey k = true ∧
      (KeyLink.ofKey k).Claims env.sha256 job := by
  obtain ⟨link, hlink, hclaims⟩ := hs.ledger.jobKey job hjob
  obtain ⟨k₀, hk₀, rfl⟩ := List.mem_map.mp hlink
  have hkey₀ : PaymentService.isKey call.businessId call.idempotencyKey k₀ = true := by
    simp only [PaymentService.isKey, Bool.and_eq_true, decide_eq_true_eq]
    exact ⟨hclaims.businessId.trans hunder.businessId.symm,
      hclaims.idempotencyKey.trans hunder.idempotencyKey.symm⟩
  obtain ⟨k, hfind⟩ := Option.isSome_iff_exists.mp
    (List.find?_isSome.mpr ⟨k₀, hk₀, hkey₀⟩)
  have hk := List.mem_of_find?_eq_some hfind
  have hkey := List.find?_some hfind
  refine ⟨k, hfind, hk, hkey, ?_⟩
  have hpair : (KeyLink.ofKey k).pair = (KeyLink.ofKey k₀).pair := by
    simp only [PaymentService.isKey, Bool.and_eq_true, decide_eq_true_eq] at hkey hkey₀
    exact Prod.ext (hkey.1.trans hkey₀.1.symm) (hkey.2.trans hkey₀.2.symm)
  rw [hs.ledger.link_eq (List.mem_map_of_mem hk) hlink hpair]
  exact hclaims

/-- A call for something else is refused. -/
theorem replay_eq_reuse (hsha : Function.Injective env.sha256) (hs : Sound env s)
    (hjob : job ∈ s.db.jobs) (hunder : call.IsUnder job) (hother : ¬ call.Repeats job)
    (amount : Int64) :
    PaymentService.replay s.db call.businessId call.idempotencyKey
        (PaymentService.fingerprint env.sha256 call.invoiceId call.req.cardToken amount)
        call.invoiceId = .error idempotencyKeyReuse := by
  obtain ⟨k, hfind, -, -, hclaims⟩ := exists_find_key hs hjob hunder
  have hne : k.requestFingerprint ≠
      PaymentService.fingerprint env.sha256 call.invoiceId call.req.cardToken amount := by
    intro heq
    have hfp := hclaims.requestFingerprint.symm.trans heq
    obtain ⟨hinv, htoken, -⟩ := PaymentService.fingerprint_injective hsha hfp
    exact hother ⟨hinv.symm, htoken.symm⟩
  simp only [PaymentService.replay, hfind, PaymentService.replayRow]
  exact if_pos hne

/-- A call for the same is answered: the total of the invoice is still what it was. -/
theorem exists_replay (hs : Sound env s) (hd : Settled s) (hjob : job ∈ s.db.jobs)
    (hunder : call.IsUnder job) (hsame : call.Repeats job) {amount : Int64}
    (hbill : ∃ b ∈ s.db.bills, b.Of call.invoiceId call.businessId amount) :
    ∃ o, PaymentService.replay s.db call.businessId call.idempotencyKey
        (PaymentService.fingerprint env.sha256 call.invoiceId call.req.cardToken amount)
        call.invoiceId = .ok o := by
  obtain ⟨k, hfind, hk, -, hclaims⟩ := exists_find_key hs hjob hunder
  have hamount : amount = job.amountCents := by
    obtain ⟨b, hb, hof⟩ := hbill
    obtain ⟨c, hc, hof'⟩ := hs.ledger.billed job hjob
    have hbc := hs.ledger.bill_eq hb hc ((hof.id.trans hsame.1).trans hof'.id.symm)
    rw [← hof.totalCents, hbc, hof'.totalCents]
  have hfp : k.requestFingerprint =
      PaymentService.fingerprint env.sha256 call.invoiceId call.req.cardToken amount := by
    rw [hsame.1, hsame.2, hamount]
    exact hclaims.requestFingerprint
  obtain ⟨a, ha, hid, -⟩ := hs.exists_attempt hk
  simp only [PaymentService.replay, hfind, PaymentService.replayRow]
  rw [if_neg (not_not.mpr hfp)]
  cases hd.records a ha k hk hid with
  | pending _ _ _ hprogress _ _ =>
    rw [hprogress]
    exact ⟨_, rfl⟩
  | settled outcome _ _ hcompleted hresponse hbody =>
    simp only [hcompleted, hresponse, hbody, Option.bind_some,
      PaymentAttemptResponse.fromJson_toJson]
    exact ⟨_, rfl⟩

/-- Once the attempt is settled no replay answers `202`. -/
theorem ne_accepted_of_replay (hs : Sound env s) (hd : Settled s) (hjob : job ∈ s.db.jobs)
    (hunder : call.IsUnder job) (hsettled : IsSettled s job) {fp : List UInt8} {o : PayOutcome}
    (h : PaymentService.replay s.db call.businessId call.idempotencyKey fp call.invoiceId
      = .ok o) : o.1 ≠ .accepted := by
  obtain ⟨a, ha, hab, hak, hcases⟩ := replay_eq_ok hs hd h
  obtain ⟨b, hb, rfl, hst⟩ := hsettled
  have hsame : Job.ofAttempt a = Job.ofAttempt b :=
    hs.ledger.job_eq_of_key (mem_jobs ha) hjob (hab.trans hunder.businessId)
      (hak.trans hunder.idempotencyKey)
  obtain rfl : a = b := hs.attempt_eq ha hb (congrArg Job.attemptId hsame)
  rcases hcases with ⟨hpending, -⟩ | ⟨outcome, -, -, rfl⟩
  · exact absurd hpending hst
  · cases outcome with
    | succeeded pspRef =>
      show StatusCode.ok ≠ StatusCode.accepted
      decide
    | failed code =>
      show StatusCode.paymentRequired ≠ StatusCode.accepted
      decide

/-! ## A late call -/

/-- How far a call whose key is taken can come; `ok` says what it may answer. -/
inductive Late (call : PayCall) (ok : Except AppError PayOutcome → Prop) : Worker → Prop
  | begun : Late call ok (.pay call .begun)
  | read (state : InvoiceState) (amount : Int64) : Late call ok (.pay call (.read state amount))
  | replaying (amount : Int64) : Late call ok (.pay call (.replaying amount))
  | done (a : Except AppError PayOutcome) (h : ok a) : Late call ok (.pay call (.done a))
  | crashed : Late call ok .crashed

variable {ok : Except AppError PayOutcome → Prop}

theorem Late.waitsFor {W : Worker} (h : Late call ok W) : W.waitsFor = none := by
  cases h <;> rfl

/-- The own step of a late call changes the call alone: it never claims. -/
theorem late_work (hs : Sound env s) (hjob : job ∈ s.db.jobs) (hunder : call.IsUnder job)
    {w : WorkerId} {W : Worker} (hw : s.workers w = some W) (hlate : Late call ok W)
    {fresh : Fresh} (h : workerStep env s w fresh W = some s')
    (hread : ∀ e, PaymentService.readInvoice s.db call.businessId call.invoiceId call.req
      = .error e → ok (.error e))
    (hreplay : ∀ amount, (∃ b ∈ s.db.bills, b.Of call.invoiceId call.businessId amount) →
      ok (PaymentService.replay s.db call.businessId call.idempotencyKey
        (PaymentService.fingerprint env.sha256 call.invoiceId call.req.cardToken amount)
        call.invoiceId)) :
    ∃ W', s' = s.setWorker w W' ∧ Late call ok W' := by
  cases hlate with
  | begun =>
    simp only [workerStep, payStep] at h
    split at h
    · rename_i e he
      exact ⟨_, (Option.some.inj h).symm, .done _ (hread e he)⟩
    · exact ⟨_, (Option.some.inj h).symm, .read _ _⟩
  | read state amount =>
    obtain ⟨k, -, hk, hkey, -⟩ := exists_find_key hs hjob hunder
    have htext : isPgText call.idempotencyKey = true := by
      have hpair := hkey
      simp only [PaymentService.isKey, Bool.and_eq_true, decide_eq_true_eq] at hpair
      rw [← hpair.2]
      exact hs.ledger.keyText _ (List.mem_map_of_mem hk)
    simp only [workerStep, payStep, PaymentService.claim_eq_replay hk hkey htext] at h
    exact ⟨_, (Option.some.inj h).symm, .replaying _⟩
  | replaying amount =>
    simp only [workerStep, payStep] at h
    exact ⟨_, (Option.some.inj h).symm,
      .done _ (hreplay amount (hs.replaying w _ call amount hw rfl))⟩
  | done a _ => cases h
  | crashed => cases h

/-- So does everything else that happens to it. -/
theorem late_own (hs : Sound env s) (hjob : job ∈ s.db.jobs) (hunder : call.IsUnder job)
    {w : WorkerId} {W : Worker} (hw : s.workers w = some W) (hlate : Late call ok W)
    (h : step env s l = some s') (hl : l.worker = some w)
    (hread : ∀ e, PaymentService.readInvoice s.db call.businessId call.invoiceId call.req
      = .error e → ok (.error e))
    (hreplay : ∀ amount, (∃ b ∈ s.db.bills, b.Of call.invoiceId call.businessId amount) →
      ok (PaymentService.replay s.db call.businessId call.idempotencyKey
        (PaymentService.fingerprint env.sha256 call.invoiceId call.req.cardToken amount)
        call.invoiceId))
    (hdb : l = .dbError w → ok (.error .internal)) :
    ∃ W', s' = s.setWorker w W' ∧ Late call ok W' := by
  cases l with
  | advance _ => cases hl
  | create _ _ _ => cases hl
  | serve _ _ => cases hl
  | startPay v c =>
    obtain rfl := Option.some.inj hl
    simp only [step, startStep, hw] at h
    cases h
  | startAdmin v c =>
    obtain rfl := Option.some.inj hl
    simp only [step, startStep, hw] at h
    cases h
  | tick v locked ids =>
    obtain rfl := Option.some.inj hl
    simp only [step, startStep, State.setDb, hw] at h
    split_ifs at h
  | work v fresh =>
    obtain rfl := Option.some.inj hl
    simp only [step, hw, Option.bind_some] at h
    exact late_work hs hjob hunder hw hlate h hread hreplay
  | giveUp v reason =>
    obtain rfl := Option.some.inj hl
    simp only [step, hw, hlate.waitsFor, Option.map_none] at h
    cases h
  | dbError v =>
    obtain rfl := Option.some.inj hl
    simp only [step, hw, Option.bind_some] at h
    obtain ⟨W', hW', rfl⟩ := Option.map_eq_some_iff.mp h
    refine ⟨W', rfl, ?_⟩
    cases hlate with
    | begun => exact Option.some.inj hW' ▸ .done _ (hdb rfl)
    | read _ _ => exact Option.some.inj hW' ▸ .done _ (hdb rfl)
    | replaying _ => exact Option.some.inj hW' ▸ .done _ (hdb rfl)
    | done _ _ => cases hW'
    | crashed => cases hW'
  | crash v =>
    obtain rfl := Option.some.inj hl
    simp only [step, hw] at h
    split_ifs at h
    exact ⟨_, (Option.some.inj h).symm, .crashed⟩

/-! ## Every run -/

/-- What a call that starts in `s` may answer, for a key claimed for `job`; `failed` says that
one of its queries has failed. -/
structure Fit (s : State) (job : Job) (call : PayCall) (failed : Prop)
    (a : Except AppError PayOutcome) : Prop where
  repeated : call.IsValid s → call.Repeats job →
    (∃ o, a = .ok o) ∨ (failed ∧ a = .error .internal)
  other : call.IsValid s → ¬ call.Repeats job →
    a = .error idempotencyKeyReuse ∨ (failed ∧ a = .error .internal)
  final : IsSettled s job → ∀ o, a = .ok o → o.1 ≠ .accepted

/-- What a run keeps from the start of the call in `s` on. -/
structure Trails (s : State) (job : Job) (w : WorkerId) (call : PayCall) (failed : Prop)
    (t : State) : Prop where
  claimed : job ∈ t.db.jobs
  valid : call.IsValid s → call.IsValid t
  settled : IsSettled s job → IsSettled t job
  late : ∃ W, t.workers w = some W ∧ Late call (Fit s job call failed) W

theorem readInvoice_ne_error (hvalid : call.IsValid s) (e : AppError) :
    PaymentService.readInvoice s.db call.businessId call.invoiceId call.req ≠ .error e := by
  obtain ⟨htoken, i, hi, hid, hb⟩ := hvalid
  have hsome : (s.db.invoices.find? fun i =>
      i.id = call.invoiceId && i.businessId = call.businessId).isSome = true := by
    refine List.find?_isSome.mpr ⟨i, hi, ?_⟩
    simp only [hid, hb, decide_true, Bool.and_self]
  obtain ⟨j, hj⟩ := Option.isSome_iff_exists.mp hsome
  unfold PaymentService.readInvoice
  rw [htoken, hj]
  intro herror
  cases herror

/-- The own steps of the call. -/
theorem trails_own {start : State} {w : WorkerId} {failed : Prop}
    (hsha : Function.Injective env.sha256) (hs : Sound env s) (hd : Settled s)
    (hunder : call.IsUnder job) (ht : Trails start job w call failed s)
    (h : step env s l = some s') (hl : l.worker = some w) (hdb : l = .dbError w → failed) :
    ∃ W', s' = s.setWorker w W' ∧ Late call (Fit start job call failed) W' := by
  obtain ⟨W, hw, hlate⟩ := ht.late
  have herror : ∀ e o, (.error e : Except AppError PayOutcome) = .ok o → o.1 ≠ .accepted := by
    intro e o ho
    cases ho
  refine late_own hs ht.claimed hunder hw hlate h hl ?_ ?_ ?_
  · intro e he
    have hinvalid : ¬ call.IsValid start := fun hv => readInvoice_ne_error (ht.valid hv) e he
    exact ⟨fun hv => absurd hv hinvalid, fun hv => absurd hv hinvalid, fun _ => herror e⟩
  · intro amount hbill
    constructor
    · intro _ hsame
      exact .inl (exists_replay hs hd ht.claimed hunder hsame hbill)
    · intro _ hother
      exact .inl (replay_eq_reuse hsha hs ht.claimed hunder hother amount)
    · intro hst o ho
      exact ne_accepted_of_replay hs hd ht.claimed hunder (ht.settled hst) ho
  · intro hl
    have hf := hdb hl
    exact ⟨fun _ _ => .inr ⟨hf, rfl⟩, fun _ _ => .inr ⟨hf, rfl⟩, fun _ => herror _⟩

theorem trails_step {start : State} {w : WorkerId} {failed : Prop}
    (hsha : Function.Injective env.sha256) (hs : Sound env s) (hd : Settled s)
    (hunder : call.IsUnder job) (ht : Trails start job w call failed s)
    (h : step env s l = some s') (hdb : l = .dbError w → failed) :
    Trails start job w call failed s' := by
  have he := step_effect h
  refine ⟨he.jobs_mono ht.claimed, fun hv => (ht.valid hv).mono hs he,
    fun hst => (ht.settled hst).mono he, ?_⟩
  by_cases hl : l.worker = some w
  · obtain ⟨W', rfl, hlate⟩ := trails_own hsha hs hd hunder ht h hl hdb
    exact ⟨W', if_pos rfl, hlate⟩
  · obtain ⟨W, hw, hlate⟩ := ht.late
    exact ⟨W, he.worker_kept hl hw hlate.waitsFor, hlate⟩

/-- The call has started. -/
theorem trails_start {w : WorkerId} {failed : Prop} (hjob : job ∈ s.db.jobs) :
    Trails s job w call failed (s.setWorker w (.pay call .begun)) :=
  ⟨hjob, id, id, ⟨_, if_pos rfl, .begun⟩⟩

/-- From the start of the call on a run keeps `Trails`. -/
theorem trails_of_mem_states {sha256 : List UInt8 → List UInt8}
    (hsha : Function.Injective sha256) {w : WorkerId} {ls : List (Label DefiniteChoice)}
    (hreach : (definiteSystem sha256).Reachable (s.setWorker w (.pay call .begun)))
    (hjob : job ∈ s.db.jobs) (hunder : call.IsUnder job) :
    ∀ t ∈ (definiteSystem sha256).states (s.setWorker w (.pay call .begun)) ls,
      Trails s job w call (Label.dbError w ∈ ls) t := by
  refine TransitionSystem.forall_states_of_steps
    (C := fun x => x.label = .dbError w → Label.dbError w ∈ ls) ?_ hreach (trails_start hjob) ?_
  · intro x hx ht hstep hdb
    exact trails_step hsha (sound_of_reachable hx)
      (settled_of_reachable definitePsp_isDefinite hx) hunder ht hstep hdb
  · intro x hx hl
    rw [← hl]
    exact TransitionSystem.label_mem_of_mem_steps hx

/-- What the call has answered fits. -/
theorem Trails.fit {start : State} {w : WorkerId} {failed : Prop}
    (ht : Trails start job w call failed s) {a : Except AppError PayOutcome}
    (ha : s.workers w = some (.pay call (.done a))) : Fit start job call failed a := by
  obtain ⟨W, hW, hlate⟩ := ht.late
  rw [ha] at hW
  obtain rfl := Option.some.inj hW
  cases hlate with
  | done _ hfit => exact hfit

/-- What a call that comes in under the key of `job` does along a run, and what the calls of one
key answer. -/
structure Transparent (sha256 : List UInt8 → List UInt8) (s : State) (job : Job) (call : PayCall)
    (w : WorkerId) (ls : List (Label DefiniteChoice)) : Prop where
  /-- No own step of the call touches a row, a request to the PSP or the PSP. -/
  frame : ∀ x ∈ (definiteSystem sha256).steps s (.startPay w call :: ls),
    x.label.worker = some w →
    x.post.db = x.pre.db ∧ x.post.psp = x.pre.psp ∧ x.post.inFlight = x.pre.inFlight
  /-- Calls of one key answer `200` or `402` with one status and one body. -/
  same : ∀ t ∈ (definiteSystem sha256).states s (.startPay w call :: ls),
    ∀ v v' call₁ call₂ o₁ o₂, FinalAnswer t v call₁ o₁ → FinalAnswer t v' call₂ o₂ →
    call₁.businessId = call₂.businessId → call₁.idempotencyKey = call₂.idempotencyKey → o₁ = o₂
  /-- The same request again is answered from the key. -/
  repeated : call.IsValid s → call.Repeats job →
    ∀ t ∈ (definiteSystem sha256).states s (.startPay w call :: ls), ∀ a,
    t.workers w = some (.pay call (.done a)) →
    (∃ o, a = .ok o) ∨ (Label.dbError w ∈ ls ∧ a = .error .internal)
  /-- After a `200` or `402` under the key no `202`. -/
  final : (∃ v call₀ o₀, call₀.IsUnder job ∧ FinalAnswer s v call₀ o₀) →
    ∀ t ∈ (definiteSystem sha256).states s (.startPay w call :: ls), ∀ o,
    t.workers w = some (.pay call (.done (.ok o))) → o.1 ≠ .accepted
  /-- Another request is refused. -/
  other : call.IsValid s → ¬ call.Repeats job →
    ∀ t ∈ (definiteSystem sha256).states s (.startPay w call :: ls), ∀ a,
    t.workers w = some (.pay call (.done a)) →
    a = .error idempotencyKeyReuse ∨ (Label.dbError w ∈ ls ∧ a = .error .internal)

/-- Replays are transparent: once transaction 1 has claimed a key, the calls that come in under
it change nothing, agree with the first one, and refuse another request. -/
theorem replays_transparent {sha256 : List UInt8 → List UInt8} (hsha : Function.Injective sha256)
    {s : State} (h : (definiteSystem sha256).Reachable s) {job : Job} (hjob : job ∈ s.db.jobs)
    {call : PayCall} (hunder : call.IsUnder job) {w : WorkerId} (hw : s.workers w = none)
    (ls : List (Label DefiniteChoice)) : Transparent sha256 s job call w ls := by
  have hstart : (definiteSystem sha256).step s (.startPay w call)
      = some (s.setWorker w (.pay call .begun)) := by
    show startStep s w _ = _
    rw [startStep, hw]
  have hreach := h.step hstart
  have htrails : ∀ t ∈ (definiteSystem sha256).states (s.setWorker w (.pay call .begun)) ls,
      Trails s job w call (Label.dbError w ∈ ls) t :=
    trails_of_mem_states hsha hreach hjob hunder
  -- an answer of the call fits in every state
  have hfit : ∀ t ∈ (definiteSystem sha256).states s (.startPay w call :: ls), ∀ a,
      t.workers w = some (.pay call (.done a)) → Fit s job call (Label.dbError w ∈ ls) a := by
    intro t ht a ha
    rcases TransitionSystem.mem_states_cons.mp ht with rfl | ⟨u, hu, ht⟩
    · rw [hw] at ha
      cases ha
    · obtain rfl := Option.some.inj (hstart.symm.trans hu)
      exact (htrails t ht).fit ha
  constructor
  · intro x hx hl
    obtain ⟨u, hu, rfl | hx⟩ := TransitionSystem.mem_steps_cons.mp hx
    · obtain rfl := Option.some.inj (hstart.symm.trans hu)
      exact ⟨rfl, rfl, rfl⟩
    · obtain rfl := Option.some.inj (hstart.symm.trans hu)
      obtain ⟨hstep, hpre⟩ := TransitionSystem.step_of_mem_steps hx
      have hx' := TransitionSystem.reachable_of_mem_states hreach hpre
      have hdb : x.label = .dbError w → Label.dbError w ∈ ls := by
        intro hdb
        rw [← hdb]
        exact TransitionSystem.label_mem_of_mem_steps hx
      obtain ⟨W', hpost, -⟩ := trails_own hsha (sound_of_reachable hx')
        (settled_of_reachable definitePsp_isDefinite hx') hunder (htrails _ hpre) hstep hl hdb
      rw [hpost]
      exact ⟨rfl, rfl, rfl⟩
  · intro t ht v v' call₁ call₂ o₁ o₂ h₁ h₂ hb hkey
    have hrt := TransitionSystem.reachable_of_mem_states h ht
    exact finalAnswer_eq (sound_of_reachable hrt)
      (settled_of_reachable definitePsp_isDefinite hrt) h₁ h₂ hb hkey
  · intro hvalid hsame t ht a ha
    exact (hfit t ht a ha).repeated hvalid hsame
  · rintro ⟨v, call₀, o₀, hunder₀, hfinal⟩ t ht o ho
    have hsettled : IsSettled s job := isSettled_of_finalAnswer (sound_of_reachable h)
      (settled_of_reachable definitePsp_isDefinite h) hjob hunder₀ hfinal
    exact (hfit t ht _ ho).final hsettled o rfl
  · intro hvalid hother t ht a ha
    exact (hfit t ht a ha).other hvalid hother

/-! ## A key used again -/

theorem shopSha256_injective : Function.Injective shopSha256 := by
  have hlength : ∀ p ∈ shopDigests, p.2.length = 32 := by decide +kernel
  have hdistinct : ∀ p ∈ shopDigests, ∀ q ∈ shopDigests, p.2 = q.2 → p.1 = q.1 := by
    decide +kernel
  exact Bytes.tableHash_injective hlength hdistinct

/-- The attempt of the run. -/
def shopJob : Job :=
  { attemptId := shopId 21
    invoiceId := shopId 10
    businessId := shopId 2
    idempotencyKey := "k1"
    amountCents := 500
    cardToken := "tok_success" }

/-- Worker `1` pays invoice `10`. -/
def paidRun : List (Label DefiniteChoice) :=
  openInvoice ++
    [.startPay 1 (payCall "k1" "tok_success"), .work 1 (shopFresh 0), .work 1 (shopFresh 20),
     .work 1 (shopFresh 0), .serve 0 ⟨some (.succeeded "psp_1"), none⟩, .work 1 (shopFresh 30)]

/-- Worker `2` calls with the same key and another card. -/
theorem replays_transparent_reuse :
    ∃ s, (definiteSystem shopSha256).run shop paidRun = some s ∧
      Transparent shopSha256 s shopJob (payCall "k1" "tok_card_declined") 2
        [.work 2 (shopFresh 0), .work 2 (shopFresh 40), .work 2 (shopFresh 0)] := by
  have hrun : ((definiteSystem shopSha256).run shop paidRun).any (fun s =>
      decide (shopJob ∈ s.db.jobs) && (s.workers 2).isNone) = true := by decide +kernel
  obtain ⟨s, hs, hcheck⟩ := (Option.any_eq_true _ _).mp hrun
  simp only [Bool.and_eq_true, decide_eq_true_eq, Option.isNone_iff_eq_none] at hcheck
  exact ⟨s, hs, replays_transparent shopSha256_injective ⟨shop, paidRun, shop_initial, hs⟩
    hcheck.1 ⟨rfl, rfl⟩ hcheck.2 _⟩

end InvoicePayment.Payments
