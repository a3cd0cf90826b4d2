import InvoicePayment.Payments.Ledger
import InvoicePayment.Payments.Views

/-!
# What holds whatever the PSP answers

`Sound` ties the workers and the messages in flight to the rows of the database: every attempt
a worker holds or has sent is a row, what a handler has read is still true of the columns that
never change, and an attempt's invoice has left `draft`. `sound_of_reachable` is the induction.
-/

namespace InvoicePayment.Payments

variable {δ : Type} {env : Env δ} {s s' : State} {l : Label δ}

/-- What every reachable state keeps, for any PSP. -/
structure Sound (env : Env δ) (s : State) : Prop where
  ledger : Ledger env.sha256 s.db.jobs s.db.links s.db.bills
  active : uqActiveAttemptPerInvoice.Holds s.db.paymentAttempts
  notDraft : ∀ a ∈ s.db.paymentAttempts, ∀ i ∈ s.db.invoices, i.id = a.invoiceId →
    i.state ≠ .draft
  notOpen : ∀ a ∈ s.db.paymentAttempts, a.status = .succeeded → ∀ i ∈ s.db.invoices,
    i.id = a.invoiceId → i.state ≠ .open
  held : ∀ w W, s.workers w = some W → ∀ h ∈ W.holdings, h.job ∈ s.db.jobs
  sent : ∀ m ∈ s.inFlight, m.job ∈ s.db.jobs
  callIds : ∀ m ∈ s.inFlight, m.callId < s.nextCall
  waits : ∀ w W c, s.workers w = some W → W.waitsFor = some c → c < s.nextCall
  awaited : ∀ m ∈ s.inFlight, ∀ W, s.workers m.worker = some W → W.waitsFor = some m.callId →
    ∃ since holder, W.holdings.head? = some ⟨m.job, since, holder⟩
  read : ∀ w W call state amount, s.workers w = some W →
    W.reading = some (call, state, amount) →
    ∃ b ∈ s.db.bills, b.Of call.invoiceId call.businessId amount
  opened : ∀ w W call amount, s.workers w = some W → W.reading = some (call, .open, amount) →
    ∀ i ∈ s.db.invoices, i.id = call.invoiceId → i.state ≠ .draft
  replaying : ∀ w W call amount, s.workers w = some W → W.replaying = some (call, amount) →
    ∃ b ∈ s.db.bills, b.Of call.invoiceId call.businessId amount
  charging : ∀ w W call job, s.workers w = some W → W.charging = some (call, job) → call.IsOf job
  loaded : ∀ w W call current, s.workers w = some W → W.loaded = some (call, current) →
    current.canTransitionTo call.action.target = true

/-! ## Rows and static columns -/

theorem mem_jobs {db : Db} {a : PaymentAttempt} (h : a ∈ db.paymentAttempts) :
    Job.ofAttempt a ∈ db.jobs := List.mem_map_of_mem h

theorem mem_bills {db : Db} {i : Invoice} (h : i ∈ db.invoices) : Bill.ofInvoice i ∈ db.bills :=
  List.mem_map_of_mem h

/-- No attempt and no invoice disappears. -/
theorem Effect.jobs_mono (h : Effect env s l s') {job : Job} (hjob : job ∈ s.db.jobs) :
    job ∈ s'.db.jobs := by
  rcases h.static with ⟨heq, -, -⟩ |
    ⟨w, W, call, state, amount, fresh, job', -, -, -, -, hclaimed⟩ |
    ⟨businessId, req, fresh, inv, hcreated⟩
  · rw [heq]
    exact hjob
  · rw [Db.jobs, hclaimed.post, List.map_append]
    exact List.mem_append_left _ hjob
  · rw [Db.jobs, hcreated.attempts]
    exact hjob

theorem Effect.bills_mono (h : Effect env s l s') {b : Bill} (hb : b ∈ s.db.bills) :
    b ∈ s'.db.bills := by
  rcases h.static with ⟨-, -, heq⟩ |
    ⟨w, W, call, state, amount, fresh, job', -, -, -, -, hclaimed⟩ |
    ⟨businessId, req, fresh, inv, hcreated⟩
  · rw [heq]
    exact hb
  · rw [hclaimed.post]
    exact hb
  · rw [Db.bills, hcreated.invoices, List.map_append]
    exact List.mem_append_left _ hb

/-- The id of a new invoice is on no bill. -/
theorem id_ne_of_created {db db' : Db} {now : Timestamp} {businessId : Uuid}
    {req : CreateInvoiceRequest} {fresh : Fresh} {inv : Invoice}
    (h : InvoiceService.Created db now businessId req fresh db' inv) {b : Bill}
    (hb : b ∈ db.bills) : b.id ≠ inv.id := by
  obtain ⟨i, hi, rfl⟩ := List.mem_map.mp hb
  exact Table.UniqueIndex.ne_of_not_conflicts h.freshId rfl hi rfl

namespace Sound

theorem attemptIds (hs : Sound env s) : (s.db.paymentAttempts.map PaymentAttempt.id).Nodup := by
  have h := hs.ledger.attemptIds
  rw [Db.jobs, List.map_map] at h
  exact h

/-- Attempts with one id are one row. -/
theorem attempt_eq (hs : Sound env s) {a b : PaymentAttempt} (ha : a ∈ s.db.paymentAttempts)
    (hb : b ∈ s.db.paymentAttempts) (hid : a.id = b.id) : a = b :=
  List.inj_on_of_nodup_map hs.attemptIds ha hb hid

/-- Invoices with one id are one row. -/
theorem invoice_eq (hs : Sound env s) {i j : Invoice} (hi : i ∈ s.db.invoices)
    (hj : j ∈ s.db.invoices) (hid : i.id = j.id) : i = j := by
  have hnodup : (s.db.invoices.map Invoice.id).Nodup := by
    have h := hs.ledger.invoiceIds
    rw [Db.bills, List.map_map] at h
    exact h
  exact List.inj_on_of_nodup_map hnodup hi hj hid

theorem keyPairs (hs : Sound env s) :
    (s.db.idempotencyKeys.map (KeyLink.pair ∘ KeyLink.ofKey)).Nodup := by
  have h := hs.ledger.keyPairs
  rw [Db.links, List.map_map] at h
  exact h

/-- The key of an attempt is one row. -/
theorem find_key (hs : Sound env s) {businessId : Uuid} {key : String} {k : IdempotencyKey}
    (hk : k ∈ s.db.idempotencyKeys) (hkey : PaymentService.isKey businessId key k = true) :
    s.db.idempotencyKeys.find? (PaymentService.isKey businessId key) = some k := by
  refine Table.find?_eq_some_of_unique hk hkey fun j hj hp => ?_
  simp only [PaymentService.isKey, Bool.and_eq_true, decide_eq_true_eq] at hkey hp
  exact List.inj_on_of_nodup_map hs.keyPairs hj hk
    (Prod.ext (hp.1.trans hkey.1.symm) (hp.2.trans hkey.2.symm))

/-- Two active attempts of one invoice are one row. -/
theorem active_eq (hs : Sound env s) {a b : PaymentAttempt} (ha : a ∈ s.db.paymentAttempts)
    (hb : b ∈ s.db.paymentAttempts) (haa : a.isActive = true) (hba : b.isActive = true)
    (hinv : a.invoiceId = b.invoiceId) : a = b :=
  Table.UniqueIndex.Holds.eq_of_mem hs.active ha hb haa hba hinv

/-- The invoice of an attempt is there. -/
theorem exists_invoice (hs : Sound env s) {a : PaymentAttempt} (ha : a ∈ s.db.paymentAttempts) :
    ∃ i ∈ s.db.invoices, i.id = a.invoiceId := by
  obtain ⟨b, hb, hof⟩ := hs.ledger.billed _ (mem_jobs ha)
  obtain ⟨i, hi, rfl⟩ := List.mem_map.mp hb
  exact ⟨i, hi, hof.id⟩

/-- The job of a result in hand is a row. -/
theorem result_job (hs : Sound env s) {w : WorkerId} {W : Worker} (hw : s.workers w = some W)
    {job : Job} {r : PspResult} (hr : W.result = some (job, r)) : job ∈ s.db.jobs := by
  obtain ⟨since, holder, hhead⟩ := Worker.head_of_result hr
  exact hs.held w W hw _ (List.mem_of_head? hhead)

/-- The message a worker waits for is about the job it has in hand. -/
theorem job_eq_of_awaited (hs : Sound env s) {m : InFlight} (hm : m ∈ s.inFlight)
    {W W' : Worker} (hW : s.workers m.worker = some W) (hwait : W.waitsFor = some m.callId)
    (hheld : W.holdings = W'.holdings) {job : Job} {r : PspResult}
    (hr : W'.result = some (job, r)) : job = m.job := by
  obtain ⟨since, holder, hhead⟩ := hs.awaited m hm W hW hwait
  obtain ⟨since', holder', hhead'⟩ := Worker.head_of_result hr
  rw [hheld, hhead'] at hhead
  exact congrArg Holding.job (Option.some.inj hhead)

theorem exists_attempt_of_job {job : Job} (hjob : job ∈ s.db.jobs) :
    ∃ a ∈ s.db.paymentAttempts, Job.ofAttempt a = job := List.mem_map.mp hjob

/-- The key row of an attempt is the one with the attempt's business and key. -/
theorem isKey_iff (hs : Sound env s) {a : PaymentAttempt} (ha : a ∈ s.db.paymentAttempts)
    {k : IdempotencyKey} (hk : k ∈ s.db.idempotencyKeys) :
    PaymentService.isKey a.businessId a.idempotencyKey k = true ↔ k.attemptId = some a.id := by
  have hlink : KeyLink.ofKey k ∈ s.db.links := List.mem_map_of_mem hk
  simp only [PaymentService.isKey, Bool.and_eq_true, decide_eq_true_eq]
  constructor
  · rintro ⟨hb, hkey⟩
    obtain ⟨link, hlink', hclaims⟩ := hs.ledger.jobKey _ (mem_jobs ha)
    have hpair : (KeyLink.ofKey k).pair = link.pair := by
      rw [KeyLink.pair, KeyLink.pair, hclaims.businessId, hclaims.idempotencyKey]
      exact Prod.ext hb hkey
    rw [← hs.ledger.link_eq hlink hlink' hpair] at hclaims
    exact hclaims.attemptId
  · intro hid
    obtain ⟨job, hjob, hclaims⟩ := hs.ledger.keyJob _ hlink
    have hsame : job = Job.ofAttempt a := by
      refine hs.ledger.job_eq hjob (mem_jobs ha) (Option.some.inj ?_)
      rw [← hclaims.attemptId]
      exact hid
    rw [hsame] at hclaims
    exact ⟨hclaims.businessId, hclaims.idempotencyKey⟩

theorem exists_key (hs : Sound env s) {a : PaymentAttempt} (ha : a ∈ s.db.paymentAttempts) :
    ∃ k ∈ s.db.idempotencyKeys, k.attemptId = some a.id := by
  obtain ⟨link, hlink, hclaims⟩ := hs.ledger.jobKey _ (mem_jobs ha)
  obtain ⟨k, hk, rfl⟩ := List.mem_map.mp hlink
  exact ⟨k, hk, hclaims.attemptId⟩

theorem exists_attempt (hs : Sound env s) {k : IdempotencyKey} (hk : k ∈ s.db.idempotencyKeys) :
    ∃ a ∈ s.db.paymentAttempts, k.attemptId = some a.id ∧
      (KeyLink.ofKey k).Claims env.sha256 (Job.ofAttempt a) := by
  obtain ⟨job, hjob, hclaims⟩ := hs.ledger.keyJob _ (List.mem_map_of_mem hk)
  obtain ⟨a, ha, rfl⟩ := exists_attempt_of_job hjob
  exact ⟨a, ha, hclaims.attemptId, hclaims⟩

/-- The row a pending attempt's job is read from. -/
theorem ofAttempt_of_isPending (hs : Sound env s) {job : Job} (hjob : job ∈ s.db.jobs)
    {a : PaymentAttempt} (ha : a ∈ s.db.paymentAttempts)
    (hp : PaymentService.isPending job.attemptId a = true) : job = Job.ofAttempt a := by
  simp only [PaymentService.isPending, Bool.and_eq_true, decide_eq_true_eq] at hp
  exact hs.ledger.job_eq hjob (mem_jobs ha) hp.1.symm

end Sound

/-! ## One step -/

theorem ledger_step (hs : Sound env s) (he : Effect env s l s') :
    Ledger env.sha256 s'.db.jobs s'.db.links s'.db.bills := by
  rcases he.static with ⟨hjobs, hlinks, hbills⟩ |
    ⟨w, W, call, state, amount, fresh, job, hw, hread, hjob, rfl, hclaimed⟩ |
    ⟨businessId, req, fresh, inv, hcreated⟩
  · rw [hjobs, hlinks, hbills]
    exact hs.ledger
  · rw [← hjob.invoiceId, ← hjob.cardToken] at hclaimed
    refine hs.ledger.claim hclaimed ?_
    rw [hjob.invoiceId, hjob.businessId]
    exact hs.read w W call state job.amountCents hw hread
  · exact hs.ledger.create hcreated

/-- The partial unique index: claims pass its check, nothing else makes a row active. -/
theorem active_step (hs : Sound env s) (he : Effect env s l s') :
    uqActiveAttemptPerInvoice.Holds s'.db.paymentAttempts := by
  cases he with
  | advance _ => exact hs.active
  | create hcreated =>
    show uqActiveAttemptPerInvoice.Holds _
    rw [show (s.setDb _).db.paymentAttempts = s.db.paymentAttempts from hcreated.attempts]
    exact hs.active
  | lease _ _ => exact Table.UniqueIndex.holds_update hs.active (fun _ _ _ => rfl) fun _ _ _ h => h
  | quiet _ _ => exact hs.active
  | send _ _ _ => exact hs.active
  | claim _ _ _ hclaimed =>
    rw [hclaimed.post]
    exact Table.UniqueIndex.holds_append_singleton hs.active hclaimed.noActive
  | replay _ => exact hs.active
  | serve _ _ => exact hs.active
  | @finalize _ _ _ _ _ result _ _ _ _ hfinal _ =>
    simp only [State.setWorker, State.setDb, hfinal.attempts]
    refine Table.UniqueIndex.holds_update hs.active (fun a _ _ => ?_) fun a _ hp _ => ?_
    · cases result <;> rfl
    · simp only [PaymentService.isPending, Bool.and_eq_true, decide_eq_true_eq] at hp
      simp [uqActiveAttemptPerInvoice, PaymentAttempt.isActive, hp.2]
  | move _ happly =>
    obtain ⟨rfl, -⟩ := InvoiceService.apply_eq_ok happly
    exact hs.active

/-- A finalization changes the status of pending rows only, and no invoice it covers. -/
theorem invoiceId_settle (now : Timestamp) (r : PspResult) (a : PaymentAttempt) :
    (PaymentService.settle now r a).invoiceId = a.invoiceId := by cases r <;> rfl

/-- The rows an `UPDATE` of the attempts came from, when it keeps the invoice. -/
theorem exists_of_mem_update {t : List PaymentAttempt} {p : PaymentAttempt → Bool}
    {f : PaymentAttempt → PaymentAttempt} (hf : ∀ a, (f a).invoiceId = a.invoiceId)
    {a' : PaymentAttempt} (h : a' ∈ Table.update p f t) :
    ∃ a ∈ t, a.invoiceId = a'.invoiceId := by
  obtain ⟨a, ha, rfl⟩ := Table.mem_update.mp h
  refine ⟨a, ha, ?_⟩
  split_ifs
  · exact (hf a).symm
  · rfl

theorem notDraft_step (hs : Sound env s) (he : Effect env s l s') :
    ∀ a ∈ s'.db.paymentAttempts, ∀ i ∈ s'.db.invoices, i.id = a.invoiceId → i.state ≠ .draft := by
  intro a' ha' i' hi' hid
  cases he with
  | advance _ => exact hs.notDraft a' ha' i' hi' hid
  | create hcreated =>
    simp only [State.setDb, hcreated.attempts, hcreated.invoices, List.mem_append,
      List.mem_singleton] at ha' hi'
    rcases hi' with hi' | rfl
    · exact hs.notDraft a' ha' i' hi' hid
    · obtain ⟨b, hb, hof⟩ := hs.ledger.billed _ (mem_jobs ha')
      exact absurd (hof.id.trans hid.symm) (id_ne_of_created hcreated hb)
  | lease _ _ =>
    obtain ⟨a, ha, rfl⟩ := Table.mem_update.mp ha'
    refine hs.notDraft a ha i' hi' ?_
    split_ifs at hid <;> exact hid
  | quiet _ _ => exact hs.notDraft a' ha' i' hi' hid
  | send _ _ _ => exact hs.notDraft a' ha' i' hi' hid
  | @claim w fresh call state amount db job hw hjob _ hclaimed =>
    simp only [State.setWorker, State.setDb, hclaimed.post, List.mem_append,
      List.mem_singleton] at ha' hi'
    rcases ha' with ha' | rfl
    · exact hs.notDraft a' ha' i' hi' hid
    · have hread : (Worker.pay call (.read state amount)).reading = some (call, .open, amount) := by
        rw [Worker.reading, hclaimed.stateOpen]
      exact hs.opened w _ call amount hw hread i' hi' (hid.trans hjob.invoiceId)
  | replay _ => exact hs.notDraft a' ha' i' hi' hid
  | serve _ _ => exact hs.notDraft a' ha' i' hi' hid
  | finalize _ _ hfinal _ =>
    simp only [State.setWorker, State.setDb, hfinal.attempts, hfinal.invoices] at ha' hi'
    obtain ⟨a, ha, hinv⟩ := exists_of_mem_update (invoiceId_settle _ _) ha'
    split_ifs at hi'
    · obtain ⟨i, hi, rfl⟩ := Table.mem_update.mp hi'
      split_ifs at hid ⊢
      · exact InvoiceState.noConfusion
      · exact hs.notDraft a ha i hi (hid.trans hinv.symm)
    · exact hs.notDraft a ha i' hi' (hid.trans hinv.symm)
  | @move w fresh call current db inv hw happly =>
    obtain ⟨rfl, -⟩ := InvoiceService.apply_eq_ok happly
    obtain ⟨i, hi, rfl⟩ := Table.mem_update.mp hi'
    split_ifs at hid ⊢
    · show call.action.target ≠ .draft
      cases call.action <;> exact InvoiceState.noConfusion
    · exact hs.notDraft a' ha' i hi hid

theorem notOpen_step (hs : Sound env s) (he : Effect env s l s') :
    ∀ a ∈ s'.db.paymentAttempts, a.status = .succeeded → ∀ i ∈ s'.db.invoices,
      i.id = a.invoiceId → i.state ≠ .open := by
  intro a' ha' hst i' hi' hid
  cases he with
  | advance _ => exact hs.notOpen a' ha' hst i' hi' hid
  | create hcreated =>
    simp only [State.setDb, hcreated.attempts, hcreated.invoices, List.mem_append,
      List.mem_singleton] at ha' hi'
    rcases hi' with hi' | rfl
    · exact hs.notOpen a' ha' hst i' hi' hid
    · rw [hcreated.draft]
      exact InvoiceState.noConfusion
  | lease _ _ =>
    obtain ⟨a, ha, rfl⟩ := Table.mem_update.mp ha'
    refine hs.notOpen a ha ?_ i' hi' ?_
    · split_ifs at hst <;> exact hst
    · split_ifs at hid <;> exact hid
  | quiet _ _ => exact hs.notOpen a' ha' hst i' hi' hid
  | send _ _ _ => exact hs.notOpen a' ha' hst i' hi' hid
  | claim _ _ _ hclaimed =>
    simp only [State.setWorker, State.setDb, hclaimed.post, List.mem_append,
      List.mem_singleton] at ha' hi'
    rcases ha' with ha' | rfl
    · exact hs.notOpen a' ha' hst i' hi' hid
    · exact PaymentStatus.noConfusion hst
  | replay _ => exact hs.notOpen a' ha' hst i' hi' hid
  | serve _ _ => exact hs.notOpen a' ha' hst i' hi' hid
  | @finalize w fresh W W'' job result db o hw hr hfinal hW' =>
    simp only [State.setWorker, State.setDb, hfinal.attempts, hfinal.invoices] at ha' hi'
    obtain ⟨a, ha, rfl⟩ := Table.mem_update.mp ha'
    split_ifs at hst hid with hp
    · -- the row has just been marked, so the result is a success and the invoice was updated
      cases result with
      | declined _ => exact PaymentStatus.noConfusion hst
      | unknown _ =>
        simp only [PaymentService.isPending, Bool.and_eq_true, decide_eq_true_eq] at hp
        rw [PaymentService.settle, hp.2] at hst
        exact PaymentStatus.noConfusion hst
      | succeeded pspRef =>
        simp only [PaymentService.eventType, if_true] at hi'
        obtain ⟨i, hi, rfl⟩ := Table.mem_update.mp hi'
        split_ifs at hid ⊢ with hopen
        · exact InvoiceState.noConfusion
        · intro hstate
          refine hopen ?_
          have hjob : job.invoiceId = a.invoiceId :=
            congrArg Job.invoiceId (hs.ofAttempt_of_isPending (hs.result_job hw hr) ha hp)
          simp [PaymentService.isOpen, hstate, hjob, hid, PaymentService.settle]
    · split_ifs at hi'
      · obtain ⟨i, hi, rfl⟩ := Table.mem_update.mp hi'
        split_ifs at hid ⊢
        · exact InvoiceState.noConfusion
        · exact hs.notOpen a ha hst i hi hid
      · exact hs.notOpen a ha hst i' hi' hid
  | @move w fresh call current db inv hw happly =>
    obtain ⟨rfl, -⟩ := InvoiceService.apply_eq_ok happly
    obtain ⟨i, hi, rfl⟩ := Table.mem_update.mp hi'
    split_ifs at hid ⊢ with hin
    · -- only a draft moves to open, and an attempt's invoice is no draft
      intro htarget
      have hcan := hs.loaded w _ call current hw rfl
      rw [show call.action.target = .open from htarget] at hcan
      have hdraft := InvoiceState.eq_draft_of_canTransitionTo_open hcan
      simp only [InvoiceRepo.isIn, Bool.and_eq_true, decide_eq_true_eq] at hin
      exact hs.notDraft a' ha' i hi hid (hin.2.trans hdraft)
    · exact hs.notOpen a' ha' hst i hi hid

/-- An attempt keeps its outcome, or is pending, or has just been finalized. -/
theorem Effect.attempt (he : Effect env s l s') {a' : PaymentAttempt}
    (ha' : a' ∈ s'.db.paymentAttempts) :
    (∃ a ∈ s.db.paymentAttempts, Job.ofAttempt a' = Job.ofAttempt a ∧ a'.status = a.status ∧
      a'.pspRef = a.pspRef ∧ a'.failureCode = a.failureCode) ∨
    a'.status = .pending ∨
    ∃ w W job r a, s.workers w = some W ∧ W.result = some (job, r) ∧ a ∈ s.db.paymentAttempts ∧
      PaymentService.isPending job.attemptId a = true ∧ a' = PaymentService.settle s.now r a := by
  have hsame : a' ∈ s.db.paymentAttempts → ∃ a ∈ s.db.paymentAttempts,
      Job.ofAttempt a' = Job.ofAttempt a ∧ a'.status = a.status ∧ a'.pspRef = a.pspRef ∧
      a'.failureCode = a.failureCode := fun h => ⟨a', h, rfl, rfl, rfl, rfl⟩
  cases he with
  | create hcreated =>
    simp only [State.setDb, hcreated.attempts] at ha'
    exact .inl (hsame ha')
  | lease _ _ =>
    obtain ⟨a, ha, rfl⟩ := Table.mem_update.mp ha'
    refine .inl ⟨a, ha, ?_⟩
    split_ifs <;> exact ⟨rfl, rfl, rfl, rfl⟩
  | claim _ _ _ hclaimed =>
    simp only [State.setWorker, State.setDb, hclaimed.post, List.mem_append,
      List.mem_singleton] at ha'
    rcases ha' with ha' | rfl
    · exact .inl (hsame ha')
    · exact .inr (.inl rfl)
  | finalize hw hr hfinal _ =>
    simp only [State.setWorker, State.setDb, hfinal.attempts] at ha'
    obtain ⟨a, ha, rfl⟩ := Table.mem_update.mp ha'
    split_ifs with hp
    · exact .inr (.inr ⟨_, _, _, _, a, hw, hr, ha, hp, rfl⟩)
    · exact .inl ⟨a, ha, rfl, rfl, rfl, rfl⟩
  | move _ happly =>
    obtain ⟨rfl, -⟩ := InvoiceService.apply_eq_ok happly
    exact .inl (hsame ha')
  | _ => exact .inl (hsame ha')

theorem held_step (hs : Sound env s) (he : Effect env s l s') :
    ∀ w W, s'.workers w = some W → ∀ h ∈ W.holdings, h.job ∈ s'.db.jobs := by
  intro w W hw held hheld
  rcases he.holding hw hheld with ⟨W₀, hW₀, hold⟩ |
    ⟨state, fp, fresh, -, -, -, hclaimed⟩ | ⟨locked, ids, -, -, -, hjob, -, -⟩
  · exact he.jobs_mono (hs.held w W₀ hW₀ held hold)
  · rw [Db.jobs, hclaimed.post, List.map_append]
    exact List.mem_append_right _ (List.mem_singleton.mpr rfl)
  · obtain ⟨a, ha, -, hrow⟩ := Reconciler.mem_lease_jobs hjob
    rw [← hrow]
    exact he.jobs_mono (mem_jobs ha)

/-- A message in flight is an old one or the one just sent. -/
theorem Effect.inFlight (he : Effect env s l s') {m : InFlight} (hm : m ∈ s'.inFlight) :
    m ∈ s.inFlight ∨
    ∃ W W' rest since holder, s.workers m.worker = some W ∧
      W.holdings = ⟨m.job, since, holder⟩ :: rest ∧ m.callId = s.nextCall ∧
      s' = (s.send m.worker m.job).setWorker m.worker W' ∧ W'.holdings = W.holdings := by
  cases he with
  | advance _ => exact .inl hm
  | create _ => exact .inl hm
  | lease _ _ => exact .inl hm
  | quiet _ _ => exact .inl hm
  | @send w fresh W W' held rest hw hheld hsent =>
    rcases List.mem_append.mp hm with hm | hm
    · exact .inl hm
    · obtain rfl := List.mem_singleton.mp hm
      exact .inr ⟨W, W', rest, held.since, held.holder, hw, hheld, rfl, rfl, hsent.holdings⟩
  | claim _ _ _ _ => exact .inl hm
  | replay _ => exact .inl hm
  | serve _ _ => exact .inl (List.mem_of_mem_eraseIdx hm)
  | finalize _ _ _ _ => exact .inl hm
  | move _ _ => exact .inl hm

theorem Effect.nextCall_le (he : Effect env s l s') : s.nextCall ≤ s'.nextCall := by
  cases he with
  | send _ _ _ => exact Nat.le_succ _
  | _ => exact Nat.le_refl _

theorem sent_step (hs : Sound env s) (he : Effect env s l s') :
    ∀ m ∈ s'.inFlight, m.job ∈ s'.db.jobs := by
  intro m hm
  rcases he.inFlight hm with hold | ⟨W, W', rest, since, holder, hw, hheld, -, -, -⟩
  · exact he.jobs_mono (hs.sent m hold)
  · have hmem : (⟨m.job, since, holder⟩ : Holding) ∈ W.holdings := by
      rw [hheld]
      exact List.mem_cons_self
    exact he.jobs_mono (hs.held _ W hw _ hmem)

theorem callIds_step (hs : Sound env s) (he : Effect env s l s') :
    ∀ m ∈ s'.inFlight, m.callId < s'.nextCall := by
  intro m hm
  rcases he.inFlight hm with hold | ⟨W, W', rest, since, holder, -, -, hid, rfl, -⟩
  · exact lt_of_lt_of_le (hs.callIds m hold) he.nextCall_le
  · rw [hid]
    exact Nat.lt_succ_self _

theorem waits_step (hs : Sound env s) (he : Effect env s l s') :
    ∀ w W c, s'.workers w = some W → W.waitsFor = some c → c < s'.nextCall := by
  intro w W c hw hc
  rcases he.waitsFor hw hc with ⟨W₀, hW₀, hold, -⟩ | ⟨W₀, held, rest, -, -, -, rfl, rfl⟩
  · exact lt_of_lt_of_le (hs.waits w W₀ c hW₀ hold) he.nextCall_le
  · exact Nat.lt_succ_self _

theorem awaited_step (hs : Sound env s) (he : Effect env s l s') :
    ∀ m ∈ s'.inFlight, ∀ W, s'.workers m.worker = some W → W.waitsFor = some m.callId →
      ∃ since holder, W.holdings.head? = some ⟨m.job, since, holder⟩ := by
  intro m hm W hw hc
  rcases he.waitsFor hw hc with ⟨W₀, hW₀, hold, hheld⟩ |
    ⟨W₀, held, rest, hW₀, hheld, hsame, hid, hpost⟩
  · rcases he.inFlight hm with hm | ⟨_, _, _, _, _, -, -, hnew, -, -⟩
    · rw [← hheld]
      exact hs.awaited m hm W₀ hW₀ hold
    · -- a call already waited for has an older id than the one just sent
      have hlt := hs.waits _ W₀ _ hW₀ hold
      omega
  · rcases he.inFlight hm with hm | ⟨W₁, W', rest', since, holder, hW₁, hheld', -, -, -⟩
    · have hlt := hs.callIds m hm
      omega
    · obtain rfl : W₁ = W₀ := Option.some.inj (hW₁.symm.trans hW₀)
      exact ⟨since, holder, by rw [hsame, hheld']; rfl⟩

theorem read_step (hs : Sound env s) (he : Effect env s l s') :
    ∀ w W call state amount, s'.workers w = some W → W.reading = some (call, state, amount) →
      ∃ b ∈ s'.db.bills, b.Of call.invoiceId call.businessId amount := by
  intro w W call state amount hw hread
  rcases he.reading hw hread with ⟨W₀, hW₀, hold⟩ | ⟨-, i, hi, hid, hb, -, hamount⟩
  · obtain ⟨b, hb, hof⟩ := hs.read w W₀ call state amount hW₀ hold
    exact ⟨b, he.bills_mono hb, hof⟩
  · exact ⟨Bill.ofInvoice i, he.bills_mono (mem_bills hi), hid, hb, hamount⟩

theorem replaying_step (hs : Sound env s) (he : Effect env s l s') :
    ∀ w W call amount, s'.workers w = some W → W.replaying = some (call, amount) →
      ∃ b ∈ s'.db.bills, b.Of call.invoiceId call.businessId amount := by
  intro w W call amount hw hreplay
  rcases he.replaying hw hreplay with ⟨W₀, hW₀, hold⟩ | ⟨W₀, state, hW₀, hread⟩
  · obtain ⟨b, hb, hof⟩ := hs.replaying w W₀ call amount hW₀ hold
    exact ⟨b, he.bills_mono hb, hof⟩
  · obtain ⟨b, hb, hof⟩ := hs.read w W₀ call state amount hW₀ hread
    exact ⟨b, he.bills_mono hb, hof⟩

theorem charging_step (hs : Sound env s) (he : Effect env s l s') :
    ∀ w W call job, s'.workers w = some W → W.charging = some (call, job) → call.IsOf job := by
  intro w W call job hw hcharging
  rcases he.charging hw hcharging with ⟨W₀, hW₀, hold⟩ | hof
  · exact hs.charging w W₀ call job hW₀ hold
  · exact hof

theorem loaded_step (hs : Sound env s) (he : Effect env s l s') :
    ∀ w W call current, s'.workers w = some W → W.loaded = some (call, current) →
      current.canTransitionTo call.action.target = true := by
  intro w W call current hw hload
  rcases he.loaded hw hload with ⟨W₀, hW₀, hold⟩ | hcan
  · exact hs.loaded w W₀ call current hW₀ hold
  · exact hcan

/-- An invoice stays in its state or makes a legal transition. -/
theorem Effect.invoice_mono (hs : Sound env s) (he : Effect env s l s') {i : Invoice}
    (hi : i ∈ s.db.invoices) : ∃ i' ∈ s'.db.invoices, i'.id = i.id ∧
      i'.businessId = i.businessId ∧
      (i'.state = i.state ∨ i.state.canTransitionTo i'.state = true) := by
  have hsame : i ∈ s'.db.invoices → ∃ i' ∈ s'.db.invoices, i'.id = i.id ∧
      i'.businessId = i.businessId ∧
      (i'.state = i.state ∨ i.state.canTransitionTo i'.state = true) :=
    fun h => ⟨i, h, rfl, rfl, .inl rfl⟩
  cases he with
  | create hcreated =>
    refine hsame ?_
    simp only [State.setDb, hcreated.invoices]
    exact List.mem_append_left _ hi
  | claim _ _ _ hclaimed =>
    refine hsame ?_
    simp only [State.setWorker, State.setDb, hclaimed.post]
    exact hi
  | finalize _ _ hfinal _ =>
    simp only [State.setWorker, State.setDb, hfinal.invoices] at hsame ⊢
    split_ifs at hsame ⊢
    · refine ⟨_, Table.mem_update_of_mem hi, ?_⟩
      split_ifs with hopen
      · refine ⟨rfl, rfl, .inr ?_⟩
        simp only [PaymentService.isOpen, Bool.and_eq_true, decide_eq_true_eq] at hopen
        rw [hopen.2]
        rfl
      · exact ⟨rfl, rfl, .inl rfl⟩
    · exact hsame hi
  | @move w fresh call current db inv hw happly =>
    obtain ⟨rfl, -⟩ := InvoiceService.apply_eq_ok happly
    refine ⟨_, Table.mem_update_of_mem hi, ?_⟩
    split_ifs with hin
    · refine ⟨rfl, rfl, .inr ?_⟩
      simp only [InvoiceRepo.isIn, Bool.and_eq_true, decide_eq_true_eq] at hin
      rw [hin.2]
      exact hs.loaded w _ call current hw rfl
    · exact ⟨rfl, rfl, .inl rfl⟩
  | _ => exact hsame hi

/-- An invoice that has left `draft` stays out of it. -/
theorem draft_of_draft (he : Effect env s l s') {i' : Invoice} (hi' : i' ∈ s'.db.invoices)
    (hdraft : i'.state = .draft) :
    i' ∈ s.db.invoices ∨ ∀ b ∈ s.db.bills, b.id ≠ i'.id := by
  cases he with
  | create hcreated =>
    simp only [State.setDb, hcreated.invoices, List.mem_append, List.mem_singleton] at hi'
    rcases hi' with hi' | rfl
    · exact .inl hi'
    · exact .inr fun b hb => id_ne_of_created hcreated hb
  | claim _ _ _ hclaimed =>
    rw [hclaimed.post] at hi'
    exact .inl hi'
  | finalize _ _ hfinal _ =>
    simp only [State.setWorker, State.setDb, hfinal.invoices] at hi'
    split_ifs at hi'
    · obtain ⟨i, hi, rfl⟩ := Table.mem_update.mp hi'
      split_ifs at hdraft ⊢
      exact .inl hi
    · exact .inl hi'
  | @move _ _ call _ _ _ _ happly =>
    obtain ⟨rfl, -⟩ := InvoiceService.apply_eq_ok happly
    obtain ⟨i, hi, rfl⟩ := Table.mem_update.mp hi'
    split_ifs at hdraft ⊢
    · have htarget : call.action.target = .draft := hdraft
      cases hact : call.action <;> rw [hact] at htarget <;> exact InvoiceState.noConfusion htarget
    · exact .inl hi
  | _ => exact .inl hi'

theorem opened_step (hs : Sound env s) (he : Effect env s l s') :
    ∀ w W call amount, s'.workers w = some W → W.reading = some (call, .open, amount) →
      ∀ i ∈ s'.db.invoices, i.id = call.invoiceId → i.state ≠ .draft := by
  intro w W call amount hw hread i' hi' hid hdraft
  have hopened : ∀ i ∈ s.db.invoices, i.id = call.invoiceId → i.state ≠ .draft := by
    rcases he.reading hw hread with ⟨W₀, hW₀, hold⟩ | ⟨-, j, hj, hjid, -, hopen, -⟩
    · exact hs.opened w W₀ call amount hW₀ hold
    · intro i hi hi'
      rw [hs.invoice_eq hi hj (hi'.trans hjid.symm), hopen]
      exact InvoiceState.noConfusion
  rcases draft_of_draft he hi' hdraft with hi | hnew
  · exact hopened i' hi hid hdraft
  · rcases he.reading hw hread with ⟨W₀, hW₀, hold⟩ | ⟨-, j, hj, hjid, -, -, -⟩
    · obtain ⟨b, hb, hof⟩ := hs.read w W₀ call .open amount hW₀ hold
      exact hnew b hb (hof.id.trans hid.symm)
    · exact hnew _ (mem_bills hj) (hjid.trans hid.symm)

/-! ## Every reachable state -/

theorem Sound.step (hs : Sound env s) (he : Effect env s l s') : Sound env s' :=
  { ledger := ledger_step hs he
    active := active_step hs he
    notDraft := notDraft_step hs he
    notOpen := notOpen_step hs he
    held := held_step hs he
    sent := sent_step hs he
    callIds := callIds_step hs he
    waits := waits_step hs he
    awaited := awaited_step hs he
    read := read_step hs he
    opened := opened_step hs he
    replaying := replaying_step hs he
    charging := charging_step hs he
    loaded := loaded_step hs he }

theorem sound_initial (h : Initial s) : Sound env s := by
  have hledger : Ledger env.sha256 s.db.jobs s.db.links s.db.bills := by
    rw [Db.jobs, Db.links, Db.bills, h.attempts, h.keys, h.invoices]
    exact Ledger.nil
  exact
    { ledger := hledger
      active := by rw [h.attempts]; exact Table.UniqueIndex.holds_nil
      notDraft := by simp [h.attempts]
      notOpen := by simp [h.attempts]
      held := fun w W hw => (h.no_worker hw).elim
      sent := by simp [h.inFlight]
      callIds := by simp [h.inFlight]
      waits := fun w W _ hw => (h.no_worker hw).elim
      awaited := by simp [h.inFlight]
      read := fun w W _ _ _ hw => (h.no_worker hw).elim
      opened := fun w W _ _ hw => (h.no_worker hw).elim
      replaying := fun w W _ _ hw => (h.no_worker hw).elim
      charging := fun w W _ _ hw => (h.no_worker hw).elim
      loaded := fun w W _ _ hw => (h.no_worker hw).elim }

theorem sound_invariant (env : Env δ) : (system env).Invariant (Sound env) :=
  { initial := fun _ h => sound_initial h
    step := fun _ _ _ hs h => hs.step (step_effect h) }

theorem sound_of_reachable (h : (system env).Reachable s) : Sound env s :=
  (sound_invariant env).of_reachable h

/-! ## Attempts and their keys after a commit -/

namespace Sound

/-- After a claim an attempt and its key were there before, or both are new. -/
theorem linked_of_claimed (hs : Sound env s) {fresh : Fresh} {fp : List UInt8}
    {state : InvoiceState} {job : Job} {db : Db}
    (hclaimed : PaymentService.Claimed s.db fresh fp state job db) {a : PaymentAttempt}
    (ha : a ∈ db.paymentAttempts) {k : IdempotencyKey} (hk : k ∈ db.idempotencyKeys)
    (hid : k.attemptId = some a.id) :
    (a ∈ s.db.paymentAttempts ∧ k ∈ s.db.idempotencyKeys) ∨
    (a = PaymentService.newAttempt job ∧ k = PaymentService.newKey (fresh.newId 0) fp job) := by
  have hfresh : ∀ b ∈ s.db.paymentAttempts, b.id ≠ job.attemptId := by
    intro b hb
    exact Table.UniqueIndex.ne_of_not_conflicts hclaimed.freshId rfl hb rfl
  rw [hclaimed.post] at ha hk
  rcases List.mem_append.mp ha with ha | ha
  · rcases List.mem_append.mp hk with hk | hk
    · exact .inl ⟨ha, hk⟩
    · obtain rfl := List.mem_singleton.mp hk
      exact absurd (Option.some.inj hid).symm (hfresh a ha)
  · obtain rfl := List.mem_singleton.mp ha
    rcases List.mem_append.mp hk with hk | hk
    · obtain ⟨b, hb, hbid, -⟩ := hs.exists_attempt hk
      exact absurd (Option.some.inj (hbid.symm.trans hid)) (hfresh b hb)
    · exact .inr ⟨rfl, List.mem_singleton.mp hk⟩

/-- After a finalization an attempt and its key are the finalized pair, or are as they were. -/
theorem linked_of_finalized (hs : Sound env s) {now : Timestamp} {fresh : Fresh} {job : Job}
    {r : PspResult} {db : Db} {o : PayOutcome} (hjob : job ∈ s.db.jobs)
    (hfinal : PaymentService.Finalized s.db now fresh job r db o) {a' : PaymentAttempt}
    (ha' : a' ∈ db.paymentAttempts) {k' : IdempotencyKey} (hk' : k' ∈ db.idempotencyKeys)
    (hid : k'.attemptId = some a'.id) :
    ∃ a ∈ s.db.paymentAttempts, ∃ k ∈ s.db.idempotencyKeys, k.attemptId = some a.id ∧
      ((job = Job.ofAttempt a ∧
        a' = (if PaymentService.isPending a.id a then PaymentService.settle now r a else a) ∧
        k' = if (PaymentService.eventType r).isSome then PaymentService.completedKey o k else k) ∨
      (a' = a ∧ k' = k)) := by
  obtain ⟨b, hb, rfl⟩ := exists_attempt_of_job hjob
  rw [hfinal.attempts] at ha'
  change a' ∈ Table.update (PaymentService.isPending b.id) (PaymentService.settle now r) _ at ha'
  obtain ⟨a, ha, rfl⟩ := Table.mem_update.mp ha'
  have haid : (if PaymentService.isPending b.id a then PaymentService.settle now r a else a).id =
      a.id := by
    split_ifs
    · exact congrArg Job.attemptId (PaymentService.ofAttempt_settle now r a)
    · rfl
  -- the key row before the step
  obtain ⟨k, hk, hkid, hkpost⟩ : ∃ k ∈ s.db.idempotencyKeys, k.attemptId = some a.id ∧
      k' = if (PaymentService.eventType r).isSome ∧
          PaymentService.isKey b.businessId b.idempotencyKey k
        then PaymentService.completedKey o k else k := by
    rw [hfinal.keys] at hk'
    rw [haid] at hid
    by_cases hsome : (PaymentService.eventType r).isSome
    · rw [if_pos hsome] at hk'
      obtain ⟨k, hk, rfl⟩ := Table.mem_update.mp hk'
      refine ⟨k, hk, ?_, ?_⟩
      · split_ifs at hid <;> exact hid
      · simp only [hsome, true_and]
        rfl
    · rw [if_neg hsome] at hk'
      exact ⟨k', hk', hid, by simp [hsome]⟩
  refine ⟨a, ha, k, hk, hkid, ?_⟩
  by_cases hab : a.id = b.id
  · -- the finalized attempt
    obtain rfl := hs.attempt_eq ha hb hab
    have hkey : PaymentService.isKey a.businessId a.idempotencyKey k = true :=
      (hs.isKey_iff ha hk).mpr hkid
    refine .inl ⟨rfl, rfl, ?_⟩
    rw [hkpost]
    simp only [hkey, and_true]
  · -- another attempt, so another key
    have hkey : ¬ PaymentService.isKey b.businessId b.idempotencyKey k = true := by
      rw [hs.isKey_iff hb hk, hkid, Option.some.injEq]
      exact hab
    have hp : ¬ PaymentService.isPending b.id a = true := by
      simp [PaymentService.isPending, hab]
    refine .inr ⟨if_neg hp, ?_⟩
    rw [hkpost, if_neg (fun h => hkey h.2)]

end Sound

end InvoicePayment.Payments
