import InvoicePayment.Payments.Soundness

/-!
# What holds under a definite PSP

`Settled` ties the recorded outcomes to what the PSP has on record: a result in hand, a settled
attempt, a completed key and a final answer all carry the outcome recorded under the attempt's
key. Together with `Sound` it is an invariant of the system under any definite PSP.
-/

namespace InvoicePayment.Payments

open PaymentService (answer settle completedKey isPending isOpen)

variable {δ : Type} {env : Env δ} {s s' : State} {l : Label δ}

/-! ## Attempts and keys that agree -/

/-- The attempt carries the outcome `o`. -/
structure Carries (a : PaymentAttempt) (o : ChargeOutcome) : Prop where
  status : a.status = (answer (Job.ofAttempt a) o.toResult).2.status
  pspRef : a.pspRef = (answer (Job.ofAttempt a) o.toResult).2.pspRef
  failureCode : a.failureCode = (answer (Job.ofAttempt a) o.toResult).2.failureCode

/-- An attempt and its key row: both open, or both with the outcome the PSP has on record. -/
inductive Agrees (seen : String → Option ChargeOutcome) (a : PaymentAttempt)
    (k : IdempotencyKey) : Prop
  | pending (hstatus : a.status = .pending) (href : a.pspRef = none)
      (hcode : a.failureCode = none) (hkey : k.status = .inProgress)
      (hresponse : k.responseStatus = none) (hbody : k.responseBody = none)
  | settled (o : ChargeOutcome) (hseen : seen a.idempotencyKey = some o) (ha : Carries a o)
      (hkey : k.status = .completed)
      (hresponse : k.responseStatus = some ((answer (Job.ofAttempt a) o.toResult).1.code : Int))
      (hbody : k.responseBody = some (answer (Job.ofAttempt a) o.toResult).2.toJson)

theorem Carries.ne_pending {a : PaymentAttempt} {o : ChargeOutcome} (h : Carries a o) :
    a.status ≠ .pending := by
  rw [h.status]
  cases o <;> exact PaymentStatus.noConfusion

theorem Carries.succeeded_iff {a : PaymentAttempt} {o : ChargeOutcome} (h : Carries a o) :
    a.status = .succeeded ↔ o.movesMoney = true := by
  rw [h.status]
  cases o <;> simp [answer, ChargeOutcome.toResult, ChargeOutcome.movesMoney,
    PaymentService.succeededResponse, PaymentService.declinedResponse]

theorem Agrees.mono {seen seen' : String → Option ChargeOutcome} {a : PaymentAttempt}
    {k : IdempotencyKey} (h : Agrees seen a k)
    (hmono : ∀ key o, seen key = some o → seen' key = some o) : Agrees seen' a k := by
  cases h with
  | pending h₁ h₂ h₃ h₄ h₅ h₆ => exact .pending h₁ h₂ h₃ h₄ h₅ h₆
  | settled o hseen ha h₁ h₂ h₃ => exact .settled o (hmono _ o hseen) ha h₁ h₂ h₃

/-- What `finalize` makes of a pending attempt carries the outcome. -/
theorem carries_settle {now : Timestamp} {a : PaymentAttempt} (href : a.pspRef = none)
    (hcode : a.failureCode = none) (o : ChargeOutcome) :
    Carries (settle now o.toResult a) o := by
  cases o with
  | succeeded pspRef => exact ⟨rfl, rfl, hcode⟩
  | failed code => exact ⟨rfl, href, rfl⟩

/-! ## The invariant -/

/-- The call has been answered from the attempt under its key. -/
def Answered (s : State) (call : PayCall) (answered : PayOutcome) : Prop :=
  ∃ a ∈ s.db.paymentAttempts, a.businessId = call.businessId ∧
    a.idempotencyKey = call.idempotencyKey ∧ ∃ o, s.psp.seen a.idempotencyKey = some o ∧
      Carries a o ∧ answered = answer (Job.ofAttempt a) o.toResult

/-- What every reachable state keeps under a definite PSP, beside `Sound`. -/
structure Settled (s : State) : Prop where
  psp : s.psp.OncePerKey
  charged : ∀ c ∈ s.psp.charges, ∃ job ∈ s.db.jobs, job.attemptId = c.attemptId ∧
    job.request = c.request
  results : ∀ w W job r, s.workers w = some W → W.result = some (job, r) →
    (∃ reason, r = .unknown reason) ∨
    ∃ o, s.psp.seen job.idempotencyKey = some o ∧ r = o.toResult
  records : ∀ a ∈ s.db.paymentAttempts, ∀ k ∈ s.db.idempotencyKeys, k.attemptId = some a.id →
    Agrees s.psp.seen a k
  paid : ∀ i ∈ s.db.invoices, i.state = .paid →
    ∃ a ∈ s.db.paymentAttempts, a.invoiceId = i.id ∧ a.status = .succeeded
  answers : ∀ w W call o, s.workers w = some W → W.outcome = some (call, o) →
    o.1 ≠ .accepted → Answered s call o

/-- An attempt is pending or carries the outcome on record. -/
theorem Settled.attempt (hd : Settled s) (hs : Sound env s) {a : PaymentAttempt}
    (ha : a ∈ s.db.paymentAttempts) :
    (a.status = .pending ∧ a.pspRef = none ∧ a.failureCode = none) ∨
    ∃ o, s.psp.seen a.idempotencyKey = some o ∧ Carries a o := by
  obtain ⟨k, hk, hid⟩ := hs.exists_key ha
  cases hd.records a ha k hk hid with
  | pending hstatus href hcode _ _ _ => exact .inl ⟨hstatus, href, hcode⟩
  | settled o hseen hcarries _ _ _ => exact .inr ⟨o, hseen, hcarries⟩

/-- An attempt whose key has a success on record is pending or succeeded. -/
theorem Settled.active_of_success (hd : Settled s) (hs : Sound env s) {a : PaymentAttempt}
    (ha : a ∈ s.db.paymentAttempts) {o : ChargeOutcome}
    (hseen : s.psp.seen a.idempotencyKey = some o) (hmoves : o.movesMoney = true) :
    a.isActive = true := by
  rcases hd.attempt hs ha with ⟨hpending, -, -⟩ | ⟨o', hseen', hcarries⟩
  · simp [PaymentAttempt.isActive, hpending]
  · obtain rfl : o' = o := Option.some.inj (hseen'.symm.trans hseen)
    have hsucceeded := hcarries.succeeded_iff.mpr hmoves
    simp [PaymentAttempt.isActive, hsucceeded]

/-- No attempt is pending on a paid invoice: the one that paid it is the active one. -/
theorem Settled.not_pending_of_paid (hd : Settled s) (hs : Sound env s) {i : Invoice}
    (hi : i ∈ s.db.invoices) (hpaid : i.state = .paid) {a : PaymentAttempt}
    (ha : a ∈ s.db.paymentAttempts) (hinv : a.invoiceId = i.id) : a.status ≠ .pending := by
  intro hpending
  obtain ⟨b, hb, hbinv, hbst⟩ := hd.paid i hi hpaid
  have hab : a = b := by
    apply hs.active_eq ha hb
    · simp [PaymentAttempt.isActive, hpending]
    · simp [PaymentAttempt.isActive, hbst]
    · rw [hinv, hbinv]
  rw [hab, hbst] at hpending
  exact PaymentStatus.noConfusion hpending

/-! ## One step -/

/-- A settled attempt keeps its outcome, whatever the PSP. -/
theorem Effect.settled_mono (he : Effect env s l s') {a : PaymentAttempt}
    (ha : a ∈ s.db.paymentAttempts) (hsettled : a.status ≠ .pending) :
    ∃ a' ∈ s'.db.paymentAttempts, Job.ofAttempt a' = Job.ofAttempt a ∧ a'.status = a.status ∧
      a'.pspRef = a.pspRef ∧ a'.failureCode = a.failureCode := by
  have hsame : a ∈ s'.db.paymentAttempts → ∃ a' ∈ s'.db.paymentAttempts,
      Job.ofAttempt a' = Job.ofAttempt a ∧ a'.status = a.status ∧
      a'.pspRef = a.pspRef ∧ a'.failureCode = a.failureCode := fun h => ⟨a, h, rfl, rfl, rfl, rfl⟩
  cases he with
  | create hcreated =>
    refine hsame ?_
    show a ∈ _
    rw [State.setDb, hcreated.attempts]
    exact ha
  | lease _ _ =>
    refine ⟨_, Table.mem_update_of_mem ha, ?_⟩
    split_ifs <;> exact ⟨rfl, rfl, rfl, rfl⟩
  | claim _ _ _ hclaimed =>
    refine hsame ?_
    simp only [State.setWorker, State.setDb, hclaimed.post]
    exact List.mem_append_left _ ha
  | finalize _ _ hfinal _ =>
    refine hsame ?_
    simp only [State.setWorker, State.setDb, hfinal.attempts]
    exact Table.mem_update_of_not ha (by simp [PaymentService.isPending, hsettled])
  | move _ happly =>
    obtain ⟨rfl, -⟩ := InvoiceService.apply_eq_ok happly
    exact hsame ha
  | _ => exact hsame ha

/-- What the PSP has on record stays on record. -/
theorem seen_step (hpsp : env.psp.IsDefinite) (he : Effect env s l s') {key : String}
    {o : ChargeOutcome} (hseen : s.psp.seen key = some o) : s'.psp.seen key = some o := by
  cases he with
  | serve _ hserve => exact hpsp.seen_mono rfl hserve hseen
  | _ => exact hseen

theorem oncePerKey_step (hpsp : env.psp.IsDefinite) (hd : Settled s) (he : Effect env s l s') :
    s'.psp.OncePerKey := by
  cases he with
  | serve _ hserve => exact hpsp.oncePerKey rfl hserve hd.psp
  | _ => exact hd.psp

theorem charged_step (hpsp : env.psp.IsDefinite) (hs : Sound env s) (hd : Settled s)
    (he : Effect env s l s') : ∀ c ∈ s'.psp.charges, ∃ job ∈ s'.db.jobs,
      job.attemptId = c.attemptId ∧ job.request = c.request := by
  intro c hc
  have hold : c ∈ s.psp.charges → ∃ job ∈ s'.db.jobs,
      job.attemptId = c.attemptId ∧ job.request = c.request := by
    intro hc
    obtain ⟨job, hjob, h⟩ := hd.charged c hc
    exact ⟨job, he.jobs_mono hjob, h⟩
  cases he with
  | serve hm hserve =>
    rcases hpsp.charges hserve hc with hc | ⟨hid, hrequest⟩
    · exact hold hc
    · exact ⟨_, hs.sent _ (List.mem_of_getElem? hm), hid.symm, hrequest.symm⟩
  | _ => exact hold hc

theorem results_step (hpsp : env.psp.IsDefinite) (hs : Sound env s) (hd : Settled s)
    (he : Effect env s l s') : ∀ w W job r, s'.workers w = some W → W.result = some (job, r) →
      (∃ reason, r = .unknown reason) ∨
      ∃ o, s'.psp.seen job.idempotencyKey = some o ∧ r = o.toResult := by
  intro w W job r hw hr
  rcases he.result hw hr with ⟨W₀, hW₀, hold⟩ | hunknown |
    ⟨i, choice, m, psp, W₀, -, hm, rfl, hserve, rfl, hW₀, hwait, hheld⟩
  · rcases hd.results w W₀ job r hW₀ hold with hunknown | ⟨o, hseen, hro⟩
    · exact .inl hunknown
    · exact .inr ⟨o, seen_step hpsp he hseen, hro⟩
  · exact .inl hunknown
  · obtain rfl := hs.job_eq_of_awaited (List.mem_of_getElem? hm) hW₀ hwait hheld hr
    exact hpsp.result_recorded rfl hserve

/-- A finalization keeps its attempt and its key in agreement, however often the attempt has
been finalized before. -/
theorem agrees_finalized {seen : String → Option ChargeOutcome} {a : PaymentAttempt}
    {k : IdempotencyKey} (h : Agrees seen a k) {now : Timestamp} {o : ChargeOutcome}
    (hseen : seen a.idempotencyKey = some o) :
    Agrees seen (if PaymentService.isPending a.id a then settle now o.toResult a else a)
      (completedKey (answer (Job.ofAttempt a) o.toResult) k) := by
  cases h with
  | pending hstatus href hcode _ _ _ =>
    have hp : PaymentService.isPending a.id a = true := by
      simp [PaymentService.isPending, hstatus]
    rw [if_pos hp]
    have hjob := PaymentService.ofAttempt_settle now o.toResult a
    have hkey : (settle now o.toResult a).idempotencyKey = a.idempotencyKey :=
      congrArg Job.idempotencyKey hjob
    refine .settled o ?_ (carries_settle href hcode o) rfl ?_ ?_
    · rw [hkey]
      exact hseen
    · rw [hjob]
      rfl
    · rw [hjob]
      rfl
  | settled o' hseen' hcarries _ _ _ =>
    obtain rfl : o' = o := Option.some.inj (hseen'.symm.trans hseen)
    have hp : ¬ PaymentService.isPending a.id a = true := by
      simp [PaymentService.isPending, hcarries.ne_pending]
    rw [if_neg hp]
    exact .settled o' hseen hcarries rfl rfl rfl

/-- An unknown result leaves the key alone and a pending attempt pending. -/
theorem agrees_unknown {seen : String → Option ChargeOutcome} {a : PaymentAttempt}
    {k : IdempotencyKey} (h : Agrees seen a k) (now : Timestamp) (reason : UnknownReason) :
    Agrees seen (if PaymentService.isPending a.id a then settle now (.unknown reason) a else a)
      k := by
  split_ifs with hp
  · simp only [PaymentService.isPending, Bool.and_eq_true, decide_eq_true_eq] at hp
    cases h with
    | pending hstatus href hcode hkey hresponse hbody =>
      exact .pending hstatus href hcode hkey hresponse hbody
    | settled _ _ hcarries _ _ _ => exact absurd hp.2 hcarries.ne_pending
  · exact h

theorem records_finalize (hs : Sound env s) (hd : Settled s) {w : WorkerId} {W : Worker}
    {job : Job} {r : PspResult} {fresh : Fresh} {db : Db} {answered : PayOutcome}
    (hw : s.workers w = some W) (hr : W.result = some (job, r))
    (hfinal : PaymentService.Finalized s.db s.now fresh job r db answered) :
    ∀ a ∈ db.paymentAttempts, ∀ k ∈ db.idempotencyKeys, k.attemptId = some a.id →
      Agrees s.psp.seen a k := by
  intro a' ha' k' hk' hid
  obtain ⟨a, ha, k, hk, hkid, ⟨rfl, rfl, rfl⟩ | ⟨rfl, rfl⟩⟩ :=
    hs.linked_of_finalized (hs.result_job hw hr) hfinal ha' hk' hid
  · have hagrees := hd.records a ha k hk hkid
    rcases hd.results w W _ r hw hr with ⟨reason, rfl⟩ | ⟨o, hseen, rfl⟩
    · exact agrees_unknown hagrees s.now reason
    · have hsome : (PaymentService.eventType o.toResult).isSome = true := by cases o <;> rfl
      rw [if_pos hsome, hfinal.answered]
      exact agrees_finalized hagrees hseen
  · exact hd.records _ ha _ hk hkid

theorem records_claim (hs : Sound env s) (hd : Settled s) {fresh : Fresh} {fp : List UInt8}
    {state : InvoiceState} {job : Job} {db : Db}
    (hclaimed : PaymentService.Claimed s.db fresh fp state job db) :
    ∀ a ∈ db.paymentAttempts, ∀ k ∈ db.idempotencyKeys, k.attemptId = some a.id →
      Agrees s.psp.seen a k := by
  intro a ha k hk hid
  rcases hs.linked_of_claimed hclaimed ha hk hid with ⟨ha, hk⟩ | ⟨rfl, rfl⟩
  · exact hd.records a ha k hk hid
  · exact .pending rfl rfl rfl rfl rfl rfl

theorem records_step (hpsp : env.psp.IsDefinite) (hs : Sound env s) (hd : Settled s)
    (he : Effect env s l s') : ∀ a ∈ s'.db.paymentAttempts, ∀ k ∈ s'.db.idempotencyKeys,
      k.attemptId = some a.id → Agrees s'.psp.seen a k := by
  intro a ha k hk hid
  cases he with
  | create hcreated =>
    simp only [State.setDb, hcreated.attempts, hcreated.keys] at ha hk
    exact hd.records a ha k hk hid
  | lease _ _ =>
    obtain ⟨b, hb, rfl⟩ := Table.mem_update.mp ha
    split_ifs at hid ⊢
    · cases hd.records b hb k hk hid with
      | pending h₁ h₂ h₃ h₄ h₅ h₆ => exact .pending h₁ h₂ h₃ h₄ h₅ h₆
      | settled o hseen hcarries h₁ h₂ h₃ =>
        exact .settled o hseen ⟨hcarries.1, hcarries.2, hcarries.3⟩ h₁ h₂ h₃
    · exact hd.records b hb k hk hid
  | claim _ _ _ hclaimed => exact records_claim hs hd hclaimed a ha k hk hid
  | serve hm hserve =>
    refine (hd.records a ha k hk hid).mono fun key o hseen => ?_
    exact hpsp.seen_mono rfl hserve hseen
  | finalize hw hr hfinal _ => exact records_finalize hs hd hw hr hfinal a ha k hk hid
  | move _ happly =>
    obtain ⟨rfl, -⟩ := InvoiceService.apply_eq_ok happly
    exact hd.records a ha k hk hid
  | _ => exact hd.records a ha k hk hid

/-- A definite result is on its attempt after the finalization, whoever recorded it first. -/
theorem carries_of_finalize (hs : Sound env s) (hd : Settled s) {w : WorkerId} {W : Worker}
    {job : Job} {o : ChargeOutcome} {fresh : Fresh} {db : Db} {answered : PayOutcome}
    (hw : s.workers w = some W) (hr : W.result = some (job, o.toResult))
    (hfinal : PaymentService.Finalized s.db s.now fresh job o.toResult db answered) :
    ∃ a ∈ db.paymentAttempts, Job.ofAttempt a = job ∧ Carries a o := by
  obtain ⟨b, hb, rfl⟩ := Sound.exists_attempt_of_job (hs.result_job hw hr)
  rw [hfinal.attempts]
  rcases hd.attempt hs hb with ⟨hpending, href, hcode⟩ | ⟨o', hseen, hcarries⟩
  · refine ⟨_, Table.mem_update_of_pos hb ?_, PaymentService.ofAttempt_settle _ _ _,
      carries_settle href hcode o⟩
    simp [PaymentService.isPending, hpending, Job.ofAttempt]
  · refine ⟨b, Table.mem_update_of_not hb ?_, rfl, ?_⟩
    · simp [PaymentService.isPending, hcarries.ne_pending]
    · rcases hd.results w W _ _ hw hr with ⟨reason, hunknown⟩ | ⟨o₂, hseen₂, ho⟩
      · exact absurd hunknown (o.toResult_ne_unknown reason)
      · rw [ChargeOutcome.toResult_injective ho]
        have hsame : o' = o₂ := Option.some.inj (hseen.symm.trans hseen₂)
        rw [← hsame]
        exact hcarries

theorem paid_step (hs : Sound env s) (hd : Settled s) (he : Effect env s l s') :
    ∀ i ∈ s'.db.invoices, i.state = .paid →
      ∃ a ∈ s'.db.paymentAttempts, a.invoiceId = i.id ∧ a.status = .succeeded := by
  intro i' hi' hpaid
  have hold : ∀ i ∈ s.db.invoices, i.state = .paid →
      ∃ a ∈ s'.db.paymentAttempts, a.invoiceId = i.id ∧ a.status = .succeeded := by
    intro i hi hpaid
    obtain ⟨a, ha, hinv, hst⟩ := hd.paid i hi hpaid
    have hsettled : a.status ≠ .pending := by
      rw [hst]
      exact PaymentStatus.noConfusion
    obtain ⟨a', ha', hjob, hst', -, -⟩ := he.settled_mono ha hsettled
    exact ⟨a', ha', (congrArg Job.invoiceId hjob).trans hinv, hst'.trans hst⟩
  cases he with
  | create hcreated =>
    simp only [State.setDb, hcreated.invoices, List.mem_append, List.mem_singleton] at hi'
    rcases hi' with hi' | rfl
    · exact hold i' hi' hpaid
    · rw [hcreated.draft] at hpaid
      cases hpaid
  | claim _ _ _ hclaimed =>
    refine hold i' ?_ hpaid
    rw [State.setWorker, State.setDb, hclaimed.post] at hi'
    exact hi'
  | @finalize w fresh W W' job r db o hw hr hfinal _ =>
    simp only [State.setWorker, State.setDb, hfinal.invoices] at hi'
    split_ifs at hi' with hevent
    · obtain ⟨i, hi, rfl⟩ := Table.mem_update.mp hi'
      split_ifs at hpaid ⊢ with hopen
      · cases r with
        | succeeded pspRef =>
          obtain ⟨a, ha, hjob, hcarries⟩ : ∃ a ∈ db.paymentAttempts, Job.ofAttempt a = job ∧
              Carries a (.succeeded pspRef) := carries_of_finalize hs hd hw hr hfinal
          refine ⟨a, ha, ?_, hcarries.status⟩
          simp only [PaymentService.isOpen, Bool.and_eq_true, decide_eq_true_eq] at hopen
          exact (congrArg Job.invoiceId hjob).trans hopen.1.symm
        | declined _ => cases hevent
        | unknown _ => cases hevent
      · exact hold i hi hpaid
    · exact hold i' hi' hpaid
  | @move w fresh call current db inv hw happly =>
    obtain ⟨rfl, -⟩ := InvoiceService.apply_eq_ok happly
    obtain ⟨i, hi, rfl⟩ := Table.mem_update.mp hi'
    split_ifs at hpaid ⊢ with hin
    · have htarget : call.action.target = .paid := hpaid
      cases hact : call.action <;> rw [hact] at htarget <;> cases htarget
    · exact hold i hi hpaid
  | _ => exact hold i' hi' hpaid

theorem Answered.mono (hpsp : env.psp.IsDefinite) (he : Effect env s l s') {call : PayCall}
    {o : PayOutcome} (h : Answered s call o) : Answered s' call o := by
  obtain ⟨a, ha, hb, hkey, outcome, hseen, hcarries, hanswer⟩ := h
  obtain ⟨a', ha', hjob, hst, href, hcode⟩ := he.settled_mono ha hcarries.ne_pending
  have hkey' : a'.idempotencyKey = a.idempotencyKey := congrArg Job.idempotencyKey hjob
  refine ⟨a', ha', (congrArg Job.businessId hjob).trans hb, hkey'.trans hkey, outcome, ?_, ?_, ?_⟩
  · rw [hkey']
    exact seen_step hpsp he hseen
  · constructor
    · rw [hjob, hst]
      exact hcarries.status
    · rw [hjob, href]
      exact hcarries.pspRef
    · rw [hjob, hcode]
      exact hcarries.failureCode
  · rw [hjob]
    exact hanswer

/-- A replay answers `202` while the attempt is pending, and with what `finalize` answered once
it carries an outcome. -/
theorem replay_eq_ok (hs : Sound env s) (hd : Settled s) {businessId invoiceId : Uuid}
    {key : String} {fp : List UInt8} {o : PayOutcome}
    (h : PaymentService.replay s.db businessId key fp invoiceId = .ok o) :
    ∃ a ∈ s.db.paymentAttempts, a.businessId = businessId ∧ a.idempotencyKey = key ∧
      ((a.status = .pending ∧ o.1 = .accepted) ∨
        ∃ outcome, s.psp.seen a.idempotencyKey = some outcome ∧ Carries a outcome ∧
          o = answer (Job.ofAttempt a) outcome.toResult) := by
  unfold PaymentService.replay at h
  split at h
  · cases h
  rename_i k hfind
  have hk := List.mem_of_find?_eq_some hfind
  have hkey := List.find?_some hfind
  obtain ⟨a, ha, hid, -⟩ := hs.exists_attempt hk
  have hkey' := (hs.isKey_iff ha hk).mpr hid
  simp only [PaymentService.isKey, Bool.and_eq_true, decide_eq_true_eq] at hkey hkey'
  refine ⟨a, ha, hkey'.1.symm.trans hkey.1, hkey'.2.symm.trans hkey.2, ?_⟩
  unfold PaymentService.replayRow at h
  split_ifs at h
  cases hd.records a ha k hk hid with
  | pending hstatus _ _ hprogress _ _ =>
    simp only [hprogress, Except.ok.injEq] at h
    exact .inl ⟨hstatus, by rw [← h]⟩
  | settled outcome hseen hcarries hcompleted hresponse hbody =>
    simp only [hcompleted, hresponse, hbody, Option.bind_some,
      PaymentAttemptResponse.fromJson_toJson, Except.ok.injEq] at h
    refine .inr ⟨outcome, hseen, hcarries, ?_⟩
    rw [← h]
    cases outcome <;> rfl

theorem answers_step (hpsp : env.psp.IsDefinite) (hs : Sound env s) (hd : Settled s)
    (he : Effect env s l s') :
    ∀ w W call o, s'.workers w = some W → W.outcome = some (call, o) → o.1 ≠ .accepted →
      Answered s' call o := by
  intro w W call o hw ho hfinalAnswer
  rcases he.outcome hw ho with ⟨W₀, hW₀, hold⟩ | ⟨amount, hW₀, -, hreplay⟩ |
    ⟨W₀, job, r, fresh, hW₀, hr, hcharging, hfinal⟩
  · exact (hd.answers w W₀ call o hW₀ hold hfinalAnswer).mono hpsp he
  · obtain ⟨a, ha, hb, hkey, ⟨-, haccepted⟩ | ⟨outcome, hseen, hcarries, hanswer⟩⟩ :=
      replay_eq_ok hs hd hreplay
    · exact absurd haccepted hfinalAnswer
    · have hanswered : Answered s call o :=
        ⟨a, ha, hb, hkey, outcome, hseen, hcarries, hanswer⟩
      exact hanswered.mono hpsp he
  · have hof := hs.charging w W₀ call job hW₀ hcharging
    rcases hd.results w W₀ job r hW₀ hr with ⟨reason, rfl⟩ | ⟨outcome, hseen, rfl⟩
    · rw [hfinal.answered] at hfinalAnswer
      exact absurd rfl hfinalAnswer
    · obtain ⟨a, ha, rfl, hcarries⟩ := carries_of_finalize hs hd hW₀ hr hfinal
      exact ⟨a, ha, hof.businessId, hof.idempotencyKey, outcome, seen_step hpsp he hseen, hcarries,
        hfinal.answered⟩

/-! ## Every reachable state -/

theorem Settled.step (hpsp : env.psp.IsDefinite) (hs : Sound env s) (hd : Settled s)
    (he : Effect env s l s') : Settled s' :=
  { psp := oncePerKey_step hpsp hd he
    charged := charged_step hpsp hs hd he
    results := results_step hpsp hs hd he
    records := records_step hpsp hs hd he
    paid := paid_step hs hd he
    answers := answers_step hpsp hs hd he }

theorem settled_initial (h : Initial s) : Settled s := by
  constructor
  · rw [h.psp]
    exact PspState.oncePerKey_empty
  · simp [h.psp]
  · exact fun w W _ _ hw => (h.no_worker hw).elim
  · simp [h.attempts]
  · simp [h.invoices]
  · exact fun w W _ _ hw => (h.no_worker hw).elim

theorem settled_of_reachable (hpsp : env.psp.IsDefinite) (h : (system env).Reachable s) :
    Settled s := by
  refine TransitionSystem.invariant_of_reachable (fun _ => settled_initial) ?_ h
  intro s l t hs hd hstep
  exact hd.step hpsp (sound_of_reachable hs) (step_effect hstep)

/-! ## A second card -/

/-- The result a worker is about to finalize finds its attempt pending and its invoice open. -/
def finalizesPending (x : Step DefiniteChoice) : Bool :=
  match x.label with
  | .work w _ => (x.pre.workers w).all fun W => W.result.all fun p =>
      x.pre.db.paymentAttempts.any (isPending p.1.attemptId) &&
        x.pre.db.invoices.any (isOpen p.1.invoiceId)
  | _ => true

/-- Both cards' results do. -/
theorem finalizes_secondCardRun {x : Step DefiniteChoice}
    (hx : x ∈ (definiteSystem shopSha256).steps shop secondCardRun) {w : WorkerId} {fresh : Fresh}
    {W : Worker} {job : Job} {r : PspResult} (hl : x.label = .work w fresh)
    (hw : x.pre.workers w = some W) (hr : W.result = some (job, r)) :
    (∃ a ∈ x.pre.db.paymentAttempts, isPending job.attemptId a = true) ∧
      ∃ i ∈ x.pre.db.invoices, isOpen job.invoiceId i = true := by
  have hall : ((definiteSystem shopSha256).steps shop secondCardRun).all finalizesPending =
      true := by decide +kernel
  have hcheck := List.all_eq_true.mp hall x hx
  simp only [finalizesPending, hl, hw, hr, Option.all_some, Bool.and_eq_true,
    List.any_eq_true] at hcheck
  exact hcheck

end InvoicePayment.Payments
