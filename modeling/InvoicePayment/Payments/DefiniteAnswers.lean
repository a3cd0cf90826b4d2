import InvoicePayment.Payments.Amounts
import InvoicePayment.Psp.Server

/-!
# Definite answers of the PSP

The mock PSP answers a charge with an outcome, with a `500`, or with a `400` when it does not
know the card token. The client reads an outcome off the wire as it was recorded, and then
transaction 2 settles the attempt and the invoice can be paid again; but it reads the `400` as
an unknown outcome, so the attempt stays pending (`definite_answer_iff`).
-/

namespace InvoicePayment.Payments

open PaymentService (claim readInvoice isKey isPending)

variable {δ : Type} {env : Env δ} {s : State}

/-! ## What the service should read -/

/-- The tokens in the PSP's outcome table. -/
def knownTokens : List String :=
  ["tok_success", "tok_insufficient_funds", "tok_card_declined", "tok_timeout",
    "tok_network_error"]

/-- The result repeats what the PSP has on record, and is a decline if there is nothing. -/
def Reports (recorded : Option ChargeOutcome) (r : PspResult) : Prop :=
  match recorded with
  | some outcome => r = outcome.toResult
  | none => ∃ code, r = .declined code

theorem Reports.ne_unknown {recorded : Option ChargeOutcome} {r : PspResult}
    (h : Reports recorded r) (reason : UnknownReason) : r ≠ .unknown reason := by
  cases recorded with
  | some outcome =>
    obtain rfl : r = outcome.toResult := h
    exact outcome.toResult_ne_unknown reason
  | none =>
    obtain ⟨code, rfl⟩ := h
    exact PspResult.noConfusion

/-! ## A pay call with a fresh key -/

/-- A pay call that fails no check of its own: usable texts, a key the business has not used,
unused ids. -/
structure FreshPay (db : Db) (fresh : Fresh) (businessId : Uuid) (key : String)
    (req : PayRequest) : Prop where
  token : isBlank req.cardToken = false
  tokenText : isPgText req.cardToken = true
  keyText : isPgText key = true
  newKey : ∀ k ∈ db.idempotencyKeys, isKey businessId key k = false
  keyId : ∀ k ∈ db.idempotencyKeys, k.id ≠ fresh.newId 0
  attemptId : ∀ a ∈ db.paymentAttempts, a.id ≠ fresh.newId 1

/-- Transaction 1 commits if no attempt of the invoice is active. -/
theorem exists_claimed {sha256 : List UInt8 → List UInt8} {db : Db} {fresh : Fresh}
    {businessId invoiceId : Uuid} {key : String} {req : PayRequest} {amount : Int64}
    (h : FreshPay db fresh businessId key req) (hamount : 0 ≤ amount.toInt)
    (hactive : ∀ a ∈ db.paymentAttempts, a.isActive = true → a.invoiceId ≠ invoiceId) :
    ∃ db' job, claim sha256 db fresh businessId invoiceId key req .open amount
      = .claimed db' job := by
  have hinsert : ∀ fp, ∃ db₁, PaymentService.insertKey db (fresh.newId 0) businessId key fp
      = .ok (some db₁) ∧ db₁.paymentAttempts = db.paymentAttempts := by
    intro fp
    have hkey : ∀ row : IdempotencyKey, row.businessId = businessId → row.idempotencyKey = key →
        uqIdempotencyBusinessKey.conflicts db.idempotencyKeys row = false := by
      intro row hb hk
      refine Table.UniqueIndex.conflicts_eq_false fun k hmem _ heq => ?_
      simp only [uqIdempotencyBusinessKey, Prod.mk.injEq] at heq
      have hold := h.newKey k hmem
      simp [isKey, heq.1.trans hb, heq.2.trans hk] at hold
    have hid : ∀ row : IdempotencyKey, row.id = fresh.newId 0 →
        (primaryKey IdempotencyKey.id).conflicts db.idempotencyKeys row = false := by
      intro row hrow
      refine Table.UniqueIndex.conflicts_eq_false fun k hmem _ heq => ?_
      exact h.keyId k hmem (heq.trans hrow)
    unfold PaymentService.insertKey
    rw [if_neg (not_not.mpr h.keyText)]
    dsimp only
    rw [hkey _ rfl rfl, hid _ rfl]
    exact ⟨_, rfl, rfl⟩
  obtain ⟨db₁, hdb₁, hattempts⟩ := hinsert
    (PaymentService.fingerprint sha256 invoiceId req.cardToken amount)
  have hattempt : ∀ job : Job, job.attemptId = fresh.newId 1 → job.invoiceId = invoiceId →
      job.cardToken = req.cardToken → job.amountCents = amount →
      ∃ db₂, PaymentService.insertAttempt db₁ job = .ok db₂ := by
    intro job hid hinv htoken hcents
    have hpk : (primaryKey PaymentAttempt.id).conflicts db₁.paymentAttempts
        (PaymentService.newAttempt job) = false := by
      refine Table.UniqueIndex.conflicts_eq_false fun a ha _ heq => ?_
      rw [hattempts] at ha
      exact h.attemptId a ha (heq.trans hid)
    have huq : uqActiveAttemptPerInvoice.conflicts db₁.paymentAttempts
        (PaymentService.newAttempt job) = false := by
      refine Table.UniqueIndex.conflicts_eq_false fun a ha hact heq => ?_
      rw [hattempts] at ha
      exact hactive a ha hact (heq.trans hinv)
    have hcheck : ¬ (¬ isPgText job.cardToken = true ∨ job.amountCents < 0) := by
      rw [htoken, hcents, not_or, not_not]
      refine ⟨h.tokenText, fun hneg => ?_⟩
      have hneg' : amount.toInt < 0 := Int64.lt_iff_toInt_lt.mp hneg
      omega
    unfold PaymentService.insertAttempt
    rw [if_neg hcheck, hpk, huq]
    exact ⟨_, rfl⟩
  unfold claim
  rw [hdb₁]
  simp only [ne_eq, not_true_eq_false, if_false]
  obtain ⟨db₂, hdb₂⟩ := hattempt
    { attemptId := fresh.newId 1, invoiceId, businessId, idempotencyKey := key
      amountCents := amount, cardToken := req.cardToken } rfl rfl rfl rfl
  rw [hdb₂]
  exact ⟨_, _, rfl⟩

/-- The invoice takes a pay call with a fresh key. -/
def Admits (sha256 : List UInt8 → List UInt8) (db : Db) (i : Invoice) : Prop :=
  ∀ fresh key req, FreshPay db fresh i.businessId key req →
    readInvoice db i.businessId i.id req = .ok (i.state, i.totalCents.cents) ∧
    ∃ db' job, claim sha256 db fresh i.businessId i.id key req i.state i.totalCents.cents
      = .claimed db' job

/-- A transaction 2 for this request that gets the result settles its attempt; and if it was
the one to mark the attempt failed, the invoice takes the next pay call while it is open. -/
def Unpins (env : Env δ) (request : ChargeRequest) (r : PspResult) : Prop :=
  ∀ (s : State) (job : Job) (fresh : Fresh) (db : Db) (o : PayOutcome),
    (system env).Reachable s → job ∈ s.db.jobs → job.request = request →
    PaymentService.finalize s.db s.now fresh job r = .ok (db, o) →
    (∀ a ∈ db.paymentAttempts, a.id = job.attemptId → a.status ≠ .pending) ∧
    ((∃ a ∈ s.db.paymentAttempts, isPending job.attemptId a = true) →
      (∃ a ∈ db.paymentAttempts, a.id = job.attemptId ∧ a.status = .failed) →
      ∀ i ∈ db.invoices, i.id = job.invoiceId → i.state = .open → Admits env.sha256 db i)

/-! ## After transaction 2 -/

section Finalize

variable {job : Job} {r : PspResult} {fresh : Fresh} {db : Db} {o : PayOutcome}

/-- A definite result leaves no pending row behind. -/
theorem not_pending_of_finalized
    (hfinal : PaymentService.Finalized s.db s.now fresh job r db o)
    (hdefinite : ∀ reason, r ≠ .unknown reason) :
    ∀ a ∈ db.paymentAttempts, a.id = job.attemptId → a.status ≠ .pending := by
  intro a' ha' hid
  rw [hfinal.attempts] at ha'
  obtain ⟨a, ha, rfl⟩ := Table.mem_update.mp ha'
  split_ifs at hid ⊢ with hpend
  · cases r with
    | succeeded pspRef => exact PaymentStatus.noConfusion
    | declined code => exact PaymentStatus.noConfusion
    | unknown reason => exact absurd rfl (hdefinite reason)
  · intro hpending
    exact hpend (by simp [isPending, hid, hpending])

/-- The attempt was the active one of its invoice: once it has failed there is none. -/
theorem admits_of_finalized (hreach : (system env).Reachable s) (hjob : job ∈ s.db.jobs)
    (hfinal : PaymentService.Finalized s.db s.now fresh job r db o)
    (hpending : ∃ a ∈ s.db.paymentAttempts, isPending job.attemptId a = true)
    (hfailed : ∃ a ∈ db.paymentAttempts, a.id = job.attemptId ∧ a.status = .failed)
    {i : Invoice} (hi : i ∈ db.invoices) (hid : i.id = job.invoiceId) (hopen : i.state = .open) :
    Admits env.sha256 db i := by
  have hs : Sound env s := sound_of_reachable hreach
  have hbills : db.bills = s.db.bills := hfinal.static.2.2
  obtain ⟨a, ha, hpend⟩ := hpending
  obtain rfl := hs.ofAttempt_of_isPending hjob ha hpend
  have hone : ∀ a₀ ∈ s.db.paymentAttempts, a₀.id = a.id → a₀ = a :=
    fun a₀ ha₀ hid₀ => hs.attempt_eq ha₀ ha hid₀
  have hactive : ∀ a' ∈ db.paymentAttempts, a'.isActive = true → a'.invoiceId ≠ i.id := by
    intro a' ha' hact hinv
    rw [hfinal.attempts] at ha' hfailed
    obtain ⟨a₀, ha₀, rfl⟩ := Table.mem_update.mp ha'
    obtain ⟨b', hb', hbid, hbfailed⟩ := hfailed
    obtain ⟨b, hb, rfl⟩ := Table.mem_update.mp hb'
    have hsettle : ∀ b : PaymentAttempt, (PaymentService.settle s.now r b).id = b.id ∧
        (PaymentService.settle s.now r b).invoiceId = b.invoiceId := by
      intro b
      cases r <;> exact ⟨rfl, rfl⟩
    have hba : b = a := by
      refine hone b hb ?_
      split_ifs at hbid
      · exact (hsettle b).1.symm.trans hbid
      · exact hbid
    rw [hba, if_pos hpend] at hbfailed
    by_cases hpend₀ : isPending (Job.ofAttempt a).attemptId a₀ = true
    · have hid₀ := hpend₀
      simp only [isPending, Bool.and_eq_true, decide_eq_true_eq] at hid₀
      obtain rfl := hone a₀ ha₀ hid₀.1
      rw [if_pos hpend₀, PaymentAttempt.isActive, hbfailed] at hact
      cases hact
    · rw [if_neg hpend₀] at hact hinv
      -- two active attempts of one invoice
      have hacta : a.isActive = true := by
        simp only [isPending, Bool.and_eq_true, decide_eq_true_eq] at hpend
        simp [PaymentAttempt.isActive, hpend.2]
      have hsame : a₀ = a := hs.active_eq ha₀ ha hact hacta (hinv.trans hid)
      rw [hsame] at hpend₀
      exact hpend₀ hpend
  have hread : ∀ req : PayRequest, isBlank req.cardToken = false →
      readInvoice db i.businessId i.id req = .ok (i.state, i.totalCents.cents) := by
    intro req htoken
    have hids : (db.invoices.map Invoice.id).Nodup := by
      have h := hs.ledger.invoiceIds
      rw [← hbills, Db.bills, List.map_map] at h
      exact h
    unfold readInvoice
    rw [if_neg (by simp [htoken])]
    cases hfind : db.invoices.find? fun j => j.id = i.id && j.businessId = i.businessId with
    | none =>
      have hnone := List.find?_eq_none.mp hfind i hi
      simp at hnone
    | some j =>
      have hj := List.find?_some hfind
      simp only [Bool.and_eq_true, decide_eq_true_eq] at hj
      obtain rfl := List.inj_on_of_nodup_map hids (List.mem_of_find?_eq_some hfind) hi hj.1
      rfl
  have hamount : 0 ≤ i.totalCents.cents.toInt := by
    have hbill : Bill.ofInvoice i ∈ s.db.bills := hbills ▸ mem_bills hi
    obtain ⟨i₀, hi₀, hsame⟩ := List.mem_map.mp hbill
    have hnonneg := (oneAmount_of_reachable hreach hi₀).nonneg
    have htotal : i₀.totalCents.cents = i.totalCents.cents := congrArg Bill.totalCents hsame
    rw [htotal] at hnonneg
    exact hnonneg
  intro fresh' key req hfresh
  rw [hopen]
  refine ⟨hopen ▸ hread req hfresh.token, ?_⟩
  exact exists_claimed hfresh hamount hactive

end Finalize

/-! ## The answer -/

/-- The table knows five tokens: a success, a decline or a `500`; any other gets the `400`. -/
theorem not_mem_knownTokens {token pspRef : String} {response : HttpResponse}
    (h : MockPsp.effect token pspRef = .error response)
    (hstatus : ¬ (500 ≤ response.status ∧ response.status < 600)) : token ∉ knownTokens := by
  unfold MockPsp.effect at h
  split_ifs at h with h₁ h₂ h₃ h₄ h₅
  · obtain rfl := Except.error.inj h
    exact absurd ⟨Nat.le_refl 500, by decide⟩ hstatus
  · simp [knownTokens, h₁, h₂, h₃, h₄, h₅]

/-- The PSP gives a call an answer that is no `5xx`: the service reads what is on record, and
transaction 2 unpins the invoice, exactly if the call was not turned away for its token. -/
theorem definite_answer_iff (env : Env δ) {psp psp' : PspState} {c c' : MockPsp.Call}
    {a : MockPsp.Action} {response : HttpResponse} {key : String}
    (hact : c.act psp a = some (psp', c')) (hanswer : c'.stage = .answered response)
    (hstatus : ¬ (500 ≤ response.status ∧ response.status < 600))
    (hkey : c.request.idempotencyKey = some key) :
    (Reports (psp'.seen key) (PspClient.classify (.response response)) ∧
      Unpins env c.request (PspClient.classify (.response response))) ↔
    (c.stage = .missed → c.request.cardToken ∈ knownTokens) := by
  have hunpins : ∀ outcome : ChargeOutcome, Unpins env c.request outcome.toResult := by
    intro outcome s job fresh db o hreach hjob _ hfin
    have hfinal := PaymentService.finalize_finalized hfin
    exact ⟨not_pending_of_finalized hfinal outcome.toResult_ne_unknown,
      fun hpending hfailed i hi hid hopen =>
        admits_of_finalized hreach hjob hfinal hpending hfailed hi hid hopen⟩
  have hacted := MockPsp.Call.act_acted hact
  cases hacted with
  | @hit prev hstage hl =>
    obtain rfl := MockPsp.Stage.answered.inj hanswer
    rw [MockPsp.classify_respond]
    rw [lookup_eq hkey] at hl
    refine iff_of_true ⟨?_, hunpins prev⟩ fun hmissed => ?_
    · rw [hl]
      rfl
    · rw [hstage] at hmissed
      cases hmissed
  | miss hstage hl => cases hanswer
  | refused hstage he =>
    obtain rfl := MockPsp.Stage.answered.inj hanswer
    rw [MockPsp.classify_effect_error he]
    refine iff_of_false (fun h => h.1.ne_unknown _ rfl) fun hknown => ?_
    exact not_mem_knownTokens he hstatus (hknown hstage)
  | charged hstage hfresh he => cases hanswer
  | @recorded outcome hstage =>
    obtain rfl := MockPsp.Stage.answered.inj hanswer
    rw [MockPsp.classify_respond]
    refine iff_of_true ⟨?_, hunpins outcome⟩ fun hmissed => ?_
    · rw [MockPsp.seen_insert, if_pos hkey]
      rfl
    · rw [hstage] at hmissed
      cases hmissed
  | dropped hstage => cases hanswer

/-- A handler about to record a decline. -/
def declinedCall : MockPsp.Call :=
  { attemptId := shopId 21
    request := { cardToken := "tok_card_declined", amountCents := 500, idempotencyKey := some "k1" }
    stage := .charged (.failed "card_declined") }

theorem definite_answer_iff_declinedCall :
    (Reports (some (.failed "card_declined"))
        (PspClient.classify (.response (MockPsp.respond (.failed "card_declined")))) ∧
      Unpins { sha256 := shopSha256, psp := mockPsp } declinedCall.request
        (PspClient.classify (.response (MockPsp.respond (.failed "card_declined"))))) ↔
    (declinedCall.stage = .missed → declinedCall.request.cardToken ∈ knownTokens) := by
  have hact : declinedCall.act {} .record =
      some (MockPsp.insert {} declinedCall.request (.failed "card_declined"),
        { declinedCall with
          stage := .answered (MockPsp.respond (.failed "card_declined")) }) := rfl
  exact definite_answer_iff _ hact rfl (by decide) rfl

/-! ## A card token the PSP does not know -/

/-- Worker `1` pays with a token the PSP turns away; worker `2` tries another card. -/
def pinnedRun : List (Label String) :=
  openInvoice ++
    [.startPay 1 (payCall "k1" "tok_typo"), .work 1 (shopFresh 0), .work 1 (shopFresh 20),
     .work 1 (shopFresh 0), .serve 0 "psp_1", .work 1 (shopFresh 30),
     .startPay 2 (payCall "k2" "tok_success"), .work 2 (shopFresh 0), .work 2 (shopFresh 40)]

/-- The attempt is pending after its finalization, and worker `2` is turned away for it. -/
def isPinned (s : State) : Bool :=
  s.db.paymentAttempts.all (fun a => a.status = .pending) &&
    match s.workers 2 with
    | some (.pay _ (.done (.error (.conflict code _)))) => code = "payment_in_progress"
    | _ => false

/-- The PSP answers `400` without a charge, and the client reports an unknown outcome. -/
theorem pinned_by_unknown_token :
    (∃ response, MockPsp.effect "tok_typo" "psp_1" = .error response ∧ response.status = 400 ∧
      ¬ Reports none (PspClient.classify (.response response))) ∧
    ((mockSystem shopSha256).run shop pinnedRun).any isPinned = true := by
  have herror : MockPsp.effect "tok_typo" "psp_1" =
      .error ⟨400, some (.obj [("error", .str "unknown_token"),
        ("message", .str "unknown card token: tok_typo")])⟩ := rfl
  refine ⟨⟨_, herror, rfl, fun h => ?_⟩, by decide +kernel⟩
  exact h.ne_unknown _ (MockPsp.classify_effect_error herror)

end InvoicePayment.Payments
