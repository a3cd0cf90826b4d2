import InvoicePayment.Payments.Soundness

/-!
# Replays of payments in flight

A key is in progress as long as its attempt is pending, whatever the PSP answers
(`inStep_of_reachable`). The replay of such a key describes the attempt, but takes the amount and
the state of the invoice from constants; `replay_agrees_iff` says when the poll of the attempt
tells the same.
-/

namespace InvoicePayment.Payments

open PaymentService (completedKey eventType settle)

variable {δ : Type} {env : Env δ} {s s' : State} {l : Label δ}

/-! ## Keys in step with their attempts -/

/-- Every key is in progress exactly while its attempt is pending. -/
def InStep (s : State) : Prop :=
  ∀ a ∈ s.db.paymentAttempts, ∀ k ∈ s.db.idempotencyKeys, k.attemptId = some a.id →
    (k.status = .inProgress ↔ a.status = .pending)

/-- A definite result settles the attempt and completes the key; an unknown one does neither. -/
theorem inStep_finalized {a : PaymentAttempt} {k : IdempotencyKey} {now : Timestamp}
    {r : PspResult} {o : PayOutcome} (h : k.status = .inProgress ↔ a.status = .pending) :
    (if (eventType r).isSome then completedKey o k else k).status = .inProgress ↔
      (if PaymentService.isPending a.id a then settle now r a else a).status = .pending := by
  by_cases hp : PaymentService.isPending a.id a = true
  · rw [if_pos hp]
    cases r with
    | succeeded pspRef => exact iff_of_false KeyStatus.noConfusion PaymentStatus.noConfusion
    | declined code => exact iff_of_false KeyStatus.noConfusion PaymentStatus.noConfusion
    | unknown reason => exact h
  · rw [if_neg hp]
    have hsettled : a.status ≠ .pending := by
      intro hpending
      exact hp (by simp [PaymentService.isPending, hpending])
    cases r with
    | succeeded pspRef => exact iff_of_false KeyStatus.noConfusion hsettled
    | declined code => exact iff_of_false KeyStatus.noConfusion hsettled
    | unknown reason => exact h

theorem inStep_step (hs : Sound env s) (h : InStep s) (he : Effect env s l s') : InStep s' := by
  intro a ha k hk hid
  cases he with
  | create hcreated =>
    simp only [State.setDb, hcreated.attempts, hcreated.keys] at ha hk
    exact h a ha k hk hid
  | lease _ _ =>
    obtain ⟨b, hb, rfl⟩ := Table.mem_update.mp ha
    split_ifs at hid ⊢
    · exact h b hb k hk hid
    · exact h b hb k hk hid
  | claim _ _ _ hclaimed =>
    rcases hs.linked_of_claimed hclaimed ha hk hid with ⟨ha, hk⟩ | ⟨rfl, rfl⟩
    · exact h a ha k hk hid
    · exact iff_of_true rfl rfl
  | finalize hw hr hfinal _ =>
    obtain ⟨b, hb, j, hj, hlink, ⟨rfl, rfl, rfl⟩ | ⟨rfl, rfl⟩⟩ :=
      hs.linked_of_finalized (hs.result_job hw hr) hfinal ha hk hid
    · exact inStep_finalized (h b hb j hj hlink)
    · exact h _ hb _ hj hlink
  | move _ happly =>
    obtain ⟨rfl, -⟩ := InvoiceService.apply_eq_ok happly
    exact h a ha k hk hid
  | _ => exact h a ha k hk hid

theorem inStep_of_reachable (h : (system env).Reachable s) : InStep s := by
  refine TransitionSystem.invariant_of_reachable (P := InStep) ?_ ?_ h
  · intro s₀ h₀ a ha
    rw [h₀.attempts] at ha
    cases ha
  · exact fun t l u ht hstep he => inStep_step (sound_of_reachable ht) hstep (step_effect he)

/-! ## Replay and poll -/

/-- What a replay of the request answers that attempt `a` was made for: the request that names its
invoice `i` and its card token. -/
def replayOf (env : Env δ) (s : State) (a : PaymentAttempt) (i : Invoice) :
    Except AppError PayOutcome :=
  PaymentService.replay s.db a.businessId a.idempotencyKey
    (PaymentService.fingerprint env.sha256 a.invoiceId a.cardToken i.totalCents.cents) a.invoiceId

/-- Two bodies that describe one attempt alike. -/
structure SameAttempt (resp poll : PaymentAttemptResponse) : Prop where
  attemptId : resp.attemptId = poll.attemptId
  invoiceId : resp.invoiceId = poll.invoiceId
  status : resp.status = poll.status
  amountCents : resp.amountCents = poll.amountCents
  invoiceState : resp.invoiceState = poll.invoiceState

/-- The answer is a `202` that tells what the poll of the attempt tells, and names that poll. -/
def AgreesWithPoll (s : State) (a : PaymentAttempt) (answer : Except AppError PayOutcome) : Prop :=
  ∃ resp poll, answer = .ok (.accepted, resp) ∧
    PaymentService.getAttempt s.db a.businessId a.invoiceId a.id = .ok poll ∧
    SameAttempt resp poll ∧ resp.pollUrl = some (PaymentService.pollUrl a.invoiceId a.id)

/-- The poll of an attempt tells its row and the state of its invoice. -/
theorem getAttempt_eq_ok (hs : Sound env s) {a : PaymentAttempt} (ha : a ∈ s.db.paymentAttempts)
    {i : Invoice} (hi : i ∈ s.db.invoices) (hid : i.id = a.invoiceId) :
    PaymentService.getAttempt s.db a.businessId a.invoiceId a.id =
      .ok
        { attemptId := a.id
          invoiceId := a.invoiceId
          status := a.status
          amountCents := a.amountCents
          invoiceState := i.state.asStr
          pspRef := a.pspRef
          failureCode := a.failureCode
          message := none
          pollUrl := none } := by
  have hattempt : s.db.paymentAttempts.find?
      (PaymentService.isAttempt a.businessId a.invoiceId a.id) = some a := by
    refine Table.find?_eq_some_of_unique ha (by simp [PaymentService.isAttempt]) fun b hb hp => ?_
    simp only [PaymentService.isAttempt, Bool.and_eq_true, decide_eq_true_eq] at hp
    exact hs.attempt_eq hb ha hp.1.1
  have hinvoice : (s.db.invoices.find? fun j => j.id = a.invoiceId) = some i := by
    refine Table.find?_eq_some_of_unique hi (decide_eq_true hid) fun j hj hp => ?_
    exact hs.invoice_eq hj hi ((of_decide_eq_true hp).trans hid.symm)
  rw [PaymentService.getAttempt, hattempt]
  dsimp only
  rw [hinvoice]

/-- The replay finds the key of the attempt, and the fingerprints agree. -/
theorem replayOf_eq (hs : Sound env s) {a : PaymentAttempt} (ha : a ∈ s.db.paymentAttempts)
    {k : IdempotencyKey} (hk : k ∈ s.db.idempotencyKeys) (hlink : k.attemptId = some a.id)
    (hprogress : k.status = .inProgress) {i : Invoice} (hi : i ∈ s.db.invoices)
    (hid : i.id = a.invoiceId) :
    replayOf env s a i =
      .ok (.accepted, PaymentService.inFlightResponse a.invoiceId (some a.id)) := by
  obtain ⟨b, hb, hblink, hclaims⟩ := hs.exists_attempt hk
  obtain rfl := hs.attempt_eq hb ha (Option.some.inj (hblink.symm.trans hlink))
  -- the total of the invoice is the amount of the attempt
  have hamount : i.totalCents.cents = b.amountCents := by
    obtain ⟨c, hc, hof⟩ := hs.ledger.billed _ (mem_jobs hb)
    have hci := hs.ledger.bill_eq hc (mem_bills hi) (hof.id.trans hid.symm)
    exact (congrArg Bill.totalCents hci).symm.trans hof.totalCents
  have hfp : k.requestFingerprint =
      PaymentService.fingerprint env.sha256 b.invoiceId b.cardToken i.totalCents.cents := by
    rw [hamount]
    exact hclaims.requestFingerprint
  rw [replayOf, PaymentService.replay, hs.find_key hk ((hs.isKey_iff hb hk).mpr hlink)]
  simp only [PaymentService.replayRow, hprogress, hlink]
  exact if_neg (not_not.mpr hfp)

/-- A key in progress has a pending attempt, and its replay agrees with the poll of that attempt
if and only if the amount is zero and the invoice is open. -/
theorem replay_agrees_iff (h : (system env).Reachable s) {k : IdempotencyKey}
    (hk : k ∈ s.db.idempotencyKeys) (hprogress : k.status = .inProgress) :
    ∃ a ∈ s.db.paymentAttempts, ∃ i ∈ s.db.invoices, k.attemptId = some a.id ∧
      a.businessId = k.businessId ∧ a.idempotencyKey = k.idempotencyKey ∧ a.status = .pending ∧
      i.id = a.invoiceId ∧
      (AgreesWithPoll s a (replayOf env s a i) ↔ a.amountCents = 0 ∧ i.state = .open) := by
  have hs := sound_of_reachable h
  obtain ⟨a, ha, hlink, hclaims⟩ := hs.exists_attempt hk
  obtain ⟨i, hi, hid⟩ := hs.exists_invoice ha
  have hpending : a.status = .pending := (inStep_of_reachable h a ha k hk hlink).mp hprogress
  refine ⟨a, ha, i, hi, hlink, hclaims.businessId.symm, hclaims.idempotencyKey.symm, hpending, hid,
    ?_⟩
  rw [replayOf_eq hs ha hk hlink hprogress hi hid, AgreesWithPoll, getAttempt_eq_ok hs ha hi hid]
  constructor
  · rintro ⟨resp, poll, hresp, hpoll, hsame, -⟩
    obtain rfl := congrArg Prod.snd (Except.ok.inj hresp)
    obtain rfl := Except.ok.inj hpoll
    exact ⟨hsame.amountCents.symm, InvoiceState.asStr_injective hsame.invoiceState.symm⟩
  · rintro ⟨hamount, hopen⟩
    refine ⟨_, _, rfl, rfl, ⟨rfl, rfl, hpending.symm, hamount.symm, ?_⟩, rfl⟩
    rw [hopen]
    rfl

/-! ## A payment in flight -/

/-- Invoice `10` of nothing is opened and its payment begun. -/
def freeRun : List (Label DefiniteChoice) :=
  [.create (shopId 2)
      { customerId := shopId 1
        lineItems := [{ description := "item", quantity := 1, unitAmountCents := 0 }] }
      (shopFresh 10),
   .startAdmin 0 { businessId := shopId 2, id := shopId 10, action := .finalize },
   .work 0 (shopFresh 0), .work 0 (shopFresh 0),
   .startPay 1 (payCall "k1" "tok_success"), .work 1 (shopFresh 0), .work 1 (shopFresh 20)]

theorem replay_agrees_iff_freeRun :
    ∃ s, (definiteSystem shopSha256).run shop freeRun = some s ∧
      ∃ a ∈ s.db.paymentAttempts, ∃ i ∈ s.db.invoices,
        AgreesWithPoll s a (replayOf { sha256 := shopSha256, psp := definitePsp } s a i) := by
  have hrun : ((definiteSystem shopSha256).run shop freeRun).any (fun s =>
      s.db.idempotencyKeys.any (fun k => k.status = .inProgress) &&
        s.db.paymentAttempts.all (fun a => a.amountCents = 0) &&
        s.db.invoices.all fun i => i.state = .open) = true := by decide +kernel
  obtain ⟨s, hs, hcheck⟩ := (Option.any_eq_true _ _).mp hrun
  simp only [Bool.and_eq_true, List.any_eq_true, List.all_eq_true, decide_eq_true_eq] at hcheck
  obtain ⟨⟨⟨k, hk, hprogress⟩, hamount⟩, hopen⟩ := hcheck
  have hreach : (definiteSystem shopSha256).Reachable s :=
    TransitionSystem.Reachable.run (.of_initial shop_initial) hs
  obtain ⟨a, ha, i, hi, -, -, -, -, -, hiff⟩ := replay_agrees_iff hreach hk hprogress
  exact ⟨s, hs, a, ha, i, hi, hiff.mpr ⟨hamount a ha, hopen i hi⟩⟩

/-- The payment of invoice `10` over five dollars is begun. -/
def begunRun : List (Label DefiniteChoice) :=
  openInvoice ++
    [.startPay 1 (payCall "k1" "tok_success"), .work 1 (shopFresh 0), .work 1 (shopFresh 20)]

/-- The replay says zero cents, the poll five hundred. -/
theorem replay_contradicts_poll :
    ∃ s, (definiteSystem shopSha256).run shop begunRun = some s ∧
      ∃ k ∈ s.db.idempotencyKeys, k.status = .inProgress ∧
        ∃ a ∈ s.db.paymentAttempts, k.attemptId = some a.id ∧
          ∃ i ∈ s.db.invoices, i.id = a.invoiceId ∧
            ¬ AgreesWithPoll s a
              (replayOf { sha256 := shopSha256, psp := definitePsp } s a i) := by
  have hrun : ((definiteSystem shopSha256).run shop begunRun).any (fun s =>
      s.db.idempotencyKeys.any (fun k => k.status = .inProgress &&
        s.db.paymentAttempts.any fun a => k.attemptId = some a.id &&
          s.db.invoices.any fun i => i.id = a.invoiceId &&
            decide (((replayOf { sha256 := shopSha256, psp := definitePsp } s a i).toOption.map
              fun o => o.2.amountCents) = some 0) &&
            decide (((PaymentService.getAttempt s.db a.businessId a.invoiceId a.id).toOption.map
              fun o => o.amountCents) = some 500))) = true := by decide +kernel
  obtain ⟨s, hs, hcheck⟩ := (Option.any_eq_true _ _).mp hrun
  simp only [Bool.and_eq_true, List.any_eq_true, decide_eq_true_eq] at hcheck
  obtain ⟨k, hk, hprogress, a, ha, hlink, i, hi, ⟨hid, hzero⟩, hfive⟩ := hcheck
  refine ⟨s, hs, k, hk, hprogress, a, ha, hlink, i, hi, hid, ?_⟩
  rintro ⟨resp, poll, hresp, hpoll, hsame, -⟩
  rw [hresp] at hzero
  rw [hpoll] at hfive
  have hresp₀ : resp.amountCents = 0 := Option.some.inj hzero
  have hpoll₅ : poll.amountCents = 500 := Option.some.inj hfive
  have hamount := hsame.amountCents
  rw [hresp₀, hpoll₅] at hamount
  exact absurd hamount (by decide)

end InvoicePayment.Payments
