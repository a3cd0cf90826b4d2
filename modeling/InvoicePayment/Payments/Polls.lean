import InvoicePayment.Lib.TwoReads
import InvoicePayment.Payments.InFlightReplays
import InvoicePayment.Payments.Lifecycle

/-!
# Polls

A poll reads the attempt and then, by another query, the state of its invoice. Neither the status
of an attempt nor the state of an invoice ever goes back (`status_climbs`, `state_climbs`), so
`poll_one_instant_iff` says exactly when the two values of an answer held together: unless the
attempt is finalized between the two queries and the invoice moves with it or after it.
-/

namespace InvoicePayment.Payments

open TransitionSystem (Undisturbed)

variable {δ : Type} {env : Env δ} {s s' t : State} {l : Label δ}

/-- The second query of a poll, for an attempt the first one has returned. -/
def answerPoll (db : Db) (invoiceId : Uuid) (attempt : PaymentAttempt) :
    Except AppError PaymentAttemptResponse :=
  match db.invoices.find? fun i => i.id = invoiceId with
  | none => .error SqlError.rowNotFound.toAppError
  | some invoice =>
    .ok
      { attemptId := attempt.id
        invoiceId := attempt.invoiceId
        status := attempt.status
        amountCents := attempt.amountCents
        invoiceState := invoice.state.asStr
        pspRef := attempt.pspRef
        failureCode := attempt.failureCode
        message := none
        pollUrl := none }

/-- A poll that is not interrupted. -/
theorem getAttempt_eq_answerPoll (db : Db) (businessId invoiceId attemptId : Uuid) :
    PaymentService.getAttempt db businessId invoiceId attemptId =
      match db.paymentAttempts.find?
        (PaymentService.isAttempt businessId invoiceId attemptId) with
      | none => .error (.notFound "payment attempt not found")
      | some attempt => answerPoll db invoiceId attempt := rfl

/-- The status and the invoice state of the answer are both there. -/
def HeldTogether (u : State) (resp : PaymentAttemptResponse) : Prop :=
  (∃ a ∈ u.db.paymentAttempts, a.id = resp.attemptId ∧ a.status = resp.status) ∧
    ∃ i ∈ u.db.invoices, i.id = resp.invoiceId ∧ i.state.asStr = resp.invoiceState

instance (u : State) (resp : PaymentAttemptResponse) : Decidable (HeldTogether u resp) :=
  inferInstanceAs (Decidable (_ ∧ _))

/-! ## What a poll reads never goes back -/

/-- The committed row of an attempt. -/
def attemptOf (s : State) (id : Uuid) : Option PaymentAttempt :=
  s.db.paymentAttempts.find? fun a => a.id = id

def statusOf (id : Uuid) (s : State) : Option PaymentStatus :=
  (attemptOf s id).map PaymentAttempt.status

def stateOf (id : Uuid) (s : State) : Option InvoiceState := (rowOf s id).map Invoice.state

/-- How far an attempt has come. -/
def statusRank : Option PaymentStatus → ℕ
  | none => 0
  | some .pending => 1
  | some _ => 2

def stateRank : Option InvoiceState → ℕ
  | none => 0
  | some st => rank st + 1

/-- An `UPDATE` that keeps the statuses keeps the status of every attempt. -/
theorem statusOf_update {f : PaymentAttempt → PaymentAttempt} {p : PaymentAttempt → Bool}
    (hid : ∀ a, (f a).id = a.id) (hstatus : ∀ a, p a = true → (f a).status = a.status) (id : Uuid)
    (t : List PaymentAttempt) :
    ((Table.update p f t).find? fun a => a.id = id).map PaymentAttempt.status =
      (t.find? fun a => a.id = id).map PaymentAttempt.status := by
  have hsame : ∀ a : PaymentAttempt, decide ((f a).id = id) = decide (a.id = id) := by
    intro a
    rw [hid]
  rw [Table.find?_update hsame, Option.map_map]
  refine Option.map_congr fun a _ => ?_
  show (if p a then f a else a).status = a.status
  split
  · exact hstatus a ‹_›
  · rfl

theorem id_settle (now : Timestamp) (r : PspResult) (a : PaymentAttempt) :
    (PaymentService.settle now r a).id = a.id :=
  congrArg Job.attemptId (PaymentService.ofAttempt_settle now r a)

/-- A step leaves the status of an attempt alone, creates the attempt, or finalizes it. -/
theorem Effect.status (he : Effect env s l s') (id : Uuid) :
    statusOf id s' = statusOf id s ∨ statusRank (statusOf id s) < statusRank (statusOf id s') := by
  cases he with
  | create hcreated =>
    left
    rw [statusOf, attemptOf, State.setDb, hcreated.attempts]
    rfl
  | lease _ _ =>
    refine .inl (statusOf_update (f := fun a => { a with nextPollAt := some (s.now + seconds 30) })
      (fun _ => rfl) (fun _ _ => rfl) id _)
  | @claim _ _ _ _ _ db job _ _ _ hclaimed =>
    have hpost : (db.paymentAttempts.find? fun a => a.id = id) =
        (attemptOf s id).or (List.find? (fun a => a.id = id) [PaymentService.newAttempt job]) := by
      rw [hclaimed.post, List.find?_append]
      rfl
    show (db.paymentAttempts.find? fun a => a.id = id).map PaymentAttempt.status = statusOf id s ∨
      statusRank (statusOf id s) < statusRank
        ((db.paymentAttempts.find? fun a => a.id = id).map PaymentAttempt.status)
    rw [hpost, statusOf]
    cases attemptOf s id with
    | some a => exact .inl rfl
    | none =>
      rw [Option.none_or]
      by_cases hid : (PaymentService.newAttempt job).id = id
      · have hnew : List.find? (fun a => a.id = id) [PaymentService.newAttempt job] =
            some (PaymentService.newAttempt job) := List.find?_cons_of_pos (decide_eq_true hid)
        rw [hnew]
        exact .inr Nat.zero_lt_one
      · rw [List.find?_cons_of_neg (by simpa using hid)]
        exact .inl rfl
  | @finalize _ _ _ _ job result db _ _ _ hfinal _ =>
    have hsame : ∀ a : PaymentAttempt,
        decide ((PaymentService.settle s.now result a).id = id) = decide (a.id = id) := by
      intro a
      rw [id_settle]
    show (db.paymentAttempts.find? fun a => a.id = id).map PaymentAttempt.status = statusOf id s ∨
      statusRank (statusOf id s) < statusRank
        ((db.paymentAttempts.find? fun a => a.id = id).map PaymentAttempt.status)
    rw [hfinal.attempts, Table.find?_update hsame, statusOf, attemptOf]
    cases hfind : s.db.paymentAttempts.find? fun a => a.id = id with
    | none => exact .inl rfl
    | some a =>
      simp only [Option.map_some]
      split_ifs with hp
      · simp only [PaymentService.isPending, Bool.and_eq_true, decide_eq_true_eq] at hp
        cases result with
        | unknown reason => exact .inl rfl
        | succeeded pspRef =>
          rw [hp.2]
          exact .inr Nat.one_lt_two
        | declined code =>
          rw [hp.2]
          exact .inr Nat.one_lt_two
      · exact .inl rfl
  | move _ happly =>
    obtain ⟨rfl, -⟩ := InvoiceService.apply_eq_ok happly
    exact .inl rfl
  | _ => exact .inl rfl

theorem status_climbs (id : Uuid) : (system env).Climbs (statusOf id) statusRank :=
  fun _ _ _ _ hstep => (step_effect hstep).status id

theorem state_climbs (id : Uuid) : (system env).Climbs (stateOf id) stateRank := by
  intro s l t hs hstep
  rcases (step_effect hstep).row (sound_of_reachable hs) id with
    hsame | ⟨i, i', hi, hi', hadvance⟩ | ⟨hnone, i', hi', -⟩
  · exact .inl (congrArg (Option.map Invoice.state) hsame)
  · right
    rw [stateOf, stateOf, hi, hi']
    exact Nat.succ_lt_succ (rank_lt_of_canTransitionTo hadvance.legal)
  · right
    rw [stateOf, stateOf, hnone, hi']
    exact Nat.succ_pos _

/-! ## When the answer held -/

/-- Between the two queries the attempt is not finalized, or the invoice does not move with the
finalization or after it. -/
def UndisturbedPoll (attemptId invoiceId : Uuid) (xs : List (Step δ)) : Prop :=
  Undisturbed (statusOf attemptId) (stateOf invoiceId) xs

theorem Sound.statusOf_eq_some (hs : Sound env s) {id : Uuid} {st : PaymentStatus} :
    statusOf id s = some st ↔ ∃ a ∈ s.db.paymentAttempts, a.id = id ∧ a.status = st := by
  constructor
  · intro h
    obtain ⟨a, ha, rfl⟩ := Option.map_eq_some_iff.mp h
    exact ⟨a, List.mem_of_find?_eq_some ha, by simpa using List.find?_some ha, rfl⟩
  · rintro ⟨a, ha, rfl, rfl⟩
    cases hfind : attemptOf s a.id with
    | none =>
      have hnone := List.find?_eq_none.mp hfind a ha
      simp at hnone
    | some b =>
      have hid : b.id = a.id := by simpa using List.find?_some hfind
      rw [statusOf, hfind, hs.attempt_eq (List.mem_of_find?_eq_some hfind) ha hid]
      rfl

theorem Sound.stateOf_eq_some (hs : Sound env s) {id : Uuid} {st : InvoiceState} :
    stateOf id s = some st ↔ ∃ i ∈ s.db.invoices, i.id = id ∧ i.state = st := by
  constructor
  · intro h
    obtain ⟨i, hi, rfl⟩ := Option.map_eq_some_iff.mp h
    obtain ⟨hmem, hid⟩ := rowOf_eq_some hi
    exact ⟨i, hmem, hid, rfl⟩
  · rintro ⟨i, hi, rfl, rfl⟩
    rw [stateOf, hs.rowOf_of_mem hi]
    rfl

/-- The status and the invoice state a poll answers held together at some moment of the run if
and only if the steps between its two queries do not disturb it. -/
theorem poll_one_instant_iff {s₀ t₁ : State} {before mid after : List (Label δ)}
    (h₀ : (system env).Reachable s₀) (hbefore : (system env).run s₀ before = some s)
    (hmid : (system env).run s mid = some t) (hafter : (system env).run t after = some t₁)
    {businessId invoiceId attemptId : Uuid} {attempt : PaymentAttempt}
    (hread : s.db.paymentAttempts.find?
      (PaymentService.isAttempt businessId invoiceId attemptId) = some attempt)
    {resp : PaymentAttemptResponse} (hanswer : answerPoll t.db invoiceId attempt = .ok resp) :
    (∃ u ∈ (system env).states s₀ (before ++ (mid ++ after)), HeldTogether u resp) ↔
      UndisturbedPoll attemptId invoiceId ((system env).steps s mid) := by
  have hs := h₀.run hbefore
  have ht := hs.run hmid
  have hattempt := List.find?_some hread
  simp only [PaymentService.isAttempt, Bool.and_eq_true, decide_eq_true_eq] at hattempt
  obtain ⟨⟨hid, hinv⟩, -⟩ := hattempt
  -- what the two queries have read
  obtain ⟨i, hi, hresp⟩ : ∃ i, rowOf t invoiceId = some i ∧ resp.attemptId = attemptId ∧
      resp.invoiceId = invoiceId ∧ resp.status = attempt.status ∧
      resp.invoiceState = i.state.asStr := by
    unfold answerPoll at hanswer
    split at hanswer
    · cases hanswer
    · rename_i i hi
      obtain rfl := Except.ok.inj hanswer
      exact ⟨i, hi, hid, hinv, rfl, rfl⟩
  obtain ⟨hrattempt, hrinvoice, hrstatus, hrstate⟩ := hresp
  have hstatus : statusOf attemptId s = some attempt.status :=
    (sound_of_reachable hs).statusOf_eq_some.mpr
      ⟨attempt, List.mem_of_find?_eq_some hread, hid, rfl⟩
  have hstate : stateOf invoiceId t = some i.state := congrArg (Option.map Invoice.state) hi
  have hheld : ∀ u, (system env).Reachable u → (HeldTogether u resp ↔
      statusOf attemptId u = statusOf attemptId s ∧ stateOf invoiceId u = stateOf invoiceId t) := by
    intro u hu
    rw [hstatus, hstate, (sound_of_reachable hu).statusOf_eq_some,
      (sound_of_reachable hu).stateOf_eq_some, HeldTogether, hrattempt, hrinvoice, hrstatus, hrstate]
    refine and_congr Iff.rfl ⟨?_, ?_⟩
    · rintro ⟨j, hj, hjid, hjst⟩
      exact ⟨j, hj, hjid, InvoiceState.asStr_injective hjst⟩
    · rintro ⟨j, hj, hjid, hjst⟩
      exact ⟨j, hj, hjid, congrArg InvoiceState.asStr hjst⟩
  rw [UndisturbedPoll, ← TransitionSystem.two_reads_iff (status_climbs attemptId)
    (state_climbs invoiceId) h₀ hbefore hmid hafter]
  refine exists_congr fun u => and_congr_right fun hu => ?_
  exact hheld u (TransitionSystem.reachable_of_mem_states h₀ hu)

/-! ## A poll around a finalization -/

/-- After the first query of a poll has found the attempt pending: the payment is finalized. -/
def payingRun : List (Label DefiniteChoice) :=
  [.work 1 (shopFresh 0), .serve 0 ⟨some (.succeeded "psp_1"), none⟩, .work 1 (shopFresh 30)]

/-- Or the card is declined. -/
def decliningRun : List (Label DefiniteChoice) :=
  [.work 1 (shopFresh 0), .serve 0 ⟨some (.failed "card_declined"), none⟩, .work 1 (shopFresh 30)]

/-- What a poll answers that reads the attempt after `before` and the invoice after `mid`. -/
def pollAnswer (before mid : List (Label DefiniteChoice)) :
    Option (PaymentAttempt × PaymentAttemptResponse) := do
  let s ← (definiteSystem shopSha256).run shop before
  let attempt ← s.db.paymentAttempts.find?
    (PaymentService.isAttempt (shopId 2) (shopId 10) (shopId 21))
  let t ← (definiteSystem shopSha256).run s mid
  let resp ← (answerPoll t.db (shopId 10) attempt).toOption
  return (attempt, resp)

theorem poll_one_instant_iff_declined :
    ∃ s t attempt resp, (definiteSystem shopSha256).run shop begunRun = some s ∧
      (definiteSystem shopSha256).run s decliningRun = some t ∧
      answerPoll t.db (shopId 10) attempt = .ok resp ∧
      ((∃ u ∈ (definiteSystem shopSha256).states shop (begunRun ++ (decliningRun ++ [])),
        HeldTogether u resp) ↔
        UndisturbedPoll (shopId 21) (shopId 10) ((definiteSystem shopSha256).steps s decliningRun))
        := by
  have hanswer : (pollAnswer begunRun decliningRun).isSome = true := by decide +kernel
  obtain ⟨⟨attempt, resp⟩, hp⟩ := Option.isSome_iff_exists.mp hanswer
  simp only [pollAnswer, Option.bind_eq_bind, Option.bind_eq_some_iff] at hp
  obtain ⟨s, hs, a, ha, t, ht, r, hr, heq⟩ := hp
  obtain ⟨rfl, rfl⟩ := Prod.mk.inj (Option.some.inj heq)
  have hok : answerPoll t.db (shopId 10) a = .ok r := by
    cases hpoll : answerPoll t.db (shopId 10) a with
    | error e => rw [hpoll] at hr; cases hr
    | ok r' => rw [hpoll] at hr; exact congrArg Except.ok (Option.some.inj hr)
  exact ⟨s, t, a, r, hs, ht, hok,
    poll_one_instant_iff (.of_initial shop_initial) hs ht rfl ha hok⟩

/-- The poll reports a pending attempt and a paid invoice, which were never there together. -/
theorem poll_torn :
    ∃ attempt resp, pollAnswer begunRun payingRun = some (attempt, resp) ∧
      resp.status = .pending ∧ resp.invoiceState = "paid" ∧
      ∀ u ∈ (definiteSystem shopSha256).states shop (begunRun ++ payingRun),
        ¬ HeldTogether u resp := by
  have hanswer : (pollAnswer begunRun payingRun).any (fun p =>
      decide (p.2.status = .pending) && decide (p.2.invoiceState = "paid") &&
        ((definiteSystem shopSha256).states shop (begunRun ++ payingRun)).all
          fun u => !decide (HeldTogether u p.2)) = true := by decide +kernel
  obtain ⟨⟨attempt, resp⟩, hp, hcheck⟩ := (Option.any_eq_true _ _).mp hanswer
  simp only [Bool.and_eq_true, decide_eq_true_eq, List.all_eq_true, Bool.not_eq_true',
    decide_eq_false_iff_not] at hcheck
  exact ⟨attempt, resp, hp, hcheck.1.1, hcheck.1.2, hcheck.2⟩

end InvoicePayment.Payments
