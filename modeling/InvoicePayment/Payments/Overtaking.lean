import InvoicePayment.Payments.Polls

/-!
# No pending attempt is starved

What one step does to `next_poll_at` (`Effect.polls`): a lease moves it thirty seconds ahead, an
unknown result five, and nothing else touches it. So it is never more than thirty seconds ahead
(`pollsSoon_of_reachable`), and an attempt that has been leased is behind those that were due with
it, whatever becomes of it: nobody is leased twice before one that waits (`fairly_polled`).
-/

namespace InvoicePayment.Payments

variable {δ : Type} {env : Env δ} {s s' : State} {l : Label δ}

/-! ## What a step does to `next_poll_at` -/

theorem lt_add_seconds (t : Timestamp) {n : Int} (h : 0 < n) : t < t + seconds n :=
  Int.lt_add_of_pos_right t (Int.mul_pos h (by decide))

theorem add_seconds_mono (t : Timestamp) {m n : Int} (h : m ≤ n) :
    t + seconds m ≤ t + seconds n :=
  Int.add_le_add_left (Int.mul_le_mul_of_nonneg_right h (by decide)) t

/-- The label lets worker `w` finalize a result for the attempt. -/
def FinalizesAt (s : State) (l : Label δ) (id : Uuid) : Prop :=
  ∃ w fresh W job r, l = .work w fresh ∧ s.workers w = some W ∧ W.result = some (job, r) ∧
    job.attemptId = id

/-- What a step makes of an attempt. -/
inductive PollChange (s : State) (l : Label δ) (a : PaymentAttempt) : PaymentAttempt → Prop
  | same : PollChange s l a a
  | leased {w : WorkerId} {locked ids : List Uuid} (hl : l = .tick w locked ids)
      (hid : a.id ∈ ids) : PollChange s l a { a with nextPollAt := some (s.now + seconds 30) }
  | settled (r : PspResult) (hl : FinalizesAt s l a.id) :
      PollChange s l a (PaymentService.settle s.now r a)

/-- The attempts after a step: the ones before, each changed or not, and new ones nobody has
polled. -/
structure PollStep (s : State) (l : Label δ) (s' : State) : Prop where
  clock : s.now ≤ s'.now
  kept : ∀ a ∈ s.db.paymentAttempts, ∃ a' ∈ s'.db.paymentAttempts, PollChange s l a a'
  origin : ∀ a' ∈ s'.db.paymentAttempts, a'.nextPollAt = none ∨
    ∃ a ∈ s.db.paymentAttempts, PollChange s l a a'

theorem PollStep.of_eq (hnow : s.now ≤ s'.now)
    (h : s'.db.paymentAttempts = s.db.paymentAttempts) : PollStep s l s' where
  clock := hnow
  kept := fun a ha => ⟨a, by rw [h]; exact ha, .same⟩
  origin := fun a ha => .inr ⟨a, by rw [← h]; exact ha, .same⟩

theorem PollStep.of_update {p : PaymentAttempt → Bool} {f : PaymentAttempt → PaymentAttempt}
    (hnow : s'.now = s.now) (h : s'.db.paymentAttempts = Table.update p f s.db.paymentAttempts)
    (hf : ∀ a, p a = true → PollChange s l a (f a)) : PollStep s l s' := by
  have hchange : ∀ a, PollChange s l a (if p a then f a else a) := by
    intro a
    by_cases hp : p a = true
    · rw [if_pos hp]
      exact hf a hp
    · rw [if_neg hp]
      exact .same
  constructor
  · exact hnow.ge
  · intro a ha
    rw [h]
    exact ⟨_, Table.mem_update_of_mem ha, hchange a⟩
  · intro a' ha'
    rw [h] at ha'
    obtain ⟨a, ha, rfl⟩ := Table.mem_update.mp ha'
    exact .inr ⟨a, ha, hchange a⟩

theorem Effect.polls (he : Effect env s l s') : PollStep s l s' := by
  cases he with
  | advance h => exact .of_eq h rfl
  | create hcreated => exact .of_eq (le_refl _) hcreated.attempts
  | lease _ _ =>
    refine .of_update rfl rfl fun a hid => ?_
    exact .leased rfl (List.contains_iff_mem.mp hid)
  | quiet _ _ => exact .of_eq (le_refl _) rfl
  | send _ _ _ => exact .of_eq (le_refl _) rfl
  | @claim w _ call _ _ db job _ _ _ hclaimed =>
    have hpost : db.paymentAttempts =
        s.db.paymentAttempts ++ [PaymentService.newAttempt job] := by
      rw [hclaimed.post]
    constructor
    · exact le_refl _
    · intro a ha
      refine ⟨a, ?_, .same⟩
      show a ∈ db.paymentAttempts
      rw [hpost]
      exact List.mem_append_left _ ha
    · intro a' ha'
      change a' ∈ db.paymentAttempts at ha'
      rw [hpost, List.mem_append] at ha'
      rcases ha' with ha' | ha'
      · exact .inr ⟨a', ha', .same⟩
      · obtain rfl := List.mem_singleton.mp ha'
        exact .inl rfl
  | replay _ => exact .of_eq (le_refl _) rfl
  | serve _ _ => exact .of_eq (le_refl _) rfl
  | @finalize w fresh W _ job r _ _ hw hresult hfinal _ =>
    refine .of_update rfl hfinal.attempts fun a hp => ?_
    simp only [PaymentService.isPending, Bool.and_eq_true, decide_eq_true_eq] at hp
    exact .settled r ⟨w, fresh, W, job, r, rfl, hw, hresult, hp.1.symm⟩
  | move _ h =>
    obtain ⟨rfl, -⟩ := InvoiceService.apply_eq_ok h
    exact .of_eq (le_refl _) rfl

/-- A changed attempt is polled later than now, or as before. -/
theorem PollChange.poll {a a' : PaymentAttempt} (h : PollChange s l a a') :
    a'.id = a.id ∧ (a'.nextPollAt = a.nextPollAt ∨
      ∃ t, a'.nextPollAt = some t ∧ s.now < t ∧ t ≤ s.now + seconds 30) := by
  cases h with
  | same => exact ⟨rfl, .inl rfl⟩
  | leased _ _ =>
    exact ⟨rfl, .inr ⟨_, rfl, lt_add_seconds s.now (by decide), le_refl _⟩⟩
  | settled r _ =>
    refine ⟨id_settle _ _ _, ?_⟩
    cases r with
    | succeeded pspRef => exact .inl rfl
    | declined code => exact .inl rfl
    | unknown reason =>
      exact .inr ⟨_, rfl, lt_add_seconds s.now (by decide), add_seconds_mono s.now (by decide)⟩

/-! ## Never more than thirty seconds ahead -/

def PollsSoon (s : State) : Prop :=
  ∀ a ∈ s.db.paymentAttempts, ∀ t, a.nextPollAt = some t → t ≤ s.now + seconds 30

theorem pollsSoon_of_reachable (h : (system env).Reachable s) : PollsSoon s := by
  refine TransitionSystem.invariant_of_reachable ?_ ?_ h
  · intro s hinitial a ha
    rw [hinitial.attempts] at ha
    cases ha
  · intro s l s' _ hs hstep a' ha' t ht
    have hpolls := (step_effect hstep).polls
    have hclock := hpolls.clock
    rcases hpolls.origin a' ha' with hnone | ⟨a, ha, hchange⟩
    · rw [hnone] at ht
      cases ht
    · rcases hchange.poll.2 with hsame | ⟨t', ht', -, hle⟩
      · rw [hsame] at ht
        exact (hs a ha t ht).trans (Int.add_le_add_right hclock _)
      · rw [ht'] at ht
        obtain rfl := Option.some.inj ht
        exact hle.trans (Int.add_le_add_right hclock _)

/-! ## Who is behind whom -/

/-- The step leases the attempt. -/
def Leases (id : Uuid) (x : Step δ) : Prop :=
  ∃ w locked ids, x.label = .tick w locked ids ∧ id ∈ ids

/-- The step finalizes a result for the attempt, whether or not the transaction commits. -/
def Finalizes (id : Uuid) (x : Step δ) : Prop := FinalizesAt x.pre x.label id

/-- The lease of the step skips the row because a transaction holds it. Leases being atomic, that
is a finalization. -/
def Skips (id : Uuid) (x : Step δ) : Prop :=
  ∃ w locked ids, x.label = .tick w locked ids ∧ id ∈ locked

/-- What a lease has checked and done. -/
theorem step_tick {w : WorkerId} {locked ids : List Uuid}
    (h : step env s (.tick w locked ids) = some s') :
    Reconciler.isBatch s.db s.now locked ids = true ∧ s'.now = s.now ∧
      s'.db = (Reconciler.lease s.db s.now ids).1 := by
  simp only [step] at h
  split at h
  · rename_i hbatch
    unfold startStep at h
    split at h
    · cases h
    · obtain rfl := Option.some.inj h
      exact ⟨hbatch, rfl, rfl⟩
  · cases h

/-- The attempt has been leased since `t₀`: it is polled later than that. -/
def Behind (id : Uuid) (t₀ : Timestamp) (s : State) : Prop :=
  t₀ ≤ s.now ∧ ∃ a ∈ s.db.paymentAttempts, a.id = id ∧ ∃ t, a.nextPollAt = some t ∧ t₀ < t

theorem behind_step {id : Uuid} {t₀ : Timestamp} (hs : Behind id t₀ s)
    (h : step env s l = some s') : Behind id t₀ s' := by
  obtain ⟨hnow, a, ha, hid, t, ht, hlt⟩ := hs
  have hpolls := (step_effect h).polls
  obtain ⟨a', ha', hchange⟩ := hpolls.kept a ha
  refine ⟨hnow.trans hpolls.clock, a', ha', hchange.poll.1.trans hid, ?_⟩
  rcases hchange.poll.2 with hsame | ⟨t', ht', hlater, -⟩
  · exact ⟨t, hsame.trans ht, hlt⟩
  · exact ⟨t', ht', lt_of_le_of_lt hnow hlater⟩

theorem behind_of_leased {w : WorkerId} {locked ids : List Uuid} {id : Uuid}
    (h : step env s (.tick w locked ids) = some s') (hid : id ∈ ids) : Behind id s.now s' := by
  obtain ⟨hbatch, hnow, hdb⟩ := step_tick h
  obtain ⟨a, ha, rfl, -⟩ := (Reconciler.isDue_of_isBatch hbatch).2 id hid
  refine ⟨hnow.ge, { a with nextPollAt := some (s.now + seconds 30) }, ?_, rfl, _, rfl,
    lt_add_seconds s.now (by decide)⟩
  rw [hdb]
  exact Table.mem_update_of_pos ha (List.contains_iff_mem.mpr hid)

/-- The attempt waits as it did at `t₀`. -/
def Waits (b : PaymentAttempt) (t₀ : Timestamp) (s : State) : Prop :=
  t₀ ≤ s.now ∧ b ∈ s.db.paymentAttempts

theorem stillWaits_step {b : PaymentAttempt} {t₀ : Timestamp} {x : Step δ} (hs : Waits b t₀ x.pre)
    (h : step env x.pre x.label = some x.post) (hleft : ¬ Leases b.id x)
    (hfinal : ¬ Finalizes b.id x) : Waits b t₀ x.post := by
  obtain ⟨hnow, hb⟩ := hs
  have hpolls := (step_effect h).polls
  obtain ⟨b', hb', hchange⟩ := hpolls.kept b hb
  refine ⟨hnow.trans hpolls.clock, ?_⟩
  cases hchange with
  | same => exact hb'
  | leased hl hid => exact absurd ⟨_, _, _, hl, hid⟩ hleft
  | settled r hl => exact absurd hl hfinal

/-- A lease that takes one that is behind takes one that waits. -/
theorem leased_of_waits {locked ids : List Uuid} {id : Uuid} {b : PaymentAttempt}
    {t₀ : Timestamp} (h : Reconciler.isBatch s.db s.now locked ids = true)
    (hbehind : Behind id t₀ s) (hid : id ∈ ids) (hwaits : Waits b t₀ s)
    (hdue : Reconciler.isDue t₀ b = true) (hfree : b.id ∉ locked) : b.id ∈ ids := by
  by_contra hleft
  obtain ⟨-, a, ha, rfl, t, ht, hlt⟩ := hbehind
  obtain ⟨hnow, hb⟩ := hwaits
  have hstill : Reconciler.isDue s.now b = true := by
    unfold Reconciler.isDue at hdue ⊢
    cases hpoll : b.nextPollAt with
    | none =>
      rw [hpoll] at hdue
      exact hdue
    | some u =>
      rw [hpoll] at hdue
      simp only [Bool.and_eq_true, decide_eq_true_eq] at hdue ⊢
      exact ⟨hdue.1, hdue.2.trans hnow⟩
  have hbefore := Table.before_of_isBatch h ha hid hb hstill hfree hleft
  -- the one that waits was due at `t₀`, the other is polled after `t₀`
  unfold Reconciler.pollBefore at hbefore
  unfold Reconciler.isDue at hdue
  rw [ht] at hbefore
  cases hpoll : b.nextPollAt with
  | none =>
    rw [hpoll] at hbefore
    cases hbefore
  | some u =>
    rw [hpoll] at hbefore hdue
    simp only [Bool.and_eq_true, decide_eq_true_eq] at hbefore hdue
    exact absurd (hbefore.trans hdue.2) (not_le.mpr hlt)

/-- How pending attempts are polled in a run. -/
structure FairlyPolled (env : Env δ) (s₀ : State) (ls : List (Label δ)) : Prop where
  soon : ∀ s ∈ (system env).states s₀ ls, ∀ a ∈ s.db.paymentAttempts, a.status = .pending →
    a.nextPollAt = none ∨ ∃ t, a.nextPollAt = some t ∧ t ≤ s.now + seconds 30
  /-- No attempt is leased twice before one that was due at the first lease. -/
  overtaken : ∀ (front between after : List (Step δ)) (T₁ T₂ : Step δ),
    (system env).steps s₀ ls = front ++ T₁ :: (between ++ T₂ :: after) →
    ∀ id, Leases id T₁ → Leases id T₂ →
    ∀ b ∈ T₁.pre.db.paymentAttempts, Reconciler.isDue T₁.pre.now b = true →
    (∀ x ∈ between, ¬ Finalizes b.id x) → ¬ Skips b.id T₂ →
    ∃ x ∈ T₁ :: (between ++ [T₂]), Leases b.id x

theorem fairly_polled (env : Env δ) {s₀ : State} (h₀ : Initial s₀) (ls : List (Label δ)) :
    FairlyPolled env s₀ ls := by
  have hreach : (system env).Reachable s₀ := .of_initial h₀
  constructor
  · intro s hs a ha _
    have hsoon := pollsSoon_of_reachable (TransitionSystem.reachable_of_mem_states hreach hs)
    cases hpoll : a.nextPollAt with
    | none => exact .inl rfl
    | some t => exact .inr ⟨t, rfl, hsoon a ha t hpoll⟩
  · intro front between after T₁ T₂ hsteps id hleases₁ hleases₂ b hb hdue hfinal hskip
    by_contra hnone
    push Not at hnone
    have hmem : ∀ x ∈ T₁ :: (between ++ [T₂]), x ∈ (system env).steps s₀ ls := by
      intro x hx
      rw [hsteps]
      simp only [List.mem_append, List.mem_cons, List.not_mem_nil, or_false] at hx ⊢
      tauto
    have hstep₁ := (TransitionSystem.step_of_mem_steps (hmem T₁ (by simp))).1
    have hstep₂ := (TransitionSystem.step_of_mem_steps (hmem T₂ (by simp))).1
    obtain ⟨htrace, hpre⟩ := TransitionSystem.isTrace_between hsteps
    obtain ⟨w₁, locked₁, ids₁, hl₁, hid₁⟩ := hleases₁
    obtain ⟨w₂, locked₂, ids₂, hl₂, hid₂⟩ := hleases₂
    -- through the steps between the two leases the one stays behind and the other waits
    have hbehind₁ : Behind id T₁.pre.now T₁.post := by
      rw [hl₁] at hstep₁
      exact behind_of_leased
        (show step env T₁.pre (.tick w₁ locked₁ ids₁) = some T₁.post from hstep₁) hid₁
    have hwaits₁ : Waits b T₁.pre.now T₁.post := by
      refine stillWaits_step ⟨le_refl _, hb⟩ hstep₁ (hnone T₁ (by simp)) ?_
      rintro ⟨w, fresh, W, job, r, hl, -⟩
      rw [hl₁] at hl
      cases hl
    have hkeep := htrace.keeps (P := fun s => Behind id T₁.pre.now s ∧ Waits b T₁.pre.now s)
      ⟨hbehind₁, hwaits₁⟩ (by
        intro x hx hbefore
        have hxstep := (TransitionSystem.step_of_mem_steps (hmem x (by simp [hx]))).1
        exact ⟨behind_step hbefore.1 hxstep,
          stillWaits_step hbefore.2 hxstep (hnone x (by simp [hx])) (hfinal x hx)⟩)
    rw [← hpre] at hkeep
    rw [hl₂] at hstep₂
    have hbatch := step_tick (show step env T₂.pre (.tick w₂ locked₂ ids₂) = some T₂.post from hstep₂)
    have hleased : b.id ∈ ids₂ :=
      leased_of_waits hbatch.1 hkeep.1 hid₂ hkeep.2 hdue
        fun hlocked => hskip ⟨_, _, _, hl₂, hlocked⟩
    exact hnone T₂ (by simp) ⟨_, _, _, hl₂, hleased⟩

/-! ## Two orphaned attempts -/

/-- Two handlers crash once they have claimed. The first lease takes one attempt and finds the
other locked; thirty seconds later the second lease takes both. -/
def orphanedRun : List (Label DefiniteChoice) :=
  openInvoice ++ openInvoiceOf (shopId 2) (shopId 1) 1 50 ++
    [.startPay 2 (payCall "k1" "tok_success"), .work 2 (shopFresh 0), .work 2 (shopFresh 20),
     .crash 2,
     .startPay 3 { payCall "k2" "tok_success" with invoiceId := shopId 50 },
     .work 3 (shopFresh 0), .work 3 (shopFresh 30), .crash 3,
     .tick 4 [shopId 31] [shopId 21], .crash 4,
     .advance (seconds 30),
     .tick 5 [] [shopId 31, shopId 21]]

theorem fairly_polled_orphanedRun :
    ((definiteSystem shopSha256).run shop orphanedRun).isSome = true ∧
      FairlyPolled { sha256 := shopSha256, psp := definitePsp } shop orphanedRun :=
  ⟨by decide +kernel, fairly_polled _ shop_initial orphanedRun⟩

end InvoicePayment.Payments
