import InvoicePayment.Lib.Execution
import InvoicePayment.Payments.Overtaking
import InvoicePayment.Payments.SingleCharge

/-!
# Pending attempts are leased again and again

The lease takes twenty rows by `next_poll_at NULLS FIRST`, so new attempts come before those that
have been polled. In an infinite run in which the clock goes on and a tick comes before twenty new
attempts do, no pending attempt is left out for good (`leased_or_settled`): while it waits, every
such tick takes twenty out of those in front of it, and what the workers still have in hand for it
is finalized only so often.
-/

namespace InvoicePayment.Payments

variable {δ : Type} {env : Env δ} {s s' : State} {l : Label δ} {id : Uuid}

/-! ## The attempts in front -/

/-- A tick may take the attempt before `b`. -/
def isInFront (b a : PaymentAttempt) : Bool :=
  a.status = .pending && a.id ≠ b.id && Reconciler.pollBefore a b

def inFront (b : PaymentAttempt) (s : State) : ℕ := s.db.paymentAttempts.countP (isInFront b)

/-- What is polled later than now is not in front of what is due. -/
theorem isInFront_eq_false {a b : PaymentAttempt} {now t : Timestamp}
    (hdue : Reconciler.isDue now b = true) (hpoll : a.nextPollAt = some t) (hlater : now < t) :
    isInFront b a = false := by
  have hbefore : Reconciler.pollBefore a b = false := by
    unfold Reconciler.pollBefore
    unfold Reconciler.isDue at hdue
    rw [hpoll]
    cases hb : b.nextPollAt with
    | none => rfl
    | some u =>
      rw [hb] at hdue
      simp only [Bool.and_eq_true, decide_eq_true_eq] at hdue
      exact decide_eq_false (not_le.mpr (lt_of_le_of_lt hdue.2 hlater))
  rw [isInFront, hbefore, Bool.and_false]

theorem isInFront_settle {a b : PaymentAttempt} {now : Timestamp} (r : PspResult)
    (hdue : Reconciler.isDue now b = true) :
    isInFront b (PaymentService.settle now r a) = false := by
  cases r with
  | succeeded pspRef => rfl
  | declined code => rfl
  | unknown reason => exact isInFront_eq_false hdue rfl (lt_add_seconds now (by decide))

/-- As long as `b` waits, only new attempts come in front of it. -/
theorem inFront_step {b : PaymentAttempt} (hdue : Reconciler.isDue s.now b = true)
    (h : step env s l = some s') :
    inFront b s' + s.db.paymentAttempts.length ≤
      inFront b s + s'.db.paymentAttempts.length := by
  have hsame : s'.db.paymentAttempts = s.db.paymentAttempts →
      inFront b s' + s.db.paymentAttempts.length ≤
        inFront b s + s'.db.paymentAttempts.length := by
    intro heq
    rw [inFront, inFront, heq]
  have hupdate : ∀ p f, s'.db.paymentAttempts = Table.update p f s.db.paymentAttempts →
      (∀ a, isInFront b (f a) = false) → inFront b s' + s.db.paymentAttempts.length ≤
        inFront b s + s'.db.paymentAttempts.length := by
    intro p f heq hf
    rw [inFront, inFront, heq, Table.update, List.length_map, ← Table.update]
    refine Nat.add_le_add_right (Table.countP_update_le fun a _ _ hfa => ?_) _
    rw [hf a] at hfa
    cases hfa
  cases step_effect h with
  | create hcreated => exact hsame hcreated.attempts
  | lease _ _ =>
    exact hupdate _ _ rfl fun a =>
      isInFront_eq_false hdue rfl (lt_add_seconds s.now (by decide))
  | @claim _ _ _ _ _ db job _ _ _ hclaimed =>
    have hpost : db.paymentAttempts =
        s.db.paymentAttempts ++ [PaymentService.newAttempt job] := by
      rw [hclaimed.post]
    show db.paymentAttempts.countP (isInFront b) + s.db.paymentAttempts.length ≤
      s.db.paymentAttempts.countP (isInFront b) + db.paymentAttempts.length
    have hone : List.countP (isInFront b) [PaymentService.newAttempt job] ≤ 1 :=
      List.countP_le_length
    rw [hpost, List.countP_append, List.length_append, List.length_singleton]
    omega
  | finalize _ _ hfinal _ => exact hupdate _ _ hfinal.attempts fun a => isInFront_settle _ hdue
  | move _ happly =>
    obtain ⟨rfl, -⟩ := InvoiceService.apply_eq_ok happly
    exact hsame rfl
  | _ => exact hsame rfl

/-- A tick that leaves `b` out takes twenty of those in front of it. -/
theorem inFront_tick {b : PaymentAttempt} {w : WorkerId} {locked ids : List Uuid}
    (hs : Sound env s) (hb : b ∈ s.db.paymentAttempts) (hdue : Reconciler.isDue s.now b = true)
    (hfree : b.id ∉ locked) (hleft : b.id ∉ ids)
    (h : step env s (.tick w locked ids) = some s') :
    inFront b s' + Reconciler.batchSize ≤ inFront b s := by
  obtain ⟨hbatch, -, hdb⟩ := step_tick h
  have hselected : ∀ a ∈ s.db.paymentAttempts, ids.contains a.id = true →
      isInFront b a = true ∧
        isInFront b { a with nextPollAt := some (s.now + seconds 30) } = false := by
    intro a ha hid
    have hmem := List.contains_iff_mem.mp hid
    obtain ⟨a', ha', hsame, hdue'⟩ := (Table.due_of_isBatch hbatch).2 _ hmem
    obtain rfl := hs.attempt_eq ha' ha hsame
    have hpending : a'.status = .pending := by
      simp only [Reconciler.isDue, Bool.and_eq_true, decide_eq_true_eq] at hdue'
      exact hdue'.1
    have hne : a'.id ≠ b.id := fun heq => hleft (heq ▸ hmem)
    have hbefore := Table.before_of_isBatch hbatch ha hmem hb hdue hfree hleft
    refine ⟨?_, isInFront_eq_false hdue rfl (lt_add_seconds s.now (by decide))⟩
    simp only [isInFront, hpending, hbefore, ne_eq, hne, not_false_eq_true, decide_true,
      Bool.and_self]
  have hcount := Table.countP_update_add hselected
  have hlimit := Table.limit_le_countP hbatch hb hdue hfree hleft
  rw [inFront, inFront, hdb]
  show List.countP _ (Table.update _ _ _) + _ ≤ _
  omega

/-! ## What is still in hand -/

/-- How often the worker has the attempt in hand. -/
def handOf (id : Uuid) (s : State) (w : WorkerId) : ℕ :=
  (s.workers w).elim 0 fun W => W.holdings.countP fun held => held.job.attemptId = id

theorem handOf_of_some {w : WorkerId} {W : Worker} (h : s.workers w = some W) :
    handOf id s w = W.holdings.countP fun held => held.job.attemptId = id := by
  rw [handOf, h, Option.elim_some]

/-- A worker that finalizes drops the attempt, whether or not the transaction commits. -/
theorem holdings_of_finalizes {w : WorkerId} {fresh : Fresh} {W : Worker} {job : Job}
    {r : PspResult} (h : step env s (.work w fresh) = some s') (hw : s.workers w = some W)
    (hr : W.result = some (job, r)) :
    ∃ W', s'.workers w = some W' ∧ W'.holdings = W.holdings.tail := by
  simp only [step, hw, Option.bind_some] at h
  unfold Worker.result at hr
  split at hr
  · simp only [workerStep, payStep] at h
    split at h
    all_goals
      obtain rfl := Option.some.inj h
      exact ⟨_, if_pos rfl, rfl⟩
  · simp only [workerStep, tickStep] at h
    split at h
    all_goals
      obtain rfl := Option.some.inj h
      exact ⟨_, if_pos rfl, rfl⟩
  · cases hr

/-- Only a lease puts an attempt that is there in another hand. -/
theorem handOf_step (h : step env s l = some s') (hrow : ∃ a ∈ s.db.paymentAttempts, a.id = id)
    (hleft : ¬ Leases id (⟨s, l, s'⟩ : Step δ)) (w : WorkerId) :
    handOf id s' w ≤ handOf id s w := by
  cases hW' : s'.workers w with
  | none =>
    rw [handOf, hW']
    exact Nat.zero_le _
  | some W' =>
    rw [handOf_of_some hW']
    cases (step_effect h).became hW' with
    | same hv => exact (handOf_of_some hv).ge
    | @leased locked ids hl _ _ hjobs =>
      subst hjobs
      refine (List.countP_eq_zero.mpr fun held hheld hid => ?_).le.trans (Nat.zero_le _)
      obtain ⟨job, hjob, rfl⟩ := List.mem_map.mp hheld
      obtain ⟨a, ha, rfl⟩ := List.mem_map.mp hjob
      have hmem := (Table.mem_withIds ha).2
      exact hleft ⟨w, locked, ids, hl, of_decide_eq_true hid ▸ hmem⟩
    | quiet _ hquiet _ =>
      rcases hquiet.holdings with hnil | ⟨W, hv, hsuffix⟩
      · rw [hnil]
        exact Nat.zero_le _
      · rw [handOf_of_some hv]
        exact hsuffix.sublist.countP_le
    | sent _ hv _ hsent _ => rw [handOf_of_some hv, hsent.holdings]
    | @claimed _ _ _ _ job _ hv _ hclaimed hjob =>
      subst hjob
      refine (List.countP_eq_zero.mpr fun held hheld hid => ?_).le.trans (Nat.zero_le _)
      obtain rfl := List.mem_singleton.mp hheld
      obtain ⟨a, ha, rfl⟩ := hrow
      have hne := Table.UniqueIndex.ne_of_not_conflicts hclaimed.freshId rfl ha rfl
      exact hne (of_decide_eq_true hid).symm
    | replayed _ _ hW =>
      subst hW
      exact Nat.zero_le _
    | delivered _ _ _ _ _ hv hW =>
      subst hW
      rw [handOf_of_some hv, Worker.holdings_deliver]
    | finalized hv _ _ hfinished =>
      rw [handOf_of_some hv, hfinished.holdings]
      exact (List.tail_sublist _).countP_le
    | moved _ hW =>
      subst hW
      exact Nat.zero_le _

/-- A finalization takes the attempt out of one hand. -/
theorem handOf_lt (h : step env s l = some s') {w : WorkerId} {fresh : Fresh} {W : Worker}
    {job : Job} {r : PspResult} (hl : l = .work w fresh) (hw : s.workers w = some W)
    (hr : W.result = some (job, r)) (hid : job.attemptId = id) :
    handOf id s' w < handOf id s w := by
  subst hl
  obtain ⟨W', hW', htail⟩ := holdings_of_finalizes h hw hr
  obtain ⟨since, holder, hhead⟩ := Worker.head_of_result hr
  obtain ⟨rest, hrest⟩ := List.head?_eq_some_iff.mp hhead
  rw [handOf_of_some hw, handOf_of_some hW', htail, hrest, List.tail_cons, List.countP_cons,
    decide_eq_true hid]
  exact Nat.lt_succ_self _

/-- Worker ids from some on are unused. -/
theorem exists_unused (h : (system env).Reachable s) :
    ∃ B, ∀ w, B ≤ w → s.workers w = none := by
  refine TransitionSystem.invariant_of_reachable
    (P := fun s => ∃ B, ∀ w, B ≤ w → s.workers w = none) ?_ ?_ h
  · intro s hinitial
    exact ⟨0, fun w _ => by rw [hinitial.workers]⟩
  · intro s l s' _ hs hstep
    obtain ⟨B, hB⟩ := hs
    refine ⟨max B (l.worker.elim 0 (· + 1)), fun w hw => ?_⟩
    cases hW' : s'.workers w with
    | none => rfl
    | some W' =>
      rcases (step_effect hstep).worker hW' with ⟨W, hW⟩ | hl
      · rw [hB w ((le_max_left _ _).trans hw)] at hW
        cases hW
      · rw [hl] at hw
        exact absurd ((le_max_right B (w + 1)).trans hw) (Nat.not_succ_le_self w)

/-! ## An attempt that waits -/

/-- The reconcilers keep up with the attempt: the clock goes on, and from any moment on a tick
that does not find the row locked comes before twenty new attempts do. -/
structure KeepsUp (e : (system env).Execution) (id : Uuid) : Prop where
  clock : ∀ t : Timestamp, ∃ n, t ≤ (e.state n).now
  ticks : ∀ n, ∃ m, n ≤ m ∧ (∃ w locked ids, e.label m = .tick w locked ids ∧ id ∉ locked) ∧
    (e.state m).db.paymentAttempts.length <
      (e.state n).db.paymentAttempts.length + Reconciler.batchSize

section Execution

variable {e : (system env).Execution}

theorem now_mono (e : (system env).Execution) {n m : ℕ} (h : n ≤ m) :
    (e.state n).now ≤ (e.state m).now :=
  e.keeps (P := fun s => (e.state n).now ≤ s.now) (le_refl _)
    (fun m _ hm => hm.trans (step_effect (e.step m)).polls.clock) h

/-- An attempt that is never leased again is finalized only so often. -/
theorem exists_unfinalized (h₀ : (system env).Initial (e.state 0)) {n : ℕ}
    (hrow : ∀ m, n ≤ m → ∃ a ∈ (e.state m).db.paymentAttempts, a.id = id)
    (hleft : ∀ m, n ≤ m → ¬ Leases id (e.transition m)) :
    ∃ n₁, n ≤ n₁ ∧ ∀ m, n₁ ≤ m → ¬ Finalizes id (e.transition m) := by
  have hfew : ∃ B, ∀ w, B ≤ w → handOf id (e.state n) w = 0 := by
    obtain ⟨B, hB⟩ := exists_unused (e.reachable h₀ n)
    exact ⟨B, fun w hw => by rw [handOf, hB w hw, Option.elim_none]⟩
  refine TransitionSystem.exists_no_more_given (fun m => handOf id (e.state m)) hfew
    (fun m hm => handOf_step (e.step m) (hrow m hm) (hleft m hm)) fun m _ hfinal => ?_
  obtain ⟨w, fresh, W, job, r, hl, hw, hr, hid⟩ := hfinal
  exact ⟨w, handOf_lt (e.step m) hl hw hr hid⟩

/-- An attempt that is due and never changes is taken by some tick. -/
theorem exists_lease (h₀ : (system env).Initial (e.state 0)) {b : PaymentAttempt}
    (hkeeps : KeepsUp e b.id) {n : ℕ}
    (hwaits : ∀ m, n ≤ m → b ∈ (e.state m).db.paymentAttempts ∧
      Reconciler.isDue (e.state m).now b = true) : ∃ m, n ≤ m ∧ Leases b.id (e.transition m) := by
  by_contra hnone
  push Not at hnone
  have hfalse : ∃ m, n ≤ m ∧ False := by
    refine TransitionSystem.exists_of_rank (fun m => inFront b (e.state m)) fun m hm _ => ?_
    obtain ⟨m', hm', ⟨w, locked, ids, hl, hfree⟩, hfew⟩ := hkeeps.ticks m
    have hmm := hm.trans hm'
    -- up to the tick fewer than twenty come in front, and the tick takes twenty
    have hbefore : inFront b (e.state m') + (e.state m).db.paymentAttempts.length ≤
        inFront b (e.state m) + (e.state m').db.paymentAttempts.length := by
      refine e.keeps (P := fun s => inFront b s + (e.state m).db.paymentAttempts.length ≤
        inFront b (e.state m) + s.db.paymentAttempts.length) (le_refl _) (fun k hk hle => ?_) hm'
      have hk' := inFront_step (hwaits k (hm.trans hk)).2 (e.step k)
      omega
    have hstep : step env (e.state m') (.tick w locked ids) = some (e.state (m' + 1)) := by
      rw [← hl]
      exact e.step m'
    have htick := inFront_tick (sound_of_reachable (e.reachable h₀ m')) (hwaits m' hmm).1
      (hwaits m' hmm).2 hfree (fun hid => hnone m' hmm ⟨w, locked, ids, hl, hid⟩) hstep
    exact ⟨m' + 1, Nat.le_succ_of_le hm', by omega⟩
  obtain ⟨-, -, hfalse⟩ := hfalse
  exact hfalse

/-- From any moment on, an attempt is leased or is no longer pending. -/
theorem leased_or_settled (h₀ : (system env).Initial (e.state 0)) (hkeeps : KeepsUp e id) (n : ℕ) :
    ∃ m, n ≤ m ∧
      (Leases id (e.transition m) ∨ statusOf id (e.state m) ≠ some .pending) := by
  by_contra hnone
  push Not at hnone
  have hsound := fun m => sound_of_reachable (e.reachable h₀ m)
  have hrow := fun m hm => (hsound m).statusOf_eq_some.mp (hnone m hm).2
  -- after its last finalization the row stays as it is
  obtain ⟨n₁, hn₁, hunfinalized⟩ := exists_unfinalized h₀
    (fun m hm => (hrow m hm).imp fun a ha => ⟨ha.1, ha.2.1⟩) fun m hm => (hnone m hm).1
  obtain ⟨b, hb, rfl, hpending⟩ := hrow n₁ hn₁
  have hwaits : ∀ m, n₁ ≤ m → Waits b (e.state n₁).now (e.state m) := fun m hm =>
    e.keeps ⟨le_refl _, hb⟩ (fun k hk hwaits => stillWaits_step (x := e.transition k) hwaits
      (e.step k) (hnone k (hn₁.trans hk)).1 (hunfinalized k hk)) hm
  -- and falls due
  obtain ⟨k, hk⟩ := hkeeps.clock (b.nextPollAt.getD 0)
  obtain ⟨m, hm, hlease⟩ := exists_lease h₀ hkeeps (n := max n₁ k) (fun m hm => by
    refine ⟨(hwaits m ((le_max_left _ _).trans hm)).2, ?_⟩
    have hnow := hk.trans (now_mono e ((le_max_right n₁ k).trans hm))
    unfold Reconciler.isDue
    cases hpoll : b.nextPollAt with
    | none => simp [hpending]
    | some t =>
      rw [hpoll, Option.getD_some] at hnow
      simp [hpending, hnow])
  exact (hnone m (hn₁.trans ((le_max_left _ _).trans hm))).1 hlease

/-- An attempt that is there stays there. -/
theorem exists_status (h : step env s l = some s') (hsome : statusOf id s ≠ none) :
    statusOf id s' ≠ none := by
  rcases (step_effect h).status id with hsame | hrises
  · rw [hsame]
    exact hsome
  · intro hnone
    rw [hnone] at hrises
    exact Nat.not_lt_zero _ hrises

theorem exists_status_of_row (h₀ : (system env).Initial (e.state 0)) {k : ℕ}
    (hrow : ∃ a ∈ (e.state k).db.paymentAttempts, a.id = id) {m : ℕ} (hm : k ≤ m) :
    statusOf id (e.state m) ≠ none := by
  refine e.keeps (P := fun s => statusOf id s ≠ none) (fun hnone => ?_)
    (fun m _ => exists_status (e.step m)) hm
  obtain ⟨a, ha, hid⟩ := hrow
  rw [((sound_of_reachable (e.reachable h₀ k)).statusOf_eq_some).mpr ⟨a, ha, hid, rfl⟩] at hnone
  cases hnone

/-- A settled attempt keeps its status. -/
theorem status_kept {st : PaymentStatus} (hst : st ≠ .pending) (h : step env s l = some s')
    (hstatus : statusOf id s = some st) : statusOf id s' = some st := by
  rcases (step_effect h).status id with hsame | hrises
  · exact hsame.trans hstatus
  · have htop : ∀ o, statusRank o ≤ 2 := by
      intro o
      rcases o with _ | st'
      · exact Nat.zero_le _
      · cases st' <;> decide
    have hfull : statusRank (some st) = 2 := by
      cases st with
      | pending => exact absurd rfl hst
      | _ => rfl
    rw [hstatus, hfull] at hrises
    exact absurd hrises (not_lt.mpr (htop _))

/-- Whatever crashes, times out or fails: an attempt is leased again and again, or it is settled
once and for all. -/
theorem polled_until_settled (h₀ : (system env).Initial (e.state 0)) (hkeeps : KeepsUp e id)
    {k : ℕ} (hrow : ∃ a ∈ (e.state k).db.paymentAttempts, a.id = id) :
    (∀ n, ∃ m, n ≤ m ∧ Leases id (e.transition m)) ∨
      ∃ n st, st ≠ .pending ∧ ∀ m, n ≤ m → statusOf id (e.state m) = some st := by
  by_cases hsettled : ∃ n, k ≤ n ∧ statusOf id (e.state n) ≠ some .pending
  · obtain ⟨n, hn, hne⟩ := hsettled
    obtain ⟨st, hst⟩ := Option.ne_none_iff_exists'.mp (exists_status_of_row h₀ hrow hn)
    have hfinal : st ≠ .pending := fun hpending => hne (hpending ▸ hst)
    exact .inr ⟨n, st, hfinal, fun m hm => e.keeps (P := fun s => statusOf id s = some st) hst
      (fun m _ => status_kept hfinal (e.step m)) hm⟩
  · push Not at hsettled
    refine .inl fun n => ?_
    obtain ⟨m, hm, hlease | hne⟩ := leased_or_settled h₀ hkeeps (max n k)
    · exact ⟨m, (le_max_left n k).trans hm, hlease⟩
    · exact absurd (hsettled m ((le_max_right n k).trans hm)) hne

end Execution

/-! ## A charge whose handler crashed -/

/-- The reconciler takes up the attempt of `crashRun`: the PSP repeats what it has on record. -/
def recoveredRun : List (Label DefiniteChoice) :=
  crashRun ++
    [.tick 3 [] [shopId 21], .work 3 (shopFresh 0),
     .serve 0 ⟨some (.succeeded "psp_1"), none⟩, .work 3 (shopFresh 40)]

/-- Every attempt is settled and nobody holds one; worker ids from `100 + n` on are unused. -/
structure Quiescent (n : ℕ) (s : State) : Prop where
  late : ((n + n % 2 : ℕ) : Int) ≤ s.now
  settled : ∀ a ∈ s.db.paymentAttempts, a.status ≠ .pending
  rows : s.db.paymentAttempts.map PaymentAttempt.id = [shopId 21]
  held : ∀ w W, s.workers w = some W → W.holdings = []
  fresh : ∀ w, 100 + n ≤ w → s.workers w = none

/-- The clock moves on, and a tick finds nothing to do. -/
def quiescentLabel (n : ℕ) (s : State) : Label DefiniteChoice :=
  if n % 2 = 0 then .advance (s.now + 2) else .tick (100 + n) [] []

theorem quiescent_step {n : ℕ} (h : Quiescent n s) :
    ∃ s', (definiteSystem shopSha256).step s (quiescentLabel n s) = some s' ∧
      Quiescent (n + 1) s' := by
  unfold quiescentLabel
  by_cases heven : n % 2 = 0
  · rw [if_pos heven]
    have hnow : s.now ≤ s.now + 2 := le_add_of_nonneg_right (by decide)
    refine ⟨{ s with now := s.now + 2 }, ?_, ?_, h.settled, h.rows, h.held,
      fun w hw => h.fresh w (by omega)⟩
    · simp only [system, step, if_pos hnow]
    · have hlate : ((n + 1 + (n + 1) % 2 : ℕ) : Int) ≤ ((n + n % 2 : ℕ) : Int) + 2 := by omega
      exact hlate.trans (Int.add_le_add_right h.late 2)
  · rw [if_neg heven]
    -- no attempt is due
    have hnone : ∀ a ∈ s.db.paymentAttempts, Reconciler.isDue s.now a = false := by
      intro a ha
      simp [Reconciler.isDue, h.settled a ha]
    have hbatch : Reconciler.isBatch s.db s.now [] [] = true := by
      simp only [Reconciler.isBatch, Table.isBatch, Bool.and_eq_true, List.all_eq_true]
      refine ⟨⟨⟨by simp, by simp⟩, by simp⟩, fun a ha => ?_⟩
      rw [hnone a ha]
      rfl
    have hlease : Reconciler.lease s.db s.now [] = (s.db, []) := by
      simp [Reconciler.lease, Table.update, Table.withIds]
    have hstep : (definiteSystem shopSha256).step s (.tick (100 + n) [] []) =
        some ((s.setDb s.db).setWorker (100 + n) (.tick s.now [] .ready)) := by
      simp only [system, step, if_pos hbatch, hlease, startStep, State.setDb,
        h.fresh _ (le_refl _)]
    refine ⟨_, hstep, ?_, h.settled, h.rows, fun w W hw => ?_, fun w hw => ?_⟩
    · have hlate : ((n + 1 + (n + 1) % 2 : ℕ) : Int) ≤ ((n + n % 2 : ℕ) : Int) := by omega
      exact hlate.trans h.late
    · rcases workers_setWorker hw with ⟨-, rfl⟩ | ⟨-, hw⟩
      · rfl
      · exact h.held w W hw
    · have hne : w ≠ 100 + n := by omega
      exact (if_neg hne).trans (h.fresh w (by omega))

/-- Only a worker some label is about is there. -/
theorem exists_label {s₀ : State} (h₀ : Initial s₀) {ls : List (Label δ)}
    (hrun : (system env).run s₀ ls = some s) {w : WorkerId} {W : Worker}
    (hw : s.workers w = some W) : ∃ l ∈ ls, l.worker = some w := by
  induction ls using List.reverseRecOn generalizing s W with
  | nil =>
    obtain rfl := Option.some.inj hrun
    exact (h₀.no_worker hw).elim
  | append_singleton ls l ih =>
    rw [TransitionSystem.run_append] at hrun
    obtain ⟨t, ht, hlast⟩ := Option.bind_eq_some_iff.mp hrun
    rw [TransitionSystem.run_singleton] at hlast
    rcases (step_effect hlast).worker hw with ⟨V, hV⟩ | hl
    · obtain ⟨l', hl', hworker⟩ := ih ht hV
      exact ⟨l', List.mem_append_left _ hl', hworker⟩
    · exact ⟨l, List.mem_append_right _ List.mem_cons_self, hl⟩

/-- The ids of the workers of `recoveredRun`. -/
theorem worker_of_recoveredRun {ls : List (Label DefiniteChoice)} (hls : ls <+: recoveredRun)
    (hrun : (definiteSystem shopSha256).run shop ls = some s) {w : WorkerId} {W : Worker}
    (hw : s.workers w = some W) : w ∈ [0, 1, 2, 3] := by
  obtain ⟨l, hl, hworker⟩ := exists_label shop_initial hrun hw
  have hall : (recoveredRun.all fun l => l.worker.all fun w => decide (w ∈ [0, 1, 2, 3])) = true :=
    by decide
  have hmem := List.all_eq_true.mp hall l (hls.subset hl)
  rw [hworker, Option.all_some] at hmem
  exact of_decide_eq_true hmem

/-- What is left after it. -/
theorem exists_quiescent :
    ∃ t, (definiteSystem shopSha256).run shop recoveredRun = some t ∧ Quiescent 0 t := by
  have hcheck : ((definiteSystem shopSha256).run shop recoveredRun).any (fun t =>
      decide (0 ≤ t.now) && t.db.paymentAttempts.all (fun a => decide (a.status ≠ .pending)) &&
        decide (t.db.paymentAttempts.map PaymentAttempt.id = [shopId 21]) &&
        [0, 1, 2, 3].all fun w => (t.workers w).all fun W => W.holdings.isEmpty) = true := by
    decide +kernel
  cases hrun : (definiteSystem shopSha256).run shop recoveredRun with
  | none =>
    rw [hrun] at hcheck
    cases hcheck
  | some t =>
    rw [hrun] at hcheck
    simp only [Option.any_some, Bool.and_eq_true, decide_eq_true_eq, List.all_eq_true] at hcheck
    obtain ⟨⟨⟨hnow, hsettled⟩, hrows⟩, hheld⟩ := hcheck
    refine ⟨t, rfl, hnow, hsettled, hrows, fun w W hw => ?_, fun w hw => ?_⟩
    · have hempty := hheld w (worker_of_recoveredRun (List.prefix_refl _) hrun hw)
      rw [hw, Option.all_some] at hempty
      exact List.isEmpty_iff.mp hempty
    · cases hW : t.workers w with
      | none => rfl
      | some W =>
        have hmem := worker_of_recoveredRun (List.prefix_refl _) hrun hW
        have hall : ∀ v ∈ [0, 1, 2, 3], ¬ 100 + 0 ≤ v := by decide
        exact absurd hw (hall w hmem)

/-- `recoveredRun`, and then nothing more to do. -/
structure Recovers (e : (definiteSystem shopSha256).Execution) : Prop where
  start : e.state 0 = shop
  first : (List.range 17).map e.label = recoveredRun
  later : ∀ n, Quiescent n (e.state (17 + n)) ∧
    e.label (17 + n) = quiescentLabel n (e.state (17 + n))

theorem exists_recovers : ∃ e, Recovers e := by
  obtain ⟨t, hrun, hquiescent⟩ := exists_quiescent
  obtain ⟨e₀, hstart, hlater⟩ :=
    TransitionSystem.Execution.exists_of_strategy hquiescent fun n s => quiescent_step
  rw [← hstart] at hrun
  obtain ⟨e, hzero, hwindow, hshift⟩ := e₀.exists_append hrun
  have hlabels := congrArg (List.map TransitionSystem.Transition.label) hwindow
  rw [TransitionSystem.Execution.map_label_steps hrun, TransitionSystem.Execution.window,
    List.map_map] at hlabels
  have hfirst : (List.range 17).map e.label = recoveredRun := by
    refine Eq.trans (List.map_congr_left fun n _ => ?_) hlabels
    exact congrArg e.label (Nat.zero_add n).symm
  refine ⟨e, hzero, hfirst, fun n => ?_⟩
  have hsame := hshift n
  have hlength : recoveredRun.length = 17 := rfl
  simp only [TransitionSystem.Execution.transition, TransitionSystem.Transition.mk.injEq,
    hlength] at hsame
  rw [hsame.1, hsame.2.1]
  exact hlater n

section Recovers

variable {e : (definiteSystem shopSha256).Execution}

/-- The first states are those of `recoveredRun`. -/
theorem Recovers.run (h : Recovers e) {n : ℕ} (hn : n ≤ 17) :
    (definiteSystem shopSha256).run shop (recoveredRun.take n) = some (e.state n) := by
  have hrun := e.run_labels n
  rw [h.start] at hrun
  rw [← h.first, ← List.map_take, List.take_range, Nat.min_eq_left hn]
  exact hrun

theorem Recovers.label (h : Recovers e) {n : ℕ} (hn : n < 17) :
    recoveredRun[n]? = some (e.label n) := by
  rw [← h.first, List.getElem?_map, List.getElem?_range hn]
  rfl

theorem Recovers.keepsUp (h : Recovers e) : KeepsUp e (shopId 21) := by
  constructor
  · intro t
    refine ⟨17 + t.toNat, (Int.self_le_toNat t).trans (le_trans ?_ (h.later t.toNat).1.late)⟩
    exact Int.ofNat_le.mpr (Nat.le_add_right _ _)
  · intro n
    -- at an odd moment after `n`
    obtain ⟨hquiescent, hl⟩ := h.later (2 * n + 1)
    have hone := congrArg List.length hquiescent.rows
    rw [List.length_map, List.length_singleton] at hone
    refine ⟨17 + (2 * n + 1), by omega, ⟨100 + (2 * n + 1), [], [], ?_, List.not_mem_nil⟩, ?_⟩
    · rw [hl, quiescentLabel, if_neg (by omega)]
    · rw [hone]
      exact Nat.lt_of_lt_of_le (by decide : 1 < Reconciler.batchSize) (Nat.le_add_left _ _)

end Recovers

theorem polled_until_settled_recovered :
    ∃ e : (definiteSystem shopSha256).Execution, e.state 0 = shop ∧ KeepsUp e (shopId 21) ∧
      ((∀ n, ∃ m, n ≤ m ∧ Leases (shopId 21) (e.transition m)) ∨
        ∃ n st, st ≠ .pending ∧ ∀ m, n ≤ m → statusOf (shopId 21) (e.state m) = some st) := by
  obtain ⟨e, h⟩ := exists_recovers
  have hrows : shopId 21 ∈ (e.state 17).db.paymentAttempts.map PaymentAttempt.id := by
    rw [(h.later 0).1.rows]
    exact List.mem_cons_self
  exact ⟨e, h.start, h.keepsUp, polled_until_settled (h.start ▸ shop_initial) h.keepsUp
    (List.mem_map.mp hrows)⟩

end InvoicePayment.Payments
