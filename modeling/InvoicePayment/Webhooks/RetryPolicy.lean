import InvoicePayment.Lib.Execution
import InvoicePayment.Webhooks.Lifetime
import Mathlib.Order.Bounds.Basic

/-!
# The retry policy, end to end

Infinite runs of one dispatcher. A delivery that is fanned out or replayed and then left alone is
sent until an answer is final, and then no more (`retry_policy`). `Recorded` ties where it is in
its life to what the steps have recorded of it; `progress` is the liveness: other deliveries that
are due earlier can only hold it up for a time, since each batch takes some of them away.
-/

namespace InvoicePayment.Webhooks

open Dispatcher (SendResult)
open TransitionSystem (Execution)

variable {maxAttempts : Int} {s s' : State} {l : Label} {id : Uuid}

/-! ## What the steps record -/

/-- The answers to the sends of the delivery. -/
def answersTo (id : Uuid) (xs : List Step) : List SendResult :=
  xs.filterMap fun x =>
    match eventOf id x with
    | some (.answered r) => some r
    | _ => none

theorem answersTo_append (id : Uuid) (xs ys : List Step) :
    answersTo id (xs ++ ys) = answersTo id xs ++ answersTo id ys := List.filterMap_append

/-- The step writes an outcome of the delivery. -/
def Writes (id : Uuid) (x : Step) : Bool :=
  match eventOf id x with
  | some .written => true
  | _ => false

theorem claims_eq (x : Step) : Claims id x = match eventOf id x with
    | some .claimed => true
    | _ => false := by
  unfold Claims eventOf
  cases x.label with
  | claim w locked ids =>
    dsimp only
    by_cases hin : ids.contains id = true
    · rw [if_pos hin, hin]
    · rw [if_neg hin]
      simpa using hin
  | respond w i r =>
    dsimp only
    split_ifs <;> rfl
  | write w i delay =>
    dsimp only
    split_ifs <;> rfl
  | _ => rfl

namespace Life

/-- The answers before the last claim that has an answer, or is waiting for one. -/
def answers : Life → List SendResult
  | .waiting answers _ => answers
  | .sending answers => answers
  | .answered answers _ => answers
  | .ended answers _ => answers

/-- All answers so far. -/
def heard : Life → List SendResult
  | .waiting answers _ => answers
  | .sending answers => answers
  | .answered answers r => answers ++ [r]
  | .ended answers r => answers ++ [r]

/-- The claims so far. -/
def claims : Life → ℕ
  | .waiting answers _ => answers.length
  | .sending answers => answers.length + 1
  | .answered answers _ => answers.length + 1
  | .ended answers _ => answers.length + 1

/-- The outcomes written so far. -/
def writes : Life → ℕ
  | .waiting answers _ => answers.length
  | .sending answers => answers.length
  | .answered answers _ => answers.length
  | .ended answers _ => answers.length + 1

/-- The events so far. -/
def stage (life : Life) : ℕ := life.heard.length + life.claims + life.writes

/-- No answer was final but the one a life has ended with. -/
def Sane (maxAttempts : Int) (life : Life) : Prop :=
  (∀ j r, life.answers[j]? = some r → isFinal maxAttempts (j + 1) r = false) ∧
  ∀ answers r, life = .ended answers r → isFinal maxAttempts (answers.length + 1) r = true

/-- A step adds one event, or nothing happens. -/
theorem Next.stage {now : Timestamp} {life life' : Life} {event : Option Event}
    (h : Next maxAttempts now life event life') :
    (event = none ∧ life' = life) ∨ life'.stage = life.stage + 1 := by
  cases h with
  | idle life => exact .inl ⟨rfl, rfl⟩
  | claim answers due =>
    right
    simp only [Life.stage, heard, claims, writes]
    omega
  | answer answers r =>
    right
    simp only [Life.stage, heard, claims, writes, List.length_append, List.length_singleton]
    omega
  | retry _ _ _ =>
    right
    simp only [Life.stage, heard, claims, writes, List.length_append, List.length_singleton]
    omega
  | finish _ =>
    right
    simp only [Life.stage, heard, claims, writes]
    omega

theorem Next.sane {now : Timestamp} {life life' : Life} {event : Option Event}
    (h : Next maxAttempts now life event life') (hsane : life.Sane maxAttempts) :
    life'.Sane maxAttempts := by
  cases h with
  | idle life => exact hsane
  | claim answers due => exact ⟨hsane.1, fun _ _ hended => by cases hended⟩
  | answer answers r => exact ⟨hsane.1, fun _ _ hended => by cases hended⟩
  | @retry answers r due hretry _ _ =>
    refine ⟨fun j q hq => ?_, fun _ _ hended => by cases hended⟩
    simp only [Life.answers] at hq
    rcases Nat.lt_or_ge j answers.length with hlt | hge
    · rw [List.getElem?_append_left hlt] at hq
      exact hsane.1 j q hq
    · obtain ⟨hj, hval⟩ := List.getElem?_eq_some_iff.mp hq
      rw [List.length_append, List.length_singleton] at hj
      obtain rfl : j = answers.length := by omega
      rw [List.getElem_concat_length rfl] at hval
      rw [← hval]
      exact hretry
  | finish hfinal =>
    refine ⟨hsane.1, fun _ _ hended => ?_⟩
    cases hended
    exact hfinal

end Life

/-- The steps have recorded the life. -/
structure Recorded (maxAttempts : Int) (id : Uuid) (xs : List Step) (life : Life) : Prop where
  heard : answersTo id xs = life.heard
  claims : xs.countP (Claims id) = life.claims
  writes : xs.countP (Writes id) = life.writes
  sane : life.Sane maxAttempts

/-- The events of the delivery among the steps. -/
def eventCount (id : Uuid) (xs : List Step) : ℕ :=
  (answersTo id xs).length + xs.countP (Claims id) + xs.countP (Writes id)

theorem Recorded.stage {xs : List Step} {life : Life} (h : Recorded maxAttempts id xs life) :
    eventCount id xs = life.stage := by
  rw [eventCount, h.heard, h.claims, h.writes, Life.stage]

theorem Recorded.snoc {xs : List Step} {life life' : Life} {x : Step} {now : Timestamp}
    (h : Recorded maxAttempts id xs life)
    (hnext : Life.Next maxAttempts now life (eventOf id x) life') :
    Recorded maxAttempts id (xs ++ [x]) life' := by
  have hheard := h.heard
  have hclaims := h.claims
  have hwrites := h.writes
  refine ⟨?_, ?_, ?_, hnext.sane h.sane⟩
  · rw [answersTo_append, hheard]
    simp only [answersTo, List.filterMap_cons, List.filterMap_nil]
    cases hevent : eventOf id x <;> rw [hevent] at hnext
    all_goals cases hnext <;> simp [Life.heard]
  · rw [List.countP_append, List.countP_singleton, claims_eq, hclaims]
    cases hevent : eventOf id x <;> rw [hevent] at hnext
    all_goals cases hnext <;> simp [Life.claims]
  · rw [List.countP_append, List.countP_singleton, hwrites, Writes]
    cases hevent : eventOf id x <;> rw [hevent] at hnext
    all_goals cases hnext <;> simp [Life.writes]

/-! ## The deliveries in front -/

/-- The clock does not go back. -/
theorem Effect.now_le (he : Effect maxAttempts s l s') : s.now ≤ s'.now := by
  cases he with
  | advance hnow => exact hnow
  | _ => exact le_refl s.now

/-- The delivery waits for an attempt that is due by then. -/
def isDueBy (due : Timestamp) (d : WebhookDelivery) : Bool :=
  (d.status = .pending || d.status = .failed) && d.nextAttemptAt ≤ due

/-- How many of them there are. -/
def dueBy (due : Timestamp) (s : State) : ℕ := s.db.webhookDeliveries.countP (isDueBy due)

/-- What is written after that time is due later. -/
theorem Written.not_isDueBy {now due : Timestamp} {attempts : Int} {r : SendResult} {delay : ℕ}
    {f : WebhookDelivery → WebhookDelivery} (hf : Written now maxAttempts attempts r delay f)
    (hlate : due < now) (d : WebhookDelivery) : isDueBy due (f d) = false := by
  by_cases hretry : (isSuccess r || isRejected r || maxAttempts ≤ attempts) = true
  · -- no further attempt
    have hst := hf.status d
    by_cases hsuccess : isSuccess r = true
    · rw [if_pos hsuccess] at hst
      simp [isDueBy, hst]
    · have hrest : (isRejected r || maxAttempts ≤ attempts) = true := by
        simpa [hsuccess] using hretry
      rw [if_neg hsuccess, if_pos hrest] at hst
      simp [isDueBy, hst]
  · have hdue := hf.due (by simpa using hretry) d
    have hnonneg : 0 ≤ seconds delay := by
      simp only [seconds]
      omega
    have hlater : due < (f d).nextAttemptAt := by
      rw [hdue]
      exact lt_of_lt_of_le hlate (le_add_of_nonneg_right hnonneg)
    simp [isDueBy, not_le.mpr hlater]

/-- After that time nothing new falls due by it. -/
theorem dueBy_step {due : Timestamp} (h : Tended s) (hlate : due < s.now)
    (hstep : step maxAttempts s l = some s') (hlone : LoneStep ⟨s, l, s'⟩) :
    dueBy due s' ≤ dueBy due s := by
  cases l with
  | advance _ | register _ _ _ _ | emit _ _ _ _ _ =>
    cases step_effect hstep with
    | release howner _ _ => cases howner
    | _ => exact le_refl _
  | fanOut fresh =>
    cases step_effect hstep with
    | release howner _ _ => cases howner
    | fanOut hfan =>
      obtain ⟨rows, hinsert, rfl⟩ := Dispatcher.fanOut_eq_ok hfan
      obtain ⟨⟨new, rfl⟩, hnodup⟩ := Dispatcher.insertDeliveries_eq_ok hinsert
      have hids := hnodup h.leased.ids
      rw [List.map_append] at hids
      have hnew : new.countP (isDueBy due) = 0 := by
        rw [List.countP_eq_zero]
        intro d hd
        rcases Dispatcher.mem_insertDeliveries hinsert (List.mem_append_right _ hd) with
          hold | ⟨uid, p, -, rfl⟩
        · exact absurd rfl ((List.nodup_append.mp hids).2.2 _ (List.mem_map_of_mem hold) _
            (List.mem_map_of_mem hd))
        · simp [isDueBy, Dispatcher.newDelivery, not_le.mpr hlate]
      show (s.db.webhookDeliveries ++ new).countP (isDueBy due) ≤ _
      rw [List.countP_append, hnew]
      exact le_refl _
  | claim w locked ids =>
    obtain ⟨-, -, rfl⟩ := claim_eq hstep
    refine Table.countP_update_le fun d _ _ hdue => ?_
    simp [isDueBy, Dispatcher.claimed] at hdue
  | hydrate w =>
    obtain ⟨ids, -, rfl⟩ := hydrate_eq hstep
    exact le_refl _
  | respond w i r =>
    obtain ⟨tasks, work, -, -, rfl⟩ := respond_eq hstep
    exact le_refl _
  | write w i delay =>
    obtain ⟨tasks, work, r, f, -, -, -, hf, rfl⟩ := write_eq
      (fun tasks t hw ht => h.text w tasks hw t (List.mem_of_getElem? ht)) hstep
    refine Table.countP_update_le fun d _ _ hdue => ?_
    rw [hf.not_isDueBy hlate d] at hdue
    cases hdue
  | dbError w i => exact absurd rfl (hlone.noDbError w i)
  | crash w => exact absurd rfl (hlone.noCrash w)
  | redeliver businessId deliveryId =>
    cases step_effect hstep with
    | release howner _ _ => cases howner
    | redeliver hredeliver =>
      obtain ⟨-, rfl⟩ := WebhookService.redeliver_eq_ok hredeliver
      refine Table.countP_update_le fun d _ _ hdue => ?_
      simp only [isDueBy, WebhookService.redelivered, Bool.and_eq_true] at hdue
      exact absurd (of_decide_eq_true hdue.2) (not_le.mpr hlate)

/-- A batch that leaves a waiting delivery behind takes others that are due by then. -/
theorem dueBy_claim (h : Tended s) {w : WorkerId} {locked ids : List Uuid}
    (hstep : step maxAttempts s (.claim w locked ids) = some s')
    (hlone : LoneStep ⟨s, .claim w locked ids, s'⟩) {d : WebhookDelivery}
    (hd : d ∈ s.db.webhookDeliveries) (hwaits : isDueBy d.nextAttemptAt d = true)
    (hlate : d.nextAttemptAt < s.now) (hfree : d.id ∉ locked) (hleft : d.id ∉ ids) :
    dueBy d.nextAttemptAt s' < dueBy d.nextAttemptAt s := by
  obtain ⟨hw, hbatch, rfl⟩ := claim_eq hstep
  have hdue : Dispatcher.isDue s.now d = true := by
    simp only [isDueBy, Bool.and_eq_true] at hwaits
    simp only [Dispatcher.isDue, hwaits.1, Bool.true_and, Bool.or_eq_true, decide_eq_true_eq]
    exact .inl (le_of_lt hlate)
  have hfull := Table.full_of_isBatch hbatch hd hdue hfree hleft
  obtain ⟨uid, huid⟩ := List.exists_mem_of_length_pos (by rw [hfull]; decide : 0 < ids.length)
  obtain ⟨b, hb, rfl, hbdue⟩ := (Dispatcher.isDue_of_isBatch hbatch).2 _ huid
  have hbefore := of_decide_eq_true (Table.before_of_isBatch hbatch hb huid hd hdue hfree hleft)
  -- nothing is in flight when a dispatcher alone claims
  have hidle : b.status ≠ .inFlight := by
    intro hst
    obtain ⟨r, v, V, hv, hhand⟩ := h.inHand b hb hst
    have hheld := hhand.mem_held
    rw [hlone.alone w locked ids rfl v V hv] at hheld
    cases hheld
  have hcounted : isDueBy d.nextAttemptAt b = true := by
    simp only [Dispatcher.isDue, Bool.or_eq_true, Bool.and_eq_true, decide_eq_true_eq,
      hidle, false_and, or_false] at hbdue
    simp only [isDueBy, Bool.and_eq_true, Bool.or_eq_true, decide_eq_true_eq]
    exact ⟨hbdue.1, hbefore⟩
  refine Table.countP_update_lt (fun e _ _ hin => ?_) hb (List.contains_iff_mem.mpr huid) hcounted ?_
  · simp [isDueBy, Dispatcher.claimed] at hin
  · simp [isDueBy, Dispatcher.claimed]

/-! ## One dispatcher -/

/-- A run of one dispatcher that does not crash, from the beginning. It claims again and again,
and time passes. -/
structure LoneDispatcher (e : (system maxAttempts).Execution) : Prop where
  initial : Initial (e.state 0)
  lone : ∀ n, LoneStep (e.transition n)
  goesOn : ∀ n t, ∃ m, n ≤ m ∧ t < (e.state m).now ∧ ∃ w locked ids, e.label m = .claim w locked ids

/-- The `n`-th step fans the delivery out or replays it, and from then on it is left to the
dispatcher: nobody else replays or locks it, and its `j`-th send gets the answer `o j`. -/
structure Attended (e : (system maxAttempts).Execution) (id : Uuid) (n : ℕ)
    (o : ℕ → SendResult) : Prop where
  starts : Starts id (e.transition n)
  replays : ∀ m, n < m → Replays id (e.transition m) = false
  unlocked : ∀ m, n < m → ∀ w locked ids, e.label m = .claim w locked ids → id ∉ locked
  answers : ∀ i, ∃ len, answersTo id (e.window (n + 1) i) = (List.range len).map fun j => o (j + 1)

/-- The position of the answer after which there is no further send: the first `2xx`, the first
`4xx` that is not to be retried, or the last one the budget allows. -/
def IsLastSend (maxAttempts : Int) (o : ℕ → SendResult) (k : ℕ) : Prop :=
  IsLeast {j : ℕ | 1 ≤ j ∧
    (isSuccess (o j) = true ∨ isRejected (o j) = true ∨ (j : Int) = max 1 maxAttempts)} k

/-- What the policy promises of a delivery after the `n`-th step, if its `k`-th answer is the
last one. -/
structure Delivers (e : (system maxAttempts).Execution) (id : Uuid) (n : ℕ) (o : ℕ → SendResult)
    (k : ℕ) : Prop where
  /-- It is claimed and sent `k` times. -/
  sends : ∃ N, ∀ i, N ≤ i → (answersTo id (e.window (n + 1) i)).length = k ∧
    (e.window (n + 1) i).countP (Claims id) = k
  /-- The last answer decides how it ends, and then nobody has it in hand. -/
  outcome : ∃ N, ∀ m, N ≤ m → (∃ d ∈ (e.state m).db.webhookDeliveries, d.id = id ∧
    d.status = if isSuccess (o k) then .succeeded else .dead) ∧ ∀ r, ¬ InHand (e.state m) id r
  /-- Every other answer is written as a failure with a bounded backoff. -/
  retries : ∀ j, 1 ≤ j → j < k → ∃ m, n < m ∧ Writes id (e.transition m) = true ∧
    (answersTo id (e.window (n + 1) (m - (n + 1)))).length = j ∧
    ∃ d ∈ (e.state (m + 1)).db.webhookDeliveries, d.id = id ∧ d.status = .failed ∧
      d.attempts = j ∧ d.nextAttemptAt ≤ (e.state m).now + seconds (min 3600 (10 * 2 ^ (j - 1)) : ℕ)
  /-- Once it has ended it is never claimed again. -/
  stays : ∀ m, n < m → (∃ d ∈ (e.state m).db.webhookDeliveries, d.id = id ∧ d.status.IsTerminal) →
    ∀ m', m ≤ m' → Claims id (e.transition m') = false

/-! ## Which answer is final -/

theorem final_of_isLastSend {o : ℕ → SendResult} {k : ℕ} (h : IsLastSend maxAttempts o k) :
    isFinal maxAttempts k (o k) = true := by
  obtain ⟨hpos, hlast⟩ := h.1
  simp only [isFinal, Bool.or_eq_true, decide_eq_true_eq]
  rcases hlast with hsuccess | hrejected | hspent
  · exact .inl (.inl hsuccess)
  · exact .inl (.inr hrejected)
  · exact .inr (by omega)

/-- No earlier answer is. -/
theorem le_of_final {o : ℕ → SendResult} {k j : ℕ} (h : IsLastSend maxAttempts o k) (hj : 1 ≤ j)
    (hfinal : isFinal maxAttempts j (o j) = true) : k ≤ j := by
  simp only [isFinal, Bool.or_eq_true, decide_eq_true_eq] at hfinal
  rcases hfinal with (hsuccess | hrejected) | hspent
  · exact h.2 ⟨hj, .inl hsuccess⟩
  · exact h.2 ⟨hj, .inr (.inl hrejected)⟩
  · -- the budget is spent at the latest here
    have hbudget : k ≤ (max 1 maxAttempts).toNat := by
      refine h.2 ⟨by omega, .inr (.inr ?_)⟩
      omega
    omega

section Answers

variable {o : ℕ → SendResult} {k len : ℕ} {xs : List Step} {life : Life}

/-- The answers are those of the receiver. -/
theorem Recorded.answer (h : Recorded maxAttempts id xs life)
    (ho : answersTo id xs = (List.range len).map fun j => o (j + 1)) {j : ℕ} {r : SendResult}
    (hj : life.heard[j]? = some r) : r = o (j + 1) := by
  rw [← h.heard, ho, List.getElem?_map] at hj
  obtain ⟨i, hi, rfl⟩ := Option.map_eq_some_iff.mp hj
  obtain ⟨hlt, hval⟩ := List.getElem?_eq_some_iff.mp hi
  rw [List.getElem_range] at hval
  rw [hval]

/-- All earlier answers come before the last one. -/
theorem Recorded.answers_lt (h : Recorded maxAttempts id xs life)
    (ho : answersTo id xs = (List.range len).map fun j => o (j + 1))
    (hk : IsLastSend maxAttempts o k) : life.answers.length < k := by
  obtain ⟨hpos, -⟩ := hk.1
  by_contra hge
  have hlt : k - 1 < life.answers.length := by omega
  have hget : life.answers[k - 1]? = some life.answers[k - 1] := List.getElem?_eq_getElem hlt
  have hheard : life.heard[k - 1]? = some life.answers[k - 1] := by
    cases life with
    | waiting answers due => exact hget
    | sending answers => exact hget
    | answered answers r =>
      simp only [Life.answers] at hlt hget ⊢
      rw [Life.heard, List.getElem?_append_left hlt, hget]
    | ended answers r =>
      simp only [Life.answers] at hlt hget ⊢
      rw [Life.heard, List.getElem?_append_left hlt, hget]
  have hnot := h.sane.1 (k - 1) _ hget
  have hsame : k - 1 + 1 = k := by omega
  rw [h.answer ho hheard, hsame, final_of_isLastSend hk] at hnot
  cases hnot

/-- A delivery that has ended has had its `k` answers. -/
theorem Recorded.ended {answers : List SendResult} {r : SendResult}
    (h : Recorded maxAttempts id xs (.ended answers r))
    (ho : answersTo id xs = (List.range len).map fun j => o (j + 1))
    (hk : IsLastSend maxAttempts o k) : answers.length + 1 = k ∧ r = o k := by
  have hlt : answers.length < k := h.answers_lt ho hk
  have hr : r = o (answers.length + 1) := by
    refine h.answer ho ?_
    rw [Life.heard, List.getElem?_concat_length]
  have hfinal := h.sane.2 answers r rfl
  rw [hr] at hfinal
  have hle := le_of_final hk (by omega) hfinal
  have heq : answers.length + 1 = k := by omega
  rw [← heq]
  exact ⟨rfl, hr⟩

/-- There are no more than `3 k` events. -/
theorem Recorded.eventCount_le (h : Recorded maxAttempts id xs life)
    (ho : answersTo id xs = (List.range len).map fun j => o (j + 1))
    (hk : IsLastSend maxAttempts o k) : eventCount id xs ≤ 3 * k := by
  have hlt := h.answers_lt ho hk
  rw [h.stage]
  cases life <;> simp [Life.stage, Life.heard, Life.claims, Life.writes, Life.answers] at hlt ⊢ <;>
    omega

end Answers

/-! ## Along the run -/

section Run

variable {e : (system maxAttempts).Execution} {n k : ℕ} {o : ℕ → SendResult}

theorem LoneDispatcher.tended (h : LoneDispatcher e) (m : ℕ) : Tended (e.state m) := by
  induction m with
  | zero => exact tended_initial h.initial
  | succ m ih => exact tended_step ih (e.step m) (h.lone m)

/-- The delivery lives, and the steps since its beginning have recorded it. -/
def Follows (e : (system maxAttempts).Execution) (id : Uuid) (n i : ℕ) (life : Life) : Prop :=
  Lives (e.state (n + 1 + i)) id life ∧ Recorded maxAttempts id (e.window (n + 1) i) life

theorem Follows.next (hmax : maxAttempts ≤ 64) (h : LoneDispatcher e) (ha : Attended e id n o)
    {i : ℕ} {life : Life} (hlife : Follows e id n i life) :
    ∃ life', Life.Next maxAttempts (e.state (n + 1 + i)).now life
      (eventOf id (e.transition (n + 1 + i))) life' ∧ Follows e id n (i + 1) life' := by
  obtain ⟨hlives, hrecorded⟩ := hlife
  obtain ⟨life', hnext, hlives'⟩ := lives_step hmax (h.tended _) hlives (e.step (n + 1 + i))
    (h.lone _) (ha.replays _ (by omega))
  refine ⟨life', hnext, hlives', ?_⟩
  rw [Execution.window_succ]
  exact hrecorded.snoc hnext

/-- At every moment after its beginning the delivery is somewhere in its life. -/
theorem exists_follows (hmax : maxAttempts ≤ 64) (h : LoneDispatcher e) (ha : Attended e id n o)
    (i : ℕ) : ∃ life, Follows e id n i life := by
  induction i with
  | zero =>
    refine ⟨.waiting [] (e.state n).now, lives_starts (e.step n) ha.starts, rfl, rfl, rfl, ?_⟩
    refine ⟨fun j r hj => ?_, fun _ _ hended => ?_⟩
    · cases hj
    · cases hended
  | succ i ih =>
    obtain ⟨life, hlife⟩ := ih
    obtain ⟨life', -, hlife'⟩ := hlife.next hmax h ha
    exact ⟨life', hlife'⟩

/-- A delivery that has ended stays as it is. -/
theorem Follows.ended (hmax : maxAttempts ≤ 64) (h : LoneDispatcher e) (ha : Attended e id n o)
    {i : ℕ} {answers : List SendResult} {r : SendResult}
    (hlife : Follows e id n i (.ended answers r)) {i' : ℕ} (hi : i ≤ i') :
    Follows e id n i' (.ended answers r) ∧ eventOf id (e.transition (n + 1 + i')) = none := by
  have hkeep : ∀ i, Follows e id n i (.ended answers r) →
      Follows e id n (i + 1) (.ended answers r) ∧
        eventOf id (e.transition (n + 1 + i)) = none := by
    intro i hi
    obtain ⟨life', hnext, hlife'⟩ := hi.next hmax h ha
    generalize eventOf id (e.transition (n + 1 + i)) = event at hnext ⊢
    cases hnext with
    | idle => exact ⟨hlife', rfl⟩
  have hall : Follows e id n i' (.ended answers r) := by
    induction i', hi using Nat.le_induction with
    | base => exact hlife
    | succ i' hi ih => exact (hkeep i' ih).1
  exact ⟨hall, (hkeep i' hall).2⟩

/-- A delivery to which nothing happens from some moment on is where it is for ever. -/
theorem Follows.stuck (hmax : maxAttempts ≤ 64) (h : LoneDispatcher e) (ha : Attended e id n o)
    {i : ℕ} {life : Life} (hlife : Follows e id n i life)
    (hstuck : ∀ i', i ≤ i' →
      eventCount id (e.window (n + 1) i') ≤ eventCount id (e.window (n + 1) i)) {i' : ℕ}
    (hi : i ≤ i') : Follows e id n i' life ∧ eventOf id (e.transition (n + 1 + i')) = none := by
  have hkeep : ∀ i', i ≤ i' → Follows e id n i' life →
      Follows e id n (i' + 1) life ∧ eventOf id (e.transition (n + 1 + i')) = none := by
    intro i' hi hthere
    obtain ⟨life', hnext, hlife'⟩ := hthere.next hmax h ha
    rcases hnext.stage with ⟨hnone, rfl⟩ | hmore
    · exact ⟨hlife', hnone⟩
    · have hle := hstuck (i' + 1) (by omega)
      rw [hlife'.2.stage, hlife.2.stage] at hle
      omega
  have hall : Follows e id n i' life := by
    induction i', hi using Nat.le_induction with
    | base => exact hlife
    | succ i' hi ih => exact (hkeep i' hi ih).1
  exact ⟨hall, (hkeep i' hi hall).2⟩

/-- A delivery in hand is out of it before the next claim. -/
theorem not_inHand_forever (h : LoneDispatcher e) {m : ℕ}
    (hhand : ∀ m', m ≤ m' → ∃ r, InHand (e.state m') id r) : False := by
  obtain ⟨m', hm, -, w, locked, ids, hl⟩ := h.goesOn m 0
  obtain ⟨r, v, V, hv, hr⟩ := hhand m' hm
  have hheld := hr.mem_held
  rw [(h.lone m').alone w locked ids hl v V hv] at hheld
  cases hheld

/-- A delivery does not wait for ever: once it is due, each batch without it takes others that
are due before it, and these run out. -/
theorem not_waiting_forever (h : LoneDispatcher e) (ha : Attended e id n o) {i : ℕ}
    {answers : List SendResult} {due : Timestamp}
    (hwaits : ∀ i', i ≤ i' → Follows e id n i' (.waiting answers due) ∧
      eventOf id (e.transition (n + 1 + i')) = none) : False := by
  -- from `m₀` on it is due
  obtain ⟨m₀, hm₀, hpast, -⟩ := h.goesOn (n + 1 + i) due
  have hlate : ∀ m, m₀ ≤ m → due < (e.state m).now := by
    intro m hm
    refine e.keeps (P := fun s => due < s.now) hpast (fun m _ hlt => ?_) hm
    exact lt_of_lt_of_le hlt (step_effect (e.step m)).now_le
  have hticks : ∀ m, ∃ m', m ≤ m' ∧ ∃ w locked ids, e.label m' = .claim w locked ids := by
    intro m
    obtain ⟨m', hm', -, hclaim⟩ := h.goesOn m 0
    exact ⟨m', hm', hclaim⟩
  refine TransitionSystem.not_forever (n := m₀) (μ := fun m => dueBy due (e.state m)) hticks ?_ ?_
  · intro m hm
    exact dueBy_step (h.tended m) (hlate m hm) (e.step m) (h.lone m)
  · rintro m hm ⟨w, locked, ids, hl⟩
    obtain ⟨i', rfl⟩ := Nat.exists_eq_add_of_le (show n + 1 ≤ m by omega)
    obtain ⟨⟨⟨d, hd, hid, hst, -, hdue⟩, -⟩, hnone⟩ := hwaits i' (by omega)
    have hleft : d.id ∉ ids := by
      intro hin
      rw [hid] at hin
      simp only [eventOf, Execution.transition, hl, List.contains_iff_mem.mpr hin, if_true] at hnone
      cases hnone
    have hstep : step maxAttempts (e.state (n + 1 + i')) (.claim w locked ids) =
        some (e.state (n + 1 + i' + 1)) := by
      rw [← hl]
      exact e.step _
    have hlone := h.lone (n + 1 + i')
    rw [Execution.transition, hl] at hlone
    rw [← hdue]
    refine dueBy_claim (h.tended _) hstep hlone hd ?_ ?_ ?_ hleft
    · simp only [isDueBy, hst, le_refl, decide_true, Bool.and_true]
      split_ifs <;> rfl
    · rw [hdue]
      exact hlate _ hm
    · rw [hid]
      exact ha.unlocked _ (by omega) w locked ids hl

/-- As long as the delivery has not ended, something will happen to it. -/
theorem progress (hmax : maxAttempts ≤ 64) (h : LoneDispatcher e) (ha : Attended e id n o) {i : ℕ}
    (hnot : ¬ ∃ answers r, Follows e id n i (.ended answers r)) :
    ∃ i', i ≤ i' ∧
      eventCount id (e.window (n + 1) i) < eventCount id (e.window (n + 1) i') := by
  by_contra hnone
  have hstuck : ∀ i', i ≤ i' →
      eventCount id (e.window (n + 1) i') ≤ eventCount id (e.window (n + 1) i) := by
    intro i' hi
    by_contra hgt
    exact hnone ⟨i', hi, by omega⟩
  obtain ⟨life, hlife⟩ := exists_follows hmax h ha i
  have hthere := fun i' (hi : i ≤ i') => hlife.stuck hmax h ha hstuck hi
  cases life with
  | waiting answers due => exact not_waiting_forever h ha hthere
  | sending answers =>
    have hhand : ∀ m, n + 1 + i ≤ m → ∃ r, InHand (e.state m) id r := by
      intro m hm
      obtain ⟨i', rfl⟩ := Nat.exists_eq_add_of_le (show n + 1 ≤ m by omega)
      obtain ⟨⟨⟨d, -, rfl, -, -, hhand⟩, -⟩, -⟩ := hthere i' (by omega)
      exact ⟨none, hhand⟩
    exact not_inHand_forever h hhand
  | answered answers r =>
    have hhand : ∀ m, n + 1 + i ≤ m → ∃ r, InHand (e.state m) id r := by
      intro m hm
      obtain ⟨i', rfl⟩ := Nat.exists_eq_add_of_le (show n + 1 ≤ m by omega)
      obtain ⟨⟨⟨d, -, rfl, -, -, hhand⟩, -⟩, -⟩ := hthere i' (by omega)
      exact ⟨some r, hhand⟩
    exact not_inHand_forever h hhand
  | ended answers r => exact hnot ⟨answers, r, hlife⟩

/-- The delivery ends. -/
theorem exists_ended (hmax : maxAttempts ≤ 64) (h : LoneDispatcher e) (ha : Attended e id n o)
    (hk : IsLastSend maxAttempts o k) :
    ∃ i answers r, Follows e id n i (.ended answers r) := by
  have hle : ∀ i, eventCount id (e.window (n + 1) i) ≤ 3 * k := by
    intro i
    obtain ⟨life, -, hrecorded⟩ := exists_follows hmax h ha i
    obtain ⟨len, ho⟩ := ha.answers i
    exact hrecorded.eventCount_le ho hk
  obtain ⟨i, -, hended⟩ := TransitionSystem.exists_of_rank (n := 0)
    (fun i => 3 * k - eventCount id (e.window (n + 1) i)) fun i _ hnot => by
      obtain ⟨i', hi, hlt⟩ := progress hmax h ha hnot
      have hbound := hle i'
      exact ⟨i', hi, by omega⟩
  exact ⟨i, hended⟩

/-! ## The policy -/

theorem claims_of_event_none {x : Step} (h : eventOf id x = none) : Claims id x = false := by
  rw [claims_eq, h]

/-- A succeeded or dead delivery has ended. -/
theorem Lives.ended_of_terminal (ht : Tended s) {life : Life} (hlife : Lives s id life)
    (hterminal : ∃ d ∈ s.db.webhookDeliveries, d.id = id ∧ d.status.IsTerminal) :
    ∃ answers r, life = .ended answers r := by
  obtain ⟨d, hd, rfl, hshow⟩ := hlife
  obtain ⟨d', hd', hid, hst⟩ := hterminal
  rw [ht.leased.delivery_eq hd' hd hid] at hst
  cases life with
  | waiting answers due =>
    have hstatus := hshow.1
    split_ifs at hstatus <;> rcases hst with hst | hst <;> cases hst.symm.trans hstatus
  | sending answers => exact absurd hshow.1 (not_inFlight_of_terminal hst)
  | answered answers r => exact absurd hshow.1 (not_inFlight_of_terminal hst)
  | ended answers r => exact ⟨answers, r, rfl⟩

/-- The write of the `j`-th outcome, for each `j` before the last. -/
theorem retry_written (hmax : maxAttempts ≤ 64) (h : LoneDispatcher e) (ha : Attended e id n o)
    (hk : IsLastSend maxAttempts o k) {j : ℕ} (hpos : 1 ≤ j) (hj : j < k) :
    ∃ m, n < m ∧ Writes id (e.transition m) = true ∧
      (answersTo id (e.window (n + 1) (m - (n + 1)))).length = j ∧
      ∃ d ∈ (e.state (m + 1)).db.webhookDeliveries, d.id = id ∧ d.status = .failed ∧
        d.attempts = j ∧
        d.nextAttemptAt ≤ (e.state m).now + seconds (min 3600 (10 * 2 ^ (j - 1)) : ℕ) := by
  -- the first moment with `j` outcomes
  have hmany : ∃ i, j ≤ (e.window (n + 1) i).countP (Writes id) := by
    obtain ⟨i, answers, r, hended⟩ := exists_ended hmax h ha hk
    obtain ⟨len, ho⟩ := ha.answers i
    have hlast := (hended.2.ended ho hk).1
    refine ⟨i, ?_⟩
    rw [hended.2.writes]
    show j ≤ answers.length + 1
    omega
  classical
  obtain ⟨i, hi⟩ : ∃ i, Nat.find hmany = i + 1 := by
    refine Nat.exists_eq_succ_of_ne_zero fun hzero => ?_
    have hfirst := Nat.find_spec hmany
    rw [hzero, Execution.window_zero, List.countP_nil] at hfirst
    omega
  have hbefore : (e.window (n + 1) i).countP (Writes id) < j := by
    have hnot := Nat.find_min hmany (show i < Nat.find hmany by omega)
    omega
  have hafter : j ≤ (e.window (n + 1) (i + 1)).countP (Writes id) := by
    rw [← hi]
    exact Nat.find_spec hmany
  rw [Execution.window_succ, List.countP_append, List.countP_singleton] at hafter
  have hwrites : Writes id (e.transition (n + 1 + i)) = true := by
    by_contra hnot
    rw [if_neg hnot] at hafter
    omega
  obtain ⟨life, hlife⟩ := exists_follows hmax h ha i
  obtain ⟨life', hnext, hlife'⟩ := hlife.next hmax h ha
  refine ⟨n + 1 + i, by omega, hwrites, ?_⟩
  rw [Nat.add_sub_cancel_left]
  rw [hlife.2.writes] at hbefore hafter
  rw [hlife.2.heard]
  have hevent : eventOf id (e.transition (n + 1 + i)) = some .written := by
    unfold Writes at hwrites
    split at hwrites
    · rename_i hevent
      exact hevent
    · cases hwrites
  rw [hevent] at hnext
  rw [if_pos hwrites] at hafter
  cases hnext with
  | @retry answers r due hretry hfrom hto =>
    simp only [Life.writes] at hbefore hafter
    obtain rfl : answers.length + 1 = j := by omega
    refine ⟨by simp [Life.heard], ?_⟩
    obtain ⟨⟨d, hd, hid, hst, hattempts, hdue⟩, -⟩ := hlife'
    refine ⟨d, hd, hid, ?_, ?_, ?_⟩
    · rw [hst, if_neg (by simp)]
    · rw [hattempts]
      simp
    · rw [hdue, Nat.add_sub_cancel]
      have hideal : Dispatcher.idealCeiling (answers.length + 1) =
          min 3600 (10 * 2 ^ answers.length) := by
        simp [Dispatcher.idealCeiling]
      rw [hideal] at hto
      exact hto
  | @finish answers r hfinal =>
    -- the outcome would be the last one
    simp only [Life.writes] at hbefore hafter
    obtain ⟨len, ho⟩ := ha.answers (i + 1)
    have hlast := (hlife'.2.ended ho hk).1
    omega

/-- Under one dispatcher that does not crash, a delivery that is fanned out or replayed is sent
until its first final answer, waits between two sends as the backoff has it, and ends as that
answer says. -/
theorem retry_policy (maxAttempts : Int) (hmax : maxAttempts ≤ 64)
    (e : (system maxAttempts).Execution) (h : LoneDispatcher e) (id : Uuid) (n : ℕ)
    (o : ℕ → SendResult) (ha : Attended e id n o) (k : ℕ) (hk : IsLastSend maxAttempts o k) :
    Delivers e id n o k := by
  obtain ⟨i, answers, r, hended⟩ := exists_ended hmax h ha hk
  obtain ⟨len, ho⟩ := ha.answers i
  obtain ⟨hlast, rfl⟩ := hended.2.ended ho hk
  have hstays := fun i' (hi : i ≤ i') => hended.ended hmax h ha hi
  constructor
  · refine ⟨i, fun i' hi => ?_⟩
    obtain ⟨⟨-, hrecorded⟩, -⟩ := hstays i' hi
    rw [hrecorded.heard, hrecorded.claims, Life.heard, Life.claims, List.length_append,
      List.length_singleton]
    exact ⟨hlast, hlast⟩
  · refine ⟨n + 1 + i, fun m hm => ?_⟩
    obtain ⟨i', rfl⟩ := Nat.exists_eq_add_of_le (show n + 1 ≤ m by omega)
    obtain ⟨⟨⟨d, hd, rfl, hst⟩, -⟩, -⟩ := hstays i' (by omega)
    have hstatus : d.status = if isSuccess (o k) then .succeeded else .dead := hst
    refine ⟨⟨d, hd, rfl, hstatus⟩, ?_⟩
    rintro q ⟨w, W, hw, hhand⟩
    have hterminal : d.status.IsTerminal := by
      rw [hstatus]
      split_ifs
      · exact .inl rfl
      · exact .inr rfl
    exact (h.tended _).leased.not_held hd hterminal hw hhand.mem_held
  · intro j hpos hj
    exact retry_written hmax h ha hk hpos hj
  · intro m hm hterminal m' hm'
    obtain ⟨i₀, rfl⟩ := Nat.exists_eq_add_of_le (show n + 1 ≤ m by omega)
    obtain ⟨i', rfl⟩ := Nat.exists_eq_add_of_le (show n + 1 ≤ m' by omega)
    obtain ⟨life, hlife⟩ := exists_follows hmax h ha i₀
    obtain ⟨answers', r, rfl⟩ := hlife.1.ended_of_terminal (h.tended _) hterminal
    exact claims_of_event_none (hlife.ended hmax h ha (by omega : i₀ ≤ i')).2

end Run

/-! ## A dispatcher with one delivery -/

/-- The receiver fails, cannot be reached, asks to slow down and then refuses the delivery `40`;
each retry comes when it is due. -/
def refusedRun : List Label :=
  outboxRun ++ sendRun 1 (.response 500) ++ [.write 1 0 10, .advance (seconds 10)]
    ++ sendRun 2 (.error "connection refused") ++ [.write 2 0 20, .advance (seconds 30)]
    ++ sendRun 3 (.response 429) ++ [.write 3 0 40, .advance (seconds 70)]
    ++ sendRun 4 (.response 404) ++ [.write 4 0 0]

/-- What the receiver answers. -/
def refusals : ℕ → SendResult
  | 1 => .response 500
  | 2 => .error "connection refused"
  | 3 => .response 429
  | _ => .response 404

/-- The workers `1` to `4` take the delivery in turn; nothing fails and nothing is replayed. -/
def takesTurns (x : Step) : Bool :=
  match x.label with
  | .claim w locked _ => [1, 2, 3, 4].contains w && locked.isEmpty &&
      [1, 2, 3, 4].all fun v => (x.pre.workers v).all fun V => V.held.isEmpty
  | .respond _ _ (.error message) => isPgText message
  | .crash _ | .dbError _ _ | .redeliver _ _ => false
  | _ => true

theorem takesTurns_refusedRun :
    ∀ x ∈ (system 8).steps shop refusedRun, takesTurns x = true :=
  List.all_eq_true.mp (by decide +kernel)

/-- A worker of the run is one of the four. -/
theorem worker_refusedRun {t : State} (ht : t ∈ (system 8).states shop refusedRun) {v : WorkerId}
    {V : Worker} (hv : t.workers v = some V) : v ∈ [1, 2, 3, 4] := by
  refine worker_of_claims (P := fun v => v ∈ [1, 2, 3, 4]) shop_initial ?_ ht hv
  intro x hx w locked ids hl
  have hturns := takesTurns_refusedRun x hx
  simp only [takesTurns, hl, Bool.and_eq_true] at hturns
  exact List.contains_iff_mem.mp hturns.1.1

/-- Every step is one of a lone dispatcher, replays nothing and finds no row locked. -/
theorem step_refusedRun {x : Step} (hx : x ∈ (system 8).steps shop refusedRun) :
    LoneStep x ∧ (∀ businessId deliveryId, x.label ≠ .redeliver businessId deliveryId) ∧
      ∀ w locked ids, x.label = .claim w locked ids → locked = [] := by
  have hturns := takesTurns_refusedRun x hx
  obtain ⟨-, hpre⟩ := TransitionSystem.step_of_mem_steps hx
  refine ⟨⟨fun w locked ids hl v V hv => ?_, fun w hl => ?_, fun w i hl => ?_,
    fun w i message hl => ?_⟩, fun businessId deliveryId hl => ?_, fun w locked ids hl => ?_⟩
  all_goals simp only [takesTurns, hl, Bool.and_eq_true] at hturns
  · have hheld := List.all_eq_true.mp hturns.2 v (worker_refusedRun hpre hv)
    rw [hv, Option.all_some] at hheld
    exact List.isEmpty_iff.mp hheld
  · cases hturns
  · cases hturns
  · exact hturns
  · cases hturns
  · exact List.isEmpty_iff.mp hturns.1.2

/-- Nothing is left to do; worker ids from `100 + n` on are unused. -/
structure Idle (n : ℕ) (s : State) : Prop where
  late : ((n + n % 2 : ℕ) : Int) ≤ s.now
  done : ∀ d ∈ s.db.webhookDeliveries, d.status.IsTerminal
  held : ∀ v V, s.workers v = some V → V.held = []
  fresh : ∀ v, 100 + n ≤ v → s.workers v = none

/-- The clock moves on, and the dispatcher claims an empty batch. -/
def idleLabel (n : ℕ) (s : State) : Label :=
  if n % 2 = 0 then .advance (s.now + 2) else .claim (100 + n) [] []

theorem idle_step {n : ℕ} (h : Idle n s) :
    ∃ s', step maxAttempts s (idleLabel n s) = some s' ∧ Idle (n + 1) s' := by
  unfold idleLabel
  by_cases heven : n % 2 = 0
  · rw [if_pos heven]
    have hnow : s.now ≤ s.now + 2 := le_add_of_nonneg_right (by decide)
    refine ⟨{ s with now := s.now + 2 }, ?_, ?_, h.done, h.held, fun v hv => h.fresh v (by omega)⟩
    · simp only [step, if_pos hnow]
    · have hlate : ((n + 1 + (n + 1) % 2 : ℕ) : Int) ≤ ((n + n % 2 : ℕ) : Int) + 2 := by omega
      exact hlate.trans (Int.add_le_add_right h.late 2)
  · rw [if_neg heven]
    -- no delivery is due
    have hnone : ∀ d ∈ s.db.webhookDeliveries, Dispatcher.isDue s.now d = false := by
      intro d hd
      rcases h.done d hd with hst | hst <;> simp [Dispatcher.isDue, hst]
    have hbatch : Dispatcher.isBatch s.db s.now [] [] = true := by
      simp only [Dispatcher.isBatch, Table.isBatch, Bool.and_eq_true, List.all_eq_true]
      refine ⟨⟨⟨by simp, by simp⟩, by simp⟩, fun d hd => ?_⟩
      rw [hnone d hd]
      rfl
    have hclaim : Dispatcher.claim s.db s.now [] = .ok s.db := by
      simp [Dispatcher.claim, Table.update]
    have hstep : step maxAttempts s (.claim (100 + n) [] []) =
        some (((s.setDb s.db).setClaim [] (some (100 + n))).setWorker (100 + n) (.sending [])) := by
      simp only [step, claimStep, h.fresh _ (le_refl _), if_pos hbatch, hclaim, if_true]
    refine ⟨_, hstep, ?_, h.done, fun v V hv => ?_, fun v hv => ?_⟩
    · have hlate : ((n + 1 + (n + 1) % 2 : ℕ) : Int) ≤ ((n + n % 2 : ℕ) : Int) := by omega
      exact hlate.trans h.late
    · rcases workers_setWorker hv with ⟨-, rfl⟩ | ⟨-, hv⟩
      · rfl
      · exact h.held v V hv
    · have hne : v ≠ 100 + n := by omega
      exact (if_neg hne).trans (h.fresh v (by omega))

/-- What is left after the run. -/
theorem exists_idle : ∃ t, (system 8).run shop refusedRun = some t ∧ Idle 0 t := by
  have hcheck : ((system 8).run shop refusedRun).any (fun t =>
      decide (0 ≤ t.now) && t.db.webhookDeliveries.all (fun d => d.status = .dead) &&
        [1, 2, 3, 4].all fun v => (t.workers v).all fun V => V.held.isEmpty) = true := by
    decide +kernel
  cases hrun : (system 8).run shop refusedRun with
  | none =>
    rw [hrun] at hcheck
    cases hcheck
  | some t =>
    rw [hrun] at hcheck
    simp only [Option.any_some, Bool.and_eq_true, decide_eq_true_eq] at hcheck
    obtain ⟨⟨hnow, hdone⟩, hheld⟩ := hcheck
    have hworker : ∀ v V, t.workers v = some V → v ∈ [1, 2, 3, 4] := fun v V hv =>
      worker_refusedRun (TransitionSystem.mem_states_of_run hrun) hv
    refine ⟨t, rfl, hnow, fun d hd => ?_, fun v V hv => ?_, fun v hv => ?_⟩
    · exact .inr (of_decide_eq_true (List.all_eq_true.mp hdone d hd))
    · have hempty := List.all_eq_true.mp hheld v (hworker v V hv)
      rw [hv, Option.all_some] at hempty
      exact List.isEmpty_iff.mp hempty
    · cases hw : t.workers v with
      | none => rfl
      | some V =>
        have hfour := hworker v V hw
        simp only [List.mem_cons, List.not_mem_nil, or_false] at hfour
        rcases hfour with rfl | rfl | rfl | rfl <;> exact absurd hv (by decide)

theorem idleLabel_cases (n : ℕ) (s : State) :
    (∃ now, idleLabel n s = .advance now) ∨ idleLabel n s = .claim (100 + n) [] [] := by
  unfold idleLabel
  split_ifs
  · exact .inl ⟨_, rfl⟩
  · exact .inr rfl

theorem loneStep_idle {n : ℕ} (h : Idle n s) : LoneStep ⟨s, idleLabel n s, s'⟩ := by
  refine ⟨fun _ _ _ _ => h.held, fun w hl => ?_, fun w i hl => ?_, fun w i message hl => ?_⟩
  all_goals
    rcases idleLabel_cases n s with ⟨now, hidle⟩ | hidle <;> cases hidle.symm.trans hl

/-- `refusedRun`, and then nothing more to do. -/
structure Refused (e : (system 8).Execution) : Prop where
  start : e.state 0 = shop
  first : e.window 0 22 = (system 8).steps shop refusedRun
  later : ∀ n, Idle n (e.state (22 + n)) ∧ e.label (22 + n) = idleLabel n (e.state (22 + n))

theorem exists_refused : ∃ e, Refused e := by
  obtain ⟨t, hrun, hidle⟩ := exists_idle
  have hnext : ∀ n s, Idle n s →
      ∃ s', (system 8).step s (idleLabel n s) = some s' ∧ Idle (n + 1) s' := fun n s => idle_step
  obtain ⟨e₀, hstart, hlater⟩ := Execution.exists_of_strategy hidle hnext
  rw [← hstart] at hrun
  obtain ⟨e, hzero, hwindow, hshift⟩ := e₀.exists_append hrun
  refine ⟨e, hzero, hwindow, fun n => ?_⟩
  have hsame := hshift n
  have hlength : refusedRun.length = 22 := rfl
  simp only [Execution.transition, TransitionSystem.Transition.mk.injEq, hlength] at hsame
  rw [hsame.1, hsame.2.1]
  exact hlater n

section Refused

variable {e : (system 8).Execution}

/-- A step is one of `refusedRun` or an idle one. -/
theorem Refused.step_cases (h : Refused e) (n : ℕ) :
    e.transition n ∈ (system 8).steps shop refusedRun ∨
      ∃ m, n = 22 + m ∧ Idle m (e.state n) ∧ e.label n = idleLabel m (e.state n) := by
  rcases Nat.lt_or_ge n 22 with hlt | hge
  · left
    rw [← h.first]
    exact List.mem_map.mpr ⟨n, List.mem_range.mpr hlt, by rw [Nat.zero_add]⟩
  · obtain ⟨m, rfl⟩ := Nat.exists_eq_add_of_le hge
    exact .inr ⟨m, rfl, h.later m⟩

theorem Refused.loneDispatcher (h : Refused e) : LoneDispatcher e := by
  refine ⟨h.start ▸ shop_initial, fun n => ?_, fun n t => ?_⟩
  · rcases h.step_cases n with hx | ⟨m, -, hidle, hl⟩
    · exact (step_refusedRun hx).1
    · rw [Execution.transition, hl]
      exact loneStep_idle hidle
  · -- at an odd moment after both
    obtain ⟨hidle, hl⟩ := h.later (2 * (n + t.toNat) + 1)
    refine ⟨22 + (2 * (n + t.toNat) + 1), by omega, ?_, 100 + (2 * (n + t.toNat) + 1), [], [], ?_⟩
    · have hlate : (t.toNat : Int) < (2 * (n + t.toNat) + 1 + (2 * (n + t.toNat) + 1) % 2 : ℕ) := by
        omega
      exact lt_of_le_of_lt (Int.self_le_toNat t) (lt_of_lt_of_le hlate hidle.late)
    · rw [hl, idleLabel, if_neg (by omega)]

/-- Nothing is replayed and no row is locked. -/
theorem Refused.label_cases (h : Refused e) (n : ℕ) :
    (∀ businessId deliveryId, e.label n ≠ .redeliver businessId deliveryId) ∧
    ∀ w locked ids, e.label n = .claim w locked ids → locked = [] := by
  rcases h.step_cases n with hx | ⟨m, -, -, hl⟩
  · exact (step_refusedRun hx).2
  · rw [hl]
    rcases idleLabel_cases m (e.state n) with ⟨now, hidle⟩ | hidle
    all_goals
      rw [hidle]
      refine ⟨fun _ _ hredeliver => ?_, fun _ _ _ hclaim => ?_⟩
    · cases hredeliver
    · cases hclaim
    · cases hredeliver
    · cases hclaim
      rfl

/-- The step is a fan-out that makes the delivery. -/
def fansOut (id : Uuid) (x : Step) : Bool :=
  (match x.label with
    | .fanOut _ => true
    | _ => false) && x.pre.db.webhookDeliveries.all (fun d => d.id ≠ id) &&
  x.post.db.webhookDeliveries.any fun d => d.id = id

theorem starts_of_fansOut {x : Step} (h : fansOut id x = true) : Starts id x := by
  simp only [fansOut, Bool.and_eq_true, List.all_eq_true, List.any_eq_true, decide_eq_true_eq] at h
  obtain ⟨⟨hlabel, hnew⟩, hrow⟩ := h
  refine .inl ⟨?_, hnew, hrow⟩
  split at hlabel
  · exact ⟨_, by assumption⟩
  · cases hlabel

/-- Four answers, and no more when nothing is left to do. -/
theorem Refused.answers (h : Refused e) (i : ℕ) :
    answersTo (shopId 40) (e.window 3 (19 + i)) = (List.range 4).map fun j => refusals (j + 1) := by
  have hrun : answersTo (shopId 40) (((system 8).steps shop refusedRun).drop 3) =
      (List.range 4).map fun j => refusals (j + 1) := by decide +kernel
  have hfour : ((system 8).steps shop refusedRun).drop 3 = e.window 3 19 := by
    rw [← h.first, show (22 : ℕ) = 3 + 19 from rfl, Execution.window_append]
    exact List.drop_left' rfl
  have hidle : answersTo (shopId 40) (e.window (3 + 19) i) = [] := by
    refine List.filterMap_eq_nil_iff.mpr fun x hx => ?_
    obtain ⟨j, -, rfl⟩ := List.mem_map.mp hx
    cases hevent : eventOf (shopId 40) (e.transition (3 + 19 + j)) with
    | none => rfl
    | some event =>
      cases event with
      | answered r =>
        obtain ⟨w, k, hl⟩ := label_of_answered hevent
        have hlabel := (h.later j).2
        rcases idleLabel_cases j (e.state (22 + j)) with ⟨now, hidle⟩ | hidle
        all_goals cases (hlabel.trans hidle).symm.trans hl
      | claimed => rfl
      | written => rfl
  rw [Execution.window_append, answersTo_append, hidle, ← hfour, hrun, List.append_nil]

theorem Refused.attended (h : Refused e) : Attended e (shopId 40) 2 refusals := by
  refine ⟨?_, fun n _ => ?_, fun n _ w locked ids hl => ?_, fun i => ?_⟩
  · -- the third step is the fan-out
    have hcheck : ((system 8).steps shop refusedRun)[2]?.any (fansOut (shopId 40)) = true := by
      decide +kernel
    have hthird : (e.window 0 22)[2]? = some (e.transition 2) := rfl
    rw [← h.first, hthird, Option.any_some] at hcheck
    exact starts_of_fansOut hcheck
  · obtain ⟨hreplays, -⟩ := h.label_cases n
    unfold Replays
    split
    · rename_i businessId deliveryId hl
      exact absurd hl (hreplays businessId deliveryId)
    · rfl
  · rw [(h.label_cases n).2 w locked ids hl]
    exact List.not_mem_nil
  · -- the answers so far are the first ones
    have hpre : answersTo (shopId 40) (e.window 3 i) <+:
        (List.range 4).map fun j => refusals (j + 1) := by
      rw [← h.answers i, Nat.add_comm 19 i, Execution.window_append, answersTo_append]
      exact List.prefix_append _ _
    refine ⟨min (answersTo (shopId 40) (e.window 3 i)).length 4, ?_⟩
    rw [← List.take_range, List.map_take]
    exact List.prefix_iff_eq_take.mp hpre

end Refused

/-- Three retries, and the `404` is the last answer. -/
theorem isLastSend_refusals : IsLastSend 8 refusals 4 := by
  refine ⟨⟨by decide, .inr (.inl (by decide))⟩, fun j hj => ?_⟩
  by_contra hlt
  obtain ⟨hpos, hfinal⟩ := hj
  have hthree : j = 1 ∨ j = 2 ∨ j = 3 := by omega
  revert hfinal
  rcases hthree with rfl | rfl | rfl <;> decide

theorem retry_policy_refused :
    ∃ e : (system 8).Execution, LoneDispatcher e ∧ Attended e (shopId 40) 2 refusals ∧
      IsLastSend 8 refusals 4 ∧ Delivers e (shopId 40) 2 refusals 4 := by
  obtain ⟨e, h⟩ := exists_refused
  exact ⟨e, h.loneDispatcher, h.attended, isLastSend_refusals,
    retry_policy 8 (by decide) e h.loneDispatcher (shopId 40) 2 refusals h.attended 4
      isLastSend_refusals⟩

end InvoicePayment.Webhooks
