import InvoicePayment.Payments.Starvation

/-!
# Every attempt is settled

An attempt whose handler has crashed, timed out or got no answer is left to the reconcilers. In a
run in which they keep up (`KeepsUp`) and from some moment on nothing hinders the ticks that have
it to do (`Unhindered`), it ends with the outcome the PSP has on record, and so does its key
(`eventually_settled`). A tick charges the other attempts of its batch first; what becomes of those
does not matter.
-/

namespace InvoicePayment.Payments

variable {δ : Type} {env : Env δ} {s s' : State} {l : Label δ} {id : Uuid}

/-! ## One step of a tick -/

/-- What a step makes of a tick with work to do. -/
inductive TickTurn (l : Label δ) (s' : State) (w : WorkerId) (leasedAt : Timestamp) (job : Job)
    (rest : List Job) : ChargeCall → Prop
  | same {c : ChargeCall} (h : s'.workers w = some (.tick leasedAt (job :: rest) c)) :
      TickTurn l s' w leasedAt job rest c
  | sent {callId : ℕ} (h : s'.workers w = some (.tick leasedAt (job :: rest) (.waiting callId))) :
      TickTurn l s' w leasedAt job rest .ready
  | answered {callId : ℕ} {r : PspResult}
      (h : s'.workers w = some (.tick leasedAt (job :: rest) (.got r))) :
      TickTurn l s' w leasedAt job rest (.waiting callId)
  | next {r : PspResult} (hl : l = .dbError w ∨ ∃ fresh, l = .work w fresh)
      (h : s'.workers w = some (.tick leasedAt rest .ready)) :
      TickTurn l s' w leasedAt job rest (.got r)
  | crashed {c : ChargeCall} (hl : l = .crash w) : TickTurn l s' w leasedAt job rest c

theorem tick_turn {w : WorkerId} {leasedAt : Timestamp} {job : Job} {rest : List Job}
    {c : ChargeCall} (h : step env s l = some s')
    (hw : s.workers w = some (.tick leasedAt (job :: rest) c)) :
    TickTurn l s' w leasedAt job rest c := by
  by_cases hl : l.worker = some w
  · cases l with
    | startPay v call =>
      obtain rfl := Option.some.inj hl
      simp only [step, startStep, hw] at h
      cases h
    | startAdmin v call =>
      obtain rfl := Option.some.inj hl
      simp only [step, startStep, hw] at h
      cases h
    | tick v locked ids =>
      obtain rfl := Option.some.inj hl
      simp only [step] at h
      split_ifs at h
      simp only [startStep, State.setDb, hw] at h
      cases h
    | work v fresh =>
      obtain rfl := Option.some.inj hl
      simp only [step, hw, Option.bind_some, workerStep] at h
      cases c with
      | ready =>
        simp only [tickStep, Option.some.injEq] at h
        subst h
        exact .sent (if_pos rfl)
      | waiting callId => cases h
      | got r =>
        simp only [tickStep] at h
        split at h
        all_goals
          obtain rfl := Option.some.inj h
          exact .next (.inr ⟨fresh, rfl⟩) (if_pos rfl)
    | giveUp v reason =>
      obtain rfl := Option.some.inj hl
      simp only [step, hw] at h
      cases c with
      | waiting callId =>
        simp only [Worker.waitsFor, Worker.deliver, if_pos, Option.map_some,
          Option.some.injEq] at h
        subst h
        exact .answered (if_pos rfl)
      | _ => cases h
    | dbError v =>
      obtain rfl := Option.some.inj hl
      simp only [step, hw, Option.bind_some] at h
      cases c with
      | got r =>
        simp only [Worker.onDbError, Option.map_some, Option.some.injEq] at h
        subst h
        exact .next (.inl rfl) (if_pos rfl)
      | _ => cases h
    | crash v =>
      obtain rfl := Option.some.inj hl
      exact .crashed rfl
    | _ => cases hl
  · rcases (step_effect h).workers_of_ne hl with hsame | ⟨callId, r, hdeliver⟩
    · exact .same (hsame.trans hw)
    · rw [hw, Option.map_some] at hdeliver
      cases c with
      | waiting c =>
        by_cases hc : c = callId
        · rw [Worker.deliver, if_pos hc] at hdeliver
          exact .answered hdeliver
        · rw [Worker.deliver, if_neg hc] at hdeliver
          exact .same hdeliver
      | _ => exact .same hdeliver

/-! ## Until the attempt is charged -/

/-- Worker `w` is a tick with the attempt still to do. -/
def HasToDo (id : Uuid) (s : State) (w : WorkerId) : Prop :=
  ∃ leasedAt jobs c, s.workers w = some (.tick leasedAt jobs c) ∧ ∃ job ∈ jobs, job.attemptId = id

/-- From moment `N` on nothing hinders the ticks that have the attempt to do: they do not crash or
stand still, and for the attempt itself the PSP answers in time, definitely, and transaction 2
commits. -/
structure Unhindered (e : (system env).Execution) (id : Uuid) (N : ℕ) : Prop where
  survives : ∀ n, N ≤ n → ∀ w, HasToDo id (e.state n) w → e.label n ≠ .crash w
  proceeds : ∀ n, N ≤ n → ∀ w, HasToDo id (e.state n) w →
    ∃ m, n ≤ m ∧ (e.state m).workers w ≠ (e.state n).workers w
  definite : ∀ n, N ≤ n → ∀ w leasedAt job rest r,
    (e.state n).workers w = some (.tick leasedAt (job :: rest) (.got r)) → job.attemptId = id →
    (∃ o : ChargeOutcome, r = o.toResult) ∧ e.label n ≠ .dbError w ∧
      ∀ fresh, e.label n = .work w fresh → PaymentService.Commits (e.state n).db fresh r

def ChargeCall.left : ChargeCall → ℕ
  | .ready => 2
  | .waiting _ => 1
  | .got _ => 0

/-- How many turns the worker is away from finalizing the attempt. -/
def turnsLeft (id : Uuid) : Option Worker → ℕ
  | some (.tick _ jobs c) => 3 * jobs.findIdx (fun job => job.attemptId = id) + c.left
  | _ => 0

section Execution

variable {e : (system env).Execution} {N : ℕ}

/-- What the next turn of a tick comes to that has the attempt to do: it is one turn nearer, or
the attempt is settled. -/
theorem turn_nearer (h₀ : (system env).Initial (e.state 0)) (hfree : Unhindered e id N) {n : ℕ}
    (hn : N ≤ n) {w : WorkerId} (htodo : HasToDo id (e.state n) w)
    (hpending : statusOf id (e.state (n + 1)) = some .pending) :
    HasToDo id (e.state (n + 1)) w ∧
      ((e.state (n + 1)).workers w = (e.state n).workers w ∨
        turnsLeft id ((e.state (n + 1)).workers w) < turnsLeft id ((e.state n).workers w)) := by
  have hsurvives := hfree.survives n hn w htodo
  obtain ⟨leasedAt, jobs, c, hw, job', hjob', hid'⟩ := htodo
  cases jobs with
  | nil => cases hjob'
  | cons job rest =>
    have hkept : ∀ c', (e.state (n + 1)).workers w = some (.tick leasedAt (job :: rest) c') →
        HasToDo id (e.state (n + 1)) w := fun c' h => ⟨leasedAt, _, c', h, job', hjob', hid'⟩
    have hnearer : ∀ c', (e.state (n + 1)).workers w = some (.tick leasedAt (job :: rest) c') →
        c'.left < c.left →
        turnsLeft id ((e.state (n + 1)).workers w) < turnsLeft id ((e.state n).workers w) := by
      intro c' h hlt
      rw [h, hw]
      exact Nat.add_lt_add_left hlt _
    cases tick_turn (e.step n) hw with
    | same h => exact ⟨hkept _ h, .inl (h.trans hw.symm)⟩
    | sent h => exact ⟨hkept _ h, .inr (hnearer _ h Nat.one_lt_two)⟩
    | answered h => exact ⟨hkept _ h, .inr (hnearer _ h Nat.zero_lt_one)⟩
    | crashed hl => exact absurd hl hsurvives
    | @next r hl h =>
      by_cases hid : job.attemptId = id
      · -- the attempt itself: its row has been updated
        obtain ⟨⟨o, ho⟩, hdb, hcommits⟩ := hfree.definite n hn w leasedAt job rest r hw hid
        obtain ⟨fresh, hl⟩ := hl.resolve_left hdb
        have hstep : step env (e.state n) (.work w fresh) = some (e.state (n + 1)) := by
          rw [← hl]
          exact e.step n
        obtain ⟨_, hfinal⟩ := finalized_of_commits hstep hw rfl (hcommits fresh hl)
        obtain ⟨a', ha', hida', hst⟩ := (sound_of_reachable
          (e.reachable h₀ (n + 1))).statusOf_eq_some.mp hpending
        rw [hfinal.attempts] at ha'
        obtain ⟨a, -, rfl⟩ := Table.mem_update.mp ha'
        exfalso
        by_cases hp : PaymentService.isPending job.attemptId a = true
        · rw [if_pos hp, ho] at hst
          cases o <;> cases hst
        · rw [if_neg hp] at hst hida'
          refine hp ?_
          simp [PaymentService.isPending, hida', hid, hst]
      · have hrest : job' ∈ rest := by
          rcases List.mem_cons.mp hjob' with heq | hmem
          · exact absurd (heq ▸ hid') hid
          · exact hmem
        refine ⟨⟨leasedAt, rest, .ready, h, job', hrest, hid'⟩, .inr ?_⟩
        rw [h, hw]
        simp only [turnsLeft, List.findIdx_cons, ChargeCall.left, hid, decide_false, cond_false]
        omega

/-- The worker that leases the attempt has it to do. -/
theorem hasToDo_of_leases {n : ℕ} (h : Leases id (e.transition n)) :
    ∃ w, HasToDo id (e.state (n + 1)) w := by
  obtain ⟨w, locked, ids, hl, hid⟩ := h
  have hstep : step env (e.state n) (.tick w locked ids) = some (e.state (n + 1)) := by
    rw [← show e.label n = .tick w locked ids from hl]
    exact e.step n
  simp only [step] at hstep
  split_ifs at hstep with hbatch
  unfold startStep at hstep
  split at hstep
  · cases hstep
  · have hpost := Option.some.inj hstep
    obtain ⟨a, ha, haid, -⟩ := (Table.due_of_isBatch hbatch).2 id hid
    have hfind : ((e.state n).db.paymentAttempts.find? fun a => a.id = id).isSome := by
      rw [List.find?_isSome]
      exact ⟨a, ha, decide_eq_true haid⟩
    obtain ⟨b, hb⟩ := Option.isSome_iff_exists.mp hfind
    refine ⟨w, (e.state n).now, (Reconciler.lease (e.state n).db (e.state n).now ids).2, .ready, ?_,
      Job.ofAttempt b, ?_, ?_⟩
    · rw [← hpost]
      exact if_pos rfl
    · exact List.mem_map_of_mem (List.mem_filterMap.mpr ⟨id, hid, hb⟩)
    · have hid' := List.find?_some hb
      exact of_decide_eq_true hid'

/-- A tick that has leased the attempt settles it, turn after turn. -/
theorem exists_settled (h₀ : (system env).Initial (e.state 0)) (hfree : Unhindered e id N) {n : ℕ}
    (hn : N ≤ n) (hlease : Leases id (e.transition n)) :
    ∃ m, n ≤ m ∧ statusOf id (e.state m) ≠ some .pending := by
  by_contra hnone
  push Not at hnone
  obtain ⟨w, htodo⟩ := hasToDo_of_leases hlease
  have hnearer := fun m (hm : n + 1 ≤ m) (h : HasToDo id (e.state m) w) =>
    turn_nearer h₀ hfree (by omega : N ≤ m) h (hnone (m + 1) (by omega))
  have hall : ∀ m, n + 1 ≤ m → HasToDo id (e.state m) w := fun m hm =>
    e.keeps (P := fun s => HasToDo id s w) htodo (fun k hk h => (hnearer k hk h).1) hm
  have hfalse : ∃ m, n + 1 ≤ m ∧ False := by
    refine TransitionSystem.exists_of_rank (fun m => turnsLeft id ((e.state m).workers w))
      fun m hm _ => ?_
    obtain ⟨m', hm', hne⟩ := hfree.proceeds m (by omega) w (hall m hm)
    obtain ⟨k, hk, -, hsame, hchange⟩ :=
      TransitionSystem.exists_change (f := fun m => (e.state m).workers w) hm' hne
    rcases (hnearer k (hm.trans hk) (hall k (hm.trans hk))).2 with hstill | hlt
    · exact absurd (hstill.trans hsame) hchange
    · rw [show (e.state k).workers w = (e.state m).workers w from hsame] at hlt
      exact ⟨k + 1, Nat.le_succ_of_le hk, hlt⟩
  obtain ⟨-, -, hfalse⟩ := hfalse
  exact hfalse

end Execution

/-! ## The outcome on record -/

/-- The status and the body a handler answers with for an outcome. -/
def stored (job : Job) (o : ChargeOutcome) : Int × JsonValue :=
  ((PaymentService.answer job o.toResult).1.code, (PaymentService.answer job o.toResult).2.toJson)

/-- The attempt has the outcome the PSP has on record, and its key this response, which is the
answer for the outcome. -/
def HasOutcome (id : Uuid) (o : ChargeOutcome) (response : Int × JsonValue) (s : State) : Prop :=
  ∃ a ∈ s.db.paymentAttempts, a.id = id ∧ s.psp.seen a.idempotencyKey = some o ∧ Carries a o ∧
    response = stored (Job.ofAttempt a) o ∧
    ∃ k ∈ s.db.idempotencyKeys, k.attemptId = some id ∧ k.status = .completed ∧
      k.responseStatus = some response.1 ∧ k.responseBody = some response.2

theorem exists_hasOutcome (hs : Sound env s) (hd : Settled s) {a : PaymentAttempt}
    (ha : a ∈ s.db.paymentAttempts) (hsettled : a.status ≠ .pending) :
    ∃ o, s.psp.seen a.idempotencyKey = some o ∧
      HasOutcome a.id o (stored (Job.ofAttempt a) o) s := by
  obtain ⟨k, hk, hid⟩ := hs.exists_key ha
  cases hd.records a ha k hk hid with
  | pending hpending _ _ _ _ _ => exact absurd hpending hsettled
  | settled o hseen hcarries hkey hresponse hbody =>
    exact ⟨o, hseen, a, ha, rfl, hseen, hcarries, rfl, k, hk, hid, hkey, hresponse, hbody⟩

/-- Once there, the outcome and the response stay. -/
theorem hasOutcome_step (hpsp : env.psp.IsDefinite) (hs : Sound env s') (hd : Settled s')
    (h : step env s l = some s') {o : ChargeOutcome} {response : Int × JsonValue}
    (ho : HasOutcome id o response s) : HasOutcome id o response s' := by
  obtain ⟨a, ha, rfl, hseen, hcarries, rfl, -⟩ := ho
  have he := step_effect h
  obtain ⟨a', ha', hjob, hstatus, -, -⟩ := he.settled_mono ha hcarries.ne_pending
  obtain ⟨o', hseen', houtcome⟩ := exists_hasOutcome hs hd ha' (hstatus ▸ hcarries.ne_pending)
  have hkey : a'.idempotencyKey = a.idempotencyKey := congrArg Job.idempotencyKey hjob
  have hid : a'.id = a.id := congrArg Job.attemptId hjob
  rw [hkey, seen_step hpsp he hseen] at hseen'
  obtain rfl := Option.some.inj hseen'
  rw [← hid, ← hjob]
  exact houtcome

/-- Every attempt ends with the outcome the PSP has on record, and its key with one response. -/
theorem eventually_settled (hpsp : env.psp.IsDefinite) {e : (system env).Execution} {N : ℕ}
    (h₀ : (system env).Initial (e.state 0)) (hkeeps : KeepsUp e id) (hfree : Unhindered e id N)
    (hrow : ∃ a ∈ (e.state N).db.paymentAttempts, a.id = id) :
    ∃ n o response, N ≤ n ∧ ∀ m, n ≤ m → HasOutcome id o response (e.state m) := by
  have hsound := fun m => sound_of_reachable (e.reachable h₀ m)
  have hdefinite := fun m => settled_of_reachable hpsp (e.reachable h₀ m)
  obtain ⟨n, hn, hne⟩ : ∃ n, N ≤ n ∧ statusOf id (e.state n) ≠ some .pending := by
    obtain ⟨m, hm, hlease | hne⟩ := leased_or_settled h₀ hkeeps N
    · obtain ⟨n, hn, hne⟩ := exists_settled h₀ hfree hm hlease
      exact ⟨n, hm.trans hn, hne⟩
    · exact ⟨m, hm, hne⟩
  obtain ⟨st, hst⟩ := Option.ne_none_iff_exists'.mp (exists_status_of_row h₀ hrow hn)
  obtain ⟨a, ha, rfl, rfl⟩ := (hsound n).statusOf_eq_some.mp hst
  obtain ⟨o, -, ho⟩ := exists_hasOutcome (hsound n) (hdefinite n) ha fun hpending =>
    hne (hpending ▸ hst)
  exact ⟨n, o, _, hn, fun m hm => e.keeps (P := HasOutcome a.id o _) ho
    (fun m _ => hasOutcome_step hpsp (hsound (m + 1)) (hdefinite (m + 1)) (e.step m)) hm⟩

/-! ## The crashed charge -/

/-- What is in hand `n` steps into `recoveredRun`, after the crash. -/
def holdsThird (n : ℕ) (s : State) : Bool :=
  [0, 1, 2].all (fun w => (s.workers w).all fun W => W.holdings.isEmpty) &&
    ((s.workers 3).bind Worker.result).all (fun p =>
      decide (n = 16) && decide (p.2 = .succeeded "psp_1")) &&
    s.db.webhookEvents.all fun e => e.id ≠ (shopFresh 40).newId 0

section Recovers

variable {e : (definiteSystem shopSha256).Execution}

theorem Recovers.holdsThird (h : Recovers e) {n : ℕ} (hn : n ∈ [13, 14, 15, 16]) :
    holdsThird n (e.state n) = true := by
  have hall : ([13, 14, 15, 16].all fun n =>
      ((definiteSystem shopSha256).run shop (recoveredRun.take n)).all
        (Payments.holdsThird n)) = true := by decide +kernel
  have hrun := List.all_eq_true.mp hall n hn
  rw [h.run ?_, Option.all_some] at hrun
  · exact hrun
  · have hle : ∀ m ∈ [13, 14, 15, 16], m ≤ 17 := by decide
    exact hle n hn

/-- After the crash only worker `3` has the attempt to do, until it is settled. -/
theorem Recovers.third (h : Recovers e) {n : ℕ} (hn : 13 ≤ n) {w : WorkerId}
    (htodo : HasToDo (shopId 21) (e.state n) w) : n ∈ [13, 14, 15, 16] ∧ w = 3 := by
  obtain ⟨leasedAt, jobs, c, hw, job, hjob, -⟩ := htodo
  have hheld : (Worker.tick leasedAt jobs c).holdings ≠ [] := by
    rw [Worker.holdings, ne_eq, List.map_eq_nil_iff]
    exact List.ne_nil_of_mem hjob
  rcases Nat.lt_or_ge n 17 with hlt | hge
  · have hmem : n ∈ [13, 14, 15, 16] := by
      simp only [List.mem_cons, List.not_mem_nil, or_false]
      omega
    refine ⟨hmem, ?_⟩
    have hthird := h.holdsThird hmem
    simp only [Payments.holdsThird, Bool.and_eq_true] at hthird
    have hworker := worker_of_recoveredRun (List.take_prefix n _) (h.run hlt.le) hw
    rcases List.mem_append.mp (show w ∈ [0, 1, 2] ++ [3] from hworker) with hfirst | hlast
    · have hempty := List.all_eq_true.mp hthird.1.1 w hfirst
      rw [hw, Option.all_some] at hempty
      exact absurd (List.isEmpty_iff.mp hempty) hheld
    · exact List.mem_singleton.mp hlast
  · obtain ⟨m, rfl⟩ := Nat.exists_eq_add_of_le hge
    exact absurd ((h.later m).1.held w _ hw) hheld

theorem Recovers.unhindered (h : Recovers e) : Unhindered e (shopId 21) 13 := by
  have hcrash : ∀ n ∈ [13, 14, 15, 16], recoveredRun[n]? ≠ some (.crash 3) := by
    intro n hn
    simp only [List.mem_cons, List.not_mem_nil, or_false] at hn
    rcases hn with rfl | rfl | rfl | rfl <;> exact fun heq => by cases heq
  constructor
  · intro n hn w htodo hl
    obtain ⟨hmem, rfl⟩ := h.third hn htodo
    have hall : ∀ m ∈ [13, 14, 15, 16], m < 17 := by decide
    exact hcrash n hmem ((h.label (hall n hmem)).trans (congrArg some hl))
  · intro n hn w htodo
    obtain ⟨hmem, rfl⟩ := h.third hn htodo
    obtain ⟨leasedAt, jobs, c, hw, job, hjob, -⟩ := htodo
    refine ⟨17, ?_, fun hsame => ?_⟩
    · have hall : ∀ m ∈ [13, 14, 15, 16], m ≤ 17 := by decide
      exact hall n hmem
    · have hnone := (h.later 0).1.held 3 _ (hsame.trans hw)
      rw [Worker.holdings, List.map_eq_nil_iff] at hnone
      exact List.ne_nil_of_mem hjob hnone
  · intro n hn w leasedAt job rest r hw hid
    obtain ⟨hmem, rfl⟩ := h.third hn ⟨leasedAt, _, _, hw, job, List.mem_cons_self, hid⟩
    have hthird := h.holdsThird hmem
    simp only [Payments.holdsThird, Bool.and_eq_true, hw, Option.bind_some, Worker.result,
      Option.all_some, decide_eq_true_eq] at hthird
    obtain ⟨⟨-, rfl, rfl⟩, hevents⟩ := hthird
    -- the last label of `recoveredRun`
    have hl : e.label 16 = .work 3 (shopFresh 40) :=
      (Option.some.inj (h.label (by decide : 16 < 17))).symm
    refine ⟨⟨.succeeded "psp_1", rfl⟩, ?_, fun fresh hfresh => ?_⟩
    · intro hdb
      cases hl.symm.trans hdb
    · rw [hl] at hfresh
      obtain rfl := (Label.work.inj hfresh).2
      refine ⟨by decide, fun e he => ?_⟩
      exact of_decide_eq_true (List.all_eq_true.mp hevents e he)

end Recovers

theorem eventually_settled_recovered :
    ∃ e : (definiteSystem shopSha256).Execution, e.state 0 = shop ∧ KeepsUp e (shopId 21) ∧
      Unhindered e (shopId 21) 13 ∧
      ∃ n o response, 13 ≤ n ∧
        ∀ m, n ≤ m → HasOutcome (shopId 21) o response (e.state m) := by
  obtain ⟨e, h⟩ := exists_recovers
  have hrow : ((definiteSystem shopSha256).run shop (recoveredRun.take 13)).all (fun s =>
      s.db.paymentAttempts.any fun a => a.id = shopId 21) = true := by decide +kernel
  rw [h.run (by decide), Option.all_some, List.any_eq_true] at hrow
  obtain ⟨a, ha, hid⟩ := hrow
  exact ⟨e, h.start, h.keepsUp, h.unhindered, eventually_settled definitePsp_isDefinite
    (h.start ▸ shop_initial) h.keepsUp h.unhindered ⟨a, ha, of_decide_eq_true hid⟩⟩

end InvoicePayment.Payments
