import InvoicePayment.Payments.Soundness

/-!
# One owner per attempt

Ownership of an attempt is encoded in `next_poll_at` alone: null while its handler works on it,
the end of the lease while a reconciler does. As long as every charge is finalized within the
lease and no tick leases an attempt whose handler is still at work, an attempt has one owner at
a time (`one_owner`); a tick reads the null of a handler at work as due.
-/

namespace InvoicePayment.Payments

variable {δ : Type} {env : Env δ} {s s' : State} {l : Label δ}

/-- The job whose charge call is outstanding. -/
def Worker.calling : Worker → Option Job
  | .pay _ (.charging job _ (.waiting _)) => some job
  | .tick _ (job :: _) (.waiting _) => some job
  | _ => none

/-- The attempt whose charge has begun and is not finalized. -/
def Worker.charged : Worker → Option Holding
  | .pay _ (.charging _ _ .ready) => none
  | .pay _ (.charging job claimedAt _) => some ⟨job, claimedAt, .handler⟩
  | .tick _ _ .ready => none
  | .tick leasedAt (job :: _) _ => some ⟨job, leasedAt, .reconciler⟩
  | _ => none

/-- The attempt was taken less than thirty seconds ago. -/
def Holding.IsFresh (h : Holding) (now : Timestamp) : Prop := now < h.since + seconds 30

instance (h : Holding) (now : Timestamp) : Decidable (h.IsFresh now) :=
  inferInstanceAs (Decidable (now < h.since + seconds 30))

/-- No two workers have a charge call outstanding for one attempt. -/
def OneOwner (s : State) : Prop :=
  ∀ w v W V j k, s.workers w = some W → s.workers v = some V → W.calling = some j →
    V.calling = some k → j.attemptId = k.attemptId → w = v

/-- From the call to the finalization, every charge is within its lease. -/
def WithinLease (s : State) : Prop :=
  ∀ w W h, s.workers w = some W → W.charged = some h → h.IsFresh s.now

/-- The tick leases no attempt a handler has in hand. -/
def LeasesReleased (x : Step δ) : Prop :=
  ∀ w locked ids, x.label = .tick w locked ids → ∀ v V h, x.pre.workers v = some V →
    h ∈ V.holdings → h.holder = .handler → h.job.attemptId ∉ ids

/-- `next_poll_at` while the attempt is in hand. -/
def Holding.pollAt (h : Holding) : Option Timestamp :=
  match h.holder with
  | .handler => none
  | .reconciler => some (h.since + seconds 30)

/-- The invariant: within the lease nobody else holds an attempt, and its row says who does. A
holding whose lease has run out says nothing: its row may be leased again. -/
structure Owners (s : State) : Prop where
  distinct : ∀ w v W V h k, s.workers w = some W → s.workers v = some V → h ∈ W.holdings →
    k ∈ V.holdings → h.IsFresh s.now → k.IsFresh s.now → h.job.attemptId = k.job.attemptId → w = v
  once : ∀ w W, s.workers w = some W → (W.holdings.map fun h => h.job.attemptId).Nodup
  polls : ∀ w W h, s.workers w = some W → h ∈ W.holdings → h.IsFresh s.now →
    ∀ a ∈ s.db.paymentAttempts, a.id = h.job.attemptId → a.nextPollAt = h.pollAt

theorem mem_holdings_of_charged {W : Worker} {h : Holding} (hc : W.charged = some h) :
    h ∈ W.holdings := by
  unfold Worker.charged at hc
  split at hc
  · cases hc
  · obtain rfl := Option.some.inj hc
    exact List.mem_cons_self
  · cases hc
  · obtain rfl := Option.some.inj hc
    exact List.mem_cons_self
  · cases hc

theorem exists_charged_of_calling {W : Worker} {job : Job} (h : W.calling = some job) :
    ∃ held, W.charged = some held ∧ held.job = job := by
  unfold Worker.calling at h
  split at h
  · obtain rfl := Option.some.inj h
    exact ⟨_, rfl, rfl⟩
  · obtain rfl := Option.some.inj h
    exact ⟨_, rfl, rfl⟩
  · cases h

/-- A result in hand is for the attempt charged, the first in hand. -/
theorem charged_of_result {W : Worker} {job : Job} {r : PspResult}
    (h : W.result = some (job, r)) :
    ∃ held rest, W.charged = some held ∧ held.job = job ∧ W.holdings = held :: rest := by
  unfold Worker.result at h
  split at h
  · obtain ⟨rfl, -⟩ := Prod.mk.inj (Option.some.inj h)
    exact ⟨_, _, rfl, rfl, rfl⟩
  · obtain ⟨rfl, -⟩ := Prod.mk.inj (Option.some.inj h)
    exact ⟨_, _, rfl, rfl, rfl⟩
  · cases h

theorem oneOwner_of_owners (ho : Owners s) (htime : WithinLease s) : OneOwner s := by
  intro w v W V j k hw hv hj hk hid
  obtain ⟨h, hh, rfl⟩ := exists_charged_of_calling hj
  obtain ⟨h', hh', rfl⟩ := exists_charged_of_calling hk
  exact ho.distinct w v W V h h' hw hv (mem_holdings_of_charged hh) (mem_holdings_of_charged hh')
    (htime w W h hw hh) (htime v V h' hv hh') hid

/-- The clock only moves on, so what is fresh after a step was fresh before. -/
theorem Holding.IsFresh.before {h : Holding} (hf : h.IsFresh s'.now) (he : Effect env s l s') :
    h.IsFresh s.now := by
  cases he with
  | advance hnow => exact Int.lt_of_le_of_lt hnow hf
  | _ => exact hf

/-! ## One step -/

/-- Nobody has an attempt in hand, within its lease, that a tick leases. -/
theorem not_held_of_due (ho : Owners s) {w : WorkerId} {locked ids : List Uuid}
    (hrel : LeasesReleased (⟨s, .tick w locked ids, s'⟩ : Step δ))
    (hbatch : Reconciler.isBatch s.db s.now locked ids = true) {v : WorkerId} {V : Worker}
    {h : Holding} (hv : s.workers v = some V) (hh : h ∈ V.holdings) (hfresh : h.IsFresh s.now) :
    h.job.attemptId ∉ ids := by
  intro hid
  cases hholder : h.holder with
  | handler => exact hrel w locked ids rfl v V h hv hh hholder hid
  | reconciler =>
    obtain ⟨a, ha, haid, hdue⟩ := (Reconciler.isDue_of_isBatch hbatch).2 _ hid
    have hpoll : a.nextPollAt = some (h.since + seconds 30) := by
      rw [ho.polls v V h hv hh hfresh a ha haid, Holding.pollAt, hholder]
    -- the lease has not run out, so the row is not due
    simp only [Reconciler.isDue, hpoll, Bool.and_eq_true, decide_eq_true_eq] at hdue
    exact Int.not_le.mpr hfresh hdue.2

/-- The id of a new attempt is in nobody's hands. -/
theorem not_held_of_claimed (hs : Sound env s) {fresh : Fresh} {fp : List UInt8}
    {state : InvoiceState} {job : Job} {db : Db}
    (hclaimed : PaymentService.Claimed s.db fresh fp state job db) {v : WorkerId} {V : Worker}
    {h : Holding} (hv : s.workers v = some V) (hh : h ∈ V.holdings) :
    h.job.attemptId ≠ job.attemptId := by
  obtain ⟨a, ha, hjob⟩ := Sound.exists_attempt_of_job (hs.held v V hv h hh)
  rw [← hjob]
  exact Table.UniqueIndex.ne_of_not_conflicts hclaimed.freshId rfl ha rfl

theorem distinct_step (hs : Sound env s) (ho : Owners s) (he : Effect env s l s')
    (hrel : LeasesReleased ⟨s, l, s'⟩) :
    ∀ w v W V h k, s'.workers w = some W → s'.workers v = some V → h ∈ W.holdings →
      k ∈ V.holdings → h.IsFresh s'.now → k.IsFresh s'.now →
      h.job.attemptId = k.job.attemptId → w = v := by
  -- an attempt just taken was in nobody's hands
  have hnew : ∀ w v W V h k, s'.workers w = some W → h ∈ W.holdings → s.workers v = some V →
      k ∈ V.holdings → k.IsFresh s.now → h.job.attemptId = k.job.attemptId →
      ∃ W₀, s.workers w = some W₀ ∧ h ∈ W₀.holdings := by
    intro w v W V h k hw hh hv hk hfk hid
    rcases he.holding hw hh with hold | ⟨state, fp, fresh, rfl, -, -, hclaimed⟩ |
      ⟨locked, ids, rfl, -, -, hjob, hbatch, -⟩
    · exact hold
    · exact absurd hid.symm (not_held_of_claimed hs hclaimed hv hk)
    · obtain ⟨a, -, ha, hrow⟩ := Reconciler.mem_lease_jobs hjob
      rw [← hrow] at hid
      refine absurd ?_ (not_held_of_due ho hrel hbatch hv hk hfk)
      rw [← hid]
      exact ha
  intro w v W V h k hw hv hh hk hfh hfk hid
  have hfh := hfh.before he
  have hfk := hfk.before he
  rcases he.holding hw hh with ⟨W₀, hW₀, hhold⟩ | htaken
  · obtain ⟨V₀, hV₀, hkold⟩ := hnew v w V W₀ k h hv hk hW₀ hhold hfh hid.symm
    exact ho.distinct w v W₀ V₀ h k hW₀ hV₀ hhold hkold hfh hfk hid
  rcases he.holding hv hk with ⟨V₀, hV₀, hkold⟩ | htaken'
  · obtain ⟨W₀, hW₀, hhold⟩ := hnew w v W V₀ h k hw hh hV₀ hkold hfk hid
    exact ho.distinct w v W₀ V₀ h k hW₀ hV₀ hhold hkold hfh hfk hid
  -- both were taken in this step, so by the worker the label is about
  have hlw : l.worker = some w := by
    rcases htaken with ⟨-, -, fresh, rfl, -⟩ | ⟨locked, ids, rfl, -⟩ <;> rfl
  have hlv : l.worker = some v := by
    rcases htaken' with ⟨-, -, fresh, rfl, -⟩ | ⟨locked, ids, rfl, -⟩ <;> rfl
  rw [hlw] at hlv
  exact Option.some.inj hlv

theorem once_step (ho : Owners s) (he : Effect env s l s') :
    ∀ w W, s'.workers w = some W → (W.holdings.map fun h => h.job.attemptId).Nodup := by
  intro w W hw
  cases he.became hw with
  | same hv => exact ho.once w W hv
  | leased _ hbatch _ hW =>
    have hnodup := (Reconciler.isDue_of_isBatch hbatch).1
    rw [hW, Worker.holdings, List.map_map]
    exact Reconciler.nodup_lease_jobs hnodup
  | quiet _ hq _ =>
    rcases hq.holdings with hnil | ⟨W₀, hW₀, hsuffix⟩
    · simp [hnil]
    · exact (ho.once w W₀ hW₀).sublist (hsuffix.sublist.map _)
  | sent _ hv _ hsent _ =>
    rw [hsent.holdings]
    exact ho.once w _ hv
  | claimed _ _ _ _ hW => simp [hW, Worker.holdings]
  | replayed _ _ hW => simp [hW, Worker.holdings]
  | delivered _ _ _ _ _ hv hW =>
    rw [hW, Worker.holdings_deliver]
    exact ho.once w _ hv
  | finalized hv _ _ hfin =>
    rw [hfin.holdings]
    exact (ho.once w _ hv).sublist ((List.tail_sublist _).map _)
  | moved _ hW => simp [hW, Worker.holdings]

/-- The row of an attempt that stays in the same hands keeps its `next_poll_at`. -/
theorem polls_kept (hs : Sound env s) (ho : Owners s) (htime : WithinLease s)
    (he : Effect env s l s') (hrel : LeasesReleased ⟨s, l, s'⟩) {w : WorkerId} {W W₀ : Worker}
    {h : Holding} (hw : s'.workers w = some W) (hh : h ∈ W.holdings)
    (hW₀ : s.workers w = some W₀) (hold : h ∈ W₀.holdings) (hfresh : h.IsFresh s.now) :
    ∀ a ∈ s'.db.paymentAttempts, a.id = h.job.attemptId → a.nextPollAt = h.pollAt := by
  intro a' ha' hid
  cases he with
  | create hcreated =>
    simp only [State.setDb, hcreated.attempts] at ha'
    exact ho.polls w W₀ h hW₀ hold hfresh a' ha' hid
  | lease _ hbatch =>
    have hout := not_held_of_due ho hrel hbatch hW₀ hold hfresh
    obtain ⟨a, ha, rfl⟩ := Table.mem_update.mp ha'
    split_ifs at hid ⊢ with hin
    · rw [← hid] at hout
      exact absurd (List.contains_iff_mem.mp hin) hout
    · exact ho.polls w W₀ h hW₀ hold hfresh a ha hid
  | claim _ _ _ hclaimed =>
    simp only [State.setWorker, State.setDb, hclaimed.post, List.mem_append,
      List.mem_singleton] at ha'
    rcases ha' with ha' | rfl
    · exact ho.polls w W₀ h hW₀ hold hfresh a' ha' hid
    · exact absurd hid.symm (not_held_of_claimed hs hclaimed hW₀ hold)
  | @finalize v fresh V V' job r db o hv hr hfinal hV' =>
    simp only [State.setWorker, State.setDb, hfinal.attempts] at ha'
    obtain ⟨a, ha, rfl⟩ := Table.mem_update.mp ha'
    split_ifs at hid ⊢ with hp
    · -- the finalized attempt leaves the hands of its only holder
      simp only [PaymentService.isPending, Bool.and_eq_true, decide_eq_true_eq] at hp
      have hsame : h.job.attemptId = job.attemptId := by
        rw [← hid, ← hp.1]
        exact congrArg Job.attemptId (PaymentService.ofAttempt_settle s.now r a)
      obtain ⟨held, rest, hcharged, rfl, hrest⟩ := charged_of_result hr
      obtain rfl : w = v := ho.distinct w v W₀ V h held hW₀ hv hold
        (mem_holdings_of_charged hcharged) hfresh (htime v V held hv hcharged) hsame
      rcases workers_setWorker hw with ⟨-, rfl⟩ | ⟨hne, -⟩
      · rw [hV'.holdings, hrest, List.tail_cons] at hh
        have honce := ho.once w V hv
        rw [hrest, List.map_cons, List.nodup_cons] at honce
        refine absurd ?_ honce.1
        rw [← hsame]
        exact List.mem_map_of_mem (f := fun x : Holding => x.job.attemptId) hh
      · exact absurd rfl hne
    · exact ho.polls w W₀ h hW₀ hold hfresh a ha hid
  | move _ happly =>
    obtain ⟨rfl, -⟩ := InvoiceService.apply_eq_ok happly
    exact ho.polls w W₀ h hW₀ hold hfresh a' ha' hid
  | _ => exact ho.polls w W₀ h hW₀ hold hfresh a' ha' hid

theorem polls_step (hs : Sound env s) (ho : Owners s) (htime : WithinLease s)
    (he : Effect env s l s') (hrel : LeasesReleased ⟨s, l, s'⟩) :
    ∀ w W h, s'.workers w = some W → h ∈ W.holdings → h.IsFresh s'.now →
      ∀ a ∈ s'.db.paymentAttempts, a.id = h.job.attemptId → a.nextPollAt = h.pollAt := by
  intro w W h hw hh hfresh a ha hid
  rcases he.holding hw hh with ⟨W₀, hW₀, hold⟩ | ⟨state, fp, fresh, -, -, hholder, hclaimed⟩ |
    ⟨locked, ids, -, hsince, hholder, hjob, -, hdb⟩
  · exact polls_kept hs ho htime he hrel hw hh hW₀ hold (hfresh.before he) a ha hid
  · rw [Holding.pollAt, hholder]
    rw [hclaimed.post, List.mem_append, List.mem_singleton] at ha
    rcases ha with ha | rfl
    · exact absurd hid (Table.UniqueIndex.ne_of_not_conflicts hclaimed.freshId rfl ha rfl)
    · rfl
  · rw [Holding.pollAt, hholder, hsince]
    rw [hdb] at ha
    obtain ⟨b, hb, hbid, hrow⟩ := Reconciler.mem_lease_jobs hjob
    obtain ⟨c, hc, rfl⟩ := Table.mem_update.mp ha
    split_ifs at hid ⊢ with hin
    · rfl
    · refine absurd (List.contains_iff_mem.mpr ?_) hin
      rw [hid, ← hrow]
      exact hbid

theorem owners_step (hs : Sound env s) (ho : Owners s) (htime : WithinLease s)
    (he : Effect env s l s') (hrel : LeasesReleased ⟨s, l, s'⟩) : Owners s' :=
  { distinct := distinct_step hs ho he hrel
    once := once_step ho he
    polls := polls_step hs ho htime he hrel }

/-! ## Every run -/

/-- Along a run in which every charge is finalized within its lease and no tick leases an
attempt a handler has in hand, no two workers call the PSP for one attempt at one time. -/
theorem one_owner (env : Env δ) {s : State} (h : Initial s) (ls : List (Label δ))
    (htime : ∀ t ∈ (system env).states s ls, WithinLease t)
    (hrel : ∀ x ∈ (system env).steps s ls, LeasesReleased x) :
    ∀ t ∈ (system env).states s ls, OneOwner t := by
  have hinit : Owners s :=
    ⟨fun w _ W _ _ _ hw => (h.no_worker hw).elim, fun w W hw => (h.no_worker hw).elim,
      fun w W _ hw => (h.no_worker hw).elim⟩
  have hsteps : ∀ x ∈ (system env).steps s ls, WithinLease x.pre ∧ LeasesReleased x := by
    intro x hx
    exact ⟨htime _ (TransitionSystem.step_of_mem_steps hx).2, hrel x hx⟩
  have howners : ∀ t ∈ (system env).states s ls, Owners t := by
    refine TransitionSystem.forall_states_of_steps ?_ (.of_initial h) hinit hsteps
    intro x hx ho hstep hxc
    exact owners_step (sound_of_reachable hx) ho hxc.1 (step_effect hstep) hxc.2
  intro t ht
  exact oneOwner_of_owners (howners t ht) (htime t ht)

/-! ## A tick beside a handler at work -/

/-- The charges of the workers among `ws` are within their leases. -/
def withinLease (ws : List WorkerId) (s : State) : Bool :=
  ws.all fun w => (s.workers w).all fun W => W.charged.all fun h => h.IsFresh s.now

/-- The condition of `one_owner` on the workers `ws`, checked on one step. -/
def leasesReleased (ws : List WorkerId) (x : Step δ) : Bool :=
  match x.label with
  | .tick _ _ ids => ws.all fun v => (x.pre.workers v).all fun V => V.holdings.all fun h =>
      h.holder ≠ .handler || !ids.contains h.job.attemptId
  | _ => true

/-- The step is not about a worker outside `ws`. -/
def isAmong (ws : List WorkerId) (x : Step δ) : Bool := x.label.worker.all ws.contains

/-- The workers of a run are those its labels name. -/
theorem mem_of_isAmong {ws : List WorkerId} {ls : List (Label δ)} (h : Initial s)
    (hall : ((system env).steps s ls).all (isAmong ws) = true) :
    ∀ t ∈ (system env).states s ls, ∀ w W, t.workers w = some W → w ∈ ws := by
  refine TransitionSystem.forall_states_of_steps (C := fun x => isAmong ws x = true) ?_
    (.of_initial h) ?_ (List.all_eq_true.mp hall)
  · intro x _ hpre hstep hx w W hw
    rcases (step_effect hstep).worker hw with ⟨W₀, hW₀⟩ | hl
    · exact hpre w W₀ hW₀
    · simp only [isAmong, hl, Option.all_some] at hx
      exact List.contains_iff_mem.mp hx
  · intro w W hw
    exact (h.no_worker hw).elim

theorem withinLease_of_eq_true {ws : List WorkerId}
    (hmem : ∀ w W, s.workers w = some W → w ∈ ws) (h : withinLease ws s = true) :
    WithinLease s := by
  intro w W held hw hheld
  have hall := List.all_eq_true.mp h w (hmem w W hw)
  rw [hw, Option.all_some, hheld, Option.all_some] at hall
  exact of_decide_eq_true hall

theorem leasesReleased_of_eq_true {ws : List WorkerId} {x : Step δ}
    (hmem : ∀ w W, x.pre.workers w = some W → w ∈ ws) (h : leasesReleased ws x = true) :
    LeasesReleased x := by
  intro w locked ids hl v V held hv hheld hholder hid
  rw [leasesReleased, hl] at h
  have hall := List.all_eq_true.mp h v (hmem v V hv)
  rw [hv, Option.all_some] at hall
  have hnot := List.all_eq_true.mp hall held hheld
  simp only [hholder, ne_eq, not_true_eq_false, decide_false, Bool.false_or,
    List.contains_iff_mem.mpr hid, Bool.not_true] at hnot
  cases hnot

/-- A handler gives up on the PSP and finalizes; five seconds later a tick charges again. -/
def releasedRun : List (Label DefiniteChoice) :=
  openInvoice ++
    [.startPay 1 (payCall "k1" "tok_success"), .work 1 (shopFresh 0), .work 1 (shopFresh 20),
     .work 1 (shopFresh 0), .giveUp 1 .pspTimeout, .work 1 (shopFresh 0),
     .advance (seconds 5), .tick 2 [] [shopId 21], .work 2 (shopFresh 0)]

theorem one_owner_releasedRun :
    ((definiteSystem shopSha256).run shop releasedRun).isSome = true ∧
      ∀ t ∈ (definiteSystem shopSha256).states shop releasedRun, OneOwner t := by
  have hmem : ∀ t ∈ (definiteSystem shopSha256).states shop releasedRun, ∀ w W,
      t.workers w = some W → w ∈ [0, 1, 2] :=
    mem_of_isAmong shop_initial (by decide +kernel)
  have htime : ((definiteSystem shopSha256).states shop releasedRun).all
      (withinLease [0, 1, 2]) = true := by
    decide +kernel
  have hrel : ((definiteSystem shopSha256).steps shop releasedRun).all
      (leasesReleased [0, 1, 2]) = true := by
    decide +kernel
  refine ⟨by decide +kernel, one_owner _ shop_initial releasedRun ?_ ?_⟩
  · intro t ht
    exact withinLease_of_eq_true (hmem t ht) (List.all_eq_true.mp htime t ht)
  · intro x hx
    have hpre := (TransitionSystem.step_of_mem_steps hx).2
    exact leasesReleased_of_eq_true (hmem _ hpre) (List.all_eq_true.mp hrel x hx)

/-- A tick takes the attempt a handler has just claimed for one that is due, while the
handler's charge call is outstanding. -/
def unreleasedRun : List (Label DefiniteChoice) :=
  openInvoice ++
    [.startPay 1 (payCall "k1" "tok_success"), .work 1 (shopFresh 0), .work 1 (shopFresh 20),
     .work 1 (shopFresh 0),
     .tick 2 [] [shopId 21], .work 2 (shopFresh 0)]

/-- Workers `1` and `2` both have a charge call outstanding for one attempt. -/
def bothCalling (s : State) : Bool :=
  match (s.workers 1).bind Worker.calling, (s.workers 2).bind Worker.calling with
  | some j, some k => j.attemptId = k.attemptId
  | _, _ => false

/-- Both call the PSP within the lease, at one time and for one attempt. -/
theorem both_call :
    (∀ t ∈ (definiteSystem shopSha256).states shop unreleasedRun, WithinLease t) ∧
      ∃ s, (definiteSystem shopSha256).run shop unreleasedRun = some s ∧ ¬ OneOwner s := by
  constructor
  · have hmem : ∀ t ∈ (definiteSystem shopSha256).states shop unreleasedRun, ∀ w W,
        t.workers w = some W → w ∈ [0, 1, 2] :=
      mem_of_isAmong shop_initial (by decide +kernel)
    have htime : ((definiteSystem shopSha256).states shop unreleasedRun).all (withinLease [0, 1, 2])
        = true := by
      decide +kernel
    intro t ht
    exact withinLease_of_eq_true (hmem t ht) (List.all_eq_true.mp htime t ht)
  · have hrun : ((definiteSystem shopSha256).run shop unreleasedRun).any bothCalling = true := by
      decide +kernel
    obtain ⟨s, hs, hboth⟩ := (Option.any_eq_true _ _).mp hrun
    refine ⟨s, hs, fun hone => ?_⟩
    unfold bothCalling at hboth
    split at hboth
    · rename_i j k hj hk
      obtain ⟨W, hW, hWj⟩ := Option.bind_eq_some_iff.mp hj
      obtain ⟨V, hV, hVk⟩ := Option.bind_eq_some_iff.mp hk
      have hsame : (1 : WorkerId) = 2 :=
        hone 1 2 W V j k hW hV hWj hVk (of_decide_eq_true hboth)
      cases hsame
    · cases hboth

end InvoicePayment.Payments
