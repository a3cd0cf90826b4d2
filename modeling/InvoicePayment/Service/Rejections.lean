import InvoicePayment.Payments.Refusals
import InvoicePayment.Service.System

/-!
# Rejected requests

A request that is answered with a client error leaves no trace. While it runs it stays `Clean`:
its own steps change nothing but what `forget` hides, and no step of another request looks at
that. So the run without it leads to the same state, and everything that follows goes the same
way.
-/

namespace InvoicePayment.Service

/-! ## Requests -/

/-- A request: a pay or admin call runs in a worker, the others are served at once. -/
inductive RequestId where
  | worker (w : Payments.WorkerId)
  | call (c : CallId)
deriving DecidableEq

variable {δ : Type}

/-- The request a label is a step of. -/
def Label.request : Label δ → Option RequestId
  | .payments l => l.worker.map .worker
  | .call c _ => some (.call c)
  | _ => none

/-- The error a request was answered with. -/
def State.error (s : State) : RequestId → Option AppError
  | .worker w => (s.workers w).bind Payments.Worker.error
  | .call c =>
    match s.answers c with
    | some (.error e) => some e
    | _ => none

/-- A request that has not begun, or has only read, or was refused. -/
def State.Clean (s : State) : RequestId → Prop
  | .worker w => ∀ W, s.workers w = some W → W.isClean = true
  | .call c => ∀ a, s.answers c = some a → ∃ e, a = .error e

/-- The state without a request. -/
def State.forget (s : State) : RequestId → State
  | .worker w => { s with toState := s.toState.forget w }
  | .call c => { s with answers := fun c' => if c' = c then none else s.answers c' }

variable {env : Env δ} {s t : State} {l : Label δ} {ρ : RequestId}

@[simp] theorem forget_db (s : State) (ρ : RequestId) : (s.forget ρ).db = s.db := by
  cases ρ <;> rfl

@[simp] theorem forget_psp (s : State) (ρ : RequestId) : (s.forget ρ).psp = s.psp := by
  cases ρ <;> rfl

@[simp] theorem forget_inFlight (s : State) (ρ : RequestId) :
    (s.forget ρ).inFlight = s.inFlight := by
  cases ρ <;> rfl

theorem clean_of_error {e : AppError} (h : s.error ρ = some e) (he : e.isRejection = true) :
    s.Clean ρ := by
  cases ρ with
  | worker w =>
    intro W hW
    obtain ⟨W', hW', herror⟩ := Option.bind_eq_some_iff.mp h
    obtain rfl := Option.some.inj (hW'.symm.trans hW)
    exact Payments.Worker.isClean_of_error herror he
  | call c =>
    intro a ha
    simp only [State.error, ha] at h
    split at h
    · exact ⟨_, Option.some.inj ‹_›⟩
    · cases h

/-! ## Its own steps -/

/-- A step of its own that leaves a request clean found it clean and did nothing else. -/
theorem own_step (h : step env s l = some t) (hl : l.request = some ρ) (ht : t.Clean ρ) :
    s.Clean ρ ∧ t.forget ρ = s.forget ρ := by
  cases l with
  | payments l =>
    obtain ⟨w, hw, rfl⟩ := Option.map_eq_some_iff.mp hl
    obtain ⟨p, hp, rfl⟩ := Option.map_eq_some_iff.mp h
    obtain ⟨W, hW⟩ := Payments.exists_worker_own hp hw
    obtain ⟨hclean, rfl⟩ := Payments.step_of_clean hp hw hW (ht W hW)
    refine ⟨hclean, ?_⟩
    exact congrArg (fun p => { s with toState := p }) (Payments.setWorker_forget s.toState w W)
  | call c req =>
    obtain rfl := Option.some.inj hl
    simp only [step, callStep] at h
    split at h
    · cases h
    · rename_i hnone
      split at h
      · obtain rfl := Option.some.inj h
        refine ⟨fun a ha => ?_, ?_⟩
        · rw [hnone] at ha
          cases ha
        · have hanswers : ((s.setAnswer c (.error ‹_›)).forget (.call c)).answers =
              (s.forget (.call c)).answers := by
            funext c'
            by_cases hc : c' = c
            · simp [State.forget, hc]
            · simp [State.forget, State.setAnswer, hc]
          exact congrArg (fun f => { s with answers := f }) hanswers
      · obtain rfl := Option.some.inj h
        obtain ⟨e, he⟩ := ht _ (if_pos rfl)
        cases he
  | dispatcher l => cases hl
  | touch keyPrefix => cases hl

/-! ## The steps of everything else -/

/-- No request on its way to the PSP is this one's. -/
def State.Unsent (s : State) (ρ : RequestId) : Prop :=
  ∀ m ∈ s.inFlight, RequestId.worker m.worker ≠ ρ

/-- A step of another request neither makes this one clean nor soils it. -/
theorem clean_iff (h : step env s l = some t) (hl : l.request ≠ some ρ) :
    t.Clean ρ ↔ s.Clean ρ := by
  cases ρ with
  | worker w =>
    cases l with
    | payments l =>
      obtain ⟨p, hp, rfl⟩ := Option.map_eq_some_iff.mp h
      have hne : l.worker ≠ some w := fun hw => hl (congrArg (Option.map RequestId.worker) hw)
      refine ⟨fun ht W hW => ?_, fun hs W hW => ?_⟩
      · obtain ⟨W', hW'⟩ := Payments.exists_worker hp hW
        have hsame := Payments.worker_of_clean hp hne hW' (ht W' hW')
        rw [Option.some.inj (hW.symm.trans hsame)]
        exact ht W' hW'
      · rcases (Payments.step_effect hp).workers_of_ne hne with hsame | ⟨callId, r, hdeliver⟩
        · exact hs W (hsame.symm.trans hW)
        · have hW' : (s.workers w).map (Payments.Worker.deliver callId r) = some W :=
            hdeliver.symm.trans hW
          obtain ⟨W₀, hW₀, rfl⟩ := Option.map_eq_some_iff.mp hW'
          have hclean := hs W₀ hW₀
          rw [Payments.Worker.deliver_of_waitsFor_eq_none
            (Payments.waitsFor_of_clean hclean)]
          exact hclean
    | dispatcher l =>
      simp only [step] at h
      split_ifs at h
      obtain ⟨hooks, -, rfl⟩ := Option.map_eq_some_iff.mp h
      exact Iff.rfl
    | call c req =>
      simp only [step, callStep] at h
      split at h
      · cases h
      · split at h
        · obtain rfl := Option.some.inj h
          exact Iff.rfl
        · obtain rfl := Option.some.inj h
          exact Iff.rfl
    | touch keyPrefix =>
      obtain rfl := Option.some.inj h
      exact Iff.rfl
  | call c =>
    have hanswers : t.answers c = s.answers c := by
      cases l with
      | payments l =>
        obtain ⟨p, -, rfl⟩ := Option.map_eq_some_iff.mp h
        rfl
      | dispatcher l =>
        simp only [step] at h
        split_ifs at h
        obtain ⟨hooks, -, rfl⟩ := Option.map_eq_some_iff.mp h
        rfl
      | call c' req =>
        have hne : c ≠ c' := fun hc => hl (by rw [hc]; rfl)
        simp only [step, callStep] at h
        split at h
        · cases h
        · split at h
          · obtain rfl := Option.some.inj h
            exact if_neg hne
          · obtain rfl := Option.some.inj h
            exact if_neg hne
      | touch keyPrefix =>
        obtain rfl := Option.some.inj h
        rfl
    simp only [State.Clean, hanswers]

/-- The answer of another call is set beside this one's. -/
theorem forget_setAnswer {c c' : CallId} (hc : c' ≠ c) (s : State) (a : Except AppError Answer) :
    (s.forget (.call c)).setAnswer c' a = (s.setAnswer c' a).forget (.call c) := by
  have hanswers : ((s.forget (.call c)).setAnswer c' a).answers =
      ((s.setAnswer c' a).forget (.call c)).answers := by
    funext c''
    by_cases hc'' : c'' = c'
    · simp [State.forget, State.setAnswer, hc'', hc]
    · simp [State.forget, State.setAnswer, hc'']
  exact congrArg (fun f => { s with answers := f }) hanswers

/-- A step of another request does not look at what `forget` hides. -/
theorem step_forget (hl : l.request ≠ some ρ) (hsent : s.Unsent ρ) :
    step env (s.forget ρ) l = (step env s l).map fun t => t.forget ρ := by
  cases ρ with
  | worker w =>
    cases l with
    | payments l =>
      have hne : l.worker ≠ some w := fun hw => hl (congrArg (Option.map RequestId.worker) hw)
      have hsent' : ∀ m ∈ s.inFlight, m.worker ≠ w :=
        fun m hm hw => hsent m hm (congrArg RequestId.worker hw)
      have hstep : Payments.step env.toEnv (s.toState.forget w) l = _ :=
        Payments.step_forget hne hsent'
      simp only [step, Option.map_map]
      exact (congrArg (Option.map _) hstep).trans (Option.map_map _ _ _)
    | dispatcher l =>
      by_cases hdisp : isDispatcher l = true
      · simp only [step, if_pos hdisp, Option.map_map]
        rfl
      · simp only [step, if_neg hdisp]
        rfl
    | call c req =>
      simp only [step, callStep]
      have hanswers : (s.forget (.worker w)).answers = s.answers := rfl
      have hnow : (s.forget (.worker w)).now = s.now := rfl
      rw [hanswers, forget_db, hnow]
      split
      · rfl
      · split
        · rfl
        · rfl
    | touch keyPrefix => rfl
  | call c =>
    cases l with
    | payments l =>
      simp only [step, Option.map_map]
      rfl
    | dispatcher l =>
      by_cases hdisp : isDispatcher l = true
      · simp only [step, if_pos hdisp, Option.map_map]
        rfl
      · simp only [step, if_neg hdisp]
        rfl
    | call c' req =>
      have hne : c' ≠ c := fun hc => hl (by rw [← hc]; rfl)
      have hanswers : (s.forget (.call c)).answers c' = s.answers c' := if_neg hne
      have hnow : (s.forget (.call c)).now = s.now := rfl
      simp only [step, callStep]
      rw [hanswers, forget_db, hnow]
      split
      · rfl
      · split
        · exact congrArg some (forget_setAnswer hne s _)
        · exact congrArg some (forget_setAnswer hne (s.withDb _) _)
    | touch keyPrefix => rfl

/-! ## Whole runs -/

theorem sentUnclean_of_reachable (h : (system env).Reachable s) :
    Payments.SentUnclean s.toState := by
  refine TransitionSystem.invariant_of_reachable (P := fun s => Payments.SentUnclean s.toState)
    ?_ ?_ h
  · intro s₀ h₀ m hm
    rw [h₀.payments.inFlight] at hm
    cases hm
  · intro s l t _ hs hstep
    cases l with
    | payments l =>
      obtain ⟨p, hp, rfl⟩ := Option.map_eq_some_iff.mp hstep
      exact Payments.sentUnclean_step hs hp
    | dispatcher l =>
      simp only [system, step] at hstep
      split_ifs at hstep
      obtain ⟨hooks, -, rfl⟩ := Option.map_eq_some_iff.mp hstep
      exact hs
    | call c req =>
      simp only [system, step, callStep] at hstep
      split at hstep
      · cases hstep
      · split at hstep
        · obtain rfl := Option.some.inj hstep
          exact hs
        · obtain rfl := Option.some.inj hstep
          exact hs
    | touch keyPrefix =>
      obtain rfl := Option.some.inj hstep
      exact hs

/-- A clean request has sent nothing. -/
theorem unsent_of_clean (h : (system env).Reachable s) (hs : s.Clean ρ) : s.Unsent ρ := by
  rintro m hm rfl
  obtain ⟨W, hW, hunclean⟩ := sentUnclean_of_reachable h m hm
  rw [hs W hW] at hunclean
  exact Bool.noConfusion hunclean

theorem clean_of_step (h : step env s l = some t) (ht : t.Clean ρ) : s.Clean ρ := by
  by_cases hl : l.request = some ρ
  · exact (own_step h hl ht).1
  · exact (clean_iff h hl).mp ht

theorem forget_of_initial (h : Initial s) (ρ : RequestId) : s.forget ρ = s := by
  cases ρ with
  | worker w =>
    have hworkers : (s.toState.forget w).workers = s.workers := by
      funext v
      by_cases hv : v = w
      · simp [Payments.State.forget, hv, h.payments.workers]
      · simp [Payments.State.forget, hv]
    exact congrArg (fun f => { s with workers := f }) hworkers
  | call c =>
    have hanswers : (s.forget (.call c)).answers = s.answers := by
      funext c'
      by_cases hc : c' = c
      · simp [State.forget, hc, h.answers]
      · simp [State.forget, hc]
    exact congrArg (fun f => { s with answers := f }) hanswers

/-- What a rejected request leaves behind in the run that rejects it. -/
structure LeavesNoTrace (env : Env δ) (s₀ : State) (ls : List (Label δ)) (s : State)
    (ρ : RequestId) (e : AppError) : Prop where
  /-- Its steps commit nothing and send nothing. -/
  steps_idle : ∀ x ∈ (system env).steps s₀ ls, x.label.request = some ρ →
    x.post.db = x.pre.db ∧ x.post.psp = x.pre.psp ∧ x.post.inFlight = x.pre.inFlight
  /-- It never has a request on its way to the PSP. -/
  sends_nothing : ∀ t ∈ (system env).states s₀ ls, t.Unsent ρ
  /-- A pay call that is refused the invoice has not claimed its key. -/
  key_free : Payments.IsRefusal e → ∀ w, ρ = .worker w → ∀ x ∈ (system env).steps s₀ ls,
    x.label.request = some ρ → ∀ call, x.post.workers w = some (.pay call (.done (.error e))) →
      ∀ k ∈ x.post.db.idempotencyKeys,
        PaymentService.isKey call.businessId call.idempotencyKey k = false
  /-- The run leads to the same state without it. -/
  run_without : (system env).run s₀ (ls.filter fun l => l.request ≠ some ρ) = some (s.forget ρ)
  /-- What follows, follows without it in the same way. -/
  continues : ∀ ls', (∀ l ∈ ls', l.request ≠ some ρ) →
    (system env).run (s.forget ρ) ls' = ((system env).run s ls').map fun t => t.forget ρ

/-- A request that is answered with a client error leaves no trace. -/
theorem rejected_leaves_no_trace {s₀ : State} (h₀ : Initial s₀) {ls : List (Label δ)}
    (hrun : (system env).run s₀ ls = some s) {e : AppError} (herror : s.error ρ = some e)
    (he : e.isRejection = true) : LeavesNoTrace env s₀ ls s ρ e := by
  have hs₀ : (system env).Reachable s₀ := .of_initial h₀
  have hclean : s.Clean ρ := clean_of_error herror he
  have hback : ∀ t l u, (system env).Reachable t → (system env).step t l = some u →
      u.Clean ρ → t.Clean ρ := fun t l u _ hstep hu => clean_of_step hstep hu
  have hgood : ∀ t (l : Label δ) u, (system env).Reachable t ∧ t.Clean ρ → l.request ≠ some ρ →
      (system env).step t l = some u → (system env).Reachable u ∧ u.Clean ρ :=
    fun t l u ht hl hstep => ⟨ht.1.step hstep, (clean_iff hstep hl).mpr ht.2⟩
  have hmap : ∀ t (l : Label δ), (system env).Reachable t ∧ t.Clean ρ → l.request ≠ some ρ →
      (system env).step (t.forget ρ) l = ((system env).step t l).map fun u => u.forget ρ :=
    fun t l ht hl => step_forget hl (unsent_of_clean ht.1 ht.2)
  have hstates : ∀ t ∈ (system env).states s₀ ls, t.Clean ρ :=
    TransitionSystem.forall_states_of_last hback hs₀ hrun hclean
  have hown : ∀ x ∈ (system env).steps s₀ ls, x.label.request = some ρ →
      x.post.forget ρ = x.pre.forget ρ := by
    intro x hx hl
    obtain ⟨hstep, -⟩ := TransitionSystem.step_of_mem_steps hx
    exact (own_step hstep hl (hstates _ (TransitionSystem.post_mem_states hx))).2
  have hdb : ∀ x ∈ (system env).steps s₀ ls, x.label.request = some ρ → x.post.db = x.pre.db := by
    intro x hx hl
    simpa using congrArg (fun t : State => t.db) (hown x hx hl)
  refine ⟨fun x hx hl => ⟨hdb x hx hl, ?_, ?_⟩, fun t ht => ?_, ?_, ?_, fun ls' hls' => ?_⟩
  · simpa using congrArg (fun t : State => t.psp) (hown x hx hl)
  · simpa using congrArg (fun t : State => t.inFlight) (hown x hx hl)
  · exact unsent_of_clean (TransitionSystem.reachable_of_mem_states hs₀ ht) (hstates t ht)
  · rintro hrefusal w rfl x hx hl call hw
    rw [hdb x hx hl]
    obtain ⟨hstep, -⟩ := TransitionSystem.step_of_mem_steps hx
    obtain ⟨l, hlabel⟩ : ∃ l, x.label = .payments l := by
      cases hlab : x.label with
      | payments l => exact ⟨l, rfl⟩
      | dispatcher l => rw [hlab] at hl; cases hl
      | call c req => rw [hlab] at hl; cases hl
      | touch keyPrefix => rw [hlab] at hl; cases hl
    rw [hlabel] at hstep hl
    obtain ⟨p, hp, hpost⟩ := Option.map_eq_some_iff.mp hstep
    obtain ⟨v, hv, hvw⟩ := Option.map_eq_some_iff.mp hl
    obtain rfl := RequestId.worker.inj hvw
    refine Payments.key_free_of_refused hp hv ?_ hrefusal
    rw [← hpost] at hw
    exact hw
  · have herased : ∀ t (l : Label δ) u, (system env).Reachable t →
        (system env).step t l = some u → u.Clean ρ → decide (l.request ≠ some ρ) = false →
        u.forget ρ = t.forget ρ :=
      fun t l u _ hstep hu hl => (own_step hstep (by simpa using hl) hu).2
    have hkept : ∀ t (l : Label δ) u, (system env).Reachable t →
        (system env).step t l = some u → u.Clean ρ → decide (l.request ≠ some ρ) = true →
        (system env).step (t.forget ρ) l = some (u.forget ρ) :=
      fun t l u ht hstep hu hl => (hmap t l ⟨ht, hback t l u ht hstep hu⟩
        (of_decide_eq_true hl)).trans (congrArg (Option.map _) hstep)
    have hforget : (fun t : State => t.forget ρ) s₀ = s₀ := forget_of_initial h₀ ρ
    exact TransitionSystem.run_filter h₀ hforget hback herased hkept hrun hclean
  · exact TransitionSystem.run_map hgood hmap ⟨hs₀.run hrun, hclean⟩ hls'

/-! ## A key refused and used again -/

/-- The two shops, before anything is asked. -/
def openShop : State := { toState := Payments.shop }

theorem openShop_initial : Initial openShop :=
  ⟨Payments.shop_initial, by decide, rfl, rfl⟩

def shopEnv : Env DefiniteChoice :=
  { sha256 := Payments.shopSha256, psp := definitePsp, lower := id, maxAttempts := 8 }

/-- Worker `1` is refused the draft invoice `10`; once it is open, worker `2` pays it under the
same key. -/
def refusedRun : List (Label DefiniteChoice) :=
  .call 0 (.createInvoice (shopId 2)
      { customerId := shopId 1
        lineItems := [{ description := "item", quantity := 1, unitAmountCents := 500 }] }
      (shopFresh 10)) ::
    ([.startPay 1 (Payments.payCall "k1" "tok_success"), .work 1 (shopFresh 0),
      .work 1 (shopFresh 20),
      .startAdmin 3 { businessId := shopId 2, id := shopId 10, action := .finalize },
      .work 3 (shopFresh 0), .work 3 (shopFresh 0),
      .startPay 2 (Payments.payCall "k1" "tok_success"), .work 2 (shopFresh 0),
      .work 2 (shopFresh 20), .work 2 (shopFresh 0),
      .serve 0 ⟨some (.succeeded "psp_1"), none⟩, .work 2 (shopFresh 30)] :
        List (Payments.Label DefiniteChoice)).map .payments

theorem rejected_leaves_no_trace_refusedRun :
    ∃ s, (system shopEnv).run openShop refusedRun = some s ∧
      LeavesNoTrace shopEnv openShop refusedRun s (.worker 1)
        (PaymentService.invoiceNotPayable .draft) ∧
      ((s.workers 2).bind Payments.Worker.outcome).map (fun o => o.2.1) = some .ok := by
  have hrun : ((system shopEnv).run openShop refusedRun).any (fun s =>
      decide (s.error (.worker 1) = some (PaymentService.invoiceNotPayable .draft)) &&
        decide (((s.workers 2).bind Payments.Worker.outcome).map (fun o => o.2.1) = some .ok)) =
      true := by decide +kernel
  obtain ⟨s, hs, hcheck⟩ := (Option.any_eq_true _ _).mp hrun
  simp only [Bool.and_eq_true, decide_eq_true_eq] at hcheck
  exact ⟨s, hs, rejected_leaves_no_trace openShop_initial hs hcheck.1 (by decide), hcheck.2⟩

end InvoicePayment.Service
