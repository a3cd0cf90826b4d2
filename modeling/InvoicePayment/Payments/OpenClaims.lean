import InvoicePayment.Payments.Soundness

/-!
# Payment is only started from open

`pay` decides on the state it read before transaction 1. An attempt is committed on an open
invoice along a run exactly when nothing takes the invoice out of `open` between the handler's
read and its commit (`claims_on_open_iff`); the partial unique index excludes another payment
there, but not an admin transition.
-/

namespace InvoicePayment.Payments

open PaymentService (isOpen)

variable {δ : Type} {env : Env δ} {s s' : State} {l : Label δ}

/-- The invoice is open in the database. -/
def OpenIn (db : Db) (invoiceId : Uuid) : Prop := ∃ i ∈ db.invoices, isOpen invoiceId i = true

/-- The handler has read its invoice as open and has not decided yet. -/
def HasReadOpen (w : WorkerId) (call : PayCall) (s : State) : Prop :=
  ∃ amount, (s.workers w).bind Worker.reading = some (call, .open, amount)

/-- The step in which the handler reads its invoice as open. -/
def ReadsOpen (w : WorkerId) (call : PayCall) (x : Step δ) : Prop :=
  ¬ HasReadOpen w call x.pre ∧ HasReadOpen w call x.post

/-- The step in which transaction 1 of the handler commits a new attempt. -/
def Claims (w : WorkerId) (call : PayCall) (x : Step δ) : Prop :=
  (∃ state amount, (x.pre.workers w).bind Worker.reading = some (call, state, amount)) ∧
  ∃ job, (x.post.workers w).bind Worker.charging = some (call, job)

/-- The step takes the invoice out of `open`. -/
def LeavesOpen (invoiceId : Uuid) (x : Step δ) : Prop :=
  OpenIn x.pre.db invoiceId ∧ ¬ OpenIn x.post.db invoiceId

/-- Every attempt committed along the steps is for an invoice that is open at that commit. -/
def ClaimsOnOpen (xs : List (Step δ)) : Prop :=
  ∀ x ∈ xs, ∀ w call, Claims w call x → OpenIn x.pre.db call.invoiceId

/-- No invoice leaves `open` between a handler's read of it and the handler's commit. -/
def UndisturbedClaims (xs : List (Step δ)) : Prop :=
  ∀ front r between c after, xs = front ++ r :: (between ++ c :: after) →
    ∀ w call, ReadsOpen w call r → Claims w call c →
      ∀ x ∈ between, ¬ LeavesOpen call.invoiceId x

/-! ## One step -/

theorem reading_of_hasReadOpen {w : WorkerId} {call : PayCall} (h : HasReadOpen w call s) :
    ∃ W amount, s.workers w = some W ∧ W.reading = some (call, .open, amount) := by
  obtain ⟨amount, h⟩ := h
  obtain ⟨W, hW, hread⟩ := Option.bind_eq_some_iff.mp h
  exact ⟨W, amount, hW, hread⟩

/-- A handler reads `open` from an open invoice, and the read changes nothing. -/
theorem openIn_of_readsOpen (he : Effect env s l s') {w : WorkerId} {call : PayCall}
    (h : ReadsOpen w call ⟨s, l, s'⟩) : OpenIn s'.db call.invoiceId := by
  obtain ⟨W, amount, hW, hread⟩ := reading_of_hasReadOpen h.2
  rcases he.reading hW hread with ⟨W₀, hW₀, hold⟩ | ⟨hdb, i, hi, hid, -, hopen, -⟩
  · refine absurd ⟨amount, ?_⟩ h.1
    show (s.workers w).bind Worker.reading = _
    rw [hW₀]
    exact hold
  · rw [hdb]
    exact ⟨i, hi, by simp [isOpen, hid, hopen]⟩

/-- A handler that commits an attempt has read `open`. -/
theorem hasReadOpen_of_claims (he : Effect env s l s') {w : WorkerId} {call : PayCall}
    (h : Claims w call ⟨s, l, s'⟩) : HasReadOpen w call s := by
  obtain ⟨⟨state, amount, hread⟩, job, hcharging⟩ := h
  obtain ⟨W', hW', hcharging⟩ := Option.bind_eq_some_iff.mp hcharging
  obtain ⟨W, hW, hread'⟩ := Option.bind_eq_some_iff.mp hread
  -- a worker that has only read does not charge yet
  have hnone : ∀ X, s.workers w = some X → X.charging ≠ some (call, job) := by
    intro X hX hcharge
    obtain rfl : X = W := Option.some.inj (hX.symm.trans hW)
    unfold Worker.charging at hcharge
    split at hcharge
    · cases hread'
    · cases hcharge
  cases he.became hW' with
  | same hv => exact absurd hcharging (hnone _ hv)
  | leased _ _ _ hW'' =>
    rw [hW''] at hcharging
    cases hcharging
  | quiet _ hq _ =>
    rcases hq.charging with hn | ⟨X, hX, hsame⟩
    · rw [hn] at hcharging
      cases hcharging
    · rw [hsame] at hcharging
      exact absurd hcharging (hnone X hX)
  | sent _ hv _ hsent _ =>
    rw [hsent.charging] at hcharging
    exact absurd hcharging (hnone _ hv)
  | @claimed fresh call' state' amount' job' _ hv _ hclaimed hW'' =>
    have hsame : some (call', state', amount') = some (call, state, amount) := by
      rw [← hread, show s.workers w = _ from hv]
      rfl
    simp only [Option.some.injEq, Prod.mk.injEq] at hsame
    obtain ⟨rfl, rfl, rfl⟩ := hsame
    rw [hclaimed.stateOpen] at hread
    exact ⟨_, hread⟩
  | replayed _ _ hW'' =>
    rw [hW''] at hcharging
    cases hcharging
  | delivered _ _ _ _ _ hv hW'' =>
    rw [hW'', Worker.charging_deliver] at hcharging
    exact absurd hcharging (hnone _ hv)
  | finalized _ _ _ hfin =>
    rw [hfin.charging] at hcharging
    cases hcharging
  | moved _ hW'' =>
    rw [hW''] at hcharging
    cases hcharging

/-- The invoice is in a terminal state. -/
def ClosedIn (db : Db) (invoiceId : Uuid) : Prop :=
  ∃ i ∈ db.invoices, i.id = invoiceId ∧ i.state.isTerminal = true

/-- No step reopens an invoice. -/
theorem closedIn_step (hs : Sound env s) (he : Effect env s l s') {invoiceId : Uuid}
    (h : ClosedIn s.db invoiceId) : ClosedIn s'.db invoiceId := by
  obtain ⟨i, hi, hid, hterminal⟩ := h
  obtain ⟨i', hi', hid', -, hsame | hmove⟩ := he.invoice_mono hs hi
  · exact ⟨i', hi', hid'.trans hid, by rw [hsame]; exact hterminal⟩
  · rw [InvoiceState.canTransitionTo_eq_false_of_isTerminal hterminal] at hmove
    cases hmove

/-- An invoice that leaves `open` is closed for good. -/
theorem closedIn_of_leavesOpen (hs : Sound env s) (he : Effect env s l s') {invoiceId : Uuid}
    (h : LeavesOpen invoiceId ⟨s, l, s'⟩) : ClosedIn s'.db invoiceId := by
  obtain ⟨⟨i, hi, hopen⟩, hleft⟩ := h
  simp only [isOpen, Bool.and_eq_true, decide_eq_true_eq] at hopen
  obtain ⟨i', hi', hid', -, hsame | hmove⟩ := he.invoice_mono hs hi
  · refine absurd ⟨i', hi', ?_⟩ hleft
    simp [isOpen, hid', hopen.1, hsame, hopen.2]
  · refine ⟨i', hi', hid'.trans hopen.1, ?_⟩
    rw [hopen.2] at hmove
    cases hstate : i'.state <;> rw [hstate] at hmove <;> first | rfl | cases hmove

theorem not_openIn_of_closedIn (hs : Sound env s) {invoiceId : Uuid}
    (h : ClosedIn s.db invoiceId) : ¬ OpenIn s.db invoiceId := by
  rintro ⟨j, hj, hopen⟩
  obtain ⟨i, hi, hid, hterminal⟩ := h
  simp only [isOpen, Bool.and_eq_true, decide_eq_true_eq] at hopen
  rw [hs.invoice_eq hi hj (hid.trans hopen.1.symm), hopen.2] at hterminal
  cases hterminal

/-! ## Every run -/

section Run

variable {ls : List (Label δ)}

/-- The step of a trace between two others is a step of the run, from a reachable state. -/
theorem effect_of_mem_steps (h : Initial s) {x : Step δ} (hx : x ∈ (system env).steps s ls) :
    Sound env x.pre ∧ Effect env x.pre x.label x.post :=
  ⟨sound_of_reachable (TransitionSystem.reachable_of_mem_steps (.of_initial h) hx),
    step_effect (TransitionSystem.step_of_mem_steps hx).1⟩

/-- A committed attempt goes back to a read of `open`. -/
theorem exists_read_of_claims (h : Initial s) {before after : List (Step δ)} {c : Step δ}
    (hsplit : (system env).steps s ls = before ++ c :: after) {w : WorkerId} {call : PayCall}
    (hclaims : Claims w call c) :
    ∃ front r between, before = front ++ r :: between ∧ ReadsOpen w call r := by
  obtain ⟨hbefore, hpre⟩ := TransitionSystem.isTrace_before hsplit
  have hc : c ∈ (system env).steps s ls := by simp [hsplit]
  have hend : HasReadOpen w call (TransitionSystem.endState s before) := by
    rw [← hpre]
    exact hasReadOpen_of_claims (effect_of_mem_steps h hc).2 hclaims
  have hstart : ¬ HasReadOpen w call s := by
    rintro ⟨amount, hread⟩
    obtain ⟨W, hW, -⟩ := Option.bind_eq_some_iff.mp hread
    exact h.no_worker hW
  exact hbefore.exists_rise hstart hend

theorem claimsOnOpen_of_undisturbed (h : Initial s)
    (hquiet : UndisturbedClaims ((system env).steps s ls)) :
    ClaimsOnOpen ((system env).steps s ls) := by
  intro c hc w call hclaims
  obtain ⟨before, after, hsplit⟩ := List.append_of_mem hc
  obtain ⟨front, r, between, rfl, hreads⟩ := exists_read_of_claims h hsplit hclaims
  have hsplit' : (system env).steps s ls = front ++ r :: (between ++ c :: after) := by
    rw [hsplit, List.append_assoc, List.cons_append]
  have hkept := hquiet front r between c after hsplit' w call hreads hclaims
  obtain ⟨hbetween, hpre⟩ := TransitionSystem.isTrace_between hsplit'
  have hr : r ∈ (system env).steps s ls := by simp [hsplit']
  have hread : OpenIn r.post.db call.invoiceId :=
    openIn_of_readsOpen (effect_of_mem_steps h hr).2 hreads
  have hend := hbetween.keeps (P := fun t => OpenIn t.db call.invoiceId) hread fun x hx hopen => by
    by_contra hleft
    exact hkept x hx ⟨hopen, hleft⟩
  rw [← hpre] at hend
  exact hend

theorem undisturbed_of_claimsOnOpen (h : Initial s)
    (hopen : ClaimsOnOpen ((system env).steps s ls)) :
    UndisturbedClaims ((system env).steps s ls) := by
  intro front r between c after hsplit w call _ hclaims x hx hleaves
  obtain ⟨between₁, between₂, rfl⟩ := List.append_of_mem hx
  have hsplit' : (system env).steps s ls =
      (front ++ r :: between₁) ++ x :: (between₂ ++ c :: after) := by
    rw [hsplit]
    simp
  obtain ⟨hbetween, hpre⟩ := TransitionSystem.isTrace_between hsplit'
  have hmem : ∀ y, y = x ∨ y ∈ between₂ ∨ y = c → y ∈ (system env).steps s ls := by
    intro y hy
    rw [hsplit']
    simp only [List.mem_append, List.mem_cons]
    tauto
  have hx' := effect_of_mem_steps h (hmem x (.inl rfl))
  have hclosed : ClosedIn x.post.db call.invoiceId := closedIn_of_leavesOpen hx'.1 hx'.2 hleaves
  have hend := hbetween.keeps (P := fun t => ClosedIn t.db call.invoiceId) hclosed
    fun y hy hyc =>
      have hy' := effect_of_mem_steps h (hmem y (.inr (.inl hy)))
      closedIn_step hy'.1 hy'.2 hyc
  rw [← hpre] at hend
  have hc := hmem c (.inr (.inr rfl))
  exact not_openIn_of_closedIn (effect_of_mem_steps h hc).1 hend (hopen c hc w call hclaims)

end Run

/-- Along a run every attempt is committed on an open invoice exactly when no invoice leaves
`open` between a handler's read and its commit. -/
theorem claims_on_open_iff (env : Env δ) {s : State} (h : Initial s) (ls : List (Label δ)) :
    ClaimsOnOpen ((system env).steps s ls) ↔ UndisturbedClaims ((system env).steps s ls) :=
  ⟨undisturbed_of_claimsOnOpen h, claimsOnOpen_of_undisturbed h⟩

/-! ## An invoice voided between the read and the commit -/

/-- The handler reads `open`, then the invoice is voided. -/
def staleRun : List (Label DefiniteChoice) :=
  openInvoice ++
    [.startPay 1 (payCall "k1" "tok_success"), .work 1 (shopFresh 0),
     .startAdmin 2 { businessId := shopId 2, id := shopId 10, action := .void },
     .work 2 (shopFresh 0), .work 2 (shopFresh 0)]

/-- What is open stays open. -/
def keepsOpen (x : Step DefiniteChoice) : Bool :=
  x.pre.db.invoices.all fun i => i.state ≠ .open || x.post.db.invoices.any (isOpen i.id)

theorem not_leavesOpen_of_keepsOpen {x : Step DefiniteChoice} (h : keepsOpen x = true)
    (invoiceId : Uuid) : ¬ LeavesOpen invoiceId x := by
  rintro ⟨⟨i, hi, hopen⟩, hnot⟩
  have hkeeps := List.all_eq_true.mp h i hi
  simp only [isOpen, Bool.and_eq_true, decide_eq_true_eq] at hopen
  simp only [hopen.2, ne_eq, not_true_eq_false, decide_false, Bool.false_or, hopen.1,
    List.any_eq_true] at hkeeps
  exact hnot hkeeps

/-- Both calls of `retryRun` claim on an open invoice; this one does not. -/
theorem claims_on_open_iff_staleRun :
    ClaimsOnOpen ((definiteSystem shopSha256).steps shop retryRun) ∧
    (ClaimsOnOpen ((definiteSystem shopSha256).steps shop (staleRun ++ [.work 1 (shopFresh 20)])) ↔
      UndisturbedClaims
        ((definiteSystem shopSha256).steps shop (staleRun ++ [.work 1 (shopFresh 20)]))) := by
  refine ⟨(claims_on_open_iff _ shop_initial retryRun).mpr ?_, claims_on_open_iff _ shop_initial _⟩
  have hall : ((definiteSystem shopSha256).steps shop retryRun).all keepsOpen = true := by
    decide +kernel
  intro front r between c after hsplit w call _ _ x hx
  refine not_leavesOpen_of_keepsOpen (List.all_eq_true.mp hall x ?_) call.invoiceId
  rw [hsplit]
  simp [hx]

theorem staleRun_isSome : ((definiteSystem shopSha256).run shop staleRun).isSome = true := by
  decide +kernel

def staleState : State := ((definiteSystem shopSha256).run shop staleRun).get staleRun_isSome

theorem claim_isSome :
    ((definiteSystem shopSha256).step staleState (.work 1 (shopFresh 20))).isSome = true := by
  decide +kernel

/-- The handler's next step. -/
def staleClaim : Step DefiniteChoice :=
  ⟨staleState, .work 1 (shopFresh 20),
    ((definiteSystem shopSha256).step staleState (.work 1 (shopFresh 20))).get claim_isSome⟩

theorem staleClaim_claims : Claims 1 (payCall "k1" "tok_success") staleClaim :=
  ⟨⟨.open, 500, by decide +kernel⟩,
    { attemptId := shopId 21, invoiceId := shopId 10, businessId := shopId 2
      idempotencyKey := "k1", amountCents := 500, cardToken := "tok_success" },
    by decide +kernel⟩

/-- The handler commits an attempt on the voided invoice. -/
theorem claim_on_void :
    ¬ ClaimsOnOpen
      ((definiteSystem shopSha256).steps shop (staleRun ++ [.work 1 (shopFresh 20)])) := by
  intro hopen
  have hmem : staleClaim ∈
      (definiteSystem shopSha256).steps shop (staleRun ++ [.work 1 (shopFresh 20)]) :=
    TransitionSystem.mem_steps_of_run (Option.some_get _).symm (Option.some_get _).symm
  obtain ⟨i, hi, hio⟩ := hopen _ hmem 1 _ staleClaim_claims
  have hnone : staleState.db.invoices.any (isOpen (shopId 10)) = false := by decide +kernel
  rw [List.any_eq_false] at hnone
  exact hnone i hi hio

end InvoicePayment.Payments
