import InvoicePayment.Payments.Soundness
import Mathlib.Data.List.Destutter

/-!
# The invoice lifecycle

Two writers move an invoice: the conditional `UPDATE` of an admin action and transaction 2 of a
payment. `Effect.row` says that either makes one legal transition and moves the version and the
timestamps with it; `onPath_of_steps` follows an invoice through a run, `history_of_steps` an
admin call, and `left_of_done` is why two calls that read the same state cannot both succeed.
-/

namespace InvoicePayment.Payments

variable {δ : Type} {env : Env δ} {s s' : State} {l : Label δ}

/-! ## Destuttering from the right -/

section Destutter

variable {α : Type*} [DecidableEq α]

theorem destutter'_concat (l : List α) (a b : α) :
    (l ++ [a]).destutter' (· ≠ ·) b =
      if (l.destutter' (· ≠ ·) b).getLast? = some a then l.destutter' (· ≠ ·) b
      else l.destutter' (· ≠ ·) b ++ [a] := by
  induction l generalizing b with
  | nil =>
    by_cases h : b = a
    · simp [h]
    · simp [h]
  | cons c l ih =>
    by_cases h : b = c
    · rw [List.cons_append, List.destutter'_cons_neg _ (not_not.mpr h),
        List.destutter'_cons_neg _ (not_not.mpr h)]
      exact ih b
    · rw [List.cons_append, List.destutter'_cons_pos _ h, List.destutter'_cons_pos _ h, ih c]
      have hne : l.destutter' (· ≠ ·) c ≠ [] := List.destutter'_ne_nil _ _
      rw [List.getLast?_cons_of_ne_nil hne]
      split_ifs
      · rfl
      · rfl

/-- One more element is kept if it differs from the last one kept. -/
theorem destutter_concat (l : List α) (a : α) :
    (l ++ [a]).destutter (· ≠ ·) =
      if (l.destutter (· ≠ ·)).getLast? = some a then l.destutter (· ≠ ·)
      else l.destutter (· ≠ ·) ++ [a] := by
  cases l with
  | nil => simp
  | cons b l => exact destutter'_concat l a b

end Destutter

/-! ## The row of an invoice -/

/-- The committed row of an invoice. -/
def rowOf (s : State) (id : Uuid) : Option Invoice := s.db.invoices.find? fun i => i.id = id

theorem rowOf_eq_some {id : Uuid} {i : Invoice} (h : rowOf s id = some i) :
    i ∈ s.db.invoices ∧ i.id = id :=
  ⟨List.mem_of_find?_eq_some h, by simpa using List.find?_some h⟩

/-- The ids are unique, so the row of an id is the row with that id. -/
theorem Sound.rowOf_of_mem (hs : Sound env s) {i : Invoice} (hi : i ∈ s.db.invoices) :
    rowOf s i.id = some i := by
  cases hrow : rowOf s i.id with
  | none =>
    have hnone := List.find?_eq_none.mp hrow i hi
    simp at hnone
  | some j =>
    obtain ⟨hj, hid⟩ := rowOf_eq_some hrow
    rw [hs.invoice_eq hj hi hid]

/-- One transition: legal, with the version and the timestamps moved along. -/
structure Advance (i i' : Invoice) : Prop where
  id : i'.id = i.id
  legal : i.state.canTransitionTo i'.state = true
  version : i'.version = i.version + 1
  finalizedAt : i'.finalizedAt.isSome = (i.finalizedAt.isSome || decide (i'.state = .open))
  paidAt : i'.paidAt.isSome = (i.paidAt.isSome || decide (i'.state = .paid))
  voidedAt : i'.voidedAt.isSome = (i.voidedAt.isSome || decide (i'.state = .void))

/-- A new invoice. -/
structure Newborn (i : Invoice) : Prop where
  state : i.state = .draft
  version : i.version = 0
  finalizedAt : i.finalizedAt = none
  paidAt : i.paidAt = none
  voidedAt : i.voidedAt = none

theorem newborn_of_created {db db' : Db} {now : Timestamp} {businessId : Uuid}
    {req : CreateInvoiceRequest} {fresh : Fresh} {inv : Invoice}
    (h : InvoiceService.Created db now businessId req fresh db' inv) : Newborn inv := by
  rw [h.row]
  exact ⟨rfl, rfl, rfl, rfl, rfl⟩

/-- The `UPDATE` of an admin action. -/
theorem advance_move {i : Invoice} {toState : InvoiceState} (now : Timestamp)
    (h : i.state.canTransitionTo toState = true) (hpaid : toState ≠ .paid) :
    Advance i (InvoiceRepo.move now toState i) := by
  refine ⟨rfl, h, rfl, ?_, ?_, ?_⟩
  · by_cases hopen : toState = .open <;> simp [InvoiceRepo.move, hopen]
  · simp [InvoiceRepo.move, hpaid]
  · by_cases hvoid : toState = .void <;> simp [InvoiceRepo.move, hvoid]

/-- The `UPDATE` of a payment. -/
theorem advance_paid {i : Invoice} (now : Timestamp) (h : i.state = .open) :
    Advance i { i with state := .paid, paidAt := some now, version := i.version + 1 } := by
  refine ⟨rfl, ?_, rfl, ?_, ?_, ?_⟩
  · rw [h]
    rfl
  all_goals simp

/-- A step leaves the row of an invoice alone, moves it by one transition, or creates it. -/
theorem Effect.row (hs : Sound env s) (he : Effect env s l s') (id : Uuid) :
    rowOf s' id = rowOf s id ∨
    (∃ i i', rowOf s id = some i ∧ rowOf s' id = some i' ∧ Advance i i') ∨
    (rowOf s id = none ∧ ∃ i', rowOf s' id = some i' ∧ Newborn i') := by
  cases he with
  | @create _ _ _ db inv hcreated =>
    have hpost : rowOf (s.setDb db) id =
        (rowOf s id).or (List.find? (fun i => i.id = id) [inv]) := by
      rw [rowOf, State.setDb, hcreated.invoices, List.find?_append]
      rfl
    cases hfind : rowOf s id with
    | some i =>
      rw [hpost, hfind]
      exact .inl rfl
    | none =>
      rw [hpost, hfind, Option.none_or]
      by_cases hid : inv.id = id
      · exact .inr (.inr ⟨rfl, inv, by simp [hid], newborn_of_created hcreated⟩)
      · exact .inl (by simp [hid])
  | claim _ _ _ hclaimed =>
    left
    rw [rowOf, rowOf, hclaimed.post]
    rfl
  | @finalize _ _ _ _ job result _ _ _ _ hfinal _ =>
    simp only [rowOf, State.setWorker, State.setDb, hfinal.invoices]
    split_ifs
    · have hid : ∀ i : Invoice, decide
          (({ i with state := .paid, paidAt := some s.now, version := i.version + 1 } :
            Invoice).id = id) = decide (i.id = id) := fun _ => rfl
      rw [PaymentService.markPaid, Table.find?_update hid]
      cases hfind : s.db.invoices.find? fun i => i.id = id with
      | none => exact .inl rfl
      | some i =>
        simp only [Option.map_some]
        split_ifs with hopen
        · simp only [PaymentService.isOpen, Bool.and_eq_true, decide_eq_true_eq] at hopen
          exact .inr (.inl ⟨i, _, rfl, rfl, advance_paid s.now hopen.2⟩)
        · exact .inl rfl
    · exact .inl rfl
  | @move w fresh call current db inv hw happly =>
    obtain ⟨rfl, -⟩ := InvoiceService.apply_eq_ok happly
    simp only [rowOf, State.setWorker, State.setDb]
    have hid : ∀ i, decide ((InvoiceRepo.move s.now call.action.target i).id = id) =
        decide (i.id = id) := fun _ => rfl
    rw [Table.find?_update hid]
    cases hfind : s.db.invoices.find? fun i => i.id = id with
    | none => exact .inl rfl
    | some i =>
      simp only [Option.map_some]
      split_ifs with hin
      · simp only [InvoiceRepo.isIn, Bool.and_eq_true, decide_eq_true_eq] at hin
        have hcan := hs.loaded w _ call current hw rfl
        rw [← hin.2] at hcan
        have hpaid : call.action.target ≠ .paid := by
          cases call.action <;> exact InvoiceState.noConfusion
        exact .inr (.inl ⟨i, _, rfl, rfl, advance_move s.now hcan hpaid⟩)
      · exact .inl rfl
  | _ => exact .inl rfl

/-! ## The path of an invoice -/

/-- The states an invoice has been committed in, one after the other. -/
def path (id : Uuid) (ts : List State) : List InvoiceState :=
  (ts.filterMap fun t => (rowOf t id).map Invoice.state).destutter (· ≠ ·)

/-- What a row says about the states its invoice has gone through. -/
structure Lifecycle (p : List InvoiceState) (i : Invoice) : Prop where
  starts : p.head? = some .draft
  legal : p.IsChain fun a b => a.canTransitionTo b = true
  ends : p.getLast? = some i.state
  version : i.version + 1 = p.length
  finalizedAt : i.finalizedAt.isSome = true ↔ .open ∈ p
  paidAt : i.paidAt.isSome = true ↔ i.state = .paid
  voidedAt : i.voidedAt.isSome = true ↔ i.state = .void

theorem canTransitionTo_self (a : InvoiceState) : a.canTransitionTo a = false := by
  cases a <;> rfl

theorem Newborn.lifecycle {i : Invoice} (h : Newborn i) : Lifecycle [i.state] i := by
  constructor <;> simp [h.state, h.version, h.finalizedAt, h.paidAt, h.voidedAt]

/-- A transition makes the path one state longer. -/
theorem Lifecycle.advance {p : List InvoiceState} {i i' : Invoice} (h : Lifecycle p i)
    (ha : Advance i i') : Lifecycle (p ++ [i'.state]) i' := by
  have hne : p ≠ [] := by
    rintro rfl
    cases h.starts
  refine ⟨?_, ?_, by simp, ?_, ?_, ?_, ?_⟩
  · rw [List.head?_append_of_ne_nil _ hne]
    exact h.starts
  · refine List.isChain_append.mpr ⟨h.legal, List.isChain_singleton _, ?_⟩
    intro a hlast b hb
    rw [h.ends] at hlast
    obtain rfl : i.state = a := Option.some.inj hlast
    obtain rfl : i'.state = b := Option.some.inj hb
    exact ha.legal
  · rw [ha.version, List.length_append, List.length_singleton]
    have hversion := h.version
    push_cast
    omega
  · rw [ha.finalizedAt, Bool.or_eq_true, decide_eq_true_eq, h.finalizedAt, List.mem_append,
      List.mem_singleton, eq_comm]
  · -- no transition leaves `paid`
    rw [ha.paidAt, Bool.or_eq_true, decide_eq_true_eq, h.paidAt, or_iff_right_iff_imp]
    intro hpaid
    have hlegal := ha.legal
    rw [hpaid] at hlegal
    cases hlegal
  · rw [ha.voidedAt, Bool.or_eq_true, decide_eq_true_eq, h.voidedAt, or_iff_right_iff_imp]
    intro hvoid
    have hlegal := ha.legal
    rw [hvoid] at hlegal
    cases hlegal

/-- An invoice that is not there has no path; one that is there has a lifecycle. -/
def OnPath (p : List InvoiceState) : Option Invoice → Prop
  | none => p = []
  | some i => Lifecycle p i

theorem path_concat (id : Uuid) (ts : List State) (t : State) :
    path id (ts ++ [t]) =
      match rowOf t id with
      | none => path id ts
      | some i => if (path id ts).getLast? = some i.state then path id ts
        else path id ts ++ [i.state] := by
  simp only [path, List.filterMap_append]
  cases hrow : rowOf t id with
  | none => simp [hrow]
  | some i =>
    have hlast : [t].filterMap (fun t => (rowOf t id).map Invoice.state) = [i.state] := by
      simp [hrow]
    rw [hlast]
    exact destutter_concat _ _

/-- One more step of a run. -/
theorem onPath_concat {id : Uuid} {ts : List State} {t t' : State}
    (h : OnPath (path id ts) (rowOf t id))
    (hstep : rowOf t' id = rowOf t id ∨
      (∃ i i', rowOf t id = some i ∧ rowOf t' id = some i' ∧ Advance i i') ∨
      (rowOf t id = none ∧ ∃ i', rowOf t' id = some i' ∧ Newborn i')) :
    OnPath (path id (ts ++ [t'])) (rowOf t' id) := by
  rw [path_concat]
  rcases hstep with hsame | ⟨i, i', hi, hi', hadvance⟩ | ⟨hnone, i', hi', hnew⟩
  · rw [hsame]
    cases hrow : rowOf t id with
    | none =>
      rw [hrow] at h
      exact h
    | some i =>
      rw [hrow] at h
      have hlast : (path id ts).getLast? = some i.state := Lifecycle.ends h
      simp only [hlast, if_true]
      exact h
  · rw [hi] at h
    rw [hi']
    have hlast : (path id ts).getLast? = some i.state := Lifecycle.ends h
    have hne : i.state ≠ i'.state := by
      intro heq
      have hlegal := hadvance.legal
      rw [heq, canTransitionTo_self] at hlegal
      cases hlegal
    simp only [hlast, Option.some.injEq, hne, if_false]
    exact Lifecycle.advance h hadvance
  · rw [hnone] at h
    rw [hi']
    have hempty : path id ts = [] := h
    simp only [hempty, List.getLast?_nil, reduceCtorEq, if_false, List.nil_append]
    exact hnew.lifecycle

/-- The path an invoice has taken after the first steps of a run. -/
theorem onPath_of_steps (h : Initial s) {ls : List (Label δ)} {front after : List (Step δ)}
    (hxs : (system env).steps s ls = front ++ after) (id : Uuid) :
    OnPath (path id (s :: front.map TransitionSystem.Transition.post))
      (rowOf (TransitionSystem.endState s front) id) := by
  have hnone : rowOf s id = none := by
    rw [rowOf, h.invoices]
    rfl
  have hhistory := (TransitionSystem.isTrace_steps (M := system env) s ls).history
    (P := fun front t =>
      OnPath (path id (s :: front.map TransitionSystem.Transition.post)) (rowOf t id)) ?_ ?_
  · exact hhistory front after hxs
  · rw [hnone]
    simp [path, hnone, OnPath]
  · intro front x after hsplit hstep hpath
    have hx : x ∈ (system env).steps s ls := by
      rw [hsplit]
      simp
    have hs : Sound env x.pre :=
      sound_of_reachable (TransitionSystem.reachable_of_mem_steps (.of_initial h) hx)
    rw [List.map_append, List.map_singleton, ← List.cons_append]
    exact onPath_concat hpath ((step_effect hstep).row hs id)

/-! ## The turns of an admin worker -/

/-- What an own step makes of an admin worker. -/
inductive Turn (s s' : State) : Option Worker → Worker → Prop
  | started {call : AdminCall} (hdb : s'.db = s.db) : Turn s s' none (.admin call .begun)
  | read {call : AdminCall} {i : Invoice} (hdb : s'.db = s.db) (hi : i ∈ s.db.invoices)
      (hid : i.id = call.id) (hb : i.businessId = call.businessId) :
      Turn s s' (some (.admin call .begun)) (.admin call (.loaded i.state))
  | refused {call : AdminCall} {stage : AdminStage} {e : AppError} (hdb : s'.db = s.db)
      (hstage : ∀ inv, stage ≠ .done (.ok inv)) :
      Turn s s' (some (.admin call stage)) (.admin call (.done (.error e)))
  | moved {call : AdminCall} {c : InvoiceState} {inv : Invoice}
      (happly : InvoiceService.apply s.db s.now call.businessId call.id c call.action.target
        = .ok (s'.db, inv)) :
      Turn s s' (some (.admin call (.loaded c))) (.admin call (.done (.ok inv)))
  | other {before : Option Worker} {W' : Worker} (h : ∀ call stage, W' ≠ .admin call stage) :
      Turn s s' before W'

/-- Only an admin worker is one after a delivery. -/
theorem Worker.eq_of_deliver_eq_admin {W : Worker} {callId : ℕ} {r : PspResult}
    {call : AdminCall} {stage : AdminStage} (h : W.deliver callId r = .admin call stage) :
    W = .admin call stage := by
  unfold Worker.deliver at h
  split at h
  · split_ifs at h
  · split_ifs at h
  · exact h

/-- Only an admin worker is one after a database error. -/
theorem Worker.admin_of_onDbError {W : Worker} {call : AdminCall} {stage : AdminStage}
    (h : W.onDbError = some (.admin call stage)) : ∃ stage', W = .admin call stage' := by
  unfold Worker.onDbError at h
  split at h <;> cases h
  exact ⟨_, rfl⟩

theorem workers_setWorker_self (s : State) (w : WorkerId) (W : Worker) :
    (s.setWorker w W).workers w = some W := if_pos rfl

theorem load_eq_ok {db : Db} {businessId id : Uuid} {i : Invoice}
    (h : InvoiceService.load db businessId id = .ok i) :
    i ∈ db.invoices ∧ i.id = id ∧ i.businessId = businessId := by
  unfold InvoiceService.load at h
  split at h
  · cases h
  rename_i invoice hget
  obtain rfl := Except.ok.inj h
  have hi := List.find?_some hget
  simp only [decide_eq_true_eq] at hi
  exact ⟨List.mem_of_find?_eq_some hget, hi⟩

theorem turn_of_adminStep {w : WorkerId} {call : AdminCall} {stage : AdminStage}
    (h : adminStep s w call stage = some s') :
    ∃ W', s'.workers w = some W' ∧ Turn s s' (some (.admin call stage)) W' := by
  have hself := workers_setWorker_self s w
  cases stage with
  | begun =>
    simp only [adminStep] at h
    split at h
    · obtain rfl := Option.some.inj h
      exact ⟨_, hself _, .refused rfl fun _ => AdminStage.noConfusion⟩
    rename_i invoice hload
    split at h
    · obtain rfl := Option.some.inj h
      exact ⟨_, hself _, .refused rfl fun _ => AdminStage.noConfusion⟩
    obtain rfl := Option.some.inj h
    obtain ⟨hi, hid, hb⟩ := load_eq_ok hload
    exact ⟨_, hself _, .read rfl hi hid hb⟩
  | loaded c =>
    simp only [adminStep] at h
    split at h
    · obtain rfl := Option.some.inj h
      exact ⟨_, hself _, .refused rfl fun _ => AdminStage.noConfusion⟩
    rename_i db inv happly
    obtain rfl := Option.some.inj h
    exact ⟨_, workers_setWorker_self (s.setDb db) w _, .moved happly⟩
  | done answer => cases h

/-- A pay handler stays one. -/
theorem exists_stage_of_payStep {w : WorkerId} {call : PayCall} {fresh : Fresh} {stage : PayStage}
    (h : payStep env s w call fresh stage = some s') :
    ∃ stage', s'.workers w = some (.pay call stage') := by
  cases stage with
  | begun =>
    simp only [payStep] at h
    split at h
    · obtain rfl := Option.some.inj h
      exact ⟨_, workers_setWorker_self s w _⟩
    · obtain rfl := Option.some.inj h
      exact ⟨_, workers_setWorker_self s w _⟩
  | read state amount =>
    simp only [payStep] at h
    split at h
    · obtain rfl := Option.some.inj h
      exact ⟨_, workers_setWorker_self s w _⟩
    · obtain rfl := Option.some.inj h
      exact ⟨_, workers_setWorker_self s w _⟩
    · obtain rfl := Option.some.inj h
      exact ⟨_, workers_setWorker_self (s.setDb _) w _⟩
  | replaying amount =>
    obtain rfl := Option.some.inj h
    exact ⟨_, workers_setWorker_self s w _⟩
  | charging job claimedAt c =>
    cases c with
    | ready =>
      obtain rfl := Option.some.inj h
      exact ⟨_, workers_setWorker_self (s.send w job) w _⟩
    | waiting callId => cases h
    | got result =>
      simp only [payStep] at h
      split at h
      · obtain rfl := Option.some.inj h
        exact ⟨_, workers_setWorker_self s w _⟩
      · obtain rfl := Option.some.inj h
        exact ⟨_, workers_setWorker_self (s.setDb _) w _⟩
  | done answer => cases h

/-- A tick stays one. -/
theorem exists_jobs_of_tickStep {w : WorkerId} {leasedAt : Timestamp} {fresh : Fresh}
    {jobs : List Job} {c : ChargeCall} (h : tickStep s w leasedAt fresh jobs c = some s') :
    ∃ jobs' c', s'.workers w = some (.tick leasedAt jobs' c') := by
  cases jobs with
  | nil => cases h
  | cons job rest =>
    cases c with
    | ready =>
      obtain rfl := Option.some.inj h
      exact ⟨_, _, workers_setWorker_self (s.send w job) w _⟩
    | waiting callId => cases h
    | got result =>
      simp only [tickStep] at h
      split at h
      · obtain rfl := Option.some.inj h
        exact ⟨_, _, workers_setWorker_self s w _⟩
      · obtain rfl := Option.some.inj h
        exact ⟨_, _, workers_setWorker_self (s.setDb _) w _⟩

/-- What an own step makes of a worker, as far as admin calls go. -/
theorem turn_of_step {w : WorkerId} (h : step env s l = some s') (hl : l.worker = some w) :
    ∃ W', s'.workers w = some W' ∧ Turn s s' (s.workers w) W' := by
  cases l with
  | startPay v call =>
    obtain rfl := Option.some.inj hl
    simp only [step, startStep] at h
    split at h
    · cases h
    obtain rfl := Option.some.inj h
    exact ⟨_, workers_setWorker_self s v _, .other fun _ _ => Worker.noConfusion⟩
  | startAdmin v call =>
    obtain rfl := Option.some.inj hl
    simp only [step, startStep] at h
    split at h
    · cases h
    rename_i hnone
    obtain rfl := Option.some.inj h
    rw [hnone]
    exact ⟨_, workers_setWorker_self s v _, .started rfl⟩
  | tick v locked ids =>
    obtain rfl := Option.some.inj hl
    simp only [step, startStep] at h
    split_ifs at h
    split at h
    · cases h
    obtain rfl := Option.some.inj h
    exact ⟨_, workers_setWorker_self (s.setDb _) v _, .other fun _ _ => Worker.noConfusion⟩
  | work v fresh =>
    obtain rfl := Option.some.inj hl
    obtain ⟨W, hW, hstep⟩ := Option.bind_eq_some_iff.mp h
    rw [hW]
    cases W with
    | pay call stage =>
      obtain ⟨stage', hstage'⟩ := exists_stage_of_payStep hstep
      exact ⟨_, hstage', .other fun _ _ => Worker.noConfusion⟩
    | admin call stage => exact turn_of_adminStep hstep
    | tick leasedAt jobs c =>
      obtain ⟨jobs', c', hstage'⟩ := exists_jobs_of_tickStep hstep
      exact ⟨_, hstage', .other fun _ _ => Worker.noConfusion⟩
    | crashed => cases hstep
  | giveUp v reason =>
    obtain rfl := Option.some.inj hl
    simp only [step] at h
    split at h
    · cases h
    rename_i W hW
    obtain ⟨callId, hwait, rfl⟩ := Option.map_eq_some_iff.mp h
    refine ⟨_, workers_setWorker_self s v _, .other fun call stage hadmin => ?_⟩
    -- an admin call never waits for the PSP
    rw [Worker.eq_of_deliver_eq_admin hadmin] at hwait
    cases hwait
  | dbError v =>
    obtain rfl := Option.some.inj hl
    simp only [step] at h
    obtain ⟨W', hW', rfl⟩ := Option.map_eq_some_iff.mp h
    obtain ⟨W, hW, herror⟩ := Option.bind_eq_some_iff.mp hW'
    refine ⟨W', workers_setWorker_self s v _, ?_⟩
    rw [hW]
    cases W with
    | admin call stage =>
      cases stage with
      | done answer => cases herror
      | _ =>
        obtain rfl := Option.some.inj herror
        exact .refused rfl fun _ => AdminStage.noConfusion
    | _ =>
      refine .other fun call stage hadmin => ?_
      rw [hadmin] at herror
      obtain ⟨stage', hadmin⟩ := Worker.admin_of_onDbError herror
      cases hadmin
  | crash v =>
    obtain rfl := Option.some.inj hl
    simp only [step] at h
    split at h
    · cases h
    split_ifs at h
    obtain rfl := Option.some.inj h
    exact ⟨_, workers_setWorker_self s v _, .other fun _ _ => Worker.noConfusion⟩
  | advance _ => cases hl
  | create _ _ _ => cases hl
  | serve _ _ => cases hl

/-! ## What an admin call has done so far -/

/-- The call reads its invoice in the state `c`. -/
def Reads (xs : List (Step δ)) (w : WorkerId) (call : AdminCall) (c : InvoiceState) : Prop :=
  ∃ y ∈ xs, y.pre.workers w = some (.admin call .begun) ∧
    y.post.workers w = some (.admin call (.loaded c)) ∧
    ∃ i ∈ y.pre.db.invoices, i.id = call.id ∧ i.businessId = call.businessId ∧ i.state = c

/-- The worker's own steps leave the database alone. -/
def Silent (xs : List (Step δ)) (w : WorkerId) : Prop :=
  ∀ y ∈ xs, y.label.worker = some w → y.post.db = y.pre.db

/-- The step takes the invoice from the state `c` to the requested one, and touches no other
invoice. -/
structure Performs (x : Step δ) (w : WorkerId) (call : AdminCall) (c : InvoiceState)
    (inv : Invoice) : Prop where
  own : x.label.worker = some w
  pre : x.pre.workers w = some (.admin call (.loaded c))
  row : ∃ i, rowOf x.pre call.id = some i ∧ i.state = c ∧ i.businessId = call.businessId ∧
    Advance i inv
  post : rowOf x.post call.id = some inv
  target : inv.state = call.action.target
  others : ∀ id, id ≠ call.id → rowOf x.post id = rowOf x.pre id

/-- The call has read `c`, then made the transition, and written nothing else. -/
def PerformedOnce (xs : List (Step δ)) (w : WorkerId) (call : AdminCall) (c : InvoiceState)
    (inv : Invoice) : Prop :=
  ∃ front x after, xs = front ++ x :: after ∧ Reads front w call c ∧
    Performs x w call c inv ∧ Silent (front ++ after) w

/-- What the steps so far have been, by the stage of the call. -/
def AdminHistory (xs : List (Step δ)) (w : WorkerId) (call : AdminCall) : AdminStage → Prop
  | .begun => Silent xs w ∧ ∀ call c, ¬ Reads xs w call c
  | .loaded c => Silent xs w ∧ ∀ c', Reads xs w call c' ↔ c' = c
  | .done (.error _) => Silent xs w
  | .done (.ok inv) =>
    ∃ c, PerformedOnce xs w call c inv ∧ ∀ c', Reads xs w call c' ↔ c' = c

/-- What the steps so far have been, by the worker. -/
def History (xs : List (Step δ)) (w : WorkerId) : Option Worker → Prop
  | none => Silent xs w ∧ ∀ call c, ¬ Reads xs w call c
  | some (.admin call stage) => AdminHistory xs w call stage
  | some _ => True

section Concat

variable {xs : List (Step δ)} {x : Step δ} {w : WorkerId}

theorem silent_concat (hx : x.label.worker = some w → x.post.db = x.pre.db)
    (h : Silent xs w) : Silent (xs ++ [x]) w := by
  intro y hy
  rcases List.mem_append.mp hy with hy | hy
  · exact h y hy
  · rw [List.mem_singleton.mp hy]
    exact hx

theorem reads_concat {call : AdminCall} {c : InvoiceState} :
    Reads (xs ++ [x]) w call c ↔ Reads xs w call c ∨ Reads [x] w call c := by
  simp only [Reads, List.mem_append, or_and_right, exists_or]

theorem performedOnce_concat {call : AdminCall} {c : InvoiceState} {inv : Invoice}
    (hx : x.label.worker = some w → x.post.db = x.pre.db) (h : PerformedOnce xs w call c inv) :
    PerformedOnce (xs ++ [x]) w call c inv := by
  obtain ⟨front, y, after, rfl, hread, hperforms, hsilent⟩ := h
  refine ⟨front, y, after ++ [x], by simp, hread, hperforms, ?_⟩
  rw [← List.append_assoc]
  exact silent_concat hx hsilent

/-- A step that neither reads nor writes for the worker. -/
theorem history_concat {W : Option Worker} (h : History xs w W)
    (hx : x.label.worker = some w → x.post.db = x.pre.db)
    (hread : ∀ call c, ¬ Reads [x] w call c) : History (xs ++ [x]) w W := by
  have hreads : ∀ call c, Reads (xs ++ [x]) w call c ↔ Reads xs w call c := fun call c =>
    reads_concat.trans (or_iff_left (hread call c))
  match W, h with
  | none, ⟨hsilent, hnone⟩ => exact ⟨silent_concat hx hsilent, by simpa only [hreads] using hnone⟩
  | some (.admin call .begun), ⟨hsilent, hnone⟩ =>
    exact ⟨silent_concat hx hsilent, by simpa only [hreads] using hnone⟩
  | some (.admin call (.loaded c)), ⟨hsilent, honly⟩ =>
    exact ⟨silent_concat hx hsilent, by simpa only [hreads] using honly⟩
  | some (.admin call (.done (.error e))), hsilent => exact silent_concat hx hsilent
  | some (.admin call (.done (.ok inv))), ⟨c, hperformed, honly⟩ =>
    exact ⟨c, performedOnce_concat hx hperformed, by simpa only [hreads] using honly⟩
  | some (.pay _ _), _ => trivial
  | some (.tick _ _ _), _ => trivial
  | some .crashed, _ => trivial

end Concat

/-- Only its own steps read for a worker. -/
theorem own_of_reads {x : Step δ} (hx : Effect env x.pre x.label x.post) {w : WorkerId}
    {call : AdminCall} {c : InvoiceState} (h : Reads [x] w call c) :
    x.label.worker = some w := by
  obtain ⟨y, hy, hpre, hpost, -⟩ := h
  rw [List.mem_singleton.mp hy] at hpre hpost
  by_contra hl
  rw [hx.worker_kept hl hpre rfl] at hpost
  cases hpost

/-- What the `UPDATE` of a transition does to the invoice and to all others. -/
theorem performs_of_apply {x : Step δ} (hs : Sound env x.pre) {w : WorkerId} {call : AdminCall}
    {c : InvoiceState} {inv : Invoice} (hl : x.label.worker = some w)
    (hw : x.pre.workers w = some (.admin call (.loaded c)))
    (happly : InvoiceService.apply x.pre.db x.pre.now call.businessId call.id c
      call.action.target = .ok (x.post.db, inv)) : Performs x w call c inv := by
  obtain ⟨hdb, i, hi, hin, rfl⟩ := InvoiceService.apply_eq_ok happly
  have hpost : ∀ id, rowOf x.post id = (rowOf x.pre id).map fun i =>
      if InvoiceRepo.isIn call.businessId call.id c i
      then InvoiceRepo.move x.pre.now call.action.target i else i := by
    intro id
    have hkeep : ∀ i, decide ((InvoiceRepo.move x.pre.now call.action.target i).id = id) =
        decide (i.id = id) := fun _ => rfl
    rw [rowOf, hdb, Table.find?_update hkeep, rowOf]
  have hcan := hs.loaded w _ call c hw rfl
  have hpaid : call.action.target ≠ .paid := by
    cases call.action <;> exact InvoiceState.noConfusion
  have hselected := hin
  simp only [InvoiceRepo.isIn, Bool.and_eq_true, decide_eq_true_eq] at hselected
  obtain ⟨⟨hid, hb⟩, rfl⟩ := hselected
  have hrow : rowOf x.pre call.id = some i := by
    rw [← hid]
    exact hs.rowOf_of_mem hi
  refine ⟨hl, hw, ⟨i, hrow, rfl, hb, advance_move x.pre.now hcan hpaid⟩, ?_, rfl, ?_⟩
  · rw [hpost, hrow, Option.map_some, if_pos hin]
  · intro id hne
    rw [hpost]
    cases hfind : rowOf x.pre id with
    | none => rfl
    | some j =>
      have hout : InvoiceRepo.isIn call.businessId call.id i.state j = false := by
        simp only [InvoiceRepo.isIn, (rowOf_eq_some hfind).2, hne, decide_false, Bool.false_and]
      rw [Option.map_some, hout, if_neg Bool.false_ne_true]

/-- A delivery is nothing to an admin call. -/
theorem history_deliver {xs : List (Step δ)} {w : WorkerId} {W : Option Worker}
    (h : History xs w W) (callId : ℕ) (r : PspResult) :
    History xs w (W.map (Worker.deliver callId r)) := by
  match W, h with
  | none, h => exact h
  | some (.admin call stage), h => exact h
  | some .crashed, _ => trivial
  | some (.pay call stage), _ =>
    rw [Option.map_some]
    generalize hW' : (Worker.pay call stage).deliver callId r = W'
    cases W' with
    | admin call' stage' =>
      have hadmin := Worker.eq_of_deliver_eq_admin hW'
      cases hadmin
    | _ => trivial
  | some (.tick leasedAt jobs c), _ =>
    rw [Option.map_some]
    generalize hW' : (Worker.tick leasedAt jobs c).deliver callId r = W'
    cases W' with
    | admin call' stage' =>
      have hadmin := Worker.eq_of_deliver_eq_admin hW'
      cases hadmin
    | _ => trivial

/-- What an own step adds to the history of an admin call. -/
theorem history_turn {xs : List (Step δ)} {x : Step δ} (hs : Sound env x.pre) {w : WorkerId}
    (hl : x.label.worker = some w) {W' : Worker} (hW' : x.post.workers w = some W')
    (hturn : Turn x.pre x.post (x.pre.workers w) W') (h : History xs w (x.pre.workers w)) :
    History (xs ++ [x]) w (some W') := by
  have hone : ∀ call c, Reads [x] w call c ↔ x.pre.workers w = some (.admin call .begun) ∧
      x.post.workers w = some (.admin call (.loaded c)) ∧
      ∃ i ∈ x.pre.db.invoices, i.id = call.id ∧ i.businessId = call.businessId ∧ i.state = c :=
    fun call c => by simp only [Reads, List.mem_singleton, exists_eq_left]
  generalize hW : x.pre.workers w = W at h hturn hone
  cases hturn with
  | started hdb =>
    refine ⟨silent_concat (fun _ => hdb) h.1, fun call c hread => ?_⟩
    rcases reads_concat.mp hread with hread | hread
    · exact h.2 call c hread
    · cases ((hone call c).mp hread).1
  | @read call i hdb hi hid hb =>
    refine ⟨silent_concat (fun _ => hdb) h.1, fun c' => ?_⟩
    rw [reads_concat, hone, hW']
    constructor
    · rintro (hread | ⟨-, hpost, -⟩)
      · exact absurd hread (h.2 call c')
      · cases hpost
        rfl
    · rintro rfl
      exact .inr ⟨rfl, rfl, i, hi, hid, hb, rfl⟩
  | @refused call stage e hdb hstage =>
    have hsilent : Silent xs w := by
      cases stage with
      | begun => exact h.1
      | loaded c => exact h.1
      | done answer =>
        cases answer with
        | error e => exact h
        | ok inv => exact absurd rfl (hstage inv)
    exact silent_concat (fun _ => hdb) hsilent
  | @moved call c inv happly =>
    have hread : ∀ c', Reads (xs ++ [x]) w call c' ↔ c' = c := by
      intro c'
      rw [reads_concat, h.2 c']
      refine or_iff_left fun hread => ?_
      cases ((hone call c').mp hread).1
    refine ⟨c, ⟨xs, x, [], rfl, (h.2 c).mpr rfl, performs_of_apply hs hl hW happly, ?_⟩, hread⟩
    rw [List.append_nil]
    exact h.1
  | other hother =>
    cases W' with
    | admin call stage => exact absurd rfl (hother call stage)
    | _ => trivial

/-- One more step of a run. -/
theorem history_step {xs : List (Step δ)} {x : Step δ} (hs : Sound env x.pre)
    (hstep : step env x.pre x.label = some x.post) {w : WorkerId}
    (h : History xs w (x.pre.workers w)) : History (xs ++ [x]) w (x.post.workers w) := by
  by_cases hl : x.label.worker = some w
  · obtain ⟨W', hW', hturn⟩ := turn_of_step hstep hl
    rw [hW']
    exact history_turn hs hl hW' hturn h
  · have hx := step_effect hstep
    have hconcat : History (xs ++ [x]) w (x.pre.workers w) :=
      history_concat h (fun hown => absurd hown hl) fun call c hread => hl (own_of_reads hx hread)
    rcases hx.workers_of_ne hl with hsame | ⟨callId, r, hdeliver⟩
    · rw [hsame]
      exact hconcat
    · rw [hdeliver]
      exact history_deliver hconcat callId r

/-- What a worker has done in the first steps of a run. -/
theorem history_of_steps (h : Initial s) {ls : List (Label δ)} {front after : List (Step δ)}
    (hxs : (system env).steps s ls = front ++ after) (w : WorkerId) :
    History front w ((TransitionSystem.endState s front).workers w) := by
  have hhistory := (TransitionSystem.isTrace_steps (M := system env) s ls).history
    (P := fun front t => History front w (t.workers w)) ?_ ?_
  · exact hhistory front after hxs
  · rw [h.workers]
    exact ⟨by simp [Silent], by simp [Reads]⟩
  · intro front x after hsplit hstep hfront
    have hx : x ∈ (system env).steps s ls := by
      rw [hsplit]
      simp
    have hs : Sound env x.pre :=
      sound_of_reachable (TransitionSystem.reachable_of_mem_steps (.of_initial h) hx)
    exact history_step hs hstep hfront

/-! ## Calls that have read the same state -/

/-- How far an invoice has come. -/
def rank : InvoiceState → ℕ
  | .draft => 0
  | .open => 1
  | _ => 2

theorem rank_lt_of_canTransitionTo {a b : InvoiceState} (h : a.canTransitionTo b = true) :
    rank a < rank b := by
  cases a <;> cases b <;> first | decide | exact Bool.noConfusion h

/-- No step takes an invoice back. -/
theorem rank_mono (hs : Sound env s) (he : Effect env s l s') {id : Uuid} {i : Invoice}
    (hi : rowOf s id = some i) : ∃ i', rowOf s' id = some i' ∧ rank i.state ≤ rank i'.state := by
  rcases he.row hs id with hsame | ⟨i₀, i', hi₀, hi', hadvance⟩ | ⟨hnone, -⟩
  · exact ⟨i, hsame.trans hi, Nat.le_refl _⟩
  · obtain rfl : i₀ = i := Option.some.inj (hi₀.symm.trans hi)
    exact ⟨i', hi', Nat.le_of_lt (rank_lt_of_canTransitionTo hadvance.legal)⟩
  · rw [hnone] at hi
    cases hi

/-- A call that has answered `Ok` had answered before, or has just made its transition. -/
theorem done_step {x : Step δ} (hs : Sound env x.pre)
    (hstep : step env x.pre x.label = some x.post) {w : WorkerId} {call : AdminCall}
    {inv : Invoice} (hw : x.post.workers w = some (.admin call (.done (.ok inv)))) :
    x.pre.workers w = some (.admin call (.done (.ok inv))) ∨ ∃ c, Performs x w call c inv := by
  by_cases hl : x.label.worker = some w
  · obtain ⟨W', hW', hturn⟩ := turn_of_step hstep hl
    obtain rfl : W' = _ := Option.some.inj (hW'.symm.trans hw)
    generalize hW : x.pre.workers w = W at hturn
    cases hturn with
    | moved happly => exact .inr ⟨_, performs_of_apply hs hl hW happly⟩
    | other hother => exact absurd rfl (hother _ _)
  · left
    rcases (step_effect hstep).workers_of_ne hl with hsame | ⟨callId, r, hdeliver⟩
    · exact hsame.symm.trans hw
    · rw [hdeliver] at hw
      obtain ⟨W, hW, hadmin⟩ := Option.map_eq_some_iff.mp hw
      rw [hW, Worker.eq_of_deliver_eq_admin hadmin]

/-- A call that has answered has read before its last step. -/
theorem reads_before {xs : List (Step δ)} {x : Step δ} {w : WorkerId} {call : AdminCall}
    {answer : Except AppError Invoice} {c : InvoiceState}
    (hw : x.post.workers w = some (.admin call (.done answer)))
    (h : Reads (xs ++ [x]) w call c) : Reads xs w call c := by
  refine (reads_concat.mp h).resolve_right ?_
  rintro ⟨y, hy, -, hpost, -⟩
  rw [List.mem_singleton.mp hy, hw] at hpost
  cases hpost

section Races

variable {ls : List (Label δ)} {front after : List (Step δ)}

/-- The state a call that makes its transition has read is the state it moves from. -/
theorem read_of_performs (h : Initial s) {x : Step δ}
    (hxs : (system env).steps s ls = front ++ x :: after) {w : WorkerId} {call : AdminCall}
    {c c' : InvoiceState} {inv : Invoice} (hperforms : Performs x w call c inv)
    (hread : Reads front w call c') : c' = c := by
  have hhistory := history_of_steps h hxs w
  rw [← (TransitionSystem.isTrace_before hxs).2, hperforms.pre] at hhistory
  exact (hhistory.2 c').mp hread

theorem sound_of_split (h : Initial s) {x : Step δ}
    (hxs : (system env).steps s ls = front ++ x :: after) : Sound env x.pre := by
  have hx : x ∈ (system env).steps s ls := by
    rw [hxs]
    simp
  exact sound_of_reachable (TransitionSystem.reachable_of_mem_steps (.of_initial h) hx)

/-- The invoice of a call that has answered `Ok` has left the state the call had read. -/
theorem left_of_done (h : Initial s) (hxs : (system env).steps s ls = front ++ after)
    {w : WorkerId} {call : AdminCall} {inv : Invoice} {c : InvoiceState}
    (hw : (TransitionSystem.endState s front).workers w = some (.admin call (.done (.ok inv))))
    (hread : Reads front w call c) :
    ∃ i, rowOf (TransitionSystem.endState s front) call.id = some i ∧
      rank c < rank i.state := by
  have hhistory := (TransitionSystem.isTrace_steps (M := system env) s ls).history
    (P := fun front t => t.workers w = some (.admin call (.done (.ok inv))) →
      Reads front w call c → ∃ i, rowOf t call.id = some i ∧ rank c < rank i.state) ?_ ?_
  · exact hhistory front after hxs hw hread
  · intro hw
    exact (h.no_worker hw).elim
  · intro front x after hsplit hstep hfront hw hread
    have hs := sound_of_split h hsplit
    have hbefore := reads_before hw hread
    rcases done_step hs hstep hw with hold | ⟨c₁, hperforms⟩
    · obtain ⟨i, hi, hlt⟩ := hfront hold hbefore
      obtain ⟨i', hi', hle⟩ := rank_mono hs (step_effect hstep) hi
      exact ⟨i', hi', Nat.lt_of_lt_of_le hlt hle⟩
    · obtain rfl := read_of_performs h hsplit hperforms hbefore
      obtain ⟨i, -, rfl, -, hadvance⟩ := hperforms.row
      exact ⟨inv, hperforms.post, rank_lt_of_canTransitionTo hadvance.legal⟩

/-- A call does not make its transition after another one that had read the same state. -/
theorem not_performs_of_done (h : Initial s) {x : Step δ}
    (hxs : (system env).steps s ls = front ++ x :: after) {w w' : WorkerId}
    {call call' : AdminCall} {inv inv' : Invoice} {c c' : InvoiceState}
    (hperforms : Performs x w call c' inv) (hread : Reads front w call c)
    (hdone : x.pre.workers w' = some (.admin call' (.done (.ok inv'))))
    (hread' : Reads front w' call' c) (hid : call.id = call'.id) : False := by
  obtain rfl := read_of_performs h hxs hperforms hread
  rw [(TransitionSystem.isTrace_before hxs).2] at hdone
  obtain ⟨i', hi', hlt⟩ := left_of_done h hxs hdone hread'
  obtain ⟨i, hi, rfl, -, -⟩ := hperforms.row
  rw [← (TransitionSystem.isTrace_before hxs).2, ← hid, hi] at hi'
  obtain rfl := Option.some.inj hi'
  exact Nat.lt_irrefl _ hlt

/-- Of the calls that have read the same state of an invoice, at most one has answered `Ok`. -/
theorem eq_of_done (h : Initial s) (hxs : (system env).steps s ls = front ++ after)
    {w w' : WorkerId} {call call' : AdminCall} {inv inv' : Invoice} {c : InvoiceState}
    (hid : call.id = call'.id)
    (hw : (TransitionSystem.endState s front).workers w = some (.admin call (.done (.ok inv))))
    (hw' : (TransitionSystem.endState s front).workers w' =
      some (.admin call' (.done (.ok inv'))))
    (hread : Reads front w call c) (hread' : Reads front w' call' c) : w = w' := by
  have hhistory := (TransitionSystem.isTrace_steps (M := system env) s ls).history
    (P := fun front t => t.workers w = some (.admin call (.done (.ok inv))) →
      t.workers w' = some (.admin call' (.done (.ok inv'))) →
      Reads front w call c → Reads front w' call' c → w = w') ?_ ?_
  · exact hhistory front after hxs hw hw' hread hread'
  · intro hw
    exact (h.no_worker hw).elim
  · intro front x after hsplit hstep hfront hw hw' hread hread'
    have hs := sound_of_split h hsplit
    have hbefore := reads_before hw hread
    have hbefore' := reads_before hw' hread'
    -- the second of the two to move finds the invoice moved
    rcases done_step hs hstep hw with hold | ⟨c₁, hperforms⟩
    · rcases done_step hs hstep hw' with hold' | ⟨c₂, hperforms'⟩
      · exact hfront hold hold' hbefore hbefore'
      · exact (not_performs_of_done h hsplit hperforms' hbefore' hold hbefore hid.symm).elim
    · rcases done_step hs hstep hw' with hold' | ⟨c₂, hperforms'⟩
      · exact (not_performs_of_done h hsplit hperforms hbefore hold' hbefore' hid).elim
      · exact Option.some.inj (hperforms.own.symm.trans hperforms'.own)

end Races

/-! ## Every run -/

/-- A terminal invoice is left alone. -/
theorem mem_of_isTerminal (hs : Sound env s) (he : Effect env s l s') {i : Invoice}
    (hi : i ∈ s.db.invoices) (hterminal : i.state.isTerminal = true) : i ∈ s'.db.invoices := by
  have hrow := hs.rowOf_of_mem hi
  rcases he.row hs i.id with hsame | ⟨i₀, i', hi₀, -, hadvance⟩ | ⟨hnone, -⟩
  · exact (rowOf_eq_some (hsame.trans hrow)).1
  · obtain rfl : i₀ = i := Option.some.inj (hi₀.symm.trans hrow)
    have hlegal := hadvance.legal
    rw [InvoiceState.canTransitionTo_eq_false_of_isTerminal hterminal] at hlegal
    cases hlegal
  · rw [hnone] at hrow
    cases hrow

/-- The lifecycle of the invoices over every run: each invoice has gone along a legal path from
`draft` that its version and its timestamps record, a terminal invoice is never touched again,
and an admin call that has answered `Ok` has made exactly one transition, from the state it had
read; so of the calls that have read one state of an invoice at most one has answered `Ok`. -/
theorem invoice_lifecycle (env : Env δ) {s t : State} (h : Initial s) {ls : List (Label δ)}
    (hr : (system env).run s ls = some t) :
    (∀ i ∈ t.db.invoices, Lifecycle (path i.id ((system env).states s ls)) i) ∧
    (∀ x ∈ (system env).steps s ls, ∀ i ∈ x.pre.db.invoices, i.state.isTerminal = true →
      i ∈ x.post.db.invoices) ∧
    (∀ w call inv, t.workers w = some (.admin call (.done (.ok inv))) →
      ∃ c, PerformedOnce ((system env).steps s ls) w call c inv ∧
        ∀ c', Reads ((system env).steps s ls) w call c' ↔ c' = c) ∧
    ∀ w w' call call' inv inv' c, call.id = call'.id →
      t.workers w = some (.admin call (.done (.ok inv))) →
      t.workers w' = some (.admin call' (.done (.ok inv'))) →
      Reads ((system env).steps s ls) w call c → Reads ((system env).steps s ls) w' call' c →
      w = w' := by
  have hend : TransitionSystem.endState s ((system env).steps s ls) = t :=
    TransitionSystem.endState_steps hr
  have hsplit : (system env).steps s ls = (system env).steps s ls ++ [] := by simp
  refine ⟨fun i hi => ?_, fun x hx i hi hterminal => ?_, fun w call inv hw => ?_, ?_⟩
  · have hs : Sound env t := sound_of_reachable ⟨s, ls, h, hr⟩
    have hpath := onPath_of_steps h hsplit i.id
    rw [hend, hs.rowOf_of_mem hi] at hpath
    exact hpath
  · have hs := sound_of_reachable (TransitionSystem.reachable_of_mem_steps (.of_initial h) hx)
    exact mem_of_isTerminal hs (step_effect (TransitionSystem.step_of_mem_steps hx).1) hi hterminal
  · have hhistory := history_of_steps h hsplit w
    rw [hend, hw] at hhistory
    exact hhistory
  · intro w w' call call' inv inv' c hid hw hw' hread hread'
    rw [← hend] at hw hw'
    exact eq_of_done h hsplit hid hw hw' hread hread'

/-- Workers `0` and `1` have both read the draft `10` before either of them finalizes it. -/
def finalizeRace : List (Label DefiniteChoice) :=
  openInvoice.dropLast ++
    [.startAdmin 1 { businessId := shopId 2, id := shopId 10, action := .finalize },
     .work 1 (shopFresh 0), .work 1 (shopFresh 0), .work 0 (shopFresh 0)]

theorem invoice_lifecycle_finalizeRace :
    ((definiteSystem shopSha256).run shop finalizeRace).isSome = true ∧
    ∀ t, (definiteSystem shopSha256).run shop finalizeRace = some t → ∀ i ∈ t.db.invoices,
      Lifecycle (path i.id ((definiteSystem shopSha256).states shop finalizeRace)) i :=
  ⟨by decide +kernel, fun _ ht => (invoice_lifecycle _ shop_initial ht).1⟩

end InvoicePayment.Payments
