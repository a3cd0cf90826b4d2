import InvoicePayment.Payments.Books
import InvoicePayment.Payments.Definite

/-!
# The payment system keeps the books

Every run of pay handlers, admin handlers, reconciler ticks and crashes over a database is, seen
through `books`, a run of the abstract machine: transaction 1 is a `charge`, the first finalization
with a definite answer is a `settle`, a won conditional `UPDATE` is a `move`, and every other step
(reads, messages, leases, retries, replays, repeated finalizations, crashes) shows nothing. So the
attempts of an invoice come one after another (`attempts_serial`).
-/

namespace InvoicePayment.Payments

open Books (Account Entry Ticket Event)
open PaymentService (settle)

variable {δ : Type} {env : Env δ} {s s' : State} {l : Label δ}

/-! ## What the tables stand for -/

/-- The outcome an attempt carries. -/
def outcomeOf (a : PaymentAttempt) : Option ChargeOutcome :=
  match a.status with
  | .succeeded => some (.succeeded (a.pspRef.getD ""))
  | .failed => some (.failed (a.failureCode.getD ""))
  | _ => none

def entryOf (a : PaymentAttempt) : Entry :=
  { invoiceId := a.invoiceId
    cardToken := a.cardToken
    amountCents := a.amountCents
    outcome := outcomeOf a }

def accountOf (i : Invoice) : Account :=
  { businessId := i.businessId, totalCents := i.totalCents.cents, state := i.state }

def ticketOf (a : PaymentAttempt) : Ticket := (a.businessId, a.idempotencyKey)

/-- The books a database stands for. -/
def books (db : Db) : Books.State where
  accounts id := (db.invoices.find? fun i => i.id = id).map accountOf
  entries t := (db.paymentAttempts.find? fun a => ticketOf a = t).map entryOf

/-! ## What a step shows -/

/-- An entry under the ticket that was not there. -/
def newEntry (b b' : Books.State) (t : Ticket) : Option Event :=
  if (b.entries t).isNone then (b'.entries t).map (.charge t) else none

/-- An invoice in another state. -/
def newState (b b' : Books.State) (id : Uuid) : Option Event :=
  match b.accounts id, b'.accounts id with
  | some a, some a' => if a.state = a'.state then none else some (.move id a'.state)
  | _, _ => none

/-- An outcome that was not there. -/
def newOutcome (b b' : Books.State) (t : Ticket) : Option Event :=
  match b.entries t, b'.entries t with
  | some e, some e' => if e.outcome.isNone then e'.outcome.map (.settle t e'.invoiceId) else none
  | _, _ => none

/-- What a worker shows by its own step. -/
def workEvent (b b' : Books.State) : Worker → Option Event
  | .pay call (.read _ _) => newEntry b b' (call.businessId, call.idempotencyKey)
  | .admin call (.loaded _) => newState b b' call.id
  | W => W.result.bind fun p => newOutcome b b' (p.1.businessId, p.1.idempotencyKey)

/-- What a step shows. -/
def event (x : Step δ) : Option Event :=
  match x.label with
  | .create _ _ fresh =>
    ((books x.post.db).accounts (fresh.newId 0)).map (.issue (fresh.newId 0))
  | .work w _ => (x.pre.workers w).bind (workEvent (books x.pre.db) (books x.post.db))
  | _ => none

theorem workEvent_self (b : Books.State) (W : Worker) : workEvent b b W = none := by
  have hentry : ∀ t, newEntry b b t = none := by
    intro t
    unfold newEntry
    cases b.entries t <;> rfl
  have hstate : ∀ id, newState b b id = none := by
    intro id
    unfold newState
    cases b.accounts id with
    | none => rfl
    | some a => exact if_pos rfl
  have houtcome : ∀ t, newOutcome b b t = none := by
    intro t
    unfold newOutcome
    cases b.entries t with
    | none => rfl
    | some e => cases he : e.outcome <;> simp [he]
  unfold workEvent
  split
  · exact hentry _
  · exact hstate _
  · rw [Option.bind_eq_none_iff]
    exact fun p _ => houtcome _

theorem workEvent_of_result (b b' : Books.State) {W : Worker} {job : Job} {r : PspResult}
    (h : W.result = some (job, r)) :
    workEvent b b' W = newOutcome b b' (job.businessId, job.idempotencyKey) := by
  unfold workEvent
  split
  · cases h
  · cases h
  · rw [h]
    rfl

/-! ## The tables after a change -/

/-- The entry of an attempt is found under its ticket. -/
theorem find_entry (hs : Sound env s) {a : PaymentAttempt} (ha : a ∈ s.db.paymentAttempts) :
    s.db.paymentAttempts.find? (fun b => ticketOf b = ticketOf a) = some a := by
  refine Table.find?_eq_some_of_unique ha (decide_eq_true rfl) fun b hb hticket => ?_
  obtain ⟨hbusiness, hkey⟩ := Prod.mk.inj (of_decide_eq_true hticket)
  have hjob := hs.ledger.job_eq_of_key (mem_jobs hb) (mem_jobs ha) hbusiness hkey
  exact hs.attempt_eq hb ha (congrArg Job.attemptId hjob)

/-- An update of pending attempts with one id rewrites one entry. -/
theorem entries_update (hs : Sound env s) {a : PaymentAttempt} (ha : a ∈ s.db.paymentAttempts)
    (hpending : a.status = .pending) {f : PaymentAttempt → PaymentAttempt}
    (hf : ∀ b, ticketOf (f b) = ticketOf b) {db : Db}
    (hdb : db.paymentAttempts =
      Table.update (PaymentService.isPending a.id) f s.db.paymentAttempts) :
    (books db).entries =
      Function.update (books s.db).entries (ticketOf a) (some (entryOf (f a))) := by
  have hq : ∀ t b, decide (ticketOf (f b) = t) = decide (ticketOf b = t) := by
    intro t b
    rw [hf b]
  funext t
  show (db.paymentAttempts.find? fun b => ticketOf b = t).map entryOf = _
  rw [hdb, Table.find?_update (hq t)]
  by_cases ht : t = ticketOf a
  · subst ht
    rw [find_entry hs ha, Function.update_self, Option.map_some, if_pos]
    · rfl
    · simp [PaymentService.isPending, hpending]
  · rw [Function.update_of_ne ht]
    show _ = (s.db.paymentAttempts.find? fun b => ticketOf b = t).map entryOf
    cases hfind : s.db.paymentAttempts.find? fun b => ticketOf b = t with
    | none => rfl
    | some b =>
      have hb : ticketOf b = t := by simpa using List.find?_some hfind
      have hid : PaymentService.isPending a.id b = false := by
        rw [PaymentService.isPending, Bool.and_eq_false_iff]
        refine .inl (decide_eq_false fun hid => ht ?_)
        rw [← hb, hs.attempt_eq (List.mem_of_find?_eq_some hfind) ha hid]
      rw [Option.map_some, if_neg (by simp [hid])]

/-- An update of an invoice's state rewrites one account. -/
theorem accounts_update (hs : Sound env s) {i : Invoice} (hi : i ∈ s.db.invoices)
    {p : Invoice → Bool} (hp : ∀ j, p j = true → j.id = i.id) {f : Invoice → Invoice}
    (hf : ∀ j, (f j).id = j.id) {db : Db} (hdb : db.invoices = Table.update p f s.db.invoices) :
    (books db).accounts =
      Function.update (books s.db).accounts i.id (some (accountOf (if p i then f i else i))) := by
  have hq : ∀ id j, decide ((f j).id = id) = decide (j.id = id) := by
    intro id j
    rw [hf j]
  have hfound : s.db.invoices.find? (fun j => j.id = i.id) = some i :=
    Table.find?_eq_some_of_unique hi (decide_eq_true rfl) fun j hj hid =>
      hs.invoice_eq hj hi (of_decide_eq_true hid)
  funext id
  show (db.invoices.find? fun j => j.id = id).map accountOf = _
  rw [hdb, Table.find?_update (hq id)]
  by_cases hid : id = i.id
  · subst hid
    rw [hfound, Function.update_self]
    rfl
  · rw [Function.update_of_ne hid]
    show _ = (s.db.invoices.find? fun j => j.id = id).map accountOf
    cases hfind : s.db.invoices.find? fun j => j.id = id with
    | none => rfl
    | some j =>
      have hj : j.id = id := by simpa using List.find?_some hfind
      have hother : p j = false := by
        cases hpj : p j with
        | false => rfl
        | true => exact absurd (hj.symm.trans (hp j hpj)) hid
      rw [Option.map_some, hother]
      rfl

/-- The account of a stored invoice. -/
theorem account_of_mem (hs : Sound env s) {i : Invoice} (hi : i ∈ s.db.invoices) :
    (books s.db).accounts i.id = some (accountOf i) := by
  have hfound : s.db.invoices.find? (fun j => j.id = i.id) = some i :=
    Table.find?_eq_some_of_unique hi (decide_eq_true rfl) fun j hj hid =>
      hs.invoice_eq hj hi (of_decide_eq_true hid)
  show (s.db.invoices.find? fun j => j.id = i.id).map accountOf = _
  rw [hfound]
  rfl

theorem entry_of_mem (hs : Sound env s) {a : PaymentAttempt} (ha : a ∈ s.db.paymentAttempts) :
    (books s.db).entries (ticketOf a) = some (entryOf a) := by
  show (s.db.paymentAttempts.find? fun b => ticketOf b = ticketOf a).map entryOf = _
  rw [find_entry hs ha]
  rfl

/-- An update of columns the books do not show. -/
theorem entries_same {p : PaymentAttempt → Bool} {f : PaymentAttempt → PaymentAttempt}
    {db db' : Db} (hdb : db'.paymentAttempts = Table.update p f db.paymentAttempts)
    (hticket : ∀ a, ticketOf (f a) = ticketOf a) (hentry : ∀ a, entryOf (f a) = entryOf a) :
    (books db').entries = (books db).entries := by
  funext t
  show (db'.paymentAttempts.find? fun b => ticketOf b = t).map entryOf =
    (db.paymentAttempts.find? fun b => ticketOf b = t).map entryOf
  rw [hdb, Table.find?_update fun a => by rw [hticket a], Option.map_map]
  congr 1
  funext a
  show entryOf (if p a then f a else a) = entryOf a
  split_ifs
  · exact hentry a
  · rfl

/-- A lease shows in no entry. -/
theorem entries_leased (db : Db) (now : Timestamp) (ids : List Uuid) :
    (books (Reconciler.lease db now ids).1).entries = (books db).entries := by
  have hdb : (Reconciler.lease db now ids).1.paymentAttempts =
      Table.update (fun a => ids.contains a.id)
        (fun a => { a with nextPollAt := some (now + seconds 30) }) db.paymentAttempts := rfl
  exact entries_same hdb (fun _ => rfl) fun _ => rfl

theorem accounts_same {db db' : Db} (hdb : db'.invoices = db.invoices) :
    (books db').accounts = (books db).accounts := by
  funext id
  show (db'.invoices.find? fun i => i.id = id).map accountOf = _
  rw [hdb]
  rfl

theorem entries_of_eq {db db' : Db} (hdb : db'.paymentAttempts = db.paymentAttempts) :
    (books db').entries = (books db).entries := by
  funext t
  show (db'.paymentAttempts.find? fun b => ticketOf b = t).map entryOf = _
  rw [hdb]
  rfl

/-! ## The steps -/

/-- What the mapping asks of a step. -/
def Kept (x : Step δ) : Prop :=
  (event x).elim (books x.post.db = books x.pre.db) fun e =>
    Books.step (books x.pre.db) e = some (books x.post.db)

/-- A step that leaves the books alone shows nothing, unless it creates an invoice. -/
theorem kept_of_same (hl : ∀ businessId req fresh, l ≠ .create businessId req fresh)
    (hbooks : books s'.db = books s.db) : Kept (⟨s, l, s'⟩ : Step δ) := by
  have hnone : event (⟨s, l, s'⟩ : Step δ) = none := by
    cases l with
    | create businessId req fresh => exact absurd rfl (hl businessId req fresh)
    | work w fresh =>
      show (s.workers w).bind (workEvent (books s.db) (books s'.db)) = none
      rw [hbooks, Option.bind_eq_none_iff]
      exact fun W _ => workEvent_self _ W
    | _ => rfl
  rw [Kept, hnone]
  exact hbooks

theorem kept_of_created {businessId : Uuid} {req : CreateInvoiceRequest} {fresh : Fresh} {db : Db}
    {inv : Invoice} (hcreated : InvoiceService.Created s.db s.now businessId req fresh db inv) :
    Kept (⟨s, .create businessId req fresh, s.setDb db⟩ : Step δ) := by
  have hfree : s.db.invoices.find? (fun i => i.id = inv.id) = none := by
    rw [List.find?_eq_none]
    intro i hi hid
    exact Table.UniqueIndex.ne_of_not_conflicts hcreated.freshId rfl hi rfl (of_decide_eq_true hid)
  have hentries := entries_of_eq hcreated.attempts
  have hold : (books s.db).accounts inv.id = none := by
    show (s.db.invoices.find? fun i => i.id = inv.id).map accountOf = none
    rw [hfree]
    rfl
  have hnew : (books db).accounts =
      Function.update (books s.db).accounts inv.id (some (accountOf inv)) := by
    funext id
    show (db.invoices.find? fun i => i.id = id).map accountOf = _
    rw [hcreated.invoices, List.find?_append]
    by_cases hid : id = inv.id
    · subst hid
      rw [hfree, Function.update_self]
      simp
    · rw [Function.update_of_ne hid]
      simp [books, Ne.symm hid]
  have hevent : event (⟨s, .create businessId req fresh, s.setDb db⟩ : Step δ) =
      some (.issue inv.id (accountOf inv)) := by
    show ((books db).accounts (fresh.newId 0)).map (Event.issue (fresh.newId 0)) = _
    rw [← hcreated.id, hnew, Function.update_self]
    rfl
  rw [Kept, hevent]
  show Books.step (books s.db) (.issue inv.id (accountOf inv)) = some (books db)
  rw [Books.step, if_pos ⟨hold, hcreated.draft⟩, Option.some.injEq]
  exact Books.State.ext hnew.symm hentries.symm

/-- A live entry is an active attempt: no attempt expires. -/
theorem isActive_of_isLive (hs : Sound env s) (hd : Settled s) {a : PaymentAttempt}
    (ha : a ∈ s.db.paymentAttempts)
    (hlive : ({ item := a.invoiceId, outcome := outcomeOf a } :
      Contention.Entry Uuid ChargeOutcome).IsLive ChargeOutcome.movesMoney) :
    a.isActive = true := by
  rcases hd.attempt hs ha with ⟨hpending, -, -⟩ | ⟨o, -, hcarries⟩
  · simp [PaymentAttempt.isActive, hpending]
  · cases o with
    | succeeded pspRef =>
      have hst := hcarries.succeeded_iff.mpr rfl
      simp [PaymentAttempt.isActive, hst]
    | failed code =>
      have hst : a.status = .failed := hcarries.status
      have hfailed : outcomeOf a = some (.failed (a.failureCode.getD "")) := by
        rw [outcomeOf, hst]
      cases hlive _ hfailed

theorem kept_of_claimed (hs : Sound env s) (hd : Settled s) {w : WorkerId} {fresh : Fresh}
    {call : PayCall} {state : InvoiceState} {amount : Int64} {fp : List UInt8} {db : Db}
    {job : Job} {W' : Worker}
    (hw : s.workers w = some (.pay call (.read state amount))) (hjob : call.IsOf job)
    (hamount : job.amountCents = amount)
    (hclaimed : PaymentService.Claimed s.db fresh fp state job db) :
    Kept (⟨s, .work w fresh, (s.setDb db).setWorker w W'⟩ : Step δ) := by
  have hticket : ticketOf (PaymentService.newAttempt job) =
      (call.businessId, call.idempotencyKey) := Prod.ext hjob.businessId hjob.idempotencyKey
  obtain ⟨t, ht⟩ : ∃ t, t = (call.businessId, call.idempotencyKey) := ⟨_, rfl⟩
  rw [← ht] at hticket
  -- no attempt has the key: its row would be in the way of the insert
  have hfree : s.db.paymentAttempts.find? (fun a => ticketOf a = t) = none := by
    rw [List.find?_eq_none]
    intro a ha hat
    obtain ⟨hb, hkey⟩ := Prod.mk.inj ((of_decide_eq_true hat).trans hticket.symm)
    obtain ⟨link, hlink, hclaims⟩ := hs.ledger.jobKey _ (mem_jobs ha)
    obtain ⟨k, hk, rfl⟩ := List.mem_map.mp hlink
    have hfalse := PaymentService.isKey_eq_false_of_fresh hclaimed.freshKey hk
    have htrue : PaymentService.isKey job.businessId job.idempotencyKey k = true := by
      rw [PaymentService.isKey, Bool.and_eq_true]
      exact ⟨decide_eq_true (hclaims.businessId.trans hb),
        decide_eq_true (hclaims.idempotencyKey.trans hkey)⟩
    exact Bool.noConfusion (hfalse.symm.trans htrue)
  have hold : (books s.db).entries t = none := by
    show (s.db.paymentAttempts.find? fun a => ticketOf a = t).map entryOf = none
    rw [hfree]
    rfl
  have hattempts : db.paymentAttempts =
      s.db.paymentAttempts ++ [PaymentService.newAttempt job] := by rw [hclaimed.post]
  have hnew : (books db).entries = Function.update (books s.db).entries t
      (some (entryOf (PaymentService.newAttempt job))) := by
    funext t'
    show (db.paymentAttempts.find? fun a => ticketOf a = t').map entryOf = _
    rw [hattempts, List.find?_append]
    by_cases heq : t' = t
    · subst heq
      rw [hfree, Function.update_self]
      simp [hticket]
    · rw [Function.update_of_ne heq]
      simp [books, hticket, Ne.symm heq]
  have hevent : event (⟨s, .work w fresh, (s.setDb db).setWorker w W'⟩ : Step δ) =
      some (.charge t (entryOf (PaymentService.newAttempt job))) := by
    show (s.workers w).bind (workEvent (books s.db) (books db)) = _
    rw [hw]
    show newEntry (books s.db) (books db) (call.businessId, call.idempotencyKey) = _
    rw [← ht, newEntry, hold, hnew, Function.update_self]
    rfl
  have hbilled : (books s.db).Billed t (entryOf (PaymentService.newAttempt job)) := by
    obtain ⟨bill, hbill, hof⟩ := hs.read w _ call state amount hw rfl
    obtain ⟨i, hi, rfl⟩ := List.mem_map.mp hbill
    refine ⟨accountOf i, ?_, ?_, ?_, ?_⟩
    · show (books s.db).accounts job.invoiceId = _
      rw [hjob.invoiceId, ← hof.id]
      exact account_of_mem hs hi
    · rw [ht]
      exact hof.businessId
    · exact hof.totalCents.trans hamount.symm
    · have hread : (Worker.pay call (.read state amount)).reading = some (call, .open, amount) := by
        rw [Worker.reading, hclaimed.stateOpen]
      exact hs.opened w _ call amount hw hread i hi hof.id
  have hboard : (books s.db).board.IsFree ChargeOutcome.movesMoney job.invoiceId := by
    intro t' e he hitem hlive
    obtain ⟨e', he', rfl⟩ := Option.map_eq_some_iff.mp he
    obtain ⟨a, ha, rfl⟩ := Option.map_eq_some_iff.mp he'
    have hmem := List.mem_of_find?_eq_some ha
    exact Table.UniqueIndex.ne_of_not_conflicts hclaimed.noActive rfl hmem
      (isActive_of_isLive hs hd hmem hlive) hitem
  rw [Kept, hevent]
  show Books.step (books s.db) (.charge t (entryOf (PaymentService.newAttempt job))) =
    some (books db)
  rw [Books.step, if_pos ⟨hold, rfl, hbilled, hboard⟩, Option.some.injEq]
  refine Books.State.ext ?_ hnew.symm
  exact (accounts_same (by rw [hclaimed.post])).symm

theorem ticketOf_settle (now : Timestamp) (r : PspResult) (a : PaymentAttempt) :
    ticketOf (settle now r a) = ticketOf a := by
  cases r <;> rfl

/-- What the answer makes of the entry. -/
theorem entryOf_settle (now : Timestamp) (o : ChargeOutcome) (a : PaymentAttempt) :
    entryOf (settle now o.toResult a) = { entryOf a with outcome := some o } := by
  cases o <;> rfl

/-- Transaction 2 pays the open invoice of a success and leaves every other one alone. -/
theorem accounts_finalized (hs : Sound env s) {i : Invoice} (hi : i ∈ s.db.invoices)
    {fresh : Fresh} {job : Job} (hid : job.invoiceId = i.id) {o : ChargeOutcome} {db : Db}
    {answered : PayOutcome}
    (hfinal : PaymentService.Finalized s.db s.now fresh job o.toResult db answered) :
    (books db).accounts = Function.update (books s.db).accounts i.id
      (some ((accountOf i).paidBy o)) := by
  have hfound := account_of_mem hs hi
  cases o with
  | failed code =>
    rw [show (accountOf i).paidBy (.failed code) = accountOf i from if_neg (by simp [
      ChargeOutcome.movesMoney]), ← hfound, Function.update_eq_self]
    exact accounts_same hfinal.invoices
  | succeeded pspRef =>
    have hopen : ∀ j, PaymentService.isOpen job.invoiceId j = true → j.id = i.id := by
      intro j hj
      simp only [PaymentService.isOpen, Bool.and_eq_true, decide_eq_true_eq] at hj
      exact hj.1.trans hid
    rw [accounts_update hs hi hopen (f := fun j =>
      { j with state := .paid, paidAt := some s.now, version := j.version + 1 }) (fun _ => rfl)
      hfinal.invoices]
    by_cases hst : i.state = .open
    · rw [if_pos (by simp [PaymentService.isOpen, hid, hst])]
      rw [show (accountOf i).paidBy (.succeeded pspRef) = (accountOf i).to .paid from
        if_pos ⟨rfl, hst⟩]
      rfl
    · rw [if_neg (by simp [PaymentService.isOpen, hst])]
      rw [show (accountOf i).paidBy (.succeeded pspRef) = accountOf i from
        if_neg fun h => hst h.2]

/-- The first definite answer to a pending attempt settles its entry. -/
theorem kept_of_settled (hs : Sound env s) {w : WorkerId} {fresh : Fresh} {W W' : Worker}
    {a : PaymentAttempt} (ha : a ∈ s.db.paymentAttempts) (hpending : a.status = .pending)
    {o : ChargeOutcome} {db : Db} {answered : PayOutcome} (hw : s.workers w = some W)
    (hr : W.result = some (Job.ofAttempt a, o.toResult))
    (hfinal : PaymentService.Finalized s.db s.now fresh (Job.ofAttempt a) o.toResult db
      answered) :
    Kept (⟨s, .work w fresh, (s.setDb db).setWorker w W'⟩ : Step δ) := by
  have hold := entry_of_mem hs ha
  have hentries := entries_update hs ha hpending (ticketOf_settle s.now o.toResult) hfinal.attempts
  rw [entryOf_settle] at hentries
  have hopen : (entryOf a).outcome = none := by
    show outcomeOf a = none
    rw [outcomeOf, hpending]
  obtain ⟨i, hi, hid⟩ := hs.exists_invoice ha
  have haccounts := accounts_finalized hs hi hid.symm hfinal
  have hfound : (books s.db).accounts a.invoiceId = some (accountOf i) := by
    rw [← hid]
    exact account_of_mem hs hi
  have hevent : event (⟨s, .work w fresh, (s.setDb db).setWorker w W'⟩ : Step δ) =
      some (.settle (ticketOf a) a.invoiceId o) := by
    show (s.workers w).bind (workEvent (books s.db) (books db)) = _
    rw [hw]
    show workEvent (books s.db) (books db) W = _
    rw [workEvent_of_result _ _ hr]
    show newOutcome (books s.db) (books db) (ticketOf a) = _
    rw [newOutcome, hold, hentries, Function.update_self]
    dsimp only
    rw [hopen]
    rfl
  rw [Kept, hevent]
  show Books.step (books s.db) (.settle (ticketOf a) a.invoiceId o) = some (books db)
  rw [Books.step, hold]
  dsimp only
  rw [if_pos ⟨rfl, hopen⟩, hfound, Option.some.injEq]
  refine Books.State.ext ?_ hentries.symm
  rw [haccounts, hid]
  rfl

/-- A finalization that comes too late changes neither the attempt nor the invoice. -/
theorem kept_of_late (hs : Sound env s) {w : WorkerId} {fresh : Fresh} {W' : Worker}
    {a : PaymentAttempt} (ha : a ∈ s.db.paymentAttempts) {o : ChargeOutcome}
    (hcarries : Carries a o) {db : Db} {answered : PayOutcome}
    (hfinal : PaymentService.Finalized s.db s.now fresh (Job.ofAttempt a) o.toResult db
      answered) :
    Kept (⟨s, .work w fresh, (s.setDb db).setWorker w W'⟩ : Step δ) := by
  refine kept_of_same nofun (Books.State.ext ?_ ?_)
  · obtain ⟨i, hi, hid⟩ := hs.exists_invoice ha
    show (books db).accounts = _
    rw [accounts_finalized hs hi hid.symm hfinal]
    have hsame : (accountOf i).paidBy o = accountOf i := by
      refine if_neg fun ⟨hmoves, hopen⟩ => ?_
      exact hs.notOpen a ha (hcarries.succeeded_iff.mpr hmoves) i hi hid hopen
    rw [hsame, ← account_of_mem hs hi, Function.update_eq_self]
  · refine entries_of_eq (hfinal.attempts.trans (Table.update_eq_self fun b hb => ?_))
    by_contra hp
    simp only [PaymentService.isPending, Bool.not_eq_false, Bool.and_eq_true,
      decide_eq_true_eq] at hp
    obtain rfl := hs.attempt_eq hb ha hp.1
    exact hcarries.ne_pending hp.2

theorem kept_of_finalized (hs : Sound env s) (hd : Settled s) {w : WorkerId} {fresh : Fresh}
    {W W' : Worker} {job : Job} {r : PspResult} {db : Db} {answered : PayOutcome}
    (hw : s.workers w = some W) (hr : W.result = some (job, r))
    (hfinal : PaymentService.Finalized s.db s.now fresh job r db answered) :
    Kept (⟨s, .work w fresh, (s.setDb db).setWorker w W'⟩ : Step δ) := by
  obtain ⟨a, ha, rfl⟩ := Sound.exists_attempt_of_job (hs.result_job hw hr)
  rcases hd.results w W _ r hw hr with ⟨reason, rfl⟩ | ⟨o, hseen, rfl⟩
  · refine kept_of_same nofun (Books.State.ext (accounts_same hfinal.invoices) ?_)
    exact entries_same hfinal.attempts (fun _ => rfl) fun _ => rfl
  · rcases hd.attempt hs ha with ⟨hpending, -, -⟩ | ⟨o', hseen', hcarries⟩
    · exact kept_of_settled hs ha hpending hw hr hfinal
    · obtain rfl : o' = o := Option.some.inj (hseen'.symm.trans hseen)
      exact kept_of_late hs ha hcarries hfinal

theorem canTransitionTo_ne {from_ to_ : InvoiceState} (h : from_.canTransitionTo to_ = true) :
    from_ ≠ to_ := by
  rintro rfl
  cases from_ <;> cases h

theorem kept_of_moved (hs : Sound env s) {w : WorkerId} {fresh : Fresh} {call : AdminCall}
    {current : InvoiceState} {db : Db} {inv : Invoice} {W' : Worker}
    (hw : s.workers w = some (.admin call (.loaded current)))
    (happly : InvoiceService.apply s.db s.now call.businessId call.id current call.action.target =
      .ok (db, inv)) :
    Kept (⟨s, .work w fresh, (s.setDb db).setWorker w W'⟩ : Step δ) := by
  have hcan := hs.loaded w _ call current hw rfl
  obtain ⟨hdb, i, hi, hin, -⟩ := InvoiceService.apply_eq_ok happly
  have hin' := hin
  simp only [InvoiceRepo.isIn, Bool.and_eq_true, decide_eq_true_eq] at hin'
  obtain ⟨⟨hid, -⟩, hst⟩ := hin'
  have hfound : (books s.db).accounts call.id = some (accountOf i) := by
    rw [← hid]
    exact account_of_mem hs hi
  have haccounts : (books db).accounts = Function.update (books s.db).accounts call.id
      (some ((accountOf i).to call.action.target)) := by
    rw [accounts_update hs hi (p := InvoiceRepo.isIn call.businessId call.id current)
      (f := InvoiceRepo.move s.now call.action.target) ?_ (fun _ => rfl) (by rw [hdb]), hid,
      if_pos hin]
    · rfl
    · intro j hj
      simp only [InvoiceRepo.isIn, Bool.and_eq_true, decide_eq_true_eq] at hj
      exact hj.1.1.trans hid.symm
  have hevent : event (⟨s, .work w fresh, (s.setDb db).setWorker w W'⟩ : Step δ) =
      some (.move call.id call.action.target) := by
    show (s.workers w).bind (workEvent (books s.db) (books db)) = _
    rw [hw]
    show newState (books s.db) (books db) call.id = _
    rw [newState, hfound, haccounts, Function.update_self]
    dsimp only
    rw [if_neg]
    · rfl
    · show i.state ≠ call.action.target
      rw [hst]
      exact canTransitionTo_ne hcan
  rw [Kept, hevent]
  show Books.step (books s.db) (.move call.id call.action.target) = some (books db)
  have hguard : (accountOf i).state.canTransitionTo call.action.target = true ∧
      call.action.target ≠ .paid := by
    refine ⟨?_, by cases call.action <;> exact InvoiceState.noConfusion⟩
    show i.state.canTransitionTo call.action.target = true
    rw [hst]
    exact hcan
  rw [Books.step, hfound]
  dsimp only
  rw [if_pos hguard, Option.some.injEq]
  refine Books.State.ext haccounts.symm ?_
  exact (entries_of_eq (by rw [hdb])).symm

theorem kept_of_effect (hs : Sound env s) (hd : Settled s) (he : Effect env s l s') :
    Kept (⟨s, l, s'⟩ : Step δ) := by
  cases he with
  | advance _ => exact kept_of_same nofun rfl
  | create hcreated => exact kept_of_created hcreated
  | lease _ _ =>
    exact kept_of_same nofun (Books.State.ext rfl (entries_leased _ _ _))
  | quiet hl _ =>
    refine kept_of_same ?_ rfl
    rintro businessId req fresh rfl
    cases hl
  | send _ _ _ => exact kept_of_same nofun rfl
  | claim hw hjob hamount hclaimed => exact kept_of_claimed hs hd hw hjob hamount hclaimed
  | replay _ => exact kept_of_same nofun rfl
  | serve _ _ => exact kept_of_same nofun rfl
  | finalize hw hr hfinal _ => exact kept_of_finalized hs hd hw hr hfinal
  | move hw happly => exact kept_of_moved hs hw happly

/-! ## Every run -/

/-- The mapping from the payment system to the books. -/
noncomputable def bookkeeping (hpsp : env.psp.IsDefinite) :
    Refinement (system env) Books.system where
  abs s := books s.db
  event := event
  initial := by
    intro s h
    refine Books.State.ext (funext fun id => ?_) (funext fun t => ?_)
    · show (s.db.invoices.find? fun i => i.id = id).map accountOf = none
      rw [h.invoices]
      rfl
    · show (s.db.paymentAttempts.find? fun a => ticketOf a = t).map entryOf = none
      rw [h.attempts]
      rfl
  step := by
    intro x hx h
    exact kept_of_effect (sound_of_reachable hx) (settled_of_reachable hpsp hx) (step_effect h)

/-- Under a definite PSP the payment system refines the books: what a run shows is a run of the
abstract machine from nothing to the books of the database it ends with. -/
theorem run_books (hpsp : env.psp.IsDefinite) {s₀ : State} (h₀ : Initial s₀)
    {ls : List (Label δ)} (hrun : (system env).run s₀ ls = some s) :
    Books.system.run Books.empty (((system env).steps s₀ ls).filterMap event) =
      some (books s.db) := by
  have h := (bookkeeping hpsp).run (.of_initial h₀) hrun
  rw [(bookkeeping hpsp).initial s₀ h₀] at h
  exact h

/-- The attempts of an invoice when it is in a phase: none pending or succeeded, one pending and no
other active, or one succeeded and no other active. -/
def Stands (db : Db) (id : Uuid) : Contention.Phase Ticket → Prop
  | .idle => ∀ a ∈ db.paymentAttempts, a.invoiceId = id → a.isActive = false
  | .running t => ∃ a ∈ db.paymentAttempts, a.invoiceId = id ∧ ticketOf a = t ∧
    a.status = .pending ∧
    ∀ b ∈ db.paymentAttempts, b.invoiceId = id → b.isActive = true → b = a
  | .won t => ∃ a ∈ db.paymentAttempts, a.invoiceId = id ∧ ticketOf a = t ∧
    a.status = .succeeded ∧
    ∀ b ∈ db.paymentAttempts, b.invoiceId = id → b.isActive = true → b = a

/-- An active attempt is a live entry. -/
theorem isLive_of_isActive {a : PaymentAttempt} (h : a.isActive = true) :
    ({ item := a.invoiceId, outcome := outcomeOf a } :
      Contention.Entry Uuid ChargeOutcome).IsLive ChargeOutcome.movesMoney := by
  intro o ho
  simp only [PaymentAttempt.isActive, Bool.or_eq_true, decide_eq_true_eq] at h
  rcases h with hst | hst
  · simp [outcomeOf, hst] at ho
  · rw [outcomeOf, hst] at ho
    obtain rfl := Option.some.inj ho
    rfl

theorem board_of_mem (hs : Sound env s) {a : PaymentAttempt} (ha : a ∈ s.db.paymentAttempts) :
    (books s.db).board (ticketOf a) =
      some { item := a.invoiceId, outcome := outcomeOf a } := by
  rw [Books.State.board, entry_of_mem hs ha]
  rfl

/-- An entry on the board is an attempt. -/
theorem exists_of_board {t : Ticket} {e : Contention.Entry Uuid ChargeOutcome}
    (h : (books s.db).board t = some e) : ∃ a ∈ s.db.paymentAttempts, ticketOf a = t ∧
      e = { item := a.invoiceId, outcome := outcomeOf a } := by
  obtain ⟨e', he', rfl⟩ := Option.map_eq_some_iff.mp h
  obtain ⟨a, ha, rfl⟩ := Option.map_eq_some_iff.mp he'
  exact ⟨a, List.mem_of_find?_eq_some ha, by simpa using List.find?_some ha, rfl⟩

/-- Two attempts under one ticket are one row. -/
theorem eq_of_ticket (hs : Sound env s) {a b : PaymentAttempt} (ha : a ∈ s.db.paymentAttempts)
    (hb : b ∈ s.db.paymentAttempts) (h : ticketOf b = ticketOf a) : b = a := by
  have hfound := find_entry hs hb
  rw [h, find_entry hs ha] at hfound
  exact (Option.some.inj hfound).symm

/-- What the board says of an invoice, its attempts bear out. -/
theorem stands_of_phase (hs : Sound env s) (hd : Settled s) {id : Uuid}
    {p : Contention.Phase Ticket}
    (h : p.Of ChargeOutcome.movesMoney (books s.db).board id) : Stands s.db id p := by
  have hone : ∀ {t : Ticket} {a : PaymentAttempt}, a ∈ s.db.paymentAttempts → ticketOf a = t →
      (∀ t' e, (books s.db).board t' = some e → e.item = id →
        e.IsLive ChargeOutcome.movesMoney → t' = t) →
      ∀ b ∈ s.db.paymentAttempts, b.invoiceId = id → b.isActive = true → b = a := by
    rintro t a ha rfl hlive b hb hinv hactive
    exact eq_of_ticket hs ha hb
      (hlive _ _ (board_of_mem hs hb) hinv (isLive_of_isActive hactive))
  cases p with
  | idle =>
    intro a ha hinv
    by_contra hactive
    exact h _ _ (board_of_mem hs ha) hinv (isLive_of_isActive (by simpa using hactive))
  | running t =>
    obtain ⟨hpending, hlive⟩ := h
    obtain ⟨a, ha, hticket, he⟩ := exists_of_board hpending
    obtain ⟨hinv, hopen⟩ := Contention.Entry.mk.inj he
    refine ⟨a, ha, hinv.symm, hticket, ?_, hone ha hticket hlive⟩
    rcases hd.attempt hs ha with ⟨hst, -, -⟩ | ⟨o, -, hcarries⟩
    · exact hst
    · have hst := hcarries.status
      rw [outcomeOf, hst] at hopen
      cases o <;> cases hopen
  | won t =>
    obtain ⟨⟨o, hmoves, hwon⟩, hlive⟩ := h
    obtain ⟨a, ha, hticket, he⟩ := exists_of_board hwon
    obtain ⟨hinv, houtcome⟩ := Contention.Entry.mk.inj he
    refine ⟨a, ha, hinv.symm, hticket, ?_, hone ha hticket hlive⟩
    cases hst : a.status with
    | succeeded => rfl
    | failed =>
      rw [outcomeOf, hst] at houtcome
      obtain rfl := Option.some.inj houtcome
      cases hmoves
    | pending => simp [outcomeOf, hst] at houtcome
    | expired => simp [outcomeOf, hst] at houtcome

/-- Along every run the attempts of an invoice are made one after another: each charge waits for
the outcome of the one before it, and none follows a success. The phase this leads to is the one the
rows are in. -/
theorem attempts_serial (hpsp : env.psp.IsDefinite) {s₀ : State} (h₀ : Initial s₀)
    {ls : List (Label δ)} (hrun : (system env).run s₀ ls = some s) (id : Uuid) :
    ∃ p, Contention.phaseAfter ChargeOutcome.movesMoney id
        ((((system env).steps s₀ ls).filterMap event).filterMap Event.bid) = some p ∧
      Stands s.db id p := by
  have hreach : (system env).Reachable s := ⟨s₀, ls, h₀, hrun⟩
  have hboard := Books.contention.run (.of_initial ((bookkeeping hpsp).initial s₀ h₀))
    ((bookkeeping hpsp).run (.of_initial h₀) hrun)
  obtain ⟨p, hphase, hp⟩ := Contention.serial
    (Books.contention.initial _ ((bookkeeping hpsp).initial s₀ h₀)) hboard id
  rw [Books.contention.trace_of_label (g := Event.bid) (fun _ => rfl)
    ((bookkeeping hpsp).run (.of_initial h₀) hrun)] at hphase
  exact ⟨p, hphase,
    stands_of_phase (sound_of_reachable hreach) (settled_of_reachable hpsp hreach) hp⟩

/-! ## A declined card and another one -/

theorem run_books_secondCardRun :
    ∃ s, (definiteSystem shopSha256).run shop secondCardRun = some s ∧
      Books.system.run Books.empty
          (((definiteSystem shopSha256).steps shop secondCardRun).filterMap event) =
        some (books s.db) := by
  have hsome : ((definiteSystem shopSha256).run shop secondCardRun).isSome = true := by
    decide +kernel
  obtain ⟨s, hs⟩ := Option.isSome_iff_exists.mp hsome
  exact ⟨s, hs, run_books definitePsp_isDefinite shop_initial hs⟩

theorem attempts_serial_secondCardRun :
    ∃ s, (definiteSystem shopSha256).run shop secondCardRun = some s ∧
      ∃ p, Contention.phaseAfter ChargeOutcome.movesMoney (shopId 10)
          ((((definiteSystem shopSha256).steps shop secondCardRun).filterMap event).filterMap
            Event.bid) = some p ∧
        Stands s.db (shopId 10) p := by
  have hsome : ((definiteSystem shopSha256).run shop secondCardRun).isSome = true := by
    decide +kernel
  obtain ⟨s, hs⟩ := Option.isSome_iff_exists.mp hsome
  exact ⟨s, hs, attempts_serial definitePsp_isDefinite shop_initial hs (shopId 10)⟩

/-- The run keeps these books. -/
example : ((definiteSystem shopSha256).steps shop secondCardRun).filterMap event =
    [.issue (shopId 10) ⟨shopId 2, 500, .draft⟩, .move (shopId 10) .open,
     .charge (shopId 2, "k1") ⟨shopId 10, "tok_card_declined", 500, none⟩,
     .settle (shopId 2, "k1") (shopId 10) (.failed "card_declined"),
     .charge (shopId 2, "k2") ⟨shopId 10, "tok_success", 500, none⟩,
     .settle (shopId 2, "k2") (shopId 10) (.succeeded "psp_1")] := by
  decide +kernel

end InvoicePayment.Payments
