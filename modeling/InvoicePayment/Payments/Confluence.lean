import InvoicePayment.Payments.InFlightReplays
import InvoicePayment.Payments.Replays

/-!
# Finalization is confluent

`Seen` is what transaction 2 decides: the outcome of every attempt, the state, version and payment
of every invoice, and the keys with their cached responses. To that a result is either nothing
(an unknown one) or an idempotent change (`Seen.settle_settle`), so of a list of results that agree
with one another only the first definite one counts (`finalization_confluent`).
-/

namespace InvoicePayment

/-- Not an unknown one. -/
def PspResult.isDefinite : PspResult → Bool
  | .unknown _ => false
  | _ => true

/-- The text of the result goes into the row. -/
def PspResult.isStorable : PspResult → Bool
  | .succeeded text => isPgText text
  | .declined text => isPgText text
  | .unknown _ => true

namespace Payments

open PaymentService (answer completedKey isKey)

/-! ## What a finalization decides -/

structure AttemptSeen where
  id : Uuid
  status : PaymentStatus
  pspRef : Option String
  failureCode : Option String

namespace AttemptSeen

def ofAttempt (a : PaymentAttempt) : AttemptSeen :=
  { id := a.id, status := a.status, pspRef := a.pspRef, failureCode := a.failureCode }

def succeed (pspRef : String) (a : AttemptSeen) : AttemptSeen :=
  { a with status := .succeeded, pspRef := some pspRef }

def fail (code : String) (a : AttemptSeen) : AttemptSeen :=
  { a with status := .failed, failureCode := some code }

end AttemptSeen

structure InvoiceSeen where
  id : Uuid
  state : InvoiceState
  version : Int
  hasPaidAt : Bool

namespace InvoiceSeen

def ofInvoice (i : Invoice) : InvoiceSeen :=
  { id := i.id, state := i.state, version := i.version, hasPaidAt := i.paidAt.isSome }

def pay (i : InvoiceSeen) : InvoiceSeen :=
  { i with state := .paid, version := i.version + 1, hasPaidAt := true }

end InvoiceSeen

structure Seen where
  attempts : List AttemptSeen
  invoices : List InvoiceSeen
  keys : List IdempotencyKey

def Seen.ofDb (db : Db) : Seen :=
  { attempts := db.paymentAttempts.map .ofAttempt
    invoices := db.invoices.map .ofInvoice
    keys := db.idempotencyKeys }

namespace Seen

/-- `WHERE id = $1 AND status = 'pending'`. -/
def isPending (job : Job) (a : AttemptSeen) : Bool := a.id = job.attemptId && a.status = .pending

/-- `WHERE id = $1 AND state = 'open'`. -/
def isOpen (job : Job) (i : InvoiceSeen) : Bool := i.id = job.invoiceId && i.state = .open

/-- The keys with the response cached. -/
def complete (job : Job) (r : PspResult) (keys : List IdempotencyKey) : List IdempotencyKey :=
  Table.update (isKey job.businessId job.idempotencyKey) (completedKey (answer job r)) keys

/-- What a result makes of it. -/
def settle (job : Job) (r : PspResult) (v : Seen) : Seen :=
  match r with
  | .succeeded pspRef =>
    { attempts := Table.update (isPending job) (.succeed pspRef) v.attempts
      invoices := Table.update (isOpen job) .pay v.invoices
      keys := complete job r v.keys }
  | .declined code =>
    { attempts := Table.update (isPending job) (.fail code) v.attempts
      invoices := v.invoices
      keys := complete job r v.keys }
  | .unknown _ => v

theorem complete_complete (job : Job) (r : PspResult) (keys : List IdempotencyKey) :
    complete job r (complete job r keys) = complete job r keys :=
  Table.update_update (f := completedKey (answer job r)) (fun _ _ _ => rfl) keys

/-- The `WHERE` does not match a row it has matched. -/
theorem update_isPending_twice (job : Job) {f : AttemptSeen → AttemptSeen}
    (hf : ∀ a, (f a).status ≠ .pending) (t : List AttemptSeen) :
    Table.update (isPending job) f (Table.update (isPending job) f t) =
      Table.update (isPending job) f t := by
  refine Table.update_update (fun a _ hp => ?_) t
  simp only [isPending, Bool.and_eq_true, decide_eq_true_eq] at hp
  exact absurd hp.2 (hf a)

theorem update_isOpen_twice (job : Job) (t : List InvoiceSeen) :
    Table.update (isOpen job) .pay (Table.update (isOpen job) .pay t) =
      Table.update (isOpen job) .pay t := by
  refine Table.update_update (fun i _ hp => ?_) t
  simp only [isOpen, Bool.and_eq_true, decide_eq_true_eq] at hp
  exact InvoiceState.noConfusion hp.2

/-- A result that comes again changes nothing: the attempt is settled, the invoice is not open any
more, the key gets the same response. -/
theorem settle_settle (job : Job) (r : PspResult) (v : Seen) :
    (v.settle job r).settle job r = v.settle job r := by
  cases r with
  | succeeded pspRef =>
    have hattempts := update_isPending_twice job (f := .succeed pspRef)
      (fun _ => PaymentStatus.noConfusion) v.attempts
    simp only [settle, complete_complete, hattempts, update_isOpen_twice]
  | declined code =>
    have hattempts := update_isPending_twice job (f := .fail code)
      (fun _ => PaymentStatus.noConfusion) v.attempts
    simp only [settle, complete_complete, hattempts]
  | unknown reason => rfl

end Seen

/-! ## Transaction 2 -/

/-- What a result that is applied once makes of `v`. One whose text cannot be stored fails the
transaction. -/
def Seen.apply (job : Job) (v : Seen) (r : PspResult) : Seen :=
  if r.isStorable then v.settle job r else v

theorem seen_of_finalized {db db' : Db} {now : Timestamp} {fresh : Fresh} {job : Job}
    {r : PspResult} {o : PayOutcome} (h : PaymentService.Finalized db now fresh job r db' o) :
    Seen.ofDb db' = (Seen.ofDb db).settle job r := by
  have hattempts : ∀ f : AttemptSeen → AttemptSeen,
      (∀ a, AttemptSeen.ofAttempt (PaymentService.settle now r a) = f (.ofAttempt a)) →
      db'.paymentAttempts.map AttemptSeen.ofAttempt =
        Table.update (Seen.isPending job) f (db.paymentAttempts.map .ofAttempt) := by
    intro f hf
    rw [h.attempts]
    refine Table.map_update_of_comm ?_ ?_ db.paymentAttempts
    · exact fun _ => rfl
    · exact fun a _ => hf a
  have hkeys : (PaymentService.eventType r).isSome = true →
      db'.idempotencyKeys = Seen.complete job r db.idempotencyKeys := by
    intro hsome
    rw [h.keys, if_pos hsome, h.answered]
    rfl
  cases r with
  | succeeded pspRef =>
    have hpaid : PaymentService.eventType (.succeeded pspRef) = some .invoicePaid := rfl
    have hinvoices : db'.invoices.map InvoiceSeen.ofInvoice =
        Table.update (Seen.isOpen job) .pay (db.invoices.map .ofInvoice) := by
      rw [h.invoices, if_pos hpaid]
      refine Table.map_update_of_comm ?_ ?_ db.invoices
      · exact fun _ => rfl
      · exact fun _ _ => rfl
    rw [Seen.ofDb, hattempts (.succeed pspRef) fun _ => rfl, hinvoices, hkeys rfl]
    rfl
  | declined code =>
    have hinvoices : db'.invoices = db.invoices := by
      rw [h.invoices]
      exact if_neg (by simp [PaymentService.eventType])
    rw [Seen.ofDb, hattempts (.fail code) fun _ => rfl, hinvoices, hkeys rfl]
    rfl
  | unknown reason =>
    have hinvoices : db'.invoices = db.invoices := by
      rw [h.invoices]
      exact if_neg (by simp [PaymentService.eventType])
    have hsame : db'.idempotencyKeys = db.idempotencyKeys := by
      rw [h.keys]
      exact if_neg (by simp [PaymentService.eventType])
    have hid : ∀ t : List AttemptSeen, Table.update (Seen.isPending job) id t = t := by
      intro t
      simp [Table.update]
    rw [Seen.ofDb, hattempts id fun _ => rfl, hinvoices, hsame, hid]
    rfl

/-! ## Lists of results -/

/-- A result that is applied: when, and with which draws. -/
structure Application where
  now : Timestamp
  fresh : Fresh
  result : PspResult

/-- The database after `finalize`; if it fails, its transaction is rolled back. -/
def applyResult (job : Job) (db : Db) (x : Application) : Db :=
  match PaymentService.finalize db x.now x.fresh job x.result with
  | .error _ => db
  | .ok (db', _) => db'

def applyAll (job : Job) (db : Db) (xs : List Application) : Db := xs.foldl (applyResult job) db

/-- The event ids drawn are unused and different from one another. -/
structure FreshDraws (db : Db) (xs : List Application) : Prop where
  distinct : (xs.map fun x => x.fresh.newId 0).Nodup
  unused : ∀ x ∈ xs, ∀ e ∈ db.webhookEvents, e.id ≠ x.fresh.newId 0

variable {db : Db} {job : Job} {xs ys : List Application} {x : Application}

theorem seen_applyResult (hfresh : ∀ e ∈ db.webhookEvents, e.id ≠ x.fresh.newId 0) :
    Seen.ofDb (applyResult job db x) = (Seen.ofDb db).apply job x.result := by
  have hcommits : PaymentService.Commits db x.fresh x.result ↔ x.result.isStorable = true := by
    cases x.result with
    | succeeded text => exact ⟨fun h => h.1, fun h => ⟨h, hfresh⟩⟩
    | declined text => exact ⟨fun h => h.1, fun h => ⟨h, hfresh⟩⟩
    | unknown reason => exact ⟨fun _ => rfl, fun _ => trivial⟩
  unfold applyResult Seen.apply
  cases hfinal : PaymentService.finalize db x.now x.fresh job x.result with
  | error e =>
    rw [if_neg]
    intro hstorable
    have hexists : ∃ p, PaymentService.finalize db x.now x.fresh job x.result = .ok p :=
      PaymentService.exists_finalize (hcommits.mpr hstorable)
    obtain ⟨p, hp⟩ := hexists
    rw [hfinal] at hp
    cases hp
  | ok p =>
    have hfinalized := PaymentService.finalize_finalized hfinal
    rw [if_pos (hcommits.mp hfinalized.commits)]
    exact seen_of_finalized hfinalized

theorem events_applyResult {e : WebhookEvent} (he : e ∈ (applyResult job db x).webhookEvents) :
    e ∈ db.webhookEvents ∨ e.id = x.fresh.newId 0 := by
  unfold applyResult at he
  cases hfinal : PaymentService.finalize db x.now x.fresh job x.result with
  | error _ =>
    rw [hfinal] at he
    exact .inl he
  | ok p =>
    rw [hfinal] at he
    change e ∈ p.1.webhookEvents at he
    rw [(PaymentService.finalize_finalized hfinal).events, List.mem_append] at he
    rcases he with he | he
    · exact .inl he
    · obtain ⟨t, -, rfl⟩ := List.mem_map.mp he
      exact .inr rfl

theorem FreshDraws.tail (h : FreshDraws db (x :: xs)) : FreshDraws (applyResult job db x) xs := by
  obtain ⟨hnew, hdistinct⟩ := List.nodup_cons.mp h.distinct
  refine ⟨hdistinct, fun y hy e he => ?_⟩
  rcases events_applyResult he with he | he
  · exact h.unused y (List.mem_cons_of_mem _ hy) e he
  · rw [he]
    intro heq
    refine hnew (List.mem_map.mpr ⟨y, hy, ?_⟩)
    exact heq.symm

/-- The list acts on what is seen, result by result. -/
theorem seen_applyAll (h : FreshDraws db xs) :
    Seen.ofDb (applyAll job db xs) =
      (xs.map Application.result).foldl (Seen.apply job) (Seen.ofDb db) := by
  induction xs generalizing db with
  | nil => rfl
  | cons x xs ih =>
    have hrest : Seen.ofDb (applyAll job (applyResult job db x) xs) = _ := ih h.tail
    rw [seen_applyResult (h.unused x List.mem_cons_self)] at hrest
    exact hrest

/-- Of results that agree, one counts. -/
theorem foldl_apply {d : PspResult} {rs : List PspResult}
    (h : ∀ r ∈ rs, r.isDefinite = true → r = d) (v : Seen) :
    rs.foldl (Seen.apply job) v = if rs.any PspResult.isDefinite then v.apply job d else v := by
  have hrepeat : ∀ w : Seen, (w.apply job d).apply job d = w.apply job d := by
    intro w
    unfold Seen.apply
    split
    · exact Seen.settle_settle job d w
    · rfl
  induction rs generalizing v with
  | nil => rfl
  | cons r rs ih =>
    rw [List.foldl_cons, List.any_cons, ih fun r hr => h r (List.mem_cons_of_mem _ hr)]
    cases hr : r.isDefinite with
    | true =>
      obtain rfl := h r List.mem_cons_self hr
      rw [Bool.true_or, if_pos rfl, hrepeat, ite_self]
    | false =>
      have hunknown : v.apply job r = v := by
        cases r with
        | unknown reason => rfl
        | succeeded pspRef => cases hr
        | declined code => cases hr
      rw [hunknown, Bool.false_or]

/-- What a list of results leads to. -/
structure Confluent (job : Job) (db : Db) (xs : List Application) : Prop where
  /-- The same as its definite result alone. -/
  once : ∀ x ∈ xs, x.result.isDefinite = true → ∀ y : Application, y.result = x.result →
    FreshDraws db [y] → Seen.ofDb (applyAll job db xs) = Seen.ofDb (applyResult job db y)
  /-- Nothing, if there is none. -/
  unknown : (∀ x ∈ xs, x.result.isDefinite = false) →
    Seen.ofDb (applyAll job db xs) = Seen.ofDb db
  /-- The same as any other list with the same definite result. -/
  same : ∀ ys, FreshDraws db ys → (∀ d : PspResult, d.isDefinite = true →
      ((∃ x ∈ xs, x.result = d) ↔ ∃ y ∈ ys, y.result = d)) →
    Seen.ofDb (applyAll job db xs) = Seen.ofDb (applyAll job db ys)

/-- Results whose definite ones are all equal lead to what one of them leads to, in whatever order
they come and however often. -/
theorem finalization_confluent (hfresh : FreshDraws db xs)
    (hone : ∀ x ∈ xs, ∀ y ∈ xs, x.result.isDefinite = true → y.result.isDefinite = true →
      x.result = y.result) : Confluent job db xs := by
  have hunknown : ∀ {zs : List Application}, FreshDraws db zs →
      (∀ z ∈ zs, z.result.isDefinite = false) →
      Seen.ofDb (applyAll job db zs) = Seen.ofDb db := by
    intro zs hzs hall
    have hnone : (zs.map Application.result).any PspResult.isDefinite = false := by
      rw [List.any_map, List.any_eq_false]
      exact fun z hz => by simp [hall z hz]
    rw [seen_applyAll hzs, foldl_apply (d := .unknown .pspNetworkError), hnone,
      if_neg Bool.false_ne_true]
    intro r hr hdef
    obtain ⟨z, hz, rfl⟩ := List.mem_map.mp hr
    rw [hall z hz] at hdef
    cases hdef
  have hdefinite : ∀ {zs : List Application} {d : PspResult}, FreshDraws db zs →
      (∀ z ∈ zs, z.result.isDefinite = true → z.result = d) →
      (∃ z ∈ zs, z.result.isDefinite = true) →
      Seen.ofDb (applyAll job db zs) = (Seen.ofDb db).apply job d := by
    rintro zs d hzs hall ⟨z, hz, hdef⟩
    have hsome : (zs.map Application.result).any PspResult.isDefinite = true := by
      rw [List.any_map, List.any_eq_true]
      exact ⟨z, hz, hdef⟩
    rw [seen_applyAll hzs, foldl_apply (d := d), hsome, if_pos rfl]
    intro r hr hdef
    obtain ⟨z, hz, rfl⟩ := List.mem_map.mp hr
    exact hall z hz hdef
  refine ⟨?_, hunknown hfresh, ?_⟩
  · intro x hx hdef y hy hfresh'
    rw [hdefinite hfresh (fun z hz hz' => hone z hz x hx hz' hdef) ⟨x, hx, hdef⟩,
      seen_applyResult (hfresh'.unused y List.mem_cons_self), hy]
  · intro ys hys hboth
    by_cases hsome : ∃ x ∈ xs, x.result.isDefinite = true
    · obtain ⟨x, hx, hdef⟩ := hsome
      obtain ⟨y, hy, hyx⟩ := (hboth x.result hdef).mp ⟨x, hx, rfl⟩
      have hys' : ∀ z ∈ ys, z.result.isDefinite = true → z.result = x.result := by
        intro z hz hz'
        obtain ⟨w, hw, hwz⟩ := (hboth z.result hz').mpr ⟨z, hz, rfl⟩
        rw [← hwz]
        exact hone w hw x hx (by rw [hwz]; exact hz') hdef
      rw [hdefinite hfresh (fun z hz hz' => hone z hz x hx hz' hdef) ⟨x, hx, hdef⟩,
        hdefinite hys hys' ⟨y, hy, by rw [hyx]; exact hdef⟩]
    · have hnone : ∀ x ∈ xs, x.result.isDefinite = false := by
        intro x hx
        by_contra hdef
        exact hsome ⟨x, hx, by simpa using hdef⟩
      have hnone' : ∀ y ∈ ys, y.result.isDefinite = false := by
        intro y hy
        by_contra hdef
        have hdef' : y.result.isDefinite = true := by simpa using hdef
        obtain ⟨x, hx, hxy⟩ := (hboth y.result hdef').mpr ⟨y, hy, rfl⟩
        exact hsome ⟨x, hx, by rw [hxy]; exact hdef'⟩
      rw [hunknown hfresh hnone, hunknown hys hnone']

/-! ## A success among timeouts -/

/-- A timeout, the success, a timeout and the success again. -/
def lateResults : List Application :=
  [{ now := 1, fresh := shopFresh 60, result := .unknown .pspTimeout },
   { now := 2, fresh := shopFresh 61, result := .succeeded "psp_1" },
   { now := 3, fresh := shopFresh 62, result := .unknown .pspTimeout },
   { now := 4, fresh := shopFresh 63, result := .succeeded "psp_1" }]

theorem finalization_confluent_lateResults :
    ∃ s, (definiteSystem shopSha256).run shop begunRun = some s ∧ shopJob ∈ s.db.jobs ∧
      Confluent shopJob s.db lateResults ∧
      ((applyAll shopJob s.db lateResults).invoices.map fun i => (i.state, i.version)) =
        [(.paid, 2)] := by
  have hrun : ((definiteSystem shopSha256).run shop begunRun).any (fun s =>
      decide (shopJob ∈ s.db.jobs) &&
        decide ((lateResults.map fun x => x.fresh.newId 0).Nodup) &&
        decide (∀ x ∈ lateResults, ∀ e ∈ s.db.webhookEvents, e.id ≠ x.fresh.newId 0) &&
        decide (((applyAll shopJob s.db lateResults).invoices.map fun i => (i.state, i.version)) =
          [(.paid, 2)])) = true := by decide +kernel
  obtain ⟨s, hs, hcheck⟩ := (Option.any_eq_true _ _).mp hrun
  simp only [Bool.and_eq_true, decide_eq_true_eq] at hcheck
  obtain ⟨⟨⟨hjob, hdistinct⟩, hunused⟩, hpaid⟩ := hcheck
  have hone : ∀ x ∈ lateResults, ∀ y ∈ lateResults, x.result.isDefinite = true →
      y.result.isDefinite = true → x.result = y.result := by decide +kernel
  exact ⟨s, hs, hjob, finalization_confluent ⟨hdistinct, hunused⟩ hone, hpaid⟩

end Payments

end InvoicePayment
