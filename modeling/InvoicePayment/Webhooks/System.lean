import InvoicePayment.Lib.TransitionSystem
import InvoicePayment.Webhooks.Dispatcher

/-!
# The webhook system

Any number of dispatchers around one database. A worker is one `deliver_batch`: it claims,
hydrates and then sends its deliveries concurrently, so its sends end and their outcomes are
written in any order; which of the sixteen slots a send gets plays no part. Events, endpoints
and manual replays come from outside, the clock moves on, and a worker may crash before any of
its steps.

Worker ids are not reused. `claimedBy` is kept beside the tables so that properties can speak
about the latest claim of a row.
-/

namespace InvoicePayment.Webhooks

/-! ## Workers -/

/-- One `deliver_batch`. -/
abbrev WorkerId := ℕ

/-- A delivery being sent, with what came of the send. -/
structure Task where
  work : Dispatcher.Work
  result : Option Dispatcher.SendResult := none

/-- Where a worker is: between its claim and the hydrating query, or sending. -/
inductive Worker where
  | claimed (ids : List Uuid)
  | sending (tasks : List Task)
  | crashed

/-- The deliveries a worker has claimed and written no outcome for. -/
def Worker.held : Worker → List Uuid
  | .claimed ids => ids
  | .sending tasks => tasks.map fun t => t.work.deliveryId
  | .crashed => []

/-! ## States and labels -/

structure State where
  now : Timestamp
  db : Db
  workers : WorkerId → Option Worker := fun _ => none
  claimedBy : Uuid → Option WorkerId := fun _ => none

/-- What happens next. -/
inductive Label where
  /-- The clock moves on. -/
  | advance (now : Timestamp)
  /-- A receiver is registered. -/
  | register (businessId : Uuid) (req : CreateEndpointRequest) (id : Uuid) (secret : List UInt8)
  /-- A transaction that emits an event commits. -/
  | emit (businessId : Uuid) (eventType : EventType) (aggregateId : Uuid) (payload : JsonValue)
      (fresh : Fresh)
  /-- A dispatcher fans events out. -/
  | fanOut (fresh : Fresh)
  /-- A dispatcher claims a batch. -/
  | claim (w : WorkerId) (locked ids : List Uuid)
  /-- The worker reads what it has claimed. -/
  | hydrate (w : WorkerId)
  /-- The worker's `i`-th send ends. -/
  | respond (w : WorkerId) (i : ℕ) (result : Dispatcher.SendResult)
  /-- The worker writes the outcome of its `i`-th send. -/
  | write (w : WorkerId) (i : ℕ) (delay : ℕ)
  /-- The hydrating query, or the write of the `i`-th outcome, fails in the database. -/
  | dbError (w : WorkerId) (i : ℕ)
  /-- The worker's process dies. -/
  | crash (w : WorkerId)
  /-- A delivery is replayed by hand. -/
  | redeliver (businessId deliveryId : Uuid)

namespace State

def setWorker (s : State) (w : WorkerId) (W : Worker) : State :=
  { s with workers := fun v => if v = w then some W else s.workers v }

def setDb (s : State) (db : Db) : State := { s with db }

/-- The rows `ids` are claimed by `w`, or by nobody any more. -/
def setClaim (s : State) (ids : List Uuid) (w : Option WorkerId) : State :=
  { s with claimedBy := fun id => if ids.contains id then w else s.claimedBy id }

end State

/-! ## Steps -/

/-- Claim a batch under an unused worker id; an empty one ends the worker. -/
def claimStep (s : State) (w : WorkerId) (locked ids : List Uuid) : Option State :=
  match s.workers w with
  | some _ => none
  | none =>
    if Dispatcher.isBatch s.db s.now locked ids then
      match Dispatcher.claim s.db s.now ids with
      | .error _ => none
      | .ok db =>
        some (((s.setDb db).setClaim ids (some w)).setWorker w
          (if ids = [] then .sending [] else .claimed ids))
    else none

/-- A send ends. -/
def respondStep (s : State) (w : WorkerId) (i : ℕ) (result : Dispatcher.SendResult) :
    Option State :=
  match s.workers w with
  | some (.sending tasks) =>
    match tasks[i]? with
    | some { work, result := none } =>
      some (s.setWorker w (.sending (tasks.set i { work, result := some result })))
    | _ => none
  | _ => none

/-- The outcome of a send is written; an error is ignored. -/
def writeStep (maxAttempts : Int) (s : State) (w : WorkerId) (i delay : ℕ) : Option State :=
  match s.workers w with
  | some (.sending tasks) =>
    match tasks[i]? with
    | some { work, result := some result } =>
      if delay ≤ (Dispatcher.backoffCeiling work.attempts).toNat then
        match Dispatcher.sendOne s.db s.now maxAttempts work result delay with
        | .error _ => some (s.setWorker w (.sending (tasks.eraseIdx i)))
        | .ok db => some ((s.setDb db).setWorker w (.sending (tasks.eraseIdx i)))
      else none
    | _ => none
  | _ => none

/-- A query fails: a worker that cannot hydrate is done, a write is given up. -/
def dbErrorStep (s : State) (w : WorkerId) (i : ℕ) : Option State :=
  match s.workers w with
  | some (.claimed _) => some (s.setWorker w (.sending []))
  | some (.sending tasks) =>
    match tasks[i]? with
    | some { work := _, result := some _ } =>
      some (s.setWorker w (.sending (tasks.eraseIdx i)))
    | _ => none
  | _ => none

def step (maxAttempts : Int) (s : State) : Label → Option State
  | .advance now => if s.now ≤ now then some { s with now } else none
  | .register businessId req id secret =>
    match WebhookService.registerEndpoint s.db s.now id secret businessId req with
    | .error _ => none
    | .ok (db, _) => some (s.setDb db)
  | .emit businessId eventType aggregateId payload fresh =>
    match WebhookService.emitEvent s.db s.now (fresh.newId 0) fresh.sequence businessId eventType
        aggregateId payload with
    | .error _ => none
    | .ok db => some (s.setDb db)
  | .fanOut fresh =>
    match Dispatcher.fanOut s.db s.now fresh with
    | .error _ => none
    | .ok db => some (s.setDb db)
  | .claim w locked ids => claimStep s w locked ids
  | .hydrate w =>
    match s.workers w with
    | some (.claimed ids) =>
      some (s.setWorker w (.sending ((Dispatcher.hydrate s.db ids).map fun work => { work })))
    | _ => none
  | .respond w i result => respondStep s w i result
  | .write w i delay => writeStep maxAttempts s w i delay
  | .dbError w i => dbErrorStep s w i
  | .crash w =>
    match s.workers w with
    | some (.claimed _) => some (s.setWorker w .crashed)
    | some (.sending (_ :: _)) => some (s.setWorker w .crashed)
    | _ => none
  | .redeliver businessId deliveryId =>
    match WebhookService.redeliver s.db s.now businessId deliveryId with
    | .error _ => none
    | .ok db => some ((s.setDb db).setClaim [deliveryId] none)

/-- No receiver, no event and no worker yet. -/
structure Initial (s : State) : Prop where
  endpoints : s.db.webhookEndpoints = []
  events : s.db.webhookEvents = []
  deliveries : s.db.webhookDeliveries = []
  workers : s.workers = fun _ => none
  claimedBy : s.claimedBy = fun _ => none

theorem Initial.no_worker {s : State} (h : Initial s) {w : WorkerId} {W : Worker}
    (hw : s.workers w = some W) : False := by
  rw [h.workers] at hw
  cases hw

/-- The system under `webhook_max_attempts`. -/
def system (maxAttempts : Int) : TransitionSystem State Label where
  Initial := Initial
  step := step maxAttempts

/-- A step of the webhook system. -/
abbrev Step := TransitionSystem.Transition State Label

/-- A database with no webhook yet. -/
def shop : State := { now := 0, db := {} }

theorem shop_initial : Initial shop := by
  constructor <;> rfl

end InvoicePayment.Webhooks
