import InvoicePayment.Lib.TransitionSystem
import InvoicePayment.Services.InvoiceService
import InvoicePayment.Reconciler
import InvoicePayment.Psp.Policy

/-!
# The payment system

Pay handlers, admin handlers and reconciler ticks around one database and one PSP. Every
transaction and every query outside a transaction is one step; the HTTP call to the PSP is a
step that sends the request, a step in which the PSP serves it and a step in which the worker
stops waiting. Steps of different workers interleave in any order, a worker may crash before
any of its steps, and a request in flight survives the crash of its worker.

Worker ids are not reused, so an id names one call and the state remembers what it answered.
-/

namespace InvoicePayment.Payments

open InvoicePayment.InvoiceService (AdminAction)

/-! ## Workers -/

/-- A worker: one pay call, one admin call or one reconciler tick. -/
abbrev WorkerId := ℕ

/-- The arguments of a pay call. -/
structure PayCall where
  businessId : Uuid
  invoiceId : Uuid
  idempotencyKey : String
  req : PayRequest
deriving DecidableEq

/-- The arguments of an admin call. -/
structure AdminCall where
  businessId : Uuid
  id : Uuid
  action : AdminAction
deriving DecidableEq

/-- Where a worker is with the charge call of its current job. -/
inductive ChargeCall where
  | ready
  | waiting (callId : ℕ)
  | got (result : PspResult)
deriving DecidableEq

/-- Where a pay handler is. -/
inductive PayStage where
  | begun
  | read (state : InvoiceState) (amountCents : Int64)
  | replaying (amountCents : Int64)
  | charging (job : Job) (claimedAt : Timestamp) (call : ChargeCall)
  | done (answer : Except AppError PayOutcome)

/-- Where an admin handler is. -/
inductive AdminStage where
  | begun
  | loaded (current : InvoiceState)
  | done (answer : Except AppError Invoice)

/-- A worker's local state. A tick holds the jobs it has not finalized, the current one first. -/
inductive Worker where
  | pay (call : PayCall) (stage : PayStage)
  | admin (call : AdminCall) (stage : AdminStage)
  | tick (leasedAt : Timestamp) (jobs : List Job) (call : ChargeCall)
  | crashed

/-- A charge request on its way to the PSP. -/
structure InFlight where
  callId : ℕ
  worker : WorkerId
  job : Job

/-! ## States and labels -/

structure State where
  now : Timestamp
  db : Db
  psp : PspState := {}
  workers : WorkerId → Option Worker := fun _ => none
  inFlight : List InFlight := []
  nextCall : ℕ := 0

/-- What happens next. -/
inductive Label (δ : Type) where
  /-- The clock moves on. -/
  | advance (now : Timestamp)
  /-- An invoice is created. -/
  | create (businessId : Uuid) (req : CreateInvoiceRequest) (fresh : Fresh)
  /-- A pay call comes in. -/
  | startPay (w : WorkerId) (call : PayCall)
  /-- An admin call comes in. -/
  | startAdmin (w : WorkerId) (call : AdminCall)
  /-- A reconciler replica leases a batch. -/
  | tick (w : WorkerId) (locked ids : List Uuid)
  /-- The worker takes its own next step. -/
  | work (w : WorkerId) (fresh : Fresh)
  /-- The PSP serves the `i`-th request in flight. -/
  | serve (i : ℕ) (choice : δ)
  /-- The worker's HTTP client gives up on the PSP. -/
  | giveUp (w : WorkerId) (reason : UnknownReason)
  /-- The query or transaction the worker is about to run fails in the database. -/
  | dbError (w : WorkerId)
  /-- The worker's process dies. -/
  | crash (w : WorkerId)

/-- The worker a label is about. -/
def Label.worker {δ : Type} : Label δ → Option WorkerId
  | .startPay w _ => some w
  | .startAdmin w _ => some w
  | .tick w _ _ => some w
  | .work w _ => some w
  | .giveUp w _ => some w
  | .dbError w => some w
  | .crash w => some w
  | _ => none

/-- The two things the system depends on from outside the service. -/
structure Env (δ : Type) where
  sha256 : List UInt8 → List UInt8
  psp : Psp δ

namespace State

def setWorker (s : State) (w : WorkerId) (W : Worker) : State :=
  { s with workers := fun v => if v = w then some W else s.workers v }

def setDb (s : State) (db : Db) : State := { s with db }

/-- Put a request on the wire. -/
def send (s : State) (w : WorkerId) (job : Job) : State :=
  { s with
    inFlight := s.inFlight ++ [{ callId := s.nextCall, worker := w, job }]
    nextCall := s.nextCall + 1 }

end State

/-! ## The worker's own steps -/

variable {δ : Type}

/-- The own steps of a pay handler. -/
def payStep (env : Env δ) (s : State) (w : WorkerId) (call : PayCall) (fresh : Fresh) :
    PayStage → Option State
  | .begun =>
    match PaymentService.readInvoice s.db call.businessId call.invoiceId call.req with
    | .error e => some (s.setWorker w (.pay call (.done (.error e))))
    | .ok (state, amountCents) => some (s.setWorker w (.pay call (.read state amountCents)))
  | .read state amountCents =>
    match PaymentService.claim env.sha256 s.db fresh call.businessId call.invoiceId
        call.idempotencyKey call.req state amountCents with
    | .replay => some (s.setWorker w (.pay call (.replaying amountCents)))
    | .refused e => some (s.setWorker w (.pay call (.done (.error e))))
    | .claimed db job => some ((s.setDb db).setWorker w (.pay call (.charging job s.now .ready)))
  | .replaying amountCents =>
    some (s.setWorker w (.pay call (.done
      (PaymentService.replay s.db call.businessId call.idempotencyKey
        (PaymentService.fingerprint env.sha256 call.invoiceId call.req.cardToken amountCents)
        call.invoiceId))))
  | .charging job claimedAt .ready =>
    some ((s.send w job).setWorker w (.pay call (.charging job claimedAt (.waiting s.nextCall))))
  | .charging _ _ (.waiting _) => none
  | .charging job _ (.got result) =>
    match PaymentService.finalize s.db s.now fresh job result with
    | .error e => some (s.setWorker w (.pay call (.done (.error e))))
    | .ok (db, outcome) => some ((s.setDb db).setWorker w (.pay call (.done (.ok outcome))))
  | .done _ => none

/-- The own steps of an admin handler. -/
def adminStep (s : State) (w : WorkerId) (call : AdminCall) : AdminStage → Option State
  | .begun =>
    match InvoiceService.load s.db call.businessId call.id with
    | .error e => some (s.setWorker w (.admin call (.done (.error e))))
    | .ok invoice =>
      match InvoiceService.check invoice.state call.action.target with
      | .error e => some (s.setWorker w (.admin call (.done (.error e))))
      | .ok () => some (s.setWorker w (.admin call (.loaded invoice.state)))
  | .loaded current =>
    match InvoiceService.apply s.db s.now call.businessId call.id current
        call.action.target with
    | .error e => some (s.setWorker w (.admin call (.done (.error e))))
    | .ok (db, invoice) =>
      some ((s.setDb db).setWorker w (.admin call (.done (.ok invoice))))
  | .done _ => none

/-- The own steps of a tick: charge and finalize the current job, then go on to the next one
whether or not the finalization committed. -/
def tickStep (s : State) (w : WorkerId) (leasedAt : Timestamp) (fresh : Fresh) :
    List Job → ChargeCall → Option State
  | [], _ => none
  | job :: rest, .ready =>
    some ((s.send w job).setWorker w (.tick leasedAt (job :: rest) (.waiting s.nextCall)))
  | _ :: _, .waiting _ => none
  | job :: rest, .got result =>
    match PaymentService.finalize s.db s.now fresh job result with
    | .error _ => some (s.setWorker w (.tick leasedAt rest .ready))
    | .ok (db, _) => some ((s.setDb db).setWorker w (.tick leasedAt rest .ready))

def workerStep (env : Env δ) (s : State) (w : WorkerId) (fresh : Fresh) : Worker → Option State
  | .pay call stage => payStep env s w call fresh stage
  | .admin call stage => adminStep s w call stage
  | .tick leasedAt jobs call => tickStep s w leasedAt fresh jobs call
  | .crashed => none

/-! ## Steps from outside a worker -/

/-- Hand a result to the worker, if it still waits for this call. -/
def Worker.deliver (callId : ℕ) (result : PspResult) : Worker → Worker
  | .pay call (.charging job claimedAt (.waiting c)) =>
    if c = callId then .pay call (.charging job claimedAt (.got result))
    else .pay call (.charging job claimedAt (.waiting c))
  | .tick leasedAt jobs (.waiting c) =>
    if c = callId then .tick leasedAt jobs (.got result) else .tick leasedAt jobs (.waiting c)
  | W => W

/-- The charge call the worker waits for. -/
def Worker.waitsFor : Worker → Option ℕ
  | .pay _ (.charging _ _ (.waiting c)) => some c
  | .tick _ _ (.waiting c) => some c
  | _ => none

/-- What a failed query makes of the worker: a handler answers 500, a tick goes on to its next
job. `none` if the worker is not about to use the database. -/
def Worker.onDbError : Worker → Option Worker
  | .pay _ (.done _) => none
  | .pay _ (.charging _ _ .ready) => none
  | .pay _ (.charging _ _ (.waiting _)) => none
  | .pay call _ => some (.pay call (.done (.error .internal)))
  | .admin _ (.done _) => none
  | .admin call _ => some (.admin call (.done (.error .internal)))
  | .tick leasedAt (_ :: rest) (.got _) => some (.tick leasedAt rest .ready)
  | .tick _ _ _ => none
  | .crashed => none

/-- The worker still has something to do. -/
def Worker.isLive : Worker → Bool
  | .pay _ (.done _) => false
  | .pay _ _ => true
  | .admin _ (.done _) => false
  | .admin _ _ => true
  | .tick _ jobs _ => !jobs.isEmpty
  | .crashed => false

/-- The PSP serves a request: its state changes and the result goes to the worker. -/
def serveStep (env : Env δ) (s : State) (i : ℕ) (choice : δ) : Option State :=
  match s.inFlight[i]? with
  | none => none
  | some m =>
    match env.psp s.psp m.job.attemptId m.job.request choice with
    | none => none
    | some (result, psp) =>
      some { s with
        psp
        inFlight := s.inFlight.eraseIdx i
        workers := fun v =>
          if v = m.worker then (s.workers v).map (Worker.deliver m.callId result)
          else s.workers v }

/-- Start a worker under an unused id. -/
def startStep (s : State) (w : WorkerId) (W : Worker) : Option State :=
  match s.workers w with
  | some _ => none
  | none => some (s.setWorker w W)

def step (env : Env δ) (s : State) : Label δ → Option State
  | .advance now => if s.now ≤ now then some { s with now } else none
  | .create businessId req fresh =>
    match InvoiceService.create s.db s.now businessId req fresh with
    | .error _ => none
    | .ok (db, _) => some (s.setDb db)
  | .startPay w call => startStep s w (.pay call .begun)
  | .startAdmin w call => startStep s w (.admin call .begun)
  | .tick w locked ids =>
    if Reconciler.isBatch s.db s.now locked ids then
      let (db, jobs) := Reconciler.lease s.db s.now ids
      startStep (s.setDb db) w (.tick s.now jobs .ready)
    else none
  | .work w fresh => (s.workers w).bind (workerStep env s w fresh)
  | .serve i choice => serveStep env s i choice
  | .giveUp w reason =>
    match s.workers w with
    | none => none
    | some W => W.waitsFor.map fun callId => s.setWorker w (W.deliver callId (.unknown reason))
  | .dbError w => ((s.workers w).bind Worker.onDbError).map (s.setWorker w)
  | .crash w =>
    match s.workers w with
    | none => none
    | some W => if W.isLive then some (s.setWorker w .crashed) else none

/-- A database no payment has touched yet, and no worker. -/
structure Initial (s : State) : Prop where
  invoices : s.db.invoices = []
  lineItems : s.db.invoiceLineItems = []
  attempts : s.db.paymentAttempts = []
  keys : s.db.idempotencyKeys = []
  events : s.db.webhookEvents = []
  psp : s.psp = {}
  workers : s.workers = fun _ => none
  inFlight : s.inFlight = []

theorem Initial.no_worker {s : State} (h : Initial s) {w : WorkerId} {W : Worker}
    (hw : s.workers w = some W) : False := by
  rw [h.workers] at hw
  cases hw

/-- The system under a hash and a PSP. -/
def system (env : Env δ) : TransitionSystem State (Label δ) where
  Initial := Initial
  step := step env

/-- The system under a PSP that gives one definite outcome per key. -/
abbrev definiteSystem (sha256 : List UInt8 → List UInt8) :
    TransitionSystem State (Label DefiniteChoice) := system { sha256, psp := definitePsp }

/-- The system under the mock PSP, answering its calls one at a time. -/
abbrev mockSystem (sha256 : List UInt8 → List UInt8) : TransitionSystem State (Label String) :=
  system { sha256, psp := mockPsp }

/-- A step of the payment system. -/
abbrev Step (δ : Type) := TransitionSystem.Transition State (Label δ)

/-! ## Two shops to run the system on -/

/-- Business `2` with its customer `1`, and business `3` with its customer `4`. -/
def shop : State :=
  { now := 0
    db :=
      { customers :=
          [{ id := shopId 1, businessId := shopId 2, email := none, name := none, createdAt := 0 },
           { id := shopId 4, businessId := shopId 3, email := none, name := none
             createdAt := 0 }] } }

/-- Worker `w` opens invoice `n` of five dollars for a customer of the business. -/
def openInvoiceOf (businessId customerId : Uuid) (w : WorkerId) (n : ℕ) : List (Label δ) :=
  [.create businessId
      { customerId
        lineItems := [{ description := "item", quantity := 1, unitAmountCents := 500 }] }
      (shopFresh n),
   .startAdmin w { businessId, id := shopId n, action := .finalize },
   .work w (shopFresh 0), .work w (shopFresh 0)]

/-- Worker `0` opens invoice `10` of business `2`. -/
def openInvoice : List (Label δ) := openInvoiceOf (shopId 2) (shopId 1) 0 10

/-- A call that pays invoice `10`. -/
def payCall (key cardToken : String) : PayCall :=
  { businessId := shopId 2, invoiceId := shopId 10, idempotencyKey := key, req := ⟨cardToken⟩ }

/-- A declined call, then a second call still waiting for the PSP. -/
def retryRun : List (Label DefiniteChoice) :=
  openInvoice ++
    [.startPay 1 (payCall "k1" "tok_card_declined"), .work 1 (shopFresh 0),
     .work 1 (shopFresh 20), .work 1 (shopFresh 0),
     .serve 0 ⟨some (.failed "card_declined"), none⟩, .work 1 (shopFresh 30),
     .startPay 2 (payCall "k2" "tok_success"), .work 2 (shopFresh 0), .work 2 (shopFresh 40),
     .work 2 (shopFresh 0)]

/-- The second card is charged. -/
def secondCardRun : List (Label DefiniteChoice) :=
  retryRun ++ [.serve 0 ⟨some (.succeeded "psp_1"), none⟩, .work 2 (shopFresh 50)]

theorem shop_initial : Initial shop := by
  constructor <;> rfl

/-- The SHA-256 digests of the requests the sample runs make. -/
def shopDigests : List (List UInt8 × List UInt8) :=
  [(PaymentService.fingerprintInput (shopId 10) "tok_success" 500,
     [169, 245, 81, 35, 45, 136, 19, 172, 73, 247, 69, 93, 227, 2, 93, 226,
      102, 156, 193, 106, 116, 16, 41, 159, 121, 127, 192, 116, 30, 213, 21, 130]),
   (PaymentService.fingerprintInput (shopId 10) "tok_card_declined" 500,
     [235, 55, 31, 253, 5, 79, 107, 231, 246, 35, 251, 188, 69, 42, 45, 209,
      214, 160, 113, 25, 40, 18, 0, 120, 175, 168, 228, 177, 139, 69, 58, 146]),
   (PaymentService.fingerprintInput (shopId 50) "tok_card_declined" 500,
     [176, 50, 47, 124, 99, 186, 53, 212, 43, 53, 149, 162, 186, 127, 82, 64,
      203, 68, 249, 215, 133, 4, 34, 194, 245, 149, 53, 68, 99, 164, 251, 204]),
   (PaymentService.fingerprintInput (shopId 20) "tok_success" 500,
     [207, 148, 181, 31, 89, 200, 39, 132, 29, 201, 86, 14, 154, 77, 159, 137,
      166, 234, 230, 74, 16, 18, 6, 239, 207, 218, 232, 141, 229, 220, 210, 73]),
   (PaymentService.fingerprintInput (shopId 30) "tok_success" 500,
     [0, 12, 142, 84, 101, 35, 9, 231, 56, 244, 143, 36, 5, 200, 19, 169,
      105, 52, 79, 55, 20, 51, 60, 253, 240, 207, 124, 11, 95, 170, 34, 186]),
   (PaymentService.fingerprintInput (shopId 40) "tok_success" 500,
     [203, 42, 225, 226, 215, 156, 45, 226, 68, 28, 29, 124, 179, 79, 173, 197,
      11, 238, 243, 55, 13, 106, 136, 153, 242, 10, 94, 22, 219, 41, 166, 77]),
   (PaymentService.fingerprintInput (shopId 50) "tok_success" 500,
     [79, 229, 24, 82, 131, 26, 8, 164, 53, 27, 85, 249, 112, 203, 187, 35,
      54, 208, 163, 30, 139, 166, 118, 137, 99, 246, 4, 29, 80, 80, 207, 189]),
   (PaymentService.fingerprintInput (shopId 60) "tok_success" 500,
     [36, 123, 78, 58, 97, 41, 69, 118, 204, 40, 101, 133, 136, 5, 22, 63,
      18, 234, 12, 164, 205, 3, 21, 59, 126, 102, 78, 136, 50, 200, 162, 107])]

/-- SHA-256 on the requests of the sample runs, and an injection elsewhere. -/
def shopSha256 : List UInt8 → List UInt8 := Bytes.tableHash shopDigests

end InvoicePayment.Payments
