import InvoicePayment.Services.PaymentService

/-!
# The payment reconciler

The lease of `tick`. `ORDER BY .. LIMIT 20` leaves the choice among equal `next_poll_at` to
the database, and `SKIP LOCKED` skips the rows another transaction holds, so the batch is an
argument and `isBatch` says when the query may return it.
-/

namespace InvoicePayment.Reconciler

/-- `BATCH`. -/
def batchSize : ℕ := 20

/-- `status = 'pending' AND (next_poll_at IS NULL OR next_poll_at <= now())`. -/
def isDue (now : Timestamp) (a : PaymentAttempt) : Bool :=
  a.status = .pending && (match a.nextPollAt with
    | none => true
    | some t => t ≤ now)

/-- `ORDER BY next_poll_at NULLS FIRST`. -/
def pollBefore (a b : PaymentAttempt) : Bool :=
  match a.nextPollAt, b.nextPollAt with
  | none, _ => true
  | some _, none => false
  | some s, some t => s ≤ t

/-- `ids` is a batch the subquery may select. -/
def isBatch (db : Db) (now : Timestamp) (locked ids : List Uuid) : Bool :=
  Table.isBatch PaymentAttempt.id (isDue now) pollBefore batchSize db.paymentAttempts locked ids

/-- Push `next_poll_at` of the batch 30 seconds out and return its rows. -/
def lease (db : Db) (now : Timestamp) (ids : List Uuid) : Db × List Job :=
  ({ db with
    paymentAttempts := Table.update (fun a => ids.contains a.id)
      (fun a => { a with nextPollAt := some (now + seconds 30) }) db.paymentAttempts },
    (Table.withIds PaymentAttempt.id db.paymentAttempts ids).map Job.ofAttempt)

/-- When the jobs of a batch leased at `now` are finalized whose PSP calls take `durations`: one
after another. -/
def finalizeTimes : Timestamp → List Int → List Timestamp
  | _, [] => []
  | now, d :: ds => (now + d) :: finalizeTimes (now + d) ds

end InvoicePayment.Reconciler
