import InvoicePayment.Services.PaymentService

/-!
# The payment flow — one specification per function

* the bytes a fingerprint hashes determine the request (`fingerprintInput_injective`);
* the columns no `UPDATE` of the flow touches: a `Job` per attempt, a `KeyLink` per key, a
  `Bill` per invoice;
* what `claim` commits (`claim_claimed`) and when it falls back to a replay;
* what `finalize` commits for each PSP result.
-/

namespace InvoicePayment

/-! ## The columns that never change -/

/-- What an idempotency key keeps from the moment transaction 1 commits it. -/
structure KeyLink where
  businessId : Uuid
  idempotencyKey : String
  requestFingerprint : List UInt8
  attemptId : Option Uuid

def KeyLink.ofKey (k : IdempotencyKey) : KeyLink :=
  { businessId := k.businessId
    idempotencyKey := k.idempotencyKey
    requestFingerprint := k.requestFingerprint
    attemptId := k.attemptId }

/-- What an invoice keeps from the moment it is created. -/
structure Bill where
  id : Uuid
  businessId : Uuid
  totalCents : Int64

def Bill.ofInvoice (i : Invoice) : Bill :=
  { id := i.id, businessId := i.businessId, totalCents := i.totalCents.cents }

namespace Db

def jobs (db : Db) : List Job := db.paymentAttempts.map Job.ofAttempt

def links (db : Db) : List KeyLink := db.idempotencyKeys.map KeyLink.ofKey

def bills (db : Db) : List Bill := db.invoices.map Bill.ofInvoice

end Db

namespace PaymentService

/-! ## The fingerprint -/

@[simp] theorem length_toLeBytes (n : Int64) : (toLeBytes n).length = 8 := by simp [toLeBytes]

theorem toLeBytes_injective {m n : Int64} (h : toLeBytes m = toLeBytes n) : m = n := by
  have hbound : ∀ x : Int64, x.toBitVec.toNat < 256 ^ 8 := by
    intro x
    have := x.toBitVec.isLt
    norm_num at this ⊢
    exact this
  have hnat := Bytes.leBytes_injective (hbound m) (hbound n) h
  exact Int64.toBitVec.inj (BitVec.eq_of_toNat_eq hnat)

/-- The bytes before the token are sixteen and a separator, those after it a separator and
eight, so a token that itself contains NUL bytes cannot be confused with them. -/
theorem fingerprintInput_injective {i i' : Uuid} {token token' : String} {n n' : Int64}
    (h : fingerprintInput i token n = fingerprintInput i' token' n') :
    i = i' ∧ token = token' ∧ n = n' := by
  unfold fingerprintInput at h
  obtain ⟨hfront, hamount⟩ := List.append_inj' h (by simp)
  obtain ⟨hfront, -⟩ := List.append_inj' hfront rfl
  obtain ⟨hid, htoken⟩ := List.append_inj hfront (by simp)
  obtain ⟨hid, -⟩ := List.append_inj' hid rfl
  refine ⟨Uuid.asBytes_injective hid, ?_, toLeBytes_injective hamount⟩
  apply String.toByteArray_inj.mp
  exact ByteArray.ext (Array.toList_inj.mp htoken)

theorem fingerprint_injective {sha256 : List UInt8 → List UInt8}
    (hsha : Function.Injective sha256) {i i' : Uuid} {token token' : String} {n n' : Int64}
    (h : fingerprint sha256 i token n = fingerprint sha256 i' token' n') :
    i = i' ∧ token = token' ∧ n = n' := fingerprintInput_injective (hsha h)

/-! ## Transaction 1 -/

/-- The row of a key as transaction 1 commits it. -/
def newKey (id : Uuid) (requestFingerprint : List UInt8) (job : Job) : IdempotencyKey :=
  { id
    businessId := job.businessId
    idempotencyKey := job.idempotencyKey
    requestFingerprint
    attemptId := some job.attemptId }

/-- What `claim` has checked when it commits, and what it commits. -/
structure Claimed (db : Db) (fresh : Fresh) (requestFingerprint : List UInt8)
    (invoiceState : InvoiceState) (job : Job) (db' : Db) : Prop where
  stateOpen : invoiceState = .open
  keyText : isPgText job.idempotencyKey = true
  attemptId : job.attemptId = fresh.newId 1
  freshKey : uqIdempotencyBusinessKey.conflicts db.idempotencyKeys
    (newKey (fresh.newId 0) requestFingerprint job) = false
  freshId : (primaryKey PaymentAttempt.id).conflicts db.paymentAttempts (newAttempt job) = false
  noActive : uqActiveAttemptPerInvoice.conflicts db.paymentAttempts (newAttempt job) = false
  post : db' = { db with
    paymentAttempts := db.paymentAttempts ++ [newAttempt job]
    idempotencyKeys := db.idempotencyKeys ++ [newKey (fresh.newId 0) requestFingerprint job] }

theorem insertKey_eq_some {db db₁ : Db} {id businessId : Uuid} {key : String} {fp : List UInt8}
    (h : insertKey db id businessId key fp = .ok (some db₁)) :
    isPgText key = true ∧ uqIdempotencyBusinessKey.conflicts db.idempotencyKeys
      { id, businessId, idempotencyKey := key, requestFingerprint := fp } = false ∧
    db₁ = { db with idempotencyKeys := db.idempotencyKeys ++
      [{ id, businessId, idempotencyKey := key, requestFingerprint := fp }] } := by
  unfold insertKey at h
  dsimp only at h
  split_ifs at h with htext hkey hid
  · cases h
  · simp only [Except.ok.injEq, Option.some.injEq] at h
    exact ⟨by simpa using htext, by simpa using hkey, h.symm⟩

theorem insertAttempt_eq_ok {db db₂ : Db} {job : Job} (h : insertAttempt db job = .ok db₂) :
    (primaryKey PaymentAttempt.id).conflicts db.paymentAttempts (newAttempt job) = false ∧
    uqActiveAttemptPerInvoice.conflicts db.paymentAttempts (newAttempt job) = false ∧
    db₂ = { db with paymentAttempts := db.paymentAttempts ++ [newAttempt job] } := by
  unfold insertAttempt at h
  split_ifs at h with hcheck hunique
  rw [not_or, Bool.not_eq_true, Bool.not_eq_true] at hunique
  exact ⟨hunique.1, hunique.2, (Except.ok.inj h).symm⟩

/-- No row of the table has the key a fresh row does not conflict with. -/
theorem isKey_eq_false_of_fresh {keys : List IdempotencyKey} {row : IdempotencyKey}
    (h : uqIdempotencyBusinessKey.conflicts keys row = false) {k : IdempotencyKey} (hk : k ∈ keys) :
    isKey row.businessId row.idempotencyKey k = false := by
  by_contra hkey
  simp only [isKey, Bool.not_eq_false, Bool.and_eq_true, decide_eq_true_eq] at hkey
  exact Table.UniqueIndex.ne_of_not_conflicts h rfl hk rfl (Prod.ext hkey.1 hkey.2)

theorem claim_claimed {sha256 : List UInt8 → List UInt8} {db db' : Db} {fresh : Fresh}
    {businessId invoiceId : Uuid} {key : String} {req : PayRequest} {state : InvoiceState}
    {amount : Int64} {job : Job}
    (h : claim sha256 db fresh businessId invoiceId key req state amount = .claimed db' job) :
    (job.invoiceId = invoiceId ∧ job.businessId = businessId ∧ job.idempotencyKey = key ∧
      job.amountCents = amount ∧ job.cardToken = req.cardToken) ∧
    Claimed db fresh (fingerprint sha256 invoiceId req.cardToken amount) state job db' := by
  unfold claim at h
  split at h
  · cases h
  · cases h
  rename_i db₁ hinsert
  obtain ⟨htext, hfresh, rfl⟩ := insertKey_eq_some hinsert
  split_ifs at h with hopen
  dsimp only at h
  split at h
  · cases h
  rename_i db₂ hattempt
  obtain ⟨hid, hactive, rfl⟩ := insertAttempt_eq_ok hattempt
  simp only [Claim.claimed.injEq] at h
  obtain ⟨hdb, hjob⟩ := h
  subst hjob
  refine ⟨⟨rfl, rfl, rfl, rfl, rfl⟩, ⟨not_not.mp hopen, htext, rfl, hfresh, hid, hactive, ?_⟩⟩
  subst hdb
  -- the link touches the new row only
  have hold : Table.update (isKey businessId key)
      (fun k => { k with attemptId := some (fresh.newId 1) }) db.idempotencyKeys
      = db.idempotencyKeys :=
    Table.update_eq_self fun k hk => isKey_eq_false_of_fresh hfresh hk
  simp only [linkKey, Table.update_append, hold, newKey]
  simp [Table.update, isKey]

/-- `claim` falls back to a replay only if the key is there. -/
theorem exists_key_of_claim_replay {sha256 : List UInt8 → List UInt8} {db : Db} {fresh : Fresh}
    {businessId invoiceId : Uuid} {key : String} {req : PayRequest} {state : InvoiceState}
    {amount : Int64}
    (h : claim sha256 db fresh businessId invoiceId key req state amount = .replay) :
    ∃ k ∈ db.idempotencyKeys, isKey businessId key k = true := by
  unfold claim at h
  split at h
  · cases h
  · rename_i hinsert
    unfold insertKey at hinsert
    dsimp only at hinsert
    split_ifs at hinsert with htext hkey hid
    · simp only [Table.UniqueIndex.conflicts, uqIdempotencyBusinessKey, Bool.true_and,
        List.any_eq_true, decide_eq_true_eq, Prod.mk.injEq] at hkey
      obtain ⟨k, hk, hkb, hkk⟩ := hkey
      exact ⟨k, hk, by simp [isKey, hkb, hkk]⟩
    · cases hinsert
  · split_ifs at h
    dsimp only at h
    split at h <;> cases h

/-- A key that is there sends `claim` to the replay, whatever state the invoice is in. -/
theorem claim_eq_replay {sha256 : List UInt8 → List UInt8} {db : Db} {fresh : Fresh}
    {businessId invoiceId : Uuid} {key : String} {req : PayRequest} {state : InvoiceState}
    {amount : Int64} {k : IdempotencyKey} (hk : k ∈ db.idempotencyKeys)
    (hkey : isKey businessId key k = true) (htext : isPgText key = true) :
    claim sha256 db fresh businessId invoiceId key req state amount = .replay := by
  have hconflict : ∀ row : IdempotencyKey, row.businessId = businessId →
      row.idempotencyKey = key →
      uqIdempotencyBusinessKey.conflicts db.idempotencyKeys row = true := by
    intro row hb hrow
    simp only [isKey, Bool.and_eq_true, decide_eq_true_eq] at hkey
    simp only [Table.UniqueIndex.conflicts, uqIdempotencyBusinessKey, Bool.true_and,
      List.any_eq_true, decide_eq_true_eq, Prod.mk.injEq]
    exact ⟨k, hk, hkey.1.trans hb.symm, hkey.2.trans hrow.symm⟩
  have hinsert : insertKey db (fresh.newId 0) businessId key
      (fingerprint sha256 invoiceId req.cardToken amount) = .ok none := by
    unfold insertKey
    rw [if_neg (not_not.mpr htext)]
    exact if_pos (hconflict _ rfl rfl)
  rw [claim, hinsert]

/-! ## Transaction 2 -/

/-- What transaction 2 makes of a pending attempt. -/
def settle (now : Timestamp) : PspResult → PaymentAttempt → PaymentAttempt
  | .succeeded pspRef, a => { a with status := .succeeded, pspRef := some pspRef }
  | .declined code, a => { a with status := .failed, failureCode := some code }
  | .unknown reason, a =>
    { a with
      lastError := some reason.asStr
      attemptCount := a.attemptCount + 1
      nextPollAt := some (now + seconds 5) }

/-- The answer transaction 2 leads to. -/
def answer (job : Job) : PspResult → PayOutcome
  | .succeeded pspRef => (.ok, succeededResponse job pspRef)
  | .declined code => (.paymentRequired, declinedResponse job code)
  | .unknown _ => (.accepted, unknownResponse job)

/-- The event type transaction 2 records. -/
def eventType : PspResult → Option EventType
  | .succeeded _ => some .invoicePaid
  | .declined _ => some .invoicePaymentFailed
  | .unknown _ => none

/-- A key as transaction 2 completes it. -/
def completedKey (o : PayOutcome) (k : IdempotencyKey) : IdempotencyKey :=
  { k with
    status := .completed
    responseStatus := some o.1.code
    responseBody := some o.2.toJson }

/-- The event a definite outcome records. -/
def paymentEvent (now : Timestamp) (fresh : Fresh) (job : Job) (eventType : EventType)
    (resp : PaymentAttemptResponse) : WebhookEvent :=
  { id := fresh.newId 0
    businessId := job.businessId
    eventType
    aggregateId := job.invoiceId
    payload := paymentPayload job.invoiceId resp job.amountCents
    sequence := fresh.sequence
    createdAt := now }

/-- The text of a result goes into the attempt's row, and the id of its event is unused: what
transaction 2 needs to commit. -/
def Commits (db : Db) (fresh : Fresh) : PspResult → Prop
  | .succeeded text => isPgText text = true ∧ ∀ e ∈ db.webhookEvents, e.id ≠ fresh.newId 0
  | .declined text => isPgText text = true ∧ ∀ e ∈ db.webhookEvents, e.id ≠ fresh.newId 0
  | .unknown _ => True

/-- What `finalize` has committed. -/
structure Finalized (db : Db) (now : Timestamp) (fresh : Fresh) (job : Job) (result : PspResult)
    (db' : Db) (o : PayOutcome) : Prop where
  commits : Commits db fresh result
  answered : o = answer job result
  attempts : db'.paymentAttempts =
    Table.update (isPending job.attemptId) (settle now result) db.paymentAttempts
  invoices : db'.invoices =
    if eventType result = some .invoicePaid then (markPaid db now job.invoiceId).invoices
    else db.invoices
  keys : db'.idempotencyKeys =
    if (eventType result).isSome then
      Table.update (isKey job.businessId job.idempotencyKey) (completedKey o) db.idempotencyKeys
    else db.idempotencyKeys
  events : db'.webhookEvents = db.webhookEvents ++
    (eventType result).toList.map fun t => paymentEvent now fresh job t o.2
  rest : db' = { db with
    paymentAttempts := db'.paymentAttempts
    invoices := db'.invoices
    idempotencyKeys := db'.idempotencyKeys
    webhookEvents := db'.webhookEvents }

theorem emit_eq_ok {db db' : Db} {now : Timestamp} {fresh : Fresh} {businessId : Uuid}
    {eventType : EventType} {invoiceId : Uuid} {resp : PaymentAttemptResponse} {amount : Int64}
    (h : emit db now fresh businessId eventType invoiceId resp amount = .ok db') :
    (∀ e ∈ db.webhookEvents, e.id ≠ fresh.newId 0) ∧
    db' = { db with
      webhookEvents := db.webhookEvents ++
        [{ id := fresh.newId 0, businessId, eventType, aggregateId := invoiceId
           payload := paymentPayload invoiceId resp amount
           sequence := fresh.sequence, createdAt := now }] } :=
  WebhookService.emitEvent_eq_ok h

theorem commitOutcome_eq_ok {db db' : Db} {now : Timestamp} {fresh : Fresh} {job : Job}
    {eventType : EventType} {status : StatusCode} {resp : PaymentAttemptResponse}
    {out : PayOutcome}
    (h : commitOutcome db now fresh job eventType status resp = .ok (db', out)) :
    (∀ e ∈ db.webhookEvents, e.id ≠ fresh.newId 0) ∧ out = (status, resp) ∧
    db' = completeKey { db with
      webhookEvents := db.webhookEvents ++ [paymentEvent now fresh job eventType resp] }
      job.businessId job.idempotencyKey status resp := by
  unfold commitOutcome at h
  split at h
  · cases h
  rename_i db₁ hemit
  obtain ⟨hid, rfl⟩ := emit_eq_ok hemit
  simp only [Except.ok.injEq, Prod.mk.injEq] at h
  exact ⟨hid, h.2.symm, h.1.symm⟩

/-- The specification of transaction 2. -/
theorem finalize_finalized {db db' : Db} {now : Timestamp} {fresh : Fresh} {job : Job}
    {result : PspResult} {o : PayOutcome} (h : finalize db now fresh job result = .ok (db', o)) :
    Finalized db now fresh job result db' o := by
  cases result with
  | succeeded pspRef =>
    unfold finalize at h
    dsimp only at h
    split_ifs at h with htext
    obtain ⟨hid, rfl, rfl⟩ := commitOutcome_eq_ok h
    exact ⟨⟨htext, hid⟩, rfl, rfl, rfl, rfl, rfl, rfl⟩
  | declined code =>
    unfold finalize at h
    dsimp only at h
    split_ifs at h with htext
    obtain ⟨hid, rfl, rfl⟩ := commitOutcome_eq_ok h
    exact ⟨⟨htext, hid⟩, rfl, rfl, rfl, rfl, rfl, rfl⟩
  | unknown reason =>
    simp only [finalize, Except.ok.injEq, Prod.mk.injEq] at h
    obtain ⟨rfl, rfl⟩ := h
    exact ⟨trivial, rfl, rfl, rfl, rfl, by simp [eventType, markUnknown], rfl⟩

theorem exists_emit {db : Db} {now : Timestamp} {fresh : Fresh} {businessId : Uuid}
    {eventType : EventType} {invoiceId : Uuid} {resp : PaymentAttemptResponse} {amount : Int64}
    (h : ∀ e ∈ db.webhookEvents, e.id ≠ fresh.newId 0) :
    ∃ db', emit db now fresh businessId eventType invoiceId resp amount = .ok db' := by
  unfold emit WebhookService.emitEvent
  dsimp only
  rw [if_neg]
  · exact ⟨_, rfl⟩
  · simp only [Table.UniqueIndex.conflicts, primaryKey, Bool.true_and, List.any_eq_true,
      not_exists, not_and]
    intro e he hid
    exact h e he (of_decide_eq_true hid)

theorem exists_commitOutcome {db : Db} {now : Timestamp} {fresh : Fresh} {job : Job}
    {eventType : EventType} {status : StatusCode} {resp : PaymentAttemptResponse}
    (h : ∀ e ∈ db.webhookEvents, e.id ≠ fresh.newId 0) :
    ∃ p, commitOutcome db now fresh job eventType status resp = .ok p := by
  unfold commitOutcome
  obtain ⟨db', hemit⟩ : ∃ db', emit db now fresh job.businessId eventType job.invoiceId resp
      job.amountCents = .ok db' := exists_emit h
  rw [hemit]
  exact ⟨_, rfl⟩

/-- Transaction 2 commits as soon as `Commits` holds. -/
theorem exists_finalize {db : Db} {now : Timestamp} {fresh : Fresh} {job : Job}
    {result : PspResult} (h : Commits db fresh result) :
    ∃ p, finalize db now fresh job result = .ok p := by
  cases result with
  | succeeded pspRef =>
    unfold finalize
    dsimp only
    rw [if_neg (not_not.mpr h.1)]
    exact exists_commitOutcome h.2
  | declined code =>
    unfold finalize
    dsimp only
    rw [if_neg (not_not.mpr h.1)]
    exact exists_commitOutcome h.2
  | unknown reason => exact ⟨_, rfl⟩

/-! ## Frame conditions -/

theorem ofAttempt_settle (now : Timestamp) (result : PspResult) (a : PaymentAttempt) :
    Job.ofAttempt (settle now result a) = Job.ofAttempt a := by cases result <;> rfl

/-- A finalization changes no job, no link and no bill. -/
theorem Finalized.static {db db' : Db} {now : Timestamp} {fresh : Fresh} {job : Job}
    {result : PspResult} {o : PayOutcome} (h : Finalized db now fresh job result db' o) :
    db'.jobs = db.jobs ∧ db'.links = db.links ∧ db'.bills = db.bills := by
  refine ⟨?_, ?_, ?_⟩
  · unfold Db.jobs
    rw [h.attempts]
    exact Table.map_update Job.ofAttempt fun a _ _ => ofAttempt_settle now result a
  · unfold Db.links
    rw [h.keys]
    split_ifs
    · exact Table.map_update KeyLink.ofKey fun _ _ _ => rfl
    · rfl
  · unfold Db.bills
    rw [h.invoices]
    split_ifs
    · exact Table.map_update Bill.ofInvoice fun _ _ _ => rfl
    · rfl

end PaymentService

end InvoicePayment
