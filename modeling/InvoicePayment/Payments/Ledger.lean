import InvoicePayment.Services.InvoiceServiceTheorems

/-!
# The ledger of claimed keys

What the static columns of the three payment tables say about each other: keys and attempts
correspond one to one, and an attempt asks for the total of its invoice. Only transaction 1
and the creation of an invoice touch these columns; `Ledger.claim` and `Ledger.create` say
that both keep the correspondence.
-/

namespace InvoicePayment

open PaymentService (fingerprint newAttempt newKey)

/-- The key `k` was claimed for the attempt of `job`. -/
structure KeyLink.Claims (sha256 : List UInt8 → List UInt8) (k : KeyLink) (job : Job) : Prop where
  businessId : k.businessId = job.businessId
  idempotencyKey : k.idempotencyKey = job.idempotencyKey
  attemptId : k.attemptId = some job.attemptId
  requestFingerprint : k.requestFingerprint =
    fingerprint sha256 job.invoiceId job.cardToken job.amountCents

/-- `(business_id, idempotency_key)`. -/
def KeyLink.pair (k : KeyLink) : Uuid × String := (k.businessId, k.idempotencyKey)

/-- The bill an attempt is to pay. -/
structure Bill.Of (b : Bill) (invoiceId businessId : Uuid) (amountCents : Int64) : Prop where
  id : b.id = invoiceId
  businessId : b.businessId = businessId
  totalCents : b.totalCents = amountCents

/-- What the static columns keep. -/
structure Ledger (sha256 : List UInt8 → List UInt8) (jobs : List Job) (links : List KeyLink)
    (bills : List Bill) : Prop where
  attemptIds : (jobs.map Job.attemptId).Nodup
  keyPairs : (links.map KeyLink.pair).Nodup
  invoiceIds : (bills.map Bill.id).Nodup
  keyText : ∀ k ∈ links, isPgText k.idempotencyKey = true
  keyJob : ∀ k ∈ links, ∃ job ∈ jobs, k.Claims sha256 job
  jobKey : ∀ job ∈ jobs, ∃ k ∈ links, k.Claims sha256 job
  billed : ∀ job ∈ jobs, ∃ b ∈ bills, b.Of job.invoiceId job.businessId job.amountCents

namespace Ledger

variable {sha256 : List UInt8 → List UInt8} {jobs : List Job} {links : List KeyLink}
  {bills : List Bill}

theorem nil : Ledger sha256 [] [] [] := by
  constructor <;> simp

/-! ## Uniqueness -/

theorem job_eq (h : Ledger sha256 jobs links bills) {j j' : Job} (hj : j ∈ jobs) (hj' : j' ∈ jobs)
    (hid : j.attemptId = j'.attemptId) : j = j' :=
  List.inj_on_of_nodup_map h.attemptIds hj hj' hid

theorem link_eq (h : Ledger sha256 jobs links bills) {k k' : KeyLink} (hk : k ∈ links)
    (hk' : k' ∈ links) (hpair : k.pair = k'.pair) : k = k' :=
  List.inj_on_of_nodup_map h.keyPairs hk hk' hpair

theorem bill_eq (h : Ledger sha256 jobs links bills) {b b' : Bill} (hb : b ∈ bills)
    (hb' : b' ∈ bills) (hid : b.id = b'.id) : b = b' :=
  List.inj_on_of_nodup_map h.invoiceIds hb hb' hid

/-- A business has one attempt per idempotency key. -/
theorem job_eq_of_key (h : Ledger sha256 jobs links bills) {j j' : Job} (hj : j ∈ jobs)
    (hj' : j' ∈ jobs) (hb : j.businessId = j'.businessId)
    (hkey : j.idempotencyKey = j'.idempotencyKey) : j = j' := by
  obtain ⟨k, hk, hclaims⟩ := h.jobKey j hj
  obtain ⟨k', hk', hclaims'⟩ := h.jobKey j' hj'
  have hpair : k.pair = k'.pair := by
    rw [KeyLink.pair, KeyLink.pair, hclaims.businessId, hclaims.idempotencyKey,
      hclaims'.businessId, hclaims'.idempotencyKey, hb, hkey]
  obtain rfl := h.link_eq hk hk' hpair
  refine h.job_eq hj hj' (Option.some.inj ?_)
  rw [← hclaims.attemptId, hclaims'.attemptId]

/-! ## The two writers -/

/-- Transaction 1 adds one attempt and its key, for the total the handler has read. -/
theorem claim {db db' : Db} {fresh : Fresh} {state : InvoiceState} {job : Job}
    (h : Ledger sha256 db.jobs db.links db.bills)
    (hclaimed : PaymentService.Claimed db fresh
      (fingerprint sha256 job.invoiceId job.cardToken job.amountCents) state job db')
    (hbill : ∃ b ∈ db.bills, b.Of job.invoiceId job.businessId job.amountCents) :
    Ledger sha256 db'.jobs db'.links db'.bills := by
  have hpost := hclaimed.post
  obtain ⟨link, hlinks, hclaims⟩ : ∃ link, db'.links = db.links ++ [link] ∧
      link.Claims sha256 job := by
    refine ⟨KeyLink.ofKey (newKey (fresh.newId 0)
      (fingerprint sha256 job.invoiceId job.cardToken job.amountCents) job), ?_, rfl, rfl, rfl, rfl⟩
    rw [hpost]
    simp [Db.links]
  have hjobs : db'.jobs = db.jobs ++ [job] := by
    rw [hpost]
    simp [Db.jobs, Job.ofAttempt, newAttempt]
  have hbills : db'.bills = db.bills := by rw [hpost]; rfl
  have hid : job.attemptId ∉ db.jobs.map Job.attemptId := by
    have hfresh := Table.UniqueIndex.not_mem_keys_of_not_conflicts (fun _ => rfl) hclaimed.freshId
    simpa [Db.jobs, primaryKey, Job.ofAttempt, newAttempt, Function.comp_def] using hfresh
  have hpair : link.pair ∉ db.links.map KeyLink.pair := by
    have hfresh := Table.UniqueIndex.not_mem_keys_of_not_conflicts (fun _ => rfl) hclaimed.freshKey
    have hnew : link.pair = (job.businessId, job.idempotencyKey) :=
      Prod.ext hclaims.businessId hclaims.idempotencyKey
    rw [hnew]
    simpa [Db.links, uqIdempotencyBusinessKey, KeyLink.pair, KeyLink.ofKey, newKey,
      Function.comp_def] using hfresh
  rw [hjobs, hlinks, hbills]
  exact
    { attemptIds := Table.nodup_map_append_singleton h.attemptIds hid
      keyPairs := Table.nodup_map_append_singleton h.keyPairs hpair
      invoiceIds := h.invoiceIds
      keyText := by
        intro k hk
        rcases List.mem_append.mp hk with hk | hk
        · exact h.keyText k hk
        · obtain rfl := List.mem_singleton.mp hk
          rw [hclaims.idempotencyKey]
          exact hclaimed.keyText
      keyJob := by
        intro k hk
        rcases List.mem_append.mp hk with hk | hk
        · obtain ⟨j, hj, hkj⟩ := h.keyJob k hk
          exact ⟨j, List.mem_append_left _ hj, hkj⟩
        · obtain rfl := List.mem_singleton.mp hk
          exact ⟨job, List.mem_append_right _ List.mem_cons_self, hclaims⟩
      jobKey := by
        intro j hj
        rcases List.mem_append.mp hj with hj | hj
        · obtain ⟨k, hk, hkj⟩ := h.jobKey j hj
          exact ⟨k, List.mem_append_left _ hk, hkj⟩
        · obtain rfl := List.mem_singleton.mp hj
          exact ⟨link, List.mem_append_right _ List.mem_cons_self, hclaims⟩
      billed := by
        intro j hj
        rcases List.mem_append.mp hj with hj | hj
        · exact h.billed j hj
        · obtain rfl := List.mem_singleton.mp hj
          exact hbill }

/-- A new invoice adds one bill. -/
theorem create {db db' : Db} {now : Timestamp} {businessId : Uuid} {req : CreateInvoiceRequest}
    {fresh : Fresh} {inv : Invoice} (h : Ledger sha256 db.jobs db.links db.bills)
    (hcreated : InvoiceService.Created db now businessId req fresh db' inv) :
    Ledger sha256 db'.jobs db'.links db'.bills := by
  have hjobs : db'.jobs = db.jobs := by rw [Db.jobs, Db.jobs, hcreated.attempts]
  have hlinks : db'.links = db.links := by rw [Db.links, Db.links, hcreated.keys]
  have hbills : db'.bills = db.bills ++ [Bill.ofInvoice inv] := by
    rw [Db.bills, Db.bills, hcreated.invoices]
    simp
  have hid : inv.id ∉ db.bills.map Bill.id := by
    have hfresh := Table.UniqueIndex.not_mem_keys_of_not_conflicts (fun _ => rfl) hcreated.freshId
    simpa [Db.bills, primaryKey, Bill.ofInvoice, Function.comp_def] using hfresh
  rw [hjobs, hlinks, hbills]
  exact
    { h with
      invoiceIds := Table.nodup_map_append_singleton h.invoiceIds hid
      billed := by
        intro j hj
        obtain ⟨b, hb, hof⟩ := h.billed j hj
        exact ⟨b, List.mem_append_left _ hb, hof⟩ }

end Ledger

end InvoicePayment
