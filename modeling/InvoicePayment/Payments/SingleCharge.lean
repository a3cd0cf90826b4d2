import InvoicePayment.Payments.Definite

/-!
# At most one successful charge per invoice

The partial unique index keeps one active attempt per invoice, an attempt with a success on
record is active whether or not the success has been written to it, and the PSP runs its effect
once per key.
-/

namespace InvoicePayment.Payments

variable {sha256 : List UInt8 → List UInt8} {s : State}

/-- The PSP has executed a successful charge for the attempt. -/
def chargedFor (psp : PspState) (a : PaymentAttempt) : Bool :=
  psp.charges.any fun c => c.attemptId = a.id && c.outcome.movesMoney

/-- The charge moved money under the key of an attempt of the invoice. -/
def paysInvoice (db : Db) (invoiceId : Uuid) (c : Charge) : Bool :=
  c.outcome.movesMoney && db.paymentAttempts.any fun a =>
    a.invoiceId = invoiceId && c.request.idempotencyKey = some a.idempotencyKey

/-- A charge for an attempt was made under the attempt's key. -/
theorem seen_of_charge (hs : Sound { sha256, psp := definitePsp } s) (hd : Settled s) {c : Charge}
    (hc : c ∈ s.psp.charges) {a : PaymentAttempt} (ha : a ∈ s.db.paymentAttempts)
    (hid : c.attemptId = a.id) : s.psp.seen a.idempotencyKey = some c.outcome := by
  obtain ⟨job, hjob, hattempt, hrequest⟩ := hd.charged c hc
  obtain ⟨key, hkey, hseen⟩ := hd.psp.recorded c hc
  have hsame : job = Job.ofAttempt a := hs.ledger.job_eq hjob (mem_jobs ha) (hattempt.trans hid)
  rw [← hrequest, hsame] at hkey
  obtain rfl : a.idempotencyKey = key := Option.some.inj hkey
  exact hseen

theorem active_of_chargedFor (hs : Sound { sha256, psp := definitePsp } s) (hd : Settled s)
    {a : PaymentAttempt} (ha : a ∈ s.db.paymentAttempts) (h : chargedFor s.psp a = true) :
    a.isActive = true := by
  obtain ⟨c, hc, hcharge⟩ := List.any_eq_true.mp h
  simp only [Bool.and_eq_true, decide_eq_true_eq] at hcharge
  exact hd.active_of_success hs ha (seen_of_charge hs hd hc ha hcharge.1) hcharge.2

/-- Charges that move money for one invoice were made under one key. -/
theorem key_eq_of_paysInvoice (hs : Sound { sha256, psp := definitePsp } s) (hd : Settled s)
    {invoiceId : Uuid} {c c' : Charge} (hc : c ∈ s.psp.charges) (hc' : c' ∈ s.psp.charges)
    (h : paysInvoice s.db invoiceId c = true) (h' : paysInvoice s.db invoiceId c' = true) :
    c.request.idempotencyKey = c'.request.idempotencyKey := by
  have hactive : ∀ x ∈ s.psp.charges, paysInvoice s.db invoiceId x = true →
      ∃ a ∈ s.db.paymentAttempts, a.isActive = true ∧ a.invoiceId = invoiceId ∧
        x.request.idempotencyKey = some a.idempotencyKey := by
    intro x hx hpays
    simp only [paysInvoice, Bool.and_eq_true, List.any_eq_true, decide_eq_true_eq] at hpays
    obtain ⟨hmoves, a, ha, hinv, hkey⟩ := hpays
    obtain ⟨key, hkey', hseen⟩ := hd.psp.recorded x hx
    rw [hkey] at hkey'
    rw [← Option.some.inj hkey'] at hseen
    exact ⟨a, ha, hd.active_of_success hs ha hseen hmoves, hinv, hkey⟩
  obtain ⟨a, ha, haa, hinv, hkey⟩ := hactive c hc h
  obtain ⟨a', ha', haa', hinv', hkey'⟩ := hactive c' hc' h'
  rw [hkey, hkey', hs.active_eq ha ha' haa haa' (hinv.trans hinv'.symm)]

/-- In every reachable state an invoice has at most one active attempt, at most one attempt the
PSP has successfully charged, and at most one charge that moved money. -/
theorem at_most_one_charge (h : (definiteSystem sha256).Reachable s) (invoiceId : Uuid) :
    (s.db.paymentAttempts.filter fun a => a.invoiceId = invoiceId && a.isActive).length ≤ 1 ∧
    (s.db.paymentAttempts.filter fun a =>
      a.invoiceId = invoiceId && chargedFor s.psp a).length ≤ 1 ∧
    (s.psp.charges.filter (paysInvoice s.db invoiceId)).length ≤ 1 := by
  have hs := sound_of_reachable h
  have hd := settled_of_reachable definitePsp_isDefinite h
  refine ⟨?_, ?_, ?_⟩
  · refine Table.UniqueIndex.Holds.length_filter_le_one (k := invoiceId) hs.active ?_
    intro a ha hq
    simp only [Bool.and_eq_true, decide_eq_true_eq] at hq
    exact ⟨hq.2, hq.1⟩
  · refine Table.UniqueIndex.Holds.length_filter_le_one (k := invoiceId) hs.active ?_
    intro a ha hq
    simp only [Bool.and_eq_true, decide_eq_true_eq] at hq
    exact ⟨active_of_chargedFor hs hd ha hq.2, hq.1⟩
  · refine Table.length_filter_le_one hd.psp.once ?_
    intro c hc c' hc' hq hq'
    exact key_eq_of_paysInvoice hs hd hc hc' hq hq'

/-! ## A payment whose outcome is not recorded yet -/

/-- The handler crashes after the PSP has taken the money, and a second call with another key
finds the invoice busy. -/
def crashRun : List (Label DefiniteChoice) :=
  openInvoice ++
    [.startPay 1 (payCall "k1" "tok_success"), .work 1 (shopFresh 0), .work 1 (shopFresh 20),
     .work 1 (shopFresh 0), .serve 0 ⟨some (.succeeded "psp_1"), none⟩, .crash 1,
     .startPay 2 (payCall "k2" "tok_success"), .work 2 (shopFresh 0), .work 2 (shopFresh 30)]

theorem crashRun_isSome : ((definiteSystem shopSha256).run shop crashRun).isSome = true := by
  decide +kernel

/-- The state in which the money has moved and nothing says so. -/
def crashState : State := ((definiteSystem shopSha256).run shop crashRun).get crashRun_isSome

theorem crashState_reachable : (definiteSystem shopSha256).Reachable crashState :=
  ⟨shop, crashRun, shop_initial, (Option.some_get _).symm⟩

theorem at_most_one_charge_after_crash :
    (crashState.db.paymentAttempts.filter fun a =>
      a.invoiceId = shopId 10 && chargedFor crashState.psp a).length = 1 ∧
    (crashState.psp.charges.filter (paysInvoice crashState.db (shopId 10))).length ≤ 1 :=
  ⟨by decide +kernel, (at_most_one_charge crashState_reachable (shopId 10)).2.2⟩

end InvoicePayment.Payments
