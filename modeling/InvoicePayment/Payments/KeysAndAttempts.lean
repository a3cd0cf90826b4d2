import InvoicePayment.Payments.Definite

/-!
# Keys and attempts

`keys_and_attempts` reads the correspondence of the two tables off `Sound` and `Settled`: one
key per attempt and one attempt per key, the key's status following the attempt's, and the
cached body telling what the attempt's row tells.
-/

namespace InvoicePayment.Payments

open PaymentService (answer)

variable {sha256 : List UInt8 → List UInt8} {s : State}

/-- The response tells what the row tells. -/
structure Describes (resp : PaymentAttemptResponse) (a : PaymentAttempt) : Prop where
  attemptId : resp.attemptId = a.id
  invoiceId : resp.invoiceId = a.invoiceId
  amountCents : resp.amountCents = a.amountCents
  status : resp.status = a.status
  pspRef : resp.pspRef = a.pspRef
  failureCode : resp.failureCode = a.failureCode

/-- How a key row follows its attempt. -/
structure Follows (k : IdempotencyKey) (a : PaymentAttempt) : Prop where
  inProgress : k.status = .inProgress ↔ a.status = .pending
  succeeded : (k.status = .completed ∧ k.responseStatus = some 200) ↔ a.status = .succeeded
  failed : (k.status = .completed ∧ k.responseStatus = some 402) ↔ a.status = .failed
  body : k.status = .completed →
    ∃ resp, k.responseBody.bind PaymentAttemptResponse.fromJson = some resp ∧ Describes resp a

theorem Carries.describes {a : PaymentAttempt} {o : ChargeOutcome} (h : Carries a o) :
    Describes (answer (Job.ofAttempt a) o.toResult).2 a := by
  cases o with
  | succeeded pspRef => exact ⟨rfl, rfl, rfl, h.status.symm, h.pspRef.symm, h.failureCode.symm⟩
  | failed code => exact ⟨rfl, rfl, rfl, h.status.symm, h.pspRef.symm, h.failureCode.symm⟩

theorem Agrees.follows {seen : String → Option ChargeOutcome} {a : PaymentAttempt}
    {k : IdempotencyKey} (h : Agrees seen a k) : Follows k a := by
  cases h with
  | pending hstatus _ _ hkey _ _ =>
    constructor <;> simp [hstatus, hkey]
  | settled o _ hcarries hkey hresponse hbody =>
    have hbody' : k.status = .completed → ∃ resp,
        k.responseBody.bind PaymentAttemptResponse.fromJson = some resp ∧ Describes resp a := by
      intro _
      refine ⟨_, ?_, hcarries.describes⟩
      rw [hbody, Option.bind_some, PaymentAttemptResponse.fromJson_toJson]
    have hstatus := hcarries.status
    cases o with
    | succeeded pspRef =>
      have hsucceeded : a.status = .succeeded := hstatus
      have hok : k.responseStatus = some 200 := hresponse
      exact ⟨by simp [hkey, hsucceeded], by simp [hkey, hsucceeded, hok],
        by simp [hsucceeded, hok], hbody'⟩
    | failed code =>
      have hfailed : a.status = .failed := hstatus
      have hdeclined : k.responseStatus = some 402 := hresponse
      exact ⟨by simp [hkey, hfailed], by simp [hfailed, hdeclined],
        by simp [hkey, hfailed, hdeclined], hbody'⟩

/-- An attempt has one key row. -/
theorem one_key (hs : Sound { sha256, psp := definitePsp } s) {a : PaymentAttempt}
    (ha : a ∈ s.db.paymentAttempts) :
    (s.db.idempotencyKeys.filter fun k => k.attemptId = some a.id).length = 1 := by
  obtain ⟨k, hk, hid⟩ := hs.exists_key ha
  refine Table.length_filter_eq_one hs.keyPairs ?_ hk (decide_eq_true hid)
  intro k₁ hk₁ k₂ hk₂ h₁ h₂
  have hpair : ∀ k ∈ s.db.idempotencyKeys, decide (k.attemptId = some a.id) = true →
      (KeyLink.pair ∘ KeyLink.ofKey) k = (a.businessId, a.idempotencyKey) := by
    intro k hk hid
    have hkey := (hs.isKey_iff ha hk).mpr (of_decide_eq_true hid)
    simp only [PaymentService.isKey, Bool.and_eq_true, decide_eq_true_eq] at hkey
    exact Prod.ext hkey.1 hkey.2
  rw [hpair k₁ hk₁ h₁, hpair k₂ hk₂ h₂]

/-- A key row has one attempt. -/
theorem one_attempt (hs : Sound { sha256, psp := definitePsp } s) {k : IdempotencyKey}
    (hk : k ∈ s.db.idempotencyKeys) :
    (s.db.paymentAttempts.filter fun a => k.attemptId = some a.id).length = 1 := by
  obtain ⟨a, ha, hid, -⟩ := hs.exists_attempt hk
  refine Table.length_filter_eq_one hs.attemptIds ?_ ha (decide_eq_true hid)
  intro b _ b' _ h h'
  have hb := of_decide_eq_true h
  have hb' := of_decide_eq_true h'
  exact Option.some.inj (hb.symm.trans hb')

/-- In every reachable state keys and attempts correspond one to one, each key row naming an
attempt of its business and key and following it. -/
theorem keys_and_attempts (h : (definiteSystem sha256).Reachable s) :
    (∀ k ∈ s.db.idempotencyKeys,
      (s.db.paymentAttempts.filter fun a => k.attemptId = some a.id).length = 1 ∧
      ∃ a ∈ s.db.paymentAttempts, k.attemptId = some a.id ∧ a.businessId = k.businessId ∧
        a.idempotencyKey = k.idempotencyKey) ∧
    (∀ a ∈ s.db.paymentAttempts,
      (s.db.idempotencyKeys.filter fun k => k.attemptId = some a.id).length = 1) ∧
    (∀ k ∈ s.db.idempotencyKeys, ∀ a ∈ s.db.paymentAttempts, k.attemptId = some a.id →
      Follows k a) := by
  have hs := sound_of_reachable h
  have hd := settled_of_reachable definitePsp_isDefinite h
  refine ⟨?_, fun a ha => one_key hs ha, fun k hk a ha hid => (hd.records a ha k hk hid).follows⟩
  intro k hk
  obtain ⟨a, ha, hid, hclaims⟩ := hs.exists_attempt hk
  exact ⟨one_attempt hs hk, a, ha, hid, hclaims.businessId.symm, hclaims.idempotencyKey.symm⟩

/-! ## A declined payment and one in flight -/

theorem retryRun_isSome : ((definiteSystem shopSha256).run shop retryRun).isSome = true := by
  decide +kernel

/-- The state after the declined call, with the second one in flight. -/
def retryState : State := ((definiteSystem shopSha256).run shop retryRun).get retryRun_isSome

theorem retryState_reachable : (definiteSystem shopSha256).Reachable retryState :=
  ⟨shop, retryRun, shop_initial, (Option.some_get _).symm⟩

theorem keys_and_attempts_after_retry :
    retryState.db.paymentAttempts.map PaymentAttempt.status = [.failed, .pending] ∧
    (∀ k ∈ retryState.db.idempotencyKeys, ∀ a ∈ retryState.db.paymentAttempts,
      k.attemptId = some a.id → Follows k a) :=
  ⟨by decide +kernel, (keys_and_attempts retryState_reachable).2.2⟩

end InvoicePayment.Payments
