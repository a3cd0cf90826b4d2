import InvoicePayment.Service.Integrity

/-!
# What is never rewritten

Over every run, from every reachable state: no row of any table disappears; what a row says about
identity, tenancy, amounts and secrets stays as it was inserted; line items, endpoints and events
are immutable; and what is settled (an attempt that is no longer pending, a completed key, a
revocation) stays settled.
-/

namespace InvoicePayment.Service

open Table (Keeps)

variable {δ : Type} {env : Env δ} {s t : State}

/-! ## The columns that stay -/

/-- The columns of an invoice that no statement but the insert and the total of its transaction
writes. -/
def billing (i : Invoice) : Bill × Uuid × String × Timestamp :=
  (Bill.ofInvoice i, i.customerId, i.currency, i.createdAt)

/-- The columns of a key that are written when it is claimed. -/
def claim (k : IdempotencyKey) : Uuid × KeyLink := (k.id, KeyLink.ofKey k)

/-- The columns of a delivery that fan-out writes and nothing else. -/
def routing (d : WebhookDelivery) : Uuid × Timestamp × Uuid × Uuid × Uuid :=
  (d.id, d.createdAt, Dispatcher.target d)

theorem routing_outcome {f : WebhookDelivery → WebhookDelivery} (hf : Dispatcher.IsOutcome f)
    (d : WebhookDelivery) : routing (f d) = routing d := by
  rw [routing, routing, hf.id, hf.createdAt, hf.keys]

/-- The columns of an API key that are written when it is created. -/
def credential (k : ApiKey) : ApiKey := { k with lastUsedAt := none, revokedAt := none }

/-- `db'` goes on from `db`. -/
structure Extends (db db' : Db) : Prop where
  customers : db.customers <+: db'.customers
  invoices : Keeps billing db.invoices db'.invoices
  items : db.invoiceLineItems <+: db'.invoiceLineItems
  attempts : Keeps Job.ofAttempt db.paymentAttempts db'.paymentAttempts
  keys : Keeps claim db.idempotencyKeys db'.idempotencyKeys
  endpoints : db.webhookEndpoints <+: db'.webhookEndpoints
  events : db.webhookEvents <+: db'.webhookEvents
  deliveries : Keeps routing db.webhookDeliveries db'.webhookDeliveries
  apiKeys : Keeps credential db.apiKeys db'.apiKeys
  /-- An attempt that is no longer pending does not change any more. -/
  settled : ∀ a ∈ db.paymentAttempts, a.status ≠ .pending → a ∈ db'.paymentAttempts
  /-- A completed key stays completed. -/
  completed : ∀ k ∈ db.idempotencyKeys, k.status = .completed →
    ∃ k' ∈ db'.idempotencyKeys, claim k' = claim k ∧ k'.status = .completed
  /-- A revocation is never taken back, nor moved. -/
  revoked : ∀ k ∈ db.apiKeys, k.revokedAt ≠ none →
    ∃ k' ∈ db'.apiKeys, credential k' = credential k ∧ k'.revokedAt = k.revokedAt

namespace Extends

variable {db db' db'' : Db}

theorem refl (db : Db) : Extends db db :=
  { customers := List.prefix_refl _
    invoices := Keeps.refl _ _
    items := List.prefix_refl _
    attempts := Keeps.refl _ _
    keys := Keeps.refl _ _
    endpoints := List.prefix_refl _
    events := List.prefix_refl _
    deliveries := Keeps.refl _ _
    apiKeys := Keeps.refl _ _
    settled := fun _ ha _ => ha
    completed := fun k hk hdone => ⟨k, hk, rfl, hdone⟩
    revoked := fun k hk _ => ⟨k, hk, rfl, rfl⟩ }

theorem trans (h : Extends db db') (h' : Extends db' db'') : Extends db db'' :=
  { customers := h.customers.trans h'.customers
    invoices := h.invoices.trans h'.invoices
    items := h.items.trans h'.items
    attempts := h.attempts.trans h'.attempts
    keys := h.keys.trans h'.keys
    endpoints := h.endpoints.trans h'.endpoints
    events := h.events.trans h'.events
    deliveries := h.deliveries.trans h'.deliveries
    apiKeys := h.apiKeys.trans h'.apiKeys
    settled := fun a ha hstatus => h'.settled a (h.settled a ha hstatus) hstatus
    completed := by
      intro k hk hdone
      obtain ⟨k₁, hk₁, heq₁, hdone₁⟩ := h.completed k hk hdone
      obtain ⟨k₂, hk₂, heq₂, hdone₂⟩ := h'.completed k₁ hk₁ hdone₁
      exact ⟨k₂, hk₂, heq₂.trans heq₁, hdone₂⟩
    revoked := by
      intro k hk hrevoked
      obtain ⟨k₁, hk₁, heq₁, hat₁⟩ := h.revoked k hk hrevoked
      obtain ⟨k₂, hk₂, heq₂, hat₂⟩ := h'.revoked k₁ hk₁ (by rwa [hat₁])
      exact ⟨k₂, hk₂, heq₂.trans heq₁, hat₂.trans hat₁⟩ }

/-- An update of deliveries, from whichever columns. -/
theorem updateDeliveries {p : WebhookDelivery → Bool} {f : WebhookDelivery → WebhookDelivery}
    (hf : ∀ d, routing (f d) = routing d) :
    Extends db { db with webhookDeliveries := Table.update p f db.webhookDeliveries } :=
  { Extends.refl db with deliveries := Keeps.update fun d _ _ => hf d }

theorem insertDeliveries {now : Timestamp} {newId : ℕ → Uuid} {n : ℕ}
    {pairs : List (WebhookEvent × WebhookEndpoint)} {rows : List WebhookDelivery}
    (h : Dispatcher.insertDeliveries now newId n pairs db.webhookDeliveries = .ok rows) :
    Extends db { db with webhookDeliveries := rows } := by
  obtain ⟨⟨new, rfl⟩, -⟩ := Dispatcher.insertDeliveries_eq_ok h
  exact { Extends.refl db with deliveries := Keeps.append _ _ _ }

/-- A new invoice, its items and its event. -/
theorem created {now : Timestamp} {businessId : Uuid} {req : CreateInvoiceRequest} {fresh : Fresh}
    {inv : Invoice} (h : InvoiceService.Created db now businessId req fresh db' inv) :
    Extends db db' := by
  obtain ⟨rows, hitems, -, -⟩ := h.items
  have hinvoices := h.invoices
  have hevents := h.events
  rw [h.rest]
  refine { Extends.refl db with invoices := ?_, items := ?_, events := ?_ }
  · show Keeps billing db.invoices db'.invoices
    rw [hinvoices]
    exact Keeps.append _ _ _
  · show db.invoiceLineItems <+: db'.invoiceLineItems
    rw [hitems]
    exact List.prefix_append _ _
  · show db.webhookEvents <+: db'.webhookEvents
    rw [hevents]
    exact List.prefix_append _ _

/-- Transaction 1 adds an attempt and its key. -/
theorem claimed {fresh : Fresh} {fp : List UInt8} {state : InvoiceState} {job : Job}
    (h : PaymentService.Claimed db fresh fp state job db') : Extends db db' := by
  rw [h.post]
  exact
    { Extends.refl db with
      attempts := Keeps.append _ _ _
      keys := Keeps.append _ _ _
      settled := fun a ha _ => List.mem_append_left _ ha
      completed := fun k hk hdone => ⟨k, List.mem_append_left _ hk, rfl, hdone⟩ }

/-- A lease takes pending attempts only. -/
theorem leased {now : Timestamp} {locked ids : List Uuid}
    (hids : (db.paymentAttempts.map PaymentAttempt.id).Nodup)
    (h : Reconciler.isBatch db now locked ids = true) :
    Extends db (Reconciler.lease db now ids).1 := by
  refine
    { Extends.refl db with
      attempts := Keeps.update fun _ _ _ => rfl
      settled := fun a ha hstatus => Table.mem_update_of_not ha ?_ }
  by_contra hselected
  rw [Bool.not_eq_false, List.contains_iff_mem] at hselected
  obtain ⟨b, hb, hid, hdue⟩ := (Reconciler.isDue_of_isBatch h).2 a.id hselected
  obtain rfl := List.inj_on_of_nodup_map hids hb ha hid
  simp only [Reconciler.isDue, Bool.and_eq_true, decide_eq_true_eq] at hdue
  exact hstatus hdue.1

/-- Transaction 2 settles a pending attempt, completes its key and adds its event. -/
theorem finalized {now : Timestamp} {fresh : Fresh} {job : Job} {result : PspResult}
    {o : PayOutcome} (h : PaymentService.Finalized db now fresh job result db' o) :
    Extends db db' := by
  have hattempts := h.attempts
  have hinvoices := h.invoices
  have hkeys := h.keys
  have hevents := h.events
  rw [h.rest]
  refine
    { Extends.refl db with
      invoices := ?_
      attempts := ?_
      keys := ?_
      events := ?_
      settled := ?_
      completed := ?_ }
  · show Keeps billing db.invoices db'.invoices
    rw [hinvoices]
    split_ifs
    · exact Keeps.update fun _ _ _ => rfl
    · exact Keeps.refl _ _
  · show Keeps Job.ofAttempt db.paymentAttempts db'.paymentAttempts
    rw [hattempts]
    refine Keeps.update fun a _ _ => ?_
    cases result <;> rfl
  · show Keeps claim db.idempotencyKeys db'.idempotencyKeys
    rw [hkeys]
    split_ifs
    · exact Keeps.update fun _ _ _ => rfl
    · exact Keeps.refl _ _
  · show db.webhookEvents <+: db'.webhookEvents
    rw [hevents]
    exact List.prefix_append _ _
  · intro a ha hstatus
    show a ∈ db'.paymentAttempts
    rw [hattempts]
    refine Table.mem_update_of_not ha ?_
    rw [PaymentService.isPending, Bool.and_eq_false_iff]
    exact .inr (decide_eq_false hstatus)
  · intro k hk hdone
    show ∃ k' ∈ db'.idempotencyKeys, claim k' = claim k ∧ k'.status = .completed
    rw [hkeys]
    split_ifs
    · refine ⟨_, Table.mem_update_of_mem hk, ?_⟩
      split_ifs
      · exact ⟨rfl, rfl⟩
      · exact ⟨rfl, hdone⟩
    · exact ⟨k, hk, rfl, hdone⟩

/-- A revocation stamps live keys only. -/
theorem revoke {now : Timestamp} {businessId id : Uuid} :
    Extends db { db with
      apiKeys := Table.update (ApiKeyRepo.isRevocable businessId id)
        (fun k => { k with revokedAt := some now }) db.apiKeys } := by
  refine
    { Extends.refl db with
      apiKeys := Keeps.update fun _ _ _ => rfl
      revoked := fun k hk hrevoked => ⟨k, Table.mem_update_of_not hk ?_, rfl, rfl⟩ }
  rw [ApiKeyRepo.isRevocable, Bool.and_eq_false_iff]
  refine .inr ?_
  rw [Option.isNone_eq_false_iff, Option.isSome_iff_ne_none]
  exact hrevoked

theorem touch (now : Timestamp) (keyPrefix : String) :
    Extends db (Auth.touch db now keyPrefix) := by
  refine
    { Extends.refl db with
      apiKeys := Keeps.update fun _ _ _ => rfl
      revoked := fun k hk _ => ⟨_, Table.mem_update_of_mem hk, ?_⟩ }
  split_ifs
  · exact ⟨rfl, rfl⟩
  · exact ⟨rfl, rfl⟩

end Extends

/-! ## Every run -/

theorem Change.extends {asker : Option Uuid} {db : Db}
    (hids : (s.db.paymentAttempts.map PaymentAttempt.id).Nodup) (h : Change env s asker db) :
    Extends s.db db := by
  cases h with
  | same => exact .refl _
  | customer _ _ _ => exact { Extends.refl s.db with customers := List.prefix_append _ _ }
  | invoice _ hcreated => exact .created hcreated
  | move => exact { Extends.refl s.db with invoices := Keeps.update fun _ _ _ => rfl }
  | claim _ _ hclaimed => exact .claimed hclaimed
  | lease hbatch => exact .leased hids hbatch
  | finalize _ hfinal => exact .finalized hfinal
  | endpoint _ _ => exact { Extends.refl s.db with endpoints := List.prefix_append _ _ }
  | fanOut hrows => exact .insertDeliveries hrows
  | batch => exact .updateDeliveries fun _ => rfl
  | outcome hf => exact .updateDeliveries (routing_outcome hf)
  | redeliver => exact .updateDeliveries fun _ => rfl
  | key _ _ _ _ =>
    exact
      { Extends.refl s.db with
        apiKeys := Keeps.append _ _ _
        revoked := fun k hk _ => ⟨k, List.mem_append_left _ hk, rfl, rfl⟩ }
  | revoke => exact .revoke
  | touch => exact .touch _ _

theorem extends_of_leads (h : (system env).Reachable s) (hleads : (system env).Leads s t) :
    Extends s.db t.db := by
  obtain ⟨ls, hrun⟩ := hleads
  induction ls generalizing s with
  | nil =>
    obtain rfl := Option.some.inj hrun
    exact .refl _
  | cons l ls ih =>
    rw [TransitionSystem.run_cons] at hrun
    obtain ⟨u, hu, hrun⟩ := Option.bind_eq_some_iff.mp hrun
    have hs := sound_of_reachable h
    have hfirst := (step_change hs hu).extends hs.attemptIds
    exact hfirst.trans (ih (h.step hu) hrun)

/-- The database only grows, and what is written for good stays written. -/
theorem history_kept (h : (system env).Reachable s) {ls : List (Label δ)}
    (hrun : (system env).run s ls = some t) : Extends s.db t.db :=
  extends_of_leads h ⟨ls, hrun⟩

/-- What has happened to business `2` when its invoice is paid is still there when its key is
revoked. -/
theorem history_kept_hookedRun :
    ∃ s t, (system shopEnv).run openShop hookedRun = some s ∧
      (system shopEnv).run s
        [.call 3 (.revokeKey (shopId 2) (shopId 61)), .touch "dpk_test_aaaaaaaa"] = some t ∧
      t.db.apiKeys.map (fun k => k.revokedAt.isSome) = [true] ∧ Extends s.db t.db := by
  have hrun : ((system shopEnv).run openShop hookedRun).any (fun s =>
      ((system shopEnv).run s [.call 3 (.revokeKey (shopId 2) (shopId 61)),
        .touch "dpk_test_aaaaaaaa"]).any fun t =>
          decide (t.db.apiKeys.map (fun k => k.revokedAt.isSome) = [true])) = true := by
    decide +kernel
  obtain ⟨s, hs, hrest⟩ := (Option.any_eq_true _ _).mp hrun
  obtain ⟨t, ht, hcheck⟩ := (Option.any_eq_true _ _).mp hrest
  exact ⟨s, t, hs, ht, of_decide_eq_true hcheck,
    history_kept ⟨openShop, hookedRun, openShop_initial, hs⟩ ht⟩

end InvoicePayment.Service
