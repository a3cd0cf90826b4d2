import InvoicePayment.Service.Links

/-!
# What a step does to the database

`Change` lists the fifteen things a step of the service may do to the tables, each with what was
checked before it; `step_change` is the inversion. What every database keeps is proved on changes,
whoever makes them.
-/

namespace InvoicePayment

/-! ## The inserts -/

theorem CustomerService.create_inserts {lower : String → String} {db db' : Db} {now : Timestamp}
    {id businessId : Uuid} {req : CreateCustomerRequest} {resp : CustomerResponse}
    (h : create lower db now id businessId req = .ok (db', resp)) :
    ∃ c : Customer, c.businessId = businessId ∧
      (primaryKey Customer.id).conflicts db.customers c = false ∧
      (uqCustomersBusinessEmail lower).conflicts db.customers c = false ∧
      db' = { db with customers := db.customers ++ [c] } := by
  unfold create at h
  split at h
  · cases h
  · split at h
    · rename_i db₁ c hinsert
      obtain ⟨rfl, -⟩ := Prod.mk.inj (Except.ok.inj h)
      unfold CustomerRepo.insert at hinsert
      dsimp only at hinsert
      split_ifs at hinsert with htext hconflict
      obtain ⟨rfl, rfl⟩ := Prod.mk.inj (Except.ok.inj hinsert)
      rw [not_or, Bool.not_eq_true, Bool.not_eq_true] at hconflict
      exact ⟨_, rfl, hconflict.1, hconflict.2, rfl⟩
    · cases h

theorem WebhookService.registerEndpoint_inserts {db db' : Db} {now : Timestamp} {id : Uuid}
    {secret : List UInt8} {businessId : Uuid} {req : CreateEndpointRequest}
    {endpoint : WebhookEndpoint}
    (h : registerEndpoint db now id secret businessId req = .ok (db', endpoint)) :
    endpoint.businessId = businessId ∧
      (primaryKey WebhookEndpoint.id).conflicts db.webhookEndpoints endpoint = false ∧
      db' = { db with webhookEndpoints := db.webhookEndpoints ++ [endpoint] } := by
  unfold registerEndpoint at h
  dsimp only at h
  split_ifs at h with hurl htext hconflict
  obtain ⟨rfl, rfl⟩ := Prod.mk.inj (Except.ok.inj h)
  exact ⟨rfl, by simpa using hconflict, rfl⟩

/-- The text of a key is forty-five characters long. -/
theorem Auth.length_fullKey (env : String) (random : RandomBody) :
    (fullKey env random).toList.length = 45 := by
  have hfull : fullKey env random =
      "dpk_" ++ keyEnv env ++ "_" ++ String.ofList random.chars := rfl
  have hhead : ("dpk_" ++ keyEnv env ++ "_").toList.length = 9 := by
    by_cases hlive : env = "live"
    · rw [keyEnv, if_pos hlive]
      decide
    · rw [keyEnv, if_neg hlive]
      decide
  rw [hfull, String.toList_append, List.length_append, hhead, String.toList_ofList,
    random.length_chars, randomLen]

theorem Auth.length_lastFour (sha256 : List UInt8 → List UInt8) (env : String)
    (random : RandomBody) : (generateKey sha256 env random).lastFour.toList.length = 4 := by
  have hlength := length_fullKey env random
  simp only [generateKey, String.toList_ofList, List.length_drop]
  omega

theorem ApiKeys.create_inserts {sha256 : List UInt8 → List UInt8} {db db' : Db} {now : Timestamp}
    {id businessId : Uuid} {random : Auth.RandomBody} {req : CreateApiKeyRequest}
    {resp : CreateApiKeyResponse}
    (h : create sha256 db now id random businessId req = .ok (db', resp)) :
    ∃ k : ApiKey, k.businessId = businessId ∧ k.lastFour.toList.length = 4 ∧
      (primaryKey ApiKey.id).conflicts db.apiKeys k = false ∧
      uqApiKeysPrefix.conflicts db.apiKeys k = false ∧
      db' = { db with apiKeys := db.apiKeys ++ [k] } := by
  unfold create at h
  dsimp only at h
  split at h
  · cases h
  · rename_i db₁ id' hinsert
    obtain ⟨rfl, -⟩ := Prod.mk.inj (Except.ok.inj h)
    unfold ApiKeyRepo.insert at hinsert
    dsimp only at hinsert
    split_ifs at hinsert with htext hconflict
    obtain ⟨rfl, -⟩ := Prod.mk.inj (Except.ok.inj hinsert)
    rw [not_or, Bool.not_eq_true, Bool.not_eq_true] at hconflict
    refine ⟨_, ?_, ?_, hconflict.1, hconflict.2, rfl⟩
    · rfl
    · exact Auth.length_lastFour sha256 (req.env.getD "test") random

/-- A revocation stamps the live keys it names. -/
theorem ApiKeys.revoke_updates {db db' : Db} {now : Timestamp} {businessId id : Uuid}
    (h : revoke db now businessId id = .ok db') :
    db' = { db with
      apiKeys := Table.update (ApiKeyRepo.isRevocable businessId id)
        (fun k => { k with revokedAt := some now }) db.apiKeys } := by
  unfold revoke ApiKeyRepo.revoke at h
  split at h
  · rename_i heq
    obtain ⟨rfl, -⟩ := Prod.mk.inj heq
    exact (Except.ok.inj h).symm
  · cases h

/-- An invoice is created for a customer of the business. -/
theorem InvoiceService.customer_of_create {db db' : Db} {now : Timestamp} {businessId : Uuid}
    {req : CreateInvoiceRequest} {fresh : Fresh} {resp : InvoiceResponse}
    (h : create db now businessId req fresh = .ok (db', resp)) :
    ∃ c ∈ db.customers, c.id = req.customerId ∧ c.businessId = businessId := by
  unfold create at h
  split at h
  · cases h
  split_ifs at h with hcustomer
  obtain ⟨c, hc, hof⟩ := List.any_eq_true.mp hcustomer
  simp only [Bool.and_eq_true, decide_eq_true_eq] at hof
  exact ⟨c, hc, hof⟩

/-- Transaction 1 claims the key under a new id, for an amount the `CHECK` admits. -/
theorem PaymentService.checks_of_claim {sha256 : List UInt8 → List UInt8} {db db' : Db}
    {fresh : Fresh} {businessId invoiceId : Uuid} {key : String} {req : PayRequest}
    {state : InvoiceState} {amount : Int64} {job : Job}
    (h : claim sha256 db fresh businessId invoiceId key req state amount = .claimed db' job) :
    (∀ k ∈ db.idempotencyKeys, k.id ≠ fresh.newId 0) ∧ 0 ≤ job.amountCents.toInt := by
  unfold claim at h
  split at h
  · cases h
  · cases h
  rename_i db₁ hkey
  dsimp only at h
  split_ifs at h with hstate
  split at h
  · cases h
  rename_i db₂ hattempt
  obtain ⟨-, rfl⟩ := Claim.claimed.inj h
  constructor
  · intro k hk
    unfold insertKey at hkey
    dsimp only at hkey
    split_ifs at hkey with htext hdup hid
    · cases hkey
    · exact Table.UniqueIndex.ne_of_not_conflicts (by simpa using hid) rfl hk rfl
  · unfold insertAttempt at hattempt
    split_ifs at hattempt with hcheck hconflict
    have hamount : ¬ amount < 0 := fun hneg => hcheck (.inr hneg)
    rw [Int64.lt_iff_toInt_lt] at hamount
    simpa using hamount

namespace Service

variable {δ : Type} {env : Env δ} {s t : State} {l : Label δ}

/-! ## The changes -/

/-- The business a request acts for. -/
def Call.businessId : Call → Uuid
  | .createCustomer businessId _ _ => businessId
  | .createInvoice businessId _ _ => businessId
  | .registerEndpoint businessId _ _ _ => businessId
  | .redeliver businessId _ => businessId
  | .createKey businessId _ _ _ => businessId
  | .revokeKey businessId _ => businessId

/-- The business that asks for a row of its own by a step, where a request does. -/
def Label.asker : Label δ → Option Uuid
  | .call _ req => some req.businessId
  | _ => none

/-- What a step may do to the database, with what it has checked. -/
inductive Change (env : Env δ) (s : State) : Option Uuid → Db → Prop
  | same {asker : Option Uuid} : Change env s asker s.db
  | customer {businessId : Uuid} {c : Customer} (hbusiness : c.businessId = businessId)
      (hid : (primaryKey Customer.id).conflicts s.db.customers c = false)
      (hemail : (uqCustomersBusinessEmail env.lower).conflicts s.db.customers c = false) :
      Change env s (some businessId) { s.db with customers := s.db.customers ++ [c] }
  | invoice {asker : Option Uuid} {businessId : Uuid} {req : CreateInvoiceRequest} {fresh : Fresh}
      {inv : Invoice} {db : Db}
      (hcustomer : ∃ c ∈ s.db.customers, c.id = req.customerId ∧ c.businessId = businessId)
      (h : InvoiceService.Created s.db s.now businessId req fresh db inv) : Change env s asker db
  | move {asker : Option Uuid} {businessId id : Uuid} {current toState : InvoiceState} :
      Change env s asker { s.db with
        invoices := Table.update (InvoiceRepo.isIn businessId id current)
          (InvoiceRepo.move s.now toState) s.db.invoices }
  | claim {asker : Option Uuid} {fresh : Fresh} {fp : List UInt8} {state : InvoiceState} {job : Job}
      {db : Db} (hkeyId : ∀ k ∈ s.db.idempotencyKeys, k.id ≠ fresh.newId 0)
      (hamount : 0 ≤ job.amountCents.toInt)
      (h : PaymentService.Claimed s.db fresh fp state job db) : Change env s asker db
  | lease {asker : Option Uuid} {locked ids : List Uuid}
      (hbatch : Reconciler.isBatch s.db s.now locked ids = true) :
      Change env s asker (Reconciler.lease s.db s.now ids).1
  | finalize {asker : Option Uuid} {fresh : Fresh} {job : Job} {result : PspResult} {db : Db}
      {o : PayOutcome} (hjob : job ∈ s.db.jobs)
      (h : PaymentService.Finalized s.db s.now fresh job result db o) : Change env s asker db
  | endpoint {businessId : Uuid} {ep : WebhookEndpoint} (hbusiness : ep.businessId = businessId)
      (hid : (primaryKey WebhookEndpoint.id).conflicts s.db.webhookEndpoints ep = false) :
      Change env s (some businessId)
        { s.db with webhookEndpoints := s.db.webhookEndpoints ++ [ep] }
  | fanOut {asker : Option Uuid} {fresh : Fresh} {rows : List WebhookDelivery}
      (h : Dispatcher.insertDeliveries s.now fresh.newId 0 (Dispatcher.fanOutPairs s.db s.now)
        s.db.webhookDeliveries = .ok rows) :
      Change env s asker { s.db with webhookDeliveries := rows }
  | batch {asker : Option Uuid} {ids : List Uuid} :
      Change env s asker { s.db with
        webhookDeliveries := Table.update (fun d => ids.contains d.id) (Dispatcher.claimed s.now)
          s.db.webhookDeliveries }
  | outcome {asker : Option Uuid} {id : Uuid} {f : WebhookDelivery → WebhookDelivery}
      (hf : Dispatcher.IsOutcome f) :
      Change env s asker { s.db with
        webhookDeliveries := Table.update (fun d => d.id = id) f s.db.webhookDeliveries }
  | redeliver {asker : Option Uuid} {businessId id : Uuid} :
      Change env s asker { s.db with
        webhookDeliveries := Table.update (WebhookService.canRedeliver businessId id)
          (WebhookService.redelivered s.now) s.db.webhookDeliveries }
  | key {businessId : Uuid} {k : ApiKey} (hbusiness : k.businessId = businessId)
      (hlastFour : k.lastFour.toList.length = 4)
      (hid : (primaryKey ApiKey.id).conflicts s.db.apiKeys k = false)
      (hkeyPrefix : uqApiKeysPrefix.conflicts s.db.apiKeys k = false) :
      Change env s (some businessId) { s.db with apiKeys := s.db.apiKeys ++ [k] }
  | revoke {asker : Option Uuid} {businessId id : Uuid} :
      Change env s asker { s.db with
        apiKeys := Table.update (ApiKeyRepo.isRevocable businessId id)
          (fun k => { k with revokedAt := some s.now }) s.db.apiKeys }
  | touch {asker : Option Uuid} {keyPrefix : String} :
      Change env s asker (Auth.touch s.db s.now keyPrefix)

/-! ## The inversion -/

theorem change_of_payments {pl : Payments.Label δ} {p : Payments.State}
    (hs : Payments.Sound env.toEnv s.toState)
    (h : Payments.step env.toEnv s.toState pl = some p) : Change env s none p.db := by
  cases Payments.step_effect h with
  | advance _ => exact .same
  | @create businessId req fresh db inv hcreated =>
    simp only [Payments.step] at h
    split at h
    · cases h
    · rename_i db' resp hcreate
      exact .invoice (InvoiceService.customer_of_create hcreate) hcreated
  | lease _ hbatch => exact .lease hbatch
  | quiet _ _ => exact .same
  | send _ _ _ => exact .same
  | @claim w fresh call state amount db job hw _ _ hclaimed =>
    simp only [Payments.step, hw, Option.bind_some, Payments.workerStep, Payments.payStep] at h
    -- the worker goes on to charge, so the claim has committed
    split at h
    · have hworker := congrArg (fun u => u.workers w) (Option.some.inj h)
      simp [Payments.State.setWorker] at hworker
    · have hworker := congrArg (fun u => u.workers w) (Option.some.inj h)
      simp [Payments.State.setWorker] at hworker
    · rename_i db' job' hclaim
      have hworker := congrArg (fun u => u.workers w) (Option.some.inj h)
      simp only [Payments.State.setWorker, if_true, Option.some.injEq, Payments.Worker.pay.injEq,
        Payments.PayStage.charging.injEq, true_and, and_true] at hworker
      subst hworker
      obtain ⟨hkeyId, hamount⟩ := PaymentService.checks_of_claim hclaim
      exact .claim hkeyId hamount hclaimed
  | replay _ => exact .same
  | serve _ _ => exact .same
  | finalize hw hresult hfinal _ =>
    obtain ⟨since, holder, hhead⟩ := Payments.Worker.head_of_result hresult
    exact .finalize (hs.held _ _ hw _ (List.mem_of_head? hhead)) hfinal
  | move _ happly =>
    obtain ⟨rfl, -⟩ := InvoiceService.apply_eq_ok happly
    exact .move

theorem change_of_dispatcher {maxAttempts : Int} {h : Webhooks.State} {wl : Webhooks.Label}
    (hl : isDispatcher wl = true) (hstep : Webhooks.step maxAttempts s.hooks wl = some h) :
    Change env s none h.db := by
  cases Webhooks.step_effect hstep with
  | advance _ => cases hl
  | register _ => cases hl
  | emit _ => cases hl
  | redeliver _ => cases hl
  | fanOut hfanOut =>
    obtain ⟨rows, hrows, rfl⟩ := Dispatcher.fanOut_eq_ok hfanOut
    exact .fanOut hrows
  | claim _ _ hclaim _ =>
    rw [Dispatcher.claim_eq_ok hclaim]
    exact .batch
  | release _ _ _ => exact .same
  | write _ _ _ hsend =>
    obtain ⟨f, hf, rfl⟩ := Dispatcher.sendOne_eq_ok hsend
    exact .outcome hf

theorem change_of_call {db : Db} {req : Call} {a : Answer}
    (h : req.perform env s.db s.now = .ok (db, a)) : Change env s (some req.businessId) db := by
  cases req with
  | createCustomer businessId id body =>
    obtain ⟨⟨db₁, resp⟩, hcreate, heq⟩ := map_eq_ok h
    obtain ⟨rfl, -⟩ := Prod.mk.inj heq
    obtain ⟨c, hbusiness, hid, hemail, rfl⟩ := CustomerService.create_inserts hcreate
    exact .customer hbusiness hid hemail
  | createInvoice businessId body fresh =>
    obtain ⟨⟨db₁, resp⟩, hcreate, heq⟩ := map_eq_ok h
    obtain ⟨rfl, -⟩ := Prod.mk.inj heq
    obtain ⟨inv, hcreated⟩ := InvoiceService.create_eq_ok hcreate
    exact .invoice (InvoiceService.customer_of_create hcreate) hcreated
  | registerEndpoint businessId id secret body =>
    obtain ⟨⟨db₁, resp⟩, hcreate, heq⟩ := map_eq_ok h
    obtain ⟨rfl, -⟩ := Prod.mk.inj heq
    obtain ⟨hbusiness, hid, rfl⟩ := WebhookService.registerEndpoint_inserts hcreate
    exact .endpoint hbusiness hid
  | redeliver businessId deliveryId =>
    obtain ⟨db₁, hredeliver, heq⟩ := map_eq_ok h
    obtain ⟨rfl, -⟩ := Prod.mk.inj heq
    obtain ⟨-, rfl⟩ := WebhookService.redeliver_eq_ok hredeliver
    exact .redeliver
  | createKey businessId id random body =>
    obtain ⟨⟨db₁, resp⟩, hcreate, heq⟩ := map_eq_ok h
    obtain ⟨rfl, -⟩ := Prod.mk.inj heq
    obtain ⟨k, hbusiness, hlastFour, hid, hkeyPrefix, rfl⟩ := ApiKeys.create_inserts hcreate
    exact .key hbusiness hlastFour hid hkeyPrefix
  | revokeKey businessId id =>
    obtain ⟨db₁, hrevoke, heq⟩ := map_eq_ok h
    obtain ⟨rfl, -⟩ := Prod.mk.inj heq
    rw [ApiKeys.revoke_updates hrevoke]
    exact .revoke

/-- Every step of a reachable state makes one of the changes. -/
theorem step_change (hs : Payments.Sound env.toEnv s.toState) (h : step env s l = some t) :
    Change env s l.asker t.db := by
  cases l with
  | payments pl =>
    obtain ⟨p, hp, rfl⟩ := Option.map_eq_some_iff.mp h
    exact change_of_payments hs hp
  | dispatcher wl =>
    simp only [step] at h
    split_ifs at h with hl
    obtain ⟨hooks, hhooks, rfl⟩ := Option.map_eq_some_iff.mp h
    exact change_of_dispatcher hl hhooks
  | call c req =>
    simp only [step, callStep] at h
    split at h
    · cases h
    · split at h
      · obtain rfl := Option.some.inj h
        exact .same
      · rename_i db a hperform
        obtain rfl := Option.some.inj h
        exact change_of_call hperform
  | touch keyPrefix =>
    obtain rfl := Option.some.inj h
    exact .touch

end Service

end InvoicePayment
