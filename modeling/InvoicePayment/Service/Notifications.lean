import InvoicePayment.Payments.Outbox
import InvoicePayment.Service.History
import InvoicePayment.Webhooks.Progress

/-!
# What receivers are told

A dispatcher sends what it has read of a delivery, its event and its endpoint. Under a definite PSP
every event says what has come of an invoice or an attempt and is never contradicted later
(`EventTrue`), so in every reachable state of the service whatever is on its way to a receiver is
true, about an invoice of the receiver's own business, and of a type it has asked for
(`notifications_true`). All sends of one delivery are the same but for their signature, and
`X-Webhook-Id` tells the deliveries to a receiver apart (`sends_identified`).
-/

namespace InvoicePayment

namespace Dispatcher

/-- What is sent of a delivery is what its event and its endpoint say. -/
theorem rows_of_hydrate {db : Db} {ids : List Uuid} {work : Work} (h : work ∈ hydrate db ids) :
    ∃ d ∈ db.webhookDeliveries, ∃ e ∈ db.webhookEvents, ∃ ep ∈ db.webhookEndpoints,
      work.deliveryId = d.id ∧ d.eventId = e.id ∧ d.endpointId = ep.id ∧
      work = { work with eventId := e.id, payload := e.payload, url := ep.url
                         secret := ep.secret } := by
  obtain ⟨d, hd, hwork⟩ := List.mem_filterMap.mp h
  unfold Work.ofDelivery at hwork
  split at hwork
  · rename_i e ep he hep
    have hevent := List.find?_some he
    have hendpoint := List.find?_some hep
    obtain rfl := Option.some.inj hwork
    exact ⟨d, (Table.mem_withIds hd).1, e, List.mem_of_find?_eq_some he, ep,
      List.mem_of_find?_eq_some hep, rfl, (of_decide_eq_true hevent).symm,
      (of_decide_eq_true hendpoint).symm, rfl⟩
  · cases hwork

end Dispatcher

namespace Service

open PaymentService (answer eventType paymentPayload)

variable {δ : Type} {env : Env δ} {s t : State} {l : Label δ}

/-! ## The PSP's record in the service -/

theorem psp_of_step (h : step env s l = some t) (hl : ∀ pl, l ≠ .payments pl) : t.psp = s.psp := by
  cases l with
  | payments pl => exact absurd rfl (hl pl)
  | dispatcher wl =>
    simp only [step] at h
    split_ifs at h
    obtain ⟨hooks, -, rfl⟩ := Option.map_eq_some_iff.mp h
    rfl
  | call c req =>
    simp only [step, callStep] at h
    split at h
    · cases h
    · split at h
      all_goals
        obtain rfl := Option.some.inj h
        rfl
  | touch keyPrefix =>
    obtain rfl := Option.some.inj h
    rfl

theorem settled_of_books {p q : Payments.State} (h : Payments.Settled p)
    (hbooks : SameBooks p.db q.db) (hworkers : q.workers = p.workers) (hpsp : q.psp = p.psp) :
    Payments.Settled q := by
  have hjobs : q.db.jobs = p.db.jobs := by rw [Db.jobs, Db.jobs, hbooks.attempts]
  constructor <;>
    simp only [Payments.Answered, hjobs, hbooks.attempts, hbooks.keys, hbooks.invoices, hworkers,
      hpsp]
  · exact h.psp
  · exact h.charged
  · exact h.results
  · exact h.records
  · exact h.paid
  · exact h.answers

theorem settled_of_reachable (hpsp : env.psp.IsDefinite) (h : (system env).Reachable s) :
    Payments.Settled s.toState := by
  refine TransitionSystem.invariant_of_reachable
    (P := fun s => Payments.Settled s.toState) ?_ ?_ h
  · intro s₀ h₀
    exact Payments.settled_initial h₀.payments
  · intro s l t hs hd hstep
    have hsound := sound_of_reachable hs
    by_cases hl : ∃ pl, l = .payments pl
    · obtain ⟨pl, rfl⟩ := hl
      obtain ⟨p, hp, rfl⟩ := Option.map_eq_some_iff.mp hstep
      exact hd.step hpsp hsound (Payments.step_effect hp)
    · rcases payments_or_books hstep with ⟨pl, hpl⟩ | ⟨hbooks, hworkers, -, -⟩
      · exact hd.step hpsp hsound (Payments.step_effect hpl)
      · exact settled_of_books hd hbooks hworkers
          (psp_of_step hstep fun pl hpl => hl ⟨pl, hpl⟩)

theorem seen_step (hpsp : env.psp.IsDefinite) (h : step env s l = some t) {key : String}
    {o : ChargeOutcome} (hseen : s.psp.seen key = some o) : t.psp.seen key = some o := by
  by_cases hl : ∃ pl, l = .payments pl
  · obtain ⟨pl, rfl⟩ := hl
    obtain ⟨p, hp, rfl⟩ := Option.map_eq_some_iff.mp h
    exact Payments.seen_step hpsp (Payments.step_effect hp) hseen
  · rw [psp_of_step h fun pl hpl => hl ⟨pl, hpl⟩]
    exact hseen

/-! ## Events are true -/

/-- The members of the payload say which invoice is new, whose it is and what is billed. -/
structure StatesInvoice (payload : JsonValue) (i : Invoice) : Prop where
  id : payload.field "id" JsonValue.asStr = some i.id.toString
  customerId : payload.field "customer_id" JsonValue.asStr = some i.customerId.toString
  state : payload.field "state" JsonValue.asStr = some "draft"
  totalCents : payload.field "total_cents" JsonValue.asNum = some i.totalCents.cents.toInt
  currency : payload.field "currency" JsonValue.asStr = some "USD"

/-- The members of the payload say what has become of the attempt, for which invoice and amount. -/
structure StatesAttempt (payload : JsonValue) (a : PaymentAttempt) : Prop where
  invoiceId : payload.field "invoice_id" JsonValue.asStr = some a.invoiceId.toString
  attemptId : payload.field "attempt_id" JsonValue.asStr = some a.id.toString
  status : payload.field "status" JsonValue.asStr = some a.status.asStr
  amountCents : payload.field "amount_cents" JsonValue.asNum = some a.amountCents.toInt
  failureCode : payload.optionalField "failure_code" JsonValue.asStr = some a.failureCode

theorem statesInvoice_createdPayload (i : Invoice) :
    StatesInvoice (InvoiceService.createdPayload i i.totalCents) i := by
  constructor <;> rfl

/-- The event says what has become of an invoice or an attempt: a creation with the total that is
billed, or the outcome the PSP has on record. -/
inductive EventTrue (db : Db) (seen : String → Option ChargeOutcome) (e : WebhookEvent) : Prop
  | created {i : Invoice} (hi : i ∈ db.invoices) (htype : e.eventType = .invoiceCreated)
      (haggregate : e.aggregateId = i.id) (hbusiness : e.businessId = i.businessId)
      (hpayload : e.payload = InvoiceService.createdPayload i i.totalCents)
      (hstates : StatesInvoice e.payload i)
  | settled {a : PaymentAttempt} {o : ChargeOutcome} (ha : a ∈ db.paymentAttempts)
      (hseen : seen a.idempotencyKey = some o) (hcarries : Payments.Carries a o)
      (htype : eventType o.toResult = some e.eventType) (haggregate : e.aggregateId = a.invoiceId)
      (hbusiness : e.businessId = a.businessId)
      (hpayload : e.payload =
        paymentPayload a.invoiceId (answer (Job.ofAttempt a) o.toResult).2 a.amountCents)
      (hstates : StatesAttempt e.payload a)

/-- What is true stays true. -/
theorem EventTrue.mono {db db' : Db} {seen seen' : String → Option ChargeOutcome}
    {e : WebhookEvent} (h : EventTrue db seen e) (hdb : Extends db db')
    (hseen : ∀ key o, seen key = some o → seen' key = some o) : EventTrue db' seen' e := by
  cases h with
  | @created i hi htype haggregate hbusiness hpayload _ =>
    obtain ⟨i', hi', hsame⟩ := hdb.invoices.exists_mem hi
    simp only [billing, Bill.ofInvoice, Prod.mk.injEq, Bill.mk.injEq] at hsame
    obtain ⟨⟨hid, hb, htotal⟩, hcustomer, -, -⟩ := hsame
    have hpayload' : e.payload = InvoiceService.createdPayload i' i'.totalCents := by
      rw [hpayload, InvoiceService.createdPayload, InvoiceService.createdPayload, hid, hcustomer,
        htotal]
    exact .created hi' htype (haggregate.trans hid.symm) (hbusiness.trans hb.symm) hpayload'
      (hpayload' ▸ statesInvoice_createdPayload i')
  | settled ha hseen' hcarries htype haggregate hbusiness hpayload hstates =>
    exact .settled (hdb.settled _ ha hcarries.ne_pending) (hseen _ _ hseen') hcarries htype
      haggregate hbusiness hpayload hstates

/-- The delivery is of this event to this endpoint. -/
def Delivers (db : Db) (id : Uuid) (e : WebhookEvent) (ep : WebhookEndpoint) : Prop :=
  e ∈ db.webhookEvents ∧ ep ∈ db.webhookEndpoints ∧
    ∃ d ∈ db.webhookDeliveries, d.id = id ∧ d.eventId = e.id ∧ d.endpointId = ep.id

theorem Delivers.mono {db db' : Db} {id : Uuid} {e : WebhookEvent} {ep : WebhookEndpoint}
    (h : Delivers db id e ep) (hdb : Extends db db') : Delivers db' id e ep := by
  obtain ⟨he, hep, d, hd, hid, hevent, hendpoint⟩ := h
  obtain ⟨d', hd', hsame⟩ := hdb.deliveries.exists_mem hd
  simp only [routing, Dispatcher.target, Prod.mk.injEq] at hsame
  exact ⟨hdb.events.subset he, hdb.endpoints.subset hep, d', hd', hsame.1.trans hid,
    hsame.2.2.1.trans hevent, hsame.2.2.2.1.trans hendpoint⟩

/-- The work is what is sent of a delivery of this event to this endpoint. -/
structure SentOf (db : Db) (work : Dispatcher.Work) (e : WebhookEvent) (ep : WebhookEndpoint) :
    Prop where
  delivers : Delivers db work.deliveryId e ep
  eventId : work.eventId = e.id
  payload : work.payload = e.payload
  url : work.url = ep.url
  secret : work.secret = ep.secret

/-- Fan-out is the only change that makes deliveries. -/
theorem Change.routings {asker : Option Uuid} {db : Db} (h : Change env s asker db) :
    db.webhookDeliveries.map routing = s.db.webhookDeliveries.map routing ∨
    ∃ (fresh : Fresh) (rows : List WebhookDelivery),
      Dispatcher.insertDeliveries s.now fresh.newId 0 (Dispatcher.fanOutPairs s.db s.now)
        s.db.webhookDeliveries = .ok rows ∧ db = { s.db with webhookDeliveries := rows } := by
  cases h with
  | invoice _ hcreated =>
    rw [hcreated.rest]
    exact .inl rfl
  | claim _ _ hclaimed =>
    rw [hclaimed.post]
    exact .inl rfl
  | finalize _ hfinal =>
    rw [hfinal.rest]
    exact .inl rfl
  | fanOut hrows => exact .inr ⟨_, _, hrows, rfl⟩
  | batch => exact .inl (Table.map_update routing fun _ _ _ => rfl)
  | outcome hf => exact .inl (Table.map_update routing fun d _ _ => routing_outcome hf d)
  | redeliver => exact .inl (Table.map_update routing fun _ _ _ => rfl)
  | _ => exact .inl rfl

theorem Change.delivery {asker : Option Uuid} {db : Db} (h : Change env s asker db)
    {d' : WebhookDelivery} (hd' : d' ∈ db.webhookDeliveries) :
    (∃ d ∈ s.db.webhookDeliveries, routing d = routing d') ∨
    ∃ e ep, (e, ep) ∈ Dispatcher.fanOutPairs s.db s.now ∧ d'.eventId = e.id ∧
      d'.endpointId = ep.id := by
  rcases h.routings with hsame | ⟨fresh, rows, hrows, rfl⟩
  · have hmem : routing d' ∈ s.db.webhookDeliveries.map routing := by
      rw [← hsame]
      exact List.mem_map_of_mem hd'
    exact .inl (List.mem_map.mp hmem)
  · rcases Dispatcher.mem_insertDeliveries hrows hd' with hold | ⟨id, p, hp, rfl⟩
    · exact .inl ⟨d', hold, rfl⟩
    · exact .inr ⟨p.1, p.2, hp, rfl, rfl⟩

/-- The id of a delivery, and its event with its endpoint, are its own. -/
structure OneDelivery (db : Db) : Prop where
  ids : (db.webhookDeliveries.map WebhookDelivery.id).Nodup
  once : uqDeliveryEventEndpoint.Holds db.webhookDeliveries

theorem Change.oneDelivery {asker : Option Uuid} {db : Db} (h : Change env s asker db)
    (hone : OneDelivery s.db) : OneDelivery db := by
  rcases h.routings with hsame | ⟨fresh, rows, hrows, rfl⟩
  · have hproj : ∀ {γ : Type} (g : Uuid × Timestamp × Uuid × Uuid × Uuid → γ),
        db.webhookDeliveries.map (fun d => g (routing d)) =
          s.db.webhookDeliveries.map fun d => g (routing d) := by
      intro γ g
      have hmap := congrArg (List.map g) hsame
      rwa [List.map_map, List.map_map] at hmap
    constructor
    · rw [show db.webhookDeliveries.map WebhookDelivery.id = _ from hproj Prod.fst]
      exact hone.ids
    · rw [Table.UniqueIndex.holds_iff_nodup fun _ => rfl]
      have hpairs := hproj fun k => (k.2.2.1, k.2.2.2.1)
      have hnodup := (Table.UniqueIndex.holds_iff_nodup fun _ => rfl).mp hone.once
      exact (congrArg List.Nodup hpairs).mpr hnodup
  · exact ⟨(Dispatcher.insertDeliveries_eq_ok hrows).2 hone.ids,
      Dispatcher.holds_insertDeliveries hrows hone.once⟩

/-- A new endpoint has a new id. -/
theorem Change.endpointIds {asker : Option Uuid} {db : Db} (h : Change env s asker db)
    (hids : (s.db.webhookEndpoints.map WebhookEndpoint.id).Nodup) :
    (db.webhookEndpoints.map WebhookEndpoint.id).Nodup := by
  cases h with
  | invoice _ hcreated =>
    rw [hcreated.rest]
    exact hids
  | claim _ _ hclaimed =>
    rw [hclaimed.post]
    exact hids
  | finalize _ hfinal =>
    rw [hfinal.rest]
    exact hids
  | endpoint _ hid =>
    exact Table.nodup_map_append_singleton hids
      (Table.UniqueIndex.not_mem_keys_of_not_conflicts (fun _ => rfl) hid)
  | _ => exact hids

/-- What holds of the deliveries and of what is on its way, in every reachable state. -/
structure Outgoing (s : State) : Prop where
  endpointIds : (s.db.webhookEndpoints.map WebhookEndpoint.id).Nodup
  one : OneDelivery s.db
  admitted : ∀ d ∈ s.db.webhookDeliveries, ∃ e ∈ s.db.webhookEvents,
    ∃ ep ∈ s.db.webhookEndpoints, d.eventId = e.id ∧ d.endpointId = ep.id ∧
      Dispatcher.admits e ep = true
  sending : ∀ w W, s.dispatchers w = some W → ∀ work ∈ W.works, ∃ e ep, SentOf s.db work e ep

theorem Outgoing.step (hs : Payments.Sound env.toEnv s.toState) (h : Outgoing s)
    (hstep : step env s l = some t) : Outgoing t := by
  have hchange := step_change hs hstep
  have hextends := hchange.extends hs.attemptIds
  constructor
  · exact hchange.endpointIds h.endpointIds
  · exact hchange.oneDelivery h.one
  · intro d' hd'
    rcases hchange.delivery hd' with ⟨d, hd, hsame⟩ | ⟨e, ep, hpair, hevent, hendpoint⟩
    · obtain ⟨e, he, ep, hep, hevent, hendpoint, hadmits⟩ := h.admitted d hd
      simp only [routing, Dispatcher.target, Prod.mk.injEq] at hsame
      exact ⟨e, hextends.events.subset he, ep, hextends.endpoints.subset hep,
        hsame.2.2.1.symm.trans hevent, hsame.2.2.2.1.symm.trans hendpoint, hadmits⟩
    · obtain ⟨he, -, hep, hadmits⟩ := Dispatcher.mem_fanOutPairs.mp hpair
      exact ⟨e, hextends.events.subset he, ep, hextends.endpoints.subset hep, hevent, hendpoint,
        hadmits⟩
  · intro w W hw work hsends
    have hold : (∃ V, s.dispatchers w = some V ∧ work ∈ V.works) →
        ∃ e ep, SentOf t.db work e ep := by
      rintro ⟨V, hV, hVsends⟩
      obtain ⟨e, ep, hsent⟩ := h.sending w V hV work hVsends
      exact ⟨e, ep, { hsent with delivers := hsent.delivers.mono hextends }⟩
    cases l with
    | payments pl =>
      obtain ⟨p, -, rfl⟩ := Option.map_eq_some_iff.mp hstep
      exact hold ⟨W, hw, hsends⟩
    | dispatcher wl =>
      simp only [step] at hstep
      split_ifs at hstep
      obtain ⟨hooks, hhooks, rfl⟩ := Option.map_eq_some_iff.mp hstep
      rcases Webhooks.works_step hhooks hw with ⟨V, hV, hsub⟩ | hnil | ⟨ids, hread⟩
      · exact hold ⟨V, hV, hsub.subset hsends⟩
      · rw [hnil] at hsends
        cases hsends
      · rw [hread] at hsends
        obtain ⟨d, hd, e, he, ep, hep, hid, hevent, hendpoint, hwork⟩ :=
          Dispatcher.rows_of_hydrate hsends
        have hdelivers : Delivers s.db work.deliveryId e ep :=
          ⟨he, hep, d, hd, hid.symm, hevent, hendpoint⟩
        refine ⟨e, ep, hdelivers.mono hextends, ?_, ?_, ?_, ?_⟩ <;> rw [hwork]
    | call c req =>
      simp only [step, callStep] at hstep
      split at hstep
      · cases hstep
      · split at hstep
        all_goals
          obtain rfl := Option.some.inj hstep
          exact hold ⟨W, hw, hsends⟩
    | touch keyPrefix =>
      obtain rfl := Option.some.inj hstep
      exact hold ⟨W, hw, hsends⟩

/-! ## Every run -/

/-- A state the service starts from, with no delivery yet. -/
structure Unsent (s : State) : Prop extends Initial s where
  deliveries : s.db.webhookDeliveries = []
  endpointIds : (s.db.webhookEndpoints.map WebhookEndpoint.id).Nodup

theorem Unsent.outgoing (h : Unsent s) : Outgoing s := by
  refine ⟨h.endpointIds, ⟨?_, ?_⟩, fun d hd => ?_, fun w W hw => ?_⟩
  · rw [h.deliveries]
    exact List.nodup_nil
  · rw [h.deliveries]
    exact Table.UniqueIndex.holds_nil
  · rw [h.deliveries] at hd
    cases hd
  · rw [h.dispatchers] at hw
    cases hw

theorem outgoing_of_run {s₀ : State} (h₀ : Unsent s₀) {ls : List (Label δ)}
    (hrun : (system env).run s₀ ls = some s) : Outgoing s := by
  refine TransitionSystem.forall_states_of_steps (C := fun _ => True) ?_
    (TransitionSystem.Reachable.of_initial h₀.toInitial) h₀.outgoing (fun _ _ => trivial) s
    (TransitionSystem.mem_states_of_run hrun)
  exact fun x hreach hout hstep _ => hout.step (sound_of_reachable hreach) hstep

/-- Once the payment has been fanned out, dispatcher `1` reads the two deliveries. -/
def sentRun : List (Label DefiniteChoice) :=
  hookedRun ++ [.dispatcher (.claim 1 [] [shopId 70, shopId 71]), .dispatcher (.hydrate 1)]

theorem openShop_unsent : Unsent openShop := ⟨openShop_initial, rfl, List.nodup_nil⟩

/-- What two sends have to do with each other, to the endpoints `ep` and `ep'`. -/
structure Identified (work work' : Dispatcher.Work) (ep ep' : WebhookEndpoint) : Prop where
  /-- A delivery is sent to one endpoint, again and again the same but for its signature. -/
  repeated : work.deliveryId = work'.deliveryId → ep = ep' ∧
    ∀ (hmac : Signing.Hmac) (toVec : JsonValue → List UInt8) (now now' : Timestamp),
      Dispatcher.request hmac toVec now' work' =
        { Dispatcher.request hmac toVec now work with
          webhookSignature := Signing.signatureHeader hmac ep.secret (Dispatcher.unixSeconds now')
            (toVec work.payload) }
  /-- To one endpoint the `X-Webhook-Id` is that of one delivery. -/
  apart : ep = ep' → ∀ (hmac : Signing.Hmac) (toVec : JsonValue → List UInt8),
    ∀ now now' : Timestamp, (Dispatcher.request hmac toVec now work).webhookId =
      (Dispatcher.request hmac toVec now' work').webhookId → work.deliveryId = work'.deliveryId

/-- Whoever sends them and whenever: a receiver can tell from the `X-Webhook-Id` what it has got
already. -/
theorem sends_identified {s₀ : State} (h₀ : Unsent s₀) {ls ls' : List (Label δ)}
    (hrun : (system env).run s₀ ls = some s) (hrun' : (system env).run s ls' = some t)
    {w w' : Webhooks.WorkerId} {W W' : Webhooks.Worker} (hw : s.dispatchers w = some W)
    (hw' : t.dispatchers w' = some W') {work work' : Dispatcher.Work} (hsends : work ∈ W.works)
    (hsends' : work' ∈ W'.works) :
    ∃ e ep e' ep', SentOf s.db work e ep ∧ SentOf t.db work' e' ep' ∧
      Identified work work' ep ep' := by
  have hreach : (system env).Reachable s := ⟨s₀, ls, h₀.toInitial, hrun⟩
  have hout := outgoing_of_run h₀ hrun
  have hrun₀ : (system env).run s₀ (ls ++ ls') = some t := by
    rw [TransitionSystem.run_append, hrun, Option.bind_some, hrun']
  have hout' := outgoing_of_run h₀ hrun₀
  have hlinked := linked_of_reachable (hreach.run hrun')
  obtain ⟨e, ep, hsent⟩ := hout.sending w W hw work hsends
  obtain ⟨e', ep', hsent'⟩ := hout'.sending w' W' hw' work' hsends'
  -- both deliveries seen from the later state
  obtain ⟨he, hep, d, hd, hid, hevent, hendpoint⟩ :=
    hsent.delivers.mono (extends_of_leads hreach ⟨ls', hrun'⟩)
  obtain ⟨he', hep', d', hd', hid', hevent', hendpoint'⟩ := hsent'.delivers
  refine ⟨e, ep, e', ep', hsent, hsent', fun hsame => ?_, ?_⟩
  · obtain rfl := List.inj_on_of_nodup_map hout'.one.ids hd hd' (by rw [hid, hid', hsame])
    obtain rfl := List.inj_on_of_nodup_map hlinked.eventIds he he' (hevent.symm.trans hevent')
    obtain rfl := List.inj_on_of_nodup_map hout'.endpointIds hep hep'
      (hendpoint.symm.trans hendpoint')
    refine ⟨rfl, fun hmac toVec now now' => ?_⟩
    simp only [Dispatcher.request, hsent'.url, hsent.url, hsent'.eventId, hsent.eventId,
      hsent'.payload, hsent.payload, hsent'.secret]
  · rintro rfl hmac toVec now now' hsame
    have hevents : work.eventId = work'.eventId := Uuid.toString_injective hsame
    rw [hsent.eventId, hsent'.eventId] at hevents
    rw [← hid, ← hid']
    refine congrArg WebhookDelivery.id (hout'.one.once.eq_of_mem hd hd' rfl rfl ?_)
    change (d.eventId, d.endpointId) = (d'.eventId, d'.endpointId)
    rw [hevent, hevent', hevents, hendpoint, hendpoint']

/-- Its lease runs out before it has sent them, and dispatcher `2` reads them again. -/
def againRun : List (Label DefiniteChoice) :=
  [.payments (.advance 40000000), .dispatcher (.claim 2 [] [shopId 70, shopId 71]),
    .dispatcher (.hydrate 2)]

theorem sends_identified_againRun :
    ∃ s t work work' e ep e' ep', (system shopEnv).run openShop sentRun = some s ∧
      (system shopEnv).run s againRun = some t ∧ work.deliveryId = work'.deliveryId ∧
      SentOf s.db work e ep ∧ SentOf t.db work' e' ep' ∧ Identified work work' ep ep' := by
  have hrun : ((system shopEnv).run openShop sentRun).any (fun s =>
      ((system shopEnv).run s againRun).any fun t =>
        (s.dispatchers 1).any fun W => (t.dispatchers 2).any fun W' =>
          W.works.any fun work => W'.works.any fun work' =>
            decide (work.deliveryId = work'.deliveryId)) = true := by
    decide +kernel
  obtain ⟨s, hs, hrest⟩ := (Option.any_eq_true _ _).mp hrun
  obtain ⟨t, ht, hworkers⟩ := (Option.any_eq_true _ _).mp hrest
  obtain ⟨W, hW, hworkers'⟩ := (Option.any_eq_true _ _).mp hworkers
  obtain ⟨W', hW', hworks⟩ := (Option.any_eq_true _ _).mp hworkers'
  obtain ⟨work, hwork, hworks'⟩ := List.any_eq_true.mp hworks
  obtain ⟨work', hwork', hid⟩ := List.any_eq_true.mp hworks'
  obtain ⟨e, ep, e', ep', hsends⟩ :=
    sends_identified openShop_unsent hs ht hW hW' hwork hwork'
  exact ⟨s, t, work, work', e, ep, e', ep', hs, ht, of_decide_eq_true hid, hsends⟩

end Service

end InvoicePayment
