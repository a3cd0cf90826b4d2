import InvoicePayment.Webhooks.System
import Mathlib.Data.List.Nodup

/-!
# What a step of the webhook system can do

One specification per query, then the inversion: `step_effect` says which of eight changes a step
makes and what was checked before it.
-/

namespace InvoicePayment

/-! ## The queries -/

namespace Dispatcher

/-- Fan-out appends rows, and the primary key stays one. -/
theorem insertDeliveries_eq_ok {now : Timestamp} {newId : ℕ → Uuid} {n : ℕ}
    {pairs : List (WebhookEvent × WebhookEndpoint)} {rows rows' : List WebhookDelivery}
    (h : insertDeliveries now newId n pairs rows = .ok rows') :
    (∃ new, rows' = rows ++ new) ∧
      ((rows.map WebhookDelivery.id).Nodup → (rows'.map WebhookDelivery.id).Nodup) := by
  induction pairs generalizing n rows with
  | nil =>
    obtain rfl := Except.ok.inj h
    exact ⟨⟨[], by simp⟩, id⟩
  | cons p pairs ih =>
    obtain ⟨e, ep⟩ := p
    unfold insertDeliveries at h
    dsimp only at h
    split_ifs at h with hdup hid
    · exact ih h
    · obtain ⟨⟨new, rfl⟩, hnodup⟩ := ih h
      refine ⟨⟨newDelivery now (newId n) e ep :: new, by simp⟩, fun hrows => hnodup ?_⟩
      have hfresh : (newDelivery now (newId n) e ep).id ∉ rows.map WebhookDelivery.id := by
        have hfree : (primaryKey WebhookDelivery.id).conflicts rows
            (newDelivery now (newId n) e ep) = false := by
          simpa using hid
        exact Table.UniqueIndex.not_mem_keys_of_not_conflicts (fun _ => rfl) hfree
      exact Table.nodup_map_append_singleton hrows hfresh

/-- A row that fan-out leaves was there, or is a new delivery of a selected pair. -/
theorem mem_insertDeliveries {now : Timestamp} {newId : ℕ → Uuid} {n : ℕ}
    {pairs : List (WebhookEvent × WebhookEndpoint)} {rows rows' : List WebhookDelivery}
    (h : insertDeliveries now newId n pairs rows = .ok rows') {d : WebhookDelivery}
    (hd : d ∈ rows') : d ∈ rows ∨ ∃ id, ∃ p ∈ pairs, d = newDelivery now id p.1 p.2 := by
  induction pairs generalizing n rows with
  | nil =>
    obtain rfl := Except.ok.inj h
    exact .inl hd
  | cons p pairs ih =>
    have hlater : (∃ id, ∃ q ∈ pairs, d = newDelivery now id q.1 q.2) →
        ∃ id, ∃ q ∈ p :: pairs, d = newDelivery now id q.1 q.2 := by
      rintro ⟨id, q, hq, rfl⟩
      exact ⟨id, q, List.mem_cons_of_mem _ hq, rfl⟩
    unfold insertDeliveries at h
    dsimp only at h
    split_ifs at h with hdup hid
    · exact (ih h).imp_right hlater
    · rcases ih h with hold | hnew
      · rcases List.mem_append.mp hold with hold | hnew
        · exact .inl hold
        · rw [List.mem_singleton] at hnew
          exact .inr ⟨newId n, p, List.mem_cons_self, hnew⟩
      · exact .inr (hlater hnew)

/-- No delivery disappears in a fan-out. -/
theorem subset_insertDeliveries {now : Timestamp} {newId : ℕ → Uuid} {n : ℕ}
    {pairs : List (WebhookEvent × WebhookEndpoint)} {rows rows' : List WebhookDelivery}
    (h : insertDeliveries now newId n pairs rows = .ok rows') : rows ⊆ rows' := by
  obtain ⟨⟨new, rfl⟩, -⟩ := insertDeliveries_eq_ok h
  exact List.subset_append_left rows new

/-- After the fan-out every selected pair has a delivery: an old one or a new one. -/
theorem exists_of_insertDeliveries {now : Timestamp} {newId : ℕ → Uuid} {n : ℕ}
    {pairs : List (WebhookEvent × WebhookEndpoint)} {rows rows' : List WebhookDelivery}
    (h : insertDeliveries now newId n pairs rows = .ok rows')
    {p : WebhookEvent × WebhookEndpoint} (hp : p ∈ pairs) :
    ∃ d ∈ rows', d.eventId = p.1.id ∧ d.endpointId = p.2.id := by
  induction pairs generalizing n rows with
  | nil => cases hp
  | cons q pairs ih =>
    unfold insertDeliveries at h
    dsimp only at h
    split_ifs at h with hdup hid
    · rcases List.mem_cons.mp hp with rfl | hp
      · -- the row that conflicts is the delivery
        simp only [Table.UniqueIndex.conflicts, uqDeliveryEventEndpoint, Bool.true_and,
          List.any_eq_true] at hdup
        obtain ⟨d, hd, hkey⟩ := hdup
        obtain ⟨hevent, hendpoint⟩ := Prod.mk.inj (of_decide_eq_true hkey)
        exact ⟨d, subset_insertDeliveries h hd, hevent, hendpoint⟩
      · exact ih h hp
    · rcases List.mem_cons.mp hp with rfl | hp
      · have hnew : newDelivery now (newId n) p.1 p.2 ∈ rows' :=
          subset_insertDeliveries h (List.mem_append_right _ List.mem_cons_self)
        exact ⟨_, hnew, rfl, rfl⟩
      · exact ih h hp

/-- Fan-out passes the check of the unique index. -/
theorem holds_insertDeliveries {now : Timestamp} {newId : ℕ → Uuid} {n : ℕ}
    {pairs : List (WebhookEvent × WebhookEndpoint)} {rows rows' : List WebhookDelivery}
    (h : insertDeliveries now newId n pairs rows = .ok rows')
    (hrows : uqDeliveryEventEndpoint.Holds rows) : uqDeliveryEventEndpoint.Holds rows' := by
  induction pairs generalizing n rows with
  | nil =>
    obtain rfl := Except.ok.inj h
    exact hrows
  | cons p pairs ih =>
    unfold insertDeliveries at h
    dsimp only at h
    split_ifs at h with hdup hid
    · exact ih h hrows
    · exact ih h (Table.UniqueIndex.holds_append_singleton hrows (by simpa using hdup))

/-- What a fan-out leaves of the database, and the insert it runs. -/
theorem fanOut_eq_ok {db db' : Db} {now : Timestamp} {fresh : Fresh}
    (h : fanOut db now fresh = .ok db') :
    ∃ rows, insertDeliveries now fresh.newId 0 (fanOutPairs db now) db.webhookDeliveries
      = .ok rows ∧ db' = { db with webhookDeliveries := rows } := by
  unfold fanOut at h
  split at h
  · cases h
  rename_i rows hrows
  exact ⟨rows, hrows, (Except.ok.inj h).symm⟩

/-- The pairs a fan-out selects: an event of the last hour and an endpoint that admits it. -/
theorem mem_fanOutPairs {db : Db} {now : Timestamp} {e : WebhookEvent} {ep : WebhookEndpoint} :
    (e, ep) ∈ fanOutPairs db now ↔ e ∈ db.webhookEvents ∧ now - seconds 3600 < e.createdAt ∧
      ep ∈ db.webhookEndpoints ∧ admits e ep = true := by
  simp only [fanOutPairs, List.mem_flatMap, List.mem_filter, decide_eq_true_eq, List.mem_map,
    Prod.mk.injEq]
  constructor
  · rintro ⟨e', ⟨he, hrecent⟩, ep', ⟨hep, hadmits⟩, rfl, rfl⟩
    exact ⟨he, hrecent, hep, hadmits⟩
  · rintro ⟨he, hrecent, hep, hadmits⟩
    exact ⟨e, ⟨he, hrecent⟩, ep, ⟨hep, hadmits⟩, rfl, rfl⟩

/-- A claimed row as the claim leaves it. -/
def claimed (now : Timestamp) (d : WebhookDelivery) : WebhookDelivery :=
  { d with
    status := .inFlight
    lockedUntil := some (now + seconds 30)
    attempts := d.attempts + 1
    lastAttemptAt := some now }

theorem claim_eq_ok {db db' : Db} {now : Timestamp} {ids : List Uuid}
    (h : claim db now ids = .ok db') :
    db' = { db with
      webhookDeliveries := Table.update (fun d => ids.contains d.id) (claimed now)
        db.webhookDeliveries } := by
  unfold claim at h
  split_ifs at h
  exact (Except.ok.inj h).symm

/-- What the claim checks of every row it takes. -/
theorem isDue_of_isBatch {db : Db} {now : Timestamp} {locked ids : List Uuid}
    (h : isBatch db now locked ids = true) :
    ids.Nodup ∧ ∀ id ∈ ids, ∃ d ∈ db.webhookDeliveries, d.id = id ∧ isDue now d = true :=
  Table.due_of_isBatch h

theorem deliveryId_ofDelivery {db : Db} {d : WebhookDelivery} {work : Work}
    (h : Work.ofDelivery db d = some work) : work.deliveryId = d.id := by
  unfold Work.ofDelivery at h
  split at h
  · obtain rfl := Option.some.inj h
    rfl
  · cases h

/-- The hydrating query returns claimed rows, none twice. -/
theorem hydrate_sublist (db : Db) (ids : List Uuid) :
    ((hydrate db ids).map Work.deliveryId).Sublist ids := by
  have hrows : ((hydrate db ids).map Work.deliveryId).Sublist
      ((Table.withIds WebhookDelivery.id db.webhookDeliveries ids).map WebhookDelivery.id) := by
    unfold hydrate
    induction Table.withIds WebhookDelivery.id db.webhookDeliveries ids with
    | nil => exact List.Sublist.slnil
    | cons d rows ih =>
      cases hwork : Work.ofDelivery db d with
      | none =>
        rw [List.filterMap_cons_none hwork, List.map_cons]
        exact ih.cons _
      | some work =>
        rw [List.filterMap_cons_some hwork, List.map_cons, List.map_cons,
          deliveryId_ofDelivery hwork]
        exact ih.cons_cons _
  exact hrows.trans Table.map_withIds_sublist

/-- The event and the endpoint of a delivery, with their business. -/
def target (d : WebhookDelivery) : Uuid × Uuid × Uuid := (d.eventId, d.endpointId, d.businessId)

/-- An outcome as it is written to its row: the keys and the counter stay, the status is one of
the three outcomes. -/
structure IsOutcome (f : WebhookDelivery → WebhookDelivery) : Prop where
  id : ∀ d, (f d).id = d.id
  keys : ∀ d, target (f d) = target d
  createdAt : ∀ d, (f d).createdAt = d.createdAt
  attempts : ∀ d, (f d).attempts = d.attempts
  status : ∀ d, (f d).status = .succeeded ∨ (f d).status = .dead ∨ (f d).status = .failed

/-- An outcome is written by id alone. -/
theorem sendOne_eq_ok {db db' : Db} {now : Timestamp} {maxAttempts : Int} {work : Work}
    {result : SendResult} {delay : ℕ}
    (h : sendOne db now maxAttempts work result delay = .ok db') :
    ∃ f, IsOutcome f ∧ db' = { db with
      webhookDeliveries := Table.update (fun d => d.id = work.deliveryId) f
        db.webhookDeliveries } := by
  have hfailed : ∀ {id : Uuid} {attempts : Int} {code : Option Int} {error : String}
      {nonRetryable : Bool},
      markFailed db now maxAttempts id attempts code error nonRetryable delay = .ok db' →
      ∃ f, IsOutcome f ∧ db' = { db with
        webhookDeliveries := Table.update (fun d => d.id = id) f db.webhookDeliveries } := by
    intro id attempts code error nonRetryable h
    unfold markFailed at h
    split_ifs at h
    · refine ⟨_, ?_, (Except.ok.inj h).symm⟩
      exact ⟨fun _ => rfl, fun _ => rfl, fun _ => rfl, fun _ => rfl, fun _ => .inr (.inl rfl)⟩
    · refine ⟨_, ?_, (Except.ok.inj h).symm⟩
      exact ⟨fun _ => rfl, fun _ => rfl, fun _ => rfl, fun _ => rfl, fun _ => .inr (.inr rfl)⟩
  cases result with
  | response code =>
    simp only [sendOne] at h
    split_ifs at h
    · refine ⟨_, ?_, (Except.ok.inj h).symm⟩
      exact ⟨fun _ => rfl, fun _ => rfl, fun _ => rfl, fun _ => rfl, fun _ => .inl rfl⟩
    · exact hfailed h
  | error message => exact hfailed h

end Dispatcher

namespace WebhookService

/-- A delivery as a manual replay leaves it. -/
def redelivered (now : Timestamp) (d : WebhookDelivery) : WebhookDelivery :=
  { d with
    status := .pending
    attempts := 0
    nextAttemptAt := now
    lockedUntil := none
    lastError := none }

theorem redeliver_eq_ok {db db' : Db} {now : Timestamp} {businessId deliveryId : Uuid}
    (h : redeliver db now businessId deliveryId = .ok db') :
    (∃ d ∈ db.webhookDeliveries, d.id = deliveryId ∧ (d.status = .failed ∨ d.status = .dead)) ∧
    db' = { db with
      webhookDeliveries := Table.update (canRedeliver businessId deliveryId) (redelivered now)
        db.webhookDeliveries } := by
  unfold redeliver at h
  split_ifs at h with hany
  refine ⟨?_, (Except.ok.inj h).symm⟩
  obtain ⟨d, hd, hcan⟩ := List.any_eq_true.mp hany
  simp only [canRedeliver, Bool.and_eq_true, Bool.or_eq_true, decide_eq_true_eq] at hcan
  exact ⟨d, hd, hcan.1.1, hcan.2⟩

end WebhookService

/-! ## The inversion -/

namespace Webhooks

variable {maxAttempts : Int} {s s' : State} {l : Label}

/-- The worker whose own step a label is. -/
def Label.owner : Label → Option WorkerId
  | .hydrate w => some w
  | .respond w _ _ => some w
  | .write w _ _ => some w
  | .dbError w _ => some w
  | .crash w => some w
  | _ => none

/-- What a step may change, with what it has checked. -/
inductive Effect (maxAttempts : Int) (s : State) : Label → State → Prop
  | advance {now : Timestamp} (h : s.now ≤ now) : Effect maxAttempts s (.advance now) { s with now }
  | register {businessId : Uuid} {req : CreateEndpointRequest} {id : Uuid} {secret : List UInt8}
      (ep : WebhookEndpoint) :
      Effect maxAttempts s (.register businessId req id secret)
        (s.setDb { s.db with webhookEndpoints := s.db.webhookEndpoints ++ [ep] })
  | emit {businessId : Uuid} {eventType : EventType} {aggregateId : Uuid} {payload : JsonValue}
      {fresh : Fresh} {e : WebhookEvent} (hid : ∀ e' ∈ s.db.webhookEvents, e'.id ≠ e.id) :
      Effect maxAttempts s (.emit businessId eventType aggregateId payload fresh)
        (s.setDb { s.db with webhookEvents := s.db.webhookEvents ++ [e] })
  | fanOut {fresh : Fresh} {db : Db} (h : Dispatcher.fanOut s.db s.now fresh = .ok db) :
      Effect maxAttempts s (.fanOut fresh) (s.setDb db)
  | claim {w : WorkerId} {locked ids : List Uuid} {db : Db} {W' : Worker}
      (hw : s.workers w = none) (hbatch : Dispatcher.isBatch s.db s.now locked ids = true)
      (h : Dispatcher.claim s.db s.now ids = .ok db) (hheld : W'.held = ids) :
      Effect maxAttempts s (.claim w locked ids)
        (((s.setDb db).setClaim ids (some w)).setWorker w W')
  | release {l : Label} {w : WorkerId} {W W' : Worker} (hl : l.owner = some w)
      (hw : s.workers w = some W) (hheld : W'.held.Sublist W.held) :
      Effect maxAttempts s l (s.setWorker w W')
  | write {w : WorkerId} {i delay : ℕ} {tasks : List Task} {task : Task}
      {result : Dispatcher.SendResult} {db : Db} (hw : s.workers w = some (.sending tasks))
      (ht : tasks[i]? = some task) (hresult : task.result = some result)
      (h : Dispatcher.sendOne s.db s.now maxAttempts task.work result delay = .ok db) :
      Effect maxAttempts s (.write w i delay)
        ((s.setDb db).setWorker w (.sending (tasks.eraseIdx i)))
  | redeliver {businessId deliveryId : Uuid} {db : Db}
      (h : WebhookService.redeliver s.db s.now businessId deliveryId = .ok db) :
      Effect maxAttempts s (.redeliver businessId deliveryId)
        ((s.setDb db).setClaim [deliveryId] none)

theorem held_eraseIdx_sublist (tasks : List Task) (i : ℕ) :
    (Worker.sending (tasks.eraseIdx i)).held.Sublist (Worker.sending tasks).held :=
  (List.eraseIdx_sublist tasks i).map _

theorem held_set {tasks : List Task} {i : ℕ} {task task' : Task} (h : tasks[i]? = some task)
    (hwork : task'.work = task.work) :
    (Worker.sending (tasks.set i task')).held = (Worker.sending tasks).held := by
  obtain ⟨hi, rfl⟩ := List.getElem?_eq_some_iff.mp h
  simp only [Worker.held, List.map_set, hwork]
  have hi' : i < (tasks.map fun t => t.work.deliveryId).length := by simpa using hi
  rw [← List.getElem_map (h := hi') fun t : Task => t.work.deliveryId, List.set_getElem_self]

theorem claimStep_effect {w : WorkerId} {locked ids : List Uuid}
    (h : claimStep s w locked ids = some s') :
    Effect maxAttempts s (.claim w locked ids) s' := by
  unfold claimStep at h
  split at h
  · cases h
  rename_i hw
  split_ifs at h with hbatch hempty
  · split at h
    · cases h
    · rename_i db hclaim
      obtain rfl := Option.some.inj h
      exact .claim hw hbatch hclaim hempty.symm
  · split at h
    · cases h
    · rename_i db hclaim
      obtain rfl := Option.some.inj h
      exact .claim hw hbatch hclaim rfl

theorem respondStep_effect {w : WorkerId} {i : ℕ} {result : Dispatcher.SendResult}
    (h : respondStep s w i result = some s') : Effect maxAttempts s (.respond w i result) s' := by
  unfold respondStep at h
  split at h
  · rename_i tasks hw
    split at h
    · rename_i work ht
      obtain rfl := Option.some.inj h
      have hsame : (Worker.sending (tasks.set i { work, result := some result })).held =
          (Worker.sending tasks).held := held_set ht rfl
      refine .release rfl hw ?_
      rw [hsame]
    · cases h
  · cases h

/-- The outcome of a send is recorded or refused, and the worker is done with it. -/
theorem write_cases {w : WorkerId} {i delay : ℕ}
    (h : step maxAttempts s (.write w i delay) = some s') :
    ∃ tasks work r, s.workers w = some (.sending tasks) ∧
      tasks[i]? = some { work, result := some r } ∧
      delay ≤ (Dispatcher.backoffCeiling work.attempts).toNat ∧
      ((∃ e, Dispatcher.sendOne s.db s.now maxAttempts work r delay = .error e ∧
        s' = s.setWorker w (.sending (tasks.eraseIdx i))) ∨
      ∃ db, Dispatcher.sendOne s.db s.now maxAttempts work r delay = .ok db ∧
        s' = (s.setDb db).setWorker w (.sending (tasks.eraseIdx i))) := by
  simp only [step, writeStep] at h
  split at h
  · rename_i tasks hw
    split at h
    · rename_i work r ht
      split_ifs at h with hdelay
      refine ⟨tasks, work, r, hw, ht, hdelay, ?_⟩
      split at h
      · rename_i e hsend
        exact .inl ⟨e, hsend, (Option.some.inj h).symm⟩
      · rename_i db hsend
        exact .inr ⟨db, hsend, (Option.some.inj h).symm⟩
    · cases h
  · cases h

/-- A query that fails costs the worker its batch, or one task of it. -/
theorem dbError_cases {w : WorkerId} {i : ℕ} (h : step maxAttempts s (.dbError w i) = some s') :
    (∃ ids, s.workers w = some (.claimed ids) ∧ s' = s.setWorker w (.sending [])) ∨
    ∃ tasks, s.workers w = some (.sending tasks) ∧
      s' = s.setWorker w (.sending (tasks.eraseIdx i)) := by
  simp only [step, dbErrorStep] at h
  split at h
  · rename_i ids hw
    exact .inl ⟨ids, hw, (Option.some.inj h).symm⟩
  · rename_i tasks hw
    split at h
    · exact .inr ⟨tasks, hw, (Option.some.inj h).symm⟩
    · cases h
  · cases h

theorem crash_eq {w : WorkerId} (h : step maxAttempts s (.crash w) = some s') :
    ∃ W, s.workers w = some W ∧ s' = s.setWorker w .crashed := by
  simp only [step] at h
  split at h
  · rename_i ids hw
    exact ⟨_, hw, (Option.some.inj h).symm⟩
  · rename_i task tasks hw
    exact ⟨_, hw, (Option.some.inj h).symm⟩
  · cases h

theorem step_effect (h : step maxAttempts s l = some s') : Effect maxAttempts s l s' := by
  cases l with
  | advance now =>
    simp only [step] at h
    split_ifs at h with hnow
    obtain rfl := Option.some.inj h
    exact .advance hnow
  | register businessId req id secret =>
    simp only [step] at h
    split at h
    · cases h
    rename_i db ep hregister
    obtain rfl := Option.some.inj h
    obtain rfl := WebhookService.registerEndpoint_eq_ok hregister
    exact .register ep
  | emit businessId eventType aggregateId payload fresh =>
    simp only [step] at h
    split at h
    · cases h
    rename_i db hemit
    obtain rfl := Option.some.inj h
    obtain ⟨hid, rfl⟩ := WebhookService.emitEvent_eq_ok hemit
    exact .emit hid
  | fanOut fresh =>
    simp only [step] at h
    split at h
    · cases h
    rename_i db hfan
    obtain rfl := Option.some.inj h
    exact .fanOut hfan
  | claim w locked ids => exact claimStep_effect h
  | hydrate w =>
    simp only [step] at h
    split at h
    · rename_i ids hw
      obtain rfl := Option.some.inj h
      refine .release rfl hw ?_
      simp only [Worker.held, List.map_map]
      exact Dispatcher.hydrate_sublist s.db ids
    · cases h
  | respond w i result => exact respondStep_effect h
  | write w i delay =>
    obtain ⟨tasks, work, r, hw, ht, -, ⟨e, hsend, rfl⟩ | ⟨db, hsend, rfl⟩⟩ := write_cases h
    · exact .release rfl hw (held_eraseIdx_sublist tasks i)
    · exact .write hw ht rfl hsend
  | dbError w i =>
    rcases dbError_cases h with ⟨ids, hw, rfl⟩ | ⟨tasks, hw, rfl⟩
    · exact .release rfl hw (List.nil_sublist _)
    · exact .release rfl hw (held_eraseIdx_sublist tasks i)
  | crash w =>
    obtain ⟨W, hw, rfl⟩ := crash_eq h
    exact .release rfl hw (List.nil_sublist _)
  | redeliver businessId deliveryId =>
    simp only [step] at h
    split at h
    · cases h
    rename_i db hredeliver
    obtain rfl := Option.some.inj h
    exact .redeliver hredeliver

/-- An `UPDATE` that keeps the ids keeps them distinct. -/
theorem ids_update {rows : List WebhookDelivery} {p : WebhookDelivery → Bool}
    {f : WebhookDelivery → WebhookDelivery} (hf : ∀ d, (f d).id = d.id)
    (h : (rows.map WebhookDelivery.id).Nodup) :
    ((Table.update p f rows).map WebhookDelivery.id).Nodup := by
  rw [Table.map_update WebhookDelivery.id fun d _ _ => hf d]
  exact h

/-- The primary key of the deliveries stays one. -/
theorem ids_step (he : Effect maxAttempts s l s')
    (h : (s.db.webhookDeliveries.map WebhookDelivery.id).Nodup) :
    (s'.db.webhookDeliveries.map WebhookDelivery.id).Nodup := by
  cases he with
  | fanOut hfan =>
    obtain ⟨rows, hinsert, rfl⟩ := Dispatcher.fanOut_eq_ok hfan
    exact (Dispatcher.insertDeliveries_eq_ok hinsert).2 h
  | claim _ _ hclaim _ =>
    obtain rfl := Dispatcher.claim_eq_ok hclaim
    exact ids_update (fun _ => rfl) h
  | write _ _ _ hsend =>
    obtain ⟨f, hf, rfl⟩ := Dispatcher.sendOne_eq_ok hsend
    exact ids_update hf.id h
  | redeliver hredeliver =>
    obtain ⟨-, rfl⟩ := WebhookService.redeliver_eq_ok hredeliver
    exact ids_update (fun _ => rfl) h
  | _ => exact h

end Webhooks

end InvoicePayment
