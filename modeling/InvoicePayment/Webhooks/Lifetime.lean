import InvoicePayment.Webhooks.Backoff
import InvoicePayment.Webhooks.FanOut
import InvoicePayment.Webhooks.RetryBudget

/-!
# The life of a delivery

`Life` is the retry policy as an automaton: a delivery waits, is claimed and sent, is answered,
and then ends or waits again; `Life.Next` says when. Under a lone dispatcher that does not crash
every delivery of the system lives such a life (`Tended`), and each step that is not its replay
takes it one event further, or leaves it where it is (`lives_step`).
-/

namespace InvoicePayment.Webhooks

open Dispatcher (SendResult Work)

/-! ## The policy -/

def isSuccess : SendResult → Bool
  | .response code => 200 ≤ code && code < 300
  | .error _ => false

/-- The receiver will not take the delivery: a `4xx` other than `408` and `429`. -/
def isRejected : SendResult → Bool
  | .response code => 400 ≤ code && code < 500 && code ≠ 408 && code ≠ 429
  | .error _ => false

/-- No attempt follows the `j`-th answer. -/
def isFinal (maxAttempts : Int) (j : ℕ) (r : SendResult) : Bool :=
  isSuccess r || isRejected r || maxAttempts ≤ j

/-- Where a delivery is, with the answers it has had. -/
inductive Life where
  | waiting (answers : List SendResult) (due : Timestamp)
  | sending (answers : List SendResult)
  | answered (answers : List SendResult) (r : SendResult)
  | ended (answers : List SendResult) (r : SendResult)

/-- What happens to a delivery. -/
inductive Event where
  | claimed
  | answered (r : SendResult)
  | written

/-- The policy. A retry is due between now and the ceiling of the backoff. -/
inductive Life.Next (maxAttempts : Int) (now : Timestamp) : Life → Option Event → Life → Prop
  | idle (life : Life) : Next maxAttempts now life none life
  | claim (answers : List SendResult) (due : Timestamp) :
      Next maxAttempts now (.waiting answers due) (some .claimed) (.sending answers)
  | answer (answers : List SendResult) (r : SendResult) :
      Next maxAttempts now (.sending answers) (some (.answered r)) (.answered answers r)
  | retry {answers : List SendResult} {r : SendResult} {due : Timestamp}
      (h : isFinal maxAttempts (answers.length + 1) r = false) (hfrom : now ≤ due)
      (hto : due ≤ now + seconds (Dispatcher.idealCeiling (answers.length + 1))) :
      Next maxAttempts now (.answered answers r) (some .written) (.waiting (answers ++ [r]) due)
  | finish {answers : List SendResult} {r : SendResult}
      (h : isFinal maxAttempts (answers.length + 1) r = true) :
      Next maxAttempts now (.answered answers r) (some .written) (.ended answers r)

/-! ## What happens in a step -/

/-- The delivery of a worker's `i`-th task. -/
def taskOf (s : State) (w : WorkerId) (i : ℕ) : Option Uuid :=
  match s.workers w with
  | some (.sending tasks) => tasks[i]?.map fun t => t.work.deliveryId
  | _ => none

/-- What a step does to the delivery. -/
def eventOf (id : Uuid) (x : Step) : Option Event :=
  match x.label with
  | .claim _ _ ids => if ids.contains id then some .claimed else none
  | .respond w i r => if taskOf x.pre w i = some id then some (.answered r) else none
  | .write w i _ => if taskOf x.pre w i = some id then some .written else none
  | _ => none

theorem label_of_answered {id : Uuid} {x : Step} {r : SendResult}
    (h : eventOf id x = some (.answered r)) : ∃ w i, x.label = .respond w i r := by
  unfold eventOf at h
  split at h
  · split_ifs at h
    cases h
  · split_ifs at h
    obtain rfl := Event.answered.inj (Option.some.inj h)
    exact ⟨_, _, by assumption⟩
  · split_ifs at h
    cases h
  · cases h

/-- What a lone dispatcher does that neither crashes nor loses a query: it claims the next batch
once it has written the outcomes of the last one. The text of a transport error has no NUL. -/
structure LoneStep (x : Step) : Prop where
  alone : ∀ w locked ids, x.label = .claim w locked ids → ∀ v V, x.pre.workers v = some V →
    V.held = []
  noCrash : ∀ w, x.label ≠ .crash w
  noDbError : ∀ w i, x.label ≠ .dbError w i
  text : ∀ w i message, x.label = .respond w i (.error message) → isPgText message = true

variable {maxAttempts : Int} {s s' : State} {l : Label} {id : Uuid}

theorem claim_eq {w : WorkerId} {locked ids : List Uuid}
    (h : step maxAttempts s (.claim w locked ids) = some s') :
    s.workers w = none ∧ Dispatcher.isBatch s.db s.now locked ids = true ∧
    s' = ((s.setDb { s.db with
      webhookDeliveries := Table.update (fun d => ids.contains d.id) (Dispatcher.claimed s.now)
        s.db.webhookDeliveries }).setClaim ids (some w)).setWorker w
          (if ids = [] then .sending [] else .claimed ids) := by
  simp only [step, claimStep] at h
  split at h
  · cases h
  rename_i hw
  split at h
  · rename_i hbatch
    split at h
    · cases h
    · rename_i db hclaim
      obtain rfl := Dispatcher.claim_eq_ok hclaim
      exact ⟨hw, hbatch, (Option.some.inj h).symm⟩
  · cases h

theorem hydrate_eq {w : WorkerId} (h : step maxAttempts s (.hydrate w) = some s') :
    ∃ ids, s.workers w = some (.claimed ids) ∧
      s' = s.setWorker w (.sending ((Dispatcher.hydrate s.db ids).map fun work => { work })) := by
  simp only [step] at h
  split at h
  · rename_i ids hw
    exact ⟨ids, hw, (Option.some.inj h).symm⟩
  · cases h

theorem respond_eq {w : WorkerId} {i : ℕ} {r : SendResult}
    (h : step maxAttempts s (.respond w i r) = some s') :
    ∃ tasks work, s.workers w = some (.sending tasks) ∧
      tasks[i]? = some { work, result := none } ∧
      s' = s.setWorker w (.sending (tasks.set i { work, result := some r })) := by
  simp only [step, respondStep] at h
  split at h
  · rename_i tasks hw
    split at h
    · rename_i work ht
      exact ⟨tasks, work, hw, ht, (Option.some.inj h).symm⟩
    · cases h
  · cases h

/-- What is written of an answer. -/
structure Written (now : Timestamp) (maxAttempts : Int) (attempts : Int) (r : SendResult)
    (delay : ℕ) (f : WebhookDelivery → WebhookDelivery) : Prop where
  outcome : Dispatcher.IsOutcome f
  status : ∀ d, (f d).status = if isSuccess r then .succeeded
    else if isRejected r || maxAttempts ≤ attempts then .dead else .failed
  due : (isSuccess r || isRejected r || maxAttempts ≤ attempts) = false →
    ∀ d, (f d).nextAttemptAt = now + seconds delay

/-- A failure whose text can be stored is written. -/
theorem markFailed_eq {db : Db} {now : Timestamp} {uid : Uuid} {attempts : Int} {code : Option Int}
    {error : String} {r : SendResult} {delay : ℕ} (herror : isPgText error = true)
    (hsuccess : isSuccess r = false) :
    ∃ f, Written now maxAttempts attempts r delay f ∧
      Dispatcher.markFailed db now maxAttempts uid attempts code error (isRejected r) delay =
        .ok { db with
          webhookDeliveries := Table.update (fun d => d.id = uid) f db.webhookDeliveries } := by
  unfold Dispatcher.markFailed
  rw [if_neg (not_not.mpr herror)]
  by_cases hdead : isRejected r = true ∨ maxAttempts ≤ attempts
  · rw [if_pos hdead]
    refine ⟨fun d => { d with
      status := .dead, lastStatusCode := code, lastError := some error, lockedUntil := none },
      ⟨⟨fun _ => rfl, fun _ => rfl, fun _ => rfl, fun _ => rfl, fun _ => .inr (.inl rfl)⟩,
        fun _ => ?_, fun hretry => ?_⟩, rfl⟩
    · simp [hsuccess, hdead]
    · rcases hdead with hrejected | hspent
      · simp [hrejected] at hretry
      · simp [hspent] at hretry
  · rw [if_neg hdead]
    refine ⟨fun d => { d with
      status := .failed, lastStatusCode := code, lastError := some error,
      nextAttemptAt := now + seconds delay, lockedUntil := none },
      ⟨⟨fun _ => rfl, fun _ => rfl, fun _ => rfl, fun _ => rfl, fun _ => .inr (.inr rfl)⟩,
        fun _ => ?_, fun _ _ => rfl⟩, rfl⟩
    simp [hsuccess, hdead]

/-- An answer whose text can be stored is written. -/
theorem sendOne_eq {db : Db} {now : Timestamp} {work : Work} {r : SendResult} {delay : ℕ}
    (htext : ∀ message, r = .error message → isPgText message = true) :
    ∃ f, Written now maxAttempts work.attempts r delay f ∧
      Dispatcher.sendOne db now maxAttempts work r delay = .ok { db with
        webhookDeliveries := Table.update (fun d => d.id = work.deliveryId) f
          db.webhookDeliveries } := by
  unfold Dispatcher.sendOne
  cases r with
  | response code =>
    dsimp only
    by_cases hcode : 200 ≤ code ∧ code < 300
    · have hsuccess : isSuccess (.response code) = true := by simp [isSuccess, hcode]
      rw [if_pos hcode]
      refine ⟨fun d => { d with
        status := .succeeded, lastStatusCode := some code, lockedUntil := none },
        ⟨⟨fun _ => rfl, fun _ => rfl, fun _ => rfl, fun _ => rfl, fun _ => .inl rfl⟩, fun _ => ?_,
          fun hretry => ?_⟩, rfl⟩
      · rw [if_pos hsuccess]
      · rw [hsuccess] at hretry
        cases hretry
    · rw [if_neg hcode]
      refine markFailed_eq (by decide +kernel) ?_
      simpa [isSuccess] using hcode
  | error message => exact markFailed_eq (htext message rfl) rfl

theorem write_eq {w : WorkerId} {i delay : ℕ}
    (htext : ∀ tasks task, s.workers w = some (.sending tasks) → tasks[i]? = some task →
      ∀ message, task.result = some (.error message) → isPgText message = true)
    (h : step maxAttempts s (.write w i delay) = some s') :
    ∃ tasks work r f, s.workers w = some (.sending tasks) ∧
      tasks[i]? = some { work, result := some r } ∧
      delay ≤ (Dispatcher.backoffCeiling work.attempts).toNat ∧
      Written s.now maxAttempts work.attempts r delay f ∧
      s' = (s.setDb { s.db with
        webhookDeliveries := Table.update (fun d => d.id = work.deliveryId) f
          s.db.webhookDeliveries }).setWorker w (.sending (tasks.eraseIdx i)) := by
  obtain ⟨tasks, work, r, hw, ht, hdelay, hsent⟩ := write_cases h
  have hwritten : ∃ f, Written s.now maxAttempts work.attempts r delay f ∧
      Dispatcher.sendOne s.db s.now maxAttempts work r delay = .ok { s.db with
        webhookDeliveries := Table.update (fun d => d.id = work.deliveryId) f
          s.db.webhookDeliveries } :=
    sendOne_eq fun message hr => htext tasks _ hw ht message (congrArg some hr)
  obtain ⟨f, hf, hsend⟩ := hwritten
  rw [hsend] at hsent
  rcases hsent with ⟨e, hsent, -⟩ | ⟨db, hsent, rfl⟩
  · cases hsent
  · obtain rfl := Except.ok.inj hsent
    exact ⟨tasks, work, r, f, hw, ht, hdelay, hf, rfl⟩

/-! ## Deliveries in hand -/

/-- The worker has the delivery in hand, with `r` for what came of its send. -/
def Worker.Hand (W : Worker) (id : Uuid) (r : Option SendResult) : Prop :=
  match W with
  | .claimed ids => id ∈ ids ∧ r = none
  | .sending tasks => ∃ t ∈ tasks, t.work.deliveryId = id ∧ t.result = r
  | .crashed => False

/-- Somebody has the delivery in hand. -/
def InHand (s : State) (id : Uuid) (r : Option SendResult) : Prop :=
  ∃ w W, s.workers w = some W ∧ W.Hand id r

theorem Worker.Hand.mem_held {W : Worker} {r : Option SendResult} (h : W.Hand id r) :
    id ∈ W.held := by
  cases W with
  | claimed ids => exact h.1
  | sending tasks =>
    obtain ⟨t, ht, rfl, -⟩ := h
    exact List.mem_map_of_mem ht
  | crashed => exact h.elim

/-- A step of one worker leaves what the others have in hand. -/
theorem InHand.setWorker {r : Option SendResult} {w : WorkerId} {W W' : Worker} (h : InHand s id r)
    (hw : s.workers w = some W) (hkeep : W.Hand id r → W'.Hand id r) :
    InHand (s.setWorker w W') id r := by
  obtain ⟨v, V, hv, hhand⟩ := h
  by_cases hvw : v = w
  · subst hvw
    obtain rfl := Option.some.inj (hw.symm.trans hv)
    exact ⟨v, W', if_pos rfl, hkeep hhand⟩
  · exact ⟨v, V, (if_neg hvw).trans hv, hhand⟩

/-- A new worker leaves what the others have in hand. -/
theorem InHand.newWorker {r : Option SendResult} {w : WorkerId} {W : Worker} (h : InHand s id r)
    (hw : s.workers w = none) : InHand (s.setWorker w W) id r := by
  obtain ⟨v, V, hv, hhand⟩ := h
  have hvw : v ≠ w := by
    rintro rfl
    rw [hw] at hv
    cases hv
  exact ⟨v, V, (if_neg hvw).trans hv, hhand⟩

/-- A delivery is in one pair of hands, and there once. -/
theorem Leased.result_eq (h : Leased s) {w : WorkerId} {tasks : List Task} {i : ℕ} {t : Task}
    {r : Option SendResult} (hw : s.workers w = some (.sending tasks)) (ht : tasks[i]? = some t)
    (hhand : InHand s t.work.deliveryId r) : t.result = r := by
  obtain ⟨v, V, hv, hr⟩ := hhand
  have hmine := (h.held w _ hw _ (mem_held_of_task ht)).claimed
  have hother := (h.held v V hv _ hr.mem_held).claimed
  obtain rfl : w = v := Option.some.inj (hmine.symm.trans hother)
  obtain rfl := Option.some.inj (hw.symm.trans hv)
  obtain ⟨t', ht', hid, rfl⟩ := hr
  have hnodup : (tasks.map fun t => t.work.deliveryId).Nodup := h.once w _ hw
  rw [List.inj_on_of_nodup_map hnodup ht' (List.mem_of_getElem? ht) hid]

/-! ## A lone dispatcher -/

/-- The invariant under a lone dispatcher: what is in flight is in somebody's hands, and a task
knows the counter of its row. -/
structure Tended (s : State) : Prop where
  leased : Leased s
  directed : Directed s
  inHand : ∀ d ∈ s.db.webhookDeliveries, d.status = .inFlight → ∃ r, InHand s d.id r
  attempts : ∀ w tasks, s.workers w = some (.sending tasks) → ∀ t ∈ tasks,
    ∀ d ∈ s.db.webhookDeliveries, d.id = t.work.deliveryId → t.work.attempts = d.attempts
  text : ∀ w tasks, s.workers w = some (.sending tasks) → ∀ t ∈ tasks,
    ∀ message, t.result = some (.error message) → isPgText message = true

/-- The row shows where the delivery is. -/
def Shows (s : State) (d : WebhookDelivery) : Life → Prop
  | .waiting answers due => d.status = (if answers = [] then .pending else .failed) ∧
      d.attempts = answers.length ∧ d.nextAttemptAt = due
  | .sending answers => d.status = .inFlight ∧ d.attempts = answers.length + 1 ∧
      InHand s d.id none
  | .answered answers r => d.status = .inFlight ∧ d.attempts = answers.length + 1 ∧
      InHand s d.id (some r)
  | .ended _ r => d.status = if isSuccess r then .succeeded else .dead

/-- The delivery lives a life of the policy. -/
def Lives (s : State) (id : Uuid) (life : Life) : Prop :=
  ∃ d ∈ s.db.webhookDeliveries, d.id = id ∧ Shows s d life

/-- A row that stays, and stays in the hands it was in, shows the same life. -/
theorem Shows.keep {d : WebhookDelivery} {life : Life} (h : Shows s d life)
    (hhand : ∀ r, InHand s d.id r → InHand s' d.id r) : Shows s' d life := by
  cases life with
  | waiting answers due => exact h
  | sending answers => exact ⟨h.1, h.2.1, hhand _ h.2.2⟩
  | answered answers r => exact ⟨h.1, h.2.1, hhand _ h.2.2⟩
  | ended answers r => exact h

/-! ## What a worker's step leaves in hand -/

/-- The other tasks stay when the result of one is noted. -/
theorem hand_set {tasks : List Task} {i : ℕ} {t t' : Task} {r : Option SendResult}
    (ht : tasks[i]? = some t) (hne : t.work.deliveryId ≠ id)
    (h : (Worker.sending tasks).Hand id r) : (Worker.sending (tasks.set i t')).Hand id r := by
  obtain ⟨u, hu, hid, hr⟩ := h
  obtain ⟨j, hj⟩ := List.getElem?_of_mem hu
  have hij : i ≠ j := by
    rintro rfl
    obtain rfl := Option.some.inj (ht.symm.trans hj)
    exact hne hid
  exact ⟨u, List.mem_of_getElem? ((List.getElem?_set_ne hij).trans hj), hid, hr⟩

/-- The other tasks stay when one is done. -/
theorem hand_eraseIdx {tasks : List Task} {i : ℕ} {t : Task} {r : Option SendResult}
    (ht : tasks[i]? = some t) (hne : t.work.deliveryId ≠ id)
    (h : (Worker.sending tasks).Hand id r) : (Worker.sending (tasks.eraseIdx i)).Hand id r := by
  obtain ⟨u, hu, hid, hr⟩ := h
  obtain ⟨j, hj⟩ := List.getElem?_of_mem hu
  have hji : j ≠ i := by
    rintro rfl
    obtain rfl := Option.some.inj (ht.symm.trans hj)
    exact hne hid
  exact ⟨u, List.mem_eraseIdx_iff_getElem?.mpr ⟨j, hji, hj⟩, hid, hr⟩

/-- The hydrating query finds the row of each delivery. -/
theorem row_of_hydrate {db : Db} {ids : List Uuid} {work : Work}
    (h : work ∈ Dispatcher.hydrate db ids) :
    ∃ d ∈ db.webhookDeliveries, d.id = work.deliveryId ∧ d.attempts = work.attempts := by
  obtain ⟨d, hd, hwork⟩ := List.mem_filterMap.mp h
  refine ⟨d, (Table.mem_withIds hd).1, (Dispatcher.deliveryId_ofDelivery hwork).symm, ?_⟩
  unfold Dispatcher.Work.ofDelivery at hwork
  split at hwork
  · obtain rfl := Option.some.inj hwork
    rfl
  · cases hwork

/-- It loses no claimed delivery. -/
theorem Directed.hydrated (h : Directed s)
    (hids : (s.db.webhookDeliveries.map WebhookDelivery.id).Nodup) {d : WebhookDelivery}
    (hd : d ∈ s.db.webhookDeliveries) {ids : List Uuid} (hid : d.id ∈ ids) :
    ∃ work ∈ Dispatcher.hydrate s.db ids, work.deliveryId = d.id := by
  obtain ⟨e, he, ep, hep, hevent, hendpoint, -⟩ := h.target d hd
  have hrow : d ∈ Table.withIds WebhookDelivery.id s.db.webhookDeliveries ids := by
    refine List.mem_filterMap.mpr ⟨d.id, hid, ?_⟩
    refine Table.find?_eq_some_of_unique hd (decide_eq_true rfl) fun d' hd' heq => ?_
    exact List.inj_on_of_nodup_map hids hd' hd (of_decide_eq_true heq)
  have hevents : (s.db.webhookEvents.find? fun e => e.id = d.eventId).isSome = true :=
    List.find?_isSome.mpr ⟨e, he, decide_eq_true hevent.symm⟩
  have hendpoints : (s.db.webhookEndpoints.find? fun ep => ep.id = d.endpointId).isSome = true :=
    List.find?_isSome.mpr ⟨ep, hep, decide_eq_true hendpoint.symm⟩
  obtain ⟨e', he'⟩ := Option.isSome_iff_exists.mp hevents
  obtain ⟨ep', hep'⟩ := Option.isSome_iff_exists.mp hendpoints
  have hjoin : ∃ work, Work.ofDelivery s.db d = some work := by
    rw [Dispatcher.Work.ofDelivery, he', hep']
    exact ⟨_, rfl⟩
  obtain ⟨work, hwork⟩ := hjoin
  exact ⟨work, List.mem_filterMap.mpr ⟨d, hrow, hwork⟩, Dispatcher.deliveryId_ofDelivery hwork⟩

/-- Nothing leaves a worker's hands while it hydrates. -/
theorem Tended.hand_hydrate (h : Tended s) {d : WebhookDelivery}
    (hd : d ∈ s.db.webhookDeliveries) {ids : List Uuid} {r : Option SendResult}
    (hhand : (Worker.claimed ids).Hand d.id r) :
    (Worker.sending ((Dispatcher.hydrate s.db ids).map fun work => { work })).Hand d.id r := by
  obtain ⟨hid, rfl⟩ := hhand
  obtain ⟨work, hwork, heq⟩ := h.directed.hydrated h.leased.ids hd hid
  exact ⟨{ work }, List.mem_map_of_mem hwork, heq, rfl⟩

/-- A delivery in hand is not replayed. -/
theorem Leased.not_redelivered (h : Leased s) {businessId deliveryId : Uuid} {db : Db}
    (hredeliver : WebhookService.redeliver s.db s.now businessId deliveryId = .ok db)
    {w : WorkerId} {W : Worker} (hw : s.workers w = some W) (hid : id ∈ W.held) :
    deliveryId ≠ id := by
  rintro rfl
  obtain ⟨⟨d, hd, hdid, hst⟩, -⟩ := WebhookService.redeliver_eq_ok hredeliver
  have hflight := (h.held w W hw _ hid).inFlight d hd hdid
  rcases hst with hst | hst <;> cases hst.symm.trans hflight

/-! ## One step of a lone dispatcher -/

theorem Tended.claimsReleased (hlone : LoneStep ⟨s, l, s'⟩) : ClaimsReleased ⟨s, l, s'⟩ := by
  intro w locked ids hl v V hv uid huid
  rw [hlone.alone w locked ids hl v V hv] at huid
  cases huid

/-- Nobody has a task when the dispatcher claims. -/
theorem no_task (hlone : LoneStep ⟨s, l, s'⟩) {w v : WorkerId} {locked ids : List Uuid}
    (hl : l = .claim w locked ids) {tasks : List Task} (hv : s.workers v = some (.sending tasks))
    {t : Task} : t ∉ tasks := by
  intro ht
  have hheld := hlone.alone w locked ids hl v _ hv
  rw [Worker.held, List.map_eq_nil_iff] at hheld
  rw [hheld] at ht
  cases ht

theorem tended_claim (h : Tended s) {w : WorkerId} {locked ids : List Uuid}
    (hstep : step maxAttempts s (.claim w locked ids) = some s')
    (hlone : LoneStep ⟨s, .claim w locked ids, s'⟩) : Tended s' := by
  have he := step_effect hstep
  have hleased := leased_step h.leased he (Tended.claimsReleased hlone)
  have hdirected := directed_step h.directed he
  obtain ⟨hw, hbatch, rfl⟩ := claim_eq hstep
  -- the tasks after the claim: there are none
  have hnone : ∀ v tasks, (((s.setDb { s.db with
      webhookDeliveries := Table.update (fun d => ids.contains d.id) (Dispatcher.claimed s.now)
        s.db.webhookDeliveries }).setClaim ids (some w)).setWorker w
          (if ids = [] then .sending [] else .claimed ids)).workers v = some (.sending tasks) →
      ∀ t, t ∉ tasks := by
    intro v tasks hv t ht
    rcases workers_setWorker hv with ⟨-, hW⟩ | ⟨-, hv⟩
    · split_ifs at hW
      obtain rfl := Worker.sending.inj hW
      cases ht
    · exact no_task hlone rfl hv ht
  refine ⟨hleased, hdirected, fun d' hd' hst => ?_, fun v tasks hv t ht => ?_,
    fun v tasks hv t ht => ?_⟩
  · obtain ⟨d, hd, rfl⟩ := Table.mem_update.mp hd'
    by_cases hin : ids.contains d.id = true
    · rw [if_pos hin]
      have hne : ids ≠ [] := List.ne_nil_of_mem (List.contains_iff_mem.mp hin)
      refine ⟨none, w, .claimed ids, ?_, List.contains_iff_mem.mp hin, rfl⟩
      simp only [State.setWorker, if_true, if_neg hne]
    · rw [if_neg hin] at hst ⊢
      obtain ⟨r, hr⟩ := h.inHand d hd hst
      exact ⟨r, hr.newWorker hw⟩
  · exact absurd ht (hnone v tasks hv t)
  · exact absurd ht (hnone v tasks hv t)

theorem tended_hydrate (h : Tended s) {w : WorkerId}
    (hstep : step maxAttempts s (.hydrate w) = some s')
    (hlone : LoneStep ⟨s, .hydrate w, s'⟩) : Tended s' := by
  have he := step_effect hstep
  have hleased := leased_step h.leased he (Tended.claimsReleased hlone)
  have hdirected := directed_step h.directed he
  obtain ⟨ids, hw, rfl⟩ := hydrate_eq hstep
  refine ⟨hleased, hdirected, fun d hd hst => ?_, fun v tasks hv t ht d hd hid => ?_,
    fun v tasks hv t ht message hmessage => ?_⟩
  · obtain ⟨r, hr⟩ := h.inHand d hd hst
    exact ⟨r, hr.setWorker hw (h.hand_hydrate hd)⟩
  · rcases workers_setWorker hv with ⟨-, hW⟩ | ⟨-, hv⟩
    · obtain rfl := Worker.sending.inj hW
      obtain ⟨work, hwork, rfl⟩ := List.mem_map.mp ht
      obtain ⟨d', hd', hid', hattempts⟩ := row_of_hydrate hwork
      rw [← h.leased.delivery_eq hd' hd (hid'.trans hid.symm)]
      exact hattempts.symm
    · exact h.attempts v tasks hv t ht d hd hid
  · rcases workers_setWorker hv with ⟨-, hW⟩ | ⟨-, hv⟩
    · obtain rfl := Worker.sending.inj hW
      obtain ⟨work, -, rfl⟩ := List.mem_map.mp ht
      cases hmessage
    · exact h.text v tasks hv t ht message hmessage

theorem tended_respond (h : Tended s) {w : WorkerId} {i : ℕ} {r : SendResult}
    (hstep : step maxAttempts s (.respond w i r) = some s')
    (hlone : LoneStep ⟨s, .respond w i r, s'⟩) : Tended s' := by
  have he := step_effect hstep
  have hleased := leased_step h.leased he (Tended.claimsReleased hlone)
  have hdirected := directed_step h.directed he
  obtain ⟨tasks, work, hw, ht, rfl⟩ := respond_eq hstep
  refine ⟨hleased, hdirected, fun d hd hst => ?_, fun v tasks' hv t ht' d hd hid => ?_,
    fun v tasks' hv t ht' message hmessage => ?_⟩
  · obtain ⟨q, hq⟩ := h.inHand d hd hst
    by_cases hid : work.deliveryId = d.id
    · refine ⟨some r, w, _, if_pos rfl, { work, result := some r }, ?_, hid, rfl⟩
      exact List.mem_set (List.getElem?_eq_some_iff.mp ht).1 _
    · exact ⟨q, hq.setWorker hw (hand_set ht hid)⟩
  · rcases workers_setWorker hv with ⟨-, hW⟩ | ⟨-, hv⟩
    · obtain rfl := Worker.sending.inj hW
      rcases List.mem_or_eq_of_mem_set ht' with hold | rfl
      · exact h.attempts w tasks hw t hold d hd hid
      · exact h.attempts w tasks hw _ (List.mem_of_getElem? ht) d hd hid
    · exact h.attempts v tasks' hv t ht' d hd hid
  · rcases workers_setWorker hv with ⟨-, hW⟩ | ⟨-, hv⟩
    · obtain rfl := Worker.sending.inj hW
      rcases List.mem_or_eq_of_mem_set ht' with hold | rfl
      · exact h.text w tasks hw t hold message hmessage
      · exact hlone.text w i message (congrArg _ (Option.some.inj hmessage))
    · exact h.text v tasks' hv t ht' message hmessage

theorem tended_write (h : Tended s) {w : WorkerId} {i delay : ℕ}
    (hstep : step maxAttempts s (.write w i delay) = some s')
    (hlone : LoneStep ⟨s, .write w i delay, s'⟩) : Tended s' := by
  have he := step_effect hstep
  have hleased := leased_step h.leased he (Tended.claimsReleased hlone)
  have hdirected := directed_step h.directed he
  obtain ⟨tasks, work, r, f, hw, ht, -, hf, rfl⟩ := write_eq
    (fun tasks t hw ht => h.text w tasks hw t (List.mem_of_getElem? ht)) hstep
  -- the tasks that are left are old ones
  have hold : ∀ v tasks', ((s.setDb { s.db with
      webhookDeliveries := Table.update (fun d => d.id = work.deliveryId) f
        s.db.webhookDeliveries }).setWorker w (.sending (tasks.eraseIdx i))).workers v =
          some (.sending tasks') → ∀ t ∈ tasks', ∃ tasks₀, s.workers v = some (.sending tasks₀) ∧
      t ∈ tasks₀ := by
    intro v tasks' hv t ht'
    rcases workers_setWorker hv with ⟨rfl, hW⟩ | ⟨-, hv⟩
    · obtain rfl := Worker.sending.inj hW
      exact ⟨tasks, hw, (List.eraseIdx_sublist tasks i).subset ht'⟩
    · exact ⟨tasks', hv, ht'⟩
  refine ⟨hleased, hdirected, fun d' hd' hst => ?_, fun v tasks' hv t ht' d' hd' hid => ?_,
    fun v tasks' hv t ht' message hmessage => ?_⟩
  · obtain ⟨d, hd, rfl⟩ := Table.mem_update.mp hd'
    by_cases hid : d.id = work.deliveryId
    · -- an outcome is not `in_flight`
      rw [if_pos (decide_eq_true hid)] at hst
      rcases hf.outcome.status d with hout | hout | hout <;> cases hout.symm.trans hst
    · rw [if_neg (by simpa using hid)] at hst ⊢
      obtain ⟨q, hq⟩ := h.inHand d hd hst
      exact ⟨q, hq.setWorker hw (hand_eraseIdx ht fun heq => hid heq.symm)⟩
  · obtain ⟨tasks₀, hv₀, ht₀⟩ := hold v tasks' hv t ht'
    obtain ⟨d, hd, rfl⟩ := Table.mem_update.mp hd'
    split_ifs at hid ⊢ with hwritten
    · rw [hf.outcome.id] at hid
      rw [hf.outcome.attempts]
      exact h.attempts v tasks₀ hv₀ t ht₀ d hd hid
    · exact h.attempts v tasks₀ hv₀ t ht₀ d hd hid
  · obtain ⟨tasks₀, hv₀, ht₀⟩ := hold v tasks' hv t ht'
    exact h.text v tasks₀ hv₀ t ht₀ message hmessage

theorem tended_fanOut (h : Tended s) {fresh : Fresh}
    (hstep : step maxAttempts s (.fanOut fresh) = some s')
    (hlone : LoneStep ⟨s, .fanOut fresh, s'⟩) : Tended s' := by
  have he := step_effect hstep
  have hleased := leased_step h.leased he (Tended.claimsReleased hlone)
  have hdirected := directed_step h.directed he
  cases he with
  | release howner _ _ => cases howner
  | fanOut hfan =>
    obtain ⟨rows, hinsert, rfl⟩ := Dispatcher.fanOut_eq_ok hfan
    refine ⟨hleased, hdirected, fun d hd hst => ?_, fun w tasks hw t ht d hd hid => ?_, h.text⟩
    · rcases Dispatcher.mem_insertDeliveries hinsert hd with hold | ⟨_, p, -, rfl⟩
      · exact h.inHand d hold hst
      · cases hst
    · -- the delivery of a task is an old row
      have hheld : t.work.deliveryId ∈ (Worker.sending tasks).held := List.mem_map_of_mem ht
      obtain ⟨d₀, hd₀, hid₀⟩ := (h.leased.held w _ hw _ hheld).row
      have hsame : d = d₀ := hleased.delivery_eq hd (Dispatcher.subset_insertDeliveries hinsert hd₀)
        (hid.trans hid₀.symm)
      rw [hsame]
      exact h.attempts w tasks hw t ht d₀ hd₀ hid₀

theorem tended_redeliver (h : Tended s) {businessId deliveryId : Uuid}
    (hstep : step maxAttempts s (.redeliver businessId deliveryId) = some s')
    (hlone : LoneStep ⟨s, .redeliver businessId deliveryId, s'⟩) : Tended s' := by
  have he := step_effect hstep
  have hleased := leased_step h.leased he (Tended.claimsReleased hlone)
  have hdirected := directed_step h.directed he
  cases he with
  | release howner _ _ => cases howner
  | redeliver hredeliver =>
    obtain ⟨-, rfl⟩ := WebhookService.redeliver_eq_ok hredeliver
    refine ⟨hleased, hdirected, fun d' hd' hst => ?_, fun w tasks hw t ht d' hd' hid => ?_, h.text⟩
    · obtain ⟨d, hd, rfl⟩ := Table.mem_update.mp hd'
      split_ifs at hst ⊢
      · cases hst
      · exact h.inHand d hd hst
    · obtain ⟨d, hd, rfl⟩ := Table.mem_update.mp hd'
      have hheld : t.work.deliveryId ∈ (Worker.sending tasks).held := List.mem_map_of_mem ht
      split_ifs at hid ⊢ with hcan
      · simp only [WebhookService.canRedeliver, Bool.and_eq_true, decide_eq_true_eq] at hcan
        exact absurd (hcan.1.1.symm.trans hid) (h.leased.not_redelivered hredeliver hw hheld)
      · exact h.attempts w tasks hw t ht d hd hid

theorem tended_step (h : Tended s) (hstep : step maxAttempts s l = some s')
    (hlone : LoneStep ⟨s, l, s'⟩) : Tended s' := by
  have he := step_effect hstep
  have hleased := leased_step h.leased he (Tended.claimsReleased hlone)
  have hdirected := directed_step h.directed he
  cases l with
  | advance _ | register _ _ _ _ | emit _ _ _ _ _ =>
    cases he with
    | release howner _ _ => cases howner
    | _ => exact ⟨hleased, hdirected, h.inHand, h.attempts, h.text⟩
  | fanOut fresh => exact tended_fanOut h hstep hlone
  | claim w locked ids => exact tended_claim h hstep hlone
  | hydrate w => exact tended_hydrate h hstep hlone
  | respond w i r => exact tended_respond h hstep hlone
  | write w i delay => exact tended_write h hstep hlone
  | dbError w i => exact absurd rfl (hlone.noDbError w i)
  | crash w => exact absurd rfl (hlone.noCrash w)
  | redeliver businessId deliveryId => exact tended_redeliver h hstep hlone

theorem tended_initial (h : Initial s) : Tended s := by
  refine ⟨leased_initial h, directed_initial h, fun d hd => ?_, fun w tasks hw => ?_,
    fun w tasks hw => ?_⟩
  · rw [h.deliveries] at hd
    cases hd
  · exact (h.no_worker hw).elim
  · exact (h.no_worker hw).elim

/-! ## One step in the life of a delivery -/

theorem taskOf_eq {w : WorkerId} {tasks : List Task} {i : ℕ} {t : Task}
    (hw : s.workers w = some (.sending tasks)) (ht : tasks[i]? = some t) :
    taskOf s w i = some t.work.deliveryId := by
  simp [taskOf, hw, ht]

/-- A step that leaves the row and the hands it is in. -/
theorem Shows.idle {d : WebhookDelivery} {life : Life} (h : Shows s d life)
    (hd : d ∈ s'.db.webhookDeliveries) (hhand : ∀ r, InHand s d.id r → InHand s' d.id r)
    (hevent : eventOf d.id ⟨s, l, s'⟩ = none) :
    ∃ life', Life.Next maxAttempts s.now life (eventOf d.id ⟨s, l, s'⟩) life' ∧
      Lives s' d.id life' := by
  rw [hevent]
  exact ⟨life, .idle life, d, hd, rfl, h.keep hhand⟩

/-- A delivery in a worker's hands is being sent or has been answered. -/
theorem Shows.held_cases (h : Leased s) {d : WebhookDelivery} (hd : d ∈ s.db.webhookDeliveries)
    {life : Life} (hshow : Shows s d life) {w : WorkerId} {W : Worker}
    (hw : s.workers w = some W) (hheld : d.id ∈ W.held) :
    (∃ answers, life = .sending answers) ∨ ∃ answers r, life = .answered answers r := by
  have hflight := (h.held w W hw _ hheld).inFlight d hd rfl
  cases life with
  | waiting answers due =>
    have hst := hshow.1
    split_ifs at hst <;> cases hst.symm.trans hflight
  | sending answers => exact .inl ⟨answers, rfl⟩
  | answered answers r => exact .inr ⟨answers, r, rfl⟩
  | ended answers r =>
    have hst : d.status = if isSuccess r then .succeeded else .dead := hshow
    split_ifs at hst <;> cases hst.symm.trans hflight

theorem lives_claim (h : Tended s) {d : WebhookDelivery} (hd : d ∈ s.db.webhookDeliveries)
    {life : Life} (hshow : Shows s d life) {w : WorkerId} {locked ids : List Uuid}
    (hstep : step maxAttempts s (.claim w locked ids) = some s')
    (hlone : LoneStep ⟨s, .claim w locked ids, s'⟩) :
    ∃ life', Life.Next maxAttempts s.now life (eventOf d.id ⟨s, .claim w locked ids, s'⟩) life' ∧
      Lives s' d.id life' := by
  obtain ⟨hw, hbatch, rfl⟩ := claim_eq hstep
  by_cases hin : d.id ∈ ids
  · have hcontains : ids.contains d.id = true := List.contains_iff_mem.mpr hin
    have hne : ids ≠ [] := List.ne_nil_of_mem hin
    -- nothing is in hand when a dispatcher alone claims
    have hfree : ∀ r, ¬ InHand s d.id r := by
      rintro r ⟨v, V, hv, hhand⟩
      have hheld := hhand.mem_held
      rw [hlone.alone w locked ids rfl v V hv] at hheld
      cases hheld
    simp only [eventOf, hcontains, if_true]
    cases life with
    | waiting answers due =>
      refine ⟨.sending answers, .claim answers due, Dispatcher.claimed s.now d,
        Table.mem_update_of_pos hd hcontains, rfl, rfl, ?_, w, .claimed ids, ?_, hin, rfl⟩
      · show d.attempts + 1 = _
        rw [hshow.2.1]
      · simp only [State.setWorker, if_true, if_neg hne]
    | sending answers => exact absurd hshow.2.2 (hfree _)
    | answered answers r => exact absurd hshow.2.2 (hfree _)
    | ended answers r =>
      -- what has ended is not due
      obtain ⟨d', hd', hid, hdue⟩ := (Dispatcher.isDue_of_isBatch hbatch).2 _ hin
      rw [h.leased.delivery_eq hd' hd hid] at hdue
      have hst : d.status = if isSuccess r then .succeeded else .dead := hshow
      split_ifs at hst <;> simp [Dispatcher.isDue, hst] at hdue
  · have hout : ids.contains d.id = false := by simpa using hin
    refine hshow.idle (Table.mem_update_of_not hd hout) (fun r hr => hr.newWorker hw) ?_
    simp only [eventOf, hout, Bool.false_eq_true, if_false]

theorem lives_respond (h : Tended s) {d : WebhookDelivery} (hd : d ∈ s.db.webhookDeliveries)
    {life : Life} (hshow : Shows s d life) {w : WorkerId} {i : ℕ} {r : SendResult}
    (hstep : step maxAttempts s (.respond w i r) = some s') :
    ∃ life', Life.Next maxAttempts s.now life (eventOf d.id ⟨s, .respond w i r, s'⟩) life' ∧
      Lives s' d.id life' := by
  obtain ⟨tasks, work, hw, ht, rfl⟩ := respond_eq hstep
  by_cases hid : work.deliveryId = d.id
  · simp only [eventOf, taskOf_eq hw ht, hid, if_true]
    have hheld : d.id ∈ (Worker.sending tasks).held := hid ▸ mem_held_of_task ht
    have hresult : ∀ q, InHand s d.id q → q = none := by
      intro q hq
      exact (h.leased.result_eq hw ht (hid.symm ▸ hq)).symm
    rcases hshow.held_cases h.leased hd hw hheld with ⟨answers, rfl⟩ | ⟨answers, q, rfl⟩
    · refine ⟨.answered answers r, .answer answers r, d, hd, rfl, hshow.1, hshow.2.1, w, _,
        if_pos rfl, { work, result := some r }, ?_, hid, rfl⟩
      exact List.mem_set (List.getElem?_eq_some_iff.mp ht).1 _
    · cases hresult _ hshow.2.2
  · refine hshow.idle hd (fun q hq => hq.setWorker hw (hand_set ht hid)) ?_
    simp only [eventOf, taskOf_eq hw ht, Option.some.injEq, if_neg hid]

/-- The outcome of an answer, as the policy has it. -/
theorem lives_write (hmax : maxAttempts ≤ 64) (h : Tended s) {d : WebhookDelivery}
    (hd : d ∈ s.db.webhookDeliveries) {life : Life} (hshow : Shows s d life) {w : WorkerId}
    {i delay : ℕ} (hstep : step maxAttempts s (.write w i delay) = some s') :
    ∃ life', Life.Next maxAttempts s.now life (eventOf d.id ⟨s, .write w i delay, s'⟩) life' ∧
      Lives s' d.id life' := by
  obtain ⟨tasks, work, r, f, hw, ht, hdelay, hf, rfl⟩ := write_eq
    (fun tasks t hw ht => h.text w tasks hw t (List.mem_of_getElem? ht)) hstep
  by_cases hid : d.id = work.deliveryId
  · simp only [eventOf, taskOf_eq hw ht, hid, if_true]
    have hheld : d.id ∈ (Worker.sending tasks).held := hid ▸ mem_held_of_task ht
    have hresult : ∀ q, InHand s d.id q → q = some r := by
      intro q hq
      exact (h.leased.result_eq hw ht (hid ▸ hq)).symm
    have hattempts : work.attempts = d.attempts :=
      h.attempts w tasks hw _ (List.mem_of_getElem? ht) d hd hid
    have hrow : f d ∈ Table.update (fun d => d.id = work.deliveryId) f s.db.webhookDeliveries :=
      Table.mem_update_of_pos hd (decide_eq_true hid)
    have hfid : (f d).id = work.deliveryId := (hf.outcome.id d).trans hid
    rcases hshow.held_cases h.leased hd hw hheld with ⟨answers, rfl⟩ | ⟨answers, q, rfl⟩
    · cases hresult _ hshow.2.2
    obtain rfl := Option.some.inj (hresult _ hshow.2.2)
    have hcount : work.attempts = (answers.length + 1 : ℕ) := by
      rw [hattempts, hshow.2.1]
      push_cast
      rfl
    have hfinal : isFinal maxAttempts (answers.length + 1) q =
        (isSuccess q || isRejected q || maxAttempts ≤ work.attempts) := by
      rw [hcount]
      rfl
    have hst := hf.status d
    by_cases hend : isFinal maxAttempts (answers.length + 1) q = true
    · refine ⟨.ended answers q, .finish hend, f d, hrow, hfid, ?_⟩
      show (f d).status = _
      rw [hst]
      rw [hfinal] at hend
      by_cases hsuccess : isSuccess q = true
      · rw [if_pos hsuccess, if_pos hsuccess]
      · have hrest : (isRejected q || maxAttempts ≤ work.attempts) = true := by
          simpa [hsuccess] using hend
        rw [if_neg hsuccess, if_neg hsuccess, if_pos hrest]
    · rw [Bool.not_eq_true] at hend
      have hretry := hfinal.symm.trans hend
      have hnot : isSuccess q = false ∧ isRejected q = false ∧
          decide (maxAttempts ≤ work.attempts) = false := by
        simpa only [Bool.or_eq_false_iff, and_assoc] using hretry
      have hlt : work.attempts < maxAttempts := by
        have hspent := of_decide_eq_false hnot.2.2
        omega
      -- up to 64 attempts the ceiling is the ideal one
      have hceiling : (Dispatcher.backoffCeiling work.attempts).toNat =
          Dispatcher.idealCeiling work.attempts :=
        (Dispatcher.exactAt_of_le (by omega) (by omega)).ceiling
      rw [hceiling] at hdelay
      have hfrom : s.now ≤ s.now + seconds delay := by
        have hnonneg : 0 ≤ seconds delay := by
          simp only [seconds]
          omega
        exact le_add_of_nonneg_right hnonneg
      have hto : s.now + seconds delay ≤
          s.now + seconds (Dispatcher.idealCeiling (answers.length + 1)) := by
        have hle : seconds delay ≤ seconds (Dispatcher.idealCeiling (answers.length + 1)) := by
          rw [hcount] at hdelay
          push_cast at hdelay
          simp only [seconds]
          omega
        exact Int.add_le_add_left hle s.now
      refine ⟨.waiting (answers ++ [q]) (s.now + seconds delay), .retry hend hfrom hto, f d, hrow,
        hfid, ?_, ?_, hf.due hretry d⟩
      · rw [hst, hnot.1, hnot.2.1, hnot.2.2, if_neg (List.append_ne_nil_of_right_ne_nil _ (by simp))]
        rfl
      · rw [hf.outcome.attempts, hshow.2.1, List.length_append]
        push_cast
        rfl
  · refine hshow.idle (Table.mem_update_of_not hd (decide_eq_false hid))
      (fun q hq => hq.setWorker hw (hand_eraseIdx ht fun heq => hid heq.symm)) ?_
    have hne : ¬ work.deliveryId = d.id := fun heq => hid heq.symm
    simp only [eventOf, taskOf_eq hw ht, Option.some.injEq, if_neg hne]

/-- A step that is not the delivery's replay takes it one event further in its life. -/
theorem lives_step (hmax : maxAttempts ≤ 64) (h : Tended s) {life : Life} (hlife : Lives s id life)
    (hstep : step maxAttempts s l = some s') (hlone : LoneStep ⟨s, l, s'⟩)
    (hreplay : Replays id ⟨s, l, s'⟩ = false) :
    ∃ life', Life.Next maxAttempts s.now life (eventOf id ⟨s, l, s'⟩) life' ∧
      Lives s' id life' := by
  obtain ⟨d, hd, rfl, hshow⟩ := hlife
  cases l with
  | advance _ | register _ _ _ _ | emit _ _ _ _ _ =>
    cases step_effect hstep with
    | release howner _ _ => cases howner
    | _ => exact hshow.idle hd (fun _ => id) rfl
  | fanOut fresh =>
    cases step_effect hstep with
    | release howner _ _ => cases howner
    | fanOut hfan =>
      obtain ⟨rows, hinsert, rfl⟩ := Dispatcher.fanOut_eq_ok hfan
      exact hshow.idle (Dispatcher.subset_insertDeliveries hinsert hd) (fun _ => id) rfl
  | claim w locked ids => exact lives_claim h hd hshow hstep hlone
  | hydrate w =>
    obtain ⟨ids, hw, rfl⟩ := hydrate_eq hstep
    exact hshow.idle hd (fun r hr => hr.setWorker hw (h.hand_hydrate hd)) rfl
  | respond w i r => exact lives_respond h hd hshow hstep
  | write w i delay => exact lives_write hmax h hd hshow hstep
  | dbError w i => exact absurd rfl (hlone.noDbError w i)
  | crash w => exact absurd rfl (hlone.noCrash w)
  | redeliver businessId deliveryId =>
    cases step_effect hstep with
    | release howner _ _ => cases howner
    | redeliver hredeliver =>
      obtain ⟨-, rfl⟩ := WebhookService.redeliver_eq_ok hredeliver
      have hne : deliveryId ≠ d.id := by simpa [Replays] using hreplay
      have hnot : WebhookService.canRedeliver businessId deliveryId d = false := by
        simp [WebhookService.canRedeliver, hne.symm]
      exact hshow.idle (Table.mem_update_of_not hd hnot) (fun _ => id) rfl

/-! ## The beginning of a life -/

/-- The step fans the delivery out, or replays it. -/
def Starts (id : Uuid) (x : Step) : Prop :=
  ((∃ fresh, x.label = .fanOut fresh) ∧ (∀ d ∈ x.pre.db.webhookDeliveries, d.id ≠ id) ∧
    ∃ d ∈ x.post.db.webhookDeliveries, d.id = id) ∨
  Replays id x = true

theorem lives_starts (hstep : step maxAttempts s l = some s') (hstarts : Starts id ⟨s, l, s'⟩) :
    Lives s' id (.waiting [] s.now) := by
  have he := step_effect hstep
  rcases hstarts with ⟨⟨fresh, hl⟩, hnew, d, hd, rfl⟩ | hreplay
  · dsimp only at hl hnew hd
    subst hl
    cases he with
    | release howner _ _ => cases howner
    | fanOut hfan =>
      obtain ⟨rows, hinsert, rfl⟩ := Dispatcher.fanOut_eq_ok hfan
      rcases Dispatcher.mem_insertDeliveries hinsert hd with hold | ⟨uid, p, -, rfl⟩
      · exact absurd rfl (hnew d hold)
      · exact ⟨_, hd, rfl, rfl, rfl, rfl⟩
  · cases l with
    | redeliver businessId deliveryId =>
      obtain rfl : deliveryId = id := of_decide_eq_true hreplay
      simp only [step, WebhookService.redeliver] at hstep
      split at hstep
      · cases hstep
      · rename_i db hredeliver
        split_ifs at hredeliver with hany
        obtain rfl := Except.ok.inj hredeliver
        obtain rfl := Option.some.inj hstep
        obtain ⟨d, hd, hcan⟩ := List.any_eq_true.mp hany
        have hid : d.id = deliveryId := by
          simp only [WebhookService.canRedeliver, Bool.and_eq_true, decide_eq_true_eq] at hcan
          exact hcan.1.1
        exact ⟨_, Table.mem_update_of_pos hd hcan, hid, rfl, rfl, rfl⟩
    | _ => cases hreplay

end InvoicePayment.Webhooks
