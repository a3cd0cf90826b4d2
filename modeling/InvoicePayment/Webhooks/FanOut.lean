import InvoicePayment.Webhooks.Effects

/-!
# Fan-out

Every delivery pairs an event with an endpoint that admits it, at most once (`Directed`). That no
pair is missing depends on when the dispatcher runs: fan-out only looks an hour back, so a pair
is missed exactly when an event is an hour old at the first fan-out after it
(`fan_out_complete_iff`).
-/

namespace InvoicePayment.Webhooks

variable {maxAttempts : Int} {s s' : State} {l : Label}

/-! ## What fan-out owes -/

/-- The step is a fan-out. -/
def IsFanOut (x : Step) : Prop := ∃ fresh, x.label = .fanOut fresh

/-- Among the steps there is a state with the endpoint and without the event. -/
def RegisteredBefore (front : List Step) (ep : WebhookEndpoint) (e : WebhookEvent) : Prop :=
  ∃ y ∈ front, ep ∈ y.pre.db.webhookEndpoints ∧ e ∉ y.pre.db.webhookEvents

/-- The delivery of an event to an endpoint. -/
def isFor (e : WebhookEvent) (ep : WebhookEndpoint) (d : WebhookDelivery) : Bool :=
  d.eventId = e.id && d.endpointId = ep.id

/-- Every event has exactly one delivery for each endpoint that admits it and was registered
before it. -/
def Complete (front : List Step) (s : State) : Prop :=
  ∀ e ∈ s.db.webhookEvents, ∀ ep ∈ s.db.webhookEndpoints, RegisteredBefore front ep e →
    Dispatcher.admits e ep = true →
    (s.db.webhookDeliveries.filter (isFor e ep)).length = 1

/-- The tables are complete right after each fan-out. -/
def FansOutCompletely (xs : List Step) : Prop :=
  ∀ front x after, xs = front ++ x :: after → IsFanOut x → Complete front x.post

/-- Some fan-out among the steps has seen the event. -/
def Seen (front : List Step) (e : WebhookEvent) : Prop :=
  ∃ y ∈ front, IsFanOut y ∧ e ∈ y.pre.db.webhookEvents

/-- An event no fan-out has seen yet, and that has a subscriber, is less than an hour old at
the next fan-out. -/
def FansOutInTime (xs : List Step) : Prop :=
  ∀ front x after, xs = front ++ x :: after → IsFanOut x →
    ∀ e ∈ x.pre.db.webhookEvents, ¬ Seen front e →
    ∀ ep ∈ x.pre.db.webhookEndpoints, RegisteredBefore front ep e →
    Dispatcher.admits e ep = true → x.pre.now - seconds 3600 < e.createdAt

/-- Every delivery pairs an event with an endpoint of the same business whose filter admits it,
at most once. -/
structure Directed (s : State) : Prop where
  target : ∀ d ∈ s.db.webhookDeliveries, ∃ e ∈ s.db.webhookEvents,
    ∃ ep ∈ s.db.webhookEndpoints, d.eventId = e.id ∧ d.endpointId = ep.id ∧
    d.businessId = e.businessId ∧ ep.businessId = e.businessId ∧ Dispatcher.admits e ep = true
  once : (s.db.webhookDeliveries.map fun d => (d.eventId, d.endpointId)).Nodup

/-! ## One step -/

theorem Effect.events_mono (he : Effect maxAttempts s l s') {e : WebhookEvent}
    (h : e ∈ s.db.webhookEvents) : e ∈ s'.db.webhookEvents := by
  cases he with
  | emit _ => exact List.mem_append_left _ h
  | fanOut hfan =>
    obtain ⟨rows, -, rfl⟩ := Dispatcher.fanOut_eq_ok hfan
    exact h
  | claim _ _ hclaim _ =>
    obtain rfl := Dispatcher.claim_eq_ok hclaim
    exact h
  | write _ _ _ hsend =>
    obtain ⟨f, -, rfl⟩ := Dispatcher.sendOne_eq_ok hsend
    exact h
  | redeliver hredeliver =>
    obtain ⟨-, rfl⟩ := WebhookService.redeliver_eq_ok hredeliver
    exact h
  | _ => exact h

theorem Effect.endpoints_mono (he : Effect maxAttempts s l s') {ep : WebhookEndpoint}
    (h : ep ∈ s.db.webhookEndpoints) : ep ∈ s'.db.webhookEndpoints := by
  cases he with
  | register _ => exact List.mem_append_left _ h
  | fanOut hfan =>
    obtain ⟨rows, -, rfl⟩ := Dispatcher.fanOut_eq_ok hfan
    exact h
  | claim _ _ hclaim _ =>
    obtain rfl := Dispatcher.claim_eq_ok hclaim
    exact h
  | write _ _ _ hsend =>
    obtain ⟨f, -, rfl⟩ := Dispatcher.sendOne_eq_ok hsend
    exact h
  | redeliver hredeliver =>
    obtain ⟨-, rfl⟩ := WebhookService.redeliver_eq_ok hredeliver
    exact h
  | _ => exact h

/-- The ids of the events stay distinct. -/
theorem eventIds_step (he : Effect maxAttempts s l s')
    (h : (s.db.webhookEvents.map WebhookEvent.id).Nodup) :
    (s'.db.webhookEvents.map WebhookEvent.id).Nodup := by
  cases he with
  | @emit _ _ _ _ _ e hid =>
    refine Table.nodup_map_append_singleton h fun hmem => ?_
    obtain ⟨e', he', heq⟩ := List.mem_map.mp hmem
    exact hid e' he' heq
  | fanOut hfan =>
    obtain ⟨rows, -, rfl⟩ := Dispatcher.fanOut_eq_ok hfan
    exact h
  | claim _ _ hclaim _ =>
    obtain rfl := Dispatcher.claim_eq_ok hclaim
    exact h
  | write _ _ _ hsend =>
    obtain ⟨f, -, rfl⟩ := Dispatcher.sendOne_eq_ok hsend
    exact h
  | redeliver hredeliver =>
    obtain ⟨-, rfl⟩ := WebhookService.redeliver_eq_ok hredeliver
    exact h
  | _ => exact h

/-- An `UPDATE` that keeps the keys keeps the targets. -/
theorem targets_update {rows : List WebhookDelivery} {p : WebhookDelivery → Bool}
    {f : WebhookDelivery → WebhookDelivery}
    (hf : ∀ d, Dispatcher.target (f d) = Dispatcher.target d) :
    (Table.update p f rows).map Dispatcher.target = rows.map Dispatcher.target :=
  Table.map_update Dispatcher.target fun d _ _ => hf d

/-- Only fan-out changes which deliveries there are. -/
theorem Effect.targets (he : Effect maxAttempts s l s') :
    s'.db.webhookDeliveries.map Dispatcher.target = s.db.webhookDeliveries.map Dispatcher.target ∨
    ∃ fresh rows, l = .fanOut fresh ∧
      Dispatcher.insertDeliveries s.now fresh.newId 0 (Dispatcher.fanOutPairs s.db s.now)
        s.db.webhookDeliveries = .ok rows ∧
      s' = s.setDb { s.db with webhookDeliveries := rows } := by
  cases he with
  | fanOut hfan =>
    obtain ⟨rows, hinsert, rfl⟩ := Dispatcher.fanOut_eq_ok hfan
    exact .inr ⟨_, rows, rfl, hinsert, rfl⟩
  | claim _ _ hclaim _ =>
    obtain rfl := Dispatcher.claim_eq_ok hclaim
    exact .inl (targets_update fun _ => rfl)
  | write _ _ _ hsend =>
    obtain ⟨f, hf, rfl⟩ := Dispatcher.sendOne_eq_ok hsend
    exact .inl (targets_update hf.keys)
  | redeliver hredeliver =>
    obtain ⟨-, rfl⟩ := WebhookService.redeliver_eq_ok hredeliver
    exact .inl (targets_update fun _ => rfl)
  | _ => exact .inl rfl

/-- A delivery stays, whatever happens to its status. -/
theorem Effect.target_mono (he : Effect maxAttempts s l s') {d : WebhookDelivery}
    (hd : d ∈ s.db.webhookDeliveries) :
    ∃ d' ∈ s'.db.webhookDeliveries, Dispatcher.target d' = Dispatcher.target d := by
  rcases he.targets with hsame | ⟨fresh, rows, -, hinsert, rfl⟩
  · have hmem : Dispatcher.target d ∈ s'.db.webhookDeliveries.map Dispatcher.target := by
      rw [hsame]
      exact List.mem_map_of_mem hd
    exact List.mem_map.mp hmem
  · exact ⟨d, Dispatcher.subset_insertDeliveries hinsert hd, rfl⟩

/-- A delivery was there before the step, or the step is a fan-out that has selected its pair. -/
theorem Effect.delivery (he : Effect maxAttempts s l s') {d' : WebhookDelivery}
    (hd' : d' ∈ s'.db.webhookDeliveries) :
    (∃ d ∈ s.db.webhookDeliveries, Dispatcher.target d = Dispatcher.target d') ∨
    ∃ fresh e ep, l = .fanOut fresh ∧ (e, ep) ∈ Dispatcher.fanOutPairs s.db s.now ∧
      d'.eventId = e.id ∧ d'.endpointId = ep.id ∧ d'.businessId = e.businessId := by
  rcases he.targets with hsame | ⟨fresh, rows, hl, hinsert, rfl⟩
  · have hmem : Dispatcher.target d' ∈ s.db.webhookDeliveries.map Dispatcher.target := by
      rw [← hsame]
      exact List.mem_map_of_mem hd'
    exact .inl (List.mem_map.mp hmem)
  · rcases Dispatcher.mem_insertDeliveries hinsert hd' with hold | ⟨id, p, hp, rfl⟩
    · exact .inl ⟨d', hold, rfl⟩
    · exact .inr ⟨fresh, p.1, p.2, hl, hp, rfl, rfl, rfl⟩

theorem directed_step (h : Directed s) (he : Effect maxAttempts s l s') : Directed s' := by
  constructor
  · intro d' hd'
    rcases he.delivery hd' with ⟨d, hd, hsame⟩ | ⟨fresh, e, ep, -, hpair, hevent, hep, hb⟩
    · obtain ⟨e, hmem, ep, hepmem, hevent, hep, hb, hown, hadmits⟩ := h.target d hd
      simp only [Dispatcher.target, Prod.mk.injEq] at hsame
      refine ⟨e, he.events_mono hmem, ep, he.endpoints_mono hepmem, ?_, ?_, ?_, hown, hadmits⟩
      · rw [← hsame.1, hevent]
      · rw [← hsame.2.1, hep]
      · rw [← hsame.2.2, hb]
    · obtain ⟨hmem, -, hepmem, hadmits⟩ := Dispatcher.mem_fanOutPairs.mp hpair
      have hown : ep.businessId = e.businessId := (Dispatcher.admits_iff.mp hadmits).1
      exact ⟨e, he.events_mono hmem, ep, he.endpoints_mono hepmem, hevent, hep, hb, hown, hadmits⟩
  · rcases he.targets with hsame | ⟨fresh, rows, -, hinsert, rfl⟩
    · have hpairs : s'.db.webhookDeliveries.map (fun d => (d.eventId, d.endpointId)) =
          s.db.webhookDeliveries.map fun d => (d.eventId, d.endpointId) := by
        have hproj := congrArg (List.map fun k : Uuid × Uuid × Uuid => (k.1, k.2.1)) hsame
        simpa only [List.map_map, Function.comp_def, Dispatcher.target] using hproj
      rw [hpairs]
      exact h.once
    · have hheld : uqDeliveryEventEndpoint.Holds s.db.webhookDeliveries :=
        (Table.UniqueIndex.holds_iff_nodup fun _ => rfl).mpr h.once
      exact (Table.UniqueIndex.holds_iff_nodup fun _ => rfl).mp
        (Dispatcher.holds_insertDeliveries hinsert hheld)

theorem directed_initial (h : Initial s) : Directed s := by
  constructor <;> simp [h.deliveries]

/-! ## Every run -/

/-- What holds in every state of a run, whenever the dispatcher runs. -/
theorem directed_of_mem_states (h : Initial s) {ls : List Label} {t : State}
    (ht : t ∈ (system maxAttempts).states s ls) :
    Directed t ∧ (t.db.webhookEvents.map WebhookEvent.id).Nodup := by
  have hinv : (system maxAttempts).Invariant fun t =>
      Directed t ∧ (t.db.webhookEvents.map WebhookEvent.id).Nodup :=
    { initial := fun s hs => ⟨directed_initial hs, by simp [hs.events]⟩
      step := fun _ _ _ hs hstep =>
        ⟨directed_step hs.1 (step_effect hstep), eventIds_step (step_effect hstep) hs.2⟩ }
  exact hinv.of_reachable (TransitionSystem.reachable_of_mem_states (.of_initial h) ht)

/-- Only a fan-out that has seen an event makes a delivery of it. -/
theorem seen_of_delivery (h : Initial s) {ls : List Label} {front after : List Step}
    (hxs : (system maxAttempts).steps s ls = front ++ after) {d : WebhookDelivery}
    (hd : d ∈ (TransitionSystem.endState s front).db.webhookDeliveries) :
    ∃ e, d.eventId = e.id ∧ Seen front e := by
  have hhistory := (TransitionSystem.isTrace_steps (M := system maxAttempts) s ls).history
    (P := fun front t => ∀ d ∈ t.db.webhookDeliveries, ∃ e, d.eventId = e.id ∧ Seen front e)
    (by simp [h.deliveries]) ?_
  · exact hhistory front after hxs d hd
  intro front x after _ hstep hfront d' hd'
  rcases (step_effect hstep).delivery hd' with ⟨d, hd, hsame⟩ |
    ⟨fresh, e, ep, hl, hpair, hevent, -, -⟩
  · obtain ⟨e, hevent, y, hy, hseen⟩ := hfront d hd
    simp only [Dispatcher.target, Prod.mk.injEq] at hsame
    exact ⟨e, hsame.1.symm.trans hevent, y, List.mem_append_left _ hy, hseen⟩
  · exact ⟨e, hevent, x, by simp, ⟨fresh, hl⟩, (Dispatcher.mem_fanOutPairs.mp hpair).1⟩

/-- No event and no endpoint the steps have met is gone after them. -/
theorem kept_of_steps {ls : List Label} {front after : List Step}
    (hxs : (system maxAttempts).steps s ls = front ++ after) {y : Step} (hy : y ∈ front) :
    (∀ e ∈ y.pre.db.webhookEvents,
      e ∈ (TransitionSystem.endState s front).db.webhookEvents) ∧
    ∀ ep ∈ y.pre.db.webhookEndpoints,
      ep ∈ (TransitionSystem.endState s front).db.webhookEndpoints := by
  have hhistory := (TransitionSystem.isTrace_steps (M := system maxAttempts) s ls).history
    (P := fun front t => ∀ y ∈ front, (∀ e ∈ y.pre.db.webhookEvents, e ∈ t.db.webhookEvents) ∧
      ∀ ep ∈ y.pre.db.webhookEndpoints, ep ∈ t.db.webhookEndpoints) (by simp) ?_
  · exact hhistory front after hxs y hy
  intro front x after _ hstep hfront y hy
  have hx := step_effect hstep
  rcases List.mem_append.mp hy with hy | hy
  · exact ⟨fun e he => hx.events_mono ((hfront y hy).1 e he),
      fun ep hep => hx.endpoints_mono ((hfront y hy).2 ep hep)⟩
  · rw [List.mem_singleton.mp hy]
    exact ⟨fun e he => hx.events_mono he, fun ep hep => hx.endpoints_mono hep⟩

/-- A fan-out makes a delivery for every pair it selects. -/
theorem exists_delivery_of_fanOut {x : Step}
    (hstep : (system maxAttempts).step x.pre x.label = some x.post) (hfan : IsFanOut x)
    {e : WebhookEvent} {ep : WebhookEndpoint}
    (hpair : (e, ep) ∈ Dispatcher.fanOutPairs x.pre.db x.pre.now) :
    ∃ d ∈ x.post.db.webhookDeliveries, isFor e ep d = true := by
  obtain ⟨fresh, hl⟩ := hfan
  have hx := step_effect hstep
  rw [hl] at hx
  generalize x.post = s' at hx
  cases hx with
  | fanOut hfan =>
    obtain ⟨rows, hinsert, rfl⟩ := Dispatcher.fanOut_eq_ok hfan
    obtain ⟨d, hd, hevent, hendpoint⟩ := Dispatcher.exists_of_insertDeliveries hinsert hpair
    exact ⟨d, hd, by simp [isFor, hevent, hendpoint]⟩
  | release howner _ _ => cases howner

/-- If fan-out runs in time, what it has seen is delivered to every endpoint registered before. -/
theorem delivered_of_seen {ls : List Label}
    (htime : FansOutInTime ((system maxAttempts).steps s ls)) {front after : List Step}
    (hxs : (system maxAttempts).steps s ls = front ++ after) {e : WebhookEvent}
    (hseen : Seen front e) {ep : WebhookEndpoint} (hbefore : RegisteredBefore front ep e)
    (hadmits : Dispatcher.admits e ep = true) :
    ∃ d ∈ (TransitionSystem.endState s front).db.webhookDeliveries, isFor e ep d = true := by
  have hhistory := (TransitionSystem.isTrace_steps (M := system maxAttempts) s ls).history
    (P := fun front t => ∀ e ep, Seen front e → RegisteredBefore front ep e →
      Dispatcher.admits e ep = true → ∃ d ∈ t.db.webhookDeliveries, isFor e ep d = true)
    (by rintro e ep ⟨y, hy, -⟩; cases hy) ?_
  · exact hhistory front after hxs e ep hseen hbefore hadmits
  rintro front x after hsplit hstep hfront e ep hseen ⟨z, hz, hzep, hze⟩ hadmits
  obtain ⟨-, hend⟩ := TransitionSystem.isTrace_before hsplit
  -- an event that has been seen is in the table before the step
  have hpre : e ∈ x.pre.db.webhookEvents := by
    obtain ⟨y, hy, -, he⟩ := hseen
    rcases List.mem_append.mp hy with hy | hy
    · rw [hend]
      exact (kept_of_steps hsplit hy).1 e he
    · rw [List.mem_singleton.mp hy] at he
      exact he
  have hbefore : RegisteredBefore front ep e := by
    rcases List.mem_append.mp hz with hz | hz
    · exact ⟨z, hz, hzep, hze⟩
    · rw [List.mem_singleton.mp hz] at hze
      exact absurd hpre hze
  by_cases hold : Seen front e
  · obtain ⟨d, hd, hfor⟩ := hfront e ep hold hbefore hadmits
    obtain ⟨d', hd', hsame⟩ := (step_effect hstep).target_mono hd
    simp only [Dispatcher.target, Prod.mk.injEq] at hsame
    refine ⟨d', hd', ?_⟩
    rw [isFor, hsame.1, hsame.2.1]
    exact hfor
  · -- seen for the first time by this very fan-out, which is in time
    have hfan : IsFanOut x := by
      obtain ⟨y, hy, hyfan, he⟩ := hseen
      rcases List.mem_append.mp hy with hy | hy
      · exact absurd ⟨y, hy, hyfan, he⟩ hold
      · rw [List.mem_singleton.mp hy] at hyfan
        exact hyfan
    have hregistered : ep ∈ x.pre.db.webhookEndpoints := by
      obtain ⟨y, hy, hyep, -⟩ := hbefore
      rw [hend]
      exact (kept_of_steps hsplit hy).2 ep hyep
    have hrecent := htime front x after hsplit hfan e hpre hold ep hregistered hbefore hadmits
    exact exists_delivery_of_fanOut hstep hfan
      (Dispatcher.mem_fanOutPairs.mpr ⟨hpre, hrecent, hregistered, hadmits⟩)

/-- What a fan-out misses although it has just run is an event that is an hour old. -/
theorem recent_of_delivered (h : Initial s) {ls : List Label} {front after : List Step} {x : Step}
    (hxs : (system maxAttempts).steps s ls = front ++ x :: after) {e : WebhookEvent}
    (he : e ∈ x.pre.db.webhookEvents) (hunseen : ¬ Seen front e) {d : WebhookDelivery}
    (hd : d ∈ x.post.db.webhookDeliveries) (hevent : d.eventId = e.id) :
    x.pre.now - seconds 3600 < e.createdAt := by
  have hmem : x ∈ (system maxAttempts).steps s ls := by
    rw [hxs]
    simp
  obtain ⟨hstep, hpre⟩ := TransitionSystem.step_of_mem_steps hmem
  have hids := (directed_of_mem_states h hpre).2
  obtain ⟨-, hend⟩ := TransitionSystem.isTrace_before hxs
  rcases (step_effect hstep).delivery hd with ⟨d₀, hd₀, hsame⟩ |
    ⟨fresh, e', ep, -, hpair, hevent', -, -⟩
  · -- the delivery was not there before, as no fan-out had seen the event
    rw [hend] at hd₀
    obtain ⟨e', hevent', hseen⟩ := seen_of_delivery h hxs hd₀
    simp only [Dispatcher.target, Prod.mk.injEq] at hsame
    have hin : e' ∈ x.pre.db.webhookEvents := by
      obtain ⟨y, hy, -, hye⟩ := hseen
      rw [hend]
      exact (kept_of_steps hxs hy).1 e' hye
    have heq : e' = e := List.inj_on_of_nodup_map hids hin he
      (hevent'.symm.trans (hsame.1.trans hevent))
    rw [heq] at hseen
    exact absurd hseen hunseen
  · obtain ⟨hin, hrecent, -, -⟩ := Dispatcher.mem_fanOutPairs.mp hpair
    obtain rfl : e' = e := List.inj_on_of_nodup_map hids hin he (hevent'.symm.trans hevent)
    exact hrecent

/-- Deliveries are directed in every state of a run, and complete right after each fan-out
exactly if no event with a subscriber is an hour old when fan-out first sees it. -/
theorem fan_out_complete_iff (maxAttempts : Int) {s : State} (h : Initial s) (ls : List Label) :
    ((∀ t ∈ (system maxAttempts).states s ls, Directed t) ∧
      FansOutCompletely ((system maxAttempts).steps s ls)) ↔
    FansOutInTime ((system maxAttempts).steps s ls) := by
  have hstep : ∀ {front x after}, (system maxAttempts).steps s ls = front ++ x :: after →
      (system maxAttempts).step x.pre x.label = some x.post ∧
        x.post ∈ (system maxAttempts).states s ls := by
    intro front x after hxs
    have hmem : x ∈ (system maxAttempts).steps s ls := by
      rw [hxs]
      simp
    exact ⟨(TransitionSystem.step_of_mem_steps hmem).1, TransitionSystem.post_mem_states hmem⟩
  constructor
  · rintro ⟨-, hcomplete⟩ front x after hxs hfan e he hunseen ep hep hbefore hadmits
    have hx := step_effect (hstep hxs).1
    -- the delivery the fan-out owes is there afterwards
    have hone := hcomplete front x after hxs hfan e (hx.events_mono he) ep
      (hx.endpoints_mono hep) hbefore hadmits
    obtain ⟨d, hd⟩ := List.exists_mem_of_length_pos (by omega :
      0 < (x.post.db.webhookDeliveries.filter (isFor e ep)).length)
    obtain ⟨hd, hfor⟩ := List.mem_filter.mp hd
    simp only [isFor, Bool.and_eq_true, decide_eq_true_eq] at hfor
    exact recent_of_delivered h hxs he hunseen hd hfor.1
  · intro htime
    refine ⟨fun t ht => (directed_of_mem_states h ht).1, ?_⟩
    intro front x after hxs hfan e he ep hep hbefore hadmits
    obtain ⟨hdirected, -⟩ := directed_of_mem_states h (hstep hxs).2
    have hxs' : (system maxAttempts).steps s ls = (front ++ [x]) ++ after := by
      rw [hxs, List.append_assoc, List.singleton_append]
    have hpre : e ∈ x.pre.db.webhookEvents := by
      obtain ⟨fresh, hl⟩ := hfan
      have hx := step_effect (hstep hxs).1
      rw [hl] at hx
      generalize x.post = s' at hx he
      cases hx with
      | fanOut hfan =>
        obtain ⟨rows, -, rfl⟩ := Dispatcher.fanOut_eq_ok hfan
        exact he
      | release howner _ _ => cases howner
    obtain ⟨z, hz, hzep, hze⟩ := hbefore
    obtain ⟨d, hd, hfor⟩ := delivered_of_seen htime hxs' ⟨x, by simp, hfan, hpre⟩
      ⟨z, List.mem_append_left _ hz, hzep, hze⟩ hadmits
    rw [TransitionSystem.endState_append] at hd
    refine Table.length_filter_eq_one hdirected.once ?_ hd hfor
    intro d₁ _ d₂ _ h₁ h₂
    simp only [isFor, Bool.and_eq_true, decide_eq_true_eq] at h₁ h₂
    rw [h₁.1, h₁.2, h₂.1, h₂.2]

/-! ## A dispatcher that is down for an hour -/

/-- A receiver and an event, and a fan-out that comes `gap` seconds later. -/
def gapRun (gap : Int) : List Label :=
  [.register (shopId 2) { url := "https://shop.test/hook" } (shopId 20) [1],
   .emit (shopId 2) .invoicePaid (shopId 10) .null (shopFresh 30), .advance (seconds gap),
   .fanOut (shopFresh 40)]

theorem fan_out_complete_iff_gapRun :
    ((system 8).run shop (gapRun 3599)).isSome = true ∧
    (((∀ t ∈ (system 8).states shop (gapRun 3599), Directed t) ∧
      FansOutCompletely ((system 8).steps shop (gapRun 3599))) ↔
    FansOutInTime ((system 8).steps shop (gapRun 3599))) :=
  ⟨by decide +kernel, fan_out_complete_iff 8 shop_initial (gapRun 3599)⟩

/-- A run of four steps whose last one is a fan-out that leaves an event with an earlier
subscriber undelivered. -/
def misses : List Step → Bool
  | [_, b, _, x] =>
    (match x.label with
      | .fanOut _ => true
      | _ => false)
    && !b.pre.db.webhookEndpoints.isEmpty && b.pre.db.webhookEvents.isEmpty
    && !x.post.db.webhookEvents.isEmpty && x.post.db.webhookDeliveries.isEmpty
    && x.post.db.webhookEvents.all fun e => x.post.db.webhookEndpoints.all (Dispatcher.admits e)
  | _ => false

/-- An hour after the event, the fan-out misses it. -/
theorem missed_after_an_hour :
    ¬ ((∀ t ∈ (system 8).states shop (gapRun 3600), Directed t) ∧
      FansOutCompletely ((system 8).steps shop (gapRun 3600))) := by
  rintro ⟨-, hcomplete⟩
  have hmisses : misses ((system 8).steps shop (gapRun 3600)) = true := by decide +kernel
  unfold misses at hmisses
  split at hmisses
  · rename_i a b c x hxs
    simp only [Bool.and_eq_true, Bool.not_eq_true', List.isEmpty_eq_false_iff, List.isEmpty_iff,
      List.all_eq_true] at hmisses
    obtain ⟨⟨⟨⟨⟨hfan, hendpoints⟩, hevents⟩, hevent⟩, hnone⟩, hadmits⟩ := hmisses
    obtain ⟨ep, hep⟩ := List.exists_mem_of_ne_nil _ hendpoints
    obtain ⟨e, he⟩ := List.exists_mem_of_ne_nil _ hevent
    have hbefore : RegisteredBefore [a, b, c] ep e := ⟨b, by simp, hep, by simp [hevents]⟩
    have hsteps : (system 8).steps shop (gapRun 3600) = [a, b, c, x] ++ [] := by
      rw [hxs, List.append_nil]
    have hep' : ep ∈ x.post.db.webhookEndpoints :=
      (kept_of_steps hsteps (by simp : b ∈ [a, b, c, x])).2 ep hep
    have hfan' : IsFanOut x := by
      split at hfan
      · rename_i fresh hl
        exact ⟨fresh, hl⟩
      · cases hfan
    have hone := hcomplete [a, b, c] x [] hxs hfan' e he ep hep' hbefore (hadmits e he ep hep')
    rw [hnone] at hone
    cases hone
  · cases hmisses

end InvoicePayment.Webhooks
