import InvoicePayment.Common.Config
import InvoicePayment.Payments.Soundness
import InvoicePayment.Webhooks.Effects
import Mathlib.Algebra.Order.Group.Int

/-!
# Leases and the work under them

Both workers lease a whole batch for thirty seconds. The dispatcher sends sixteen deliveries at
a time, each for at most ten seconds; the reconciler calls the PSP for one attempt after
another, each for at most the client timeout. `lease_covers_iff` says for which batches the
lease outlives the work, whatever the calls take. Queries take no time here: the first calls start
at the `now()` of the claim.
-/

namespace InvoicePayment

/-! ## The dispatcher -/

namespace Dispatcher

/-- However long the sends take, no delivery of the batch is due again when its outcome is
written. -/
def LeaseCovers (db : Db) (now : Timestamp) (ids : List Uuid) : Prop :=
  ∀ durations : List Int, durations.length = (hydrate db ids).length →
    (∀ d ∈ durations, 0 ≤ d ∧ d ≤ sendTimeout) →
    ∀ (i : ℕ) (work : Work) (t : Timestamp), (hydrate db ids)[i]? = some work →
      (outcomeTimes now durations)[i]? = some t →
      ∀ d ∈ db.webhookDeliveries, d.id = work.deliveryId → isDue t d = false

/-- A claimed row is due again after thirty seconds. -/
theorem isDue_claimed (now t : Timestamp) (d : WebhookDelivery) :
    isDue t (claimed now d) = decide (now + seconds 30 < t) := by
  simp [isDue, claimed]

/-- What the hydrating query returns has just been claimed. -/
theorem claimed_of_hydrate {db db' : Db} {now : Timestamp} {ids : List Uuid}
    (h : claim db now ids = .ok db') {work : Work} (hwork : work ∈ hydrate db' ids) :
    (∃ d ∈ db'.webhookDeliveries, d.id = work.deliveryId) ∧
    ∀ d ∈ db'.webhookDeliveries, d.id = work.deliveryId → ∃ d₀, d = claimed now d₀ := by
  obtain ⟨d, hd, hof⟩ := List.mem_filterMap.mp hwork
  obtain ⟨hmem, hin⟩ := Table.mem_withIds hd
  have hid := deliveryId_ofDelivery hof
  refine ⟨⟨d, hmem, hid.symm⟩, fun d' hd' hid' => ?_⟩
  rw [claim_eq_ok h] at hd'
  obtain ⟨d₀, -, rfl⟩ := Table.mem_update.mp hd'
  split_ifs at hid' ⊢ with hcontains
  · exact ⟨d₀, rfl⟩
  · rw [hid', hid] at hcontains
    exact absurd (List.contains_iff_mem.mpr hin) hcontains

/-- Forty-eight sends fill three rounds of the slots; the forty-ninth may end after forty
seconds. -/
theorem leaseCovers_iff {db db' : Db} {now : Timestamp} {ids : List Uuid}
    (h : claim db now ids = .ok db') :
    LeaseCovers db' now ids ↔ (hydrate db' ids).length ≤ 48 := by
  have hpos : (0 : Int) ≤ sendTimeout := by decide
  constructor
  · intro hcovers
    by_contra hlong
    have hwork : 48 < (hydrate db' ids).length := by omega
    have hdurations : ∀ d ∈ List.replicate (hydrate db' ids).length sendTimeout,
        0 ≤ d ∧ d ≤ sendTimeout := by
      intro d hd
      rw [List.eq_of_mem_replicate hd]
      exact ⟨hpos, Int.le_refl _⟩
    have hend : (outcomeTimes now (List.replicate (hydrate db' ids).length sendTimeout))[48]? =
        some (now + 4 • sendTimeout) :=
      Schedule.finish_replicate (q := 3) (r := 0) hpos (by decide) hwork
    have hget : (hydrate db' ids)[48]? = some (hydrate db' ids)[48] :=
      List.getElem?_eq_getElem hwork
    obtain ⟨⟨d, hd, hid⟩, hclaimed⟩ := claimed_of_hydrate h (List.getElem_mem hwork)
    have hdue := hcovers _ (List.length_replicate ..) hdurations 48 _ _ hget hend d hd hid
    obtain ⟨d₀, rfl⟩ := hclaimed d hd hid
    have hforty : seconds 30 < 4 • sendTimeout := by decide
    rw [isDue_claimed, decide_eq_false_iff_not] at hdue
    exact hdue (Int.add_lt_add_left hforty now)
  · intro hshort durations hlength hdurations i work t hwork ht d hd hid
    have hslots : List.replicate maxConcurrency now ≠ [] := by simp [maxConcurrency]
    have hrounds : durations.length ≤ 3 * (List.replicate maxConcurrency now).length := by
      rw [hlength, List.length_replicate]
      exact hshort
    have hle : t ≤ now + 3 • sendTimeout :=
      Schedule.finish_le hpos hslots (fun d hd => (hdurations d hd).2) hrounds
        (fun y hy => (List.eq_of_mem_replicate hy).le) t (List.mem_of_getElem? ht)
    obtain ⟨d₀, rfl⟩ := (claimed_of_hydrate h (List.mem_of_getElem? hwork)).2 d hd hid
    have hthirty : 3 • sendTimeout = seconds 30 := by decide
    rw [hthirty] at hle
    rw [isDue_claimed, decide_eq_false_iff_not]
    exact Int.not_lt.mpr hle

end Dispatcher

/-! ## The reconciler -/

namespace Reconciler

/-- However long the PSP takes, no attempt of the batch is due again when it is finalized. -/
def LeaseCovers (timeout : Int) (db : Db) (now : Timestamp) (ids : List Uuid) : Prop :=
  ∀ durations : List Int, durations.length = (lease db now ids).2.length →
    (∀ d ∈ durations, 0 ≤ d ∧ d ≤ timeout) →
    ∀ (i : ℕ) (job : Job) (t : Timestamp), (lease db now ids).2[i]? = some job →
      (finalizeTimes now durations)[i]? = some t →
      ∀ a ∈ (lease db now ids).1.paymentAttempts, a.id = job.attemptId → isDue t a = false

/-- The loop is a schedule with one slot. -/
theorem finalizeTimes_eq (now : Timestamp) (durations : List Int) :
    finalizeTimes now durations = Schedule.finish [now] durations := by
  induction durations generalizing now with
  | nil => rw [finalizeTimes, Schedule.finish_nil]
  | cons d ds ih =>
    have hmin : [now].min? = some now := rfl
    rw [finalizeTimes, Schedule.finish_cons hmin, ih, List.erase_cons_head, List.nil_append]

/-- A leased row is due again after thirty seconds. -/
theorem isDue_leased {db : Db} {now : Timestamp} {locked ids : List Uuid}
    (hids : (db.paymentAttempts.map PaymentAttempt.id).Nodup)
    (hbatch : isBatch db now locked ids = true) {job : Job} (hjob : job ∈ (lease db now ids).2) :
    (∃ a ∈ (lease db now ids).1.paymentAttempts, a.id = job.attemptId) ∧
    ∀ a ∈ (lease db now ids).1.paymentAttempts, a.id = job.attemptId →
      ∀ t, isDue t a = decide (now + seconds 30 ≤ t) := by
  obtain ⟨a₀, ha₀, hin, rfl⟩ := mem_lease_jobs hjob
  obtain ⟨a₁, ha₁, hid₁, hdue⟩ := (isDue_of_isBatch hbatch).2 _ hin
  obtain rfl : a₁ = a₀ := List.inj_on_of_nodup_map hids ha₁ ha₀ hid₁
  have hcontains : ids.contains a₁.id = true := List.contains_iff_mem.mpr hin
  refine ⟨⟨_, Table.mem_update_of_pos ha₁ hcontains, rfl⟩, fun a ha hid t => ?_⟩
  obtain ⟨a₂, ha₂, rfl⟩ := Table.mem_update.mp ha
  have hid₂ : a₂.id = a₁.id := by
    split_ifs at hid
    · exact hid
    · exact hid
  obtain rfl : a₂ = a₁ := List.inj_on_of_nodup_map hids ha₂ ha₁ hid₂
  simp only [isDue, Bool.and_eq_true, decide_eq_true_eq] at hdue
  rw [if_pos hcontains]
  simp [isDue, hdue.1]

/-- Five calls end within twenty-five seconds; the sixth may end as its lease does. -/
theorem leaseCovers_iff {db : Db} {now : Timestamp} {locked ids : List Uuid}
    (hids : (db.paymentAttempts.map PaymentAttempt.id).Nodup)
    (hbatch : isBatch db now locked ids = true) :
    LeaseCovers (seconds 5) db now ids ↔ (lease db now ids).2.length ≤ 5 := by
  have hpos : (0 : Int) ≤ seconds 5 := by decide
  constructor
  · intro hcovers
    by_contra hlong
    have hjob : 5 < (lease db now ids).2.length := by omega
    have hdurations : ∀ d ∈ List.replicate (lease db now ids).2.length (seconds 5),
        0 ≤ d ∧ d ≤ seconds 5 := by
      intro d hd
      rw [List.eq_of_mem_replicate hd]
      exact ⟨hpos, Int.le_refl _⟩
    have hend : (finalizeTimes now (List.replicate (lease db now ids).2.length (seconds 5)))[5]? =
        some (now + 6 • seconds 5) := by
      rw [finalizeTimes_eq]
      exact Schedule.finish_replicate (k := 1) (q := 5) (r := 0) hpos (by decide) hjob
    have hget : (lease db now ids).2[5]? = some (lease db now ids).2[5] :=
      List.getElem?_eq_getElem hjob
    obtain ⟨⟨a, ha, hid⟩, hdue⟩ := isDue_leased hids hbatch (List.getElem_mem hjob)
    have hcovered := hcovers _ (List.length_replicate ..) hdurations 5 _ _ hget hend a ha hid
    have hthirty : 6 • seconds 5 = seconds 30 := by decide
    rw [hdue a ha hid, hthirty, decide_eq_false_iff_not] at hcovered
    exact hcovered (Int.le_refl _)
  · intro hshort durations hlength hdurations i job t hjob ht a ha hid
    have hrounds : durations.length ≤ 5 * [now].length := by
      rw [hlength, List.length_singleton]
      omega
    rw [finalizeTimes_eq] at ht
    have hle : t ≤ now + 5 • seconds 5 :=
      Schedule.finish_le hpos (List.cons_ne_nil _ _) (fun d hd => (hdurations d hd).2) hrounds
        (fun y hy => (List.mem_singleton.mp hy).le) t (List.mem_of_getElem? ht)
    rw [(isDue_leased hids hbatch (List.mem_of_getElem? hjob)).2 a ha hid,
      decide_eq_false_iff_not]
    have htwentyfive : 5 • seconds 5 < seconds 30 := by decide
    exact Int.not_le.mpr (Int.lt_of_le_of_lt hle (Int.add_lt_add_left htwentyfive now))

end Reconciler

/-! ## Every batch -/

/-- With the default timeout of the PSP client, the lease of a batch outlives the work under it
whatever the calls take exactly if the dispatcher sends at most 48 deliveries, and if the
reconciler has leased at most five attempts. -/
theorem lease_covers_iff {δ : Type} (env : Payments.Env δ) {vars : String → Option String}
    {cfg : ServiceConfig} (hcfg : ServiceConfig.fromEnv vars = some cfg)
    (hunset : vars "PSP_TIMEOUT_MS" = none) :
    (∀ db now locked ids db', Dispatcher.isBatch db now locked ids = true →
      Dispatcher.claim db now ids = .ok db' →
      (Dispatcher.LeaseCovers db' now ids ↔ (Dispatcher.hydrate db' ids).length ≤ 48)) ∧
    ∀ s locked ids, (Payments.system env).Reachable s →
      Reconciler.isBatch s.db s.now locked ids = true →
      (Reconciler.LeaseCovers cfg.pspTimeout s.db s.now ids ↔
        (Reconciler.lease s.db s.now ids).2.length ≤ 5) := by
  refine ⟨fun db now locked ids db' _ hclaim => Dispatcher.leaseCovers_iff hclaim, ?_⟩
  intro s locked ids hreach hbatch
  rw [ServiceConfig.pspTimeout_of_unset hcfg hunset]
  exact Reconciler.leaseCovers_iff (Payments.sound_of_reachable hreach).attemptIds hbatch

/-! ## Full batches -/

open Payments (openInvoiceOf shop shopSha256 shop_initial definiteSystem)

/-- An environment that only says where the database is. -/
def bareVars (name : String) : Option String :=
  if name = "DATABASE_URL" then some "postgres://db" else none

/-- An endpoint of business `2`, and `n` of its invoices are paid. -/
def busyRun (n : ℕ) : List Webhooks.Label :=
  .register (shopId 2) { url := "https://shop.test/hook" } (shopId 20) [1] ::
    ((List.range n).map fun i =>
      .emit (shopId 2) .invoicePaid (shopId (21 + i)) .null (shopFresh (100 + i))) ++
    [.fanOut (shopFresh 150)]

/-- The deliveries of these events. -/
def busyBatch (n : ℕ) : List Uuid := (List.range n).map fun i => shopId (150 + i)

/-- The deliveries are a batch, and when it is claimed they are all sent. -/
def sendsAll (s : Webhooks.State) (ids : List Uuid) : Bool :=
  Dispatcher.isBatch s.db s.now [] ids &&
    match Dispatcher.claim s.db s.now ids with
    | .ok db => (Dispatcher.hydrate db ids).length = ids.length
    | .error _ => false

theorem exists_busyRun {n : ℕ}
    (h : ((Webhooks.system 8).run Webhooks.shop (busyRun n)).any (sendsAll · (busyBatch n)) =
      true) :
    ∃ s db', (Webhooks.system 8).run Webhooks.shop (busyRun n) = some s ∧
      Dispatcher.isBatch s.db s.now [] (busyBatch n) = true ∧
      Dispatcher.claim s.db s.now (busyBatch n) = .ok db' ∧
      (Dispatcher.hydrate db' (busyBatch n)).length = n := by
  obtain ⟨s, hrun, hsends⟩ := (Option.any_eq_true ..).mp h
  rw [sendsAll, Bool.and_eq_true] at hsends
  obtain ⟨hbatch, hsent⟩ := hsends
  split at hsent
  · rename_i db' hclaim
    refine ⟨s, db', hrun, hbatch, hclaim, (of_decide_eq_true hsent).trans ?_⟩
    rw [busyBatch, List.length_map, List.length_range]
  · cases hsent

/-- The handler of a payment crashes after it has claimed its key; the attempt is `101 + 10 * i`. -/
def orphanRunOf (i : ℕ) : List (Payments.Label DefiniteChoice) :=
  openInvoiceOf (shopId 2) (shopId 1) (2 * i) (10 + 10 * i) ++
    [.startPay (2 * i + 1)
      { businessId := shopId 2, invoiceId := shopId (10 + 10 * i)
        idempotencyKey := s!"k{i}", req := ⟨"tok_success"⟩ },
     .work (2 * i + 1) (shopFresh 0), .work (2 * i + 1) (shopFresh (100 + 10 * i)),
     .crash (2 * i + 1)]

/-- So do `n` of them. -/
def orphanRun (n : ℕ) : List (Payments.Label DefiniteChoice) :=
  (List.range n).flatMap orphanRunOf

/-- Their attempts. -/
def orphanBatch (n : ℕ) : List Uuid := (List.range n).map fun i => shopId (101 + 10 * i)

/-- The attempts are a batch, and they are all leased. -/
def leasesAll (s : Payments.State) (ids : List Uuid) : Bool :=
  Reconciler.isBatch s.db s.now [] ids &&
    (Reconciler.lease s.db s.now ids).2.length = ids.length

theorem exists_orphanRun {n : ℕ}
    (h : ((definiteSystem shopSha256).run shop (orphanRun n)).any (leasesAll · (orphanBatch n)) =
      true) :
    ∃ s, (definiteSystem shopSha256).run shop (orphanRun n) = some s ∧
      Reconciler.isBatch s.db s.now [] (orphanBatch n) = true ∧
      (Reconciler.lease s.db s.now (orphanBatch n)).2.length = n := by
  obtain ⟨s, hrun, hleases⟩ := (Option.any_eq_true ..).mp h
  rw [leasesAll, Bool.and_eq_true, decide_eq_true_eq] at hleases
  refine ⟨s, hrun, hleases.1, hleases.2.trans ?_⟩
  rw [orphanBatch, List.length_map, List.length_range]

/-- Three full rounds of sends, and five attempts: the leases hold. -/
theorem lease_covers_iff_three_rounds :
    (∃ s db', (Webhooks.system 8).run Webhooks.shop (busyRun 48) = some s ∧
      Dispatcher.claim s.db s.now (busyBatch 48) = .ok db' ∧
      (Dispatcher.hydrate db' (busyBatch 48)).length = 48 ∧
      Dispatcher.LeaseCovers db' s.now (busyBatch 48)) ∧
    ∃ s, (definiteSystem shopSha256).run shop (orphanRun 5) = some s ∧
      (Reconciler.lease s.db s.now (orphanBatch 5)).2.length = 5 ∧
      Reconciler.LeaseCovers (seconds 5) s.db s.now (orphanBatch 5) := by
  have hcfg : ServiceConfig.fromEnv bareVars = some _ := rfl
  have hcovers := lease_covers_iff { sha256 := shopSha256, psp := definitePsp } hcfg rfl
  obtain ⟨s, db', hrun, hbatch, hclaim, hlength⟩ := exists_busyRun (n := 48) (by decide +kernel)
  obtain ⟨t, hrun', hbatch', hlength'⟩ := exists_orphanRun (n := 5) (by decide +kernel)
  refine ⟨⟨s, db', hrun, hclaim, hlength, ?_⟩, t, hrun', hlength', ?_⟩
  · exact (hcovers.1 s.db s.now [] (busyBatch 48) db' hbatch hclaim).mpr (by omega)
  · exact (hcovers.2 t [] (orphanBatch 5) ⟨shop, orphanRun 5, shop_initial, hrun'⟩ hbatch').mpr
      (by omega)

/-- Forty-nine sends of ten seconds, and six PSP calls of five. -/
theorem lease_expires_under_work :
    (∃ s db', (Webhooks.system 8).run Webhooks.shop (busyRun 49) = some s ∧
      Dispatcher.isBatch s.db s.now [] (busyBatch 49) = true ∧
      Dispatcher.claim s.db s.now (busyBatch 49) = .ok db' ∧
      ¬ Dispatcher.LeaseCovers db' s.now (busyBatch 49)) ∧
    ∃ s, (definiteSystem shopSha256).run shop (orphanRun 6) = some s ∧
      Reconciler.isBatch s.db s.now [] (orphanBatch 6) = true ∧
      ¬ Reconciler.LeaseCovers (seconds 5) s.db s.now (orphanBatch 6) := by
  obtain ⟨s, db', hrun, hbatch, hclaim, hlength⟩ := exists_busyRun (n := 49) (by decide +kernel)
  obtain ⟨t, hrun', hbatch', hlength'⟩ := exists_orphanRun (n := 6) (by decide +kernel)
  refine ⟨⟨s, db', hrun, hbatch, hclaim, fun hcovers => ?_⟩, t, hrun', hbatch', fun hcovers => ?_⟩
  · have hshort := (Dispatcher.leaseCovers_iff hclaim).mp hcovers
    omega
  · have hreach : (definiteSystem shopSha256).Reachable t :=
      ⟨shop, orphanRun 6, shop_initial, hrun'⟩
    have hids := (Payments.sound_of_reachable hreach).attemptIds
    have hshort := (Reconciler.leaseCovers_iff hids hbatch').mp hcovers
    omega

end InvoicePayment
