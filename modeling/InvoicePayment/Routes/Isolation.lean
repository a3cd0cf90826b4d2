import InvoicePayment.Lib.Noninterference
import InvoicePayment.Routes.Http
import InvoicePayment.Service.Isolation
import InvoicePayment.Service.Uninterrupted

/-!
# Tenants cannot see each other

A business sees the answers to the requests that carry its keys. Take out of a run every request and
every recorded use of a key that is not its own, and leave what comes from outside the same (the
answers of the PSP, the ids and sequence numbers drawn, the order of a scan): it is answered the
same, request by request, and its rows end the same (`requests_isolated`). The relation between the
two runs is `Alike`, and it is an `Unwinding`.
-/

namespace InvoicePayment.Http

open Service (Agree Extends Isolated Linked Op Outside Reply Unused)
open TransitionSystem (Unwinding)

variable {out : Outside} {b : Uuid} {s t : State}

/-! ## Databases of the service -/

/-- No two keys have one prefix. -/
theorem prefixes_of_change {δ : Type} {env : Service.Env δ} {u : Service.State}
    {asker : Option Uuid} {db : Db} (h : uqApiKeysPrefix.Holds u.db.apiKeys)
    (hchange : Service.Change env u asker db) : uqApiKeysPrefix.Holds db.apiKeys := by
  cases hchange with
  | invoice _ hcreated =>
    rw [hcreated.rest]
    exact h
  | claim _ _ hclaimed =>
    rw [hclaimed.post]
    exact h
  | finalize _ hfinal =>
    rw [hfinal.rest]
    exact h
  | key _ _ _ hkeyPrefix => exact Table.UniqueIndex.holds_append_singleton h hkeyPrefix
  | revoke => exact Table.UniqueIndex.holds_update h (fun _ _ _ => rfl) fun _ _ _ h => h
  | touch => exact Table.UniqueIndex.holds_update h (fun _ _ _ => rfl) fun _ _ _ h => h
  | _ => exact h

theorem prefixes_of_leads {δ : Type} {env : Service.Env δ} {u v : Service.State}
    (hu : (Service.system env).Reachable u) (h : uqApiKeysPrefix.Holds u.db.apiKeys)
    (hleads : (Service.system env).Leads u v) : uqApiKeysPrefix.Holds v.db.apiKeys := by
  obtain ⟨ls, hrun⟩ := hleads
  induction ls generalizing u with
  | nil =>
    obtain rfl := Option.some.inj hrun
    exact h
  | cons l ls ih =>
    rw [TransitionSystem.run_cons] at hrun
    obtain ⟨x, hx, hrun⟩ := Option.bind_eq_some_iff.mp hrun
    have hchange := Service.step_change (Service.sound_of_reachable hu) hx
    exact ih (hu.step hx) (prefixes_of_change h hchange) hrun

/-- The state is one the service reaches, with nothing under way. -/
structure Backed (out : Outside) (s : State) : Prop where
  reached : ∃ u n, (Service.system (out.told 8)).Reachable u ∧ u.db = s.db ∧ u.now = s.now ∧
    Unused u n
  prefixes : uqApiKeysPrefix.Holds s.db.apiKeys

theorem Backed.linked (h : Backed out s) : Linked s.db := by
  obtain ⟨u, n, hu, hdb, -, -⟩ := h.reached
  rw [← hdb]
  exact Service.linked_of_reachable hu

/-- Where the service goes, it is. -/
theorem Backed.leads (h : Backed out s) {t : State}
    (hleads : ∀ u n, u.db = s.db → u.now = s.now → Unused u n →
      ∃ v, (Service.system (out.told 8)).Leads u v ∧ v.db = t.db ∧ v.now = t.now ∧
        Unused v (n + 1)) : Backed out t ∧ Extends s.db t.db := by
  obtain ⟨u, n, hu, hdb, hnow, hunused⟩ := h.reached
  obtain ⟨v, hlead, hvdb, hvnow, hvunused⟩ := hleads u n hdb hnow hunused
  have hprefixes : uqApiKeysPrefix.Holds u.db.apiKeys := by
    rw [hdb]
    exact h.prefixes
  refine ⟨⟨⟨v, n + 1, hlead.reachable hu, hvdb, hvnow, hvunused⟩, ?_⟩, ?_⟩
  · rw [← hvdb]
    exact prefixes_of_leads hu hprefixes hlead
  · rw [← hdb, ← hvdb]
    exact Service.extends_of_leads hu hlead

theorem Backed.perform (h : Backed out s) {op : Op} {db : Db} {a : Except AppError Reply}
    (hperform : op.perform out s.now b s.db = some (db, a)) :
    Backed out { s with db } ∧ Extends s.db db := by
  refine h.leads fun u n hdb hnow hunused => ?_
  rw [← hdb, ← hnow] at hperform
  obtain ⟨v, hlead, hvdb, hvnow, hvunused⟩ := Service.perform_leads 8 hunused hperform
  exact ⟨v, hlead, hvdb, hvnow.trans hnow, hvunused⟩

theorem Backed.touch (h : Backed out s) (keyPrefix : String) :
    Backed out { s with db := Auth.touch s.db s.now keyPrefix } ∧
      Extends s.db (Auth.touch s.db s.now keyPrefix) := by
  refine h.leads fun u n hdb hnow hunused => ?_
  have hstep : (Service.system (out.told 8)).step u (.touch keyPrefix) =
      some (u.withDb (Auth.touch u.db u.now keyPrefix)) := rfl
  refine ⟨_, .single hstep, ?_, hnow, ?_⟩
  · show Auth.touch u.db u.now keyPrefix = _
    rw [hdb, hnow]
  · exact ⟨fun w hw => hunused.workers w (Nat.le_of_succ_le hw),
      fun c hc => hunused.answers c (Nat.le_of_succ_le hc), hunused.inFlight⟩

theorem Backed.advance (h : Backed out s) {now : Timestamp} (hle : s.now ≤ now) :
    Backed out { s with now } := by
  refine (h.leads (t := { s with now }) fun u n hdb hnow hunused => ?_).1
  have hstep : (Service.system (out.told 8)).step u (.payments (.advance now)) =
      some { u with now } := by
    rw [← hnow] at hle
    show (if u.now ≤ now then some { u.toState with now } else none).map _ = _
    rw [if_pos hle]
    rfl
  exact ⟨_, .single hstep, hdb, rfl,
    fun w hw => hunused.workers w (Nat.le_of_succ_le hw),
    fun c hc => hunused.answers c (Nat.le_of_succ_le hc), hunused.inFlight⟩

/-! ## Ids in use -/

/-- Every row of the second table has its key in the first. -/
def KeysWithin {α κ : Type} (key : α → κ) (t t' : List α) : Prop :=
  ∀ x ∈ t', ∃ y ∈ t, key y = key x

/-- Every id and every key prefix of the second database is in use in the first. -/
structure IdsWithin (db db' : Db) : Prop where
  customers : KeysWithin Customer.id db.customers db'.customers
  invoices : KeysWithin Invoice.id db.invoices db'.invoices
  items : KeysWithin LineItem.id db.invoiceLineItems db'.invoiceLineItems
  attempts : KeysWithin PaymentAttempt.id db.paymentAttempts db'.paymentAttempts
  keys : KeysWithin IdempotencyKey.id db.idempotencyKeys db'.idempotencyKeys
  endpoints : KeysWithin WebhookEndpoint.id db.webhookEndpoints db'.webhookEndpoints
  events : KeysWithin WebhookEvent.id db.webhookEvents db'.webhookEvents
  apiKeys : KeysWithin (fun k : ApiKey => (k.id, k.keyPrefix)) db.apiKeys db'.apiKeys

section KeysWithin

variable {α κ γ : Type} {key : α → κ} {t t' t'' : List α}

theorem KeysWithin.refl (key : α → κ) (t : List α) : KeysWithin key t t :=
  fun x hx => ⟨x, hx, rfl⟩

theorem KeysWithin.trans (h : KeysWithin key t t') (h' : KeysWithin key t' t'') :
    KeysWithin key t t'' := by
  intro x hx
  obtain ⟨y, hy, hyx⟩ := h' x hx
  obtain ⟨z, hz, hzy⟩ := h y hy
  exact ⟨z, hz, hzy.trans hyx⟩

/-- A table that keeps the columns a key is made of keeps its keys. -/
theorem KeysWithin.of_keeps {c : α → γ} (h : Table.Keeps c t t')
    (hkey : ∀ x y, c x = c y → key x = key y) : KeysWithin key t' t := by
  intro x hx
  obtain ⟨y, hy, hyx⟩ := h.exists_mem hx
  exact ⟨y, hy, hkey y x hyx⟩

theorem KeysWithin.of_isPrefix (h : t <+: t') : KeysWithin key t' t :=
  fun x hx => ⟨x, h.subset hx, rfl⟩

/-- A key no row has is on no row of the second table either. -/
theorem KeysWithin.fresh (h : KeysWithin key t t') {P : κ → Prop} (hP : ∀ x ∈ t, P (key x)) :
    ∀ x ∈ t', P (key x) := by
  intro x hx
  obtain ⟨y, hy, hyx⟩ := h x hx
  rw [← hyx]
  exact hP y hy

/-- What one owner writes to both tables is in both. -/
theorem KeysWithin.own {ω : Type} [DecidableEq ω] {owner : α → ω} {b : ω} {t₁ t₂ t₁' t₂' : List α}
    (h : Table.OwnWrite owner b t₁ t₂ t₁' t₂') (hwithin : KeysWithin key t₁ t₂)
    (hkept : KeysWithin key t₁' t₁) : KeysWithin key t₁' t₂' := by
  intro x hx
  by_cases hown : owner x = b
  · have hmem : x ∈ t₂'.filter fun y => owner y = b :=
      List.mem_filter.mpr ⟨hx, decide_eq_true hown⟩
    exact ⟨x, List.mem_of_mem_filter (h.agree.mem_iff.mpr hmem), rfl⟩
  · have hmem : x ∈ t₂'.filter fun y => owner y = owner x :=
      List.mem_filter.mpr ⟨hx, decide_eq_true rfl⟩
    rw [h.others₂ _ hown] at hmem
    exact hkept.trans hwithin x (List.mem_of_mem_filter hmem)

end KeysWithin

namespace IdsWithin

variable {db db' db₁ db₂ db₁' db₂' : Db}

theorem refl (db : Db) : IdsWithin db db :=
  ⟨.refl _ _, .refl _ _, .refl _ _, .refl _ _, .refl _ _, .refl _ _, .refl _ _, .refl _ _⟩

theorem trans {db'' : Db} (h : IdsWithin db db') (h' : IdsWithin db' db'') : IdsWithin db db'' :=
  { customers := h.customers.trans h'.customers
    invoices := h.invoices.trans h'.invoices
    items := h.items.trans h'.items
    attempts := h.attempts.trans h'.attempts
    keys := h.keys.trans h'.keys
    endpoints := h.endpoints.trans h'.endpoints
    events := h.events.trans h'.events
    apiKeys := h.apiKeys.trans h'.apiKeys }

/-- An id in use stays in use. -/
theorem of_extends (h : Extends db db') : IdsWithin db' db :=
  { customers := .of_isPrefix h.customers
    invoices := .of_keeps h.invoices fun _ _ heq =>
      congrArg (fun c : Bill × Uuid × String × Timestamp => c.1.id) heq
    items := .of_isPrefix h.items
    attempts := .of_keeps h.attempts fun _ _ heq => congrArg Job.attemptId heq
    keys := .of_keeps h.keys fun _ _ heq => congrArg Prod.fst heq
    endpoints := .of_isPrefix h.endpoints
    events := .of_isPrefix h.events
    apiKeys := .of_keeps h.apiKeys fun x y heq =>
      show ((Service.credential x).id, (Service.credential x).keyPrefix) =
        ((Service.credential y).id, (Service.credential y).keyPrefix) by rw [heq] }

/-- The line items of both databases after a business has written to both. -/
theorem items_own (hlinked : Linked db₂') (h : Isolated b db₁ db₂ db₁' db₂')
    (hwithin : IdsWithin db₁ db₂) (hkept : IdsWithin db₁' db₁) :
    KeysWithin LineItem.id db₁'.invoiceLineItems db₂'.invoiceLineItems := by
  intro li hli
  obtain ⟨i, hi, hid⟩ := hlinked.itemOf li hli
  have hown : li ∈ db₂'.invoiceLineItems.filter (db₂'.isItemOf i.businessId) := by
    refine List.mem_filter.mpr ⟨hli, List.any_eq_true.mpr ⟨i, hi, ?_⟩⟩
    simp [hid]
  by_cases hb : i.businessId = b
  · rw [hb] at hown
    exact ⟨li, List.mem_of_mem_filter (h.lineItems.mem_iff.mpr hown), rfl⟩
  · rw [h.otherItems₂ _ hb] at hown
    exact hkept.items.trans hwithin.items li (List.mem_of_mem_filter hown)

/-- What one business writes to both databases is in both. -/
theorem own (hlinked : Linked db₂') (h : Isolated b db₁ db₂ db₁' db₂')
    (hwithin : IdsWithin db₁ db₂) (hkept : IdsWithin db₁' db₁) : IdsWithin db₁' db₂' :=
  { customers := .own h.customers hwithin.customers hkept.customers
    invoices := .own h.invoices hwithin.invoices hkept.invoices
    items := items_own hlinked h hwithin hkept
    attempts := .own h.attempts hwithin.attempts hkept.attempts
    keys := .own h.keys hwithin.keys hkept.keys
    endpoints := .own h.endpoints hwithin.endpoints hkept.endpoints
    events := .own h.events hwithin.events hkept.events
    apiKeys := .own h.apiKeys hwithin.apiKeys hkept.apiKeys }

/-- Draws that are fresh for the one are fresh for the other. -/
theorem fresh (h : IdsWithin db db') {op : Op} (hop : op.Fresh out db) : op.Fresh out db' := by
  cases op with
  | createCustomer id req => exact h.customers.fresh (P := fun i => i ≠ id) hop
  | createInvoice req fresh =>
    exact ⟨h.invoices.fresh (P := fun i => i ≠ fresh.newId 0) hop.1,
      h.items.fresh (P := fun i => ∀ pos, i ≠ fresh.newId (pos + 1)) hop.2.1,
      h.events.fresh (P := fun i => i ≠ fresh.newId (req.lineItems.length + 1)) hop.2.2⟩
  | pay invoiceId key req result fresh fresh' =>
    exact ⟨h.keys.fresh (P := fun i => i ≠ fresh.newId 0) hop.1,
      h.attempts.fresh (P := fun i => i ≠ fresh.newId 1) hop.2.1,
      h.events.fresh (P := fun i => i ≠ fresh'.newId 0) hop.2.2⟩
  | registerEndpoint id secret req => exact h.endpoints.fresh (P := fun i => i ≠ id) hop
  | createKey id random req =>
    exact h.apiKeys.fresh (P := fun c => c.1 ≠ id ∧
      c.2 ≠ (Auth.generateKey out.sha256 (req.env.getD "test") random).keyPrefix) hop
  | _ => trivial

end IdsWithin

/-! ## Whose request it is -/

/-- The key a token is checked against is an own key in both databases. -/
theorem authenticate_eq {sha256 : List UInt8 → List UInt8} {now : Timestamp} {db₁ db₂ : Db}
    (hagree : Agree b db₁ db₂) (hprefixes : uqApiKeysPrefix.Holds db₂.apiKeys) {token : String}
    (h : Auth.authenticate sha256 db₁ now token = .ok b) :
    Auth.authenticate sha256 db₂ now token = .ok b := by
  unfold Auth.authenticate at h ⊢
  dsimp only at h ⊢
  split_ifs at h ⊢ with htext
  split at h
  · cases h
  rename_i row hfind
  split_ifs at h with hhash
  obtain rfl := Except.ok.inj h
  have hlive := List.find?_some hfind
  have hmem : row ∈ db₁.apiKeys.filter fun k => k.businessId = row.businessId :=
    List.mem_filter.mpr ⟨List.mem_of_find?_eq_some hfind, decide_eq_true rfl⟩
  have hrow : row ∈ db₂.apiKeys := List.mem_of_mem_filter (hagree.apiKeys.mem_iff.mp hmem)
  have hfind₂ : db₂.apiKeys.find? (Auth.isLive now (Auth.derivePrefix token)) = some row := by
    refine Table.find?_eq_some_of_unique hrow hlive fun k hk hk' => ?_
    simp only [Auth.isLive, Bool.and_eq_true, decide_eq_true_eq] at hlive hk'
    exact hprefixes.eq_of_mem hk hrow rfl rfl (hk'.1.1.trans hlive.1.1.symm)
  rw [hfind₂]
  dsimp only
  rw [if_pos hhash]

theorem identify_eq {db₁ db₂ : Db} {now : Timestamp} (hagree : Agree b db₁ db₂)
    (hprefixes : uqApiKeysPrefix.Holds db₂.apiKeys) {req : Request}
    (h : identify out now db₁ req = .ok b) : identify out now db₂ req = .ok b := by
  unfold identify Auth.requireApiKey at h ⊢
  cases htoken : Auth.bearerToken (req.headers.get "authorization") with
  | none =>
    rw [htoken] at h
    cases h
  | some token =>
    rw [htoken] at h
    exact authenticate_eq hagree hprefixes h

theorem agree_refl (b : Uuid) (db : Db) : Agree b db db :=
  ⟨.refl _, .refl _, .refl _, .refl _, .refl _, .refl _, .refl _, .refl _, .refl _⟩

/-- The labels that concern a business: time, its own requests, and the uses of its keys. -/
def isOwn (out : Outside) (b : Uuid) (s : State) : Label → Bool
  | .advance _ => true
  | .request req =>
    match identify out s.now s.db req with
    | .ok c => c = b
    | .error _ => false
  | .touch keyPrefix => s.db.apiKeys.any fun k => k.keyPrefix = keyPrefix && k.businessId = b

/-- The ids a request draws are on no row. -/
def DrawsFresh (out : Outside) (x : TransitionSystem.Transition State Label) : Prop :=
  ∀ req op, x.label = .request req → req.endpoint.op req.headers = .ok op →
    op.Fresh out x.pre.db

/-- The second state has the rows of `b`, and of the others no id that the first one lacks. -/
structure Alike (out : Outside) (b : Uuid) (s t : State) : Prop where
  now : t.now = s.now
  left : Backed out s
  right : Backed out t
  agree : Agree b s.db t.db
  within : IdsWithin s.db t.db

/-! ## The unwinding -/

/-- Behind the middleware the two databases answer the same. -/
theorem handle_same (h : Alike out b s t) {req : Request}
    (hfresh : ∀ op, req.endpoint.op req.headers = .ok op → op.Fresh out s.db) {db : Db}
    {r : Response} (hhandle : handle out s.now b s.db req = some (db, r)) :
    (Backed out { s with db } ∧ Extends s.db db) ∧
      ∃ db', handle out s.now b t.db req = some (db', r) ∧ Backed out { t with db := db' } ∧
        Isolated b s.db t.db db db' := by
  unfold handle at hhandle ⊢
  cases hop : req.endpoint.op req.headers with
  | error e =>
    rw [hop] at hhandle
    obtain ⟨rfl, rfl⟩ := Prod.mk.inj (Option.some.inj hhandle)
    exact ⟨⟨h.left, .refl _⟩, t.db, rfl, h.right, .nothing h.agree⟩
  | ok op =>
    rw [hop] at hhandle
    obtain ⟨⟨db₁, a⟩, hperform, heq⟩ := Option.map_eq_some_iff.mp hhandle
    obtain ⟨rfl, rfl⟩ := Prod.mk.inj heq
    have hop₁ := hfresh op hop
    obtain ⟨db₂, hperform₂, hisolated⟩ := Service.perform_same h.agree h.left.linked
      h.right.linked hop₁ (h.within.fresh hop₁) hperform
    refine ⟨h.left.perform hperform, db₂, ?_, ?_, hisolated⟩
    · dsimp only
      rw [hperform₂]
      rfl
    · rw [← h.now] at hperform₂
      exact (h.right.perform hperform₂).1

/-- An own request. -/
theorem kept_request (h : Alike out b s t) {req : Request} {s' : State}
    (hfresh : ∀ op, req.endpoint.op req.headers = .ok op → op.Fresh out s.db)
    (hown : identify out s.now s.db req = .ok b)
    (hstep : step out s (.request req) = some s') :
    ∃ t', step out t (.request req) = some t' ∧ isOwn out b t (.request req) = true ∧
      answer out t (.request req) = answer out s (.request req) ∧ Alike out b s' t' := by
  have hidentify := identify_eq h.agree h.right.prefixes hown
  rw [← h.now] at hidentify
  have hserve₁ : serve out s.now s.db req = handle out s.now b s.db req := by
    rw [serve, hown]
  have hserve₂ : serve out t.now t.db req = handle out s.now b t.db req := by
    rw [serve, hidentify, h.now]
  obtain ⟨⟨db, r⟩, hhandle, rfl⟩ := Option.map_eq_some_iff.mp hstep
  rw [hserve₁] at hhandle
  obtain ⟨⟨hbacked₁, hextends⟩, db', hhandle₂, hbacked₂, hisolated⟩ := handle_same h hfresh hhandle
  refine ⟨{ t with db := db' }, ?_, ?_, ?_, h.now, hbacked₁, hbacked₂, hisolated.agree, ?_⟩
  · simp only [step, hserve₂, hhandle₂, Option.map_some]
  · simp only [isOwn, hidentify, decide_true]
  · simp only [answer, hserve₁, hserve₂, hhandle, hhandle₂, Option.map_some]
  · exact .own hbacked₂.linked hisolated h.within (.of_extends hextends)

/-- A request of another business, or of nobody. -/
theorem hidden_request (h : Alike out b s t) {req : Request} {s' : State}
    (hfresh : ∀ op, req.endpoint.op req.headers = .ok op → op.Fresh out s.db)
    (hother : ∀ c, identify out s.now s.db req = .ok c → c ≠ b)
    (hstep : step out s (.request req) = some s') : Alike out b s' t := by
  obtain ⟨⟨db, r⟩, hserve, rfl⟩ := Option.map_eq_some_iff.mp hstep
  unfold serve at hserve
  cases hidentify : identify out s.now s.db req with
  | error e =>
    rw [hidentify] at hserve
    obtain ⟨rfl, -⟩ := Prod.mk.inj (Option.some.inj hserve)
    exact h
  | ok c =>
    rw [hidentify] at hserve
    have hself : Alike out c s s :=
      ⟨rfl, h.left, h.left, agree_refl c s.db, .refl s.db⟩
    obtain ⟨⟨hbacked, hextends⟩, db', hhandle₂, -, hisolated⟩ := handle_same hself hfresh hserve
    refine ⟨h.now, hbacked, h.right, ?_, (IdsWithin.of_extends hextends).trans h.within⟩
    show (db.rowsOf b).SameRows (t.db.rowsOf b)
    rw [hisolated.rowsOf₁ (hother c hidentify).symm]
    exact h.agree

/-- The use of an own key. -/
theorem kept_touch (h : Alike out b s t) {keyPrefix : String}
    (hown : isOwn out b s (.touch keyPrefix) = true) :
    isOwn out b t (.touch keyPrefix) = true ∧
      Alike out b { s with db := Auth.touch s.db s.now keyPrefix }
        { t with db := Auth.touch t.db t.now keyPrefix } := by
  obtain ⟨k, hk, hmatch⟩ := List.any_eq_true.mp hown
  have hk₂ : k ∈ t.db.apiKeys := by
    simp only [Bool.and_eq_true, decide_eq_true_eq] at hmatch
    have hmem : k ∈ s.db.apiKeys.filter fun k => k.businessId = b :=
      List.mem_filter.mpr ⟨hk, decide_eq_true hmatch.2⟩
    exact List.mem_of_mem_filter (h.agree.apiKeys.mem_iff.mp hmem)
  -- the prefix belongs to one key, so the update meets no other
  have hone : ∀ {rows : List ApiKey}, uqApiKeysPrefix.Holds rows → k ∈ rows → ∀ j ∈ rows,
      decide (j.keyPrefix = keyPrefix) = true → j.businessId = b := by
    intro rows hrows hk j hj hp
    simp only [Bool.and_eq_true, decide_eq_true_eq] at hmatch hp
    rw [hrows.eq_of_mem hj hk rfl rfl (hp.trans hmatch.1.symm)]
    exact hmatch.2
  have hisolated : Isolated b s.db t.db (Auth.touch s.db s.now keyPrefix)
      (Auth.touch t.db s.now keyPrefix) :=
    { Isolated.nothing h.agree with
      apiKeys := .update h.agree.apiKeys (hone h.left.prefixes hk) (hone h.right.prefixes hk₂)
        fun _ => rfl }
  rw [← h.now] at hisolated
  obtain ⟨hleft, hextends⟩ := h.left.touch keyPrefix
  obtain ⟨hright, -⟩ := h.right.touch keyPrefix
  refine ⟨List.any_eq_true.mpr ⟨k, hk₂, hmatch⟩, h.now, hleft, hright, ?_, ?_⟩
  · rw [h.now] at hisolated ⊢
    exact hisolated.agree
  · rw [h.now] at hisolated hright ⊢
    exact .own hright.linked hisolated h.within (.of_extends hextends)

/-- The use of someone else's key. -/
theorem hidden_touch (h : Alike out b s t) {keyPrefix : String}
    (hother : isOwn out b s (.touch keyPrefix) = false) :
    Alike out b { s with db := Auth.touch s.db s.now keyPrefix } t := by
  obtain ⟨hleft, hextends⟩ := h.left.touch keyPrefix
  refine ⟨h.now, hleft, h.right, ?_, (IdsWithin.of_extends hextends).trans h.within⟩
  have hrows : (Auth.touch s.db s.now keyPrefix).apiKeys.filter (fun k => k.businessId = b) =
      s.db.apiKeys.filter fun k => k.businessId = b := by
    refine Table.filter_update_of_not_own (fun k hk hp => ?_) fun _ _ _ => rfl
    have hnot := List.any_eq_false.mp hother k hk
    simp only [Bool.and_eq_true, hp, true_and] at hnot
    simpa using hnot
  refine { h.agree with apiKeys := ?_ }
  show (List.filter _ (Auth.touch s.db s.now keyPrefix).apiKeys).Perm _
  rw [hrows]
  exact h.agree.apiKeys

/-- Time, a business's own requests and the uses of its keys do the same to both states; what else
happens to the first does not show in the second. -/
theorem unwinding (out : Outside) (b : Uuid) :
    Unwinding (system out) (isOwn out b) (answer out) (DrawsFresh out) (Alike out b) where
  kept := by
    rintro ⟨s, l, s'⟩ t h hstep hfresh hown
    dsimp only at h hstep hown ⊢
    cases l with
    | advance now =>
      simp only [system, step] at hstep
      split_ifs at hstep with hle
      obtain rfl := Option.some.inj hstep
      have hle' : t.now ≤ now := by
        rw [h.now]
        exact hle
      refine ⟨{ t with now }, ?_, rfl, rfl, rfl, h.left.advance hle, h.right.advance hle',
        h.agree, h.within⟩
      simp only [system, step]
      rw [if_pos hle']
    | request req =>
      refine kept_request h (fun op hop => hfresh req op rfl hop) ?_ hstep
      simp only [isOwn] at hown
      split at hown
      · rename_i c hidentify
        rw [hidentify, of_decide_eq_true hown]
      · cases hown
    | touch keyPrefix =>
      obtain rfl := Option.some.inj hstep
      obtain ⟨hown', halike⟩ := kept_touch h hown
      exact ⟨_, rfl, hown', rfl, halike⟩
  hidden := by
    rintro ⟨s, l, s'⟩ t h hstep hfresh hother
    dsimp only at h hstep hother ⊢
    cases l with
    | advance now => cases hother
    | request req =>
      refine hidden_request h (fun op hop => hfresh req op rfl hop) (fun c hc hcb => ?_) hstep
      simp only [isOwn, hc, hcb, decide_true] at hother
      cases hother
    | touch keyPrefix =>
      obtain rfl := Option.some.inj hstep
      exact hidden_touch h hother

/-- A state the service starts from, its key prefixes distinct. -/
theorem backed_of_initial (h : (system out).Initial s)
    (hprefixes : uqApiKeysPrefix.Holds s.db.apiKeys) : Backed out s :=
  { reached := ⟨_, 0, .of_initial h, rfl, rfl, fun w _ => by rw [h.payments.workers],
      fun c _ => by rw [h.answers], h.payments.inFlight⟩
    prefixes := hprefixes }

/-- Whatever the others ask for in between, a business is answered as if it were alone and the PSP,
the ids and the sequence numbers did the same: the run without the requests of the others and the
uses of their keys succeeds, gives the same responses and ends with the same rows of the business. -/
theorem requests_isolated (out : Outside) (b : Uuid) (h : (system out).Initial s)
    (hprefixes : uqApiKeysPrefix.Holds s.db.apiKeys) {ls : List Label} {s' : State}
    (hrun : (system out).run s ls = some s')
    (hfresh : ∀ x ∈ (system out).steps s ls, DrawsFresh out x) :
    ∃ t', (system out).run s ((system out).purge (isOwn out b) s ls) = some t' ∧
      (system out).view (isOwn out b) (answer out) s ((system out).purge (isOwn out b) s ls) =
        (system out).view (isOwn out b) (answer out) s ls ∧
      Agree b s'.db t'.db := by
  have hbacked := backed_of_initial h hprefixes
  obtain ⟨t', hrun', halike, hview⟩ := (unwinding out b).of_run
    ⟨rfl, hbacked, hbacked, agree_refl b s.db, .refl s.db⟩ hrun hfresh
  exact ⟨t', hrun', hview, halike.agree⟩

/-! ## Two businesses take turns -/

/-- A key of a business whose random part is one character over and over. -/
def sampleRandom (c : Char) (hc : c.isAlphanum = true) : Auth.RandomBody :=
  { chars := List.replicate 36 c
    length_chars := List.length_replicate
    alphanumeric := fun _ h => (List.eq_of_mem_replicate h) ▸ hc }

def sampleKey (b : Uuid) (n : ℕ) (c : Char) (hc : c.isAlphanum = true) : ApiKey :=
  let key := Auth.generateKey Payments.shopSha256 "test" (sampleRandom c hc)
  { id := shopId n
    businessId := b
    name := none
    keyPrefix := key.keyPrefix
    keyHash := key.keyHash
    lastFour := key.lastFour
    createdAt := 0 }

/-- The two shops, each with a key. -/
def keyedShop : State :=
  { now := 0
    db :=
      { Payments.shop.db with
        apiKeys := [sampleKey (shopId 2) 90 'k' rfl, sampleKey (shopId 3) 91 'm' rfl] } }

def asked (c : Char) (hc : c.isAlphanum = true) (endpoint : Endpoint) : Label :=
  .request
    { headers := [("authorization",
        utf8Bytes ("Bearer " ++ Auth.fullKey "test" (sampleRandom c hc)))]
      endpoint }

/-- Both add a customer, business `3` looks for the one of business `2`, and business `2` lists its
own. -/
def turnsRun : List Label :=
  [asked 'm' rfl (.createCustomer ⟨some "b@shop.example", none⟩ (shopId 80)),
   asked 'k' rfl (.createCustomer ⟨some "a@shop.example", none⟩ (shopId 81)),
   .touch "dpk_test_mmmmmmmm", .advance 5, .touch "dpk_test_kkkkkkkk",
   asked 'm' rfl (.getCustomer (shopId 81)),
   asked 'k' rfl (.getCustomer (shopId 81)),
   asked 'k' rfl (.listCustomers {})]

/-- The draws of a new customer; the other requests of the run draw nothing. -/
def customerDraws (x : TransitionSystem.Transition State Label) : Bool :=
  match x.label with
  | .request ⟨_, .createCustomer _ id⟩ => x.pre.db.customers.all fun c => c.id ≠ id
  | .request ⟨_, .getCustomer _⟩ => true
  | .request ⟨_, .listCustomers _⟩ => true
  | .request _ => false
  | _ => true

theorem drawsFresh_of_customerDraws {x : TransitionSystem.Transition State Label}
    (h : customerDraws x = true) : DrawsFresh Service.shopOutside x := by
  rintro ⟨headers, endpoint⟩ op hlabel hop
  rw [customerDraws, hlabel] at h
  cases endpoint with
  | createCustomer req id =>
    obtain rfl := Except.ok.inj hop
    intro c hc
    exact of_decide_eq_true (List.all_eq_true.mp h c hc)
  | getCustomer id =>
    obtain rfl := Except.ok.inj hop
    trivial
  | listCustomers q =>
    obtain rfl := Except.ok.inj hop
    trivial
  | _ => cases h

/-- Business `2` gets a `201` and two `200`s, with business `3` there or not. -/
theorem requests_isolated_turnsRun :
    ∃ s' t', (system Service.shopOutside).run keyedShop turnsRun = some s' ∧
      let own := (system Service.shopOutside).purge (isOwn Service.shopOutside (shopId 2))
        keyedShop turnsRun
      let seen := (system Service.shopOutside).view (isOwn Service.shopOutside (shopId 2))
        (answer Service.shopOutside) keyedShop
      own.length = 5 ∧
      (seen turnsRun).map (Option.map fun r => r.status.code) =
        [some 201, none, none, some 200, some 200] ∧
      (system Service.shopOutside).run keyedShop own = some t' ∧ seen own = seen turnsRun ∧
      Agree (shopId 2) s'.db t'.db := by
  have hrun : ((system Service.shopOutside).run keyedShop turnsRun).isSome = true := by
    decide +kernel
  have hdraws : (((system Service.shopOutside).steps keyedShop turnsRun).all customerDraws) =
      true := by decide +kernel
  have hinitial : (system Service.shopOutside).Initial keyedShop :=
    ⟨⟨rfl, rfl, rfl, rfl, rfl, rfl, rfl, rfl⟩, by decide, rfl, rfl⟩
  have hprefixes : uqApiKeysPrefix.Holds keyedShop.db.apiKeys :=
    List.pairwise_pair.mpr fun _ _ => by decide +kernel
  obtain ⟨s', hs'⟩ := Option.isSome_iff_exists.mp hrun
  obtain ⟨t', ht', hview, hagree⟩ := requests_isolated Service.shopOutside (shopId 2) hinitial
    hprefixes hs' fun x hx => drawsFresh_of_customerDraws (List.all_eq_true.mp hdraws x hx)
  exact ⟨s', t', hs', by decide +kernel, by decide +kernel, ht', hview, hagree⟩

end InvoicePayment.Http
