import InvoicePayment.Services.CustomerService
import InvoicePayment.Services.InvoiceService
import InvoicePayment.Services.WebhookService

/-!
# Walks over the lists

A client pages through the customers, the invoices or the events of a business, following
`next_cursor` until it is null, while rows are inserted and invoices change state between its
requests. `list_walks` says what it gets: every row at most once and in order, every row that was
there all along, and an end.
-/

namespace InvoicePayment.ListWalks

open Pagination (Key Page Rfc3339 decodeCursor encodeCursor pageSize paginate)

/-! ## What happens between two requests -/

/-- A change of the listed tables. An insert brings any row, with any `created_at`; a row that
changes keeps its id, its business and its `created_at`. -/
inductive Change where
  | insertCustomer (row : Customer)
  | insertInvoice (row : Invoice)
  | insertEvent (row : WebhookEvent)
  | changeInvoice (id : Uuid) (row : Invoice)

/-- The insert of a row whose id exists is refused. -/
def insertRow {α : Type} (id : α → Uuid) (t : List α) (row : α) : List α :=
  if (primaryKey id).conflicts t row then t else t ++ [row]

def Change.apply (db : Db) : Change → Db
  | .insertCustomer row => { db with customers := insertRow Customer.id db.customers row }
  | .insertInvoice row => { db with invoices := insertRow Invoice.id db.invoices row }
  | .insertEvent row => { db with webhookEvents := insertRow WebhookEvent.id db.webhookEvents row }
  | .changeInvoice id row =>
    { db with
      invoices := Table.update (fun i => i.id = id)
        (fun i => { row with id := i.id, businessId := i.businessId, createdAt := i.createdAt })
        db.invoices }

/-! ## Walks -/

/-- One round: the changes since the last request, and the limit of this one. -/
structure Request where
  changes : List Change
  limit : Option Int64

/-- A request as it was answered, with the database at that moment. -/
structure Visit (ρ : Type) where
  db : Db
  limit : Option Int64
  page : Page ρ

/-- Follow the cursors of a list endpoint, one request after another. -/
def walk {ρ : Type} (list : Db → Option Int64 → Option String → Page ρ) :
    Db → Option String → List Request → List (Visit ρ)
  | _, _, [] => []
  | db, cursor, q :: qs =>
    let db' := q.changes.foldl Change.apply db
    let page := list db' q.limit cursor
    { db := db', limit := q.limit, page } ::
      match page.nextCursor with
      | none => []
      | some c => walk list db' (some c) qs

variable {ρ : Type}

/-- All rows the walk returned, in the order they came. -/
def returned (visits : List (Visit ρ)) : List ρ := visits.flatMap fun v => v.page.data

/-- The walk came to a null `next_cursor`. -/
def Ended (visits : List (Visit ρ)) : Prop := ∃ v ∈ visits, v.page.nextCursor = none

/-- What a walk owes the client. `rows db` is the whole list at a moment, unpaged. -/
structure Faultless (rows : Db → List ρ) (createdAt : ρ → Timestamp) (id : ρ → Uuid) (db : Db)
    (requests : List Request) (visits : List (Visit ρ)) : Prop where
  /-- The rows come latest first, over all pages. -/
  decreasing : (returned visits).Pairwise fun a b =>
    Pagination.key (createdAt b) (id b) < Pagination.key (createdAt a) (id a)
  /-- No row comes twice. -/
  distinct : ((returned visits).map id).Nodup
  /-- Every row returned is on the list at that moment. -/
  listed : ∀ v ∈ visits, ∀ r ∈ v.page.data, r ∈ rows v.db
  bounded : ∀ v ∈ visits, (v.page.data.length : Int) ≤ (Pagination.clampLimit v.limit).toInt
  /-- A row that was on the list at every request comes exactly once. -/
  complete : Ended visits → ∀ k, (∀ v ∈ visits, ∃ r ∈ rows v.db, id r = k) →
    ((returned visits).filter fun r => id r = k).length = 1
  /-- At a null cursor nothing is left on the list below what was returned. -/
  exhausted : ∀ v ∈ visits, v.page.nextCursor = none → ∀ r ∈ rows v.db,
    ∃ r' ∈ returned visits,
      Pagination.key (createdAt r') (id r') ≤ Pagination.key (createdAt r) (id r)
  /-- Without changes the walk ends. -/
  ends : (∀ q ∈ requests, q.changes = []) → (rows db).length < requests.length → Ended visits

/-! ## Changes keep the rows -/

/-- The primary keys of the listed tables hold. -/
structure KeysHold (db : Db) : Prop where
  customers : (db.customers.map Customer.id).Nodup
  invoices : (db.invoices.map Invoice.id).Nodup
  events : (db.webhookEvents.map WebhookEvent.id).Nodup

theorem insertRow_cases {α : Type} (id : α → Uuid) (t : List α) (row : α) :
    insertRow id t row = t ∨ (insertRow id t row = t ++ [row] ∧ id row ∉ t.map id) := by
  unfold insertRow
  split_ifs with hconflict
  · exact Or.inl rfl
  · refine Or.inr ⟨rfl, ?_⟩
    have hnew : (primaryKey id).conflicts t row = false := by simpa using hconflict
    exact Table.UniqueIndex.not_mem_keys_of_not_conflicts (fun _ => rfl) hnew

theorem nodup_insertRow {α : Type} {id : α → Uuid} {t : List α} {row : α}
    (h : (t.map id).Nodup) : ((insertRow id t row).map id).Nodup := by
  rcases insertRow_cases id t row with heq | ⟨heq, hnew⟩
  · rwa [heq]
  · rw [heq]
    exact Table.nodup_map_append_singleton h hnew

/-- An insert leaves every row where it is. -/
theorem isPrefix_insertRow {α β : Type} {id : α → Uuid} {t : List α} {row : α} (f : α → β) :
    t.map f <+: (insertRow id t row).map f := by
  rcases insertRow_cases id t row with heq | ⟨heq, -⟩
  · exact ⟨[], by rw [heq, List.append_nil]⟩
  · rw [heq, List.map_append]
    exact List.prefix_append _ _

/-- What identifies a row and never changes. -/
structure Identity where
  id : Uuid
  businessId : Uuid
  createdAt : Timestamp

def ofCustomer (c : Customer) : Identity := ⟨c.id, c.businessId, c.createdAt⟩

def ofInvoice (i : Invoice) : Identity := ⟨i.id, i.businessId, i.createdAt⟩

def ofEvent (e : WebhookEvent) : Identity := ⟨e.id, e.businessId, e.createdAt⟩

/-- The rows of `db` are still there in `db'`, as the same rows. -/
structure Grows (db db' : Db) : Prop where
  customers : db.customers.map ofCustomer <+: db'.customers.map ofCustomer
  invoices : db.invoices.map ofInvoice <+: db'.invoices.map ofInvoice
  events : db.webhookEvents.map ofEvent <+: db'.webhookEvents.map ofEvent

theorem Grows.refl (db : Db) : Grows db db :=
  ⟨List.prefix_rfl, List.prefix_rfl, List.prefix_rfl⟩

theorem Grows.trans {db₁ db₂ db₃ : Db} (h : Grows db₁ db₂) (h' : Grows db₂ db₃) :
    Grows db₁ db₃ :=
  ⟨h.customers.trans h'.customers, h.invoices.trans h'.invoices, h.events.trans h'.events⟩

theorem map_changeInvoice {β : Type} (f : Invoice → β) (db : Db) (id : Uuid) (row : Invoice)
    (hf : ∀ i, f { row with id := i.id, businessId := i.businessId, createdAt := i.createdAt } =
      f i) : ((Change.changeInvoice id row).apply db).invoices.map f = db.invoices.map f :=
  Table.map_update f fun i _ _ => hf i

theorem grows_apply (db : Db) (c : Change) : Grows db (c.apply db) := by
  cases c with
  | insertCustomer row =>
    exact ⟨isPrefix_insertRow ofCustomer, List.prefix_rfl, List.prefix_rfl⟩
  | insertInvoice row =>
    exact ⟨List.prefix_rfl, isPrefix_insertRow ofInvoice, List.prefix_rfl⟩
  | insertEvent row =>
    exact ⟨List.prefix_rfl, List.prefix_rfl, isPrefix_insertRow ofEvent⟩
  | changeInvoice id row =>
    have hsame := map_changeInvoice ofInvoice db id row fun _ => rfl
    exact ⟨List.prefix_rfl, ⟨[], by rw [hsame, List.append_nil]⟩, List.prefix_rfl⟩

theorem keysHold_apply {db : Db} (h : KeysHold db) (c : Change) : KeysHold (c.apply db) := by
  cases c with
  | insertCustomer row => exact ⟨nodup_insertRow h.customers, h.invoices, h.events⟩
  | insertInvoice row => exact ⟨h.customers, nodup_insertRow h.invoices, h.events⟩
  | insertEvent row => exact ⟨h.customers, h.invoices, nodup_insertRow h.events⟩
  | changeInvoice id row =>
    refine ⟨h.customers, ?_, h.events⟩
    rw [map_changeInvoice Invoice.id db id row fun _ => rfl]
    exact h.invoices

theorem grows_foldl (db : Db) (cs : List Change) : Grows db (cs.foldl Change.apply db) := by
  induction cs generalizing db with
  | nil => exact Grows.refl db
  | cons c cs ih => exact (grows_apply db c).trans (ih (c.apply db))

theorem keysHold_foldl {db : Db} (h : KeysHold db) (cs : List Change) :
    KeysHold (cs.foldl Change.apply db) := by
  induction cs generalizing db with
  | nil => exact h
  | cons c cs ih => exact ih (keysHold_apply h c)

/-- A row that is still there has kept its `created_at`. -/
theorem createdAt_of_isPrefix {α : Type} {f : α → Identity} {t t' : List α}
    (hpre : t.map f <+: t'.map f) (hnodup : (t'.map fun r => (f r).id).Nodup) {r r' : α}
    (hr : r ∈ t) (hr' : r' ∈ t') (hid : (f r).id = (f r').id) :
    (f r).createdAt = (f r').createdAt := by
  obtain ⟨r₀, hr₀, heq⟩ := List.mem_map.mp (hpre.subset (List.mem_map_of_mem hr))
  have hid₀ : (f r₀).id = (f r').id := by rw [heq, hid]
  obtain rfl : r₀ = r' := List.inj_on_of_nodup_map hnodup hr₀ hr' hid₀
  rw [heq]

/-! ## A list endpoint -/

/-- The place in the list a cursor stands for. -/
def place (rfc : Rfc3339) (cursor : Option String) : Option Key :=
  (cursor.bind (decodeCursor rfc)).map fun c => Pagination.key c.1 c.2

/-- What the three list use-cases have in common: the pages of `list` are pages of `rows`, and
their cursors decode. -/
structure IsLister (rfc : Rfc3339) (rows : Db → List ρ) (createdAt : ρ → Timestamp) (id : ρ → Uuid)
    (list : Db → Option Int64 → Option String → Page ρ) : Prop where
  page : ∀ db, KeysHold db → ∀ limit cursor,
    Keyset.IsPage (fun r => Pagination.key (createdAt r) (id r)) (rows db) (pageSize limit)
      (place rfc cursor) (list db limit cursor).data (place rfc (list db limit cursor).nextCursor)
  decodes : ∀ db limit cursor c, (list db limit cursor).nextCursor = some c →
    ∃ k, place rfc (some c) = some k
  stable : ∀ db db', Grows db db' → KeysHold db' → ∀ r ∈ rows db, ∀ r' ∈ rows db', id r = id r' →
    createdAt r = createdAt r'

section Paginate

variable {α : Type} {rfc : Rfc3339} {t : List α} {createdAt : α → Timestamp} {id : α → Uuid}
  {response : α → ρ} {fetch : ℕ → Option (Timestamp × Uuid) → List α}

theorem place_encodeCursor (hrfc : rfc.Faithful) (createdAt : Timestamp) (id : Uuid) :
    place rfc (some (encodeCursor rfc createdAt id)) = some (Pagination.key createdAt id) := by
  rw [place, Option.bind_some, Pagination.decodeCursor_encodeCursor hrfc, Option.map_some]

/-- The extra row, the truncation and the cursor fit together. -/
theorem isPage_paginate (hrfc : rfc.Faithful) (createdAt : α → Timestamp) (response : α → ρ)
    {createdAt' : ρ → Timestamp} {id' : ρ → Uuid}
    (hfetch : ∀ n c, fetch n c = Keyset.select (fun r => Pagination.key (createdAt r) (id r)) n
      (c.map fun c => Pagination.key c.1 c.2) t)
    (hnodup : (t.map id).Nodup) (hcreatedAt : ∀ r, createdAt' (response r) = createdAt r)
    (hid : ∀ r, id' (response r) = id r) (limit : Option Int64) (cursor : Option String) :
    Keyset.IsPage (fun r => Pagination.key (createdAt' r) (id' r)) (t.map response)
      (pageSize limit) (place rfc cursor)
      (paginate rfc fetch createdAt id response limit cursor).data
      (place rfc (paginate rfc fetch createdAt id response limit cursor).nextCursor) := by
  have hkey : (t.map fun r => Pagination.key (createdAt r) (id r)).Nodup := by
    have hpairwise := List.pairwise_map.mp hnodup
    exact List.pairwise_map.mpr (hpairwise.imp fun hne heq =>
      hne (Pagination.key_injective heq).2)
  have hpage : Keyset.IsPage (fun r => Pagination.key (createdAt r) (id r)) t (pageSize limit)
      (place rfc cursor) _ _ := Keyset.isPage_select hkey (Pagination.pageSize_pos limit)
  have hrows : fetch (pageSize limit + 1) (cursor.bind (decodeCursor rfc)) =
      Keyset.select (fun r => Pagination.key (createdAt r) (id r)) (pageSize limit + 1)
        (place rfc cursor) t := hfetch _ _
  unfold paginate
  dsimp only
  rw [hrows]
  generalize Keyset.select (fun r => Pagination.key (createdAt r) (id r)) (pageSize limit + 1)
    (place rfc cursor) t = rows at hpage
  have hshown : Keyset.IsPage (fun r => Pagination.key (createdAt' r) (id' r)) (t.map response)
      (pageSize limit) (place rfc cursor) ((rows.take (pageSize limit)).map response) _ :=
    hpage.map fun r => by rw [hcreatedAt, hid]
  by_cases hmore : pageSize limit < rows.length
  · rw [if_pos hmore] at hshown ⊢
    have hplace : place rfc (rows[pageSize limit - 1]?.map fun last =>
          encodeCursor rfc (createdAt last) (id last)) =
        rows[pageSize limit - 1]?.map fun r => Pagination.key (createdAt r) (id r) := by
      cases rows[pageSize limit - 1]? with
      | none => rfl
      | some last => rw [Option.map_some, place_encodeCursor hrfc, Option.map_some]
    rw [hplace]
    exact hshown
  · rw [if_neg hmore] at hshown ⊢
    rwa [List.take_of_length_le (Nat.le_of_not_lt hmore)] at hshown

theorem decodes_paginate (hrfc : rfc.Faithful) (limit : Option Int64) (cursor : Option String)
    (c : String)
    (h : (paginate rfc fetch createdAt id response limit cursor).nextCursor = some c) :
    ∃ k, place rfc (some c) = some k := by
  unfold paginate at h
  dsimp only at h
  split_ifs at h
  obtain ⟨last, -, rfl⟩ := Option.map_eq_some_iff.mp h
  exact ⟨_, place_encodeCursor hrfc _ _⟩

end Paginate

/-! ## Every walk of a list endpoint -/

section Walk

variable {rfc : Rfc3339} {rows : Db → List ρ} {createdAt : ρ → Timestamp} {id : ρ → Uuid}
  {list : Db → Option Int64 → Option String → Page ρ}

/-- The visit of the keyset listing behind a request. -/
def Visit.toKeyset (rfc : Rfc3339) (rows : Db → List ρ) (v : Visit ρ) : Keyset.Visit ρ Key :=
  { rows := rows v.db
    limit := pageSize v.limit
    data := v.page.data
    next := place rfc v.page.nextCursor }

/-- The databases a walk sees have all grown from where it started. -/
theorem grows_of_walk {db : Db} (hdb : KeysHold db) {cursor : Option String}
    {qs : List Request} : ∀ v ∈ walk list db cursor qs, Grows db v.db ∧ KeysHold v.db := by
  induction qs generalizing db cursor with
  | nil => simp [walk]
  | cons q qs ih =>
    have hgrows := grows_foldl db q.changes
    have hkeys := keysHold_foldl hdb q.changes
    intro v hv
    rw [walk] at hv
    rcases List.mem_cons.mp hv with rfl | hv
    · exact ⟨hgrows, hkeys⟩
    · split at hv
      · exact absurd hv List.not_mem_nil
      · exact ⟨hgrows.trans (ih hkeys v hv).1, (ih hkeys v hv).2⟩

/-- A walk along cursor texts is a walk of the keyset listing. -/
theorem isWalk_walk (h : IsLister rfc rows createdAt id list) {db : Db} (hdb : KeysHold db)
    {cursor : Option String} {qs : List Request} :
    Keyset.IsWalk (fun r => Pagination.key (createdAt r) (id r)) (place rfc cursor)
      ((walk list db cursor qs).map (Visit.toKeyset rfc rows)) := by
  induction qs generalizing db cursor with
  | nil => exact Keyset.IsWalk.nil _
  | cons q qs ih =>
    have hkeys := keysHold_foldl hdb q.changes
    have hpage := h.page _ hkeys q.limit cursor
    rw [walk]
    cases hnext : (list (q.changes.foldl Change.apply db) q.limit cursor).nextCursor with
    | none =>
      refine Keyset.IsWalk.last hpage ?_
      show place rfc _ = none
      rw [hnext]
      rfl
    | some c =>
      obtain ⟨k, hk⟩ := h.decodes _ _ _ _ hnext
      have hrest : Keyset.IsWalk _ (place rfc (some c)) _ := ih hkeys
      rw [hk] at hrest
      refine Keyset.IsWalk.next hpage ?_ hrest
      show place rfc _ = some k
      rw [hnext, hk]

theorem returned_toKeyset (visits : List (Visit ρ)) :
    Keyset.returned (visits.map (Visit.toKeyset rfc rows)) = returned visits := by
  rw [Keyset.returned, returned, List.flatMap_map]
  rfl

/-- A null cursor stands for no place. -/
theorem ended_toKeyset {visits : List (Visit ρ)} (h : Ended visits) :
    Keyset.Ended (visits.map (Visit.toKeyset rfc rows)) := by
  obtain ⟨v, hv, hnone⟩ := h
  refine ⟨_, List.mem_map_of_mem hv, ?_⟩
  show place rfc v.page.nextCursor = none
  rw [hnone]
  rfl

/-- Every cursor a walk was given stands for a place. -/
theorem ended_of_toKeyset (h : IsLister rfc rows createdAt id list) {db : Db}
    {cursor : Option String} {qs : List Request}
    (hended : Keyset.Ended ((walk list db cursor qs).map (Visit.toKeyset rfc rows))) :
    Ended (walk list db cursor qs) := by
  obtain ⟨u, hu, hnone⟩ := hended
  obtain ⟨v, hv, rfl⟩ := List.mem_map.mp hu
  refine ⟨v, hv, ?_⟩
  cases hnext : v.page.nextCursor with
  | none => rfl
  | some c =>
    have hplace : ∃ k, place rfc (some c) = some k := by
      clear hu hnone
      induction qs generalizing db cursor with
      | nil => exact absurd hv List.not_mem_nil
      | cons q qs ih =>
        rw [walk] at hv
        rcases List.mem_cons.mp hv with rfl | hv
        · exact h.decodes _ _ _ _ hnext
        · split at hv
          · exact absurd hv List.not_mem_nil
          · exact ih hv
    obtain ⟨k, hk⟩ := hplace
    have hnone' : place rfc v.page.nextCursor = none := hnone
    rw [hnext, hk] at hnone'
    cases hnone'

/-- A walk that is still open has used every request. -/
theorem length_walk {db : Db} {cursor : Option String} {qs : List Request}
    (hopen : ¬ Ended (walk list db cursor qs)) : (walk list db cursor qs).length = qs.length := by
  induction qs generalizing db cursor with
  | nil => rfl
  | cons q qs ih =>
    rw [walk] at hopen ⊢
    cases hnext : (list (q.changes.foldl Change.apply db) q.limit cursor).nextCursor with
    | none => exact absurd ⟨_, List.mem_cons_self, hnext⟩ hopen
    | some c =>
      simp only [hnext] at hopen
      rw [List.length_cons, List.length_cons, ih]
      exact fun ⟨v, hv, hnone⟩ => hopen ⟨v, List.mem_cons_of_mem _ hv, hnone⟩

/-- Without changes every page is taken from the same database. -/
theorem db_of_walk {db : Db} {cursor : Option String} {qs : List Request}
    (hquiet : ∀ q ∈ qs, q.changes = []) : ∀ v ∈ walk list db cursor qs, v.db = db := by
  induction qs generalizing db cursor with
  | nil => simp [walk]
  | cons q qs ih =>
    have hdb : q.changes.foldl Change.apply db = db := by rw [hquiet q List.mem_cons_self]; rfl
    intro v hv
    rw [walk, hdb] at hv
    rcases List.mem_cons.mp hv with rfl | hv
    · rfl
    · split at hv
      · exact absurd hv List.not_mem_nil
      · exact ih (fun q hq => hquiet q (List.mem_cons_of_mem _ hq)) v hv

theorem limit_of_pageSize (limit : Option Int64) :
    (pageSize limit : Int) = (Pagination.clampLimit limit).toInt := by
  have hpos := Pagination.pageSize_pos limit
  rw [pageSize] at hpos ⊢
  omega

/-- Two rows with one id that a walk sees, at whatever pages, have one `created_at`. -/
theorem stable_of_walk (h : IsLister rfc rows createdAt id list) {db : Db} (hdb : KeysHold db)
    {cursor : Option String} {qs : List Request} :
    ∀ v ∈ walk list db cursor qs, ∀ v' ∈ walk list db cursor qs, ∀ r ∈ rows v.db,
      ∀ r' ∈ rows v'.db, id r = id r' → createdAt r = createdAt r' := by
  induction qs generalizing db cursor with
  | nil => simp [walk]
  | cons q qs ih =>
    have hkeys := keysHold_foldl hdb q.changes
    intro v hv v' hv' r hr r' hr' hid
    rw [walk] at hv hv'
    cases hnext : (list (q.changes.foldl Change.apply db) q.limit cursor).nextCursor with
    | none =>
      simp only [hnext, List.mem_singleton] at hv hv'
      subst hv hv'
      exact h.stable _ _ (Grows.refl _) hkeys r hr r' hr' hid
    | some c =>
      simp only [hnext, List.mem_cons] at hv hv'
      -- the first database is below every later one
      rcases hv with rfl | hv <;> rcases hv' with rfl | hv'
      · exact h.stable _ _ (Grows.refl _) hkeys r hr r' hr' hid
      · obtain ⟨hgrows, hlater⟩ := grows_of_walk hkeys v' hv'
        exact h.stable _ _ hgrows hlater r hr r' hr' hid
      · obtain ⟨hgrows, hlater⟩ := grows_of_walk hkeys v hv
        exact (h.stable _ _ hgrows hlater r' hr' r hr hid.symm).symm
      · exact ih hkeys v hv v' hv' r hr r' hr' hid

/-- A walk of a list endpoint that starts without a cursor keeps what it owes. -/
theorem faultless_walk (h : IsLister rfc rows createdAt id list) {db : Db} (hdb : KeysHold db)
    (qs : List Request) : Faultless rows createdAt id db qs (walk list db none qs) := by
  have hwalk : Keyset.IsWalk _ (place rfc none) ((walk list db none qs).map _) :=
    isWalk_walk h hdb
  have hdecreasing := hwalk.decreasing
  rw [returned_toKeyset] at hdecreasing
  have hlisted : ∀ r ∈ returned (walk list db none qs),
      ∃ v ∈ walk list db none qs, r ∈ rows v.db := by
    intro r hr
    obtain ⟨v, hv, hdata⟩ := List.mem_flatMap.mp hr
    exact ⟨v, hv, hwalk.listed _ (List.mem_map_of_mem hv) r hdata⟩
  have hcreatedAt : ∀ r ∈ returned (walk list db none qs), ∀ v ∈ walk list db none qs,
      ∀ r' ∈ rows v.db, id r = id r' → createdAt r = createdAt r' := by
    intro r hr v hv r' hr' hid
    obtain ⟨v₀, hv₀, hr₀⟩ := hlisted r hr
    exact stable_of_walk h hdb v₀ hv₀ v hv r hr₀ r' hr' hid
  have hdistinct : ((returned (walk list db none qs)).map id).Nodup := by
    refine List.pairwise_map.mpr (hdecreasing.imp_of_mem fun {a b} ha hb hlt heq => ?_)
    obtain ⟨v, hv, hbv⟩ := hlisted b hb
    rw [heq, hcreatedAt a ha v hv b hbv heq] at hlt
    exact lt_irrefl _ hlt
  refine
    { decreasing := hdecreasing
      distinct := hdistinct
      listed := fun v hv r hr => hwalk.listed _ (List.mem_map_of_mem hv) r hr
      bounded := fun v hv => ?_
      complete := fun hended k hk => ?_
      exhausted := fun v hv hnone r hr => ?_
      ends := fun hquiet hlong => ?_ }
  · rw [← limit_of_pageSize]
    exact Int.ofNat_le.mpr (hwalk.bounded _ (List.mem_map_of_mem hv))
  · have hvisited := hended
    obtain ⟨v₀, hv₀, -⟩ := hvisited
    obtain ⟨r₀, hr₀, rfl⟩ := hk v₀ hv₀
    have hrows : ∀ u ∈ (walk list db none qs).map (Visit.toKeyset rfc rows),
        ∃ r ∈ u.rows, Pagination.key (createdAt r) (id r) =
          Pagination.key (createdAt r₀) (id r₀) := by
      intro u hu
      obtain ⟨v, hv, rfl⟩ := List.mem_map.mp hu
      obtain ⟨r, hr, hid⟩ := hk v hv
      exact ⟨r, hr, by rw [hid, stable_of_walk h hdb v hv v₀ hv₀ r hr r₀ hr₀ hid]⟩
    obtain ⟨r, hr, hkey⟩ := hwalk.complete (ended_toKeyset hended) (by rintro c ⟨⟩) hrows
    rw [returned_toKeyset] at hr
    exact Table.length_filter_eq_one hdistinct
      (fun x _ y _ hx hy => (of_decide_eq_true hx).trans (of_decide_eq_true hy).symm) hr
      (decide_eq_true (Pagination.key_injective hkey).2)
  · by_contra hleft
    have hbelow := hwalk.exhausted _ (List.mem_map_of_mem hv)
      (show place rfc v.page.nextCursor = none by rw [hnone]; rfl) r hr ?_
    · exact Bool.noConfusion hbelow
    · rw [returned_toKeyset]
      intro r' hr'
      exact lt_of_not_ge fun hle => hleft ⟨r', hr', hle⟩
  · by_contra hopen
    have hopen' : ¬ Keyset.Ended ((walk list db none qs).map (Visit.toKeyset rfc rows)) :=
      fun hended => hopen (ended_of_toKeyset h hended)
    have hrows : ∀ u ∈ (walk list db none qs).map (Visit.toKeyset rfc rows), u.rows = rows db := by
      intro u hu
      obtain ⟨v, hv, rfl⟩ := List.mem_map.mp hu
      show rows v.db = rows db
      rw [db_of_walk hquiet v hv]
    have hlength := hwalk.length_le hrows hopen'
    rw [List.length_map, length_walk hopen] at hlength
    omega

end Walk

/-! ## The three lists -/

/-- The customers of a business, unpaged. -/
def customerRows (businessId : Uuid) (db : Db) : List CustomerResponse :=
  (db.customers.filter fun c => c.businessId = businessId).map CustomerResponse.ofCustomer

/-- The invoices of a business, of any state or of one. -/
def invoiceRows (businessId : Uuid) (state : Option InvoiceState) (db : Db) :
    List InvoiceResponse :=
  (db.invoices.filter fun i => i.businessId = businessId && state.all (i.state = ·)).map
    (InvoiceResponse.fromParts · [])

/-- The events of a business. -/
def eventRows (businessId : Uuid) (db : Db) : List WebhookEventRow :=
  (db.webhookEvents.filter fun e => e.businessId = businessId).map WebhookEventRow.ofEvent

section Lists

variable {rfc : Rfc3339}

theorem isLister_customers (hrfc : rfc.Faithful) (businessId : Uuid) :
    IsLister rfc (customerRows businessId) CustomerResponse.createdAt CustomerResponse.id
      fun db => CustomerService.list rfc db businessId where
  page db hdb limit cursor :=
    isPage_paginate hrfc Customer.createdAt CustomerResponse.ofCustomer (fun _ _ => rfl)
      (hdb.customers.sublist (List.filter_sublist.map _)) (fun _ => rfl) (fun _ => rfl) limit cursor
  decodes db limit cursor := decodes_paginate hrfc limit cursor
  stable db db' hgrows hdb' r hr r' hr' hid := by
    obtain ⟨c, hc, rfl⟩ := List.mem_map.mp hr
    obtain ⟨c', hc', rfl⟩ := List.mem_map.mp hr'
    exact createdAt_of_isPrefix hgrows.customers hdb'.customers (List.mem_of_mem_filter hc)
      (List.mem_of_mem_filter hc') hid

theorem isLister_invoices (hrfc : rfc.Faithful) (businessId : Uuid)
    (state : Option InvoiceState) :
    IsLister rfc (invoiceRows businessId state) InvoiceResponse.createdAt InvoiceResponse.id
      fun db => InvoiceService.list rfc db businessId state where
  page db hdb limit cursor :=
    isPage_paginate hrfc Invoice.createdAt (InvoiceResponse.fromParts · []) (fun _ _ => rfl)
      (hdb.invoices.sublist (List.filter_sublist.map _)) (fun _ => rfl) (fun _ => rfl) limit cursor
  decodes db limit cursor := decodes_paginate hrfc limit cursor
  stable db db' hgrows hdb' r hr r' hr' hid := by
    obtain ⟨i, hi, rfl⟩ := List.mem_map.mp hr
    obtain ⟨i', hi', rfl⟩ := List.mem_map.mp hr'
    exact createdAt_of_isPrefix hgrows.invoices hdb'.invoices (List.mem_of_mem_filter hi)
      (List.mem_of_mem_filter hi') hid

theorem isLister_events (hrfc : rfc.Faithful) (businessId : Uuid) :
    IsLister rfc (eventRows businessId) WebhookEventRow.createdAt WebhookEventRow.id
      fun db => WebhookService.listEvents rfc db businessId where
  page db hdb limit cursor :=
    isPage_paginate hrfc WebhookEvent.createdAt WebhookEventRow.ofEvent (fun _ _ => rfl)
      (hdb.events.sublist (List.filter_sublist.map _)) (fun _ => rfl) (fun _ => rfl) limit cursor
  decodes db limit cursor := decodes_paginate hrfc limit cursor
  stable db db' hgrows hdb' r hr r' hr' hid := by
    obtain ⟨e, he, rfl⟩ := List.mem_map.mp hr
    obtain ⟨e', he', rfl⟩ := List.mem_map.mp hr'
    exact createdAt_of_isPrefix hgrows.events hdb'.events (List.mem_of_mem_filter he)
      (List.mem_of_mem_filter he') hid

end Lists

/-- Whatever is inserted and however invoices move between the requests, a walk over the
customers, the invoices or the events of a business neither skips nor repeats a row. -/
theorem list_walks {rfc : Rfc3339} (hrfc : rfc.Faithful) {db : Db} (hdb : KeysHold db)
    (businessId : Uuid) (state : Option InvoiceState) (requests : List Request) :
    Faultless (customerRows businessId) CustomerResponse.createdAt CustomerResponse.id db requests
      (walk (fun db => CustomerService.list rfc db businessId) db none requests) ∧
    Faultless (invoiceRows businessId state) InvoiceResponse.createdAt InvoiceResponse.id db
      requests (walk (fun db => InvoiceService.list rfc db businessId state) db none requests) ∧
    Faultless (eventRows businessId) WebhookEventRow.createdAt WebhookEventRow.id db requests
      (walk (fun db => WebhookService.listEvents rfc db businessId) db none requests) :=
  ⟨faultless_walk (isLister_customers hrfc businessId) hdb requests,
    faultless_walk (isLister_invoices hrfc businessId state) hdb requests,
    faultless_walk (isLister_events hrfc businessId) hdb requests⟩

/-! ## Customers created at once -/

/-- The first seconds of the epoch as `chrono` writes them. -/
def shopTimes : List (Timestamp × String) :=
  [(0, "1970-01-01T00:00:00+00:00"), (seconds 1, "1970-01-01T00:00:01+00:00"),
   (seconds 2, "1970-01-01T00:00:02+00:00"), (seconds 3, "1970-01-01T00:00:03+00:00")]

/-- A text for every other time. -/
def unaryTime (t : Int) : String :=
  String.ofList ('u' :: ((if t < 0 then ['-'] else []) ++ List.replicate t.natAbs '1'))

/-- The text form on those seconds, and a unary one elsewhere. -/
def shopRfc3339 : Rfc3339 where
  toRfc3339 t := ((shopTimes.find? fun p => p.1 = t).map Prod.snd).getD (unaryTime t)
  parseFromRfc3339 s :=
    match s.toList with
    | 'u' :: '-' :: cs => some (-cs.length)
    | 'u' :: cs => some cs.length
    | _ => (shopTimes.find? fun p => p.2 = s).map Prod.fst

theorem parse_unaryTime (t : Int) :
    shopRfc3339.parseFromRfc3339 (unaryTime t) = some t := by
  by_cases ht : t < 0
  · have habs : -(t.natAbs : Int) = t := by omega
    simp only [shopRfc3339, unaryTime, String.toList_ofList, if_pos ht, List.cons_append,
      List.nil_append, List.length_replicate, habs]
  · have habs : (t.natAbs : Int) = t := by omega
    cases hn : t.natAbs with
    | zero =>
      rw [hn] at habs
      simp only [shopRfc3339, unaryTime, String.toList_ofList, if_neg ht, hn, List.nil_append,
        List.replicate_zero, List.length_nil, habs]
    | succ n =>
      rw [hn] at habs
      simp only [shopRfc3339, unaryTime, String.toList_ofList, if_neg ht, hn, List.nil_append,
        List.replicate_succ]
      show some ((('1' :: List.replicate n '1').length : ℕ) : Int) = some t
      rw [List.length_cons, List.length_replicate, habs]

theorem shopRfc3339_faithful : shopRfc3339.Faithful := by
  have htable : ∀ p ∈ shopTimes,
      shopRfc3339.parseFromRfc3339 p.2 = some p.1 ∧ '|' ∉ p.2.toList := by
    decide
  have hcases : ∀ t, (t, shopRfc3339.toRfc3339 t) ∈ shopTimes ∨
      shopRfc3339.toRfc3339 t = unaryTime t := by
    intro t
    cases hfind : shopTimes.find? fun p => p.1 = t with
    | none => exact Or.inr (by simp [shopRfc3339, hfind])
    | some p =>
      have hp : p.1 = t := by simpa using List.find?_some hfind
      have hrender : shopRfc3339.toRfc3339 t = p.2 := by
        simp only [shopRfc3339, hfind, Option.map_some, Option.getD_some]
      rw [hrender, ← hp]
      exact Or.inl (List.mem_of_find?_eq_some hfind)
  constructor
  · intro t
    rcases hcases t with hmem | heq
    · exact (htable _ hmem).1
    · rw [heq, parse_unaryTime]
  · intro t
    rcases hcases t with hmem | heq
    · exact (htable _ hmem).2
    · rw [heq]
      by_cases ht : t < 0 <;> simp [unaryTime, ht]

/-- A customer of business `2` without a name. -/
def shopCustomer (n : ℕ) (createdAt : Timestamp) : Customer :=
  { id := shopId n, businessId := shopId 2, email := some "a@shop.test", name := none, createdAt }

/-- Four customers, three of them of one moment. -/
def customersDb : Db :=
  { customers :=
      [shopCustomer 10 0, shopCustomer 12 (seconds 1), shopCustomer 11 (seconds 1),
       shopCustomer 13 (seconds 1)] }

/-- Two pages; between them comes in another customer of that moment, above the cursor. -/
def customersWalk : List Request :=
  [{ changes := [], limit := some 2 },
   { changes := [.insertCustomer (shopCustomer 14 (seconds 1))], limit := none }]

theorem list_walks_customers :
    KeysHold customersDb ∧
    Faultless (customerRows (shopId 2)) CustomerResponse.createdAt CustomerResponse.id customersDb
      customersWalk
      (walk (fun db => CustomerService.list shopRfc3339 db (shopId 2)) customersDb none
        customersWalk) ∧
    ((returned (walk (fun db => CustomerService.list shopRfc3339 db (shopId 2)) customersDb none
      customersWalk)).map CustomerResponse.id) =
        [shopId 13, shopId 12, shopId 11, shopId 10] := by
  have hdb : KeysHold customersDb := ⟨by decide, List.nodup_nil, List.nodup_nil⟩
  exact ⟨hdb, (list_walks shopRfc3339_faithful hdb (shopId 2) none customersWalk).1,
    by decide +kernel⟩

end InvoicePayment.ListWalks
