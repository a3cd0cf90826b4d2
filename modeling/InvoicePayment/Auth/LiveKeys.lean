import InvoicePayment.Auth.Middleware
import InvoicePayment.Routes.ApiKeys
import InvoicePayment.Lib.TransitionSystem

/-!
# Live keys

The table of keys under every order of creations and revocations. `only_live_keys` says which
tokens the middleware accepts, and as which business: the texts of the keys that were issued
and are neither revoked nor expired.
-/

namespace InvoicePayment.Auth

/-! ## The table of keys -/

/-- The plaintext of the seed key. -/
def seedText : String := "dpk_test_seedkey0000000000000000000000000000"

/-- What the migration stores as its SHA-256. -/
def seedHash : List UInt8 :=
  [0x91, 0x21, 0x44, 0x1a, 0x46, 0x78, 0x4f, 0x87, 0x9f, 0x47, 0x38, 0x9c, 0x73, 0xbd, 0x47, 0xbc,
   0x5a, 0x48, 0x8c, 0x32, 0x3b, 0x9f, 0x36, 0x54, 0x60, 0xb3, 0x41, 0x05, 0x43, 0x4d, 0xce, 0x91]

/-- `018f0000-0000-7000-8000-00000000000n`. -/
def seedId (n : UInt8) : Uuid := ⟨#v[0x01, 0x8f, 0, 0, 0, 0, 0x70, 0, 0x80, 0, 0, 0, 0, 0, 0, n]⟩

/-- The row of the seed key. -/
def seedKey (migratedAt : Timestamp) : ApiKey :=
  { id := seedId 2
    businessId := seedId 1
    name := some "seed-key"
    keyPrefix := "dpk_test_seedkey0"
    keyHash := seedHash
    lastFour := "0000"
    createdAt := migratedAt }

/-- What happens to the table of keys. -/
inductive KeyLabel where
  /-- A business creates a key. -/
  | create (now : Timestamp) (id : Uuid) (random : RandomBody) (businessId : Uuid)
      (req : CreateApiKeyRequest)
  /-- A business revokes a key. -/
  | revoke (now : Timestamp) (businessId id : Uuid)
  /-- The middleware records the use of a key. -/
  | touch (now : Timestamp) (keyPrefix : String)
  /-- The deadline of a key is set by hand; no code of the service does. -/
  | expire (id : Uuid) (expiresAt : Option Timestamp)

/-- A creation or a revocation that is refused leaves the table as it is and is not a step. -/
def keyStep (sha256 : List UInt8 → List UInt8) (db : Db) : KeyLabel → Option Db
  | .create now id random businessId req =>
    match ApiKeys.create sha256 db now id random businessId req with
    | .error _ => none
    | .ok (db', _) => some db'
  | .revoke now businessId id =>
    match ApiKeys.revoke db now businessId id with
    | .error _ => none
    | .ok db' => some db'
  | .touch now keyPrefix => some (touch db now keyPrefix)
  | .expire id expiresAt =>
    if db.apiKeys.any fun k => k.id = id then
      some { db with
        apiKeys := Table.update (fun k => k.id = id) (fun k => { k with expiresAt }) db.apiKeys }
    else none

/-- The table of keys from the migration on. -/
def keySystem (sha256 : List UInt8 → List UInt8) : TransitionSystem Db KeyLabel where
  Initial db := ∃ migratedAt, db.apiKeys = [seedKey migratedAt]
  step := keyStep sha256

/-! ## What was issued -/

/-- A key as its owner got it. -/
structure IssuedKey where
  id : Uuid
  businessId : Uuid
  full : String
deriving DecidableEq

def KeyLabel.issued : KeyLabel → Option IssuedKey
  | .create _ id random businessId req =>
    some { id, businessId, full := fullKey (req.env.getD "test") random }
  | _ => none

def KeyLabel.revoked : KeyLabel → Option Uuid
  | .revoke _ _ id => some id
  | _ => none

/-- The keys issued so far, the seed key included. -/
def issuedKeys (ls : List KeyLabel) : List IssuedKey :=
  { id := seedId 2, businessId := seedId 1, full := seedText } :: ls.filterMap KeyLabel.issued

/-- The ids of the keys revoked so far. -/
def revokedIds (ls : List KeyLabel) : List Uuid := ls.filterMap KeyLabel.revoked

/-- The deadline a key was given last. -/
def deadline (id : Uuid) (ls : List KeyLabel) : Option Timestamp :=
  ls.foldl (fun d l =>
    match l with
    | .expire id' expiresAt => if id' = id then expiresAt else d
    | _ => d) none

/-- The token is the full text of a key that was issued to the business, has not been revoked and
has not expired at `t`. -/
def IsLiveKey (ls : List KeyLabel) (t : Timestamp) (token : String) (businessId : Uuid) : Prop :=
  ∃ k ∈ issuedKeys ls, k.full = token ∧ k.businessId = businessId ∧ k.id ∉ revokedIds ls ∧
    (deadline k.id ls).all (t < ·) = true

/-! ## The table records what was issued -/

/-- What of a row matters for authentication. -/
structure KeyRecord where
  id : Uuid
  businessId : Uuid
  keyPrefix : String
  keyHash : List UInt8
  isRevoked : Bool
  expiresAt : Option Timestamp

def KeyRecord.ofRow (k : ApiKey) : KeyRecord :=
  { id := k.id
    businessId := k.businessId
    keyPrefix := k.keyPrefix
    keyHash := k.keyHash
    isRevoked := k.revokedAt.isSome
    expiresAt := k.expiresAt }

/-- What the table has to say about a key after the labels `ls`. -/
def KeyRecord.ofIssued (sha256 : List UInt8 → List UInt8) (ls : List KeyLabel) (k : IssuedKey) :
    KeyRecord :=
  { id := k.id
    businessId := k.businessId
    keyPrefix := derivePrefix k.full
    keyHash := hashKey sha256 k.full
    isRevoked := (revokedIds ls).contains k.id
    expiresAt := deadline k.id ls }

/-- The rows are the keys issued so far, each as it was created, revoked and given a deadline. -/
structure Records (sha256 : List UInt8 → List UInt8) (ls : List KeyLabel) (db : Db) : Prop where
  rows : db.apiKeys.map KeyRecord.ofRow = (issuedKeys ls).map (KeyRecord.ofIssued sha256 ls)
  ids : (db.apiKeys.map ApiKey.id).Nodup
  prefixes : (db.apiKeys.map ApiKey.keyPrefix).Nodup
  revoked : ∀ id ∈ revokedIds ls, id ∈ db.apiKeys.map ApiKey.id
  expiring : ∀ id, id ∉ db.apiKeys.map ApiKey.id → deadline id ls = none

section Records

variable {sha256 : List UInt8 → List UInt8} {ls : List KeyLabel} {db : Db}

theorem revokedIds_concat (ls : List KeyLabel) (l : KeyLabel) :
    revokedIds (ls ++ [l]) = revokedIds ls ++ l.revoked.toList := by
  cases h : l.revoked <;> simp [revokedIds, h]

theorem issuedKeys_concat (ls : List KeyLabel) (l : KeyLabel) :
    issuedKeys (ls ++ [l]) = issuedKeys ls ++ l.issued.toList := by
  cases h : l.issued <;> simp [issuedKeys, h]

theorem deadline_concat (id : Uuid) (ls : List KeyLabel) (l : KeyLabel) :
    deadline id (ls ++ [l]) =
      match l with
      | .expire id' expiresAt => if id' = id then expiresAt else deadline id ls
      | _ => deadline id ls := by
  rw [deadline, List.foldl_append]
  rfl

theorem records_initial (hseed : hashKey sha256 seedText = seedHash)
    (h : (keySystem sha256).Initial db) : Records sha256 [] db := by
  obtain ⟨migratedAt, h⟩ := h
  have hpre : derivePrefix seedText = "dpk_test_seedkey0" := by decide
  constructor
  · simp only [h, issuedKeys, List.filterMap_nil, List.map_singleton, KeyRecord.ofRow, seedKey,
      KeyRecord.ofIssued, hseed, hpre]
    rfl
  · simp [h]
  · simp [h]
  · simp [revokedIds]
  · exact fun _ _ => rfl

/-- Creation, said once: a new id, a new prefix and the row of the generated key. -/
theorem create_eq_ok {db' : Db} {now : Timestamp} {id : Uuid} {random : RandomBody}
    {businessId : Uuid} {req : CreateApiKeyRequest} {resp : CreateApiKeyResponse}
    (h : ApiKeys.create sha256 db now id random businessId req = .ok (db', resp)) :
    ∃ row : ApiKey, db' = { db with apiKeys := db.apiKeys ++ [row] } ∧
      row.id ∉ db.apiKeys.map ApiKey.id ∧ row.keyPrefix ∉ db.apiKeys.map ApiKey.keyPrefix ∧
      row.id = id ∧
      KeyRecord.ofRow row =
        { id, businessId
          keyPrefix := derivePrefix (fullKey (req.env.getD "test") random)
          keyHash := hashKey sha256 (fullKey (req.env.getD "test") random)
          isRevoked := false
          expiresAt := none } := by
  unfold ApiKeys.create ApiKeyRepo.insert at h
  dsimp only at h
  split at h
  · cases h
  · rename_i db₁ id₁ hinsert
    split_ifs at hinsert with htext hconflict
    obtain ⟨rfl, rfl⟩ := Prod.mk.inj (Except.ok.inj hinsert)
    obtain ⟨rfl, -⟩ := Prod.mk.inj (Except.ok.inj h)
    rw [not_or, Bool.not_eq_true, Bool.not_eq_true] at hconflict
    exact ⟨_, rfl, Table.UniqueIndex.not_mem_keys_of_not_conflicts (fun _ => rfl) hconflict.1,
      Table.UniqueIndex.not_mem_keys_of_not_conflicts (fun _ => rfl) hconflict.2, rfl, rfl⟩

theorem revoke_eq_ok {db' : Db} {now : Timestamp} {businessId id : Uuid}
    (h : ApiKeys.revoke db now businessId id = .ok db') :
    (∃ k ∈ db.apiKeys, ApiKeyRepo.isRevocable businessId id k = true) ∧
    db' = { db with
      apiKeys := Table.update (ApiKeyRepo.isRevocable businessId id)
        (fun k => { k with revokedAt := some now }) db.apiKeys } := by
  unfold ApiKeys.revoke ApiKeyRepo.revoke at h
  split at h
  · rename_i db₁ heq
    obtain ⟨rfl, hany⟩ := Prod.mk.inj heq
    exact ⟨List.any_eq_true.mp hany, (Except.ok.inj h).symm⟩
  · cases h

/-! ## One step -/

theorem records_create {db' : Db} {now : Timestamp} {id : Uuid} {random : RandomBody}
    {businessId : Uuid} {req : CreateApiKeyRequest} {resp : CreateApiKeyResponse}
    (hrec : Records sha256 ls db)
    (h : ApiKeys.create sha256 db now id random businessId req = .ok (db', resp)) :
    Records sha256 (ls ++ [.create now id random businessId req]) db' := by
  obtain ⟨row, rfl, hid, hpre, rfl, hrow⟩ := create_eq_ok h
  have hrevoked : ∀ l', revokedIds (ls ++ [.create l' row.id random businessId req]) =
      revokedIds ls := by
    intro l'
    rw [revokedIds_concat]
    exact List.append_nil _
  have hissued : ∀ k, KeyRecord.ofIssued sha256 (ls ++ [.create now row.id random businessId req]) k =
      KeyRecord.ofIssued sha256 ls k := by
    intro k
    simp only [KeyRecord.ofIssued, hrevoked, deadline_concat]
  have hnew : row.id ∉ revokedIds ls := fun hmem => hid (hrec.revoked _ hmem)
  constructor
  · rw [List.map_append, hrec.rows, issuedKeys_concat, List.map_append, List.map_singleton, hrow]
    refine congrArg₂ _ (List.map_congr_left fun k _ => (hissued k).symm) ?_
    simp only [KeyLabel.issued, Option.toList_some, List.map_singleton, hissued]
    simp [KeyRecord.ofIssued, hnew, hrec.expiring _ hid]
  · exact Table.nodup_map_append_singleton hrec.ids hid
  · exact Table.nodup_map_append_singleton hrec.prefixes hpre
  · intro id' hmem
    rw [hrevoked] at hmem
    rw [List.map_append]
    exact List.mem_append_left _ (hrec.revoked _ hmem)
  · intro id' hmem
    rw [List.map_append, List.mem_append, not_or] at hmem
    rw [deadline_concat]
    exact hrec.expiring _ hmem.1

/-- An `UPDATE` that does to the records what the label does to the history. -/
theorem records_update {p : ApiKey → Bool} {f : ApiKey → ApiKey} {l : KeyLabel}
    {g : KeyRecord → KeyRecord} (hrec : Records sha256 ls db) (hissued : l.issued = none)
    (hid : ∀ k, (f k).id = k.id) (hpre : ∀ k, (f k).keyPrefix = k.keyPrefix)
    (hrow : ∀ k ∈ db.apiKeys, KeyRecord.ofRow (if p k then f k else k) = g (KeyRecord.ofRow k))
    (hkey : ∀ k, KeyRecord.ofIssued sha256 (ls ++ [l]) k = g (KeyRecord.ofIssued sha256 ls k))
    (hrevoked : ∀ id, l.revoked = some id → id ∈ db.apiKeys.map ApiKey.id)
    (hdeadline : ∀ id, id ∉ db.apiKeys.map ApiKey.id → deadline id (ls ++ [l]) = deadline id ls) :
    Records sha256 (ls ++ [l]) { db with apiKeys := Table.update p f db.apiKeys } := by
  have hids : (Table.update p f db.apiKeys).map ApiKey.id = db.apiKeys.map ApiKey.id :=
    Table.map_update _ fun k _ _ => hid k
  have hprefixes :
      (Table.update p f db.apiKeys).map ApiKey.keyPrefix = db.apiKeys.map ApiKey.keyPrefix :=
    Table.map_update _ fun k _ _ => hpre k
  constructor
  · have hmap : (Table.update p f db.apiKeys).map KeyRecord.ofRow =
        (db.apiKeys.map KeyRecord.ofRow).map g := by
      rw [Table.update, List.map_map, List.map_map]
      exact List.map_congr_left hrow
    rw [hmap, hrec.rows, issuedKeys_concat, hissued, Option.toList_none, List.append_nil,
      List.map_map]
    exact List.map_congr_left fun k _ => (hkey k).symm
  · rw [hids]
    exact hrec.ids
  · rw [hprefixes]
    exact hrec.prefixes
  · intro id hmem
    rw [hids]
    rw [revokedIds_concat, List.mem_append, Option.mem_toList] at hmem
    exact hmem.elim (hrec.revoked id) (hrevoked id)
  · intro id hmem
    rw [hids] at hmem
    rw [hdeadline id hmem]
    exact hrec.expiring id hmem

theorem records_revoke {db' : Db} {now : Timestamp} {businessId id : Uuid}
    (hrec : Records sha256 ls db) (h : ApiKeys.revoke db now businessId id = .ok db') :
    Records sha256 (ls ++ [.revoke now businessId id]) db' := by
  obtain ⟨⟨k₀, hk₀, hrevocable⟩, rfl⟩ := revoke_eq_ok h
  have hid₀ : k₀.id = id := by
    simp only [ApiKeyRepo.isRevocable, Bool.and_eq_true, decide_eq_true_eq] at hrevocable
    exact hrevocable.1.1
  refine records_update (g := fun r => { r with isRevoked := r.isRevoked || decide (r.id = id) })
    hrec rfl (fun _ => rfl) (fun _ => rfl) (fun k hk => ?_) (fun k => ?_) (fun id' h => ?_)
    fun id' _ => deadline_concat id' ls _
  · -- ids are unique, so the row with this id is the one that can be revoked
    by_cases hkid : k.id = id
    · obtain rfl : k = k₀ := List.inj_on_of_nodup_map hrec.ids hk hk₀ (hkid.trans hid₀.symm)
      rw [if_pos hrevocable]
      simp [KeyRecord.ofRow, hkid]
    · have hnot : ApiKeyRepo.isRevocable businessId id k = false := by
        simp [ApiKeyRepo.isRevocable, hkid]
      rw [hnot]
      simp [KeyRecord.ofRow, hkid]
  · have hcontains : (revokedIds (ls ++ [.revoke now businessId id])).contains k.id =
        ((revokedIds ls).contains k.id || decide (k.id = id)) := by
      rw [revokedIds_concat, List.contains_append]
      by_cases hkid : k.id = id <;> simp [KeyLabel.revoked, hkid]
    simp only [KeyRecord.ofIssued, hcontains, deadline_concat]
    rfl
  · obtain rfl := Option.some.inj h
    exact hid₀ ▸ List.mem_map_of_mem hk₀

theorem records_touch (hrec : Records sha256 ls db) (now : Timestamp) (keyPrefix : String) :
    Records sha256 (ls ++ [.touch now keyPrefix]) (touch db now keyPrefix) := by
  refine records_update (g := id) hrec rfl (fun _ => rfl) (fun _ => rfl) (fun k _ => ?_)
    (fun k => ?_) (fun id' h => ?_) fun id' _ => deadline_concat id' ls _
  · split_ifs
    · rfl
    · rfl
  · simp only [KeyRecord.ofIssued, revokedIds_concat, deadline_concat, KeyLabel.revoked,
      Option.toList_none, List.append_nil, id_eq]
  · cases h

theorem records_expire (hrec : Records sha256 ls db) {id : Uuid} (expiresAt : Option Timestamp)
    (hany : (db.apiKeys.any fun k => k.id = id) = true) :
    Records sha256 (ls ++ [.expire id expiresAt])
      { db with
        apiKeys := Table.update (fun k => k.id = id) (fun k => { k with expiresAt })
          db.apiKeys } := by
  obtain ⟨k₀, hk₀, hid₀⟩ := List.any_eq_true.mp hany
  rw [decide_eq_true_eq] at hid₀
  refine records_update
    (g := fun r => { r with expiresAt := if id = r.id then expiresAt else r.expiresAt })
    hrec rfl (fun _ => rfl) (fun _ => rfl) (fun k _ => ?_) (fun k => ?_) (fun id' h => ?_)
    fun id' hnew => ?_
  · by_cases hkid : k.id = id
    · simp [KeyRecord.ofRow, hkid]
    · simp [KeyRecord.ofRow, hkid, Ne.symm hkid]
  · simp only [KeyRecord.ofIssued, revokedIds_concat, deadline_concat, KeyLabel.revoked,
      Option.toList_none, List.append_nil]
    rfl
  · cases h
  · rw [deadline_concat]
    refine if_neg fun heq => hnew ?_
    rw [← heq, ← hid₀]
    exact List.mem_map_of_mem hk₀

theorem records_step {db' : Db} {l : KeyLabel} (hrec : Records sha256 ls db)
    (h : (keySystem sha256).step db l = some db') : Records sha256 (ls ++ [l]) db' := by
  cases l with
  | create now id random businessId req =>
    simp only [keySystem, keyStep] at h
    split at h
    · cases h
    · rename_i hcreate
      obtain rfl := Option.some.inj h
      exact records_create hrec hcreate
  | revoke now businessId id =>
    simp only [keySystem, keyStep] at h
    split at h
    · cases h
    · rename_i hrevoke
      obtain rfl := Option.some.inj h
      exact records_revoke hrec hrevoke
  | touch now keyPrefix =>
    obtain rfl := Option.some.inj h
    exact records_touch hrec now keyPrefix
  | expire id expiresAt =>
    simp only [keySystem, keyStep] at h
    split_ifs at h with hany
    obtain rfl := Option.some.inj h
    exact records_expire hrec expiresAt hany

theorem records_of_run (hseed : hashKey sha256 seedText = seedHash) {db₀ : Db}
    (h₀ : (keySystem sha256).Initial db₀) (h : (keySystem sha256).run db₀ ls = some db) :
    Records sha256 ls db :=
  TransitionSystem.run_history (records_initial hseed h₀)
    (fun _ _ _ _ hrec hstep => records_step hrec hstep) h

/-! ## The lookup -/

theorem Records.exists_row (hrec : Records sha256 ls db) {k : IssuedKey} (hk : k ∈ issuedKeys ls) :
    ∃ row ∈ db.apiKeys, KeyRecord.ofRow row = KeyRecord.ofIssued sha256 ls k := by
  have hmem : KeyRecord.ofIssued sha256 ls k ∈ db.apiKeys.map KeyRecord.ofRow := by
    rw [hrec.rows]
    exact List.mem_map_of_mem hk
  exact List.mem_map.mp hmem

theorem Records.exists_issued (hrec : Records sha256 ls db) {row : ApiKey}
    (hrow : row ∈ db.apiKeys) :
    ∃ k ∈ issuedKeys ls, KeyRecord.ofRow row = KeyRecord.ofIssued sha256 ls k := by
  have hmem : KeyRecord.ofRow row ∈ (issuedKeys ls).map (KeyRecord.ofIssued sha256 ls) := by
    rw [← hrec.rows]
    exact List.mem_map_of_mem hrow
  obtain ⟨k, hk, heq⟩ := List.mem_map.mp hmem
  exact ⟨k, hk, heq.symm⟩

/-- No two issued keys share their prefix. -/
theorem Records.issued_eq (hrec : Records sha256 ls db) (hinj : Function.Injective sha256)
    {k k' : IssuedKey} (hk : k ∈ issuedKeys ls) (hk' : k' ∈ issuedKeys ls)
    (hpre : derivePrefix k.full = derivePrefix k'.full) : k = k' := by
  obtain ⟨row, hrow, heq⟩ := hrec.exists_row hk
  obtain ⟨row', hrow', heq'⟩ := hrec.exists_row hk'
  have hsame : row.keyPrefix = row'.keyPrefix :=
    ((congrArg KeyRecord.keyPrefix heq).trans hpre).trans
      (congrArg KeyRecord.keyPrefix heq').symm
  obtain rfl : row = row' := List.inj_on_of_nodup_map hrec.prefixes hrow hrow' hsame
  have hrecord := heq.symm.trans heq'
  have hid : k.id = k'.id := congrArg KeyRecord.id hrecord
  have hbusiness : k.businessId = k'.businessId := congrArg KeyRecord.businessId hrecord
  have hfull : k.full = k'.full := hashKey_injective hinj (congrArg KeyRecord.keyHash hrecord)
  cases k
  cases k'
  cases hid
  cases hbusiness
  cases hfull
  rfl

/-- The query selects the row of a live key by its prefix. -/
theorem isLive_iff {row : ApiKey} {k : IssuedKey} {t : Timestamp} {keyPrefix : String}
    (heq : KeyRecord.ofRow row = KeyRecord.ofIssued sha256 ls k) :
    isLive t keyPrefix row = true ↔
      derivePrefix k.full = keyPrefix ∧ k.id ∉ revokedIds ls ∧
        (deadline k.id ls).all (t < ·) = true := by
  have hpre : row.keyPrefix = derivePrefix k.full := congrArg KeyRecord.keyPrefix heq
  have hrevoked : row.revokedAt.isSome = (revokedIds ls).contains k.id :=
    congrArg KeyRecord.isRevoked heq
  have hexpires : row.expiresAt = deadline k.id ls := congrArg KeyRecord.expiresAt heq
  rw [isLive, ← Option.not_isSome, hpre, hrevoked, hexpires]
  simp only [Bool.and_eq_true, decide_eq_true_eq, Bool.not_eq_true', List.contains_eq_mem,
    decide_eq_false_iff_not, and_assoc]

/-- The prefix of a key is text Postgres takes. -/
theorem isPgText_derivePrefix {k : IssuedKey} (hk : k ∈ issuedKeys ls) :
    isPgText (derivePrefix k.full) = true := by
  refine isPgText_ofList fun c hc => ?_
  have hc' := List.mem_of_mem_take hc
  rw [issuedKeys, List.mem_cons, List.mem_filterMap] at hk
  rcases hk with rfl | ⟨l, -, hissued⟩
  · have hseed : (seedText.toList.all
        fun c => decide (0 < c.toNat ∧ c.toNat ≤ 127)) = true := by decide
    exact of_decide_eq_true (List.all_eq_true.mp hseed c hc')
  · cases l with
    | create now id random businessId req =>
      obtain rfl := Option.some.inj hissued
      exact ascii_fullKey _ _ c hc'
    | revoke now businessId id => cases hissued
    | touch now keyPrefix => cases hissued
    | expire id expiresAt => cases hissued

/-- The middleware accepts a token exactly if it is a live key, as the business it was issued
to. -/
theorem authenticate_eq_ok_iff (hrec : Records sha256 ls db) (hinj : Function.Injective sha256)
    (t : Timestamp) (token : String) (businessId : Uuid) :
    authenticate sha256 db t token = .ok businessId ↔ IsLiveKey ls t token businessId := by
  constructor
  · intro h
    unfold authenticate at h
    dsimp only at h
    split_ifs at h with htext
    split at h
    · cases h
    · rename_i row hfind
      split_ifs at h with hhash
      obtain rfl := Except.ok.inj h
      obtain ⟨k, hk, heq⟩ := hrec.exists_issued (List.mem_of_find?_eq_some hfind)
      obtain ⟨-, hrevoked, hexpires⟩ := (isLive_iff heq).mp (List.find?_some hfind)
      have hkeyHash : row.keyHash = hashKey sha256 k.full := congrArg KeyRecord.keyHash heq
      rw [constantTimeEq_iff, hkeyHash] at hhash
      exact ⟨k, hk, hashKey_injective hinj hhash, (congrArg KeyRecord.businessId heq).symm,
        hrevoked, hexpires⟩
  · rintro ⟨k, hk, rfl, rfl, hrevoked, hexpires⟩
    obtain ⟨row, hrow, heq⟩ := hrec.exists_row hk
    have hlive : isLive t (derivePrefix k.full) row = true :=
      (isLive_iff heq).mpr ⟨rfl, hrevoked, hexpires⟩
    have hfind : db.apiKeys.find? (isLive t (derivePrefix k.full)) = some row := by
      cases hfind : db.apiKeys.find? (isLive t (derivePrefix k.full)) with
      | none => exact absurd hlive (List.find?_eq_none.mp hfind row hrow)
      | some row' =>
        -- the unique index leaves only one row with this prefix
        obtain ⟨k', hk', heq'⟩ := hrec.exists_issued (List.mem_of_find?_eq_some hfind)
        have hpre' := ((isLive_iff heq').mp (List.find?_some hfind)).1
        have hsame : row'.keyPrefix = row.keyPrefix :=
          ((congrArg KeyRecord.keyPrefix heq').trans hpre').trans
            (congrArg KeyRecord.keyPrefix heq).symm
        rw [List.inj_on_of_nodup_map hrec.prefixes (List.mem_of_find?_eq_some hfind) hrow hsame]
    have hkeyHash : row.keyHash = hashKey sha256 k.full := congrArg KeyRecord.keyHash heq
    have hbusiness : row.businessId = k.businessId := congrArg KeyRecord.businessId heq
    have hhash : constantTimeEq row.keyHash (hashKey sha256 k.full) = true :=
      (constantTimeEq_iff _ _).mpr hkeyHash
    unfold authenticate
    simp only [isPgText_derivePrefix hk, not_true_eq_false, if_false, hfind, hhash, if_true,
      hbusiness]

end Records

/-! ## Every table of keys -/

/-- Whatever keys were created and revoked: a token is accepted exactly if it is the text of a key
that is live at that time, and as the business it was issued to. A revoked key is never accepted
again, no key resolves to another business, and sharing the prefix of a key is not enough. -/
theorem only_live_keys {sha256 : List UInt8 → List UInt8} (hinj : Function.Injective sha256)
    (hseed : hashKey sha256 seedText = seedHash) {db₀ db : Db} {ls : List KeyLabel}
    (h₀ : (keySystem sha256).Initial db₀) (hrun : (keySystem sha256).run db₀ ls = some db)
    (t : Timestamp) :
    (∀ token businessId, authenticate sha256 db t token = .ok businessId ↔
      IsLiveKey ls t token businessId) ∧
    (∀ authorization businessId, requireApiKey sha256 db t authorization = .ok businessId ↔
      ∃ token, bearerToken authorization = some token ∧ IsLiveKey ls t token businessId) ∧
    ∀ k ∈ issuedKeys ls, ∀ businessId,
      (k.id ∈ revokedIds ls → authenticate sha256 db t k.full ≠ .ok businessId) ∧
      (authenticate sha256 db t k.full = .ok businessId → businessId = k.businessId) ∧
      ∀ token, derivePrefix token = derivePrefix k.full → token ≠ k.full →
        authenticate sha256 db t token ≠ .ok businessId := by
  have hrec := records_of_run hseed h₀ hrun
  have hiff := authenticate_eq_ok_iff hrec hinj t
  refine ⟨hiff, fun authorization businessId => ?_, fun k hk businessId => ⟨?_, ?_, ?_⟩⟩
  · unfold requireApiKey
    cases hbearer : bearerToken authorization with
    | none => simp
    | some token => simp [hiff]
  · intro hrevoked h
    obtain ⟨k', hk', hfull, -, hlive, -⟩ := (hiff k.full businessId).mp h
    rw [hrec.issued_eq hinj hk' hk (by rw [hfull])] at hlive
    exact hlive hrevoked
  · intro h
    obtain ⟨k', hk', hfull, hbusiness, -, -⟩ := (hiff k.full businessId).mp h
    rw [← hbusiness, hrec.issued_eq hinj hk' hk (by rw [hfull])]
  · intro token hpre hne h
    obtain ⟨k', hk', hfull, -, -, -⟩ := (hiff token businessId).mp h
    refine hne ?_
    rw [← hfull, hrec.issued_eq hinj hk' hk (by rw [hfull, hpre])]

/-! ## A rotation -/

/-- A body of one letter. -/
def rotationBody (c : Char) (h : c.isAlphanum = true) : RandomBody where
  chars := List.replicate randomLen c
  length_chars := List.length_replicate
  alphanumeric _ hx := List.eq_of_mem_replicate hx ▸ h

def oldText : String := "dpk_test_aaaaaaaaaaaaaaaaaaaaaaaaaaaaaaaaaaaa"

def newText : String := "dpk_live_bbbbbbbbbbbbbbbbbbbbbbbbbbbbbbbbbbbb"

/-- The SHA-256 digests of the three keys. -/
def rotationDigests : List (List UInt8 × List UInt8) :=
  [(utf8Bytes seedText, seedHash),
   (utf8Bytes oldText,
     [0xd5, 0x8b, 0xad, 0x19, 0x60, 0x08, 0x42, 0x83, 0xe4, 0xdb, 0x68, 0x60, 0x87, 0xbf,
      0x66, 0x60, 0x06, 0x2d, 0x88, 0x9a, 0xbb, 0x48, 0xf3, 0x40, 0x65, 0xc1, 0x88, 0x03,
      0x7b, 0x62, 0x41, 0x11]),
   (utf8Bytes newText,
     [0x18, 0x7a, 0x78, 0x0f, 0x54, 0xc5, 0xec, 0x38, 0x95, 0x12, 0xbd, 0x7c, 0xe9, 0x94,
      0xb4, 0xd2, 0x1a, 0x3d, 0xdc, 0xb5, 0x3f, 0x70, 0xeb, 0xbb, 0x1f, 0x7c, 0xd6, 0x8d,
      0xcf, 0x41, 0xbe, 0x49])]

def migrated : Db := { apiKeys := [seedKey 0] }

/-- Business `3` gets a second key and revokes its first. -/
def rotation : List KeyLabel :=
  [.create 1 (shopId 10) (rotationBody 'a' rfl) (shopId 3) { name := none },
   .create 2 (shopId 11) (rotationBody 'b' rfl) (shopId 3) { name := some "new", env := some "live" },
   .touch 3 "dpk_live_bbbbbbbb", .revoke 4 (shopId 3) (shopId 10)]

theorem only_live_keys_rotation :
    ((keySystem (Bytes.tableHash rotationDigests)).run migrated rotation).isSome = true ∧
    ∀ db, (keySystem (Bytes.tableHash rotationDigests)).run migrated rotation = some db →
      authenticate (Bytes.tableHash rotationDigests) db 5 newText = .ok (shopId 3) ∧
      authenticate (Bytes.tableHash rotationDigests) db 5 oldText ≠ .ok (shopId 3) := by
  have hinj : Function.Injective (Bytes.tableHash rotationDigests) :=
    Bytes.tableHash_injective (by decide +kernel) (by decide +kernel)
  have hseed : hashKey (Bytes.tableHash rotationDigests) seedText = seedHash := by
    decide +kernel
  refine ⟨by decide +kernel, fun db hdb => ?_⟩
  obtain ⟨hiff, -, hkeys⟩ := only_live_keys hinj hseed ⟨0, rfl⟩ hdb 5
  have hold : (⟨shopId 10, shopId 3, oldText⟩ : IssuedKey) ∈ issuedKeys rotation := by
    decide +kernel
  have hnew : (⟨shopId 11, shopId 3, newText⟩ : IssuedKey) ∈ issuedKeys rotation := by
    decide +kernel
  exact ⟨(hiff _ _).mpr ⟨_, hnew, rfl, rfl, by decide +kernel, rfl⟩,
    (hkeys _ hold (shopId 3)).1 (by decide +kernel)⟩

end InvoicePayment.Auth
