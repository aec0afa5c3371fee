import TwelveC.Registry.KeyAgreement

/-!
# Getting the keys back

A relay that lost a response, or whose keys the registry has forgotten, learns
nothing but the status of its next heartbeat. `report_heartbeat` drops a refused
key and asks again without one. The block auth key is sent with a new API key
only, so a relay that holds a good API key and a wrong block auth key waits for
the rotation.
-/

namespace TwelveC.Relay.KeyRecovery

open Lib Lib.Run Registry Registry.RegistryRepository Registry.Rejections Registry.KeyAgreement
  BlockAuthKeyManager

/-- `updated_at` is left out: nothing reads it. -/
structure RegistryApiKeyStore where
  registryApiKeyId : Str
  registryApiKey : Str
  remainingUses : Int
  deriving DecidableEq, Repr

/-- A field is `none` where the payload has none, or not one of the type that the manager checks. -/
structure ApiKeyPayload where
  bootstrapRegistryApiKey : Option Str
  bootstrapRegistryApiKeyId : Option Str
  keyRemainingUses : Option Int
  nextRegistryApiKey : Option (Option Bytes × Option Str)
  deriving DecidableEq, Repr

/-- The route `heartbeat`: the fields about the API key. -/
def apiKeyPayload (result : HeartbeatResult) : ApiKeyPayload :=
  { bootstrapRegistryApiKey := result.bootstrapRegistryApiKey.map Prod.snd
    bootstrapRegistryApiKeyId := result.bootstrapRegistryApiKey.map Prod.fst
    keyRemainingUses := some result.keyRemainingUses
    nextRegistryApiKey := result.nextRegistryApiKey.map fun key => (some key.2, some key.1) }

section manager

variable (decryptSecretBytes : Bytes → Except PyExn Bytes) (initialRemainingUses : Int)

def applyRemaining : Option Int → Py (Option RegistryApiKeyStore) Unit
  | some remaining => Py.modify fun store => store.map ({ · with remainingUses := remaining })
  | none => pure ()

def applyNextApiKey : Option (Option Bytes × Option Str) → Py (Option RegistryApiKeyStore) Unit
  | some (some encrypted, some keyId) => do
    let plaintext ← Py.ofExcept (decryptSecretBytes encrypted)
    Py.modify fun _ => some ⟨keyId, plaintext, initialRemainingUses⟩
  | some _ => Py.raise (.valueError "invalid nextRegistryApiKey payload")
  | none => pure ()

/-- `apply_heartbeat_response` of `RegistryApiKeyManager`. -/
def applyApiKeyResponse (payload : ApiKeyPayload) : Py (Option RegistryApiKeyStore) Unit :=
  match payload.bootstrapRegistryApiKey, payload.bootstrapRegistryApiKeyId with
  | some key, some keyId =>
    Py.modify fun _ => some ⟨keyId, key, payload.keyRemainingUses.getD initialRemainingUses⟩
  | _, _ => do
    applyRemaining payload.keyRemainingUses
    applyNextApiKey decryptSecretBytes initialRemainingUses payload.nextRegistryApiKey

end manager

/-- The registry's tables and the two stores of the relay. -/
structure Link where
  registry : Db
  apiKey : Option RegistryApiKeyStore
  authKey : Option BlockAuthKeyStore

/-- What becomes of an HTTP exchange. -/
inductive Delivery where
  | delivered
  | requestLost
  | responseLost
  deriving DecidableEq, Repr

/-- The registry handles a request that arrives, whether or not the relay hears of it. -/
def post (delivery : Delivery) (call : Py Db HeartbeatResult) :
    Py Link (Except PyExn HeartbeatResult) := fun w =>
  match delivery with
  | .delivered => (.ok (call w.registry).1, { w with registry := (call w.registry).2 })
  | .requestLost => (.error (.http "connection failed"), w)
  | .responseLost => (.error (.http "timed out"), { w with registry := (call w.registry).2 })

/-- An exception that is no `HTTPException` is answered with 500. -/
def statusCode : Except PyExn HeartbeatResult → Nat
  | .ok _ => 200
  | .error (.service _ status) => status
  | .error _ => 500

def raiseForStatus : Except PyExn HeartbeatResult → Py Link HeartbeatResult
  | .ok result => pure result
  | .error e => Py.raise (.httpStatus (statusCode (.error e)) e.text)

def onApiKey {α : Type} (x : Py (Option RegistryApiKeyStore) α) : Py Link α := fun w =>
  ((x w.apiKey).1, { w with apiKey := (x w.apiKey).2 })

def onAuthKey {α : Type} (x : Py (Option BlockAuthKeyStore) α) : Py Link α := fun w =>
  ((x w.authKey).1, { w with authKey := (x w.authKey).2 })

/-- What the relay process is started with, and its RSA key. -/
structure Config where
  relayId : Str
  relayBaseUrl : Str
  relayPublicKeyPem : Str
  decryptSecretBytes : Bytes → Except PyExn Bytes
  initialRemainingUses : Int

variable (env : Env) (relay : Config)

/-- The body of a heartbeat with the fields of `heartbeat_auth_fields`. -/
def heartbeatBody (report : RelayReport) (apiKey : Option RegistryApiKeyStore) : HeartbeatRequest :=
  { relayId := relay.relayId
    relayBaseUrl := relay.relayBaseUrl
    report
    registryApiKeyId := apiKey.map (·.registryApiKeyId)
    registryApiKey := apiKey.map (·.registryApiKey)
    relayPublicKeyPem := some relay.relayPublicKeyPem }

def invalidate : Py (Option RegistryApiKeyStore) Unit := Py.modify fun _ => none

/-- From the response on; `none` stands for `{"notAllowlisted": True}`. -/
def takeResponse (response : Except PyExn HeartbeatResult) : Py Link (Option HeartbeatResult) :=
  if statusCode response = 403 then pure none
  else do
    let result ← raiseForStatus response
    onApiKey (applyApiKeyResponse relay.decryptSecretBytes relay.initialRemainingUses
      (apiKeyPayload result))
    onAuthKey (applyHeartbeatResponse relay.decryptSecretBytes (heartbeatPayload result))
    pure (some result)

/-- `report_heartbeat` of a relay that has an id: a refused key is dropped, and the relay asks once
more without one. -/
def reportHeartbeat (report : RelayReport) (gen gen' : Generated) (first second : Delivery) :
    Py Link (Option HeartbeatResult) := do
  let authFields ← Py.read (·.apiKey)
  let response ← post first (processHeartbeat env gen (heartbeatBody relay report authFields))
  if statusCode response = 401 ∧ authFields.isSome then
    onApiKey invalidate
    let authFields ← Py.read (·.apiKey)
    let response ← post second (processHeartbeat env gen' (heartbeatBody relay report authFields))
    takeResponse relay response
  else takeResponse relay response

variable {env relay} {s s' : Db} {relayId pem keyId : Str} {gen : Generated}

/-- The ids that the registry draws are new, and its clock has moved on since the last key. -/
structure Fresh (relayId : Str) (gen : Generated) (s : Db) : Prop where
  apiKey : s.registryKeys.find (relayId, gen.keyId) = none
  authKey : s.blockAuthKeys.find (relayId, gen.authKeyId) = none
  later : ∀ e ∈ activeKeys s relayId, e.2 < s.now

/-- The tables with a new block auth key. -/
def minted (relayId keyId : Str) (s : Db) : Db :=
  { s with blockAuthKeys := s.blockAuthKeys.insert (relayId, keyId) ⟨activeStatus, s.now⟩ }

theorem newest_minted (hlater : ∀ e ∈ activeKeys s relayId, e.2 < s.now) :
    newest (activeKeys (minted relayId keyId s) relayId) = some (keyId, s.now) := by
  refine newest_eq_some (mem_activeKeys.mpr (Table.find_insert_self _ _ _)) fun e he => ?_
  have hrow := mem_activeKeys.mp he
  by_cases hkey : e.1 = keyId
  · rw [hkey, minted, Table.find_insert_self] at hrow
    exact .inl (Prod.ext hkey (BlockAuthKeyRow.mk.inj (Option.some.inj hrow)).2.symm)
  · have hne : (relayId, e.1) ≠ (relayId, keyId) := fun h => hkey (Prod.mk.inj h).2
    rw [minted, Table.find_insert_of_ne _ hne] at hrow
    exact .inr (hlater e (mem_activeKeys.mpr hrow))

variable (env) in
theorem createBlockAuthKey_fresh (hfind : s.blockAuthKeys.find (relayId, keyId) = none)
    (hlater : ∀ e ∈ activeKeys s relayId, e.2 < s.now) :
    ∃ keyBytes, createBlockAuthKey env relayId keyId s = (.ok keyBytes, minted relayId keyId s) ∧
      deriveBlockAuthKey env relayId keyId = .ok keyBytes ∧
      activeBlockAuthKey env relayId (minted relayId keyId s) = some ⟨keyId, keyBytes⟩ := by
  obtain ⟨keyBytes, hderive⟩ := deriveBlockAuthKey_ok env relayId keyId
  have hinsert : insertBlockAuthKey relayId keyId s.now s = (.ok (), minted relayId keyId s) := by
    rw [insertBlockAuthKey, Table.add_eq_some.mpr ⟨hfind, rfl⟩]
    rfl
  refine ⟨keyBytes, ?_, hderive, ?_⟩
  · rw [createBlockAuthKey, hderive, Py.bind_ok (Py.ofExcept_run _ s), Py.bind_ok (Py.read_run _ s),
      Py.bind_ok hinsert]
    rfl
  · rw [activeBlockAuthKey, newest_minted hlater, Option.bind_some, hderive]
    rfl

/-- A key that authenticates as long as it has uses left. -/
def HasUses (env : Env) (s : Db) (relayId keyId key : Str) (uses : Int) : Prop :=
  ∃ row, s.registryKeys.find (relayId, keyId) = some row ∧
    row.keySecretHash = hashRegistryApiKey env.C key ∧ row.remainingUses = uses

theorem HasUses.congr {key : Str} {uses : Int} (h : HasUses env s relayId keyId key uses)
    (hkeys : s'.registryKeys = s.registryKeys) : HasUses env s' relayId keyId key uses := by
  rw [HasUses, hkeys]
  exact h

theorem HasUses.minted {key authKeyId : Str} {uses : Int} (h : HasUses env s relayId keyId key uses) :
    HasUses env (minted relayId authKeyId s) relayId keyId key uses := h

variable (env) in
theorem createRegistryApiKey_fresh (key : Str) (publicKey : Option Str) (uses : Int)
    (hfind : s.registryKeys.find (relayId, keyId) = none) :
    ∃ s', createRegistryApiKey env.C relayId publicKey uses keyId key s = (.ok (), s') ∧
      HasUses env s' relayId keyId key uses ∧ s'.blockAuthKeys = s.blockAuthKeys ∧ s'.now = s.now := by
  rw [createRegistryApiKey, Table.add_eq_some.mpr ⟨hfind, rfl⟩]
  exact ⟨_, rfl, ⟨_, Table.find_insert_self _ _ _, rfl, rfl⟩, rfl, rfl⟩

variable (env pem) in
theorem bootstrap_fresh (h : Fresh relayId gen s) : ∃ keyBytes s',
    bootstrap env gen relayId (some pem) s =
      (.ok { keyRemainingUses := env.registryApiKeyInitialUses
             bootstrapRegistryApiKey := some (gen.keyId, gen.key)
             bootstrapBlockAuthKey := some (gen.authKeyId, keyBytes) }, s') ∧
    HasUses env s' relayId gen.keyId gen.key env.registryApiKeyInitialUses ∧
    activeBlockAuthKey env relayId s' = some ⟨gen.authKeyId, keyBytes⟩ := by
  obtain ⟨s₁, hcreate, hrow, hauth, hnow⟩ := createRegistryApiKey_fresh env gen.key (some pem)
    env.registryApiKeyInitialUses h.apiKey
  have hlater : ∀ e ∈ activeKeys s₁ relayId, e.2 < s₁.now := by
    rw [activeKeys_congr hauth, hnow]
    exact h.later
  obtain ⟨keyBytes, hmint, -, hactive⟩ := createBlockAuthKey_fresh env
    (hauth ▸ h.authKey) hlater
  refine ⟨keyBytes, minted relayId gen.authKeyId s₁, ?_, hrow.minted, hactive⟩
  rw [bootstrap, Py.bind_ok (Py.raiseIf_neg (Option.some_ne_none pem) _ s), Py.bind_ok hcreate,
    Py.bind_ok hmint]
  rfl

variable (env pem) in
/-- A relay without an active key is given one. -/
theorem provide_fresh (h : Fresh relayId gen s) :
    (activeKeys s relayId = [] ∧ ∃ keyBytes s', provideBlockAuthKey env gen relayId (some pem) s =
        (.ok (some (gen.authKeyId, keyBytes)), s') ∧ s'.registryKeys = s.registryKeys ∧
        activeBlockAuthKey env relayId s' = some ⟨gen.authKeyId, keyBytes⟩) ∨
    (activeKeys s relayId ≠ [] ∧ provideBlockAuthKey env gen relayId (some pem) s = (.ok none, s)) := by
  have hread : getActiveBlockAuthKey relayId s =
      (.ok ((newest (activeKeys s relayId)).map Prod.fst), s) := rfl
  rw [provideBlockAuthKey, Py.bind_ok hread]
  cases hnewest : newest (activeKeys s relayId) with
  | none =>
    obtain ⟨keyBytes, hmint, -, hactive⟩ := createBlockAuthKey_fresh env h.authKey h.later
    refine .inl ⟨newest_eq_none.mp hnewest, keyBytes, minted relayId gen.authKeyId s, ?_, rfl, hactive⟩
    rw [Option.map_none, providedFor, Py.bind_ok (Py.raiseIf_neg (Option.some_ne_none pem) _ s),
      Py.bind_ok hmint]
    rfl
  | some top =>
    refine .inr ⟨fun hnil => ?_, rfl⟩
    rw [hnil] at hnewest
    cases hnewest

theorem rotate_fresh {decryptSecretBytes : Bytes → Except PyExn Bytes}
    (hkeys : RelayKeyPair env decryptSecretBytes relayId pem)
    (hseals : Seals env decryptSecretBytes pem gen.key)
    (hfind : s.registryKeys.find (relayId, gen.keyId) = none) :
    ∃ nextKey nextAuthKey keyBytes s', rotate env gen relayId (some pem) s =
        (.ok ((gen.keyId, nextKey), (gen.nextAuthKeyId, nextAuthKey)), s') ∧
      decryptSecretBytes nextKey = .ok gen.key ∧ decryptSecretBytes nextAuthKey = .ok keyBytes ∧
      HasUses env s' relayId gen.keyId gen.key env.registryApiKeyInitialUses ∧
      activeBlockAuthKey env relayId s' = some ⟨gen.nextAuthKeyId, keyBytes⟩ := by
  obtain ⟨nextKey, hencrypt, hdecrypt⟩ := hseals
  obtain ⟨s₁, hcreate, hrow, -, -⟩ := createRegistryApiKey_fresh env gen.key (some pem)
    env.registryApiKeyInitialUses hfind
  have hcleared (id : Str) : (clearBlockAuthKeys relayId s₁).blockAuthKeys.find (relayId, id) = none := by
    simp [clearBlockAuthKeys]
  have hnone : activeKeys (clearBlockAuthKeys relayId s₁) relayId = [] := by
    refine List.eq_nil_iff_forall_not_mem.mpr fun e he => ?_
    have hrow := mem_activeKeys.mp he
    rw [hcleared] at hrow
    cases hrow
  obtain ⟨keyBytes, hmint, hderive, hactive⟩ := createBlockAuthKey_fresh env
    (hcleared gen.nextAuthKeyId) (by rw [hnone]; simp)
  obtain ⟨nextAuthKey, hencrypt', hdecrypt'⟩ := hkeys.seals _ _ hderive
  have hrow' : HasUses env (clearBlockAuthKeys relayId s₁) relayId gen.keyId gen.key
      env.registryApiKeyInitialUses := hrow.congr rfl
  refine ⟨nextKey, nextAuthKey, keyBytes,
    minted relayId gen.nextAuthKeyId (clearBlockAuthKeys relayId s₁), ?_, hdecrypt, hdecrypt',
    hrow'.minted, hactive⟩
  have hapi : rotateRegistryApiKey env relayId pem gen.keyId gen.key s = (.ok (gen.keyId, nextKey), s₁) := by
    rw [rotateRegistryApiKey, Py.bind_ok hcreate, hencrypt]
    rfl
  have hauth : rotateBlockAuthKey env relayId pem gen.nextAuthKeyId s₁ =
      (.ok (gen.nextAuthKeyId, nextAuthKey),
        minted relayId gen.nextAuthKeyId (clearBlockAuthKeys relayId s₁)) := by
    rw [rotateBlockAuthKey, Py.bind_ok (Py.modify_run _ s₁), Py.bind_ok hmint, hencrypt']
    rfl
  rw [rotate, Py.bind_ok hapi, Py.bind_ok hauth]
  rfl

/-- The tables differ in nothing that a key is drawn from. -/
structure SameKeys (s s' : Db) : Prop where
  blockAuthKeys : s'.blockAuthKeys = s.blockAuthKeys
  now : s'.now = s.now
  absent : ∀ k, s.registryKeys.find k = none → s'.registryKeys.find k = none

theorem SameKeys.fresh (h : SameKeys s s') (hfresh : Fresh relayId gen s) : Fresh relayId gen s' where
  apiKey := h.absent _ hfresh.apiKey
  authKey := by
    rw [h.blockAuthKeys]
    exact hfresh.authKey
  later := by
    rw [activeKeys_congr h.blockAuthKeys, h.now]
    exact hfresh.later

section heartbeat

variable {r : HeartbeatRequest} {url key : Str} {uses : Int}

theorem recorded_same (url : Str) (s : Db) : SameKeys s (recorded r url s) where
  blockAuthKeys := by
    rw [recorded]
    cases truthy r.relayPublicKeyPem <;> rfl
  now := by
    rw [recorded]
    cases truthy r.relayPublicKeyPem <;> rfl
  absent k hk := by
    obtain ⟨f, hf⟩ := find_recorded_keys (r := r) url s k
    rw [hf, hk, Option.map_none]

theorem HasUses.recorded (h : HasUses env s relayId keyId key uses) (url : Str) :
    HasUses env (recorded r url s) relayId keyId key uses := by
  obtain ⟨row, hrow, hhash, huses⟩ := h
  obtain ⟨f, hf⟩ := find_recorded_keys (r := r) url s (relayId, keyId)
  exact ⟨{ row with relayPublicKeyPem := f row }, by rw [hf, hrow, Option.map_some], hhash, huses⟩

theorem spendUse_same (relayId keyId : Str) (s : Db) : SameKeys s (spendUse relayId keyId s) where
  blockAuthKeys := rfl
  now := rfl
  absent k hk := by simp [spendUse, hk]

theorem HasUses.spend (h : HasUses env s relayId keyId key uses) (hpos : 0 < uses) :
    HasUses env (spendUse relayId keyId s) relayId keyId key (uses - 1) := by
  obtain ⟨row, hrow, hhash, rfl⟩ := h
  exact ⟨{ row with remainingUses := row.remainingUses - 1 }, by simp [spendUse, hrow, hpos], hhash, rfl⟩

theorem SameKeys.trans {s'' : Db} (h : SameKeys s s') (h' : SameKeys s' s'') : SameKeys s s'' where
  blockAuthKeys := h'.blockAuthKeys.trans h.blockAuthKeys
  now := h'.now.trans h.now
  absent k hk := h'.absent k (h.absent k hk)

theorem admitted_allowed (h : Admitted s r.relayId r.relayBaseUrl url) :
    ((recorded r url s).allowlist.find r.relayId).any (·.enabled) = true := by
  obtain ⟨record, ⟨-, hrecord, henabled⟩, -⟩ := h
  obtain ⟨row, hrow, rfl⟩ := Option.map_eq_some_iff.mp hrecord
  rw [recorded_allowlist, hrow]
  exact henabled

theorem process_admitted (h : Admitted s r.relayId r.relayBaseUrl url) :
    processHeartbeat env gen r s = respond env gen r (recorded r url s) := by
  have hrecord : recordHeartbeat env r s = (.ok (), recorded r url s) := by
    rcases record_cases (resolve_cases env s r.relayId r.relayBaseUrl) with
      ⟨_, -, -, hnot⟩ | ⟨_, -, hadopts, -⟩ | ⟨url', hrec, hadm⟩
    · exact absurd h (hnot url)
    · exact absurd hadopts h.not_adopts
    · rw [hrec, hadm.unique h]
  rw [processHeartbeat, Py.bind_ok hrecord]

variable (gen) in
/-- A heartbeat whose key authenticates takes one use of it. -/
theorem process_taken (h : Admitted s r.relayId r.relayBaseUrl url)
    (hid : r.registryApiKeyId = some keyId) (hkey : r.registryApiKey = some key)
    (huses : HasUses env s r.relayId keyId key uses) (hpos : 0 < uses) :
    ∃ record s', processHeartbeat env gen r s = answer env gen r.relayId r.relayPublicKeyPem record s' ∧
      record.remainingUses = uses - 1 ∧ HasUses env s' r.relayId keyId key (uses - 1) ∧
      SameKeys s s' := by
  have hspent := (huses.recorded (r := r) url).spend hpos
  obtain ⟨row, hrow, hhash, rfl⟩ := huses.recorded (r := r) url
  refine ⟨{ apiKeyRecord keyId row with remainingUses := row.remainingUses - 1 },
    spendUse r.relayId keyId (recorded r url s), ?_, rfl, hspent,
    (recorded_same url s).trans (spendUse_same r.relayId keyId _)⟩
  rw [process_admitted h, respond_keyed hid hkey,
    Py.bind_ok (authenticate_accepts (admitted_allowed h) hrow hhash hpos)]

variable (gen) in
theorem process_refused (h : Admitted s r.relayId r.relayBaseUrl url)
    (hid : r.registryApiKeyId = some keyId) (hkey : r.registryApiKey = some key)
    (hno : ¬ Accepts env s r.relayId keyId key) :
    processHeartbeat env gen r s =
      (.error (httpException 401 "invalid registryApiKey"), recorded r url s) := by
  have hrejects : ¬ Accepts env (recorded r url s) r.relayId keyId key :=
    fun hkey => hno ((accepts_recorded url s).mp hkey)
  rw [process_admitted h, respond_keyed hid hkey,
    Py.bind_error (authenticate_rejects (admitted_allowed h) hrejects true)]

variable (env gen) in
theorem process_keyless (h : Admitted s r.relayId r.relayBaseUrl url)
    (hid : r.registryApiKeyId = none) :
    processHeartbeat env gen r s =
      bootstrap env gen r.relayId r.relayPublicKeyPem (recorded r url s) := by
  rw [process_admitted h, respond, hid]

end heartbeat

section answer

variable {record : RegistryApiKeyRecord}

theorem answer_eq (hpem : pem ≠ []) (s : Db) : answer env gen relayId (some pem) record s =
    (provideBlockAuthKey env gen relayId (some pem) >>=
      conclude env gen relayId (some pem) record) s := by
  have hpublic : (truthy (some pem)).or record.relayPublicKeyPem = some pem := by
    simp [truthy, hpem]
  rw [answer, hpublic]

/-- The last use of an API key brings both next keys. -/
theorem answer_last {decryptSecretBytes : Bytes → Except PyExn Bytes}
    (hkeys : RelayKeyPair env decryptSecretBytes relayId pem)
    (hseals : Seals env decryptSecretBytes pem gen.key) (h : Fresh relayId gen s)
    (hlast : record.remainingUses = 0) :
    ∃ result nextKey nextAuthKey keyBytes s',
      answer env gen relayId (some pem) record s = (.ok result, s') ∧
      result.bootstrapRegistryApiKey = none ∧
      result.nextRegistryApiKey = some (gen.keyId, nextKey) ∧
      result.nextBlockAuthKey = some (gen.nextAuthKeyId, nextAuthKey) ∧
      decryptSecretBytes nextKey = .ok gen.key ∧ decryptSecretBytes nextAuthKey = .ok keyBytes ∧
      HasUses env s' relayId gen.keyId gen.key env.registryApiKeyInitialUses ∧
      activeBlockAuthKey env relayId s' = some ⟨gen.nextAuthKeyId, keyBytes⟩ := by
  have hprovide : ∃ authKey s₁, provideBlockAuthKey env gen relayId (some pem) s = (.ok authKey, s₁) ∧
      s₁.registryKeys = s.registryKeys := by
    rcases provide_fresh env pem h with
      ⟨-, keyBytes, s₁, hprovide, hsame, -⟩ | ⟨-, hprovide⟩
    · exact ⟨_, s₁, hprovide, hsame⟩
    · exact ⟨none, s, hprovide, rfl⟩
  obtain ⟨authKey, s₁, hprovide, hsame⟩ := hprovide
  obtain ⟨nextKey, nextAuthKey, keyBytes, s₂, hrotate, hdecrypt, hdecrypt', hrow, hactive⟩ :=
    rotate_fresh hkeys hseals (s := s₁) (by rw [hsame]; exact h.apiKey)
  refine ⟨{ keyRemainingUses := record.remainingUses
            nextRegistryApiKey := some (gen.keyId, nextKey)
            bootstrapBlockAuthKey := authKey
            nextBlockAuthKey := some (gen.nextAuthKeyId, nextAuthKey) },
    nextKey, nextAuthKey, keyBytes, s₂, ?_, rfl, rfl, rfl, hdecrypt, hdecrypt', hrow, hactive⟩
  rw [answer_eq hkeys.nonempty, Py.bind_ok hprovide, conclude, if_pos hlast, Py.bind_ok hrotate]
  rfl

/-- Before its last use the relay gets a block auth key only if the registry has none for it. -/
theorem answer_more (hpem : pem ≠ []) (h : Fresh relayId gen s) (hmore : record.remainingUses ≠ 0) :
    ∃ authKey s', answer env gen relayId (some pem) record s =
        (.ok { keyRemainingUses := record.remainingUses, bootstrapBlockAuthKey := authKey }, s') ∧
      s'.registryKeys = s.registryKeys ∧
      (activeKeys s relayId = [] ∧ (∃ keyBytes, authKey = some (gen.authKeyId, keyBytes) ∧
          activeBlockAuthKey env relayId s' = some ⟨gen.authKeyId, keyBytes⟩) ∨
        activeKeys s relayId ≠ [] ∧ authKey = none ∧ s' = s) := by
  have hanswer {authKey : Option (Str × Bytes)} {s₁ : Db}
      (hprovide : provideBlockAuthKey env gen relayId (some pem) s = (.ok authKey, s₁)) :
      answer env gen relayId (some pem) record s =
        (.ok { keyRemainingUses := record.remainingUses, bootstrapBlockAuthKey := authKey }, s₁) := by
    rw [answer_eq hpem, Py.bind_ok hprovide, conclude, if_neg hmore]
    rfl
  rcases provide_fresh env pem h with
    ⟨hnil, keyBytes, s₁, hprovide, hsame, hactive⟩ | ⟨hsome, hprovide⟩
  · exact ⟨_, s₁, hanswer hprovide, hsame, .inl ⟨hnil, keyBytes, rfl, hactive⟩⟩
  · exact ⟨none, s, hanswer hprovide, rfl, .inr ⟨hsome, rfl, rfl⟩⟩

end answer

section report

variable {report : RelayReport} {gen' : Generated} {first second : Delivery} {w : Link}
  {result : HeartbeatResult} {response : Except PyExn HeartbeatResult}

variable (gen' second) in
theorem report_answered
    (h : processHeartbeat env gen (heartbeatBody relay report w.apiKey) w.registry = (.ok result, s')) :
    reportHeartbeat env relay report gen gen' .delivered second w =
      takeResponse relay (.ok result) { w with registry := s' } := by
  have hpost : post .delivered (processHeartbeat env gen (heartbeatBody relay report w.apiKey)) w =
      (.ok (.ok result), { w with registry := s' }) := by
    rw [post, h]
  rw [reportHeartbeat, Py.bind_ok (Py.read_run _ w), Py.bind_ok hpost,
    if_neg (by rintro ⟨h200, -⟩; cases h200)]

theorem report_refused {store : RegistryApiKeyStore} {detail : String}
    (hstore : w.apiKey = some store)
    (h : processHeartbeat env gen (heartbeatBody relay report w.apiKey) w.registry =
      (.error (httpException 401 detail), s))
    (h' : processHeartbeat env gen' (heartbeatBody relay report none) s = (.ok result, s')) :
    reportHeartbeat env relay report gen gen' .delivered .delivered w =
      takeResponse relay (.ok result) { w with registry := s', apiKey := none } := by
  have hpost : post .delivered (processHeartbeat env gen (heartbeatBody relay report w.apiKey)) w =
      (.ok (.error (httpException 401 detail)), { w with registry := s }) := by
    rw [post, h]
  have hpost' : post .delivered (processHeartbeat env gen' (heartbeatBody relay report none))
      { w with registry := s, apiKey := none } =
      (.ok (.ok result), { w with registry := s', apiKey := none }) := by
    rw [post, h']
  have hdrop : onApiKey invalidate { w with registry := s } =
      (.ok (), { w with registry := s, apiKey := none }) := rfl
  rw [reportHeartbeat, Py.bind_ok (Py.read_run _ w), Py.bind_ok hpost,
    if_pos ⟨rfl, by rw [hstore]; rfl⟩, Py.bind_ok hdrop, Py.bind_ok (Py.read_run _ _),
    Py.bind_ok hpost']

/-- What the relay keeps of an answer. -/
theorem take_ok {apiKey : Option RegistryApiKeyStore}
    (h : applyApiKeyResponse relay.decryptSecretBytes relay.initialRemainingUses
      (apiKeyPayload result) w.apiKey = (.ok (), apiKey)) :
    (takeResponse relay (.ok result) w).2 =
      { w with apiKey, authKey := heldAfter relay.decryptSecretBytes result w.authKey } := by
  have hapi : onApiKey (applyApiKeyResponse relay.decryptSecretBytes relay.initialRemainingUses
      (apiKeyPayload result)) w = (.ok (), { w with apiKey }) := by
    rw [onApiKey, h]
  have hauth : onAuthKey (applyHeartbeatResponse relay.decryptSecretBytes (heartbeatPayload result))
      { w with apiKey } =
      ((applyHeartbeatResponse relay.decryptSecretBytes (heartbeatPayload result) w.authKey).1,
        { w with apiKey, authKey := heldAfter relay.decryptSecretBytes result w.authKey }) := rfl
  rw [takeResponse, if_neg (by rw [statusCode]; decide), raiseForStatus, Py.bind_ok (Py.pure_run result w),
    Py.bind_ok hapi, Py.bind_snd fun _ _ => rfl, hauth]

end report

/-- A heartbeat whose exchanges are delivered, at this time of the registry. -/
structure Round where
  now : Int
  report : RelayReport
  gen : Generated
  gen' : Generated

def Round.begin (round : Round) (w : Link) : Link :=
  { w with registry := { w.registry with now := round.now } }

variable (env relay) in
def beat (w : Link) (round : Round) : Link :=
  (reportHeartbeat env relay round.report round.gen round.gen' .delivered .delivered
    (round.begin w)).2

variable (env relay) in
/-- The allowlist has the relay with its URL, and what the registry draws is new. -/
structure Undisturbed (w : Link) (round : Round) : Prop where
  admitted : ∃ url, Admitted (round.begin w).registry relay.relayId relay.relayBaseUrl url
  fresh : Fresh relay.relayId round.gen (round.begin w).registry
  fresh' : Fresh relay.relayId round.gen' (round.begin w).registry
  seals : Seals env relay.decryptSecretBytes relay.relayPublicKeyPem round.gen.key

variable (env relay) in
/-- The relay holds an API key of the registry's with these uses. -/
def Holding (w : Link) (uses : Int) : Prop :=
  ∃ store, w.apiKey = some store ∧
    HasUses env w.registry relay.relayId store.registryApiKeyId store.registryApiKey uses

variable (env relay) in
/-- The registry will take the relay's API key. -/
def Accepted (w : Link) : Prop := ∃ uses, 0 < uses ∧ Holding env relay w uses

variable (env relay) in
/-- The relay holds the block auth key that the registry makes its codes with. -/
def Agreed (w : Link) : Prop :=
  ∃ store, w.authKey = some store ∧ activeBlockAuthKey env relay.relayId w.registry = some store

variable (relay) in
def Provided (w : Link) : Prop := activeKeys w.registry relay.relayId ≠ []

variable {w : Link} {round : Round} {uses : Int}

theorem Holding.unique {other : Int} (h : Holding env relay w uses) (h' : Holding env relay w other) :
    uses = other := by
  obtain ⟨store, hstore, row, hrow, -, rfl⟩ := h
  obtain ⟨store', hstore', row', hrow', -, rfl⟩ := h'
  obtain rfl := Option.some.inj (hstore.symm.trans hstore')
  rw [Option.some.inj (hrow.symm.trans hrow')]

theorem Agreed.provided (h : Agreed env relay w) : Provided relay w := by
  obtain ⟨store, -, hactive⟩ := h
  intro hnil
  rw [activeBlockAuthKey, hnil] at hactive
  cases hactive

theorem take_bootstrap (result : HeartbeatResult) {key authKeyId : Str} {keyBytes : Bytes}
    (hapi : result.bootstrapRegistryApiKey = some (keyId, key))
    (hauth : result.bootstrapBlockAuthKey = some (authKeyId, keyBytes))
    (hnext : result.nextBlockAuthKey = none) (w : Link) :
    (takeResponse relay (.ok result) w).2 =
      { w with apiKey := some ⟨keyId, key, result.keyRemainingUses⟩
               authKey := some ⟨authKeyId, keyBytes⟩ } := by
  have happly : applyApiKeyResponse relay.decryptSecretBytes relay.initialRemainingUses
      (apiKeyPayload result) w.apiKey = (.ok (), some ⟨keyId, key, result.keyRemainingUses⟩) := by
    rw [applyApiKeyResponse, apiKeyPayload, hapi]
    rfl
  rw [take_ok happly, heldAfter_bootstrap hnext hauth]

/-- A relay whose key is refused, or that has none, gets both keys. -/
theorem beat_refused (h : Undisturbed env relay w round) (hno : ¬ Accepted env relay w) :
    Holding env relay (beat env relay w round) env.registryApiKeyInitialUses ∧
      Agreed env relay (beat env relay w round) := by
  obtain ⟨url, hadm⟩ := h.admitted
  cases hstore : w.apiKey with
  | none =>
    have hfresh := (recorded_same (r := heartbeatBody relay round.report none) url _).fresh h.fresh
    obtain ⟨keyBytes, s', hbootstrap, hrow, hactive⟩ := bootstrap_fresh env relay.relayPublicKeyPem hfresh
    have hprocess := process_keyless env round.gen
      (r := heartbeatBody relay round.report none) hadm rfl
    have hanswer := report_answered (w := round.begin w) round.gen' .delivered
      (by rw [Round.begin, hstore]; exact hprocess.trans hbootstrap)
    have hbeat := (congrArg Prod.snd hanswer).trans (take_bootstrap _ rfl rfl rfl _)
    rw [beat, hbeat]
    exact ⟨⟨_, rfl, hrow⟩, _, rfl, hactive⟩
  | some store =>
    have hrejects : ¬ Registry.Rejections.Accepts env (round.begin w).registry relay.relayId
        store.registryApiKeyId store.registryApiKey := by
      rintro ⟨row, hrow, hhash, hpos⟩
      exact hno ⟨row.remainingUses, hpos, store, hstore, row, hrow, hhash, rfl⟩
    have hrefused := process_refused round.gen
      (r := heartbeatBody relay round.report (some store)) hadm rfl rfl hrejects
    have hsame := recorded_same (r := heartbeatBody relay round.report (some store)) url
      (round.begin w).registry
    have hsame' := hsame.trans (recorded_same (r := heartbeatBody relay round.report none) url _)
    obtain ⟨keyBytes, s', hbootstrap, hrow, hactive⟩ := bootstrap_fresh env
      relay.relayPublicKeyPem (hsame'.fresh h.fresh')
    have hadm' : Admitted (recorded (heartbeatBody relay round.report (some store)) url
        (round.begin w).registry) relay.relayId relay.relayBaseUrl url := by
      rw [Admitted]
      simp only [Meets, recorded_allowlist]
      exact hadm
    have hprocess := process_keyless env round.gen'
      (r := heartbeatBody relay round.report none) hadm' rfl
    have hanswer := report_refused (w := round.begin w) hstore
      (by rw [Round.begin, hstore]; exact hrefused) (hprocess.trans hbootstrap)
    have hbeat := (congrArg Prod.snd hanswer).trans (take_bootstrap _ rfl rfl rfl _)
    rw [beat, hbeat]
    exact ⟨⟨_, rfl, hrow⟩, _, rfl, hactive⟩

/-- The last use of the key brings both next ones. -/
theorem beat_last
    (hkeys : RelayKeyPair env relay.decryptSecretBytes relay.relayId relay.relayPublicKeyPem)
    (h : Undisturbed env relay w round) (hone : Holding env relay w 1) :
    Holding env relay (beat env relay w round) env.registryApiKeyInitialUses ∧
      Agreed env relay (beat env relay w round) := by
  obtain ⟨url, hadm⟩ := h.admitted
  obtain ⟨store, hstore, huses⟩ := hone
  obtain ⟨record, s₁, hprocess, hremaining, -, hsame⟩ := process_taken round.gen
    (r := heartbeatBody relay round.report (some store)) hadm rfl rfl huses Int.one_pos
  obtain ⟨result, nextKey, nextAuthKey, keyBytes, s', hanswer, hboot, hnext, hauth, hdecrypt,
    hdecrypt', hrow, hactive⟩ := answer_last hkeys h.seals (hsame.fresh h.fresh) hremaining
  have hreport := report_answered (w := round.begin w) round.gen' .delivered
    (by rw [Round.begin, hstore]; exact hprocess.trans hanswer)
  have happly : applyApiKeyResponse relay.decryptSecretBytes relay.initialRemainingUses
      (apiKeyPayload result) w.apiKey =
      (.ok (), some ⟨round.gen.keyId, round.gen.key, relay.initialRemainingUses⟩) := by
    have hstored : applyRemaining (some result.keyRemainingUses) w.apiKey =
        (.ok (), w.apiKey.map ({ · with remainingUses := result.keyRemainingUses })) := rfl
    rw [applyApiKeyResponse, apiKeyPayload, hboot, hnext]
    show (applyRemaining (some result.keyRemainingUses) >>= fun _ => applyNextApiKey _ _ _) w.apiKey = _
    rw [Py.bind_ok hstored, Option.map_some, applyNextApiKey, hdecrypt]
    rfl
  have hbeat := (congrArg Prod.snd hreport).trans (take_ok happly)
  rw [beat, hbeat, heldAfter_next hauth hdecrypt']
  exact ⟨⟨_, rfl, hrow⟩, _, rfl, hactive⟩

/-- Before its last use the relay stays with its block auth key, unless the registry has none. -/
theorem beat_more (hpem : relay.relayPublicKeyPem ≠ []) (h : Undisturbed env relay w round)
    (hholding : Holding env relay w uses) (hmore : 1 < uses) :
    Holding env relay (beat env relay w round) (uses - 1) ∧ Provided relay (beat env relay w round) ∧
      (Agreed env relay (beat env relay w round) ↔ Agreed env relay w ∨ ¬ Provided relay w) := by
  obtain ⟨url, hadm⟩ := h.admitted
  obtain ⟨store, hstore, huses⟩ := hholding
  obtain ⟨record, s₁, hprocess, hremaining, hleft, hsame⟩ := process_taken round.gen
    (r := heartbeatBody relay round.report (some store)) hadm rfl rfl huses
    (by omega)
  obtain ⟨authKey, s', hanswer, hregistry, hcases⟩ := answer_more hpem
    (hsame.fresh h.fresh) (show record.remainingUses ≠ 0 by omega)
  have hreport := report_answered (w := round.begin w) round.gen' .delivered
    (by rw [Round.begin, hstore]; exact hprocess.trans hanswer)
  have happly : applyApiKeyResponse relay.decryptSecretBytes relay.initialRemainingUses
      (apiKeyPayload { keyRemainingUses := record.remainingUses, bootstrapBlockAuthKey := authKey })
      w.apiKey = (.ok (), some { store with remainingUses := record.remainingUses }) := by
    rw [hstore]
    rfl
  have hbeat := (congrArg Prod.snd hreport).trans (take_ok happly)
  have hsameActive : activeKeys s₁ relay.relayId = activeKeys w.registry relay.relayId :=
    activeKeys_congr hsame.blockAuthKeys relay.relayId
  rw [beat, hbeat]
  refine ⟨⟨_, rfl, hleft.congr hregistry⟩, ?_⟩
  rcases hcases with ⟨hnil, keyBytes, rfl, hactive⟩ | ⟨hsome, rfl, rfl⟩
  · have hagreed : Agreed env relay (beat env relay w round) := by
      rw [beat, hbeat, heldAfter_bootstrap rfl rfl]
      exact ⟨_, rfl, hactive⟩
    have hprovided := hagreed.provided
    rw [beat, hbeat] at hagreed hprovided
    exact ⟨hprovided, iff_of_true hagreed (.inr fun hsome => hsome (hsameActive.symm.trans hnil))⟩
  · have hprovided : Provided relay w := fun hnil => hsome (hsameActive.trans hnil)
    refine ⟨hsome, ?_⟩
    rw [heldAfter_none rfl, or_iff_left (not_not.mpr hprovided)]
    have hactive : activeBlockAuthKey env relay.relayId s' =
        activeBlockAuthKey env relay.relayId w.registry := by
      rw [activeBlockAuthKey, activeBlockAuthKey, hsameActive]
    simp only [Agreed, hactive]
    rfl

theorem Holding.exists_le (h : Holding env relay w uses) (n : Int) :
    (∃ other, Holding env relay w other ∧ other ≤ n) ↔ uses ≤ n := by
  constructor
  · rintro ⟨other, hother, hle⟩
    rwa [h.unique hother]
  · intro hle
    exact ⟨uses, h, hle⟩

theorem Agreed.beats
    (hkeys : RelayKeyPair env relay.decryptSecretBytes relay.relayId relay.relayPublicKeyPem)
    {rounds : List Round} (haccepted : Accepted env relay w) (hprovided : Provided relay w)
    (h : Along (beat env relay) (Undisturbed env relay) w rounds) :
    Accepted env relay (exec (beat env relay) w rounds) ∧
    (Agreed env relay (exec (beat env relay) w rounds) ↔
      Agreed env relay w ∨ ∃ uses, Holding env relay w uses ∧ uses ≤ rounds.length) := by
  induction rounds generalizing w with
  | nil =>
    obtain ⟨uses, hpos, hholding⟩ := haccepted
    rw [exec_nil, hholding.exists_le, List.length_nil]
    exact ⟨⟨uses, hpos, hholding⟩, (or_iff_left (by simpa using hpos)).symm⟩
  | cons round rounds ih =>
    obtain ⟨uses, hpos, hholding⟩ := haccepted
    obtain ⟨hround, hrest⟩ := h
    rw [exec_cons, hholding.exists_le, List.length_cons, Int.natCast_succ]
    by_cases hone : uses = 1
    · -- the key comes to its last use in this round
      subst hone
      obtain ⟨hnext, hagreed⟩ := beat_last hkeys hround hholding
      obtain ⟨haccepted, hiff⟩ := ih ⟨_, env.initialUses_pos, hnext⟩ hagreed.provided hrest
      exact ⟨haccepted, iff_of_true (hiff.mpr (.inl hagreed)) (.inr (by omega))⟩
    · obtain ⟨hnext, hprovided', hagreed⟩ := beat_more hkeys.nonempty hround hholding (by omega)
      obtain ⟨haccepted, hiff⟩ := ih ⟨_, by omega, hnext⟩ hprovided' hrest
      refine ⟨haccepted, ?_⟩
      rw [hiff, hagreed, or_iff_left (not_not.mpr hprovided), hnext.exists_le]
      exact or_congr_right (by omega)

/-- After undisturbed heartbeats the registry takes the relay's API key; and the relay has the right
block auth key exactly if it had it before, its API key was refused, the registry had no block auth
key, or the API key came to its last use. -/
theorem keys_recovered (env : Env) (relay : Config)
    (hkeys : RelayKeyPair env relay.decryptSecretBytes relay.relayId relay.relayPublicKeyPem)
    (w : Link) (rounds : List Round) (hne : rounds ≠ [])
    (h : Along (beat env relay) (Undisturbed env relay) w rounds) :
    Accepted env relay (exec (beat env relay) w rounds) ∧
    (Agreed env relay (exec (beat env relay) w rounds) ↔
      Agreed env relay w ∨ ¬ Accepted env relay w ∨ ¬ Provided relay w ∨
        ∃ uses, Holding env relay w uses ∧ uses ≤ rounds.length) := by
  by_cases hboth : Accepted env relay w ∧ Provided relay w
  · obtain ⟨haccepted, hiff⟩ := Agreed.beats hkeys hboth.1 hboth.2 h
    refine ⟨haccepted, hiff.trans ?_⟩
    simp [hboth.1, hboth.2]
  · obtain ⟨round, rest, rfl⟩ := List.exists_cons_of_ne_nil hne
    obtain ⟨hround, hrest⟩ := h
    have hfirst : Accepted env relay (beat env relay w round) ∧
        Agreed env relay (beat env relay w round) := by
      by_cases haccepted : Accepted env relay w
      · obtain ⟨uses, hpos, hholding⟩ := haccepted
        have hnone : ¬ Provided relay w := fun hsome => hboth ⟨⟨uses, hpos, hholding⟩, hsome⟩
        by_cases hone : uses = 1
        · subst hone
          obtain ⟨hnext, hagreed⟩ := beat_last hkeys hround hholding
          exact ⟨⟨_, env.initialUses_pos, hnext⟩, hagreed⟩
        · obtain ⟨hnext, -, hagreed⟩ := beat_more hkeys.nonempty hround hholding (by omega)
          exact ⟨⟨_, by omega, hnext⟩, hagreed.mpr (.inr hnone)⟩
      · obtain ⟨hnext, hagreed⟩ := beat_refused hround haccepted
        exact ⟨⟨_, env.initialUses_pos, hnext⟩, hagreed⟩
    obtain ⟨haccepted, hiff⟩ := Agreed.beats hkeys hfirst.1 hfirst.2.provided hrest
    refine ⟨haccepted, iff_of_true (hiff.mpr (.inl hfirst.2)) ?_⟩
    rcases not_and_or.mp hboth with hno | hno
    · exact .inr (.inl hno)
    · exact .inr (.inr (.inl hno))

def sampleConfig : Config :=
  { relayId := sampleRelay, relayBaseUrl := sampleUrl, relayPublicKeyPem := ascii "PEM A"
    decryptSecretBytes := .ok, initialRemainingUses := 100 }

/-- The keys from before the rotation whose response did not arrive. -/
def lostRotation : Link :=
  { registry := sampleDb
    apiKey := some ⟨ascii "key-0", ascii "old secret", 1⟩
    authKey := some ⟨ascii "auth-0", []⟩ }

def nextRound : Round :=
  { now := 3000, report := sampleReport, gen := sampleGenerated, gen' := sampleGenerated }

theorem lostRotation_undisturbed : Undisturbed sampleEnv sampleConfig lostRotation nextRound where
  admitted := ⟨sampleUrl, ⟨some sampleUrl, 0, true⟩,
    ⟨by decide +kernel, by decide +kernel, rfl⟩, by decide +kernel⟩
  fresh := ⟨by decide +kernel, by decide +kernel, by decide +kernel⟩
  fresh' := ⟨by decide +kernel, by decide +kernel, by decide +kernel⟩
  seals := ⟨_, rfl, rfl⟩

theorem keys_recovered_lost :
    Accepted sampleEnv sampleConfig
      (exec (beat sampleEnv sampleConfig) lostRotation [nextRound]) ∧
    (Agreed sampleEnv sampleConfig (exec (beat sampleEnv sampleConfig) lostRotation [nextRound]) ↔
      Agreed sampleEnv sampleConfig lostRotation ∨ ¬ Accepted sampleEnv sampleConfig lostRotation ∨
        ¬ Provided sampleConfig lostRotation ∨
        ∃ uses, Holding sampleEnv sampleConfig lostRotation uses ∧
          uses ≤ ([nextRound] : List Round).length) := by
  have hkeys : RelayKeyPair sampleEnv sampleConfig.decryptSecretBytes sampleConfig.relayId
      sampleConfig.relayPublicKeyPem :=
    ⟨by decide, fun _ keyBytes _ => ⟨keyBytes, rfl, rfl⟩⟩
  exact keys_recovered sampleEnv sampleConfig hkeys lostRotation [nextRound] (List.cons_ne_nil _ _)
    ⟨lostRotation_undisturbed, trivial⟩

end TwelveC.Relay.KeyRecovery
