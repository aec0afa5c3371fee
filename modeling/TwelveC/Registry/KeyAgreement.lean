import TwelveC.Registry.ApiKeyUses
import TwelveC.Relay.BlockAuthKeyManager

/-!
# Do the registry and a relay hold the same block auth key?

One relay's heartbeats overlap, and their responses reach it in any order. The
relay keeps the key of the response that came last, the registry the key that
was created last.
-/

namespace TwelveC.Registry.KeyAgreement

open Lib Lib.Run RegistryRepository PyTurns Turns Rejections ApiKeyUses
open Relay.BlockAuth Relay.BlockAuthKeyManager

/-- The registry with its heartbeats under way, and what the relay holds. `latest` is history: the
last key that the registry has created, with its `created_at`. -/
structure World (ι : Type) where
  registry : Heartbeats ι
  held : Option BlockAuthKeyStore
  applied : ι → Bool
  latest : Option (Str × Int)

inductive Event (ι : Type) where
  | turn (i : ι)
  | deliver (i : ι)
  | clock (now : Int)
  deriving DecidableEq, Repr

/-- A heartbeat that has just created a key, and not inserted it yet. -/
def created (gen : Generated) : Position → Option (Str × Int)
  | .insert purpose _ createdAt => some (purpose.keyId gen, createdAt)
  | _ => none

/-- A heartbeat that has not begun, or that has ended and whose response, if any, is applied. -/
def ended (applied : Bool) : Position → Bool
  | .start => true
  | .done _ (.ok _) => applied
  | .done _ (.error _) => true
  | _ => false

section system

variable {ι : Type} [DecidableEq ι] (env : Env) (decryptSecretBytes : Bytes → Except PyExn Bytes)
  (relayId : Str) (request : ι → HeartbeatRequest) (gen : ι → Generated)

def next (w : World ι) : Event ι → World ι
  | .turn i =>
    let registry := turn env request gen w.registry i
    { w with registry, latest := (created (gen i) (registry.pos i)).or w.latest }
  | .deliver i =>
    match w.registry.pos i with
    | .done _ (.ok result) =>
      if w.applied i then w
      else { w with held := heldAfter decryptSecretBytes result w.held
                    applied := Function.update w.applied i true }
    | _ => w
  | .clock now => { w with registry := { w.registry with store := { w.registry.store with now } } }

/-- What `get_active_block_auth_key` stands for: the key id with the key derived for it. -/
def activeBlockAuthKey (s : Db) : Option BlockAuthKeyStore :=
  (newest (activeKeys s relayId)).bind fun e =>
    (deriveBlockAuthKey env relayId e.1).toOption.map fun keyBytes => ⟨e.1, keyBytes⟩

/-- A relay that holds the registry's key, before its first heartbeat. -/
def start (s : Db) : World ι :=
  { registry := { store := s, pos := fun _ => .start }
    held := activeBlockAuthKey env relayId s
    applied := fun _ => false
    latest := newest (activeKeys s relayId) }

def Agreed (w : World ι) : Prop := w.held = activeBlockAuthKey env relayId w.registry.store

/-- Every code that the registry issues now passes the relay's check until it expires. -/
def CodesVerify (w : World ι) : Prop :=
  ∀ (r : BlockRequest) (token blockHash : Str) (checked : Str × PlacementRow)
    (reply : VerifyOverwriteResult) (s' : Db) (clock : Clock) (expiry : Int), r.relayId = relayId →
    (getActiveBlockAuthKey relayId >>= overwriteReply env r token blockHash checked)
      w.registry.store = (.ok reply, s') →
    clock.parseIso reply.expiryAt = .ok expiry → clock.now < expiry →
    ∃ store, w.held = some store ∧ store.blockAuthKeyId = reply.blockAuthKeyId ∧
      verifyBlockAuthMac env.C clock store.blockAuthKey
        { blockAuthKeyId := reply.blockAuthKeyId, token, relayId, relayBaseUrl := checked.1,
          blockHash, expiryAt := reply.expiryAt } reply.blockAuthMac = .ok true

/-- No heartbeat is under way, and every response sent has been applied. -/
def Settled (w : World ι) : Prop := ∀ i, ended (w.applied i) (w.registry.pos i) = true

instance [Fintype ι] (w : World ι) : Decidable (Settled w) := inferInstanceAs (Decidable (∀ _, _))

/-- The clock has moved on since the last key was created, a generated key id is not in use, and a
relay that holds the last key is not given an older one. -/
def inOrder (w : World ι) : Event ι → Bool
  | .turn i =>
    match w.registry.pos i with
    | .mint _ => w.latest.all fun e => e.2 < w.registry.store.now
    | .insert purpose _ _ =>
      (w.registry.store.blockAuthKeys.find (relayId, purpose.keyId (gen i))).isNone
    | .rotateKey _ _ _ => (w.registry.store.registryKeys.find (relayId, (gen i).keyId)).isNone
    | _ => true
  | .deliver i =>
    match w.registry.pos i with
    | .done _ (.ok result) => w.applied i || (lastKeyId result).all fun keyId =>
        w.held.map (·.blockAuthKeyId) = w.latest.map Prod.fst → w.latest.map Prod.fst = some keyId
    | _ => true
  | .clock _ => true

end system

/-- `decrypt_secret_bytes` undoes `encrypt_secret_bytes_for_relay` on this secret. -/
def Seals (env : Env) (decryptSecretBytes : Bytes → Except PyExn Bytes) (pem : Str)
    (secret : Bytes) : Prop :=
  ∃ encrypted, env.encryptForRelay pem secret = .ok encrypted ∧
    decryptSecretBytes encrypted = .ok secret

/-- The relay's RSA key pair, of which a heartbeat names the public half. -/
structure RelayKeyPair (env : Env) (decryptSecretBytes : Bytes → Except PyExn Bytes)
    (relayId pem : Str) : Prop where
  nonempty : pem ≠ []
  seals : ∀ keyId keyBytes, deriveBlockAuthKey env relayId keyId = .ok keyBytes →
    Seals env decryptSecretBytes pem keyBytes

structure SentBy (env : Env) (decryptSecretBytes : Bytes → Except PyExn Bytes)
    (relayId pem : Str) (r : HeartbeatRequest) (gen : Generated) : Prop where
  relayId : r.relayId = relayId
  publicKey : r.relayPublicKeyPem = some pem
  seals : Seals env decryptSecretBytes pem gen.key

/-- The last block auth key that the response of a heartbeat has, if nothing comes after. -/
def carriedKeyId (gen : Generated) : Position → Option Str
  | .insert purpose _ _ => some (purpose.keyId gen)
  | .rotateKey _ _ authKey => authKey.map Prod.fst
  | .clearKeys _ _ authKey _ => authKey.map Prod.fst
  | .mint (.next _ _ authKey _) => authKey.map Prod.fst
  | .done _ (.ok result) => lastKeyId result
  | _ => none

/-- The relay's keys are deleted, and the next one is not created yet. -/
def rotating : Position → Bool
  | .mint (.next _ _ _ _) => true
  | _ => false

section carried

variable (env : Env) (decryptSecretBytes : Bytes → Except PyExn Bytes) (relayId pem : Str)
  (gen : Generated)

/-- The key of a response arrives as it was derived. -/
def Arrives (result : HeartbeatResult) : Prop :=
  ∀ keyId, lastKeyId result = some keyId → ∃ keyBytes,
    deriveBlockAuthKey env relayId keyId = .ok keyBytes ∧
    ∀ held, heldAfter decryptSecretBytes result held = some ⟨keyId, keyBytes⟩

def PurposeSound : Purpose → Prop
  | .next _ other _ _ => other = pem
  | _ => True

/-- The keys on the way are derived ones, and are encrypted to the relay's own public key. -/
def Sound : Position → Prop
  | .mint purpose => PurposeSound pem purpose
  | .insert purpose keyBytes _ =>
    PurposeSound pem purpose ∧ deriveBlockAuthKey env relayId (purpose.keyId gen) = .ok keyBytes
  | .rotateKey _ other _ => other = pem
  | .clearKeys _ other _ _ => other = pem
  | .done _ (.ok result) => Arrives env decryptSecretBytes relayId result
  | _ => True

structure Carrying (keyId : Option Str) (p : Position) : Prop where
  carried : carriedKeyId gen p = keyId
  created : created gen p = none
  sound : Sound env decryptSecretBytes relayId pem gen p

end carried

section turn

variable {env : Env} {decryptSecretBytes : Bytes → Except PyExn Bytes} {relayId pem : Str}
  {r : HeartbeatRequest} {gen : Generated} {p : Position} {s : Db}

theorem arrives_none {result : HeartbeatResult} (h : lastKeyId result = none) :
    Arrives env decryptSecretBytes relayId result := by
  intro keyId hkey
  rw [h] at hkey
  cases hkey

theorem arrives_bootstrap {result : HeartbeatResult} {keyId : Str} {keyBytes : Bytes}
    (hnext : result.nextBlockAuthKey = none)
    (hboot : result.bootstrapBlockAuthKey = some (keyId, keyBytes))
    (hderive : deriveBlockAuthKey env relayId keyId = .ok keyBytes) :
    Arrives env decryptSecretBytes relayId result := by
  intro other hother
  rw [lastKeyId, hnext, hboot] at hother
  cases hother
  exact ⟨keyBytes, hderive, heldAfter_bootstrap hnext hboot⟩

theorem arrives_next {result : HeartbeatResult} {keyId : Str} {keyBytes encrypted : Bytes}
    (hnext : result.nextBlockAuthKey = some (keyId, encrypted))
    (hdecrypt : decryptSecretBytes encrypted = .ok keyBytes)
    (hderive : deriveBlockAuthKey env relayId keyId = .ok keyBytes) :
    Arrives env decryptSecretBytes relayId result := by
  intro other hother
  rw [lastKeyId, hnext] at hother
  cases hother
  exact ⟨keyBytes, hderive, heldAfter_next hnext hdecrypt⟩

theorem carrying_failed (record : Option RegistryApiKeyRecord) (e : PyExn) :
    Carrying env decryptSecretBytes relayId pem gen none (failed record e) := ⟨rfl, rfl, trivial⟩

theorem carrying_goto {α : Type} (record : Option RegistryApiKeyRecord) {ok : α → Position}
    (hok : ∀ a, Carrying env decryptSecretBytes relayId pem gen none (ok a))
    (x : Except PyExn α × Db) :
    Carrying env decryptSecretBytes relayId pem gen none (goto x ok (failed record)).1 :=
  goto_fst hok (carrying_failed record) x

theorem publicKeyOf_sent (h : r.relayPublicKeyPem = some pem) (hpem : pem ≠ [])
    (record : RegistryApiKeyRecord) : publicKeyOf r record = some pem := by
  rw [publicKeyOf, h, truthy, Option.filter_some, if_pos (by simpa using hpem)]
  rfl

/-- A heartbeat that goes on with the keys it has made so far. -/
theorem carrying_afterProvide (h : r.relayPublicKeyPem = some pem) (hpem : pem ≠ [])
    (record : RegistryApiKeyRecord) (authKey : Option (Str × Bytes))
    (hderive : ∀ key, authKey = some key → deriveBlockAuthKey env relayId key.1 = .ok key.2) :
    Carrying env decryptSecretBytes relayId pem gen (authKey.map Prod.fst)
      (afterProvide r record authKey) := by
  rw [afterProvide]
  split
  · rw [publicKeyOf_sent h hpem]
    exact ⟨rfl, rfl, rfl⟩
  · refine ⟨rfl, rfl, ?_⟩
    cases authKey with
    | none => exact arrives_none rfl
    | some key => exact arrives_bootstrap rfl rfl (hderive key rfl)

theorem carrying_afterActive (h : r.relayPublicKeyPem = some pem) (hpem : pem ≠ [])
    (record : RegistryApiKeyRecord) (active : Option Str) :
    Carrying env decryptSecretBytes relayId pem gen none (afterActive r record active) := by
  cases active with
  | some keyId => exact carrying_afterProvide h hpem record none fun _ hkey => by cases hkey
  | none =>
    rw [afterActive, if_neg (by rw [publicKeyOf_sent h hpem]; exact Option.some_ne_none _)]
    exact ⟨rfl, rfl, trivial⟩

theorem carrying_afterConsume (record : RegistryApiKeyRecord) (remaining : Int) :
    Carrying env decryptSecretBytes relayId pem gen none (afterConsume record remaining) := by
  rw [afterConsume]
  split <;> exact ⟨rfl, rfl, trivial⟩

theorem carrying_afterRecord :
    Carrying env decryptSecretBytes relayId pem gen none (afterRecord r) := by
  rw [afterRecord]
  split
  case h_1 => exact ⟨rfl, rfl, trivial⟩
  case h_2 => split <;> exact ⟨rfl, rfl, trivial⟩

/-- The new key is on its way once it is inserted. -/
theorem carrying_afterInsert (hkeys : RelayKeyPair env decryptSecretBytes relayId pem)
    (h : r.relayPublicKeyPem = some pem) {purpose : Purpose} {keyBytes : Bytes}
    (hpurpose : PurposeSound pem purpose)
    (hderive : deriveBlockAuthKey env relayId (purpose.keyId gen) = .ok keyBytes) :
    Carrying env decryptSecretBytes relayId pem gen (some (purpose.keyId gen))
      (afterInsert env r gen keyBytes purpose) := by
  cases purpose with
  | bootstrap => exact ⟨rfl, rfl, arrives_bootstrap rfl rfl hderive⟩
  | provide record =>
    refine carrying_afterProvide h hkeys.nonempty record (some (gen.authKeyId, keyBytes))
      fun key hkey => ?_
    cases hkey
    exact hderive
  | next record other authKey nextKey =>
    obtain rfl : other = pem := hpurpose
    obtain ⟨encrypted, hencrypt, hdecrypt⟩ := hkeys.seals _ _ hderive
    rw [afterInsert, hencrypt]
    exact ⟨rfl, rfl, arrives_next rfl hdecrypt hderive⟩

theorem rotateRegistryApiKey_ok {keyId key encrypted : Str}
    (hfind : s.registryKeys.find (relayId, keyId) = none)
    (hencrypt : env.encryptForRelay pem key = .ok encrypted) :
    ∃ s', rotateRegistryApiKey env relayId pem keyId key s = (.ok (keyId, encrypted), s') := by
  obtain ⟨s', hcreate⟩ : ∃ s', createRegistryApiKey env.C relayId (some pem)
      env.registryApiKeyInitialUses keyId key s = (.ok (), s') := by
    rw [createRegistryApiKey, Table.add_eq_some.mpr ⟨hfind, rfl⟩]
    exact ⟨_, rfl⟩
  refine ⟨s', ?_⟩
  rw [rotateRegistryApiKey, Py.bind_ok hcreate, hencrypt]
  rfl

/-- Away from the three turns that touch the table of block auth keys, a heartbeat carries on. -/
theorem advance_carrying (hkeys : RelayKeyPair env decryptSecretBytes relayId pem)
    (hsent : SentBy env decryptSecretBytes relayId pem r gen)
    (hmint : ∀ purpose, p ≠ .mint purpose)
    (hinsert : ∀ purpose keyBytes createdAt, p ≠ .insert purpose keyBytes createdAt)
    (hclear : ∀ record other authKey nextKey, p ≠ .clearKeys record other authKey nextKey)
    (hfresh : ∀ record other authKey, p = .rotateKey record other authKey →
      s.registryKeys.find (relayId, gen.keyId) = none)
    (hsound : Sound env decryptSecretBytes relayId pem gen p) :
    Carrying env decryptSecretBytes relayId pem gen (carriedKeyId gen p) (advance env r gen p s).1 := by
  cases p with
  | start =>
    refine carrying_goto none (fun a => ?_) _
    split <;> exact ⟨rfl, rfl, trivial⟩
  | adoptRead url =>
    refine carrying_goto none (fun found => ?_) _
    cases found <;> exact ⟨rfl, rfl, trivial⟩
  | adoptWrite url enabled => exact ⟨rfl, rfl, trivial⟩
  | adoptReturn url =>
    refine carrying_goto none (fun found => ?_) _
    cases found <;> exact ⟨rfl, rfl, trivial⟩
  | savePem url =>
    refine carrying_goto none (fun _ => ?_) _
    exact ⟨rfl, rfl, trivial⟩
  | saveState url => exact carrying_afterRecord
  | bootstrapKey =>
    refine carrying_goto none (fun _ => ?_) _
    exact ⟨rfl, rfl, trivial⟩
  | allowed keyId key =>
    refine carrying_goto none (fun _ => ?_) _
    exact ⟨rfl, rfl, trivial⟩
  | verify keyId key =>
    refine carrying_goto none (fun found => ?_) _
    cases found <;> exact ⟨rfl, rfl, trivial⟩
  | consume keyId record =>
    refine carrying_goto none (fun rowcount => ?_) _
    split
    · exact carrying_afterConsume record 0
    · exact ⟨rfl, rfl, trivial⟩
  | selectUses keyId record => exact carrying_goto none (carrying_afterConsume record) _
  | activeKey record =>
    exact carrying_goto (some record) (carrying_afterActive hsent.publicKey hkeys.nonempty record) _
  | mint purpose => exact absurd rfl (hmint purpose)
  | insert purpose keyBytes createdAt => exact absurd rfl (hinsert purpose keyBytes createdAt)
  | rotateKey record other authKey =>
    obtain rfl : other = pem := hsound
    obtain ⟨encrypted, hencrypt, -⟩ := hsent.seals
    have hfind : s.registryKeys.find (r.relayId, gen.keyId) = none := by
      rw [hsent.relayId]
      exact hfresh record other authKey rfl
    obtain ⟨s', hrotate⟩ := rotateRegistryApiKey_ok hfind hencrypt
    rw [advance, hrotate, goto_ok]
    exact ⟨rfl, rfl, rfl⟩
  | clearKeys record other authKey nextKey => exact absurd rfl (hclear record other authKey nextKey)
  | done record outcome =>
    exact ⟨rfl, rfl, hsound⟩

theorem activeKeys_congr {s' : Db} (h : s'.blockAuthKeys = s.blockAuthKeys) (relayId : Str) :
    activeKeys s' relayId = activeKeys s relayId := by
  rw [activeKeys, h, activeKeys]

theorem advance_blockAuthKeys
    (hinsert : ∀ purpose keyBytes createdAt, p ≠ .insert purpose keyBytes createdAt)
    (hclear : ∀ record other authKey nextKey, p ≠ .clearKeys record other authKey nextKey) :
    (advance env r gen p s).2.blockAuthKeys = s.blockAuthKeys := by
  refine advance_preserves (Q := fun t => t.blockAuthKeys = s.blockAuthKeys) (fun _ _ _ h => h)
    (fun _ => Py.preserves_modify fun _ h => h) (fun pem uses keyId key t h => ?_)
    (fun _ _ _ _ h => h) (fun purpose keyBytes createdAt h => absurd h (hinsert _ _ _))
    (fun record other authKey nextKey h => absurd h (hclear _ _ _ _)) rfl
  rw [createRegistryApiKey]
  split <;> exact h

theorem advance_mint (purpose : Purpose) : ∃ keyBytes,
    deriveBlockAuthKey env r.relayId (purpose.keyId gen) = .ok keyBytes ∧
    advance env r gen (.mint purpose) s = (.insert purpose keyBytes s.now, s) := by
  obtain ⟨keyBytes, hderive⟩ := deriveBlockAuthKey_ok env r.relayId (purpose.keyId gen)
  have hmint : mintKey env r (purpose.keyId gen) s = (.ok (keyBytes, s.now), s) := by
    rw [mintKey, hderive]
    rfl
  refine ⟨keyBytes, hderive, ?_⟩
  rw [advance, hmint, goto_ok]

theorem advance_insert {purpose : Purpose} {keyBytes : Bytes} {createdAt : Int}
    (hfind : s.blockAuthKeys.find (r.relayId, purpose.keyId gen) = none) :
    advance env r gen (.insert purpose keyBytes createdAt) s =
      (afterInsert env r gen keyBytes purpose,
        { s with blockAuthKeys := (s.blockAuthKeys.insert (r.relayId, purpose.keyId gen)
                   { status := activeStatus, createdAt }) }) := by
  rw [advance, insertBlockAuthKey, Table.add_eq_some.mpr ⟨hfind, rfl⟩, goto_ok]

end turn

section protocol

variable {ι : Type} [DecidableEq ι] {env : Env} {decryptSecretBytes : Bytes → Except PyExn Bytes}
  {relayId pem : Str} {request : ι → HeartbeatRequest} {gen : ι → Generated} {w : World ι} {i : ι}

/-- The last key created, or one that is strictly older. -/
def NotLater (latest : Option (Str × Int)) (e : Str × Int) : Prop :=
  ∃ top, latest = some top ∧ (e = top ∨ e.2 < top.2)

/-- Where the last key created is: in the table or about to come there, unless its successor is about
to be created; and at the relay, or in a response that is not applied yet. -/
structure Tracked (env : Env) (decryptSecretBytes : Bytes → Except PyExn Bytes) (relayId pem : Str)
    (gen : ι → Generated) (w : World ι) : Prop where
  sound : ∀ i, Sound env decryptSecretBytes relayId pem (gen i) (w.registry.pos i)
  answered : ∀ i, w.applied i = true → ∃ record result, w.registry.pos i = .done record (.ok result)
  derived : ∀ store, w.held = some store →
    deriveBlockAuthKey env relayId store.blockAuthKeyId = .ok store.blockAuthKey
  heldKnown : w.held ≠ none → w.latest ≠ none
  carriedKnown : ∀ i, carriedKeyId (gen i) (w.registry.pos i) ≠ none → w.latest ≠ none
  rows : ∀ e ∈ activeKeys w.registry.store relayId, NotLater w.latest e
  inserting : ∀ i e, created (gen i) (w.registry.pos i) = some e → NotLater w.latest e
  present : ∀ top, w.latest = some top → top ∈ activeKeys w.registry.store relayId ∨
    (∃ i, created (gen i) (w.registry.pos i) = some top) ∨
    ∃ i, rotating (w.registry.pos i) = true
  delivered : ∀ top, w.latest = some top → w.held.map (·.blockAuthKeyId) = some top.1 ∨
    ∃ i, w.applied i = false ∧ carriedKeyId (gen i) (w.registry.pos i) = some top.1

/-- A heartbeat that has ended stays where it is. -/
theorem turn_done {c : Heartbeats ι} {j : ι} {record : Option RegistryApiKeyRecord}
    {outcome : Except PyExn HeartbeatResult} (i : ι) (hpos : c.pos j = .done record outcome) :
    (turn env request gen c i).pos j = .done record outcome := by
  rw [turn_pos]
  split
  case isTrue hji =>
    subst hji
    rw [turn, Threads.next_pos_self, hpos]
    rfl
  case isFalse => exact hpos

/-- A turn that creates no key. -/
theorem tracked_turn (h : Tracked env decryptSecretBytes relayId pem gen w)
    (hcarry : Carrying env decryptSecretBytes relayId pem (gen i)
      (carriedKeyId (gen i) (w.registry.pos i)) ((turn env request gen w.registry i).pos i))
    (hrows : ∀ e ∈ activeKeys (turn env request gen w.registry i).store relayId, NotLater w.latest e)
    (hpresent : ∀ top, top ∈ activeKeys w.registry.store relayId ∨
        created (gen i) (w.registry.pos i) = some top ∨ rotating (w.registry.pos i) = true →
      top ∈ activeKeys (turn env request gen w.registry i).store relayId ∨
        rotating ((turn env request gen w.registry i).pos i) = true) :
    Tracked env decryptSecretBytes relayId pem gen
      (next env decryptSecretBytes request gen w (.turn i)) := by
  have hnext : next env decryptSecretBytes request gen w (.turn i) =
      { w with registry := turn env request gen w.registry i } := by
    rw [next, hcarry.created, Option.none_or]
  rw [hnext]
  refine ⟨?_, fun j hj => ?_, h.derived, h.heldKnown, ?_, hrows, ?_, fun top htop => ?_,
    fun top htop => ?_⟩
  · exact forall_turn (P := fun j p => Sound env decryptSecretBytes relayId pem (gen j) p)
      (fun j _ => h.sound j) hcarry.sound
  · obtain ⟨record, result, hpos⟩ := h.answered j hj
    exact ⟨record, result, turn_done i hpos⟩
  · refine forall_turn (P := fun j p => carriedKeyId (gen j) p ≠ none → w.latest ≠ none)
      (fun j _ => h.carriedKnown j) ?_
    rw [hcarry.carried]
    exact h.carriedKnown i
  · refine forall_turn (P := fun j p => ∀ e, created (gen j) p = some e → NotLater w.latest e)
      (fun j _ => h.inserting j) ?_
    rw [hcarry.created]
    exact fun e he => by cases he
  · have hnew (hold : top ∈ activeKeys w.registry.store relayId ∨
        created (gen i) (w.registry.pos i) = some top ∨ rotating (w.registry.pos i) = true) :
        top ∈ activeKeys (turn env request gen w.registry i).store relayId ∨
        (∃ j, created (gen j) ((turn env request gen w.registry i).pos j) = some top) ∨
        ∃ j, rotating ((turn env request gen w.registry i).pos j) = true :=
      (hpresent top hold).imp_right fun hrot => .inr ⟨i, hrot⟩
    rcases h.present top htop with hrow | ⟨j, hj⟩ | ⟨j, hj⟩
    · exact hnew (.inl hrow)
    · by_cases hji : j = i
      · subst hji
        exact hnew (.inr (.inl hj))
      · refine .inr (.inl ⟨j, ?_⟩)
        rw [turn_pos, if_neg hji]
        exact hj
    · by_cases hji : j = i
      · subst hji
        exact hnew (.inr (.inr hj))
      · refine .inr (.inr ⟨j, ?_⟩)
        rw [turn_pos, if_neg hji]
        exact hj
  · refine (h.delivered top htop).imp_right fun ⟨j, hj, hcarried⟩ => ⟨j, hj, ?_⟩
    rw [turn_pos]
    split
    case isTrue hji =>
      subst hji
      rw [hcarry.carried]
      exact hcarried
    case isFalse => exact hcarried

/-- The turn that creates a key: the clock has moved on, so all others are older. -/
theorem tracked_mint {purpose : Purpose}
    (hsent : SentBy env decryptSecretBytes relayId pem (request i) (gen i))
    (h : Tracked env decryptSecretBytes relayId pem gen w) (hpos : w.registry.pos i = .mint purpose)
    (hclock : ∀ top, w.latest = some top → top.2 < w.registry.store.now) :
    Tracked env decryptSecretBytes relayId pem gen
      (next env decryptSecretBytes request gen w (.turn i)) := by
  obtain ⟨keyBytes, hderive, hadvance⟩ : ∃ keyBytes,
      deriveBlockAuthKey env (request i).relayId (purpose.keyId (gen i)) = .ok keyBytes ∧
      advance env (request i) (gen i) (w.registry.pos i) w.registry.store =
        (.insert purpose keyBytes w.registry.store.now, w.registry.store) := by
    rw [hpos]
    exact advance_mint purpose
  have hstore : (turn env request gen w.registry i).store = w.registry.store := by
    rw [turn, Threads.next_store, hadvance]
  have hpos' : (turn env request gen w.registry i).pos i =
      .insert purpose keyBytes w.registry.store.now := by
    rw [turn, Threads.next_pos_self, hadvance]
  have hnext : next env decryptSecretBytes request gen w (.turn i) =
      { w with registry := turn env request gen w.registry i
               latest := some (purpose.keyId (gen i), w.registry.store.now) } := by
    rw [next, hpos']
    rfl
  have hlater (e : Str × Int) (he : NotLater w.latest e) :
      NotLater (some (purpose.keyId (gen i), w.registry.store.now)) e := by
    obtain ⟨top, htop, he⟩ := he
    have hlt := hclock top htop
    refine ⟨_, rfl, .inr ?_⟩
    rcases he with rfl | he
    · exact hlt
    · exact Int.lt_trans he hlt
  have hnot : w.applied i = false := by
    cases happlied : w.applied i with
    | false => rfl
    | true =>
      obtain ⟨record, result, hdone⟩ := h.answered i happlied
      rw [hpos] at hdone
      cases hdone
  have hsound := h.sound i
  rw [hpos] at hsound
  rw [hnext]
  refine ⟨?_, fun j hj => ?_, h.derived, fun _ => Option.some_ne_none _,
    fun _ _ => Option.some_ne_none _, ?_, ?_, fun top htop => ?_, fun top htop => ?_⟩
  · refine forall_turn (P := fun j p => Sound env decryptSecretBytes relayId pem (gen j) p)
      (fun j _ => h.sound j) ?_
    rw [hpos']
    exact ⟨hsound, by rw [← hsent.relayId, hderive]⟩
  · obtain ⟨record, result, hdone⟩ := h.answered j hj
    exact ⟨record, result, turn_done i hdone⟩
  · rw [hstore]
    exact fun e he => hlater e (h.rows e he)
  · refine forall_turn (P := fun j p => ∀ e, created (gen j) p = some e → NotLater _ e)
      (fun j _ e he => hlater e (h.inserting j e he)) ?_
    rw [hpos']
    exact fun e he => ⟨_, rfl, .inl (Option.some.inj he).symm⟩
  · cases htop
    exact .inr (.inl ⟨i, by rw [hpos']; rfl⟩)
  · cases htop
    exact .inr ⟨i, hnot, by rw [hpos']; rfl⟩

/-- The turn that inserts the key. -/
theorem tracked_insert {purpose : Purpose} {keyBytes : Bytes} {createdAt : Int}
    (hkeys : RelayKeyPair env decryptSecretBytes relayId pem)
    (hsent : SentBy env decryptSecretBytes relayId pem (request i) (gen i))
    (h : Tracked env decryptSecretBytes relayId pem gen w)
    (hpos : w.registry.pos i = .insert purpose keyBytes createdAt)
    (hfresh : w.registry.store.blockAuthKeys.find (relayId, purpose.keyId (gen i)) = none) :
    Tracked env decryptSecretBytes relayId pem gen
      (next env decryptSecretBytes request gen w (.turn i)) := by
  have hsound := h.sound i
  rw [hpos] at hsound
  have hadvance : advance env (request i) (gen i) (w.registry.pos i) w.registry.store =
      (afterInsert env (request i) (gen i) keyBytes purpose,
        { w.registry.store with
            blockAuthKeys := (w.registry.store.blockAuthKeys.insert (relayId, purpose.keyId (gen i))
              { status := activeStatus, createdAt }) }) := by
    rw [hpos, ← hsent.relayId]
    exact advance_insert (by rw [hsent.relayId, hfresh])
  have hpos' : (turn env request gen w.registry i).pos i =
      afterInsert env (request i) (gen i) keyBytes purpose := by
    rw [turn, Threads.next_pos_self, hadvance]
  have hmem (e : Str × Int) : e ∈ activeKeys (turn env request gen w.registry i).store relayId ↔
      e = (purpose.keyId (gen i), createdAt) ∨ e ∈ activeKeys w.registry.store relayId := by
    rw [mem_activeKeys, mem_activeKeys, turn, Threads.next_store, hadvance]
    dsimp only
    rw [Table.find_insert]
    obtain ⟨keyId, at'⟩ := e
    by_cases hid : keyId = purpose.keyId (gen i)
    · subst hid
      simp [hfresh, eq_comm]
    · simp [hid]
  refine tracked_turn h ?_ (fun e he => ?_) fun top htop => ?_
  · rw [hpos, hpos']
    exact carrying_afterInsert hkeys hsent.publicKey hsound.1 hsound.2
  · rcases (hmem e).mp he with rfl | he
    · exact h.inserting i _ (by rw [hpos]; rfl)
    · exact h.rows e he
  · refine .inl ((hmem top).mpr ?_)
    rcases htop with htop | htop | htop
    · exact .inr htop
    · rw [hpos] at htop
      cases htop
      exact .inl rfl
    · rw [hpos] at htop
      cases htop

/-- The turn that deletes the relay's keys. -/
theorem tracked_clear {record : RegistryApiKeyRecord} {other : Str} {authKey : Option (Str × Bytes)}
    {nextKey : Str × Bytes} (hsent : SentBy env decryptSecretBytes relayId pem (request i) (gen i))
    (h : Tracked env decryptSecretBytes relayId pem gen w)
    (hpos : w.registry.pos i = .clearKeys record other authKey nextKey) :
    Tracked env decryptSecretBytes relayId pem gen
      (next env decryptSecretBytes request gen w (.turn i)) := by
  have hsound := h.sound i
  rw [hpos] at hsound
  have hpos' : (turn env request gen w.registry i).pos i = .mint (.next record other authKey nextKey) := by
    rw [turn, Threads.next_pos_self, hpos]
    rfl
  have hempty (e : Str × Int) : e ∉ activeKeys (turn env request gen w.registry i).store relayId := by
    rw [mem_activeKeys, turn, Threads.next_store, hpos]
    show ((Table.filter _ _).find _) ≠ _
    rw [Table.find_filter, hsent.relayId, Option.filter_eq_none_iff.mpr (by simp)]
    exact Option.some_ne_none _ |>.symm
  refine tracked_turn h ?_ (fun e he => absurd he (hempty e)) fun top _ => .inr ?_
  · rw [hpos, hpos']
    exact ⟨rfl, rfl, hsound⟩
  · rw [hpos']
    rfl

theorem created_eq_some {gen : Generated} {p : Position} {e : Str × Int}
    (h : created gen p = some e) : ∃ purpose keyBytes createdAt, p = .insert purpose keyBytes createdAt := by
  cases p with
  | insert purpose keyBytes createdAt => exact ⟨purpose, keyBytes, createdAt, rfl⟩
  | _ => cases h

theorem rotating_eq_true {p : Position} (h : rotating p = true) : ∃ purpose, p = .mint purpose := by
  cases p with
  | mint purpose => exact ⟨purpose, rfl⟩
  | _ => cases h

theorem tracked_other (hkeys : RelayKeyPair env decryptSecretBytes relayId pem)
    (hsent : SentBy env decryptSecretBytes relayId pem (request i) (gen i))
    (h : Tracked env decryptSecretBytes relayId pem gen w)
    (hmint : ∀ purpose, w.registry.pos i ≠ .mint purpose)
    (hinsert : ∀ purpose keyBytes createdAt, w.registry.pos i ≠ .insert purpose keyBytes createdAt)
    (hclear : ∀ record other authKey nextKey,
      w.registry.pos i ≠ .clearKeys record other authKey nextKey)
    (hfresh : ∀ record other authKey, w.registry.pos i = .rotateKey record other authKey →
      w.registry.store.registryKeys.find (relayId, (gen i).keyId) = none) :
    Tracked env decryptSecretBytes relayId pem gen
      (next env decryptSecretBytes request gen w (.turn i)) := by
  have hrows : activeKeys (turn env request gen w.registry i).store relayId =
      activeKeys w.registry.store relayId :=
    activeKeys_congr (advance_blockAuthKeys hinsert hclear) relayId
  refine tracked_turn h ?_ ?_ fun top htop => ?_
  · rw [turn, Threads.next_pos_self]
    exact advance_carrying hkeys hsent hmint hinsert hclear hfresh (h.sound i)
  · rw [hrows]
    exact h.rows
  · rw [hrows]
    rcases htop with hrow | hcreated | hrotating
    · exact .inl hrow
    · obtain ⟨purpose, keyBytes, createdAt, hpos⟩ := created_eq_some hcreated
      exact absurd hpos (hinsert purpose keyBytes createdAt)
    · obtain ⟨purpose, hpos⟩ := rotating_eq_true hrotating
      exact absurd hpos (hmint purpose)

/-- The response `result` is applied for the first time. -/
theorem tracked_apply {record : Option RegistryApiKeyRecord} {result : HeartbeatResult}
    (h : Tracked env decryptSecretBytes relayId pem gen w)
    (hpos : w.registry.pos i = .done record (.ok result))
    (hin : ∀ keyId, lastKeyId result = some keyId →
      w.held.map (·.blockAuthKeyId) = w.latest.map Prod.fst → w.latest.map Prod.fst = some keyId) :
    Tracked env decryptSecretBytes relayId pem gen
      { w with held := heldAfter decryptSecretBytes result w.held
               applied := Function.update w.applied i true } := by
  have hcarried : carriedKeyId (gen i) (w.registry.pos i) = lastKeyId result := by
    rw [hpos]
    rfl
  have harrives : Arrives env decryptSecretBytes relayId result := by
    have hsound := h.sound i
    rw [hpos] at hsound
    exact hsound
  have hstays (top : Str × Int) (hne : lastKeyId result ≠ some top.1) (j : ι)
      (hj : w.applied j = false ∧ carriedKeyId (gen j) (w.registry.pos j) = some top.1) :
      Function.update w.applied i true j = false ∧
        carriedKeyId (gen j) (w.registry.pos j) = some top.1 := by
    have hji : j ≠ i := by
      rintro rfl
      exact hne (hcarried.symm.trans hj.2)
    rw [Function.update_of_ne hji]
    exact hj
  refine ⟨h.sound, fun j hj => ?_, fun store hstore => ?_, fun hheld => ?_, h.carriedKnown, h.rows,
    h.inserting, h.present, fun top htop => ?_⟩
  · by_cases hji : j = i
    · subst hji
      exact ⟨record, result, hpos⟩
    · exact h.answered j ((Function.update_of_ne hji ..).symm.trans hj)
  · cases hlast : lastKeyId result with
    | none =>
      rw [heldAfter_none hlast] at hstore
      exact h.derived store hstore
    | some keyId =>
      obtain ⟨keyBytes, hderive, harrive⟩ := harrives keyId hlast
      rw [harrive] at hstore
      cases hstore
      exact hderive
  · cases hlast : lastKeyId result with
    | none =>
      rw [heldAfter_none hlast] at hheld
      exact h.heldKnown hheld
    | some keyId =>
      exact h.carriedKnown i (by rw [hcarried, hlast]; exact Option.some_ne_none _)
  · cases hlast : lastKeyId result with
    | none =>
      rw [heldAfter_none hlast]
      refine (h.delivered top htop).imp_right fun ⟨j, hj⟩ => ⟨j, hstays top ?_ j hj⟩
      rw [hlast]
      exact (Option.some_ne_none _).symm
    | some keyId =>
      obtain ⟨keyBytes, -, harrive⟩ := harrives keyId hlast
      by_cases hkey : keyId = top.1
      · rw [harrive, hkey]
        exact .inl rfl
      · rcases h.delivered top htop with hheld | ⟨j, hj⟩
        · -- The relay would give up the last key for an older one.
          have hlatest := hin keyId hlast (by rw [hheld, htop]; rfl)
          rw [htop] at hlatest
          exact absurd (Option.some.inj hlatest).symm hkey
        · refine .inr ⟨j, hstays top ?_ j hj⟩
          rw [hlast]
          exact fun h => hkey (Option.some.inj h)

theorem tracked_deliver (h : Tracked env decryptSecretBytes relayId pem gen w)
    (hin : inOrder relayId gen w (.deliver i) = true) :
    Tracked env decryptSecretBytes relayId pem gen
      (next env decryptSecretBytes request gen w (.deliver i)) := by
  rw [inOrder] at hin
  cases hpos : w.registry.pos i with
  | done record outcome =>
    cases outcome with
    | error e =>
      rw [next, hpos]
      exact h
    | ok result =>
      rw [next, hpos]
      rw [hpos] at hin
      dsimp only at hin ⊢
      cases happlied : w.applied i with
      | true =>
        rw [if_pos rfl]
        exact h
      | false =>
        rw [if_neg Bool.false_ne_true]
        refine tracked_apply h hpos fun keyId hlast => ?_
        rw [happlied, Bool.false_or, hlast, Option.all_some, decide_eq_true_iff] at hin
        exact hin
  | _ =>
    rw [next, hpos]
    exact h

theorem tracked_next (hkeys : RelayKeyPair env decryptSecretBytes relayId pem)
    (hsent : ∀ i, SentBy env decryptSecretBytes relayId pem (request i) (gen i))
    (h : Tracked env decryptSecretBytes relayId pem gen w) (e : Event ι)
    (hin : inOrder relayId gen w e = true) :
    Tracked env decryptSecretBytes relayId pem gen (next env decryptSecretBytes request gen w e) := by
  cases e with
  | deliver i => exact tracked_deliver h hin
  | clock now => exact ⟨h.sound, h.answered, h.derived, h.heldKnown, h.carriedKnown, h.rows,
      h.inserting, h.present, h.delivered⟩
  | turn i =>
    rw [inOrder] at hin
    cases hpos : w.registry.pos i with
    | mint purpose =>
      rw [hpos] at hin
      refine tracked_mint (hsent i) h hpos fun top htop => ?_
      rw [htop] at hin
      simpa using hin
    | insert purpose keyBytes createdAt =>
      rw [hpos] at hin
      exact tracked_insert hkeys (hsent i) h hpos (Option.isNone_iff_eq_none.mp hin)
    | clearKeys record other authKey nextKey => exact tracked_clear (hsent i) h hpos
    | rotateKey record other authKey =>
      rw [hpos] at hin
      refine tracked_other hkeys (hsent i) h ?_ ?_ ?_ fun _ _ _ _ => Option.isNone_iff_eq_none.mp hin
      all_goals
        intros
        rw [hpos]
        exact Position.noConfusion
    | _ =>
      refine tracked_other hkeys (hsent i) h ?_ ?_ ?_ fun _ _ _ hp => by rw [hpos] at hp; cases hp
      all_goals
        intros
        rw [hpos]
        exact Position.noConfusion

omit [DecidableEq ι] in
theorem tracked_start {s : Db} (hnewest : ∀ e ∈ activeKeys s relayId,
    NotLater (newest (activeKeys s relayId)) e) :
    Tracked env decryptSecretBytes relayId pem gen (start env relayId s) where
  sound _ := trivial
  answered _ hj := by cases hj
  derived store hstore := by
    obtain ⟨e, -, he⟩ := Option.bind_eq_some_iff.mp hstore
    obtain ⟨keyBytes, hkey, rfl⟩ := Option.map_eq_some_iff.mp he
    cases hderive : deriveBlockAuthKey env relayId e.1 with
    | error ex =>
      rw [hderive] at hkey
      cases hkey
    | ok derived =>
      rw [hderive] at hkey
      cases hkey
      rfl
  heldKnown hheld hnone := by
    refine hheld ?_
    have hnone' : newest (activeKeys s relayId) = none := hnone
    show activeBlockAuthKey env relayId s = none
    rw [activeBlockAuthKey, hnone', Option.bind_none]
  carriedKnown _ hcarried := absurd rfl hcarried
  rows := hnewest
  inserting _ _ he := by cases he
  present _ htop := .inl (newest_mem htop)
  delivered top htop := by
    refine .inl ?_
    have htop' : newest (activeKeys s relayId) = some top := htop
    obtain ⟨keyBytes, hderive⟩ := deriveBlockAuthKey_ok env relayId top.1
    show (activeBlockAuthKey env relayId s).map _ = _
    rw [activeBlockAuthKey, htop', Option.bind_some, hderive]
    rfl

omit [DecidableEq ι] in
theorem Tracked.agreed (h : Tracked env decryptSecretBytes relayId pem gen w) (hsettled : Settled w) :
    Agreed env relayId w := by
  have hidle (i : ι) : created (gen i) (w.registry.pos i) = none ∧
      rotating (w.registry.pos i) = false ∧
      (w.applied i = false → carriedKeyId (gen i) (w.registry.pos i) = none) := by
    have hi := hsettled i
    cases hpos : w.registry.pos i with
    | start => exact ⟨rfl, rfl, fun _ => rfl⟩
    | done record outcome =>
      rw [hpos] at hi
      cases outcome with
      | error e => exact ⟨rfl, rfl, fun _ => rfl⟩
      | ok result =>
        refine ⟨rfl, rfl, fun hnot => ?_⟩
        rw [hnot] at hi
        cases hi
    | _ =>
      rw [hpos] at hi
      cases hi
  rw [Agreed, activeBlockAuthKey]
  cases htop : w.latest with
  | none =>
    have hheld : w.held = none := by_contra fun hne => h.heldKnown hne htop
    have hrows : activeKeys w.registry.store relayId = [] := by
      refine List.eq_nil_iff_forall_not_mem.mpr fun e he => ?_
      obtain ⟨top, hsome, -⟩ := h.rows e he
      rw [htop] at hsome
      cases hsome
    rw [hheld, hrows]
    rfl
  | some top =>
    have hrow : top ∈ activeKeys w.registry.store relayId := by
      rcases h.present top htop with hrow | ⟨i, hi⟩ | ⟨i, hi⟩
      · exact hrow
      · rw [(hidle i).1] at hi
        cases hi
      · rw [(hidle i).2.1] at hi
        cases hi
    have hheld : w.held.map (·.blockAuthKeyId) = some top.1 := by
      rcases h.delivered top htop with hheld | ⟨i, hi, hcarried⟩
      · exact hheld
      · rw [(hidle i).2.2 hi] at hcarried
        cases hcarried
    have hnewest : newest (activeKeys w.registry.store relayId) = some top := by
      refine newest_eq_some hrow fun e he => ?_
      obtain ⟨other, hother, he⟩ := h.rows e he
      rw [htop] at hother
      cases hother
      exact he
    obtain ⟨store, hstore, hid⟩ := Option.map_eq_some_iff.mp hheld
    have hderive := h.derived store hstore
    rw [hid] at hderive
    rw [hnewest, Option.bind_some, hderive, hstore, ← hid]
    rfl

omit [DecidableEq ι] in
theorem Agreed.codesVerify (h : Agreed env relayId w) : CodesVerify env relayId w := by
  intro r token blockHash checked reply s' clock expiry hrelay hreply hparse hlive
  subst hrelay
  have hread : getActiveBlockAuthKey r.relayId w.registry.store =
      (.ok ((newest (activeKeys w.registry.store r.relayId)).map Prod.fst), w.registry.store) := rfl
  rw [Py.bind_ok hread] at hreply
  rw [Agreed, activeBlockAuthKey] at h
  cases hnewest : newest (activeKeys w.registry.store r.relayId) with
  | none =>
    rw [hnewest] at hreply
    cases hreply
  | some top =>
    obtain ⟨keyBytes, hderive⟩ := deriveBlockAuthKey_ok env r.relayId top.1
    have hderived : Py.ofExcept (deriveBlockAuthKey env r.relayId top.1) w.registry.store =
        (.ok keyBytes, w.registry.store) := by
      rw [hderive]
      rfl
    rw [hnewest, Option.map_some, overwriteReply, Py.bind_ok hderived] at hreply
    cases hreply
    rw [hnewest, Option.bind_some, hderive] at h
    refine ⟨_, h, rfl, ?_⟩
    have hcanonical : rstripSlash (rstripSlash checked.1) = rstripSlash checked.1 :=
      List.rdropWhile_idempotent _ _
    rw [verifyBlockAuthMac, hparse, okBind, if_neg (Int.not_le.mpr hlive)]
    simp only [computeBlockAuthMac, buildBlockAuthCanonical, hcanonical, lower_toHex, beq_self_eq_true]
    rfl

end protocol

/-- Along a run in order the relay holds the registry's active key whenever the system settles, and
the codes issued under it pass the relay's check. -/
theorem agreed_of_settled {ι : Type} [DecidableEq ι] {env : Env}
    {decryptSecretBytes : Bytes → Except PyExn Bytes} {relayId pem : Str}
    {request : ι → HeartbeatRequest} {gen : ι → Generated} {s : Db} {events : List (Event ι)}
    (hkeys : RelayKeyPair env decryptSecretBytes relayId pem)
    (hsent : ∀ i, SentBy env decryptSecretBytes relayId pem (request i) (gen i))
    (hnewest : ∀ e ∈ activeKeys s relayId, NotLater (newest (activeKeys s relayId)) e)
    (hin : Along (next env decryptSecretBytes request gen)
      (fun w e => inOrder relayId gen w e = true) (start env relayId s) events)
    (hsettled : Settled (exec (next env decryptSecretBytes request gen) (start env relayId s) events)) :
    Agreed env relayId (exec (next env decryptSecretBytes request gen) (start env relayId s) events) ∧
    CodesVerify env relayId
      (exec (next env decryptSecretBytes request gen) (start env relayId s) events) := by
  have hstep (w : World ι) (e : Event ι) (h : Tracked env decryptSecretBytes relayId pem gen w) :
      inOrder relayId gen w e = true → Tracked env decryptSecretBytes relayId pem gen
        (next env decryptSecretBytes request gen w e) := tracked_next hkeys hsent h e
  have h := (exec_invariant hstep (tracked_start hnewest) hin).agreed hsettled
  exact ⟨h, h.codesVerify⟩

/-- The sample relay before it has any keys. -/
def freshDb : Db := { sampleDb with registryKeys := Table.empty, blockAuthKeys := Table.empty }

def bootstrapRequest : HeartbeatRequest :=
  { relayId := sampleRelay, relayBaseUrl := sampleUrl, report := sampleReport, registryApiKeyId := none,
    registryApiKey := none, relayPublicKeyPem := some (ascii "PEM A") }

/-- Two bootstraps, one after the other; neither response has arrived. -/
def bothBootstrap : List (Event Bool) :=
  List.replicate 6 (.turn true) ++ [.clock 2001] ++ List.replicate 6 (.turn false)

def afterDeliveries (first second : Bool) : World Bool :=
  exec (next sampleEnv .ok (fun _ => bootstrapRequest) twoHeartbeats) (start sampleEnv sampleRelay freshDb)
    (bothBootstrap ++ [.deliver first, .deliver second])

theorem agreed_of_settled_bootstraps :
    Settled (afterDeliveries true false) ∧ Agreed sampleEnv sampleRelay (afterDeliveries true false) ∧
    CodesVerify sampleEnv sampleRelay (afterDeliveries true false) := by
  have hsettled : Settled (afterDeliveries true false) := by decide +kernel
  have hkeys : RelayKeyPair sampleEnv .ok sampleRelay (ascii "PEM A") :=
    ⟨by decide, fun _ keyBytes _ => ⟨keyBytes, rfl, rfl⟩⟩
  exact ⟨hsettled, agreed_of_settled hkeys (fun _ => ⟨rfl, rfl, ⟨_, rfl, rfl⟩⟩) (fun e he => by cases he)
    (by decide +kernel) hsettled⟩

/-- The first response comes last: the relay holds the older key. -/
theorem delivered_in_reverse :
    Settled (afterDeliveries false true) ∧
    (afterDeliveries false true).held.map (·.blockAuthKeyId) = some (ascii "auth-2") ∧
    (activeBlockAuthKey sampleEnv sampleRelay (afterDeliveries false true).registry.store).map
      (·.blockAuthKeyId) = some (ascii "auth-4") ∧
    ¬ Agreed sampleEnv sampleRelay (afterDeliveries false true) := by
  have hheld : (afterDeliveries false true).held.map (·.blockAuthKeyId) = some (ascii "auth-2") := by
    decide +kernel
  have hactive : (activeBlockAuthKey sampleEnv sampleRelay
      (afterDeliveries false true).registry.store).map (·.blockAuthKeyId) = some (ascii "auth-4") := by
    decide +kernel
  refine ⟨by decide +kernel, hheld, hactive, fun h => ?_⟩
  rw [Agreed] at h
  rw [h, hactive] at hheld
  revert hheld
  decide

end TwelveC.Registry.KeyAgreement
