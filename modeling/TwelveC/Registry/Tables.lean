import TwelveC.Registry.Scheduling
import TwelveC.Lib.Table

/-!
# The registry's tables

The allowlist, the relay states, both kinds of keys and the placements, with the
statements that the repository runs on them. A time is an instant in
microseconds. The registration requests and the audit tables are left out:
nothing here reads them.
-/

namespace TwelveC.Registry

open Lib Relay.BlockAuth Scheduling

/-- A row of `registry_allowlist`, under its `relay_id`. -/
structure AllowlistRow where
  relayBaseUrl : Option Str
  addedAt : Int
  enabled : Bool
  deriving DecidableEq, Repr

/-- A row of `relay_states`, under its `relay_id`. -/
structure RelayStateRow where
  relayBaseUrl : Str
  status : Str
  storedBlocks : Nat
  maxBlocks : Nat
  storageRate : Rat
  lastHeartbeatAt : Int
  blockMaxAgeSeconds : Int
  blockSweepIntervalSeconds : Int
  deriving DecidableEq, Repr

/-- A row of `relay_registry_keys`, under its `relay_id` and `key_id`. -/
structure RegistryKeyRow where
  keySecretHash : Str
  remainingUses : Int
  relayPublicKeyPem : Option Str
  createdAt : Int
  deriving DecidableEq, Repr

/-- A row of `relay_block_auth_keys`, under its `relay_id` and `key_id`. -/
structure BlockAuthKeyRow where
  status : Str
  createdAt : Int
  deriving DecidableEq, Repr

/-- A row of `token_relay_placements`, under its `token` and `relay_id`. -/
structure PlacementRow where
  registeredRelayBaseUrl : Str
  role : Role
  blockHash : Str
  expiryAt : Int
  updatedAt : Int
  deriving DecidableEq, Repr

/-- `now` is what `utc_now` reads. -/
structure Db where
  allowlist : Table Str AllowlistRow
  relayStates : Table Str RelayStateRow
  registryKeys : Table (Str × Str) RegistryKeyRow
  blockAuthKeys : Table (Str × Str) BlockAuthKeyRow
  placements : Table (Str × Str) PlacementRow
  now : Int
  deriving DecidableEq, Repr

/-- `timedelta(seconds=…)` -/
def seconds (n : Int) : Int := n * 1000000

/-- A text, unless it is one that Python takes for false. -/
def truthy (text : Option Str) : Option Str := text.filter (· ≠ [])

/-- The code points that `str.isspace` accepts, in UTF-8. -/
def spaces : List Str :=
  [[9], [10], [11], [12], [13], [28], [29], [30], [31], [32], [0xC2, 0x85], [0xC2, 0xA0],
    [0xE1, 0x9A, 0x80], [0xE2, 0x80, 0xA8], [0xE2, 0x80, 0xA9], [0xE2, 0x80, 0xAF],
    [0xE2, 0x81, 0x9F], [0xE3, 0x80, 0x80]] ++
  (List.range 11).map fun k => [0xE2, 0x80, 0x80 + UInt8.ofNat k]

/-- `text` without the leading code points of `stripped`; each removal shortens it. -/
def stripFront (stripped : List Str) : Nat → Str → Str
  | 0, text => text
  | fuel + 1, text =>
    match stripped.find? fun c => text.take c.length == c with
    | some c => stripFront stripped fuel (text.drop c.length)
    | none => text

/-- `str.strip()` -/
def strip (text : Str) : Str :=
  let front := stripFront spaces text.length text
  (stripFront (spaces.map List.reverse) front.length front.reverse).reverse

example : strip (ascii " \thttp://a.test \n") = ascii "http://a.test" := by decide

namespace RegistryRepository

/-- `_row_to_allowlist_record` -/
def rowToAllowlistRecord (row : AllowlistRow) : AllowlistRow :=
  { row with relayBaseUrl := (truthy row.relayBaseUrl).map rstripSlash }

@[simp] theorem rowToAllowlistRecord_enabled (row : AllowlistRow) :
    (rowToAllowlistRecord row).enabled = row.enabled := rfl

def getAllowlistRecord (relayId : Str) : Py Db (Option AllowlistRow) :=
  Py.read fun s => (s.allowlist.find relayId).map rowToAllowlistRecord

def isAllowlisted (relayId : Str) : Py Db Bool :=
  Py.read fun s => (s.allowlist.find relayId).any (·.enabled)

def setAllowlistRow (relayId : Str) (relayBaseUrl : Option Str) (enabled : Bool) (s : Db) : Db :=
  { s with allowlist := s.allowlist.mapValues fun key row =>
      if key = relayId then { row with relayBaseUrl, enabled } else row }

/-- `none` stands for `_PATCH_UNSET` and for an `enabled` that is not given. -/
def patchAllowlistEntry (relayId : Str) (relayBaseUrl : Option (Option Str))
    (enabled : Option Bool) : Py Db (Option AllowlistRow) := do
  let existing ← getAllowlistRecord relayId
  match existing with
  | none => pure none
  | some record =>
    let nextUrl := match relayBaseUrl with
      | none => record.relayBaseUrl
      | some url => url.map rstripSlash
    Py.modify (setAllowlistRow relayId nextUrl (enabled.getD record.enabled))
    getAllowlistRecord relayId

/-- The upsert leaves `added_at` alone. -/
def insertAllowlistRow (relayId : Str) (relayBaseUrl : Option Str) (enabled : Bool) (s : Db) : Db :=
  let addedAt := ((s.allowlist.find relayId).map (·.addedAt)).getD s.now
  { s with allowlist := s.allowlist.insert relayId { relayBaseUrl, addedAt, enabled } }

def upsertAllowlistEntry (relayId : Str) (relayBaseUrl : Option Str) (enabled : Bool) :
    Py Db AllowlistRow := do
  Py.modify (insertAllowlistRow relayId ((truthy relayBaseUrl).map rstripSlash) enabled)
  let record ← getAllowlistRecord relayId
  match record with
  | some row => pure row
  | none => Py.raise (.runtimeError "failed to upsert allowlist entry")

/-- The five deletions of `delete_allowlist_entry`, committed together. -/
def deleteRelayRows (relayId : Str) (s : Db) : Db :=
  { s with
    placements := s.placements.filter fun key _ => key.2 ≠ relayId
    relayStates := s.relayStates.filter fun key _ => key ≠ relayId
    registryKeys := s.registryKeys.filter fun key _ => key.1 ≠ relayId
    blockAuthKeys := s.blockAuthKeys.filter fun key _ => key.1 ≠ relayId
    allowlist := s.allowlist.filter fun key _ => key ≠ relayId }

def deleteAllowlistEntry (relayId : Str) : Py Db Bool := do
  let existing ← getAllowlistRecord relayId
  match existing with
  | none => pure false
  | some _ =>
    Py.modify (deleteRelayRows relayId)
    pure true

/-- What a heartbeat reports of its relay. -/
structure RelayReport where
  status : Str
  storedBlocks : Nat
  maxBlocks : Nat
  storageRate : Rat
  blockMaxAgeSeconds : Int
  blockSweepIntervalSeconds : Int
  deriving DecidableEq, Repr

/-- The row that `upsert_relay_state` writes. -/
def reportedRow (relayBaseUrl : Str) (report : RelayReport) (now : Int) : RelayStateRow :=
  { relayBaseUrl := rstripSlash relayBaseUrl
    status := report.status
    storedBlocks := report.storedBlocks
    maxBlocks := report.maxBlocks
    storageRate := report.storageRate
    lastHeartbeatAt := now
    blockMaxAgeSeconds := report.blockMaxAgeSeconds
    blockSweepIntervalSeconds := report.blockSweepIntervalSeconds }

def setRelayState (relayId relayBaseUrl : Str) (report : RelayReport) (s : Db) : Db :=
  { s with relayStates := s.relayStates.insert relayId (reportedRow relayBaseUrl report s.now) }

def upsertRelayState (relayId relayBaseUrl : Str) (report : RelayReport) : Py Db Unit :=
  Py.modify (setRelayState relayId relayBaseUrl report)

/-- Current public URL for a relay: allowlist first, then `relay_states`. -/
def canonicalRelayBaseUrl (s : Db) (relayId : Str) : Option Str :=
  let listed := ((s.allowlist.find relayId).map rowToAllowlistRecord).bind fun record =>
    if record.enabled then record.relayBaseUrl.filter (fun url => strip url ≠ []) else none
  match listed with
  | some url => some (rstripSlash url)
  | none => truthy ((s.relayStates.find relayId).map fun row => rstripSlash (strip row.relayBaseUrl))

def getCanonicalRelayBaseUrl (relayId : Str) : Py Db (Option Str) :=
  Py.read fun s => canonicalRelayBaseUrl s relayId

structure RegistryApiKeyRecord where
  keyId : Str
  remainingUses : Int
  relayPublicKeyPem : Option Str
  deriving DecidableEq, Repr

section

variable (C : Primitives)

def hashRegistryApiKey (registryApiKey : Str) : Str := Crypto.toHex (C.sha256 registryApiKey)

/-- The row that a key id and a key select. -/
def selectRegistryKey (s : Db) (relayId keyId registryApiKey : Str) : Option RegistryKeyRow :=
  (s.registryKeys.find (relayId, keyId)).filter
    (·.keySecretHash = hashRegistryApiKey C registryApiKey)

def apiKeyRecord (keyId : Str) (row : RegistryKeyRow) : RegistryApiKeyRecord :=
  { keyId, remainingUses := row.remainingUses, relayPublicKeyPem := truthy row.relayPublicKeyPem }

/-- `verify_registry_api_key` with `require_remaining`. -/
def verifyRegistryApiKey (relayId keyId registryApiKey : Str) :
    Py Db (Option RegistryApiKeyRecord) :=
  Py.read fun s => ((selectRegistryKey C s relayId keyId registryApiKey).filter
    (0 < ·.remainingUses)).map (apiKeyRecord keyId)

def spendUse (relayId keyId : Str) (s : Db) : Db :=
  { s with registryKeys := s.registryKeys.mapValues fun key row =>
      if key = (relayId, keyId) ∧ 0 < row.remainingUses then
        { row with remainingUses := row.remainingUses - 1 }
      else row }

/-- The `UPDATE` of `consume_registry_api_key_use`; its value is the row count. -/
def decrementUses (relayId keyId : Str) : Py Db Nat := fun s =>
  (.ok (if (s.registryKeys.find (relayId, keyId)).any (0 < ·.remainingUses) then 1 else 0),
    spendUse relayId keyId s)

/-- The `SELECT` after it. -/
def selectRemainingUses (relayId keyId : Str) : Py Db Int :=
  Py.read fun s => ((s.registryKeys.find (relayId, keyId)).map (·.remainingUses)).getD 0

def consumeRegistryApiKeyUse (relayId keyId : Str) : Py Db Int := do
  let rowcount ← decrementUses relayId keyId
  if rowcount = 0 then pure 0 else selectRemainingUses relayId keyId

/-- A plain `INSERT`: a present key id is an integrity error. -/
def createRegistryApiKey (relayId : Str) (relayPublicKeyPem : Option Str) (uses : Int)
    (keyId registryApiKey : Str) : Py Db Unit := fun s =>
  match s.registryKeys.add (relayId, keyId)
      { keySecretHash := hashRegistryApiKey C registryApiKey, remainingUses := uses,
        relayPublicKeyPem, createdAt := s.now } with
  | some registryKeys => (.ok (), { s with registryKeys })
  | none => (.error .integrityError, s)

end

def setRelayPublicKey (relayId publicKeyPem : Str) (s : Db) : Db :=
  { s with registryKeys := s.registryKeys.mapValues fun key row =>
      if key.1 = relayId then { row with relayPublicKeyPem := some publicKeyPem } else row }

def updateRelayPublicKey (relayId publicKeyPem : Str) : Py Db Unit :=
  Py.modify (setRelayPublicKey relayId publicKeyPem)

def activeStatus : Str := ascii "active"

/-- The key id with the latest `created_at`. Of equal times the first row is taken; SQL leaves that
open. -/
def newest : List (Str × Int) → Option (Str × Int)
  | [] => none
  | e :: rest =>
    match newest rest with
    | some best => if e.2 < best.2 then some best else some e
    | none => some e

theorem newest_mem {keys : List (Str × Int)} {best : Str × Int} (h : newest keys = some best) :
    best ∈ keys := by
  induction keys generalizing best with
  | nil => cases h
  | cons e rest ih =>
    rw [newest] at h
    cases hrest : newest rest with
    | none =>
      rw [hrest] at h
      cases h
      exact List.mem_cons_self
    | some other =>
      rw [hrest] at h
      dsimp only at h
      split at h
      · cases h
        exact List.mem_cons_of_mem _ (ih hrest)
      · cases h
        exact List.mem_cons_self

theorem newest_eq_none {keys : List (Str × Int)} : newest keys = none ↔ keys = [] := by
  cases keys with
  | nil => simp [newest]
  | cons e rest =>
    simp only [newest, reduceCtorEq, iff_false]
    split
    · split <;> exact Option.some_ne_none _
    · exact Option.some_ne_none _

/-- A key that is later than all others. -/
theorem newest_eq_some {keys : List (Str × Int)} {top : Str × Int} (hmem : top ∈ keys)
    (htop : ∀ e ∈ keys, e = top ∨ e.2 < top.2) : newest keys = some top := by
  induction keys with
  | nil => cases hmem
  | cons e rest ih =>
    rw [newest]
    cases hrest : newest rest with
    | none =>
      rw [newest_eq_none.mp hrest, List.mem_singleton] at hmem
      rw [hmem]
    | some best =>
      have hbest := htop best (List.mem_cons_of_mem _ (newest_mem hrest))
      have he := htop e List.mem_cons_self
      dsimp only
      rcases List.mem_cons.mp hmem with rfl | hmem
      · rcases hbest with rfl | hlt
        · rw [ite_self]
        · rw [if_neg (Int.not_lt.mpr (Int.le_of_lt hlt))]
      · have hih := ih hmem fun e he => htop e (List.mem_cons_of_mem _ he)
        rw [hrest] at hih
        cases hih
        rcases he with rfl | hlt
        · rw [ite_self]
        · rw [if_pos hlt]

def activeKeys (s : Db) (relayId : Str) : List (Str × Int) :=
  s.blockAuthKeys.entries.filterMap fun e =>
    if e.1.1 = relayId ∧ e.2.status = activeStatus then some (e.1.2, e.2.createdAt) else none

theorem mem_activeKeys {s : Db} {relayId : Str} {e : Str × Int} :
    e ∈ activeKeys s relayId ↔
      s.blockAuthKeys.find (relayId, e.1) = some { status := activeStatus, createdAt := e.2 } := by
  rw [activeKeys, List.mem_filterMap, Table.find_eq_some]
  constructor
  · rintro ⟨⟨⟨owner, keyId⟩, status, createdAt⟩, hm, h⟩
    split at h
    case isTrue heq =>
      cases h
      obtain ⟨rfl, rfl⟩ := heq
      exact hm
    case isFalse => cases h
  · intro hm
    exact ⟨_, hm, if_pos ⟨rfl, rfl⟩⟩

def getActiveBlockAuthKey (relayId : Str) : Py Db (Option Str) :=
  Py.read fun s => (newest (activeKeys s relayId)).map Prod.fst

def insertBlockAuthKey (relayId keyId : Str) (createdAt : Int) : Py Db Unit := fun s =>
  match s.blockAuthKeys.add (relayId, keyId) { status := activeStatus, createdAt } with
  | some blockAuthKeys => (.ok (), { s with blockAuthKeys })
  | none => (.error .integrityError, s)

def clearBlockAuthKeys (relayId : Str) (s : Db) : Db :=
  { s with blockAuthKeys := s.blockAuthKeys.filter fun key _ => key.1 ≠ relayId }

def getTokenPlacement (token relayId : Str) : Py Db (Option PlacementRow) :=
  Py.read fun s => (s.placements.find (token, relayId)).map fun row =>
    { row with registeredRelayBaseUrl := rstripSlash row.registeredRelayBaseUrl }

def isPlacementLive (placement : PlacementRow) : Py Db Bool :=
  Py.read fun s => ¬ placement.expiryAt ≤ s.now

end RegistryRepository
end TwelveC.Registry
