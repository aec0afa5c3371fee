import TwelveC.Registry.Tables
import Mathlib.Data.FinEnum

/-!
# The calls that relays make

`heartbeat`, `register` and `verify-overwrite`, each from its route down to the
tables. Every write is a commit of its own: what a call wrote before it raised
stays written. Base64 around keys is left out.
-/

namespace TwelveC.Registry

open Lib Relay.BlockAuth Scheduling RegistryRepository

inductive HeartbeatUrlPolicy where
  | syncIfUnset
  | strict
  deriving DecidableEq, Repr

/-- `hkdfSha256` is HKDF with SHA-256. `encryptForRelay` encrypts a secret to the RSA key of a PEM; it
raises on a PEM that holds none. `isoformat` is the text of an instant. The last two fields are checks of
`from_dict`. -/
structure Env where
  C : Primitives
  hkdfSha256 (length : Nat) (salt info keyMaterial : Bytes) : Bytes
  encryptForRelay : Str → Bytes → Except PyExn Bytes
  isoformat : Int → Str
  tokenTtlSeconds : Int
  registryApiKeyInitialUses : Int
  blockAuthMasterKey : Bytes
  relayHeartbeatStaleSeconds : Int
  heartbeatUrlPolicy : HeartbeatUrlPolicy
  placementPolicy : PlacementPolicy
  initialUses_pos : 0 < registryApiKeyInitialUses
  masterKey_length : 32 ≤ blockAuthMasterKey.length

/-- What a heartbeat draws from `generate_registry_api_key`, in the order of use. -/
structure Generated where
  keyId : Str
  key : Str
  authKeyId : Str
  nextAuthKeyId : Str
  deriving DecidableEq, Repr

structure HeartbeatRequest where
  relayId : Str
  relayBaseUrl : Str
  report : RelayReport
  registryApiKeyId : Option Str
  registryApiKey : Option Str
  relayPublicKeyPem : Option Str
  deriving DecidableEq, Repr

/-- The body of `register` and of `verify-overwrite`. -/
structure BlockRequest where
  relayId : Str
  relayBaseUrl : Str
  token : Str
  blockHash : Str
  registryApiKeyId : Str
  registryApiKey : Str
  deriving DecidableEq, Repr

structure HeartbeatResult where
  keyRemainingUses : Int
  nextRegistryApiKey : Option (Str × Bytes) := none
  bootstrapRegistryApiKey : Option (Str × Str) := none
  bootstrapBlockAuthKey : Option (Str × Bytes) := none
  nextBlockAuthKey : Option (Str × Bytes) := none
  deriving DecidableEq, Repr

structure VerifyOverwriteResult where
  blockHash : Str
  blockAuthKeyId : Str
  blockAuthMac : Str
  blockAuthAlgorithm : Str
  expiryAt : Str
  deriving DecidableEq, Repr

def httpException (statusCode : Nat) (detail : String) : PyExn := .service detail statusCode

/-- A text in an error message. -/
def display (text : Str) : String := (String.fromUTF8? ⟨text.toArray⟩).getD ""

def blockAuthInfoPrefix : Str := ascii "12C-block-auth-v1:"

def blockAuthKeyBytes : Nat := 32

def deriveBlockAuthKey (env : Env) (relayId keyId : Str) : Except PyExn Bytes :=
  if env.blockAuthMasterKey.length < 32 then
    .error (.valueError "blockAuthMasterKey must be at least 32 bytes")
  else .ok (env.hkdfSha256 blockAuthKeyBytes relayId (blockAuthInfoPrefix ++ keyId) env.blockAuthMasterKey)

theorem deriveBlockAuthKey_ok (env : Env) (relayId keyId : Str) :
    ∃ keyBytes, deriveBlockAuthKey env relayId keyId = .ok keyBytes :=
  ⟨_, if_neg (Nat.not_lt.mpr env.masterKey_length)⟩

def createBlockAuthKey (env : Env) (relayId keyId : Str) : Py Db Bytes := do
  let keyBytes ← Py.ofExcept (deriveBlockAuthKey env relayId keyId)
  let now ← Py.read (·.now)
  insertBlockAuthKey relayId keyId now
  pure keyBytes

/-- The deletion is a commit of its own. -/
def rotateBlockAuthKey (env : Env) (relayId relayPublicKeyPem keyId : Str) :
    Py Db (Str × Bytes) := do
  Py.modify (clearBlockAuthKeys relayId)
  let keyBytes ← createBlockAuthKey env relayId keyId
  let encrypted ← Py.ofExcept (env.encryptForRelay relayPublicKeyPem keyBytes)
  pure (keyId, encrypted)

def rotateRegistryApiKey (env : Env) (relayId relayPublicKeyPem keyId key : Str) :
    Py Db (Str × Bytes) := do
  createRegistryApiKey env.C relayId (some relayPublicKeyPem) env.registryApiKeyInitialUses keyId key
  let encrypted ← Py.ofExcept (env.encryptForRelay relayPublicKeyPem key)
  pure (keyId, encrypted)

def isHex64 (text : Str) : Bool :=
  text.length = 64 ∧ ∀ c ∈ text, (48 ≤ c ∧ c ≤ 57) ∨ (97 ≤ c ∧ c ≤ 102) ∨ (65 ≤ c ∧ c ≤ 70)

/-- `normalize_token` and `normalize_hash`, which differ in their message. -/
def normalizeHex (detail : String) (text : Str) : Except PyExn Str :=
  if isHex64 (lower text) then .ok (lower text) else .error (httpException 400 detail)

def normalizeToken : Str → Except PyExn Str := normalizeHex "invalid token format"
def normalizeHash : Str → Except PyExn Str := normalizeHex "invalid blockHash format"

/-- A normalized text stays as it is. -/
theorem normalizeHex_normalized {detail : String} {text normalized : Str}
    (h : normalizeHex detail text = .ok normalized) :
    normalizeHex detail normalized = .ok normalized := by
  rw [normalizeHex] at h
  split at h
  case isTrue hhex =>
    cases h
    rw [normalizeHex, lower_lower, if_pos hhex]
  case isFalse => cases h

def normalizeRelayBaseUrl (relayBaseUrl : Str) : Except PyExn Str :=
  let value := rstripSlash (strip relayBaseUrl)
  if value = [] then .error (httpException 400 "relayBaseUrl must be non-empty") else .ok value

def notAllowlisted : PyExn := httpException 403 "relay not on allowlist"

variable (env : Env)

def storeRelayBaseUrl (relayId normalized : Str) : Py Db Str := do
  let updated ← patchAllowlistEntry relayId (some (some normalized)) none
  match updated with
  | none => Py.raise notAllowlisted
  | some _ => pure normalized

/-- An allowlist entry without a URL. -/
def adoptRelayBaseUrl (relayId normalized : Str) : Py Db Str := do
  Py.raiseIf (env.heartbeatUrlPolicy = .strict) (httpException 409
    ("relayBaseUrl not configured in allowlist for relay " ++ display relayId))
  storeRelayBaseUrl relayId normalized

def matchRelayBaseUrl (relayId relayBaseUrl normalized : Str) : Py Db Str := do
  let expected := rstripSlash relayBaseUrl
  Py.raiseIf (expected ≠ normalized) (httpException 409
    ("relayBaseUrl mismatch for " ++ display relayId ++ ": allowlist=" ++ display expected ++
      " reported=" ++ display normalized))
  pure normalized

/-- The reported URL against the allowlist; under `sync_if_unset` an unset one is adopted. -/
def resolveReportedRelayBaseUrl (relayId relayBaseUrl : Str) : Py Db Str := do
  let normalized ← Py.ofExcept (normalizeRelayBaseUrl relayBaseUrl)
  let record ← getAllowlistRecord relayId
  match record with
  | none => Py.raise notAllowlisted
  | some record =>
    Py.raiseIf (record.enabled = false) notAllowlisted
    match record.relayBaseUrl with
    | none => adoptRelayBaseUrl env relayId normalized
    | some url => matchRelayBaseUrl relayId url normalized

/-- The verified key, one use of it taken if `consume`. -/
def authenticated (relayId keyId : Str) (consume : Bool) :
    Option RegistryApiKeyRecord → Py Db RegistryApiKeyRecord
  | none => Py.raise (httpException 401 "invalid registryApiKey")
  | some record =>
    if consume then do
      let remaining ← consumeRegistryApiKeyUse relayId keyId
      Py.raiseIf (remaining < 0) (httpException 401 "registryApiKey exhausted")
      pure { record with remainingUses := remaining }
    else pure record

def authenticateRelay (relayId keyId key : Str) (consume : Bool) :
    Py Db RegistryApiKeyRecord := do
  let allowed ← isAllowlisted relayId
  Py.raiseIf (allowed = false) notAllowlisted
  let record ← verifyRegistryApiKey env.C relayId keyId key
  authenticated relayId keyId consume record

def validateRelayPlacement (token relayId relayBaseUrl blockHash : Str) : Py Db PlacementRow := do
  let placement ← getTokenPlacement token relayId
  match placement with
  | none => Py.raise (httpException 404 "token not reserved or expired")
  | some placement =>
    let live ← isPlacementLive placement
    Py.raiseIf (live = false) (httpException 404 "token not reserved or expired")
    let canonical ← getCanonicalRelayBaseUrl relayId
    Py.raiseIf (canonical.map rstripSlash ≠ some (rstripSlash relayBaseUrl))
      (httpException 403 "token bound to another relay")
    Py.raiseIf (placement.blockHash ≠ blockHash)
      (httpException 403 "block hash does not match client registration")
    pure placement

/-- What `register` and `verify_overwrite` share. -/
def checkBlock (r : BlockRequest) (token blockHash : Str) : Py Db (Str × PlacementRow) := do
  let canonicalUrl ← resolveReportedRelayBaseUrl env r.relayId (rstripSlash r.relayBaseUrl)
  let _ ← authenticateRelay env r.relayId r.registryApiKeyId r.registryApiKey false
  let placement ← validateRelayPlacement token r.relayId canonicalUrl blockHash
  pure (canonicalUrl, placement)

def registerBlockFromRelay (r : BlockRequest) : Py Db Unit := do
  let token ← Py.ofExcept (normalizeToken r.token)
  let blockHash ← Py.ofExcept (normalizeHash r.blockHash)
  let _ ← checkBlock env r token blockHash
  pure ()

/-- The end of `verify_overwrite`: the code for this overwrite under the relay's active key. -/
def overwriteReply (r : BlockRequest) (token blockHash : Str) (checked : Str × PlacementRow) :
    Option Str → Py Db VerifyOverwriteResult
  | none => Py.raise (httpException 503 "blockAuthKey not provisioned for relay")
  | some keyId => do
    let keyBytes ← Py.ofExcept (deriveBlockAuthKey env r.relayId keyId)
    let expiryAt := env.isoformat checked.2.expiryAt
    let canonical := buildBlockAuthCanonical
      { blockAuthKeyId := keyId, token, relayId := r.relayId, relayBaseUrl := rstripSlash checked.1,
        blockHash, expiryAt }
    pure { blockHash, blockAuthKeyId := keyId,
           blockAuthMac := computeBlockAuthMac env.C keyBytes canonical,
           blockAuthAlgorithm := blockAuthAlgorithm, expiryAt }

def verifyOverwrite (r : BlockRequest) : Py Db VerifyOverwriteResult := do
  let token ← Py.ofExcept (normalizeToken r.token)
  let blockHash ← Py.ofExcept (normalizeHash r.blockHash)
  let checked ← checkBlock env r token blockHash
  let authKeyId ← getActiveBlockAuthKey r.relayId
  overwriteReply env r token blockHash checked authKeyId

variable (gen : Generated)

/-- A heartbeat without a key: the relay is given both kinds of keys. -/
def bootstrap (relayId : Str) (relayPublicKeyPem : Option Str) : Py Db HeartbeatResult := do
  Py.raiseIf (relayPublicKeyPem = none)
    (httpException 400 "relayPublicKeyPem required for initial registryApiKey bootstrap")
  createRegistryApiKey env.C relayId relayPublicKeyPem env.registryApiKeyInitialUses gen.keyId gen.key
  let authKey ← createBlockAuthKey env relayId gen.authKeyId
  pure { keyRemainingUses := env.registryApiKeyInitialUses,
         bootstrapRegistryApiKey := some (gen.keyId, gen.key),
         bootstrapBlockAuthKey := some (gen.authKeyId, authKey) }

/-- A key for a relay that has no active one. -/
def providedFor (relayId : Str) (publicKey : Option Str) :
    Option Str → Py Db (Option (Str × Bytes))
  | some _ => pure none
  | none => do
    Py.raiseIf (publicKey = none)
      (httpException 400 "relayPublicKeyPem required for blockAuthKey bootstrap")
    let authKey ← createBlockAuthKey env relayId gen.authKeyId
    pure (some (gen.authKeyId, authKey))

def provideBlockAuthKey (relayId : Str) (publicKey : Option Str) : Py Db (Option (Str × Bytes)) := do
  let active ← getActiveBlockAuthKey relayId
  providedFor env gen relayId publicKey active

/-- The last use of a key brings both next keys. -/
def rotate (relayId : Str) (publicKey : Option Str) : Py Db ((Str × Bytes) × (Str × Bytes)) :=
  match publicKey with
  | none => Py.raise (httpException 400 "relayPublicKeyPem required for registryApiKey rotation")
  | some pem => do
    let nextKey ← rotateRegistryApiKey env relayId pem gen.keyId gen.key
    let nextAuthKey ← rotateBlockAuthKey env relayId pem gen.nextAuthKeyId
    pure (nextKey, nextAuthKey)

/-- The end of an accepted heartbeat. -/
def conclude (relayId : Str) (publicKey : Option Str) (record : RegistryApiKeyRecord)
    (authKey : Option (Str × Bytes)) : Py Db HeartbeatResult :=
  if record.remainingUses = 0 then do
    let next ← rotate env gen relayId publicKey
    pure { keyRemainingUses := record.remainingUses, nextRegistryApiKey := some next.1,
           bootstrapBlockAuthKey := authKey, nextBlockAuthKey := some next.2 }
  else pure { keyRemainingUses := record.remainingUses, bootstrapBlockAuthKey := authKey }

/-- A heartbeat whose key was accepted. -/
def answer (relayId : Str) (relayPublicKeyPem : Option Str) (record : RegistryApiKeyRecord) :
    Py Db HeartbeatResult := do
  let publicKey := (truthy relayPublicKeyPem).or record.relayPublicKeyPem
  let authKey ← provideBlockAuthKey env gen relayId publicKey
  conclude env gen relayId publicKey record authKey

def savePublicKey (relayId : Str) (relayPublicKeyPem : Option Str) : Py Db Unit :=
  match truthy relayPublicKeyPem with
  | some pem => updateRelayPublicKey relayId pem
  | none => pure ()

/-- What a heartbeat writes before its key is looked at. -/
def recordHeartbeat (r : HeartbeatRequest) : Py Db Unit := do
  let canonicalUrl ← resolveReportedRelayBaseUrl env r.relayId (rstripSlash r.relayBaseUrl)
  savePublicKey r.relayId r.relayPublicKeyPem
  upsertRelayState r.relayId canonicalUrl r.report

/-- The rest of a heartbeat, with a key or without. -/
def respond (r : HeartbeatRequest) : Py Db HeartbeatResult :=
  match r.registryApiKeyId, r.registryApiKey with
  | some keyId, some key => do
    let record ← authenticateRelay env r.relayId keyId key true
    answer env gen r.relayId r.relayPublicKeyPem record
  | _, _ => bootstrap env gen r.relayId r.relayPublicKeyPem

def processHeartbeat (r : HeartbeatRequest) : Py Db HeartbeatResult := do
  recordHeartbeat env r
  respond env gen r

end TwelveC.Registry
