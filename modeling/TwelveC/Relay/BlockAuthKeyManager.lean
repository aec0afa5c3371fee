import TwelveC.Registry.Service

/-!
# The relay's block auth key

What the heartbeat route puts into its response, and what the relay's key
manager takes from it. Base64 around keys is left out.
-/

namespace TwelveC.Relay.BlockAuthKeyManager

open Registry

/-- A field is `none` where the payload has none, or not one of the type that the manager checks. -/
structure HeartbeatPayload where
  bootstrapBlockAuthKey : Option Bytes
  bootstrapBlockAuthKeyId : Option Str
  nextBlockAuthKey : Option (Option Bytes × Option Str)
  deriving DecidableEq, Repr

/-- The route `heartbeat`: the fields about the block auth key. -/
def heartbeatPayload (result : HeartbeatResult) : HeartbeatPayload :=
  { bootstrapBlockAuthKey := result.bootstrapBlockAuthKey.map Prod.snd
    bootstrapBlockAuthKeyId := result.bootstrapBlockAuthKey.map Prod.fst
    nextBlockAuthKey := result.nextBlockAuthKey.map fun key => (some key.2, some key.1) }

/-- `updated_at` is left out: nothing reads it. -/
structure BlockAuthKeyStore where
  blockAuthKeyId : Str
  blockAuthKey : Bytes
  deriving DecidableEq, Repr

variable (decryptSecretBytes : Bytes → Except PyExn Bytes)

def applyBootstrap : Option Bytes → Option Str → Py (Option BlockAuthKeyStore) Unit
  | some key, some keyId => Py.modify fun _ => some ⟨keyId, key⟩
  | _, _ => pure ()

def applyNext : Option (Option Bytes × Option Str) → Py (Option BlockAuthKeyStore) Unit
  | some (some encrypted, some keyId) => do
    let keyBytes ← Py.ofExcept (decryptSecretBytes encrypted)
    Py.modify fun _ => some ⟨keyId, keyBytes⟩
  | some _ => Py.raise (.valueError "invalid nextBlockAuthKey payload")
  | none => pure ()

def applyHeartbeatResponse (payload : HeartbeatPayload) : Py (Option BlockAuthKeyStore) Unit := do
  applyBootstrap payload.bootstrapBlockAuthKey payload.bootstrapBlockAuthKeyId
  applyNext decryptSecretBytes payload.nextBlockAuthKey

/-- What the manager holds after it has applied a response. -/
def heldAfter (result : HeartbeatResult) (held : Option BlockAuthKeyStore) :
    Option BlockAuthKeyStore :=
  (applyHeartbeatResponse decryptSecretBytes (heartbeatPayload result) held).2

/-- The key id that counts: a next key comes after a bootstrapped one. -/
def lastKeyId (result : HeartbeatResult) : Option Str :=
  (result.nextBlockAuthKey.or result.bootstrapBlockAuthKey).map Prod.fst

variable {decryptSecretBytes} {result : HeartbeatResult}

theorem heldAfter_next {keyId : Str} {encrypted keyBytes : Bytes}
    (hnext : result.nextBlockAuthKey = some (keyId, encrypted))
    (hdecrypt : decryptSecretBytes encrypted = .ok keyBytes) (held : Option BlockAuthKeyStore) :
    heldAfter decryptSecretBytes result held = some ⟨keyId, keyBytes⟩ := by
  have hboot : ∀ key keyId, ∃ held', applyBootstrap key keyId held = (.ok (), held') := by
    intro key keyId
    cases key <;> cases keyId <;> exact ⟨_, rfl⟩
  obtain ⟨held', h⟩ := hboot (heartbeatPayload result).bootstrapBlockAuthKey
    (heartbeatPayload result).bootstrapBlockAuthKeyId
  have hnext' : (heartbeatPayload result).nextBlockAuthKey = some (some encrypted, some keyId) := by
    rw [heartbeatPayload, hnext]
    rfl
  rw [heldAfter, applyHeartbeatResponse, Py.bind_ok h, hnext', applyNext, hdecrypt]
  rfl

theorem heldAfter_bootstrap (hnext : result.nextBlockAuthKey = none) {keyId : Str} {keyBytes : Bytes}
    (hboot : result.bootstrapBlockAuthKey = some (keyId, keyBytes)) (held : Option BlockAuthKeyStore) :
    heldAfter decryptSecretBytes result held = some ⟨keyId, keyBytes⟩ := by
  rw [heldAfter, applyHeartbeatResponse, heartbeatPayload, hnext, hboot]
  rfl

theorem heldAfter_none (h : lastKeyId result = none) (held : Option BlockAuthKeyStore) :
    heldAfter decryptSecretBytes result held = held := by
  rw [lastKeyId, Option.map_eq_none_iff, Option.or_eq_none_iff] at h
  rw [heldAfter, applyHeartbeatResponse, heartbeatPayload, h.1, h.2]
  rfl

end TwelveC.Relay.BlockAuthKeyManager
