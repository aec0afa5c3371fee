import TwelveC.Relay.BlockStore
import TwelveC.Relay.BlockAuth

/-!
# The relay's block service

`put_block` and `get_block`, run alone. What lies outside the two stores is a
`Calls` value: how the registry answers, whether a disk or database operation
fails. A global name is looked up in the module's namespace when the call
reaches it.
-/

namespace TwelveC.Relay.BlockService

open Lib BlockAuth

structure Config where
  maxBodyBytes : Nat
  maxBlocks : Nat
  publicBaseUrl : Str
  deriving DecidableEq, Repr

structure VerifyOverwriteResult where
  blockHash : Str
  blockAuthKeyId : Str
  blockAuthMac : Str
  blockAuthAlgorithm : Str
  expiryAt : Str
  deriving DecidableEq, Repr

structure BlockAuthKeyCredentials where
  blockAuthKeyId : Str
  blockAuthKey : Bytes
  deriving DecidableEq, Repr

/-- What one call meets outside of the stores. `rowWrite` is a database failure at the insert or the
update; `rollbackWrite` the write that the rollback of an overwrite makes. -/
structure Calls where
  verifyOverwrite : Except PyExn VerifyOverwriteResult
  credentials : Except PyExn BlockAuthKeyCredentials
  relayId : Option Str
  write : WriteOutcome
  rowWrite : Option PyExn
  register : Except PyExn Unit
  rollbackWrite : WriteOutcome

/-- The global names of `blocks.py`: its imports and its classes. -/
def moduleNames : List String :=
  ["annotations", "dataclass", "datetime", "timedelta", "timezone", "httpx", "RelayIdentityManager",
    "BlockAuthKeyManager", "RelayServerConfig", "BlockRepository", "compute_block_hash",
    "DiskBlockStore", "RegistryClient", "BlockStoreError", "StorageStats", "BlockSweepResult",
    "BlockService"]

variable (names : List String) (C : Primitives) (clock : Clock) (config : Config) (calls : Calls)

/-- A global name as an expression. -/
def lookupName (name : String) : Except PyExn Unit :=
  if name ∈ names then .ok () else .error (.nameError name)

/-- The handlers around the registry's `verify_overwrite`. -/
def rejected : PyExn → PyExn
  | .httpStatus statusCode text =>
    if statusCode ∈ [403, 404, 409] then .service "overwrite verification rejected by registry" 409
    else .service ("registry verify-overwrite failed: " ++ text) 503
  | e => .service ("registry verify-overwrite failed: " ++ e.text) 503

/-- `except RuntimeError` around the key manager. -/
def notReady : PyExn → PyExn
  | .runtimeError _ => .service "blockAuthKey not ready for overwrite verification" 503
  | e => e

def failIf (c : Prop) [Decidable c] (message : String) (statusCode : Nat) : Except PyExn Unit :=
  if c then .error (.service message statusCode) else .ok ()

def verifyOverwrite (token blockHash : Str) : Except PyExn Unit := do
  let result ← calls.verifyOverwrite.mapError rejected
  failIf (result.blockHash ≠ blockHash) "overwrite verification failed: block hash mismatch" 409
  failIf (result.blockAuthAlgorithm ≠ blockAuthAlgorithm)
    "overwrite verification failed: unsupported block auth algorithm" 409
  let credentials ← calls.credentials.mapError notReady
  failIf (credentials.blockAuthKeyId ≠ result.blockAuthKeyId)
    "overwrite verification failed: block auth key mismatch" 409
  let assignedRelayId := calls.relayId.getD []
  failIf (assignedRelayId = []) "relay id not assigned by registry" 503
  lookupName names "verify_block_auth_mac"
  let valid ← verifyBlockAuthMac C clock credentials.blockAuthKey
    { blockAuthKeyId := result.blockAuthKeyId, token, relayId := assignedRelayId,
      relayBaseUrl := config.publicBaseUrl, blockHash, expiryAt := result.expiryAt }
    result.blockAuthMac
  failIf (valid = false) "overwrite verification failed: block auth mac invalid or expired" 409

/-- The end of both handlers: an `httpx.HTTPError` becomes a 503, anything else goes on. -/
def reraise (exc : PyExn) : PyExn :=
  if exc.isHttpError then .service ("registry register failed: " ++ exc.text) 503 else exc

/-- `if previous is not None`, when the row names a path. -/
def restore (token diskPath : Str) : Py Store Unit := do
  if diskPath ≠ [] then
    let previous ← DiskBlockStore.read diskPath
    match previous with
    | some bytes => DiskBlockStore.write token bytes calls.rollbackWrite
    | none => pure ()
  else pure ()

/-- The branch of `put_block` for a token with a row, once the overwrite is verified. -/
def overwrite (token : Str) (data : Bytes) (blockHash : Str) (existing : BlockRow) :
    Py Store Unit :=
  Py.tryExcept
    (do
      DiskBlockStore.write token data calls.write
      BlockRepository.update token blockHash data.length calls.rowWrite
      Py.ofExcept calls.register)
    (fun exc => do
      restore calls token existing.diskPath
      Py.raise (reraise exc))

/-- The branch for a token without a row. -/
def create (token : Str) (data : Bytes) (blockHash : Str) : Py Store Unit := do
  let stored ← BlockRepository.count
  Py.raiseIf (config.maxBlocks ≤ stored) (.service "relay storage capacity reached" 507)
  let relativePath := DiskBlockStore.relativeDiskPath token
  Py.tryExcept
    (do
      DiskBlockStore.write token data calls.write
      BlockRepository.insert token relativePath blockHash data.length calls.rowWrite
      Py.ofExcept calls.register)
    (fun exc => do
      DiskBlockStore.remove relativePath
      BlockRepository.delete token
      Py.raise (reraise exc))

/-- `put_block`, with the verification of an overwrite as a parameter. -/
def putBlockWith (verify : Str → Str → Except PyExn Unit) (token : Str) (data : Bytes) :
    Py Store Unit := do
  Py.raiseIf (data.length = 0) (.service "empty body" 400)
  Py.raiseIf (config.maxBodyBytes < data.length)
    (.service ("body exceeds maxBodyBytes (" ++ toString config.maxBodyBytes ++ ")") 413)
  let blockHash := BlockRepository.computeBlockHash C data
  let existing ← BlockRepository.get token
  match existing with
  | some row =>
    Py.ofExcept (verify token blockHash)
    overwrite calls token data blockHash row
  | none => create config calls token data blockHash

def putBlock (token : Str) (data : Bytes) : Py Store Unit :=
  putBlockWith C config calls (verifyOverwrite names C clock config calls) token data

def getBlock (token : Str) : Py Store Bytes := do
  let record ← BlockRepository.get token
  match record with
  | none => Py.raise (.service "block not found" 404)
  | some row =>
    let data ← DiskBlockStore.read row.diskPath
    match data with
    | none =>
      BlockRepository.delete token
      Py.raise (.service "block not found" 404)
    | some bytes => pure bytes

end TwelveC.Relay.BlockService
