import TwelveC.Relay.BlockService
import TwelveC.PlainCrypto

/-!
# Overwriting a stored block

The last check of an overwrite calls `verify_block_auth_mac`, a name that the
module never imports: an authorised overwrite ends there. Past that check, the
rollback of a failed overwrite reads the file after the write, so it puts the
new octets back, and it leaves the row alone.
-/

namespace TwelveC.Relay.Overwrite

open Lib BlockAuth BlockService DiskBlockStore BlockRepository PlainCrypto

variable {names : List String} {C : Primitives} {clock : Clock} {config : Config} {calls : Calls}
variable {s : Store} {token : Str} {data bytes : Bytes} {row : BlockRow}

/-- The token has a row and its file. -/
structure Stored (s : Store) (token : Str) (row : BlockRow) (bytes : Bytes) : Prop where
  found : Assoc.find s.rows token = some row
  path : row.diskPath = relativeDiskPath token
  file : s.files (relativeDiskPath token) = some bytes

theorem relativeDiskPath_ne_nil (token : Str) : relativeDiskPath token ≠ [] := by
  intro h
  have hlen := congrArg List.length h
  simp [relativeDiskPath] at hlen

/-- The registry's reply covers this overwrite. -/
structure Authorised (C : Primitives) (clock : Clock) (config : Config) (calls : Calls)
    (token : Str) (data : Bytes) (result : VerifyOverwriteResult)
    (credentials : BlockAuthKeyCredentials) (relayId : Str) : Prop where
  reply : calls.verifyOverwrite = .ok result
  blockHash : result.blockHash = computeBlockHash C data
  algorithm : result.blockAuthAlgorithm = blockAuthAlgorithm
  ready : calls.credentials = .ok credentials
  keyId : credentials.blockAuthKeyId = result.blockAuthKeyId
  identity : calls.relayId = some relayId
  assigned : relayId ≠ []
  mac : verifyBlockAuthMac C clock credentials.blockAuthKey
    { blockAuthKeyId := result.blockAuthKeyId, token, relayId, relayBaseUrl := config.publicBaseUrl,
      blockHash := computeBlockHash C data, expiryAt := result.expiryAt } result.blockAuthMac = .ok true

/-- Every check before the code is passed; then the name decides. -/
theorem verifyOverwrite_authorised {result : VerifyOverwriteResult}
    {credentials : BlockAuthKeyCredentials} {relayId : Str}
    (h : Authorised C clock config calls token data result credentials relayId) :
    verifyOverwrite names C clock config calls token (computeBlockHash C data) =
      lookupName names "verify_block_auth_mac" := by
  rw [verifyOverwrite, h.reply, h.ready, h.identity]
  simp only [Except.mapError, okBind, h.blockHash, h.algorithm, h.keyId, h.assigned, failIf,
    Option.getD_some, ne_eq, not_true_eq_false, if_false]
  cases hname : lookupName names "verify_block_auth_mac" with
  | error e => rfl
  | ok u =>
    rw [okBind, h.mac]
    rfl

theorem lookupName_missing : lookupName moduleNames "verify_block_auth_mac" =
    .error (.nameError "verify_block_auth_mac") := by
  decide

/-- Whatever the registry answers, no overwrite gets past the missing name. -/
theorem verifyOverwrite_raises (token blockHash : Str) :
    ∃ e, verifyOverwrite moduleNames C clock config calls token blockHash = .error e := by
  cases h : verifyOverwrite moduleNames C clock config calls token blockHash with
  | error e => exact ⟨e, rfl⟩
  | ok u =>
    simp only [verifyOverwrite, except_bind_eq_ok] at h
    obtain ⟨_, -, _, -, _, -, _, -, _, -, _, -, _, hname, -⟩ := h
    rw [lookupName_missing] at hname
    cases hname

/-- The sizes that the first two checks let through. -/
def Sized (config : Config) (data : Bytes) : Prop :=
  data.length ≠ 0 ∧ data.length ≤ config.maxBodyBytes

instance (config : Config) (data : Bytes) : Decidable (Sized config data) :=
  inferInstanceAs (Decidable (_ ∧ _))

/-- For a stored token the call is its verification and then the overwrite. -/
theorem putBlockWith_stored {verify : Str → Str → Except PyExn Unit} (hsize : Sized config data)
    (h : Stored s token row bytes) :
    putBlockWith C config calls verify token data s =
      (Py.ofExcept (verify token (computeBlockHash C data)) >>= fun _ =>
        overwrite calls token data (computeBlockHash C data) row) s := by
  have hget : BlockRepository.get token s = (.ok (some row), s) := by
    rw [BlockRepository.get, Py.read_run, h.found]
  rw [putBlockWith, Py.bind_ok (Py.raiseIf_neg hsize.1 _ s),
    Py.bind_ok (Py.raiseIf_neg (not_lt.mpr hsize.2) _ s), Py.bind_ok hget]

/-- The overwrite when nothing fails: new octets, new hash and size. -/
theorem overwrite_done (hw : calls.write = .done) (hrow : calls.rowWrite = none)
    (hreg : calls.register = .ok ()) (blockHash : Str) :
    overwrite calls token data blockHash row s =
      (.ok (), updateRow token blockHash data.length (setFile (relativeDiskPath token) (some data) s))
      := by
  have h₁ : write token data calls.write s =
      (.ok (), setFile (relativeDiskPath token) (some data) s) := by
    rw [hw]
    rfl
  rw [overwrite]
  apply Py.tryExcept_ok
  rw [Py.bind_ok h₁, hrow, hreg]
  rfl

theorem getBlock_stored (h : Stored s token row bytes) : getBlock token s = (.ok bytes, s) := by
  have hget : BlockRepository.get token s = (.ok (some row), s) := by
    rw [BlockRepository.get, Py.read_run, h.found]
  have hread : DiskBlockStore.read row.diskPath s = (.ok (some bytes), s) := by
    rw [DiskBlockStore.read, Py.read_run, h.path, h.file]
  rw [getBlock, Py.bind_ok hget]
  show (DiskBlockStore.read row.diskPath >>= _) s = _
  rw [Py.bind_ok hread]
  rfl

/-- After the call `get_block` returns what was put. -/
def Overwrites (names : List String) (C : Primitives) (clock : Clock) (config : Config)
    (calls : Calls) (s : Store) (token : Str) (data : Bytes) : Prop :=
  (putBlock names C clock config calls token data s).1 = .ok () ∧
    (getBlock token (putBlock names C clock config calls token data s).2).1 = .ok data

/-- Were the name there, every authorised overwrite would succeed. -/
theorem overwrites_iff {result : VerifyOverwriteResult} {credentials : BlockAuthKeyCredentials}
    {relayId : Str} (h : Authorised C clock config calls token data result credentials relayId)
    (hs : Stored s token row bytes) (hsize : Sized config data) (hw : calls.write = .done)
    (hrow : calls.rowWrite = none) (hreg : calls.register = .ok ()) :
    Overwrites names C clock config calls s token data ↔ "verify_block_auth_mac" ∈ names := by
  rw [Overwrites, putBlock, putBlockWith_stored hsize hs, verifyOverwrite_authorised h, lookupName]
  by_cases hname : "verify_block_auth_mac" ∈ names
  · rw [if_pos hname, Py.bind_ok (Py.ofExcept_run _ s), overwrite_done hw hrow hreg]
    have hnew : Stored (updateRow token (computeBlockHash C data) data.length
        (setFile (relativeDiskPath token) (some data) s)) token
        { row with blockHash := computeBlockHash C data, sizeBytes := data.length, updatedAt := s.now }
        data := ⟨find_updateRow (s := setFile _ _ s) hs.found _ _, hs.path, by simp⟩
    rw [getBlock_stored hnew]
    simp [hname]
  · rw [if_neg hname, Py.bind_error (Py.ofExcept_run _ s)]
    simp [hname]

/-- No authorised overwrite succeeds. -/
theorem authorised_overwrite_fails {result : VerifyOverwriteResult}
    {credentials : BlockAuthKeyCredentials} {relayId : Str}
    (h : Authorised C clock config calls token data result credentials relayId)
    (hs : Stored s token row bytes) (hsize : Sized config data) (hw : calls.write = .done)
    (hrow : calls.rowWrite = none) (hreg : calls.register = .ok ()) :
    ¬ Overwrites moduleNames C clock config calls s token data := by
  rw [overwrites_iff h hs hsize hw hrow hreg]
  decide

/-- The file bytes, the hash and the size under a token. -/
structure Unchanged (s s' : Store) (token : Str) : Prop where
  file : s'.files (relativeDiskPath token) = s.files (relativeDiskPath token)
  row : (Assoc.find s'.rows token).map (fun row => (row.blockHash, row.sizeBytes)) =
    (Assoc.find s.rows token).map (fun row => (row.blockHash, row.sizeBytes))

/-- What a write of `data` over `old` leaves in the file. -/
def leftBytes (outcome : WriteOutcome) (old data : Bytes) : Bytes :=
  match outcome with
  | .done => data
  | .failed none => old
  | .failed (some kept) => data.take kept

theorem left_some (outcome : WriteOutcome) (old data : Bytes) :
    outcome.left (some old) data = some (leftBytes outcome old data) := by
  cases outcome with
  | done => rfl
  | failed kept => cases kept <;> rfl

/-- The step of the overwrite that fails, if one does, is the write, the row update or the
registration. -/
def Fails (calls : Calls) : Prop :=
  calls.write.result ≠ .ok () ∨ calls.rowWrite ≠ none ∨ calls.register ≠ .ok ()

/-- The row is updated before a failing registration only. -/
def rowTouched (calls : Calls) : Prop := calls.write = .done ∧ calls.rowWrite = none

/-- The body of the `try`: what is in the stores when it raises. -/
theorem overwrite_body (hf : Fails calls) (hs : Stored s token row bytes) (blockHash : Str) :
    ∃ e s', (do
        DiskBlockStore.write token data calls.write
        BlockRepository.update token blockHash data.length calls.rowWrite
        Py.ofExcept calls.register : Py Store Unit) s = (.error e, s') ∧
      s'.files (relativeDiskPath token) = some (leftBytes calls.write bytes data) ∧
      (rowTouched calls → Assoc.find s'.rows token =
        some { row with blockHash, sizeBytes := data.length, updatedAt := s.now }) ∧
      (¬ rowTouched calls → Assoc.find s'.rows token = some row) := by
  have hw : write token data calls.write s = (calls.write.result,
      setFile (relativeDiskPath token) (some (leftBytes calls.write bytes data)) s) := by
    rw [write, hs.file, left_some]
  generalize hs₁ : setFile (relativeDiskPath token) (some (leftBytes calls.write bytes data)) s = s₁
    at hw
  have hfile : s₁.files (relativeDiskPath token) = some (leftBytes calls.write bytes data) := by
    rw [← hs₁, setFile_files_self]
  have hfound : Assoc.find s₁.rows token = some row := by
    rw [← hs₁, setFile_rows, hs.found]
  cases hout : calls.write with
  | failed kept =>
    have herr : write token data calls.write s = (.error .osError, s₁) := by rw [hw, hout]; rfl
    rw [hout] at herr
    refine ⟨_, s₁, Py.bind_error herr, ?_, ?_, fun _ => hfound⟩
    · rw [hfile, hout]
    · intro ht
      rw [rowTouched, hout] at ht
      cases ht.1
  | done =>
    have hok : write token data calls.write s = (.ok (), s₁) := by rw [hw, hout]; rfl
    rw [hout] at hok hfile
    cases hrow : calls.rowWrite with
    | some e =>
      refine ⟨e, s₁, ?_, hfile, ?_, fun _ => hfound⟩
      · rw [Py.bind_ok hok]
        rfl
      · intro ht
        rw [rowTouched, hrow] at ht
        cases ht.2
    | none =>
      cases hreg : calls.register with
      | ok u =>
        exfalso
        rw [Fails, hout, hrow, hreg] at hf
        simp [WriteOutcome.result] at hf
      | error e =>
        refine ⟨e, updateRow token blockHash data.length s₁, ?_, hfile, ?_, ?_⟩
        · rw [Py.bind_ok hok]
          rfl
        · intro _
          rw [find_updateRow hfound, ← hs₁]
          rfl
        · intro ht
          exact absurd ⟨hout, hrow⟩ ht

/-- The rollback rewrites what it finds. -/
theorem restore_files (hd : s.files (relativeDiskPath token) = some bytes) :
    (restore calls token (relativeDiskPath token) s).2 = setFile (relativeDiskPath token)
      (some (leftBytes calls.rollbackWrite bytes bytes)) s := by
  have hread : DiskBlockStore.read (relativeDiskPath token) s = (.ok (some bytes), s) := by
    rw [DiskBlockStore.read, Py.read_run, hd]
  rw [restore, if_pos (relativeDiskPath_ne_nil token), Py.bind_ok hread]
  show (write token bytes calls.rollbackWrite s).2 = _
  rw [write, hd, left_some]

/-- The store after an accepted overwrite has failed. -/
theorem overwrite_failed (hf : Fails calls) (hs : Stored s token row bytes) (blockHash : Str) :
    (∃ e, (overwrite calls token data blockHash row s).1 = .error e) ∧
    (overwrite calls token data blockHash row s).2.files (relativeDiskPath token) =
      some (leftBytes calls.rollbackWrite (leftBytes calls.write bytes data)
        (leftBytes calls.write bytes data)) ∧
    (rowTouched calls → Assoc.find (overwrite calls token data blockHash row s).2.rows token =
      some { row with blockHash, sizeBytes := data.length, updatedAt := s.now }) ∧
    (¬ rowTouched calls →
      Assoc.find (overwrite calls token data blockHash row s).2.rows token = some row) := by
  obtain ⟨e, s', hbody, hfile, htouched, huntouched⟩ := overwrite_body hf hs blockHash
  have hrestore : (restore calls token (relativeDiskPath token) s').2 =
      setFile (relativeDiskPath token) (some (leftBytes calls.rollbackWrite
        (leftBytes calls.write bytes data) (leftBytes calls.write bytes data))) s' :=
    restore_files hfile
  rw [hs.path] at htouched
  rw [overwrite, Py.tryExcept_error hbody, hs.path]
  cases hr : restore calls token (relativeDiskPath token) s' with
  | mk r s'' =>
    rw [hr] at hrestore
    simp only at hrestore
    subst hrestore
    cases r with
    | error e' =>
      rw [Py.bind_error hr]
      exact ⟨⟨_, rfl⟩, by simp, htouched, huntouched⟩
    | ok u =>
      rw [Py.bind_ok hr]
      exact ⟨⟨_, rfl⟩, by simp, htouched, huntouched⟩

/-- An accepted overwrite that fails leaves the block as it was exactly when its file work comes out
at the old octets, and when a row that was updated already had the new hash and size. -/
theorem overwrite_atomic_iff (C : Primitives) (config : Config) (calls : Calls)
    (verify : Str → Str → Except PyExn Unit) (s : Store) (token : Str) (data bytes : Bytes)
    (row : BlockRow) (hs : Stored s token row bytes) (hsize : Sized config data)
    (haccept : verify token (computeBlockHash C data) = .ok ()) (hf : Fails calls) :
    (∃ e, (putBlockWith C config calls verify token data s).1 = .error e) ∧
    (Unchanged s (putBlockWith C config calls verify token data s).2 token ↔
      leftBytes calls.rollbackWrite (leftBytes calls.write bytes data)
        (leftBytes calls.write bytes data) = bytes ∧
      (calls.write = .done ∧ calls.rowWrite = none →
        row.blockHash = computeBlockHash C data ∧ row.sizeBytes = data.length)) := by
  obtain ⟨herr, hfile, htouched, huntouched⟩ := overwrite_failed hf hs (computeBlockHash C data)
  rw [putBlockWith_stored hsize hs, haccept, Py.bind_ok (Py.ofExcept_run _ s)]
  refine ⟨herr, ?_⟩
  have hrow : ((Assoc.find (overwrite calls token data (computeBlockHash C data) row s).2.rows token).map
      (fun row => (row.blockHash, row.sizeBytes)) =
        (Assoc.find s.rows token).map (fun row => (row.blockHash, row.sizeBytes))) ↔
      (rowTouched calls → row.blockHash = computeBlockHash C data ∧ row.sizeBytes = data.length) := by
    by_cases ht : rowTouched calls
    · rw [htouched ht, hs.found]
      simp [ht, eq_comm]
    · rw [huntouched ht, hs.found]
      simp [ht]
  constructor
  · intro h
    have h₁ := h.file
    rw [hfile, hs.file, Option.some.injEq] at h₁
    exact ⟨h₁, hrow.mp h.row⟩
  · rintro ⟨h₁, h₂⟩
    refine ⟨?_, hrow.mpr h₂⟩
    rw [hfile, hs.file, h₁]

def sampleToken : Str := List.replicate 64 97

def sampleRow : BlockRow :=
  { diskPath := relativeDiskPath sampleToken, blockHash := computeBlockHash plain [1, 2],
    sizeBytes := 2, createdAt := 0, updatedAt := 0 }

def sampleStore : Store :=
  { files := Function.update (fun _ => none) (relativeDiskPath sampleToken) (some [1, 2]),
    rows := [(sampleToken, sampleRow)], now := 5 }

def sampleConfig : Config :=
  { maxBodyBytes := 16, maxBlocks := 4, publicBaseUrl := ascii "https://relay.test/" }

def sampleClock : Clock := { parseIso := fun _ => .ok 100, now := 50 }

def sampleFields : BlockAuthFields :=
  { blockAuthKeyId := ascii "key-1", token := sampleToken, relayId := ascii "relay-1",
    relayBaseUrl := ascii "https://relay.test/", blockHash := computeBlockHash plain [1, 2],
    expiryAt := ascii "2030-01-01T00:00:00+00:00" }

def sampleReply : VerifyOverwriteResult :=
  { blockHash := computeBlockHash plain [1, 2], blockAuthKeyId := ascii "key-1",
    blockAuthMac := computeBlockAuthMac plain (List.replicate 32 7)
      (buildBlockAuthCanonical sampleFields),
    blockAuthAlgorithm := blockAuthAlgorithm, expiryAt := sampleFields.expiryAt }

def sampleCredentials : BlockAuthKeyCredentials := ⟨ascii "key-1", List.replicate 32 7⟩

def sampleCalls : Calls :=
  { verifyOverwrite := .ok sampleReply, credentials := .ok sampleCredentials,
    relayId := some (ascii "relay-1"), write := .done, rowWrite := none, register := .ok (),
    rollbackWrite := .done }

theorem sampleStored : Stored sampleStore sampleToken sampleRow [1, 2] :=
  ⟨by simp [sampleStore, Assoc.find], rfl, by simp [sampleStore]⟩

theorem sampleAuthorised : Authorised plain sampleClock sampleConfig sampleCalls sampleToken [1, 2]
    sampleReply sampleCredentials (ascii "relay-1") :=
  ⟨rfl, rfl, rfl, rfl, rfl, rfl, by decide, by decide +kernel⟩

theorem authorised_overwrite_fails_sample :
    Authorised plain sampleClock sampleConfig sampleCalls sampleToken [1, 2] sampleReply
      sampleCredentials (ascii "relay-1") ∧
    Stored sampleStore sampleToken sampleRow [1, 2] ∧ Sized sampleConfig [1, 2] ∧
      ¬ Overwrites moduleNames plain sampleClock sampleConfig sampleCalls sampleStore sampleToken
        [1, 2] :=
  ⟨sampleAuthorised, sampleStored, by decide,
    authorised_overwrite_fails sampleAuthorised sampleStored (by decide) rfl rfl rfl⟩

/-- A client's retry of a block that is already stored. -/
theorem retry_raises_nameError :
    Authorised plain sampleClock sampleConfig sampleCalls sampleToken [1, 2] sampleReply
      sampleCredentials (ascii "relay-1") ∧
    Stored sampleStore sampleToken sampleRow [1, 2] ∧
    (putBlock moduleNames plain sampleClock sampleConfig sampleCalls sampleToken [1, 2]
      sampleStore).1 = .error (.nameError "verify_block_auth_mac") :=
  ⟨sampleAuthorised, sampleStored, by decide +kernel⟩

def unregistered : Calls := { sampleCalls with register := .error (.httpStatus 503 "503") }

theorem overwrite_atomic_iff_sample :
    (∃ e, (putBlockWith plain sampleConfig unregistered (fun _ _ => .ok ()) sampleToken [3, 4]
      sampleStore).1 = .error e) ∧
    (Unchanged sampleStore (putBlockWith plain sampleConfig unregistered (fun _ _ => .ok ())
      sampleToken [3, 4] sampleStore).2 sampleToken ↔
      leftBytes unregistered.rollbackWrite (leftBytes unregistered.write [1, 2] [3, 4])
        (leftBytes unregistered.write [1, 2] [3, 4]) = [1, 2] ∧
      (unregistered.write = .done ∧ unregistered.rowWrite = none →
        sampleRow.blockHash = computeBlockHash plain [3, 4] ∧ sampleRow.sizeBytes = [3, 4].length)) :=
  overwrite_atomic_iff plain sampleConfig unregistered (fun _ _ => .ok ()) sampleStore sampleToken
    [3, 4] [1, 2] sampleRow sampleStored (by decide) rfl (.inr (.inr (by simp [unregistered])))

/-- The registration fails: the relay keeps the new octets `3, 4`. -/
theorem failed_overwrite_kept :
    (∃ e, (putBlockWith plain sampleConfig unregistered (fun _ _ => .ok ()) sampleToken [3, 4]
      sampleStore).1 = .error e) ∧
    ¬ Unchanged sampleStore (putBlockWith plain sampleConfig unregistered (fun _ _ => .ok ())
      sampleToken [3, 4] sampleStore).2 sampleToken := by
  refine ⟨⟨.service "registry register failed: 503" 503, by decide +kernel⟩, ?_⟩
  intro h
  have hfile := h.file
  revert hfile
  decide +kernel

end TwelveC.Relay.Overwrite
