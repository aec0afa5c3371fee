import TwelveC.Receive32
import TwelveC.Lib.Table
import TwelveC.Lib.Utf16

/-!
# Decoding a download

The data path of `downloadAdaptive`: token 0 and its SMB, then the data tokens in
order, either into a streaming session that is drained after each of them or into
a map for the batch receiver. The file length of the SMB decides between the two.
The core under the driver is the WebAssembly build, and the credential is a
JavaScript string. Prefetches and cancelled tokens are those of
`DownloadAdaptive`; here a GET answers, and no allocation fails.
-/

namespace TwelveC.Client.DownloadDecode

open TwelveC.Segment TwelveC.Payload Merkle Smb Crypto Receiver ReceiveSession Receive32 Lib Lib.Utf16

/-- The UTF-16 code units of a JavaScript string. -/
abbrev JsString := List UInt16

/-- An exception of the core, or an `Error` of the client with its message. -/
inductive Rejection where
  | core (e : Exn)
  | error (message : String)
  deriving DecidableEq, Repr

abbrev Js (α : Type) := Except Rejection α

def fromCore {α : Type} (x : Except Exn α) : Js α := x.mapError .core

/-- `if (c) { throw new Error(message); }` -/
def rejectIf (c : Prop) [Decidable c] (message : String) : Js Unit :=
  if c then .error (.error message) else .ok ()

structure CredentialParts where
  searchCode : JsString
  keyCode : JsString

def credentialLength : Nat := 12

def searchCodeLength : Nat := 6

def splitCredential (credential : JsString) : Js CredentialParts := do
  rejectIf (credential.length ≠ credentialLength)
    ("credential must be exactly " ++ toString credentialLength ++ " characters")
  return { searchCode := credential.take searchCodeLength, keyCode := credential.drop searchCodeLength }

/-- `Number.MAX_SAFE_INTEGER` -/
def maxSafeInteger : Nat := 2 ^ 53 - 1

/-- The core hands out its 64-bit lengths as bigints. -/
def toSafeByteLength (value : Nat) (label : String) : Js Nat := do
  rejectIf (maxSafeInteger < value) (label ++ " exceeds JS safe integer range: " ++ toString value)
  return value

def byteLengthsEqual (left right : Nat) : Js Bool := do
  let left ← toSafeByteLength left "byteLength"
  let right ← toSafeByteLength right "byteLength"
  return left == right

def v21WholeFileThresholdBytes : Nat := 16 * 1024 * 1024

def receivePlaintextExportChunkBytes : Nat := 4 * 1024 * 1024

def sizeMismatch (what : String) (got expected : Nat) : String :=
  what ++ ": got " ++ toString got ++ ", expected " ++ toString expected

section driver

variable (M : Machine) (C : Primitives) (get : Str → Js Bytes)

/-- `parseSmbEncrypted` of the client, over the one of the core. -/
def parseSmb (credential : Str) (token0Wire : Bytes) : Js SmbMetadata := do
  let metadata ← fromCore (parseSmbEncrypted M C credential token0Wire)
  let numTokens ← toSafeByteLength metadata.numTokens "numTokens"
  let wireBlockSize ← toSafeByteLength metadata.wireBlockSize "wireBlockSize"
  let ciphertextLength ← toSafeByteLength metadata.ciphertextLength "ciphertextLength"
  let originalFileLength ← toSafeByteLength metadata.originalFileLength "originalFileLength"
  return { metadata with numTokens, wireBlockSize, ciphertextLength, originalFileLength }

def assertWireBlockSize (token : Str) (data : Bytes) (expectedSize : Nat) : Js Bytes := do
  rejectIf (data.length ≠ expectedSize)
    ("download block size mismatch for token " ++ keyText token ++ ": got " ++
      toString data.length ++ " bytes, expected " ++ toString expectedSize)
  return data

/-- The target buffer has `expectedLength` octets; `written` are those before `offset`. -/
structure ReceivePlaintextAccumulator where
  written : Bytes
  expectedLength : Nat

def createReceivePlaintextAccumulator (expectedLength : Nat) : Js ReceivePlaintextAccumulator := do
  let safeExpectedLength ← toSafeByteLength expectedLength "expectedPlaintextLength"
  return { written := [], expectedLength := safeExpectedLength }

/-- The `while (true)` loop of `drainSession`. Every round but the last fills the buffer further. -/
def drainRounds : Nat → ReceiveDecryptSession → ReceivePlaintextAccumulator →
    Js (ReceiveDecryptSession × ReceivePlaintextAccumulator)
  | 0, _, _ => .error (.core .stuck)
  | rounds + 1, session, plaintext => do
    let (chunk, session) ← fromCore (takePlaintextChunk receivePlaintextExportChunkBytes session)
    if chunk.length = 0 then return (session, plaintext)
    else
      rejectIf (plaintext.expectedLength < plaintext.written.length + chunk.length)
        ("decrypted file overflow: wrote " ++ toString (plaintext.written.length + chunk.length) ++
          " bytes, buffer capacity " ++ toString plaintext.expectedLength)
      drainRounds rounds session { plaintext with written := plaintext.written ++ chunk }

def drainSession (session : ReceiveDecryptSession) (plaintext : ReceivePlaintextAccumulator) :
    Js (ReceiveDecryptSession × ReceivePlaintextAccumulator) :=
  drainRounds (plaintext.expectedLength + 2) session plaintext

def toBlob (plaintext : ReceivePlaintextAccumulator) : Js Bytes := do
  let equal ← byteLengthsEqual plaintext.written.length plaintext.expectedLength
  rejectIf (equal = false) (sizeMismatch "decrypted file size mismatch" plaintext.written.length
    plaintext.expectedLength)
  return plaintext.written

def finalizeReceiveDecryptToBlob (session : ReceiveDecryptSession)
    (plaintext : ReceivePlaintextAccumulator) : Js Bytes := do
  let session ← fromCore ((completeFinalize M C session).mapError Prod.fst)
  let (_, plaintext) ← drainSession session plaintext
  toBlob plaintext

/-- One round of the token loop of `decryptDownloadedLargeFile`. -/
def feedToken (searchCode : Str) (wireBlockSize : Nat)
    (state : ReceiveDecryptSession × ReceivePlaintextAccumulator) (tokenIndex : Nat) :
    Js (ReceiveDecryptSession × ReceivePlaintextAccumulator) := do
  let token := makeToken C searchCode tokenIndex
  let data ← get token
  let wire ← assertWireBlockSize token data wireBlockSize
  let session ← fromCore ((addWireToken M C tokenIndex wire state.1).mapError Prod.fst)
  drainSession session state.2

/-- `decryptDownloadedLargeFile` before its token loop. -/
def openLargeFile (credential : Str) (token0Wire : Bytes) :
    Js (ReceiveDecryptSession × ReceivePlaintextAccumulator) := do
  let session ← fromCore (ReceiveSession.new M C credential token0Wire)
  let expectedLength ← toSafeByteLength session.originalFileLength "originalFileLength"
  let plaintext ← createReceivePlaintextAccumulator expectedLength
  return (session, plaintext)

/-- The rounds for the tokens up to `last`. -/
def tokenLoop (credential searchCode : Str) (token0Wire : Bytes) (wireBlockSize last : Nat) :
    Js (ReceiveDecryptSession × ReceivePlaintextAccumulator) := do
  let opened ← openLargeFile M C credential token0Wire
  (List.range' 1 last).foldlM (feedToken M C get searchCode wireBlockSize) opened

def decryptDownloadedLargeFile (credential searchCode : Str) (token0Wire : Bytes)
    (wireBlockSize totalTokens : Nat) : Js Bytes := do
  let (session, plaintext) ←
    tokenLoop M C get credential searchCode token0Wire wireBlockSize (totalTokens - 1)
  finalizeReceiveDecryptToBlob M C session plaintext

/-- One round of the other loop. -/
def collectToken (searchCode : Str) (wireBlockSize : Nat) (uploads : Table Str Bytes)
    (tokenIndex : Nat) : Js (Table Str Bytes) := do
  let token := makeToken C searchCode tokenIndex
  let data ← get token
  let wire ← assertWireBlockSize token data wireBlockSize
  return uploads.insert token wire

/-- `js_to_upload_map` -/
def toUploadMap (uploads : Table Str Bytes) : TwelveC.UploadMap :=
  uploads.entries.foldl (fun map entry => map.emplace entry.1 entry.2) []

/-- The core takes its strings as UTF-8. -/
def downloadAdaptive (credential : JsString) : Js Bytes := do
  let parts ← splitCredential credential
  let searchCode := toUtf8 parts.searchCode
  let credential := toUtf8 credential
  let token0 := makeToken C searchCode 0
  let token0Wire ← get token0
  let metadata ← parseSmb M C credential token0Wire
  rejectIf (token0Wire.length ≠ metadata.wireBlockSize)
    (sizeMismatch "token0 wire size mismatch" token0Wire.length metadata.wireBlockSize)
  if v21WholeFileThresholdBytes < metadata.originalFileLength then
    let data ← decryptDownloadedLargeFile M C get credential searchCode token0Wire
      metadata.wireBlockSize metadata.numTokens
    let equal ← byteLengthsEqual data.length metadata.originalFileLength
    rejectIf (equal = false)
      (sizeMismatch "decrypted file size mismatch" data.length metadata.originalFileLength)
    return data
  else
    let uploads ← (List.range' 1 (metadata.numTokens - 1)).foldlM
      (collectToken C get searchCode metadata.wireBlockSize) (Table.empty.insert token0 token0Wire)
    fromCore (receiveFromUploadMap M C credential (toUploadMap uploads))

end driver

/-- Every GET for a stored token returns its bytes. -/
def Serves (get : Str → Js Bytes) (uploads : TwelveC.UploadMap) : Prop :=
  ∀ token data, lookupUpload uploads token = .ok data → get token = .ok data

/-- GETs answered from the map. -/
def getFrom (uploads : TwelveC.UploadMap) (token : Str) : Js Bytes := fromCore (lookupUpload uploads token)

theorem fromCore_eq_ok {α : Type} {x : Except Exn α} {a : α} : fromCore x = .ok a ↔ x = .ok a := by
  cases x with
  | error e => simp [fromCore, Except.mapError]
  | ok b => simp [fromCore, Except.mapError]

theorem getFrom_serves (uploads : TwelveC.UploadMap) : Serves (getFrom uploads) uploads :=
  fun _ _ h => fromCore_eq_ok.mpr h

theorem rejectIf_bind_eq_ok {α : Type} {c : Prop} [Decidable c] {message : String}
    {f : Unit → Js α} {a : α} : (rejectIf c message >>= f) = .ok a ↔ ¬ c ∧ f () = .ok a := by
  rw [rejectIf]
  by_cases h : c
  · simp [h, bind, Except.bind]
  · simp [h, bind, Except.bind]

theorem rejectIf_neg {c : Prop} [Decidable c] (h : ¬ c) (message : String) :
    rejectIf c message = .ok () := if_neg h

theorem toSafeByteLength_eq_ok {value n : Nat} {label : String} :
    toSafeByteLength value label = .ok n ↔ value ≤ maxSafeInteger ∧ n = value := by
  rw [toSafeByteLength, rejectIf_bind_eq_ok, not_lt]
  exact and_congr_right fun _ => ⟨fun h => (Except.ok.inj h).symm, fun h => congrArg _ h.symm⟩

theorem byteLengthsEqual_eq_ok {left right : Nat} {equal : Bool} :
    byteLengthsEqual left right = .ok equal ↔
      left ≤ maxSafeInteger ∧ right ≤ maxSafeInteger ∧ equal = decide (left = right) := by
  simp only [byteLengthsEqual, bind_ok_iff, toSafeByteLength_eq_ok]
  constructor
  · rintro ⟨_, ⟨hleft, rfl⟩, _, ⟨hright, rfl⟩, h⟩
    exact ⟨hleft, hright, (Except.ok.inj h).symm⟩
  · rintro ⟨hleft, hright, rfl⟩
    exact ⟨_, ⟨hleft, rfl⟩, _, ⟨hright, rfl⟩, rfl⟩

theorem byteLengthsEqual_self {n : Nat} (h : n ≤ maxSafeInteger) : byteLengthsEqual n n = .ok true :=
  byteLengthsEqual_eq_ok.mpr ⟨h, h, (decide_eq_true rfl).symm⟩

variable {C : Primitives} {get : Str → Js Bytes} {uploads : TwelveC.UploadMap} {credential : Str}
  {token0 : Bytes} {parts : TwelveC.CredentialParts} {metadata : SmbMetadata} {padded : Nat}
  {leading fed : List Bytes} {s : ReceiveDecryptSession} {taken plaintext : Bytes}

theorem splitCredential_eq_ok {js : JsString} {p : CredentialParts} :
    splitCredential js = .ok p ↔
      js.length = credentialLength ∧ p = ⟨js.take searchCodeLength, js.drop searchCodeLength⟩ := by
  rw [splitCredential, rejectIf_bind_eq_ok, not_not]
  exact and_congr_right fun _ => ⟨fun h => (Except.ok.inj h).symm, fun h => congrArg _ h.symm⟩

/-- Where the driver accepts the credential of an object, its search code is the core's. -/
theorem searchCode_of_split {js : JsString} (h : Crypto.splitCredential (toUtf8 js) = .ok parts)
    (hlength : js.length = credentialLength) :
    toUtf8 (js.take searchCodeLength) = parts.searchCode := by
  rw [Crypto.splitCredential, throwIf_bind_eq_ok, not_not, pure_eq_ok, Except.ok.injEq] at h
  rw [toUtf8_take (by rw [h.1, hlength]; exact le_rfl), ← h.2]
  rfl

theorem parseSmb_eq_ok (hd : Described C credential token0 parts metadata padded)
    (hparse : parseSmbEncrypted .wasm32 C credential token0 = .ok metadata) {m : SmbMetadata} :
    parseSmb .wasm32 C credential token0 = .ok m ↔
      metadata.ciphertextLength ≤ maxSafeInteger ∧ metadata.originalFileLength ≤ maxSafeInteger ∧
        m = metadata := by
  obtain ⟨-, htokens, hblock⟩ := parse_bounds hd.parse
  have hword : 2 ^ 32 ≤ maxSafeInteger := by decide
  rw [parseSmb, bind_of_ok (fromCore_eq_ok.mpr hparse),
    bind_of_ok (toSafeByteLength_eq_ok.mpr ⟨by omega, rfl⟩),
    bind_of_ok (toSafeByteLength_eq_ok.mpr ⟨by omega, rfl⟩)]
  simp only [bind_ok_iff, toSafeByteLength_eq_ok]
  constructor
  · rintro ⟨_, ⟨hcipher, rfl⟩, _, ⟨hfile, rfl⟩, h⟩
    exact ⟨hcipher, hfile, (Except.ok.inj h).symm⟩
  · rintro ⟨hcipher, hfile, rfl⟩
    exact ⟨_, ⟨hcipher, rfl⟩, _, ⟨hfile, rfl⟩, rfl⟩

theorem assertWireBlockSize_eq_ok {token : Str} {data wire : Bytes} {size : Nat} :
    assertWireBlockSize token data size = .ok wire ↔ data.length = size ∧ wire = data := by
  rw [assertWireBlockSize, rejectIf_bind_eq_ok, not_not]
  exact and_congr_right fun _ => ⟨fun h => (Except.ok.inj h).symm, fun h => congrArg _ h.symm⟩

theorem toBlob_self {written : Bytes} (h : written.length ≤ maxSafeInteger) :
    toBlob { written, expectedLength := written.length } = .ok written := by
  rw [toBlob, bind_of_ok (byteLengthsEqual_self h)]
  rfl

theorem toUploadMap_eq (table : Table Str Bytes) : toUploadMap table = table.entries :=
  Assoc.foldl_emplace [] table.entries table.nodup

theorem lookup_toUploadMap {table : Table Str Bytes} {token : Str} {data : Bytes} :
    lookupUpload (toUploadMap table) token = .ok data ↔ table.find token = some data := by
  rw [toUploadMap_eq, lookupUpload, TwelveC.UploadMap.find, Table.find]
  cases Assoc.find table.entries token with
  | none => simp
  | some found => simp

/-- The collected map has the first `n` tokens of the stored one, and nothing else. -/
structure Collected (C : Primitives) (uploads : TwelveC.UploadMap) (searchCode : Str) (n : Nat)
    (table : Table Str Bytes) : Prop where
  stored : ∀ token data, table.find token = some data → lookupUpload uploads token = .ok data
  present : ∀ i < n, (table.find (makeToken C searchCode i)).isSome = true

theorem Collected.insert {searchCode : Str} {n : Nat} {table : Table Str Bytes} {data : Bytes}
    (h : Collected C uploads searchCode n table)
    (hdata : lookupUpload uploads (makeToken C searchCode n) = .ok data) :
    Collected C uploads searchCode (n + 1) (table.insert (makeToken C searchCode n) data) := by
  refine ⟨fun token found hfound => ?_, fun i hi => ?_⟩
  · rw [Table.find_insert] at hfound
    split at hfound
    case isTrue heq =>
      obtain rfl := Option.some.inj hfound
      rw [heq]
      exact hdata
    case isFalse => exact h.stored token found hfound
  · rw [Table.find_insert]
    split
    case isTrue => rfl
    case isFalse hne =>
      refine h.present i (Nat.lt_of_le_of_ne (Nat.le_of_lt_succ hi) fun heq => hne ?_)
      rw [heq]

theorem collected_first {searchCode : Str}
    (hdata : lookupUpload uploads (makeToken C searchCode 0) = .ok token0) :
    Collected C uploads searchCode 1 (Table.empty.insert (makeToken C searchCode 0) token0) := by
  have hempty : Collected C uploads searchCode 0 Table.empty := by
    refine ⟨fun token data hfound => ?_, fun i hi => absurd hi (Nat.not_lt_zero i)⟩
    rw [Table.find_empty] at hfound
    cases hfound
  exact hempty.insert hdata

theorem Collected.lookup {searchCode : Str} {n i : Nat} {table : Table Str Bytes} {data : Bytes}
    (h : Collected C uploads searchCode n table) (hi : i < n)
    (hdata : lookupUpload uploads (makeToken C searchCode i) = .ok data) :
    lookupUpload (toUploadMap table) (makeToken C searchCode i) = .ok data := by
  obtain ⟨found, hfound⟩ := Option.isSome_iff_exists.mp (h.present i hi)
  have hsame := h.stored _ _ hfound
  rw [hdata] at hsame
  rw [lookup_toUploadMap, hfound, Except.ok.inj hsame]

/-- The rounds from token `n` on collect the other tokens. -/
theorem collectTokens_ok (h : Stored C uploads credential token0 parts metadata padded leading)
    (hget : Serves get uploads) (k n : Nat) (hk : n + k = metadata.numTokens) (hn : 0 < n)
    {table : Table Str Bytes} (ht : Collected C uploads parts.searchCode n table) :
    ∃ all, (List.range' n k).foldlM (collectToken C get parts.searchCode metadata.wireBlockSize) table =
        .ok all ∧ Collected C uploads parts.searchCode metadata.numTokens all := by
  induction k generalizing n table with
  | zero =>
    rw [Nat.add_zero] at hk
    exact ⟨table, rfl, hk ▸ ht⟩
  | succ k ih =>
    obtain ⟨i, rfl⟩ : ∃ i, n = i + 1 := ⟨n - 1, by omega⟩
    obtain ⟨block, -, hblock⟩ := h.block_at (show i + 1 < metadata.numTokens by omega)
    obtain ⟨hfound, hsize⟩ := collectBlock_eq_ok.mp hblock
    have hround : collectToken C get parts.searchCode metadata.wireBlockSize table (i + 1) =
        .ok (table.insert (makeToken C parts.searchCode (i + 1)) block) := by
      rw [collectToken, bind_of_ok (hget _ _ hfound),
        bind_of_ok (assertWireBlockSize_eq_ok.mpr ⟨hsize, rfl⟩)]
      rfl
    rw [List.range'_succ, List.foldlM_cons, bind_of_ok hround]
    exact ih (i + 1 + 1) (by omega) (Nat.succ_pos _) (ht.insert hfound)

theorem Collected.stored_same {table : Table Str Bytes}
    (h : Stored C uploads credential token0 parts metadata padded leading)
    (ht : Collected C uploads parts.searchCode metadata.numTokens table) :
    Stored C (toUploadMap table) credential token0 parts metadata padded leading := by
  refine ⟨h.described, ht.lookup h.described.tokens h.token0, ?_⟩
  obtain ⟨hlen, hblocks⟩ := List.forall₂_iff_get.mp h.found
  rw [mapM_eq_ok, List.forall₂_iff_get]
  refine ⟨hlen, fun i h₁ h₂ => ?_⟩
  obtain ⟨hfound, hsize⟩ := collectBlock_eq_ok.mp (hblocks i h₁ h₂)
  have hi : i < metadata.numTokens - 1 := by rwa [List.length_range'] at h₁
  rw [List.get_eq_getElem, List.getElem_range', Nat.one_mul] at hfound ⊢
  exact collectBlock_eq_ok.mpr ⟨ht.lookup (show 1 + i < _ by omega) hfound, hsize⟩

/-- A file no longer than the threshold is decoded as the batch receiver decodes it. -/
theorem inMemory_ok (h : Stored C uploads credential token0 parts metadata padded leading)
    (haccepts : Accepts C parts metadata padded
      (leading.map C.sha256 ++ [C.sha256 (token0.drop 373)]) (leading.flatten ++ token0.drop 373)
      plaintext)
    (hparse : parseSmbEncrypted .wasm32 C credential token0 = .ok metadata)
    (ha : Addressable metadata padded) (hget : Serves get uploads) :
    ∃ all, (List.range' 1 (metadata.numTokens - 1)).foldlM
        (collectToken C get parts.searchCode metadata.wireBlockSize)
        (Table.empty.insert (makeToken C parts.searchCode 0) token0) = .ok all ∧
      receiveFromUploadMap .wasm32 C credential (toUploadMap all) =
        .ok (plaintext.drop (padded - metadata.originalFileLength)) := by
  have hpos := h.described.tokens
  obtain ⟨all, hall, hcollected⟩ := collectTokens_ok h hget (metadata.numTokens - 1) 1 (by omega)
    Nat.one_pos (collected_first h.token0)
  have hsame := hcollected.stored_same h
  refine ⟨all, hall, ?_⟩
  rw [receiveFromUploadMap_wasm32 hsame hparse ha]
  exact receiveFromUploadMap_eq_ok.mpr ⟨token0, parts, metadata, padded, leading, plaintext, hsame,
    haccepts, rfl⟩

theorem takePlaintextChunk_early (h : Running C parts metadata token0 padded fed taken s)
    (hcode : metadata.segmentCode = 0) {maxBytes : Nat} :
    takePlaintextChunk maxBytes s =
      .error (.runtimeError "receive decrypt session: finalize not completed") := by
  have hmode : ¬ isV21SegmentedMode s.metadata.segmentCode = true := by
    rw [h.sameMetadata, hcode]
    decide
  rw [takePlaintextChunk, if_neg hmode, throwIf_pos (by simp [h.finalized]), error_bind]

/-- What was taken is part of the file. -/
theorem Running.taken_le (h : Running C parts metadata token0 padded fed taken s) :
    taken.length ≤ metadata.originalFileLength := by
  cases h.payload with
  | whole _ _ _ htaken => rw [htaken, List.length_nil]; exact Nat.zero_le _
  | segmented text _ hread hqueue _ =>
    obtain ⟨stream, pieces, -, hopened, rfl⟩ := hread.opened
    have htext := hopened.length_flatten
    have hle := hqueue.taken_start.length_le
    rw [List.length_drop] at hle
    omega

/-- Between two tokens a drain ends with the queue taken up. -/
theorem drainRounds_running (hd : Described C credential token0 parts metadata padded)
    (hcode : metadata.segmentCode ≠ 0) (rounds : Nat)
    (h : Running C parts metadata token0 padded fed taken s)
    (hrounds : metadata.originalFileLength < taken.length + rounds) :
    ∃ s' taken', drainRounds rounds s ⟨taken, metadata.originalFileLength⟩ =
        .ok (s', ⟨taken', metadata.originalFileLength⟩) ∧
      Running C parts metadata token0 padded fed taken' s' := by
  induction rounds generalizing taken s with
  | zero =>
    have hle := Running.taken_le h
    omega
  | succ rounds ih =>
    obtain ⟨chunk, s₁, htake, h₁⟩ := takePlaintextChunk_spec hd h hcode
      (show 0 < receivePlaintextExportChunkBytes by decide)
    rw [drainRounds, bind_of_ok (fromCore_eq_ok.mpr htake)]
    dsimp only
    by_cases hempty : chunk.length = 0
    · rw [if_pos hempty]
      rw [List.length_eq_zero_iff.mp hempty, List.append_nil] at h₁
      exact ⟨s₁, taken, rfl, h₁⟩
    · have hle := Running.taken_le h₁
      rw [List.length_append] at hle
      rw [if_neg hempty, bind_of_ok (rejectIf_neg (not_lt.mpr hle) _)]
      refine ih h₁ ?_
      rw [List.length_append]
      omega

/-- After the end a drain takes what is left of the file. -/
theorem drainRounds_done (hv : ValidCode metadata.segmentCode) {file : Bytes}
    (hfile : plaintext.drop (padded - metadata.originalFileLength) = file) (rounds : Nat)
    (h : Done metadata padded plaintext taken s) (hrounds : file.length < taken.length + rounds) :
    ∃ s', drainRounds rounds s ⟨taken, file.length⟩ = .ok (s', ⟨file, file.length⟩) := by
  induction rounds generalizing taken s with
  | zero =>
    have hlen := congrArg List.length h.left.taken_take
    rw [hfile, List.length_take] at hlen
    omega
  | succ rounds ih =>
    have htaken := h.left.taken_take
    rw [hfile] at htaken
    have hlen := congrArg List.length htaken
    rw [List.length_take] at hlen
    obtain ⟨s₁, htake, h₁⟩ := h.take hv (show 0 < receivePlaintextExportChunkBytes by decide)
    rw [hfile] at htake h₁
    rw [drainRounds, bind_of_ok (fromCore_eq_ok.mpr htake)]
    dsimp only
    by_cases hempty : ((file.drop taken.length).take receivePlaintextExportChunkBytes).length = 0
    · rw [if_pos hempty]
      rw [List.length_take, List.length_drop, receivePlaintextExportChunkBytes] at hempty
      rw [List.take_of_length_le (by omega)] at htaken
      exact ⟨s₁, by rw [htaken]; rfl⟩
    · have hle := congrArg List.length h₁.left.taken_take
      rw [hfile, List.length_take, List.length_append] at hle
      rw [if_neg hempty, bind_of_ok (rejectIf_neg (not_lt.mpr (by omega)) _)]
      refine ih h₁ ?_
      rw [List.length_append]
      omega

section streaming

variable (hd : Described C credential token0 parts metadata padded)
include hd

/-- A token of a segmented object is fed and the queue is drained, or a record does not open. -/
theorem feedToken_spec (hcode : metadata.segmentCode ≠ 0)
    (h : Running C parts metadata token0 padded fed taken s) (hnext : fed.length + 1 < metadata.numTokens)
    {wire : Bytes} (hget : get (makeToken C parts.searchCode (fed.length + 1)) = .ok wire)
    (hsize : wire.length = metadata.wireBlockSize) :
    (∃ s' taken', feedToken .wasm32 C get parts.searchCode metadata.wireBlockSize
        (s, ⟨taken, metadata.originalFileLength⟩) (fed.length + 1) =
          .ok (s', ⟨taken', metadata.originalFileLength⟩) ∧
      Running C parts metadata token0 padded (fed ++ [wire]) taken' s') ∨
    (∀ state, feedToken .wasm32 C get parts.searchCode metadata.wireBlockSize
        (s, ⟨taken, metadata.originalFileLength⟩) (fed.length + 1) ≠ .ok state) ∧
      Refused C parts metadata padded (fed.flatten ++ wire) := by
  rw [feedToken, bind_of_ok hget, bind_of_ok (assertWireBlockSize_eq_ok.mpr ⟨hsize, rfl⟩)]
  rcases addWireToken_spec hd h hnext hsize with ⟨s₁, hok, h₁⟩ | ⟨e, s₁, herr, hrefused⟩
  · obtain ⟨s', taken', hdrain, h'⟩ := drainRounds_running hd hcode (metadata.originalFileLength + 2) h₁
      (by omega)
    have hadd : fromCore ((addWireToken .wasm32 C (fed.length + 1) wire s).mapError Prod.fst) =
        .ok s₁ := by
      rw [addWireToken_wasm32, hok]
      rfl
    rw [bind_of_ok hadd]
    exact .inl ⟨s', taken', hdrain, h'⟩
  · have hadd : fromCore ((addWireToken .wasm32 C (fed.length + 1) wire s).mapError Prod.fst) =
        .error (.core e) := by
      rw [addWireToken_wasm32, herr]
      rfl
    rw [bind_of_error hadd]
    exact .inr ⟨fun _ hstate => (by cases hstate), hrefused⟩

/-- A token of an object that opens is fed. -/
theorem feedToken_ok (hcode : metadata.segmentCode ≠ 0)
    (h : Running C parts metadata token0 padded fed taken s) (hnext : fed.length + 1 < metadata.numTokens)
    {wire more : Bytes}
    (hget : get (makeToken C parts.searchCode (fed.length + 1)) = .ok wire)
    (hsize : wire.length = metadata.wireBlockSize)
    (hopens : OpensTo C parts metadata padded (fed.flatten ++ wire ++ more) plaintext) :
    ∃ s' taken', feedToken .wasm32 C get parts.searchCode metadata.wireBlockSize
        (s, ⟨taken, metadata.originalFileLength⟩) (fed.length + 1) =
          .ok (s', ⟨taken', metadata.originalFileLength⟩) ∧
      Running C parts metadata token0 padded (fed ++ [wire]) taken' s' :=
  (feedToken_spec hd hcode h hnext hget hsize).resolve_right
    fun hrefused => hrefused.2.not_opensTo hd more plaintext hopens

/-- In a whole-file object the first drain throws. -/
theorem feedToken_whole (hcode : metadata.segmentCode = 0)
    (h : Running C parts metadata token0 padded fed taken s) (hnext : fed.length + 1 < metadata.numTokens)
    {state : ReceiveDecryptSession × ReceivePlaintextAccumulator} {expectedLength : Nat} :
    feedToken .wasm32 C get parts.searchCode metadata.wireBlockSize (s, ⟨taken, expectedLength⟩)
      (fed.length + 1) ≠ .ok state := by
  intro hfeed
  simp only [feedToken, bind_ok_iff, assertWireBlockSize_eq_ok, fromCore_eq_ok] at hfeed
  obtain ⟨wire, -, _, ⟨hsize, rfl⟩, s₁, hadd, hdrain⟩ := hfeed
  rw [addWireToken_wasm32] at hadd
  rcases addWireToken_spec hd h hnext hsize with ⟨s', hok, h'⟩ | ⟨e, s', herr, -⟩
  · rw [hok] at hadd
    obtain rfl := Except.ok.inj hadd
    rw [drainSession, drainRounds, bind_of_error (e := .core (.runtimeError
      "receive decrypt session: finalize not completed"))] at hdrain
    · cases hdrain
    · rw [takePlaintextChunk_early h' hcode]
      rfl
  · rw [herr] at hadd
    cases hadd

/-- `completeFinalize`, the last drain and the blob. -/
theorem finalize_eq_ok (h : Running C parts metadata token0 padded leading taken s)
    (hlast : leading.length + 1 = metadata.numTokens)
    (hopens : OpensTo C parts metadata padded (leading.flatten ++ token0.drop 373) plaintext)
    (hsafe : metadata.originalFileLength ≤ maxSafeInteger) {data : Bytes} :
    finalizeReceiveDecryptToBlob .wasm32 C s ⟨taken, metadata.originalFileLength⟩ = .ok data ↔
      verifyMerkleRootFromLeafHashes C (leading.map C.sha256 ++ [lastLeaf C (token0.drop 373)])
        metadata.rootHash = true ∧
      data = plaintext.drop (padded - metadata.originalFileLength) := by
  have hpadded := hopens.length hd
  have hfile := hd.file
  have hlastBlock : s.lastBlockLength = metadata.wireBlockSize - 373 :=
    congrArg (·.lastBlockLength) h.settings
  have hcore := completeFinalize_wasm32 (C := C) (hlastBlock ▸ block_lt hd)
  generalize hdrop : plaintext.drop (padded - metadata.originalFileLength) = file
  have hlen : file.length = metadata.originalFileLength := by
    rw [← hdrop, List.length_drop]
    omega
  rcases completeFinalize_spec hd h hlast rfl rfl with
    ⟨plaintext', s', haccepts, hok, hdone⟩ | ⟨⟨e, s', herr⟩, hno⟩
  · obtain rfl := hopens.unique haccepts.2
    obtain ⟨s'', hdrain⟩ := drainRounds_done hd.valid hdrop (file.length + 2) hdone (by omega)
    have hfinal : fromCore ((completeFinalize .wasm32 C s).mapError Prod.fst) = .ok s' := by
      rw [hcore, hok]
      rfl
    have hblob : finalizeReceiveDecryptToBlob .wasm32 C s ⟨taken, metadata.originalFileLength⟩ =
        .ok file := by
      rw [← hlen, finalizeReceiveDecryptToBlob, bind_of_ok hfinal, drainSession, bind_of_ok hdrain]
      exact toBlob_self (hlen ▸ hsafe)
    rw [hblob, Except.ok.injEq]
    exact ⟨fun heq => ⟨haccepts.1, heq.symm⟩, fun heq => heq.2.symm⟩
  · have hfinal : fromCore ((completeFinalize .wasm32 C s).mapError Prod.fst) = .error (.core e) := by
      rw [hcore, herr]
      rfl
    rw [finalizeReceiveDecryptToBlob, bind_of_error hfinal]
    refine ⟨fun hbad => ?_, fun hroot => absurd ⟨hroot.1, hopens⟩ (hno plaintext)⟩
    cases hbad

end streaming

/-- The tokens behind `fed` are fed one after the other. -/
theorem feedTokens_ok (h : Stored C uploads credential token0 parts metadata padded leading)
    (hget : Serves get uploads) (hcode : metadata.segmentCode ≠ 0)
    (hopens : OpensTo C parts metadata padded (leading.flatten ++ token0.drop 373) plaintext)
    (rest : List Bytes) (hrest : leading = fed ++ rest)
    (hrun : Running C parts metadata token0 padded fed taken s) :
    ∃ s' taken', (List.range' (fed.length + 1) rest.length).foldlM
        (feedToken .wasm32 C get parts.searchCode metadata.wireBlockSize)
        (s, ⟨taken, metadata.originalFileLength⟩) = .ok (s', ⟨taken', metadata.originalFileLength⟩) ∧
      Running C parts metadata token0 padded leading taken' s' := by
  induction rest generalizing fed taken s with
  | nil =>
    rw [List.append_nil] at hrest
    exact ⟨s, taken, rfl, hrest ▸ hrun⟩
  | cons wire rest ih =>
    have hlen := h.length_leading
    rw [hrest, List.length_append, List.length_cons] at hlen
    have hnext : fed.length + 1 < metadata.numTokens := by omega
    obtain ⟨block, hblock, hcollect⟩ := h.block_at hnext
    rw [hrest, List.getElem?_append_right (Nat.le_refl _), Nat.sub_self] at hblock
    obtain rfl := Option.some.inj hblock
    obtain ⟨hfound, hsize⟩ := collectBlock_eq_ok.mp hcollect
    rw [hrest, List.flatten_append, List.flatten_cons, List.append_assoc, List.append_assoc,
      ← List.append_assoc fed.flatten] at hopens
    obtain ⟨s₁, taken₁, hfeed, hrun₁⟩ := feedToken_ok h.described hcode hrun hnext (hget _ _ hfound)
      hsize hopens
    have hsplit : leading = fed ++ [wire] ++ rest := by
      rw [hrest, List.append_assoc]
      rfl
    have hstep := ih hsplit hrun₁
    rw [List.length_append, List.length_singleton] at hstep
    rw [List.length_cons, List.range'_succ, List.foldlM_cons, bind_of_ok hfeed]
    exact hstep

/-- The token loop ends, unless a whole-file object has data tokens. -/
theorem tokenLoop_ok (h : Stored C uploads credential token0 parts metadata padded leading)
    (hget : Serves get uploads) (hmode : metadata.segmentCode ≠ 0 ∨ metadata.numTokens = 1)
    (hopens : OpensTo C parts metadata padded (leading.flatten ++ token0.drop 373) plaintext) :
    ∃ s' taken', (List.range' 1 (metadata.numTokens - 1)).foldlM
        (feedToken .wasm32 C get parts.searchCode metadata.wireBlockSize)
        (start parts metadata token0 padded, ⟨[], metadata.originalFileLength⟩) =
          .ok (s', ⟨taken', metadata.originalFileLength⟩) ∧
      Running C parts metadata token0 padded leading taken' s' := by
  have hlen := h.length_leading
  have hstart := start_running h.described
  rcases hmode with hcode | hone
  · obtain ⟨s', taken', hloop, hrun⟩ := feedTokens_ok h hget hcode hopens leading rfl hstart
    rw [List.length_nil, Nat.zero_add, show leading.length = metadata.numTokens - 1 by omega] at hloop
    exact ⟨s', taken', hloop, hrun⟩
  · obtain rfl : leading = [] := List.length_eq_zero_iff.mp (by omega)
    rw [hone]
    exact ⟨_, _, rfl, hstart⟩

theorem tokenLoop_whole (h : Stored C uploads credential token0 parts metadata padded leading)
    (hcode : metadata.segmentCode = 0) (hmany : metadata.numTokens ≠ 1)
    {state : ReceiveDecryptSession × ReceivePlaintextAccumulator} :
    (List.range' 1 (metadata.numTokens - 1)).foldlM
        (feedToken .wasm32 C get parts.searchCode metadata.wireBlockSize)
        (start parts metadata token0 padded, ⟨[], metadata.originalFileLength⟩) ≠ .ok state := by
  have hpos := h.described.tokens
  obtain ⟨n, hn⟩ : ∃ n, metadata.numTokens - 1 = n + 1 := ⟨metadata.numTokens - 2, by omega⟩
  intro hloop
  rw [hn, List.range'_succ, List.foldlM_cons] at hloop
  obtain ⟨state', hfeed, -⟩ := bind_ok_iff.mp hloop
  exact feedToken_whole h.described hcode (start_running h.described)
    (show ([] : List Bytes).length + 1 < metadata.numTokens by rw [List.length_nil]; omega) hfeed

theorem openLargeFile_ok (hd : Described C credential token0 parts metadata padded)
    (hparse : parseSmbEncrypted .wasm32 C credential token0 = .ok metadata)
    (ha : Addressable metadata padded) (hsafe : metadata.originalFileLength ≤ maxSafeInteger) :
    openLargeFile .wasm32 C credential token0 =
      .ok (start parts metadata token0 padded, ⟨[], metadata.originalFileLength⟩) := by
  have hnew : fromCore (ReceiveSession.new .wasm32 C credential token0) =
      .ok (start parts metadata token0 padded) := fromCore_eq_ok.mpr (new_wasm32 hd hparse ha)
  have hlength (label : String) : toSafeByteLength (start parts metadata token0 padded).originalFileLength
      label = .ok metadata.originalFileLength := toSafeByteLength_eq_ok.mpr ⟨hsafe, rfl⟩
  have hcreate : createReceivePlaintextAccumulator metadata.originalFileLength =
      .ok ⟨[], metadata.originalFileLength⟩ := bind_of_ok (hlength _) _
  rw [openLargeFile, bind_of_ok hnew, bind_of_ok (hlength _), bind_of_ok hcreate]
  rfl

/-- The streaming way returns the file if the mode lets it drain, and the root covers what the session
has hashed. -/
theorem largeFile_eq_ok (h : Stored C uploads credential token0 parts metadata padded leading)
    (hparse : parseSmbEncrypted .wasm32 C credential token0 = .ok metadata)
    (ha : Addressable metadata padded) (hget : Serves get uploads)
    (hsafe : metadata.originalFileLength ≤ maxSafeInteger)
    (hopens : OpensTo C parts metadata padded (leading.flatten ++ token0.drop 373) plaintext)
    {data : Bytes} :
    decryptDownloadedLargeFile .wasm32 C get credential parts.searchCode token0
        metadata.wireBlockSize metadata.numTokens = .ok data ↔
      (metadata.segmentCode ≠ 0 ∨ metadata.numTokens = 1) ∧
      verifyMerkleRootFromLeafHashes C (leading.map C.sha256 ++ [lastLeaf C (token0.drop 373)])
        metadata.rootHash = true ∧
      data = plaintext.drop (padded - metadata.originalFileLength) := by
  have hd := h.described
  rw [decryptDownloadedLargeFile, tokenLoop, bind_of_ok (openLargeFile_ok hd hparse ha hsafe)]
  by_cases hmode : metadata.segmentCode ≠ 0 ∨ metadata.numTokens = 1
  · obtain ⟨s, taken, hloop, hrun⟩ := tokenLoop_ok h hget hmode hopens
    rw [bind_of_ok hloop, and_iff_right hmode]
    exact finalize_eq_ok hd hrun h.length_leading hopens hsafe
  · rw [not_or, not_not] at hmode
    refine ⟨fun hdata => ?_, fun hright => absurd hright.1 (by simp [hmode.1, hmode.2])⟩
    obtain ⟨state, hloop, -⟩ := bind_ok_iff.mp hdata
    exact absurd hloop (tokenLoop_whole h hmode.1 hmode.2)

/-- A last block that is not empty, or that the root covers, sets no receiver apart. -/
theorem lastLeaf_verifies (h : Stored C uploads credential token0 parts metadata padded leading)
    (haccepts : Accepts C parts metadata padded
      (leading.map C.sha256 ++ [C.sha256 (token0.drop 373)]) (leading.flatten ++ token0.drop 373)
      plaintext) :
    verifyMerkleRootFromLeafHashes C (leading.map C.sha256 ++ [lastLeaf C (token0.drop 373)])
        metadata.rootHash = true ↔ ¬ EmptyLastBlock C uploads credential := by
  constructor
  · rintro hroot ⟨token0', parts', metadata', padded', leading', plaintext', h', hblock, -, hdiffer⟩
    obtain ⟨rfl, rfl, rfl, rfl, rfl⟩ := h.unique h'
    have hlast : token0.drop 373 = [] := by
      rw [← List.length_eq_zero_iff, h.last, hblock]
    have hhash := haccepts.1
    rw [hlast] at hhash hroot
    rw [lastLeaf, if_pos rfl] at hroot
    exact hdiffer (hroot.trans hhash.symm)
  · intro hempty
    exact ((accepts_iff hempty h).mpr haccepts).1

section lengths

variable {M : Machine} {data : Bytes} {state state' : ReceiveDecryptSession × ReceivePlaintextAccumulator}

theorem drainRounds_expected {rounds : Nat} {accumulator : ReceivePlaintextAccumulator}
    (h : drainRounds rounds s accumulator = .ok state) :
    state.2.expectedLength = accumulator.expectedLength := by
  induction rounds generalizing s accumulator with
  | zero => cases h
  | succ rounds ih =>
    rw [drainRounds] at h
    obtain ⟨chunk, -, h⟩ := bind_ok_iff.mp h
    dsimp only at h
    split at h
    case isTrue =>
      obtain rfl := Except.ok.inj h
      rfl
    case isFalse =>
      have hrest := ih (rejectIf_bind_eq_ok.mp h).2
      exact hrest

theorem feedToken_expected {searchCode : Str} {wireBlockSize tokenIndex : Nat}
    (h : feedToken M C get searchCode wireBlockSize state tokenIndex = .ok state') :
    state'.2.expectedLength = state.2.expectedLength := by
  obtain ⟨block, -, h⟩ := bind_ok_iff.mp h
  obtain ⟨wire, -, h⟩ := bind_ok_iff.mp h
  obtain ⟨session, -, h⟩ := bind_ok_iff.mp h
  exact drainRounds_expected h

/-- The blob has the length that the session reads. -/
theorem largeFile_length {searchCode : Str} {wireBlockSize totalTokens : Nat}
    (h : decryptDownloadedLargeFile M C get credential searchCode token0 wireBlockSize totalTokens =
      .ok data) :
    ∃ session, ReceiveSession.new M C credential token0 = .ok session ∧
      data.length = session.originalFileLength := by
  obtain ⟨state, hloop, h⟩ := bind_ok_iff.mp h
  obtain ⟨opened, hopened, hloop⟩ := bind_ok_iff.mp hloop
  obtain ⟨session, hnew, hopened⟩ := bind_ok_iff.mp hopened
  obtain ⟨expectedLength, hexpected, hopened⟩ := bind_ok_iff.mp hopened
  obtain ⟨accumulator, hcreate, hopened⟩ := bind_ok_iff.mp hopened
  obtain rfl := Except.ok.inj hopened
  obtain ⟨finished, -, h⟩ := bind_ok_iff.mp h
  obtain ⟨drained, hdrain, h⟩ := bind_ok_iff.mp h
  obtain ⟨equal, hequal, h⟩ := bind_ok_iff.mp h
  obtain ⟨hsame, hblob⟩ := rejectIf_bind_eq_ok.mp h
  obtain ⟨safe, hsafe, hcreate⟩ := bind_ok_iff.mp hcreate
  obtain rfl := Except.ok.inj hblob
  obtain rfl := Except.ok.inj hcreate
  rw [toSafeByteLength_eq_ok] at hexpected hsafe
  have hkept := foldlM_ok_invariant (p := fun reached => reached.2.expectedLength = safe)
    (fun _ _ _ hp hfeed => (feedToken_expected hfeed).trans hp) rfl hloop
  rw [(byteLengthsEqual_eq_ok.mp hequal).2.2, decide_eq_false_iff_not, not_not] at hsame
  refine ⟨session, fromCore_eq_ok.mp hnew, ?_⟩
  rw [hsame, drainRounds_expected hdrain, hkept, hsafe.2, hexpected.2]

/-- Every entry is what the GET of its token returned, and `token` has one. -/
def Answered (get : Str → Js Bytes) (token : Str) (table : Table Str Bytes) : Prop :=
  (∀ key data, table.find key = some data → get key = .ok data) ∧ (table.find token).isSome = true

theorem Answered.insert {token key : Str} {table : Table Str Bytes} (h : Answered get token table)
    (hdata : get key = .ok data) : Answered get token (table.insert key data) := by
  refine ⟨fun other found hfound => ?_, ?_⟩
  · rw [Table.find_insert] at hfound
    split at hfound
    case isTrue heq =>
      obtain rfl := Option.some.inj hfound
      rw [heq]
      exact hdata
    case isFalse => exact h.1 other found hfound
  · rw [Table.find_insert]
    split
    case isTrue => rfl
    case isFalse => exact h.2

theorem collectToken_answered {searchCode token : Str} {wireBlockSize tokenIndex : Nat}
    {table table' : Table Str Bytes} (h : Answered get token table)
    (hcollect : collectToken C get searchCode wireBlockSize table tokenIndex = .ok table') :
    Answered get token table' := by
  obtain ⟨block, hblock, hcollect⟩ := bind_ok_iff.mp hcollect
  obtain ⟨wire, hwire, hcollect⟩ := bind_ok_iff.mp hcollect
  obtain rfl := Except.ok.inj hcollect
  rw [(assertWireBlockSize_eq_ok.mp hwire).2]
  exact h.insert hblock

theorem answered_first {token : Str} (hget : get token = .ok token0) :
    Answered get token (Table.empty.insert token token0) := by
  refine ⟨fun key found hfound => ?_, ?_⟩
  · rw [Table.find_insert] at hfound
    split at hfound
    case isTrue heq =>
      obtain rfl := Option.some.inj hfound
      rw [heq]
      exact hget
    case isFalse =>
      rw [Table.find_empty] at hfound
      cases hfound
  · rw [Table.find_insert, if_pos rfl]
    rfl

theorem parseSmb_same (hparse : parseSmbEncrypted M C credential token0 = .ok metadata) {m : SmbMetadata}
    (h : parseSmb M C credential token0 = .ok m) : m = metadata := by
  rw [parseSmb, bind_of_ok (fromCore_eq_ok.mpr hparse)] at h
  simp only [bind_ok_iff, toSafeByteLength_eq_ok] at h
  obtain ⟨_, ⟨-, rfl⟩, _, ⟨-, rfl⟩, _, ⟨-, rfl⟩, _, ⟨-, rfl⟩, h⟩ := h
  exact (Except.ok.inj h).symm

/-- A download that ends has accepted the credential and the lengths in the SMB. -/
theorem lengths_of_download {js : JsString}
    (hsplit : Crypto.splitCredential (toUtf8 js) = .ok parts)
    (hget : get (makeToken C parts.searchCode 0) = .ok token0)
    (hparse : parseSmbEncrypted M C (toUtf8 js) token0 = .ok metadata)
    (h : downloadAdaptive M C get js = .ok data) :
    js.length = credentialLength ∧
    (∃ padded, paddedPlaintextLengthFromCiphertext M (M.size metadata.ciphertextLength)
        metadata.segmentCode = .ok padded ∧ M.size metadata.originalFileLength ≤ padded) ∧
      (metadata.originalFileLength ≤ v21WholeFileThresholdBytes ∨
        M.size metadata.originalFileLength = metadata.originalFileLength) := by
  obtain ⟨cut, hcut, h⟩ := bind_ok_iff.mp h
  obtain ⟨hlength, rfl⟩ := splitCredential_eq_ok.mp hcut
  refine ⟨hlength, ?_⟩
  dsimp only at h
  rw [searchCode_of_split hsplit hlength, bind_of_ok hget] at h
  obtain ⟨m, hm, h⟩ := bind_ok_iff.mp h
  obtain rfl := parseSmb_same hparse hm
  obtain ⟨-, h⟩ := rejectIf_bind_eq_ok.mp h
  split at h
  case isTrue hlarge =>
    obtain ⟨blob, hblob, h⟩ := bind_ok_iff.mp h
    obtain ⟨session, hnew, hsize⟩ := largeFile_length hblob
    obtain ⟨horiginal, hpadded⟩ := of_new hparse hnew
    obtain ⟨equal, hequal, h⟩ := bind_ok_iff.mp h
    obtain ⟨hsame, -⟩ := rejectIf_bind_eq_ok.mp h
    rw [(byteLengthsEqual_eq_ok.mp hequal).2.2, decide_eq_false_iff_not, not_not] at hsame
    exact ⟨hpadded, .inr (horiginal.symm.trans (hsize.symm.trans hsame))⟩
  case isFalse hsmall =>
    obtain ⟨all, hall, h⟩ := bind_ok_iff.mp h
    have hanswered := foldlM_ok_invariant (p := Answered get (makeToken C parts.searchCode 0))
      (fun _ _ _ hp hcollect => collectToken_answered hp hcollect) (answered_first hget) hall
    obtain ⟨found, hfound⟩ := Option.isSome_iff_exists.mp hanswered.2
    have hblock := hanswered.1 _ _ hfound
    obtain rfl := Except.ok.inj (hget.symm.trans hblock)
    exact ⟨of_receive hsplit (lookup_toUploadMap.mpr hfound) hparse (fromCore_eq_ok.mp h),
      .inl (not_lt.mp hsmall)⟩

end lengths

/-- An object that fits the 32-bit core is decoded if the file is within the threshold, or the object has
no data tokens that only the end can open, and no empty last block. -/
theorem downloadAdaptive_addressable {js : JsString} (hlength : js.length = credentialLength)
    (h : Stored C uploads (toUtf8 js) token0 parts metadata padded leading)
    (hparse : parseSmbEncrypted .wasm32 C (toUtf8 js) token0 = .ok metadata)
    (ha : Addressable metadata padded)
    (haccepts : Accepts C parts metadata padded
      (leading.map C.sha256 ++ [C.sha256 (token0.drop 373)]) (leading.flatten ++ token0.drop 373)
      plaintext) (hget : Serves get uploads) :
    downloadAdaptive .wasm32 C get js =
        .ok (plaintext.drop (padded - metadata.originalFileLength)) ↔
      metadata.originalFileLength ≤ v21WholeFileThresholdBytes ∨
        (metadata.segmentCode ≠ 0 ∨ metadata.numTokens = 1) ∧
          ¬ EmptyLastBlock C uploads (toUtf8 js) := by
  have hd := h.described
  have hfile := hd.file
  have hword : 2 ^ 32 ≤ maxSafeInteger := by decide
  have hsafe : metadata.ciphertextLength ≤ maxSafeInteger := le_trans ha.ciphertext.le hword
  have hlength32 : metadata.originalFileLength ≤ maxSafeInteger := le_trans (file_lt hd ha).le hword
  have hfetch : get (makeToken C parts.searchCode 0) = .ok token0 := hget _ _ h.token0
  rw [downloadAdaptive, bind_of_ok (splitCredential_eq_ok.mpr ⟨hlength, rfl⟩)]
  dsimp only
  rw [searchCode_of_split hd.split hlength, bind_of_ok hfetch,
    bind_of_ok ((parseSmb_eq_ok hd hparse).mpr ⟨hsafe, hlength32, rfl⟩),
    bind_of_ok (rejectIf_neg (not_not.mpr hd.block) _)]
  by_cases hlarge : v21WholeFileThresholdBytes < metadata.originalFileLength
  · have hsize : (plaintext.drop (padded - metadata.originalFileLength)).length =
        metadata.originalFileLength := by
      rw [List.length_drop, haccepts.2.length hd]
      omega
    have hblob {data : Bytes} : _ = Except.ok data ↔ _ :=
      largeFile_eq_ok h hparse ha hget hlength32 haccepts.2
    rw [if_pos hlarge, or_iff_right (not_le.mpr hlarge), ← lastLeaf_verifies h haccepts]
    constructor
    · intro hdata
      obtain ⟨data, hdecrypt, -⟩ := bind_ok_iff.mp hdata
      obtain ⟨hmode, hroot, -⟩ := hblob.mp hdecrypt
      exact ⟨hmode, hroot⟩
    · rintro ⟨hmode, hroot⟩
      rw [bind_of_ok (hblob.mpr ⟨hmode, hroot, rfl⟩), hsize, bind_of_ok (byteLengthsEqual_self hlength32)]
      rfl
  · obtain ⟨all, hall, hreceive⟩ := inMemory_ok h haccepts hparse ha hget
    rw [if_neg hlarge, bind_of_ok hall, hreceive]
    exact ⟨fun _ => .inl (not_lt.mp hlarge), fun _ => rfl⟩

theorem recordCount_le_div (n code : Nat) : recordCount n code ≤ n / 2 ^ 24 + 1 := by
  rw [recordCount]
  split
  · omega
  case isFalse hcode =>
    have hs := segmentBytes_ge code (by omega)
    have hpos := segmentBytes_pos code
    calc (n + segmentBytes code - 1) / segmentBytes code
        ≤ (n + segmentBytes code) / segmentBytes code := Nat.div_le_div_right (Nat.sub_le _ _)
      _ = n / segmentBytes code + 1 := Nat.add_div_right n hpos
      _ ≤ n / 2 ^ 24 + 1 := Nat.add_le_add_right (Nat.div_le_div_left (by omega) (by decide)) 1

/-- The driver returns the file of an object that the batch receiver accepts exactly if the credential
has the length of one, the object fits the 32-bit core, and the way is one that decodes it. -/
theorem downloadAdaptive_stored {js : JsString}
    (h : Stored C uploads (toUtf8 js) token0 parts metadata padded leading)
    (hparse : parseSmbEncrypted .wasm32 C (toUtf8 js) token0 = .ok metadata)
    (hpadding : padded ≤ metadata.originalFileLength + 2 ^ 25)
    (haccepts : Accepts C parts metadata padded
      (leading.map C.sha256 ++ [C.sha256 (token0.drop 373)]) (leading.flatten ++ token0.drop 373)
      plaintext) (hget : Serves get uploads) :
    downloadAdaptive .wasm32 C get js =
        .ok (plaintext.drop (padded - metadata.originalFileLength)) ↔
      js.length = credentialLength ∧ Addressable metadata padded ∧
      (metadata.originalFileLength ≤ v21WholeFileThresholdBytes ∨
        (metadata.segmentCode ≠ 0 ∨ metadata.numTokens = 1) ∧
          ¬ EmptyLastBlock C uploads (toUtf8 js)) := by
  have hd := h.described
  constructor
  · intro hdata
    obtain ⟨hlength, ⟨p, hp, hle⟩, hsame⟩ := lengths_of_download hd.split (hget _ _ h.token0) hparse hdata
    rw [wasm32_size_eq] at hp hle hsame
    have hthreshold : v21WholeFileThresholdBytes < 2 ^ 32 := by decide
    have hfile : metadata.originalFileLength < 2 ^ 32 := by omega
    rw [Nat.mod_eq_of_lt hfile] at hle
    have hcount := recordCount_le_div padded metadata.segmentCode
    have hcipher := hd.cipherLength_eq
    rw [cipherLength] at hcipher
    obtain ⟨ha, hnative⟩ := addressable_of_length hp hle (by omega)
    obtain rfl := Except.ok.inj (hnative.symm.trans hd.length)
    exact ⟨hlength, ha, (downloadAdaptive_addressable hlength h hparse ha haccepts hget).mp hdata⟩
  · rintro ⟨hlength, ha, hway⟩
    exact (downloadAdaptive_addressable hlength h hparse ha haccepts hget).mpr hway

end TwelveC.Client.DownloadDecode
