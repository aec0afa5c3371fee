import TwelveC.Sender

/-!
# The streaming sender

`UploadPrepareSession` is fed the file in chunks. A full segment of plaintext is
sealed at once and its record appended to the pending ciphertext; whenever a
whole wire block is pending, it is handed to the ready list under its token.
Token 0 is made by `finalize`.
-/

namespace TwelveC

structure UploadWireBlock where
  token : Str
  data : Bytes
  deriving DecidableEq, Repr

/-- What the constructor fixes. -/
structure UploadConfig where
  credentialParts : CredentialParts
  layout : WireLayout
  segmentCode : Nat
  originalFileName : Str
  originalFileSize : Nat
  segmentPlaintextBytes : Nat
  kSmb : Bytes
  kKek : Bytes
  kFek : Bytes
  saltRand : Bytes

structure UploadPrepareSession extends UploadConfig where
  fileBytesFed : Nat := 0
  paddingRemaining : Nat
  segmentBuffer : Bytes := []
  wirePending : Bytes := []
  leafHashes : List Bytes := []
  readyBlocks : List UploadWireBlock := []
  emittedLeadingCount : Nat := 0
  finalized : Bool := false

namespace UploadSession

open Segment WireLayout Merkle Smb Crypto Sender

variable (M : Machine) (C : Primitives)

/-- `segment_plaintext_bytes_`: the plaintext octets of one record. -/
def segmentPlaintextBytes (layout : WireLayout) (filePlaintextSize segmentCode : Nat) :
    Except Exn Nat :=
  if isV2WholeFileMode segmentCode then .ok (M.size (filePlaintextSize + layout.plaintextPadding))
  else decodeSegmentPlaintextBytesV21 segmentCode

def new (credential originalFileName : Str) (filePlaintextSize segmentCode maxWireBlockBytes : Nat) :
    RandM UploadPrepareSession := do
  let credentialParts ← splitCredential credential
  validateSegmentCodeV21 segmentCode
  let layout ← computeWireLayout M filePlaintextSize segmentCode maxWireBlockBytes
  let segmentPlaintextBytes ← segmentPlaintextBytes M layout filePlaintextSize segmentCode
  let saltRand ← randomBytes kSaltRandBytes
  let kFek ← generateFek
  return { credentialParts, layout, segmentCode, originalFileName,
           originalFileSize := filePlaintextSize, segmentPlaintextBytes,
           kSmb := slowKdf C credentialParts.keyCode kSaltFixKey,
           kKek := slowKdf C credentialParts.keyCode saltRand, kFek, saltRand,
           paddingRemaining := layout.plaintextPadding }

def isFeedComplete (s : UploadPrepareSession) : Prop := s.originalFileSize ≤ s.fileBytesFed

instance (s : UploadPrepareSession) : Decidable (isFeedComplete s) :=
  inferInstanceAs (Decidable (_ ≤ _))

/-- The body of the loop of `try_emit_leading_blocks`. -/
def emitLeadingBlock (s : UploadPrepareSession) : UploadPrepareSession :=
  let block := s.wirePending.take s.layout.wireBlockSize
  let tokenIndex := M.u32 (s.emittedLeadingCount + 1)
  { s with
    wirePending := s.wirePending.drop s.layout.wireBlockSize
    leafHashes := s.leafHashes ++ [hashBlock C block]
    readyBlocks := s.readyBlocks ++
      [⟨deriveUploadToken C s.credentialParts.searchCode kSaltFixSearch tokenIndex, block⟩]
    emittedLeadingCount := s.emittedLeadingCount + 1 }

/-- Every round emits one of at most `num_tokens - 1` blocks, which bounds the fuel. -/
def tryEmitLeadingBlocks : Nat → UploadPrepareSession → UploadPrepareSession
  | 0, s => s
  | fuel + 1, s =>
    if s.emittedLeadingCount < s.layout.numTokens - 1 ∧
        s.layout.wireBlockSize ≤ s.wirePending.length then
      tryEmitLeadingBlocks fuel (emitLeadingBlock M C s)
    else s

def appendCiphertextPack (pack : Bytes) (s : UploadPrepareSession) : UploadPrepareSession :=
  tryEmitLeadingBlocks M C s.layout.numTokens { s with wirePending := s.wirePending ++ pack }

/-- A forced round empties the buffer and an unforced one returns, so the loop makes one round. -/
def flushSegmentBufferIfReady (force : Bool) (s : UploadPrepareSession) :
    RandM UploadPrepareSession :=
  if s.segmentBuffer = [] then return s
  else if !force && s.segmentBuffer.length < s.segmentPlaintextBytes then return s
  else do
    let take := if force then s.segmentBuffer.length else s.segmentPlaintextBytes
    if take = 0 then return s
    else
      let segmentPack ← encrypt C s.kFek (s.segmentBuffer.take take)
      return appendCiphertextPack M C segmentPack
        { s with segmentBuffer := s.segmentBuffer.drop take }

def flushIfFull (s : UploadPrepareSession) : RandM UploadPrepareSession :=
  if s.segmentPlaintextBytes ≤ s.segmentBuffer.length then flushSegmentBufferIfReady M C false s
  else return s

/-- The loop that `append_plaintext_bytes` and `append_padding_zeros` share, on the octets still to
be appended. A round that takes none uses up fuel all the same. -/
def appendLoop : Nat → Bytes → UploadPrepareSession → RandM UploadPrepareSession
  | _, [], s => return s
  | 0, _ :: _, _ => throw .stuck
  | fuel + 1, b :: data, s => do
    let s ← flushIfFull M C s
    let take := min (b :: data).length (s.segmentPlaintextBytes - s.segmentBuffer.length)
    if take = 0 then
      let s ← flushSegmentBufferIfReady M C false s
      appendLoop fuel (b :: data) s
    else
      let s ← flushIfFull M C { s with segmentBuffer := s.segmentBuffer ++ (b :: data).take take }
      appendLoop fuel ((b :: data).drop take) s

def sessionFinalized : Exn := .runtimeError "upload prepare session already finalized"

def appendPlaintextBytes (data : Bytes) (s : UploadPrepareSession) :
    RandM UploadPrepareSession := do
  throwIf s.finalized sessionFinalized
  appendLoop M C data.length data s

def appendPaddingZeros (count : Nat) (s : UploadPrepareSession) : RandM UploadPrepareSession := do
  throwIf s.finalized sessionFinalized
  appendLoop M C count (List.replicate count 0) s

/-- The `while (padding_remaining_ > 0)` loop of `feed`; each batch takes at least one octet. -/
def padLoop : Nat → UploadPrepareSession → RandM UploadPrepareSession
  | 0, s => if 0 < s.paddingRemaining then throw .stuck else return s
  | fuel + 1, s =>
    if 0 < s.paddingRemaining then do
      let padBatch := min s.paddingRemaining (64 * 1024)
      let s ← appendPaddingZeros M C padBatch s
      padLoop fuel { s with paddingRemaining := s.paddingRemaining - padBatch }
    else return s

def appendChunk (chunk : Bytes) (s : UploadPrepareSession) : RandM UploadPrepareSession :=
  if chunk.isEmpty then return s else appendPlaintextBytes M C chunk s

def flushWhenComplete (s : UploadPrepareSession) : RandM UploadPrepareSession :=
  if isFeedComplete s then flushSegmentBufferIfReady M C true s else return s

def feed (chunk : Bytes) (s : UploadPrepareSession) : RandM UploadPrepareSession := do
  throwIf s.finalized sessionFinalized
  throwIf (s.originalFileSize < M.size (s.fileBytesFed + chunk.length))
    (.runtimeError "upload prepare feed exceeds file size")
  let s ← padLoop M C s.paddingRemaining s
  let s ← appendChunk M C chunk s
  flushWhenComplete M C { s with fileBytesFed := M.size (s.fileBytesFed + chunk.length) }

def takeReadyBlocks (s : UploadPrepareSession) : List UploadWireBlock × UploadPrepareSession :=
  (s.readyBlocks, { s with readyBlocks := [] })

def finalize (s : UploadPrepareSession) : RandM (UploadWireBlock × UploadPrepareSession) := do
  throwIf s.finalized sessionFinalized
  throwIf (¬ isFeedComplete s) (.runtimeError "upload prepare feed incomplete")
  throwIf (s.paddingRemaining ≠ 0) (.runtimeError "upload prepare padding incomplete")
  throwIf (s.segmentBuffer ≠ []) (.runtimeError "upload prepare segment buffer not flushed")
  throwIf (s.emittedLeadingCount ≠ s.layout.numTokens - 1)
    (.runtimeError "upload prepare leading block count mismatch")
  throwIf (s.wirePending.length ≠ s.layout.lastBlockLength)
    (.runtimeError "upload prepare last block length mismatch")
  let merkleTree := buildMerkleTreeFromLeafHashes C (s.leafHashes ++ [hashBlock C s.wirePending])
  let encryptedFek ← encrypt C s.kKek s.kFek
  let encryptedFekBlob ← EncryptedBlob.unpack encryptedFek
  let metadata := uploadMetadata s.layout merkleTree.rootHash encryptedFekBlob s.saltRand
    s.originalFileSize s.originalFileName s.segmentCode
  let smBytes := serializeSmb C metadata
  throwIf (smBytes.length ≠ kSmPlainBytes) (.runtimeError "SMB plaintext size mismatch")
  let sEnc ← encrypt C s.kSmb smBytes
  throwIf (sEnc.length ≠ kSmEncBytes) (.runtimeError "SMB encrypted size mismatch")
  let token0 := sEnc ++ s.wirePending
  throwIf (token0.length ≠ s.layout.wireBlockSize) (.runtimeError "token0 wire size mismatch")
  return (⟨deriveUploadToken C s.credentialParts.searchCode kSaltFixSearch 0, token0⟩,
    { s with saltRand := [], wirePending := [], finalized := true })

/-- What the caller does between construction and `finalize`. -/
inductive Action where
  | feed (chunk : Bytes)
  | take
  deriving DecidableEq, Repr

/-- The octets an action feeds. -/
def Action.fed : Action → Bytes
  | .feed chunk => chunk
  | .take => []

/-- The blocks taken along the way, in order, and the session at the end. -/
def runActions : List Action → UploadPrepareSession →
    RandM (List UploadWireBlock × UploadPrepareSession)
  | [], s => return ([], s)
  | .feed chunk :: actions, s => do
    let s ← feed M C chunk s
    runActions actions s
  | .take :: actions, s => do
    let (blocks, s) := takeReadyBlocks s
    let (rest, s) ← runActions actions s
    return (blocks ++ rest, s)

/-- A whole run: all the blocks handed out, `finalize`'s block among them, and those still ready
taken at the end. -/
def run (credential originalFileName : Str) (filePlaintextSize segmentCode maxWireBlockBytes : Nat)
    (actions : List Action) : RandM (List UploadWireBlock) := do
  let s ← new M C credential originalFileName filePlaintextSize segmentCode maxWireBlockBytes
  let (taken, s) ← runActions M C actions s
  let (block0, s) ← finalize C s
  return taken ++ [block0] ++ (takeReadyBlocks s).1

end UploadSession
end TwelveC
