import TwelveC.Receiver

/-!
# The streaming receiver

`ReceiveDecryptSession` is made from token 0 and fed the data tokens in order. In
a segmented object each record is opened with its last octet, and its plaintext
waits in a queue for `take_plaintext_chunk`, which leaves out the padding. The
last block, which came with token 0, and the Merkle root are left to
`complete_finalize`; a whole-file object is opened only there.
-/

namespace TwelveC

structure ReceiveDecryptSession where
  credentialParts : CredentialParts
  metadata : SmbMetadata
  token0Wire : Bytes
  wireBlockSize : Nat
  lastBlockLength : Nat
  paddedPlaintextLength : Nat
  originalFileLength : Nat
  leafHashes : List Bytes
  nextTokenIndex : Nat := 1
  kFek : Bytes := []
  kFekReady : Bool := false
  ciphertextPackBuffer : Bytes := []
  segmentPlaintextBytes : Nat := 0
  remainingPlaintext : Nat := 0
  readyPlaintextParts : List Bytes := []
  readyPlaintextOffset : Nat := 0
  producedPlaintextBytes : Nat := 0
  consumedPaddedBytes : Nat := 0
  exportedFileBytes : Nat := 0
  prefixSkipRemaining : Nat := 0
  plaintextPadded : Bytes := []
  finalized : Bool := false

namespace ReceiveSession

open Segment Payload Merkle Smb Crypto

variable (M : Machine) (C : Primitives)

def new (credential : Str) (token0Wire : Bytes) : Except Exn ReceiveDecryptSession := do
  let credentialParts ← splitCredential credential
  let metadata ← parseSmbEncrypted M C credential token0Wire
  throwIf (metadata.numTokens = 0)
    (.runtimeError "receive decrypt session: num_tokens is zero")
  throwIf (token0Wire.length ≠ metadata.wireBlockSize)
    (.runtimeError "receive decrypt session: token0 wire size mismatch")
  let ciphertextLength := M.size metadata.ciphertextLength
  let lastBlockLength := M.sizeSub ciphertextLength
    (M.size ((metadata.numTokens - 1) * metadata.wireBlockSize))
  throwIf (M.size (kSmEncBytes + lastBlockLength) ≠ metadata.wireBlockSize)
    (.runtimeError "receive decrypt session: token0 layout invalid")
  let paddedPlaintextLength ←
    paddedPlaintextLengthFromCiphertext M ciphertextLength metadata.segmentCode
  let originalFileLength := M.size metadata.originalFileLength
  throwIf (paddedPlaintextLength < originalFileLength)
    (.runtimeError "ciphertext length smaller than original file")
  let session : ReceiveDecryptSession :=
    { credentialParts, metadata, token0Wire, wireBlockSize := metadata.wireBlockSize,
      lastBlockLength, paddedPlaintextLength, originalFileLength,
      leafHashes := List.replicate metadata.numTokens [] }
  if isV21SegmentedMode metadata.segmentCode then
    let segmentPlaintextBytes ← decodeSegmentPlaintextBytesV21 metadata.segmentCode
    return { session with
      segmentPlaintextBytes
      remainingPlaintext := paddedPlaintextLength
      prefixSkipRemaining := paddedPlaintextLength - originalFileLength }
  else return session

def enqueuePlaintext (chunk : Bytes) (s : ReceiveDecryptSession) : ReceiveDecryptSession :=
  { s with
    producedPlaintextBytes := s.producedPlaintextBytes + chunk.length
    readyPlaintextParts := s.readyPlaintextParts ++ [chunk] }

def readyPlaintextAvailable (s : ReceiveDecryptSession) : Nat :=
  match s.readyPlaintextParts with
  | [] => 0
  | front :: rest => (front.length - s.readyPlaintextOffset) + (rest.map List.length).sum

def readyFileBytesAvailable (s : ReceiveDecryptSession) : Nat :=
  readyPlaintextAvailable s - s.prefixSkipRemaining

/-- The `while` loop of `advance_ready_front`. -/
def popConsumed : List Bytes → Nat → List Bytes × Nat
  | [], offset => ([], offset)
  | front :: rest, offset =>
    if front.length ≤ offset then popConsumed rest (offset - front.length)
    else (front :: rest, offset)

def advanceReadyFront (byteCount : Nat) (s : ReceiveDecryptSession) : ReceiveDecryptSession :=
  if byteCount = 0 then s
  else
    let (parts, offset) := popConsumed s.readyPlaintextParts (s.readyPlaintextOffset + byteCount)
    { s with
      consumedPaddedBytes := s.consumedPaddedBytes + byteCount
      readyPlaintextParts := parts
      readyPlaintextOffset := offset }

/-- The loop of `drain_ready_queue`. Every round pops a part or moves on by an octet. -/
def drainLoop (maxOutputBytes : Nat) :
    Nat → Bytes → ReceiveDecryptSession → Bytes × ReceiveDecryptSession
  | 0, output, s => (output, s)
  | fuel + 1, output, s =>
    if output.length < maxOutputBytes then
      match s.readyPlaintextParts with
      | [] => (output, s)
      | front :: rest =>
        let frontAvailable := front.length - s.readyPlaintextOffset
        if frontAvailable = 0 then
          drainLoop maxOutputBytes fuel output
            { s with readyPlaintextParts := rest, readyPlaintextOffset := 0 }
        else if 0 < s.prefixSkipRemaining then
          let skip := min frontAvailable s.prefixSkipRemaining
          drainLoop maxOutputBytes fuel output
            { advanceReadyFront skip s with prefixSkipRemaining := s.prefixSkipRemaining - skip }
        else
          let take := min frontAvailable (maxOutputBytes - output.length)
          drainLoop maxOutputBytes fuel
            (output ++ (front.drop s.readyPlaintextOffset).take take) (advanceReadyFront take s)
    else (output, s)

def drainReadyQueue (maxOutputBytes : Nat) (s : ReceiveDecryptSession) :
    Bytes × ReceiveDecryptSession :=
  if maxOutputBytes = 0 then ([], s)
  else
    let rounds := (s.readyPlaintextParts.map List.length).sum + s.readyPlaintextParts.length
    let (output, s) := drainLoop maxOutputBytes rounds [] s
    (output, { s with exportedFileBytes := s.exportedFileBytes + output.length })

def drainPlaintextBuffer (maxBytes : Nat) (s : ReceiveDecryptSession) :
    Bytes × ReceiveDecryptSession :=
  (s.plaintextPadded.take maxBytes, { s with plaintextPadded := s.plaintextPadded.drop maxBytes })

def takePlaintextChunk (maxBytes : Nat) (s : ReceiveDecryptSession) :
    Except Exn (Bytes × ReceiveDecryptSession) :=
  if isV21SegmentedMode s.metadata.segmentCode then .ok (drainReadyQueue maxBytes s)
  else do
    throwIf (¬ s.finalized) (.runtimeError "receive decrypt session: finalize not completed")
    return drainPlaintextBuffer maxBytes s

/-- What a member function that changes the session leaves: a thrown exception comes with the
session as it is by then. -/
abbrev Outcome := Except (Exn × ReceiveDecryptSession) ReceiveDecryptSession

/-- An exception thrown where the session is `s`. -/
def thrownAt {α : Type} (s : ReceiveDecryptSession) (x : Except Exn α) :
    Except (Exn × ReceiveDecryptSession) α :=
  x.mapError fun e => (e, s)

def readyFek (s : ReceiveDecryptSession) : Outcome :=
  if s.kFekReady then .ok s
  else do
    let kKek := slowKdf C s.credentialParts.keyCode s.metadata.saltRand
    let kFek ← thrownAt s (decrypt C kKek s.metadata.encryptedFek.pack)
    return { s with kFek, kFekReady := true }

/-- The end of a round of `feed_ciphertext`, with a whole record in the buffer. -/
def openSegment (segmentPlainLength : Nat) (s : ReceiveDecryptSession) : Outcome := do
  let s ← readyFek C s
  let segmentPlain ← thrownAt s (decrypt C s.kFek s.ciphertextPackBuffer)
  thrownAt s (throwIf (segmentPlain.length ≠ segmentPlainLength)
    (.runtimeError "receive decrypt session: V2.1 segment plaintext length mismatch"))
  return { enqueuePlaintext segmentPlain s with
    ciphertextPackBuffer := []
    remainingPlaintext := s.remainingPlaintext - segmentPlainLength }

/-- The `while (offset < length)` loop on the octets from `offset` on. Only the first round can find
the buffer full, so one round more than there are octets is fuel enough. -/
def feedSegments : Nat → Bytes → ReceiveDecryptSession → Outcome
  | _, [], s => .ok s
  | 0, _ :: _, s => .error (.stuck, s)
  | fuel + 1, b :: data, s =>
    let segmentPlainLength := min s.segmentPlaintextBytes s.remainingPlaintext
    let segmentPackLength := segmentPlainLength + kGcmEnvelopeBytes
    let wanted := segmentPackLength - s.ciphertextPackBuffer.length
    let s := { s with
      ciphertextPackBuffer := s.ciphertextPackBuffer ++ (b :: data).take wanted }
    if s.ciphertextPackBuffer.length < segmentPackLength then .ok s
    else do
      let s ← openSegment C segmentPlainLength s
      feedSegments fuel ((b :: data).drop wanted) s

def feedCiphertext (data : Bytes) (s : ReceiveDecryptSession) : Outcome :=
  if data.length = 0 then .ok s
  else if ¬ isV21SegmentedMode s.metadata.segmentCode then
    .ok { s with ciphertextPackBuffer := s.ciphertextPackBuffer ++ data }
  else feedSegments C (data.length + 1) data s

def addWireToken (tokenIndex : Nat) (wireData : Bytes) (s : ReceiveDecryptSession) : Outcome := do
  thrownAt s (throwIf s.finalized (.runtimeError "receive decrypt session already finalized"))
  thrownAt s (throwIf (tokenIndex ≠ s.nextTokenIndex)
    (.runtimeError "receive decrypt session: out-of-order wire token index"))
  thrownAt s (throwIf (tokenIndex = 0 ∨ s.metadata.numTokens ≤ tokenIndex)
    (.runtimeError "receive decrypt session: invalid wire token index"))
  thrownAt s (throwIf (wireData.length ≠ s.wireBlockSize)
    (.runtimeError "receive decrypt session: wire block size mismatch"))
  let s ← feedCiphertext C wireData
    { s with leafHashes := s.leafHashes.set (tokenIndex - 1) (C.sha256 wireData) }
  return { s with nextTokenIndex := M.u32 (s.nextTokenIndex + 1) }

/-- An empty last block is left without a leaf hash. -/
def feedLastLogicalBlock (s : ReceiveDecryptSession) : Outcome :=
  if s.lastBlockLength = 0 then .ok s
  else do
    let block ← thrownAt s (slice s.token0Wire kSmEncBytes (M.size (kSmEncBytes + s.lastBlockLength)))
    let s ← feedCiphertext C block
      { s with leafHashes := s.leafHashes.set (s.metadata.numTokens - 1) (C.sha256 block) }
    return { s with token0Wire := [] }

def finishWholeFile (s : ReceiveDecryptSession) : Outcome := do
  let s ← readyFek C s
  let plaintextPadded ← thrownAt s
    (decryptPayloadV2WholeFile C s.kFek s.ciphertextPackBuffer s.paddedPlaintextLength)
  let s := { s with
    plaintextPadded := plaintextPadded.drop (s.paddedPlaintextLength - s.originalFileLength)
    ciphertextPackBuffer := [] }
  thrownAt s (throwIf (s.plaintextPadded.length ≠ s.originalFileLength)
    (.runtimeError "decrypted plaintext shorter than expected"))
  return s

def finishSegmented (s : ReceiveDecryptSession) : Outcome := do
  thrownAt s (throwIf (s.ciphertextPackBuffer ≠ [] ∨ s.remainingPlaintext ≠ 0)
    (.runtimeError "receive decrypt session: incomplete V2.1 ciphertext stream"))
  thrownAt s (throwIf (s.producedPlaintextBytes ≠ s.paddedPlaintextLength)
    (.runtimeError "receive decrypt session: decrypted plaintext length mismatch"))
  thrownAt s (throwIf (s.consumedPaddedBytes + readyPlaintextAvailable s ≠ s.producedPlaintextBytes)
    (.runtimeError "receive decrypt session: padded plaintext accounting mismatch"))
  thrownAt s (throwIf (s.exportedFileBytes + readyFileBytesAvailable s ≠ s.originalFileLength)
    (.runtimeError "receive decrypt session: file plaintext accounting mismatch"))
  return { s with ciphertextPackBuffer := [] }

def completeFinalize (s : ReceiveDecryptSession) : Outcome := do
  thrownAt s (throwIf s.finalized (.runtimeError "receive decrypt session already finalized"))
  thrownAt s (throwIf (s.nextTokenIndex ≠ s.metadata.numTokens)
    (.runtimeError "receive decrypt session: missing wire tokens"))
  let s ← feedLastLogicalBlock M C s
  thrownAt s (throwIf (¬ verifyMerkleRootFromLeafHashes C s.leafHashes s.metadata.rootHash)
    (.runtimeError "merkle root verification failed"))
  let s := { s with leafHashes := [] }
  let s ← if isV2WholeFileMode s.metadata.segmentCode then finishWholeFile C s
    else finishSegmented s
  return { s with finalized := true }

/-- What the loop of `finalize` finds left. -/
def remainingFileBytes (s : ReceiveDecryptSession) : Nat :=
  if isV21SegmentedMode s.metadata.segmentCode then readyFileBytesAvailable s
  else s.plaintextPadded.length

/-- The `while (true)` loop of `finalize`. Every round but the last takes an octet or more. -/
def finalizeLoop : Nat → Bytes → ReceiveDecryptSession → Except Exn (Bytes × ReceiveDecryptSession)
  | 0, _, _ => .error .stuck
  | fuel + 1, output, s =>
    let remaining := remainingFileBytes s
    if remaining = 0 then .ok (output, s)
    else do
      let (chunk, s) ← takePlaintextChunk (max remaining 1) s
      if chunk = [] then return (output, s)
      else finalizeLoop fuel (output ++ chunk) s

def finalize (s : ReceiveDecryptSession) :
    Except (Exn × ReceiveDecryptSession) (Bytes × ReceiveDecryptSession) := do
  let s ← completeFinalize M C s
  let (output, s) ← thrownAt s (finalizeLoop (remainingFileBytes s + 1) [] s)
  thrownAt s (throwIf (output.length ≠ s.originalFileLength)
    (.runtimeError "decrypted plaintext shorter than expected"))
  return (output, s)

end ReceiveSession

end TwelveC
