import TwelveC.Segment

/-!
# Wire layout

`compute_wire_layout` cuts the sealed object into `m` tokens of `B` octets with
`m * B = 373 + |C|`, looking for the smallest usable `m`. Where no `m` divides,
it prefixes zero octets to the plaintext and tries again. The definitions are
parameterised by the arithmetic of the build; the bounds are the source's.
-/

namespace TwelveC

structure WireLayout where
  numTokens : Nat := 0
  wireBlockSize : Nat := 0
  ciphertextLength : Nat := 0
  totalWireBytes : Nat := 0
  lastBlockLength : Nat := 0
  plaintextPadding : Nat := 0
  deriving DecidableEq, Repr

namespace WireLayout

open Segment

variable (M : Machine)

/-- The schema check behind `sm_enc_size` is `Smb.estimate_skeleton`. -/
def smEncSize : Nat := kSmEncBytes

def minWireBlockSize (totalWire maxWireBlockBytes : Nat) : Nat :=
  min maxWireBlockBytes (totalWire / kMinBlockSizeDivisor)

def maxTokenCount (totalWire smEncBytes maxWireBlockBytes : Nat) : Except Exn Nat :=
  if totalWire < smEncBytes then
    .error (.logicError "total wire smaller than encrypted SMB")
  else
    let minBlock := minWireBlockSize totalWire maxWireBlockBytes
    if minBlock = 0 then .ok 1
    else
      let byMinBlock := totalWire / minBlock
      let bySmbFloor := totalWire / smEncBytes
      .ok (max 1 (min byMinBlock bySmbFloor))

def minTokenCount (totalWire ciphertextLength maxTokens maxWireBlockBytes : Nat) :
    Except Exn Nat := do
  let relayMin ← ceilDiv M totalWire maxWireBlockBytes
  let refMin ← ceilDiv M ciphertextLength kWireBlockRef
  let minTokens := max 1 relayMin
  return if refMin ≤ maxTokens then max minTokens refMin else minTokens

/-- The test of one candidate in the two loops of `choose_num_tokens`. -/
def fits (totalWire maxWireBlockBytes candidate : Nat) : Bool :=
  totalWire % candidate == 0 &&
    decide (minWireBlockSize totalWire maxWireBlockBytes ≤ totalWire / candidate) &&
    decide (totalWire / candidate ≤ maxWireBlockBytes)

/-- `for (candidate = first; candidate <= last; ++candidate)` up to the first hit. -/
def firstFit (totalWire maxWireBlockBytes first last : Nat) : Option Nat :=
  (List.range' first (last + 1 - first)).find? (fits totalWire maxWireBlockBytes)

def preferredEnd (minM maxM : Nat) : Nat := min (M.size (minM + kMaxTokenAdjust)) maxM

def chooseNumTokens (totalWire ciphertextLength smEncBytes maxWireBlockBytes : Nat) :
    Except Exn Nat := do
  let maxM ← maxTokenCount totalWire smEncBytes maxWireBlockBytes
  let minM ← minTokenCount M totalWire ciphertextLength maxM maxWireBlockBytes
  if maxM < minM then
    throw (.logicError "wire layout: token range empty")
  else
    match firstFit totalWire maxWireBlockBytes minM (preferredEnd M minM maxM) with
    | some candidate => return M.u32 candidate
    | none =>
      match firstFit totalWire maxWireBlockBytes (M.size (preferredEnd M minM maxM + 1)) maxM with
      | some candidate => return M.u32 candidate
      | none => throw (.logicError "wire layout failed to choose num_tokens")

def computeWireLayoutExact (plaintextLength segmentCode maxWireBlockBytes : Nat) :
    Except Exn WireLayout := do
  let ciphertextLength ← ciphertextLengthFromPlaintext M plaintextLength segmentCode
  let smEncBytes := smEncSize
  let totalWireBytes := M.size (smEncBytes + ciphertextLength)
  let numTokens ← chooseNumTokens M totalWireBytes ciphertextLength smEncBytes maxWireBlockBytes
  -- a zero `num_tokens`, possible only after the 32-bit cast, traps in the division
  throwIf (numTokens = 0) .stuck
  throwIf (totalWireBytes % numTokens ≠ 0)
    (.logicError "wire layout failed to partition total wire bytes")
  let wireBlockSize := M.u32 (totalWireBytes / numTokens)
  throwIf (wireBlockSize < smEncBytes) (.logicError "wire block smaller than encrypted SMB")
  throwIf (maxWireBlockBytes < wireBlockSize)
    (.logicError "wire block exceeds relay max body size")
  throwIf (wireBlockSize < minWireBlockSize totalWireBytes maxWireBlockBytes)
    (.logicError "wire block smaller than minimum block size")
  let lastBlockLength := M.sizeSub ciphertextLength (M.size ((numTokens - 1) * wireBlockSize))
  throwIf (M.size (smEncBytes + lastBlockLength) ≠ wireBlockSize)
    (.logicError "token0 payload does not fill one wire block")
  return { numTokens, wireBlockSize, ciphertextLength, totalWireBytes, lastBlockLength }

/-- The candidate loop of `next_layout_padding`. -/
def paddingCandidates (totalWire minBlock maxWireBlockBytes : Nat) : List Nat → Nat
  | [] => 1
  | candidate :: rest =>
    let remainder := totalWire % candidate
    if remainder = 0 then
      let blockSize := totalWire / candidate
      if minBlock ≤ blockSize ∧ blockSize ≤ maxWireBlockBytes then 0
      else paddingCandidates totalWire minBlock maxWireBlockBytes rest
    else candidate - remainder

def nextLayoutPadding (plaintextLength smEncBytes segmentCode maxWireBlockBytes : Nat) :
    Except Exn Nat := do
  let ciphertextLength ← ciphertextLengthFromPlaintext M plaintextLength segmentCode
  let totalWire := M.size (smEncBytes + ciphertextLength)
  let maxM ← maxTokenCount totalWire smEncBytes maxWireBlockBytes
  let minM ← minTokenCount M totalWire ciphertextLength maxM maxWireBlockBytes
  if maxM < minM then
    let alignedTotal := M.size (minM * maxWireBlockBytes)
    if totalWire < alignedTotal then
      return alignedTotal - totalWire
    else
      return if totalWire % minM = 0 then 1 else minM - totalWire % minM
  else
    let minBlock := minWireBlockSize totalWire maxWireBlockBytes
    return paddingCandidates totalWire minBlock maxWireBlockBytes
      (List.range' minM (maxM + 1 - minM))

def validateMaxWireBlockBytes (maxWireBlockBytes : Nat) : Except Exn Unit :=
  if maxWireBlockBytes < smEncSize then
    .error (.invalidArgument "max_wire_block_bytes smaller than encrypted SMB size")
  else if kRelayMaxBodyBytesCap < maxWireBlockBytes then
    .error (.invalidArgument "max_wire_block_bytes exceeds implementation cap")
  else .ok ()

def maxPlaintextPaddingForLayout (maxWireBlockBytes : Nat) : Nat :=
  max kMaxPlaintextPaddingForWireLayout maxWireBlockBytes

def searchFailed : Exn := .logicError "wire layout failed after plaintext padding search"

/-- The `while (padding <= padding_limit)` loop, with fuel. -/
def paddingSearch (plaintextLength segmentCode maxWireBlockBytes paddingLimit : Nat) :
    Nat → Nat → Except Exn WireLayout
  | 0, _ => .error .stuck
  | fuel + 1, padding =>
    if padding ≤ paddingLimit then
      match computeWireLayoutExact M (M.size (plaintextLength + padding)) segmentCode
          maxWireBlockBytes with
      | .ok layout => .ok { layout with plaintextPadding := padding }
      | .error e =>
        if e.isLogicError then do
          let step ← nextLayoutPadding M (M.size (plaintextLength + padding)) smEncSize segmentCode
            maxWireBlockBytes
          if step = 0 then .error searchFailed
          else
            paddingSearch plaintextLength segmentCode maxWireBlockBytes paddingLimit fuel
              (M.size (padding + step))
        else .error e
    else .error searchFailed

def computeWireLayout (plaintextLength segmentCode maxWireBlockBytes : Nat) :
    Except Exn WireLayout := do
  validateSegmentCodeV21 segmentCode
  validateMaxWireBlockBytes maxWireBlockBytes
  let paddingLimit := maxPlaintextPaddingForLayout maxWireBlockBytes
  paddingSearch M plaintextLength segmentCode maxWireBlockBytes paddingLimit (paddingLimit + 2) 0

/-- What `validate_max_wire_block_bytes` accepts. -/
def AcceptedBlockBytes (maxWireBlockBytes : Nat) : Prop :=
  kSmEncBytes ≤ maxWireBlockBytes ∧ maxWireBlockBytes ≤ kRelayMaxBodyBytesCap

instance (w : Nat) : Decidable (AcceptedBlockBytes w) := inferInstanceAs (Decidable (_ ∧ _))

theorem acceptedBlockBytes_iff (w : Nat) :
    AcceptedBlockBytes w ↔ 373 ≤ w ∧ w ≤ 32 * 1024 * 1024 := Iff.rfl

theorem validateMaxWireBlockBytes_ok (w : Nat) :
    validateMaxWireBlockBytes w = .ok () ↔ AcceptedBlockBytes w := by
  have hcap : kRelayMaxBodyBytesCap = 32 * 1024 * 1024 := rfl
  simp only [validateMaxWireBlockBytes, acceptedBlockBytes_iff, smEncSize, kSmEncBytes_eq, hcap]
  by_cases h : w < 373
  · simp [h]
  · by_cases h' : 32 * 1024 * 1024 < w
    · simp only [h, h', if_true, if_false]; simp; omega
    · simp only [h, h', if_false]; simp; omega

end WireLayout
end TwelveC
