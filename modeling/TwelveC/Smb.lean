import TwelveC.Crypto
import TwelveC.Segment
import TwelveC.Lib.Word
import Mathlib.Data.List.DropRight

/-!
# The secure metadata block

The SMB carries the Merkle root, the encrypted file key, its salt, the layout
and the file name, with a body hash and a payload hash. Its name slot has 128
octets; a segmented object keeps the segment code in octets 120 and 121 of it.
Readers take the buffer and an offset and return the value and the new offset;
offsets are `size_t` values of the build.
-/

namespace TwelveC

structure SmbMetadata where
  rootHash : Bytes
  encryptedFek : EncryptedBlob
  saltRand : Bytes
  numTokens : Nat
  wireBlockSize : Nat
  ciphertextLength : Nat
  originalFileLength : Nat
  originalFileName : Str
  segmentCode : Nat
  deriving DecidableEq, Repr

namespace Smb

open Segment Crypto Lib.Word

variable (M : Machine) (C : Primitives)

def isPathSeparator (c : UInt8) : Bool := c == 47 || c == 92

/-- `(c & 0xC0) == 0x80` -/
def isUtf8Continuation (c : UInt8) : Bool := c &&& 0xC0 == 0x80

/-- `resize(limit)`, then `pop_back` over a cut character's continuation octets. -/
def truncateName (limit : Nat) (name : Str) : Str :=
  if limit < name.length then (name.take limit).rdropWhile isUtf8Continuation else name

def normalizeOriginalFileName (input : Str) : Str :=
  let name := (input.rtakeWhile fun c => !isPathSeparator c).filter (· != 0)
  truncateName kMaxOriginalFileNameBytes name

def appendU32 (buffer : Bytes) (value : Nat) : Bytes := buffer ++ bigEndian 4 value

def appendBytes (buffer data : Bytes) : Bytes := appendU32 buffer data.length ++ data

def appendU64 (buffer : Bytes) (value : Nat) : Bytes := buffer ++ bigEndian 8 value

/-- `field(128, 0)` with `name` copied over its front, for a name of at most 128 octets. -/
def zeroPadded (width : Nat) (name : Str) : Bytes := name ++ List.replicate (width - name.length) 0

def appendFixedFileNameV2 (buffer : Bytes) (fileName : Str) : Bytes :=
  buffer ++ zeroPadded kMaxOriginalFileNameBytes (fileName.take kMaxOriginalFileNameBytes)

def appendFixedFileNameV21 (buffer : Bytes) (fileName : Str) (segmentCode : Nat) : Bytes :=
  buffer ++ zeroPadded kV21SegmentCodeFieldOffset (fileName.take kV21FileNamePayloadBytes) ++
    [UInt8.ofNat segmentCode, UInt8.ofNat (segmentCode / 256)] ++
    List.replicate (kMaxOriginalFileNameBytes - kV21SegmentCodeFieldOffset - 2) 0

def appendFixedFileNameField (buffer : Bytes) (fileName : Str) (segmentCode : Nat) : Bytes :=
  if segmentCode = kV2SegmentCodeWholeFile then appendFixedFileNameV2 buffer fileName
  else appendFixedFileNameV21 buffer fileName segmentCode

def buildBody (metadata : SmbMetadata) : Bytes :=
  let body := appendBytes [] metadata.rootHash
  let body := appendBytes body metadata.encryptedFek.pack
  let body := appendBytes body metadata.saltRand
  let body := appendU32 body metadata.numTokens
  let body := appendU32 body metadata.wireBlockSize
  let body := appendU64 body metadata.ciphertextLength
  let body := appendU64 body metadata.originalFileLength
  appendFixedFileNameField body metadata.originalFileName metadata.segmentCode

def serializeSmb (metadata : SmbMetadata) : Bytes :=
  let body := buildBody metadata
  let payload := appendU32 [] kSmbMagic ++ [kSmbVersion] ++ body
  let payload := appendBytes payload (C.sha256 body)
  payload ++ C.sha256 payload

def readU32 (buffer : Bytes) (offset : Nat) : Except Exn (Nat × Nat) := do
  throwIf (buffer.length < M.size (offset + 4)) (.runtimeError "SMB deserialize truncated u32")
  let b₀ ← byteAt buffer offset
  let b₁ ← byteAt buffer (M.size (offset + 1))
  let b₂ ← byteAt buffer (M.size (offset + 2))
  let b₃ ← byteAt buffer (M.size (offset + 3))
  return (ofBigEndian [b₀, b₁, b₂, b₃], M.size (offset + 4))

def readBytes (buffer : Bytes) (offset : Nat) : Except Exn (Bytes × Nat) := do
  let (length, offset) ← readU32 M buffer offset
  throwIf (buffer.length < M.size (offset + length))
    (.runtimeError "SMB deserialize truncated bytes")
  let value ← slice buffer offset (M.size (offset + length))
  return (value, M.size (offset + length))

/-- `value |= buffer[offset++] << shift`, from the most significant octet on. -/
def readOctets (buffer : Bytes) : Nat → Nat → Except Exn Bytes
  | 0, _ => .ok []
  | k + 1, offset => do
    let byte ← byteAt buffer offset
    let rest ← readOctets buffer k (M.size (offset + 1))
    return byte :: rest

def readU64 (buffer : Bytes) (offset : Nat) : Except Exn (Nat × Nat) := do
  throwIf (buffer.length < M.size (offset + 8)) (.runtimeError "SMB deserialize truncated u64")
  let octets ← readOctets M buffer 8 offset
  return (ofBigEndian octets, M.size (offset + 8))

def readU16Le (buffer : Bytes) (offset : Nat) : Except Exn Nat := do
  throwIf (buffer.length < M.size (offset + 2)) (.runtimeError "SMB deserialize truncated u16")
  let b₀ ← byteAt buffer offset
  let b₁ ← byteAt buffer (M.size (offset + 1))
  return b₀.toNat + 256 * b₁.toNat

/-- What `memchr` and the trimming loop leave of a name slot. -/
def slotText (slot : Bytes) : Str :=
  if slot.contains 0 then slot.takeWhile (· != 0) else slot.rdropWhile (· == 0)

def readFixedFileNameV2 (buffer : Bytes) (offset : Nat) : Except Exn (Str × Nat) := do
  throwIf (buffer.length < M.size (offset + kMaxOriginalFileNameBytes))
    (.runtimeError "SMB deserialize truncated file name")
  let slot ← slice buffer offset (M.size (offset + kMaxOriginalFileNameBytes))
  return (normalizeOriginalFileName (slotText slot), M.size (offset + kMaxOriginalFileNameBytes))

/-- The loop over the octets after the segment code. -/
def checkReserved (buffer : Bytes) (fieldOffset : Nat) : List Nat → Except Exn Unit
  | [] => .ok ()
  | index :: rest => do
    let byte ← byteAt buffer (M.size (fieldOffset + index))
    throwIf (byte ≠ 0) (.runtimeError "SMB V2.1 reserved file name bytes must be zero")
    checkReserved buffer fieldOffset rest

def readSegmentCodeFromFileNameField (buffer : Bytes) (fieldOffset : Nat) : Except Exn Nat := do
  let segmentCode ← readU16Le M buffer (M.size (fieldOffset + kV21SegmentCodeFieldOffset))
  if segmentCode = kV2SegmentCodeWholeFile then return kV2SegmentCodeWholeFile
  else
    validateSegmentCodeV21 segmentCode
    checkReserved M buffer fieldOffset
      (List.range' (kV21SegmentCodeFieldOffset + 2)
        (kMaxOriginalFileNameBytes - (kV21SegmentCodeFieldOffset + 2)))
    return segmentCode

def readFixedFileNameV21 (buffer : Bytes) (fieldOffset : Nat) : Except Exn Str := do
  let slot ← slice buffer fieldOffset (M.size (fieldOffset + kV21FileNamePayloadBytes))
  return normalizeOriginalFileName (slotText slot)

def readFixedFileNameField (buffer : Bytes) (offset : Nat) : Except Exn ((Str × Nat) × Nat) := do
  throwIf (buffer.length < M.size (offset + kMaxOriginalFileNameBytes))
    (.runtimeError "SMB deserialize truncated file name")
  let segmentCode ← readSegmentCodeFromFileNameField M buffer offset
  if segmentCode = kV2SegmentCodeWholeFile then
    let (fileName, offset) ← readFixedFileNameV2 M buffer offset
    return ((fileName, segmentCode), offset)
  else
    let fileName ← readFixedFileNameV21 M buffer offset
    return ((fileName, segmentCode), M.size (offset + kMaxOriginalFileNameBytes))

def deserializeSmb (data : Bytes) : Except Exn SmbMetadata := do
  throwIf (data.length < 4 + 1 + 4 + kHashBytes + kHashBytes)
    (.runtimeError "SMB payload too short")
  let expectedPayloadHash ← slice data (data.length - kHashBytes) data.length
  let payload ← slice data 0 (data.length - kHashBytes)
  throwIf (C.sha256 payload ≠ expectedPayloadHash) (.runtimeError "SMB payload hash mismatch")
  let (magic, offset) ← readU32 M payload 0
  throwIf (magic ≠ kSmbMagic) (.runtimeError "invalid SMB magic")
  throwIf (payload.length ≤ offset) (.runtimeError "SMB version missing")
  let version ← byteAt payload offset
  let offset := M.size (offset + 1)
  throwIf (version ≠ kSmbVersion) (.runtimeError "unsupported SMB version")
  let bodyStart := offset
  let (rootHash, offset) ← readBytes M payload offset
  let (packedFek, offset) ← readBytes M payload offset
  let encryptedFek ← EncryptedBlob.unpack packedFek
  let (saltRand, offset) ← readBytes M payload offset
  let (numTokens, offset) ← readU32 M payload offset
  let (wireBlockSize, offset) ← readU32 M payload offset
  let (ciphertextLength, offset) ← readU64 M payload offset
  let (originalFileLength, offset) ← readU64 M payload offset
  let ((originalFileName, segmentCode), offset) ← readFixedFileNameField M payload offset
  let body ← slice payload bodyStart offset
  let (expectedBodyHash, offset) ← readBytes M payload offset
  throwIf (C.sha256 body ≠ expectedBodyHash) (.runtimeError "SMB body hash mismatch")
  throwIf (offset ≠ payload.length) (.runtimeError "SMB trailing bytes detected")
  return { rootHash, encryptedFek, saltRand, numTokens, wireBlockSize, ciphertextLength,
           originalFileLength, originalFileName, segmentCode }

def extractSEnc (token0Wire : Bytes) : Except Exn Bytes := do
  throwIf (token0Wire.length < kSmEncBytes) (.runtimeError "token0 shorter than encrypted SMB")
  return token0Wire.take kSmEncBytes

/-- `catch (const std::exception& ex)` with the new text before the old one. -/
def rethrow {α : Type} (text : String) : Except Exn α → Except Exn α
  | .error e =>
    match e.what with
    | some what => .error (.runtimeError (text ++ what))
    | none => .error e
  | .ok a => .ok a

def parseSmbEncrypted (credential : Str) (token0Wire : Bytes) : Except Exn SmbMetadata := do
  let parts ← splitCredential credential
  let kSmb := slowKdf C parts.keyCode kSaltFixKey
  let sEnc ← extractSEnc token0Wire
  rethrow "SMB integrity check failed: " do
    let smBytes ← decrypt C kSmb sEnc
    deserializeSmb M C smBytes

end Smb
end TwelveC
