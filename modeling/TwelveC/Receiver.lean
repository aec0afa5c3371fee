import TwelveC.Payload
import TwelveC.Merkle
import TwelveC.Smb

/-!
# The batch receiver

`receive_from_upload_map` opens the SMB, collects the blocks, checks the Merkle
root, and only then decrypts.
-/

namespace TwelveC.Receiver

open Segment Payload Merkle Smb Crypto

variable (M : Machine) (C : Primitives)

def makeToken (searchCode : Str) (index : Nat) : Str :=
  deriveUploadToken C searchCode kSaltFixSearch index

def keyText (key : Str) : String := String.ofList (key.map fun c => Char.ofNat c.toNat)

def lookupUpload (uploads : UploadMap) (key : Str) : Except Exn Bytes :=
  match uploads.find key with
  | none => .error (.runtimeError ("upload entry not found: " ++ keyText key))
  | some data => .ok data

def concatenateBlocks (blocks : List Bytes) : Bytes := blocks.flatten

/-- The loop body of `collect_blocks_from_uploads` for one data token. -/
def collectBlock (uploads : UploadMap) (searchCode : Str) (wireBlockSize tokenIndex : Nat) :
    Except Exn Bytes := do
  let blockCipher ← lookupUpload uploads (makeToken C searchCode tokenIndex)
  throwIf (blockCipher.length ≠ wireBlockSize)
    (.runtimeError ("data token wire size mismatch at index " ++ toString tokenIndex))
  return blockCipher

def collectBlocksFromUploads (uploads : UploadMap) (searchCode : Str) (metadata : SmbMetadata) :
    Except Exn (List Bytes) :=
  if metadata.numTokens = 0 then .ok []
  else do
    let ciphertextLength := M.size metadata.ciphertextLength
    let lastBlockLength := M.sizeSub ciphertextLength
      (M.size ((metadata.numTokens - 1) * metadata.wireBlockSize))
    let token0 ← lookupUpload uploads (makeToken C searchCode 0)
    throwIf (token0.length ≠ metadata.wireBlockSize) (.runtimeError "token0 wire size mismatch")
    throwIf (M.size (kSmEncBytes + lastBlockLength) ≠ metadata.wireBlockSize)
      (.runtimeError "token0 layout invalid")
    let leading ← (List.range' 1 (metadata.numTokens - 1)).mapM
      (collectBlock C uploads searchCode metadata.wireBlockSize)
    let last ← slice token0 kSmEncBytes (M.size (kSmEncBytes + lastBlockLength))
    let blocks := leading ++ [last]
    throwIf (¬ verifyMerkleRoot C blocks metadata.rootHash)
      (.runtimeError "merkle root verification failed")
    return blocks

def decryptPayloadForSegmentCode (kFek ciphertext : Bytes) (metadata : SmbMetadata)
    (paddedPlaintextLength : Nat) : Except Exn Bytes :=
  if isV2WholeFileMode metadata.segmentCode then
    decryptPayloadV2WholeFile C kFek ciphertext paddedPlaintextLength
  else
    decryptPayloadV21Segmented C kFek ciphertext metadata.segmentCode paddedPlaintextLength

def decryptFile (parts : CredentialParts) (metadata : SmbMetadata) (blocks : List Bytes) :
    Except Exn Bytes := do
  let ciphertext := concatenateBlocks blocks
  throwIf (ciphertext.length ≠ M.size metadata.ciphertextLength)
    (.runtimeError "reassembled ciphertext length mismatch")
  let kKek := slowKdf C parts.keyCode metadata.saltRand
  let kFek ← decrypt C kKek metadata.encryptedFek.pack
  let paddedPlaintextLength ←
    paddedPlaintextLengthFromCiphertext M (M.size metadata.ciphertextLength) metadata.segmentCode
  let plaintext ← decryptPayloadForSegmentCode C kFek ciphertext metadata paddedPlaintextLength
  let originalLength := M.size metadata.originalFileLength
  throwIf (paddedPlaintextLength < originalLength)
    (.runtimeError "ciphertext length smaller than original file")
  let prefixPadding := paddedPlaintextLength - originalLength
  throwIf (plaintext.length ≠ paddedPlaintextLength)
    (.runtimeError "decrypted plaintext length mismatch")
  let plaintext := plaintext.drop prefixPadding
  throwIf (plaintext.length ≠ originalLength)
    (.runtimeError "decrypted plaintext shorter than expected")
  return plaintext

def receiveFromUploadMap (credential : Str) (uploads : UploadMap) : Except Exn Bytes := do
  let parts ← splitCredential credential
  let token0Wire ← lookupUpload uploads (makeToken C parts.searchCode 0)
  let metadata ← parseSmbEncrypted M C credential token0Wire
  let blocks ← collectBlocksFromUploads M C uploads parts.searchCode metadata
  decryptFile M C parts metadata blocks

end TwelveC.Receiver
