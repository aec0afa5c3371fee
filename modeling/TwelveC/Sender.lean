import TwelveC.LayoutSound
import TwelveC.Payload
import TwelveC.Merkle
import TwelveC.Smb

/-!
# The batch sender

`prepare_upload` pads, seals and splits one file. Token 0 carries the encrypted
SMB followed by the last ciphertext block; token `i` carries block `i - 1`.
-/

namespace TwelveC.Sender

open Segment WireLayout Payload Merkle Smb Crypto Lib.Cut

variable (M : Machine) (C : Primitives)

/-- The blocks for tokens 1 to `num_tokens - 1`, then the last block. -/
def splitCiphertext (ciphertext : Bytes) (layout : WireLayout) :
    Except Exn (List Bytes × Bytes) := do
  throwIf (layout.numTokens = 0) (.runtimeError "wire layout requires at least one token")
  let leading ← (List.range (layout.numTokens - 1)).mapM fun index =>
    let offset := M.size (index * layout.wireBlockSize)
    slice ciphertext offset (M.size (offset + layout.wireBlockSize))
  let lastOffset := M.size ((layout.numTokens - 1) * layout.wireBlockSize)
  let last ← slice ciphertext lastOffset ciphertext.length
  return (leading, last)

def buildToken0 (sEnc lastBlock : Bytes) : Bytes := sEnc ++ lastBlock

def emplaceToken (searchCode : Str) (uploads : UploadMap) (entry : Bytes × Nat) : UploadMap :=
  uploads.emplace (deriveUploadToken C searchCode kSaltFixSearch entry.2) entry.1

/-- Index 0 is token 0, index `i` the leading block `i - 1`. -/
def buildUploadMap (token0 : Bytes) (leadingBlocks : List Bytes) (searchCode : Str) : UploadMap :=
  let numTokens := M.u32 (leadingBlocks.length + 1)
  ((token0 :: leadingBlocks).take numTokens).zipIdx.foldl (emplaceToken C searchCode) []

def normalizeFileNameForSegmentCode (originalFileName : Str) (segmentCode : Nat) : Str :=
  let normalized := normalizeOriginalFileName originalFileName
  if isV21SegmentedMode segmentCode then truncateName kV21FileNamePayloadBytes normalized
  else normalized

/-- The zero octets that `layout.plaintext_padding` asks for, before the file. -/
def padPlaintext (filePlaintext : Bytes) (layout : WireLayout) : Bytes :=
  List.replicate layout.plaintextPadding 0 ++ filePlaintext

/-- The SMB fields both senders fill in. -/
def uploadMetadata (layout : WireLayout) (rootHash : Bytes) (encryptedFek : EncryptedBlob)
    (saltRand : Bytes) (originalFileLength : Nat) (originalFileName : Str) (segmentCode : Nat) :
    SmbMetadata :=
  { rootHash, encryptedFek, saltRand, numTokens := layout.numTokens,
    wireBlockSize := layout.wireBlockSize, ciphertextLength := layout.ciphertextLength,
    originalFileLength,
    originalFileName := normalizeFileNameForSegmentCode originalFileName segmentCode,
    segmentCode }

def prepareUpload (filePlaintext : Bytes) (credential originalFileName : Str)
    (segmentCode maxWireBlockBytes : Nat) : RandM UploadMap := do
  let parts ← splitCredential credential
  validateSegmentCodeV21 segmentCode
  let layout ← computeWireLayout M filePlaintext.length segmentCode maxWireBlockBytes
  let plaintext := padPlaintext filePlaintext layout
  let kSmb := slowKdf C parts.keyCode kSaltFixKey
  let saltRand ← randomBytes kSaltRandBytes
  let kKek := slowKdf C parts.keyCode saltRand
  let kFek ← generateFek
  let ciphertext ← encryptPayloadForSegmentCode M C kFek plaintext segmentCode
  throwIf (ciphertext.length ≠ layout.ciphertextLength)
    (.runtimeError "ciphertext length mismatch after encryption")
  let (leadingBlocks, lastBlock) ← splitCiphertext M ciphertext layout
  let merkleTree := buildMerkleTree C (leadingBlocks ++ [lastBlock])
  let encryptedFek ← encrypt C kKek kFek
  let encryptedFekBlob ← EncryptedBlob.unpack encryptedFek
  let metadata := uploadMetadata layout merkleTree.rootHash encryptedFekBlob saltRand
    filePlaintext.length originalFileName segmentCode
  let smBytes := serializeSmb C metadata
  throwIf (smBytes.length ≠ kSmPlainBytes) (.runtimeError "SMB plaintext size mismatch")
  let sEnc ← encrypt C kSmb smBytes
  throwIf (sEnc.length ≠ kSmEncBytes) (.runtimeError "SMB encrypted size mismatch")
  throwIf (lastBlock.length ≠ layout.lastBlockLength)
    (.runtimeError "last ciphertext block length mismatch")
  let token0 := buildToken0 sEnc lastBlock
  throwIf (token0.length ≠ layout.wireBlockSize) (.runtimeError "token0 wire size mismatch")
  return buildUploadMap M C token0 leadingBlocks parts.searchCode

theorem mapM_slice (ciphertext : Bytes) (n B : Nat) (hB : 0 < B) (h : n * B ≤ ciphertext.length) :
    (List.range n).mapM (fun i => slice ciphertext (i * B) (i * B + B)) =
      .ok (cut B (ciphertext.take (n * B))) := by
  induction n with
  | zero => simp
  | succ n ih =>
    rw [Nat.add_mul, Nat.one_mul] at h ⊢
    have hblock : slice ciphertext (n * B) (n * B + B) =
        .ok ((ciphertext.drop (n * B)).take B) := by
      rw [slice, if_pos ⟨by omega, h⟩, Nat.add_sub_cancel_left]
    have hlen : (ciphertext.take (n * B)).length = n * B := List.length_take_of_le (by omega)
    have hne : (ciphertext.drop (n * B)).take B ≠ [] := by
      intro h₀
      have := congrArg List.length h₀
      simp at this
      omega
    rw [List.range_succ, List.mapM_append, ih (by omega), ok_bind, List.mapM_cons, hblock, ok_bind,
      List.mapM_nil, List.take_add, cut_append hB _ _ (Dvd.intro_left n hlen.symm),
      cut_of_le hB hne (List.length_take_le _ _)]
    rfl

theorem splitCiphertext_ok {P code : Nat} {layout : WireLayout} (h : SoundLayout P code layout)
    {ciphertext : Bytes} (hlen : ciphertext.length = layout.ciphertextLength) :
    splitCiphertext Machine.native ciphertext layout =
      .ok (cut layout.wireBlockSize
          (ciphertext.take ((layout.numTokens - 1) * layout.wireBlockSize)),
        ciphertext.drop ((layout.numTokens - 1) * layout.wireBlockSize)) := by
  have hsum := LayoutSound.leading_add_last h
  have htokens := h.tokens
  have hblock := h.block
  rw [splitCiphertext, throwIf_neg (by omega), ok_bind]
  simp only [native_size]
  rw [mapM_slice ciphertext _ _ (by omega) (by omega), ok_bind, slice, if_pos ⟨by omega, le_rfl⟩]
  simp [List.take_of_length_le]

/-- Token and block, index by index. -/
def tokenEntries (searchCode : Str) (blocks : List Bytes) : UploadMap :=
  blocks.zipIdx.map fun entry => (deriveUploadToken C searchCode kSaltFixSearch entry.2, entry.1)

variable {C}

theorem nodup_tokenEntries (hC : DistinctTokens C) (searchCode : Str) (blocks : List Bytes)
    (h : blocks.length ≤ 2 ^ 32) : ((tokenEntries C searchCode blocks).map Prod.fst).Nodup := by
  have hfst : (tokenEntries C searchCode blocks).map Prod.fst =
      (List.range' 0 blocks.length).map (deriveUploadToken C searchCode kSaltFixSearch) := by
    rw [tokenEntries, List.map_map, ← List.zipIdx_map_snd 0 blocks, List.map_map]
    rfl
  rw [hfst]
  refine List.Nodup.map_on ?_ List.nodup_range'
  intro i hi j hj hij
  rw [List.mem_range'_1] at hi hj
  exact hC searchCode i j (by omega) (by omega) hij

theorem buildUploadMap_eq (hC : DistinctTokens C) (searchCode : Str) (token0 : Bytes)
    (leading : List Bytes) (h : leading.length + 1 < 2 ^ 32) :
    buildUploadMap Machine.native C token0 leading searchCode =
      tokenEntries C searchCode (token0 :: leading) := by
  have hn := nodup_tokenEntries hC searchCode (token0 :: leading) (by simp; omega)
  have hf := Lib.Assoc.foldl_emplace [] (tokenEntries C searchCode (token0 :: leading)) (by simpa)
  rw [buildUploadMap, native_u32, Nat.mod_eq_of_lt h, List.take_of_length_le (by simp)]
  rw [tokenEntries, List.foldl_map] at hf
  exact hf

theorem find_tokenEntries (hC : DistinctTokens C) (searchCode : Str) (blocks : List Bytes)
    (h : blocks.length ≤ 2 ^ 32) (index : Nat) (block : Bytes) (hb : blocks[index]? = some block) :
    (tokenEntries C searchCode blocks).find (deriveUploadToken C searchCode kSaltFixSearch index) =
      some block := by
  refine Lib.Assoc.find_of_mem (nodup_tokenEntries hC searchCode blocks h) ?_
  rw [tokenEntries, List.mem_map]
  exact ⟨(block, index), List.mem_zipIdx_iff_getElem?.mpr hb, rfl⟩

variable (C)

/-- One successful run of `prepare_upload`, with the tape after each draw. -/
structure Run (filePlaintext : Bytes) (credential originalFileName : Str)
    (segmentCode maxWireBlockBytes : Nat) where
  parts : CredentialParts
  layout : WireLayout
  saltRand : Bytes
  kFek : Bytes
  ciphertext : Bytes
  leadingBlocks : List Bytes
  lastBlock : Bytes
  packedFek : Bytes
  encryptedFek : EncryptedBlob
  sEnc : Bytes

namespace Run

variable {C} {filePlaintext : Bytes} {credential originalFileName : Str}
  {segmentCode maxWireBlockBytes : Nat}

def plaintext (r : Run filePlaintext credential originalFileName segmentCode maxWireBlockBytes) :
    Bytes :=
  padPlaintext filePlaintext r.layout

def blocks (r : Run filePlaintext credential originalFileName segmentCode maxWireBlockBytes) :
    List Bytes :=
  r.leadingBlocks ++ [r.lastBlock]

def metadata (C : Primitives)
    (r : Run filePlaintext credential originalFileName segmentCode maxWireBlockBytes) :
    SmbMetadata :=
  uploadMetadata r.layout (buildMerkleTree C r.blocks).rootHash r.encryptedFek r.saltRand
    filePlaintext.length originalFileName segmentCode

def token0 (r : Run filePlaintext credential originalFileName segmentCode maxWireBlockBytes) :
    Bytes :=
  buildToken0 r.sEnc r.lastBlock

/-- Every step of the run succeeded, on these tapes. -/
structure Holds (M : Machine) (C : Primitives)
    (r : Run filePlaintext credential originalFileName segmentCode maxWireBlockBytes)
    (tape₀ tape₁ tape₂ tape₃ tape₄ tape₅ : Bytes) (uploads : UploadMap) : Prop where
  split : splitCredential credential = .ok r.parts
  code : validateSegmentCodeV21 segmentCode = .ok ()
  layout : computeWireLayout M filePlaintext.length segmentCode maxWireBlockBytes = .ok r.layout
  salt : randomBytes kSaltRandBytes tape₀ = .ok (r.saltRand, tape₁)
  fek : generateFek tape₁ = .ok (r.kFek, tape₂)
  payload : encryptPayloadForSegmentCode M C r.kFek r.plaintext segmentCode tape₂ =
    .ok (r.ciphertext, tape₃)
  ciphertext : r.ciphertext.length = r.layout.ciphertextLength
  blocks : splitCiphertext M r.ciphertext r.layout = .ok (r.leadingBlocks, r.lastBlock)
  packedFek : encrypt C (slowKdf C r.parts.keyCode r.saltRand) r.kFek tape₃ =
    .ok (r.packedFek, tape₄)
  encryptedFek : EncryptedBlob.unpack r.packedFek = .ok r.encryptedFek
  smPlain : (serializeSmb C (r.metadata C)).length = kSmPlainBytes
  sEnc : encrypt C (slowKdf C r.parts.keyCode kSaltFixKey) (serializeSmb C (r.metadata C)) tape₄ =
    .ok (r.sEnc, tape₅)
  smEnc : r.sEnc.length = kSmEncBytes
  last : r.lastBlock.length = r.layout.lastBlockLength
  token0 : r.token0.length = r.layout.wireBlockSize
  uploads : uploads = buildUploadMap M C r.token0 r.leadingBlocks r.parts.searchCode

end Run

/-- Inversion of a successful `prepare_upload`. -/
theorem prepareUpload_eq_ok {filePlaintext : Bytes} {credential originalFileName : Str}
    {segmentCode maxWireBlockBytes : Nat} {tape₀ tape₅ : Bytes} {uploads : UploadMap}
    (h : prepareUpload M C filePlaintext credential originalFileName segmentCode maxWireBlockBytes
      tape₀ = .ok (uploads, tape₅)) :
    ∃ (r : Run filePlaintext credential originalFileName segmentCode maxWireBlockBytes)
      (tape₁ tape₂ tape₃ tape₄ : Bytes), r.Holds M C tape₀ tape₁ tape₂ tape₃ tape₄ tape₅ uploads := by
  simp only [prepareUpload, rand_bind_eq_ok, rand_lift_eq_ok, rand_pure_eq_ok, throwIf_eq_ok,
    not_not, Prod.mk.injEq, and_assoc, exists_and_left, exists_eq_left'] at h
  obtain ⟨parts, hsplit, _, hcode, layout, hlayout, salt, t₁, hsalt, kFek, t₂, hfek, ciphertext, t₃,
    hpayload, hlen, _, ⟨leading, last⟩, hblocks, packedFek, t₄, hpacked, blob, hblob, hplain, _, sEnc,
    t₅, henc, hsm, hlast, htoken, huploads, _, _, _, rfl⟩ := h
  exact ⟨⟨parts, layout, salt, kFek, ciphertext, leading, last, packedFek, blob, sEnc⟩,
    t₁, t₂, t₃, t₄, ⟨hsplit, hcode, hlayout, hsalt, hfek, hpayload, hlen, hblocks, hpacked, hblob,
      hplain, henc, hsm, hlast, htoken, huploads⟩⟩

/-- And back. -/
theorem prepareUpload_of_holds {filePlaintext : Bytes} {credential originalFileName : Str}
    {segmentCode maxWireBlockBytes : Nat}
    {r : Run filePlaintext credential originalFileName segmentCode maxWireBlockBytes}
    {tape₀ tape₁ tape₂ tape₃ tape₄ tape₅ : Bytes} {uploads : UploadMap}
    (h : r.Holds M C tape₀ tape₁ tape₂ tape₃ tape₄ tape₅ uploads) :
    prepareUpload M C filePlaintext credential originalFileName segmentCode maxWireBlockBytes
      tape₀ = .ok (uploads, tape₅) := by
  simp only [prepareUpload, rand_bind_eq_ok, rand_lift_eq_ok, rand_pure_eq_ok, throwIf_eq_ok,
    not_not, Prod.mk.injEq, and_assoc, exists_and_left, exists_eq_left']
  exact ⟨r.parts, h.split, (), h.code, r.layout, h.layout, r.saltRand, tape₁, h.salt, r.kFek, tape₂,
    h.fek, r.ciphertext, tape₃, h.payload, h.ciphertext, (), (r.leadingBlocks, r.lastBlock), h.blocks,
    r.packedFek, tape₄, h.packedFek, r.encryptedFek, h.encryptedFek, h.smPlain, (), r.sEnc, tape₅,
    h.sEnc, h.smEnc, h.last, h.token0, h.uploads, (), (), (), rfl⟩

end TwelveC.Sender
