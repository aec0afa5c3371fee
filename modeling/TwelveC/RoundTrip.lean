import TwelveC.Sender
import TwelveC.Receiver
import TwelveC.SmbRoundTrip
import TwelveC.PlainCrypto

/-!
# The batch round trip

What `prepare_upload` returns, `receive_from_upload_map` turns back into the
file: the SMB comes back with the fields that were written, the blocks are
found under their tokens and hash to the root, and the records open to the
padded plaintext, whose prefix is dropped.
-/

namespace TwelveC.RoundTrip

open Segment WireLayout Payload Merkle Smb Crypto Sender Receiver SmbRoundTrip Lib.Word Lib.Cut

variable {C : Primitives}

theorem length_buildBody (metadata : SmbMetadata)
    (h : metadata.originalFileName.length ≤ 120 ∨ metadata.segmentCode ≠ 0) :
    (buildBody metadata).length = metadata.rootHash.length + metadata.encryptedFek.pack.length +
      metadata.saltRand.length + 164 := by
  have htext : (zeroPadded 120 (metadata.originalFileName.take 120)).length = 120 :=
    length_zeroPadded (List.length_take_le _ _)
  simp only [buildBody, appendFixedFileNameField_eq _ _ h, appendBytes, appendU32, appendU64,
    List.length_append, length_bigEndian, nameSlot, htext, List.length_nil, List.length_cons,
    List.length_replicate]
  omega

theorem length_serializeSmb (hC : C.Laws) (metadata : SmbMetadata) :
    (serializeSmb C metadata).length = (buildBody metadata).length + 73 := by
  simp only [serializeSmb, appendBytes, appendU32, List.length_append, length_bigEndian,
    hC.sha256_length, kHashBytes_eq, List.length_nil, List.length_cons]
  omega

section Batch

variable {filePlaintext : Bytes} {credential originalFileName : Str}
  {segmentCode maxWireBlockBytes : Nat}
  {r : Run filePlaintext credential originalFileName segmentCode maxWireBlockBytes}
  {tape₀ tape₁ tape₂ tape₃ tape₄ tape₅ : Bytes} {uploads : UploadMap}

theorem sound (h : r.Holds .native C tape₀ tape₁ tape₂ tape₃ tape₄ tape₅ uploads) :
    SoundLayout filePlaintext.length segmentCode r.layout :=
  LayoutSound.computeWireLayout_sound h.layout

theorem length_plaintext
    (r : Run filePlaintext credential originalFileName segmentCode maxWireBlockBytes) :
    r.plaintext.length = filePlaintext.length + r.layout.plaintextPadding := by
  rw [Run.plaintext, padPlaintext, List.length_append, List.length_replicate, Nat.add_comm]

theorem drop_plaintext
    (r : Run filePlaintext credential originalFileName segmentCode maxWireBlockBytes) :
    r.plaintext.drop (r.plaintext.length - filePlaintext.length) = filePlaintext := by
  rw [length_plaintext, Nat.add_sub_cancel_left, Run.plaintext, padPlaintext,
    List.drop_left' List.length_replicate]

theorem blocks_eq (h : r.Holds .native C tape₀ tape₁ tape₂ tape₃ tape₄ tape₅ uploads) :
    r.leadingBlocks = cut r.layout.wireBlockSize
        (r.ciphertext.take ((r.layout.numTokens - 1) * r.layout.wireBlockSize)) ∧
      r.lastBlock = r.ciphertext.drop ((r.layout.numTokens - 1) * r.layout.wireBlockSize) := by
  have hb := h.blocks
  rw [splitCiphertext_ok (sound h) h.ciphertext, Except.ok.injEq, Prod.mk.injEq] at hb
  exact ⟨hb.1.symm, hb.2.symm⟩

theorem length_leadingBlocks
    (h : r.Holds .native C tape₀ tape₁ tape₂ tape₃ tape₄ tape₅ uploads) :
    r.leadingBlocks.length + 1 = r.layout.numTokens := by
  have hs := sound h
  have hsum := LayoutSound.leading_add_last hs
  have hb := hs.block
  have ht := hs.tokens
  have hc := h.ciphertext
  rw [(blocks_eq h).1, length_cut (by omega), List.length_take_of_le (by omega)]
  generalize r.layout.wireBlockSize = B at *
  have hd : ((r.layout.numTokens - 1) * B + B - 1) / B = r.layout.numTokens - 1 := by
    rw [Nat.add_sub_assoc (by omega), Nat.mul_comm, Nat.mul_add_div (by omega),
      Nat.div_eq_of_lt (show B - 1 < B by omega), Nat.add_zero]
  omega

/-- Every leading block is full. -/
theorem length_of_mem_leadingBlocks
    (h : r.Holds .native C tape₀ tape₁ tape₂ tape₃ tape₄ tape₅ uploads) (block : Bytes)
    (hm : block ∈ r.leadingBlocks) : block.length = r.layout.wireBlockSize := by
  have hs := sound h
  have hsum := LayoutSound.leading_add_last hs
  have hb := hs.block
  have hc := h.ciphertext
  rw [(blocks_eq h).1] at hm
  refine length_of_mem_cut (by omega) _ _ ?_ hm
  rw [List.length_take_of_le (by omega)]
  exact Dvd.intro_left _ rfl

theorem flatten_blocks (h : r.Holds .native C tape₀ tape₁ tape₂ tape₃ tape₄ tape₅ uploads) :
    r.blocks.flatten = r.ciphertext := by
  have hb := (sound h).block
  rw [Run.blocks, (blocks_eq h).1, (blocks_eq h).2, List.flatten_append, flatten_cut (by omega)]
  simp

theorem uploads_eq (hd : DistinctTokens C)
    (h : r.Holds .native C tape₀ tape₁ tape₂ tape₃ tape₄ tape₅ uploads) :
    uploads = tokenEntries C r.parts.searchCode (r.token0 :: r.leadingBlocks) := by
  have hn := length_leadingBlocks h
  have hlt := (sound h).tokens_lt
  rw [h.uploads, buildUploadMap_eq hd _ _ _ (by omega)]

theorem lookup_eq (hd : DistinctTokens C)
    (h : r.Holds .native C tape₀ tape₁ tape₂ tape₃ tape₄ tape₅ uploads) (index : Nat)
    (block : Bytes) (hb : (r.token0 :: r.leadingBlocks)[index]? = some block) :
    lookupUpload uploads (makeToken C r.parts.searchCode index) = .ok block := by
  have hn := length_leadingBlocks h
  have hlt := (sound h).tokens_lt
  rw [lookupUpload, makeToken, uploads_eq hd h,
    find_tokenEntries hd _ _ (by simp only [List.length_cons]; omega) index block hb]

/-- The name fits its slot whatever the segment code. -/
theorem fileName_fits (hname : (normalizeOriginalFileName originalFileName).length ≤ 120) :
    (r.metadata C).originalFileName.length ≤ 120 ∨ (r.metadata C).segmentCode ≠ 0 := by
  by_cases h₀ : segmentCode = 0
  · left
    have hm : isV21SegmentedMode segmentCode = false := by
      simp [isV21SegmentedMode, h₀, kV21SegmentCodeMin]
    simpa [Run.metadata, uploadMetadata, normalizeFileNameForSegmentCode, hm] using hname
  · exact .inr h₀

theorem writable (hC : C.Laws)
    (hfits : (r.metadata C).originalFileName.length ≤ 120 ∨ (r.metadata C).segmentCode ≠ 0)
    (h : r.Holds .native C tape₀ tape₁ tape₂ tape₃ tape₄ tape₅ uploads) :
    Writable (r.metadata C) := by
  have hs := sound h
  have hlen := h.smPlain
  rw [length_serializeSmb hC, length_buildBody _ hfits, kSmPlainBytes] at hlen
  have hpadded := LayoutSound.padded_le hs
  have hcipher := LayoutSound.ciphertext_lt hs
  have hfek := h.encryptedFek
  have hpack : 28 ≤ r.packedFek.length := by
    by_contra hlt
    rw [EncryptedBlob.unpack, throwIf_pos (by simpa using hlt)] at hfek
    simp at hfek
  obtain ⟨blob, hblob, -, hnonce, htag⟩ := EncryptedBlob.unpack_ok hpack
  rw [hfek, Except.ok.injEq] at hblob
  subst hblob
  exact ⟨by omega, hnonce, htag, by omega, by omega, hs.tokens_lt, hs.block_lt, hcipher,
    show filePlaintext.length < 2 ^ 64 by omega, hs.code, hfits⟩

theorem extractSEnc_ok (h : r.Holds .native C tape₀ tape₁ tape₂ tape₃ tape₄ tape₅ uploads) :
    extractSEnc r.token0 = .ok r.sEnc := by
  have hl := h.smEnc
  have htoken : r.token0 = r.sEnc ++ r.lastBlock := rfl
  rw [extractSEnc, htoken, throwIf_neg (by rw [List.length_append, hl]; omega), ok_bind, ← hl,
    List.take_left]
  rfl

theorem parseSmb_ok (hC : C.Laws)
    (hfits : (r.metadata C).originalFileName.length ≤ 120 ∨ (r.metadata C).segmentCode ≠ 0)
    (h : r.Holds .native C tape₀ tape₁ tape₂ tape₃ tape₄ tape₅ uploads) :
    parseSmbEncrypted .native C credential r.token0 = .ok (readBack (r.metadata C)) := by
  have hsealed := sealed_of_encrypt h.sEnc
  have hdec := hsealed.decrypt hC (by rw [h.smPlain, h.smEnc]; rfl)
  rw [parseSmbEncrypted, h.split, ok_bind]
  simp only [extractSEnc_ok h, ok_bind, hdec,
    deserialize_serialize native_size hC.sha256_length _ (writable hC hfits h), rethrow]

/-- The loop over the data tokens finds the leading blocks. -/
theorem mapM_collectBlock (hd : DistinctTokens C)
    (h : r.Holds .native C tape₀ tape₁ tape₂ tape₃ tape₄ tape₅ uploads) :
    (List.range' 1 (r.layout.numTokens - 1)).mapM
        (collectBlock C uploads r.parts.searchCode r.layout.wireBlockSize) =
      .ok r.leadingBlocks := by
  have hn := length_leadingBlocks h
  rw [mapM_eq_ok, List.forall₂_iff_get]
  refine ⟨by simp; omega, fun i h₁ h₂ => ?_⟩
  have hb : (r.token0 :: r.leadingBlocks)[1 + i]? = some (r.leadingBlocks.get ⟨i, h₂⟩) := by
    simp [Nat.add_comm 1 i]
  have hl := length_of_mem_leadingBlocks h _ (List.get_mem r.leadingBlocks ⟨i, h₂⟩)
  simp only [List.get_eq_getElem, List.getElem_range', Nat.one_mul] at hb hl ⊢
  rw [collectBlock, lookup_eq hd h _ _ hb, ok_bind, throwIf_neg (by simpa using hl)]
  rfl

theorem collectBlocks_ok (hd : DistinctTokens C)
    (h : r.Holds .native C tape₀ tape₁ tape₂ tape₃ tape₄ tape₅ uploads) :
    collectBlocksFromUploads .native C uploads r.parts.searchCode (readBack (r.metadata C)) =
      .ok r.blocks := by
  have hs := sound h
  have htokens := hs.tokens
  have hlast := hs.last
  have hsum := LayoutSound.leading_add_last hs
  have htoken := lookup_eq hd h 0 r.token0 rfl
  have hm : (readBack (r.metadata C)).numTokens = r.layout.numTokens := rfl
  have hB : (readBack (r.metadata C)).wireBlockSize = r.layout.wireBlockSize := rfl
  have hc : (readBack (r.metadata C)).ciphertextLength = r.layout.ciphertextLength := rfl
  have hroot : (readBack (r.metadata C)).rootHash = (buildMerkleTree C r.blocks).rootHash := rfl
  have hlen : r.token0.length = 373 + r.lastBlock.length := by
    rw [show r.token0 = r.sEnc ++ r.lastBlock from rfl, List.length_append, h.smEnc, kSmEncBytes_eq]
  have hslice : slice r.token0 373 (373 + r.layout.lastBlockLength) = .ok r.lastBlock := by
    have hsm := h.smEnc
    rw [kSmEncBytes_eq] at hsm
    rw [slice, if_pos ⟨by omega, by rw [hlen, h.last]⟩, Nat.add_sub_cancel_left, ← h.last,
      show r.token0 = r.sEnc ++ r.lastBlock from rfl, ← hsm, List.drop_left, List.take_length]
  rw [collectBlocksFromUploads, hm, hB, hc, hroot, if_neg (by omega)]
  simp only [native_size, native_sizeSub_le (show (r.layout.numTokens - 1) * r.layout.wireBlockSize ≤
    r.layout.ciphertextLength by omega), kSmEncBytes_eq]
  rw [htoken, ok_bind, throwIf_neg (by simpa using h.token0), ok_bind, throwIf_neg (by omega), ok_bind,
    mapM_collectBlock hd h, ok_bind,
    show r.layout.ciphertextLength - (r.layout.numTokens - 1) * r.layout.wireBlockSize =
      r.layout.lastBlockLength by omega, hslice, ok_bind]
  have hroot' := verifyMerkleRoot_self (C := C) r.blocks
  rw [Run.blocks] at hroot' ⊢
  rw [throwIf_neg (by simpa using hroot')]
  rfl

theorem decryptFek_ok (hC : C.Laws)
    (h : r.Holds .native C tape₀ tape₁ tape₂ tape₃ tape₄ tape₅ uploads) :
    decrypt C (slowKdf C r.parts.keyCode r.saltRand) r.encryptedFek.pack = .ok r.kFek := by
  have hsealed := sealed_of_encrypt h.packedFek
  have hfek := h.fek
  rw [generateFek, randomBytes_eq_ok, kKeyBytes_eq] at hfek
  have hkey : r.kFek.length = 32 := by
    rw [(Prod.mk.inj hfek.2).1]
    exact List.length_take_of_le hfek.1
  have hlen := hsealed.length hC (by omega)
  obtain ⟨blob, hblob, hpack, -⟩ := EncryptedBlob.unpack_ok (show 28 ≤ r.packedFek.length by omega)
  have hunpack := h.encryptedFek
  rw [hblob, Except.ok.injEq] at hunpack
  subst hunpack
  rw [hpack]
  exact hsealed.decrypt hC hlen

/-- The ciphertext of a segmented object is the records of the segments. -/
theorem sealed_segments (hcode : segmentCode ≠ 0)
    (h : r.Holds .native C tape₀ tape₁ tape₂ tape₃ tape₄ tape₅ uploads) :
    ∃ packs, List.Forall₂ (Sealed C r.kFek) (cut (segmentBytes segmentCode) r.plaintext) packs ∧
      r.ciphertext = packs.flatten := by
  have hw : ¬ isV2WholeFileMode segmentCode = true := by
    simpa [isV2WholeFileMode, kV2SegmentCodeWholeFile] using hcode
  have hp := h.payload
  rw [encryptPayloadForSegmentCode, if_neg hw] at hp
  obtain ⟨packs, hpacks, hflat⟩ := segmented_eq_ok (sound h).code (by omega) hp
  exact ⟨packs, mapM_encrypt_sealed _ _ hpacks, hflat⟩

theorem decryptPayload_ok (hC : C.Laws) (metadata : SmbMetadata)
    (hcode : metadata.segmentCode = segmentCode)
    (h : r.Holds .native C tape₀ tape₁ tape₂ tape₃ tape₄ tape₅ uploads) :
    decryptPayloadForSegmentCode C r.kFek r.ciphertext metadata r.plaintext.length =
      .ok r.plaintext := by
  have hs := sound h
  have hpad := length_plaintext r
  rw [decryptPayloadForSegmentCode, hcode]
  by_cases hw : isV2WholeFileMode segmentCode = true
  · have h₀ : segmentCode = 0 := by simpa [isV2WholeFileMode, kV2SegmentCodeWholeFile] using hw
    have hp := h.payload
    rw [encryptPayloadForSegmentCode, if_pos hw] at hp
    rw [if_pos hw]
    have hlen : r.ciphertext.length = r.plaintext.length + 28 := by
      have hwhole : ∀ n, cipherLength n segmentCode = n + 28 := fun n => by
        simp [cipherLength, recordCount, h₀]
      rw [h.ciphertext, hs.ciphertext, hwhole, hpad]
    rw [decryptPayloadV2WholeFile, (sealed_of_encrypt hp).decrypt hC hlen, ok_bind,
      throwIf_neg (by simp)]
    rfl
  · have h₁ : segmentCode ≠ 0 := by simpa [isV2WholeFileMode, kV2SegmentCodeWholeFile] using hw
    obtain ⟨packs, hpacks, hflat⟩ := sealed_segments h₁ h
    rw [if_neg hw, decryptPayloadV21Segmented, decode_ok _ (by omega) hs.code, ok_bind, hflat]
    exact decryptSegments_ok hC (segmentBytes_pos _) (segmentBytes_lt _ hs.code) packs hpacks _ le_rfl

theorem decryptFile_ok (hC : C.Laws) (hne : segmentCode = 0 ∨ filePlaintext ≠ [])
    (h : r.Holds .native C tape₀ tape₁ tape₂ tape₃ tape₄ tape₅ uploads) :
    decryptFile .native C r.parts (readBack (r.metadata C)) r.blocks = .ok filePlaintext := by
  have hs := sound h
  have hpad := length_plaintext r
  have hpos : segmentCode = 0 ∨ 0 < r.plaintext.length := by
    rcases hne with h₀ | h₀
    · exact .inl h₀
    · have := List.length_pos_of_ne_nil h₀
      exact .inr (by omega)
  have hlen := paddedLength_of_cipherLength native_size r.plaintext.length segmentCode hs.code hpos
  rw [hpad, ← hs.ciphertext] at hlen
  have hcode : (readBack (r.metadata C)).segmentCode = segmentCode := rfl
  have hpayload := decryptPayload_ok hC _ hcode h
  rw [hpad] at hpayload
  have hc : (readBack (r.metadata C)).ciphertextLength = r.layout.ciphertextLength := rfl
  have ho : (readBack (r.metadata C)).originalFileLength = filePlaintext.length := rfl
  have hsalt : (readBack (r.metadata C)).saltRand = r.saltRand := rfl
  have hfek : (readBack (r.metadata C)).encryptedFek = r.encryptedFek := rfl
  rw [decryptFile, concatenateBlocks, flatten_blocks h, hc, ho, hsalt, hfek, hcode,
    throwIf_neg (by simpa using h.ciphertext), ok_bind]
  simp only [native_size]
  rw [decryptFek_ok hC h, ok_bind, hlen, ok_bind, hpayload, ok_bind, throwIf_neg (by omega), ok_bind,
    throwIf_neg (by simpa using hpad), ok_bind, Nat.add_sub_cancel_left]
  have hdrop := drop_plaintext r
  rw [hpad, Nat.add_sub_cancel_left] at hdrop
  rw [hdrop, throwIf_neg (by simp)]
  rfl

end Batch

/-- Batch round trip: an upload map that `prepare_upload` returned is received as the file. -/
theorem receive_prepareUpload (hC : C.Laws) (hd : DistinctTokens C) (filePlaintext : Bytes)
    (credential originalFileName : Str) (segmentCode maxWireBlockBytes : Nat) (tape tape' : Bytes)
    (uploads : UploadMap) (hname : (normalizeOriginalFileName originalFileName).length ≤ 120)
    (hne : segmentCode = 0 ∨ filePlaintext ≠ [])
    (h : prepareUpload .native C filePlaintext credential originalFileName segmentCode
      maxWireBlockBytes tape = .ok (uploads, tape')) :
    receiveFromUploadMap .native C credential uploads = .ok filePlaintext := by
  obtain ⟨r, t₁, t₂, t₃, t₄, hr⟩ := prepareUpload_eq_ok _ _ h
  rw [receiveFromUploadMap, hr.split, ok_bind, lookup_eq hd hr 0 r.token0 rfl, ok_bind,
    parseSmb_ok hC (fileName_fits hname) hr, ok_bind, collectBlocks_ok hd hr, ok_bind]
  exact decryptFile_ok hC hne hr

open PlainCrypto in
/-- A segmented file of 900 octets in two blocks. -/
theorem receive_prepareUpload_plain :
    ∃ uploads tape', prepareUpload .native plain (List.replicate 900 5) (ascii "abcdefghijkl")
        (ascii "a.txt") 1 700 (List.replicate 200 7) = .ok (uploads, tape') ∧
      receiveFromUploadMap .native plain (ascii "abcdefghijkl") uploads =
        .ok (List.replicate 900 5) := by
  have hok : (prepareUpload .native plain (List.replicate 900 5) (ascii "abcdefghijkl")
      (ascii "a.txt") 1 700 (List.replicate 200 7)).isOk = true := by decide +kernel
  cases h : prepareUpload .native plain (List.replicate 900 5) (ascii "abcdefghijkl")
      (ascii "a.txt") 1 700 (List.replicate 200 7) with
  | error e =>
    rw [h] at hok
    simp [Except.isOk, Except.toBool] at hok
  | ok p =>
    exact ⟨p.1, p.2, rfl, receive_prepareUpload plain_laws plain_distinctTokens _ _ _ _ _ _ _ _
      (by decide +kernel) (.inr (by decide +kernel)) h⟩

end TwelveC.RoundTrip
