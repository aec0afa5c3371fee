import TwelveC.Client.DownloadDecode
import TwelveC.PlainRun

/-!
# Downloading what was prepared

An object of `prepare_upload` goes through `downloadAdaptive`. The parser may
take a whole-file object with a long name for a segmented one; apart from that
its segment code is the sender's, and the driver's choice of a way is not. An
object that a native sender makes may be too large for the 32-bit core.
-/

namespace TwelveC.Client.DownloadDecode

open TwelveC.Segment TwelveC.Payload WireLayout Merkle Smb Crypto Sender Receiver SmbRoundTrip SmbNames
  ReceiveSession Receive32 RoundTrip Lib Lib.Cut Lib.Utf16

/-- The segment code that the receiver of an object reads. -/
def readCode (originalFileName : Str) (segmentCode : Nat) : Nat :=
  codeRead (normalizeFileNameForSegmentCode originalFileName segmentCode) segmentCode

section object

variable {C : Primitives} {filePlaintext : Bytes} {credential originalFileName : Str}
  {segmentCode maxWireBlockBytes : Nat}
  {r : Run filePlaintext credential originalFileName segmentCode maxWireBlockBytes}
  {tape₀ tape₁ tape₂ tape₃ tape₄ tape₅ : Bytes} {uploads : TwelveC.UploadMap}

theorem clean (r : Run filePlaintext credential originalFileName segmentCode maxWireBlockBytes) :
    Clean (r.metadata C).originalFileName := normalizeForCode_clean _ _

theorem short_of_segmented (h : r.Holds .native C tape₀ tape₁ tape₂ tape₃ tape₄ tape₅ uploads) :
    (r.metadata C).segmentCode ≠ 0 → (r.metadata C).originalFileName.length ≤ 120 := by
  intro hcode
  exact normalizeForCode_length _ (sound h).code hcode

theorem encryptedFek_spec (hC : C.Laws)
    (h : r.Holds .native C tape₀ tape₁ tape₂ tape₃ tape₄ tape₅ uploads) :
    r.encryptedFek.pack.length = 60 ∧ r.encryptedFek.nonce.length = 12 ∧
      r.encryptedFek.tag.length = 16 := by
  have hfek := h.fek
  rw [generateFek, randomBytes_eq_ok, kKeyBytes_eq] at hfek
  have hkey : r.kFek.length = 32 := by
    rw [(Prod.mk.inj hfek.2).1]
    exact List.length_take_of_le hfek.1
  have hlen := (sealed_of_encrypt h.packedFek).length hC (by omega)
  obtain ⟨blob, hblob, hpack, hnonce, htag⟩ :=
    EncryptedBlob.unpack_ok (show 28 ≤ r.packedFek.length by omega)
  have hunpack := h.encryptedFek
  rw [hblob, Except.ok.injEq] at hunpack
  subst hunpack
  exact ⟨by rw [hpack]; omega, hnonce, htag⟩

theorem sealable (hC : C.Laws)
    (h : r.Holds .native C tape₀ tape₁ tape₂ tape₃ tape₄ tape₅ uploads) :
    Sealable (r.metadata C) := by
  have hs := sound h
  obtain ⟨hpack, -, -⟩ := encryptedFek_spec hC h
  have hsalt := h.salt
  rw [randomBytes_eq_ok, kSaltRandBytes] at hsalt
  have hsalt' : r.saltRand.length = 16 := by
    rw [(Prod.mk.inj hsalt.2).1]
    exact List.length_take_of_le hsalt.1
  have hlen := h.smPlain
  rw [length_serialize hC.sha256_length, kSmPlainBytes] at hlen
  have hpadded := LayoutSound.padded_le hs
  have hcipher := LayoutSound.ciphertext_lt hs
  have hroot : (r.metadata C).rootHash.length + r.encryptedFek.pack.length + r.saltRand.length + 237 =
    345 := hlen
  exact ⟨by omega, hpack, hsalt', hs.tokens_lt, hs.block_lt, hcipher,
    show filePlaintext.length < 2 ^ 64 by omega, hs.code⟩

theorem parse_eq (M : Machine) (h : r.Holds .native C tape₀ tape₁ tape₂ tape₃ tape₄ tape₅ uploads)
    (hC : C.Laws) :
    parseSmbEncrypted M C credential r.token0 =
      rethrow "SMB integrity check failed: " (deserializeSmb M C (serializeSmb C (r.metadata C))) := by
  have hdec := (sealed_of_encrypt h.sEnc).decrypt hC (by rw [h.smPlain, h.smEnc]; rfl)
  rw [parseSmbEncrypted, h.split, ok_bind]
  simp only [extractSEnc_ok h, ok_bind, hdec]

/-- The SMB is too short for the 32-bit casts to matter. -/
theorem parse_wasm32 (h : r.Holds .native C tape₀ tape₁ tape₂ tape₃ tape₄ tape₅ uploads) (hC : C.Laws) :
    SameOk (parseSmbEncrypted .wasm32 C credential r.token0)
      (parseSmbEncrypted .native C credential r.token0) := by
  intro m
  rw [parse_eq _ h hC, parse_eq _ h hC, rethrow_eq_ok, rethrow_eq_ok]
  exact deserializeSmb_wasm32 (by rw [h.smPlain]; decide) m

/-- The SMB as the receiver sees it. -/
def seen (C : Primitives)
    (r : Run filePlaintext credential originalFileName segmentCode maxWireBlockBytes) : SmbMetadata :=
  readBack (asRead (r.metadata C))

theorem parse_seen (hC : C.Laws)
    (h : r.Holds .native C tape₀ tape₁ tape₂ tape₃ tape₄ tape₅ uploads)
    (hv : ValidCode (readCode originalFileName segmentCode)) :
    parseSmbEncrypted .native C credential r.token0 = .ok (seen C r) := by
  have hs := sealable hC h
  obtain ⟨hpack, hnonce, htag⟩ := encryptedFek_spec hC h
  have hw : Writable (asRead (r.metadata C)) :=
    ⟨by rw [asRead, hs.rootHash]; omega, hnonce, htag, by rw [asRead, hs.encryptedFek]; omega,
      by rw [asRead, hs.saltRand]; omega, hs.numTokens, hs.wireBlockSize, hs.ciphertextLength,
      hs.originalFileLength, hv, .inl (List.length_take_le _ _)⟩
  have hread := deserialize_serialize native_size hC.sha256_length _ hw
  rw [serialize_asRead C (clean r) (short_of_segmented h) hv] at hread
  rw [parse_eq _ h hC, hread]
  rfl

theorem parse_valid (hC : C.Laws)
    (h : r.Holds .native C tape₀ tape₁ tape₂ tape₃ tape₄ tape₅ uploads) {m : SmbMetadata}
    (hparse : parseSmbEncrypted .native C credential r.token0 = .ok m) :
    ValidCode (readCode originalFileName segmentCode) := by
  rw [parse_eq _ h hC, rethrow_eq_ok] at hparse
  exact codeRead_valid hC.sha256_length (sealable hC h) (clean r) hparse

/-- The code is the sender's, or the padded plaintext is one segment under it as well. -/
def Fits (r : Run filePlaintext credential originalFileName segmentCode maxWireBlockBytes) : Prop :=
  readCode originalFileName segmentCode = segmentCode ∨
    0 < r.plaintext.length ∧ r.plaintext.length ≤ segmentBytes (readCode originalFileName segmentCode)

/-- Only a whole-file object is read under another code. -/
theorem whole_of_misread (h : readCode originalFileName segmentCode ≠ segmentCode) : segmentCode = 0 := by
  by_contra hcode
  exact h (if_neg hcode)

theorem cipherLength_whole {n code : Nat} (h : code = 0) : cipherLength n code = n + 28 := by
  rw [h, cipherLength, recordCount_zero_code]

/-- Of one record is a plaintext within one segment. -/
theorem le_segment_of_single {n code : Nat} (hcode : code ≠ 0) (h : cipherLength n code = n + 28) :
    n ≤ segmentBytes code := by
  by_contra hmore
  have htwo : 2 ≤ recordCount n code := by
    rw [recordCount, if_neg hcode, Nat.le_div_iff_mul_le (segmentBytes_pos code)]
    omega
  rw [cipherLength] at h
  omega

theorem cipherLength_seen (h : r.Holds .native C tape₀ tape₁ tape₂ tape₃ tape₄ tape₅ uploads)
    (hfits : Fits r) :
    cipherLength r.plaintext.length (readCode originalFileName segmentCode) = r.layout.ciphertextLength := by
  rw [(sound h).ciphertext, ← length_plaintext]
  by_cases hcode : readCode originalFileName segmentCode = segmentCode
  · rw [hcode]
  · obtain ⟨hpos, hle⟩ := hfits.resolve_left hcode
    have hread : readCode originalFileName segmentCode ≠ 0 := fun hzero =>
      hcode (hzero.trans (whole_of_misread hcode).symm)
    have hsize := segmentBytes_pos (readCode originalFileName segmentCode)
    have hone : (r.plaintext.length + segmentBytes (readCode originalFileName segmentCode) - 1) /
        segmentBytes (readCode originalFileName segmentCode) = 1 := by
      rw [Nat.div_eq_iff hsize]
      omega
    rw [cipherLength_whole (whole_of_misread hcode), cipherLength, recordCount, if_neg hread, hone]

theorem stored_seen (hC : C.Laws) (hd : DistinctTokens C)
    (h : r.Holds .native C tape₀ tape₁ tape₂ tape₃ tape₄ tape₅ uploads)
    (hne : segmentCode = 0 ∨ filePlaintext ≠ []) (hv : ValidCode (readCode originalFileName segmentCode))
    (hfits : Fits r) :
    Stored C uploads credential r.token0 r.parts (seen C r) r.plaintext.length r.leadingBlocks := by
  have hs := sound h
  have hsum := LayoutSound.leading_add_last hs
  have hlast := hs.last
  have hlength := length_plaintext r
  have hpos : readCode originalFileName segmentCode = 0 ∨ 0 < r.plaintext.length := by
    by_cases hcode : readCode originalFileName segmentCode = segmentCode
    · rw [hcode]
      refine hne.imp_right fun hfile => ?_
      have := List.length_pos_of_ne_nil hfile
      omega
    · exact .inr (hfits.resolve_left hcode).1
  have hpadded := paddedLength_of_cipherLength native_size r.plaintext.length _ hv hpos
  rw [cipherLength_seen h hfits] at hpadded
  refine ⟨⟨h.split, parse_seen hC h hv, hs.tokens, hs.tokens_lt, h.token0, hs.block, ?_, hpadded, ?_⟩,
    lookup_eq hd h 0 r.token0 rfl, mapM_collectBlock hd h⟩
  · show (r.layout.numTokens - 1) * r.layout.wireBlockSize + (r.layout.wireBlockSize - 373) =
      r.layout.ciphertextLength
    omega
  · show filePlaintext.length ≤ r.plaintext.length
    omega

theorem drop_token0 (h : r.Holds .native C tape₀ tape₁ tape₂ tape₃ tape₄ tape₅ uploads) :
    r.token0.drop 373 = r.lastBlock := by
  have hlen := h.smEnc
  rw [kSmEncBytes_eq] at hlen
  rw [Run.token0, buildToken0, ← hlen, List.drop_left]

/-- The only record of a whole-file object is that of a single segment. -/
theorem opens_whole (hC : C.Laws)
    (h : r.Holds .native C tape₀ tape₁ tape₂ tape₃ tape₄ tape₅ uploads) (hcode : segmentCode = 0)
    {code : Nat} (h₁ : 1 ≤ code) (hv : ValidCode code) (hpos : 0 < r.plaintext.length)
    (hle : r.plaintext.length ≤ segmentBytes code) :
    decryptPayloadV21Segmented C r.kFek r.ciphertext code r.plaintext.length = .ok r.plaintext := by
  have hsealed : Sealed C r.kFek r.plaintext r.ciphertext := by
    have hpayload := h.payload
    rw [encryptPayloadForSegmentCode, if_pos (wholeFileMode_iff.mpr hcode)] at hpayload
    exact sealed_of_encrypt hpayload
  have hcut : cut (segmentBytes code) r.plaintext = [r.plaintext] :=
    cut_of_le (segmentBytes_pos _) (List.ne_nil_of_length_pos hpos) hle
  have hopen := decryptSegments_ok hC (segmentBytes_pos code) (segmentBytes_lt code hv) [r.ciphertext]
    (by rw [hcut]; exact .cons hsealed .nil) r.plaintext.length le_rfl
  rw [List.flatten_singleton] at hopen
  rw [decryptPayloadV21Segmented, decode_ok code h₁ hv, ok_bind, hopen]

theorem accepts_seen (hC : C.Laws)
    (h : r.Holds .native C tape₀ tape₁ tape₂ tape₃ tape₄ tape₅ uploads)
    (hv : ValidCode (readCode originalFileName segmentCode)) (hfits : Fits r) :
    Accepts C r.parts (seen C r) r.plaintext.length
      (r.leadingBlocks.map C.sha256 ++ [C.sha256 (r.token0.drop 373)])
      (r.leadingBlocks.flatten ++ r.token0.drop 373) r.plaintext := by
  have hstream : r.leadingBlocks.flatten ++ r.lastBlock = r.ciphertext := by
    rw [← flatten_blocks h, Run.blocks, List.flatten_append, List.flatten_singleton]
  rw [drop_token0 h, hstream]
  refine ⟨?_, r.kFek, decryptFek_ok hC h, ?_⟩
  · have hroot := verifyMerkleRoot_self (C := C) r.blocks
    rw [← verify_fromLeafHashes_map, Run.blocks, List.map_append, List.map_singleton] at hroot
    exact hroot
  · by_cases hcode : readCode originalFileName segmentCode = segmentCode
    · exact decryptPayload_ok hC _ hcode h
    · obtain ⟨hpos, hle⟩ := hfits.resolve_left hcode
      have hwhole := whole_of_misread hcode
      have hread : (seen C r).segmentCode ≠ 0 := fun hzero => hcode (hzero.trans hwhole.symm)
      rw [decryptPayloadForSegmentCode, if_neg fun hmode => hread (wholeFileMode_iff.mp hmode)]
      exact opens_whole hC h hwhole (Nat.one_le_iff_ne_zero.mpr hread) hv hpos hle

end object

/-- What makes the driver decode an object of `prepare_upload`. -/
structure Decodable (C : Primitives) (uploads : TwelveC.UploadMap) (credential : JsString)
    (originalFileName : Str) (segmentCode fileLength : Nat) (layout : WireLayout) : Prop where
  characters : credential.length = credentialLength
  code : ValidCode (readCode originalFileName segmentCode)
  fits : readCode originalFileName segmentCode = segmentCode ∨
    0 < fileLength + layout.plaintextPadding ∧
      fileLength + layout.plaintextPadding ≤ segmentBytes (readCode originalFileName segmentCode)
  ciphertext : layout.ciphertextLength < 2 ^ 32
  segment : readCode originalFileName segmentCode = 0 ∨ fileLength + layout.plaintextPadding +
    segmentBytes (readCode originalFileName segmentCode) ≤ 2 ^ 32
  way : fileLength ≤ v21WholeFileThresholdBytes ∨
    (readCode originalFileName segmentCode ≠ 0 ∨ layout.numTokens = 1) ∧
      ¬ EmptyLastBlock C uploads (toUtf8 credential)

/-- A whole-file object that is read under another segment code, under which its ciphertext has the
length of that of another plaintext, no shorter than the file. -/
def Misread (originalFileName : Str) (segmentCode fileLength : Nat) (layout : WireLayout) : Prop :=
  readCode originalFileName segmentCode ≠ segmentCode ∧
    ∃ padded, padded ≠ fileLength + layout.plaintextPadding ∧ 1 ≤ padded ∧ fileLength ≤ padded ∧
      cipherLength padded (readCode originalFileName segmentCode) = layout.ciphertextLength

theorem padding_le {W P code : Nat} {layout : WireLayout}
    (h : computeWireLayout .native P code W = .ok layout) : layout.plaintextPadding ≤ 2 ^ 25 := by
  obtain ⟨-, hW, q, l, hq, -, rfl⟩ := LayoutSound.computeWireLayout_ok h
  have hlimit : maxPlaintextPaddingForLayout W = max (16 * 1024 * 1024) W := rfl
  obtain ⟨-, hW⟩ := (acceptedBlockBytes_iff W).mp hW
  exact le_trans hq (by omega)

section download

variable {C : Primitives} {filePlaintext : Bytes} {credential : JsString} {originalFileName : Str}
  {segmentCode maxWireBlockBytes : Nat}
  {r : Run filePlaintext (toUtf8 credential) originalFileName segmentCode maxWireBlockBytes}
  {tape₀ tape₁ tape₂ tape₃ tape₄ tape₅ data : Bytes} {uploads : TwelveC.UploadMap} {get : Str → Js Bytes}

/-- Under a code that fits, the driver decodes the object exactly if its way suits the object. -/
theorem downloadAdaptive_fits (hC : C.Laws) (hd : DistinctTokens C)
    (h : r.Holds .native C tape₀ tape₁ tape₂ tape₃ tape₄ tape₅ uploads)
    (hne : segmentCode = 0 ∨ filePlaintext ≠ [])
    (hv : ValidCode (readCode originalFileName segmentCode)) (hfits : Fits r)
    (hget : Serves get uploads) :
    downloadAdaptive .wasm32 C get credential = .ok filePlaintext ↔
      credential.length = credentialLength ∧ Addressable (seen C r) r.plaintext.length ∧
      (filePlaintext.length ≤ v21WholeFileThresholdBytes ∨
        (readCode originalFileName segmentCode ≠ 0 ∨ r.layout.numTokens = 1) ∧
          ¬ EmptyLastBlock C uploads (toUtf8 credential)) := by
  have hpadding : r.plaintext.length ≤ (seen C r).originalFileLength + 2 ^ 25 := by
    rw [length_plaintext]
    exact Nat.add_le_add_left (padding_le h.layout) _
  have hiff := downloadAdaptive_stored (stored_seen hC hd h hne hv hfits)
    ((parse_wasm32 h hC _).mpr (parse_seen hC h hv)) hpadding (accepts_seen hC h hv hfits) hget
  rw [show (seen C r).originalFileLength = filePlaintext.length from rfl, drop_plaintext] at hiff
  exact hiff

/-- A download that ends has found the lengths of the object to fit under the code that is read. -/
theorem length_of_download (hC : C.Laws) (hd : DistinctTokens C)
    (h : r.Holds .native C tape₀ tape₁ tape₂ tape₃ tape₄ tape₅ uploads)
    (hv : ValidCode (readCode originalFileName segmentCode)) (hget : Serves get uploads)
    (hdata : downloadAdaptive .wasm32 C get credential = .ok data) :
    ∃ padded, (readCode originalFileName segmentCode = 0 ∨ 1 ≤ padded) ∧
      filePlaintext.length ≤ padded ∧
      cipherLength padded (readCode originalFileName segmentCode) = r.layout.ciphertextLength := by
  have hparse := (parse_wasm32 h hC _).mpr (parse_seen hC h hv)
  obtain ⟨-, ⟨p, hp, hle⟩, hsame⟩ := lengths_of_download h.split
    (hget _ _ (lookup_eq hd h 0 r.token0 rfl)) hparse hdata
  rw [wasm32_size_eq] at hp hle hsame
  have hthreshold : v21WholeFileThresholdBytes < 2 ^ 32 := by decide
  have hfile : (seen C r).originalFileLength < 2 ^ 32 := by omega
  rw [Nat.mod_eq_of_lt hfile] at hle
  have hcount := recordCount_le_div (filePlaintext.length + r.layout.plaintextPadding) segmentCode
  have hcipher := (sound h).ciphertext
  have hpadding := padding_le h.layout
  have horiginal : (seen C r).originalFileLength = filePlaintext.length := rfl
  rw [cipherLength] at hcipher
  obtain ⟨-, hnative⟩ := addressable_of_length hp hle
    (show r.layout.ciphertextLength < 2 ^ 32 + filePlaintext.length by omega)
  obtain ⟨-, hpos, hinv⟩ := paddedLength_inv native_size hnative
  exact ⟨p, hpos, hle, hinv⟩

/-- A download that ends has opened the SMB. -/
theorem parse_of_download (hC : C.Laws) (hd : DistinctTokens C)
    (h : r.Holds .native C tape₀ tape₁ tape₂ tape₃ tape₄ tape₅ uploads) (hget : Serves get uploads)
    (hdata : downloadAdaptive .wasm32 C get credential = .ok data) :
    ValidCode (readCode originalFileName segmentCode) := by
  obtain ⟨cut, hcut, hdata⟩ := bind_ok_iff.mp hdata
  obtain ⟨hlength, rfl⟩ := splitCredential_eq_ok.mp hcut
  dsimp only at hdata
  rw [searchCode_of_split h.split hlength,
    bind_of_ok (hget _ _ (lookup_eq hd h 0 r.token0 rfl))] at hdata
  obtain ⟨metadata, hparse, -⟩ := bind_ok_iff.mp hdata
  obtain ⟨m, hm, -⟩ := bind_ok_iff.mp hparse
  exact parse_valid hC h ((parse_wasm32 h hC m).mp (fromCore_eq_ok.mp hm))

end download

/-- The driver returns the file of a decodable object, and of no other, save perhaps a misread one. -/
theorem downloads_prepared (C : Primitives) (hC : C.Laws) (hd : DistinctTokens C)
    (filePlaintext : Bytes) (credential : JsString) (originalFileName : Str)
    (segmentCode maxWireBlockBytes : Nat) (tape tape' : Bytes) (uploads : TwelveC.UploadMap)
    (layout : WireLayout) (get : Str → Js Bytes)
    (hne : segmentCode = 0 ∨ filePlaintext ≠ [])
    (hlayout : computeWireLayout .native filePlaintext.length segmentCode maxWireBlockBytes =
      .ok layout)
    (h : prepareUpload .native C filePlaintext (toUtf8 credential) originalFileName segmentCode
      maxWireBlockBytes tape = .ok (uploads, tape'))
    (hget : Serves get uploads) :
    (Decodable C uploads credential originalFileName segmentCode filePlaintext.length layout →
      downloadAdaptive .wasm32 C get credential = .ok filePlaintext) ∧
    (downloadAdaptive .wasm32 C get credential = .ok filePlaintext →
      Decodable C uploads credential originalFileName segmentCode filePlaintext.length layout ∨
        Misread originalFileName segmentCode filePlaintext.length layout) := by
  obtain ⟨r, t₁, t₂, t₃, t₄, hr⟩ := prepareUpload_eq_ok _ _ h
  obtain rfl := Except.ok.inj (hlayout.symm.trans hr.layout)
  have hlength := length_plaintext r
  constructor
  · rintro ⟨hcharacters, hv, hfits, hcipher, hsegment, hway⟩
    rw [← hlength] at hfits hsegment
    exact (downloadAdaptive_fits hC hd hr hne hv hfits hget).mpr ⟨hcharacters, ⟨hcipher, hsegment⟩, hway⟩
  · intro hdata
    have hv := parse_of_download hC hd hr hget hdata
    by_cases hfits : Fits r
    · obtain ⟨hcharacters, ⟨hcipher, hsegment⟩, hway⟩ :=
        (downloadAdaptive_fits hC hd hr hne hv hfits hget).mp hdata
      rw [hlength] at hsegment
      rw [Fits, hlength] at hfits
      exact .inl ⟨hcharacters, hv, hfits, hcipher, hsegment, hway⟩
    · rw [Fits, not_or] at hfits
      obtain ⟨hcode, hfits⟩ := hfits
      obtain ⟨padded, hpos, hle, hcipher⟩ := length_of_download hC hd hr hv hget hdata
      have hread : readCode originalFileName segmentCode ≠ 0 := fun hzero =>
        hcode (hzero.trans (whole_of_misread hcode).symm)
      refine .inr ⟨hcode, padded, ?_, hpos.resolve_left hread, hle, hcipher⟩
      -- Of the length of the plaintext it would be a single segment.
      rintro rfl
      have hwhole : r.layout.ciphertextLength =
          filePlaintext.length + r.layout.plaintextPadding + 28 := by
        rw [(sound hr).ciphertext, cipherLength_whole (whole_of_misread hcode)]
      exact hfits (hlength ▸ ⟨hpos.resolve_left hread,
        le_segment_of_single hread (hcipher.trans hwhole)⟩)

open PlainCrypto

/-- The units of `abcdefghijkl`. -/
def letters : JsString := [97, 98, 99, 100, 101, 102, 103, 104, 105, 106, 107, 108]

def smallLayout : WireLayout :=
  { numTokens := 2, wireBlockSize := 651, ciphertextLength := 929, totalWireBytes := 1302,
    lastBlockLength := 278, plaintextPadding := 1 }

/-- A segmented file of 900 octets, downloaded from its own map. -/
theorem downloads_prepared_plain :
    ∃ uploads tape', prepareUpload .native plain (List.replicate 900 (5 : UInt8)) (toUtf8 letters)
        (ascii "a.txt") 1 700 (List.replicate 200 7) = .ok (uploads, tape') ∧
      downloadAdaptive .wasm32 plain (getFrom uploads) letters = .ok (List.replicate 900 5) := by
  have hok : (prepareUpload .native plain (List.replicate 900 (5 : UInt8)) (toUtf8 letters)
      (ascii "a.txt") 1 700 (List.replicate 200 7)).isOk = true := by decide +kernel
  have hlayout : computeWireLayout .native (List.replicate 900 (5 : UInt8)).length 1 700 =
      .ok smallLayout := by decide +kernel
  cases h : prepareUpload .native plain (List.replicate 900 (5 : UInt8)) (toUtf8 letters)
      (ascii "a.txt") 1 700 (List.replicate 200 7) with
  | error e =>
    rw [h] at hok
    cases hok
  | ok p =>
    exact ⟨p.1, p.2, rfl, (downloads_prepared plain plain_laws plain_distinctTokens _ _ _ _ _ _ _ _ _ _
      (.inr (by decide +kernel)) hlayout h (getFrom_serves _)).1
      ⟨rfl, by decide +kernel, .inl rfl, by decide, .inr (by decide +kernel),
        .inl (by decide +kernel)⟩⟩

/-- The whole-file object of a file, sealed by copying. -/
def wholeRun (filePlaintext : Bytes) (credential originalFileName : Str) (maxWireBlockBytes : Nat)
    (layout : WireLayout) (tape : Bytes) :
    Run filePlaintext credential originalFileName 0 maxWireBlockBytes :=
  plainRun plain filePlaintext credential originalFileName 0 maxWireBlockBytes layout
    (plainRecord (tape.drop 48) (padPlaintext filePlaintext layout)) tape 60

theorem wholeRun_holds {filePlaintext : Bytes} {maxWireBlockBytes : Nat} {layout : WireLayout}
    (credential originalFileName : Str) (tape : Bytes)
    (hlayout : computeWireLayout .native filePlaintext.length 0 maxWireBlockBytes = .ok layout)
    (htape : 84 ≤ tape.length) (hcredential : credential.length = 12) :
    (wholeRun filePlaintext credential originalFileName maxWireBlockBytes layout tape).Holds .native
      plain tape (tape.drop 16) (tape.drop 48) (tape.drop 60) (tape.drop 72) (tape.drop 84)
      (buildUploadMap .native plain
        (wholeRun filePlaintext credential originalFileName maxWireBlockBytes layout tape).token0
        (wholeRun filePlaintext credential originalFileName maxWireBlockBytes layout tape).leadingBlocks
        (credential.take 6)) := by
  have hkey : ((tape.drop 16).take 32).length = 32 := by
    rw [List.length_take, List.length_drop]
    omega
  refine plainRun_holds credential originalFileName plain_copies hlayout
    (encrypt_copied 48 hkey rfl (by omega)) ?_ (by omega) (by omega) hcredential
  rw [(LayoutSound.computeWireLayout_sound hlayout).ciphertext, cipherLength, recordCount_zero_code,
    length_plainRecord (by omega), padPlaintext, List.length_append, List.length_replicate,
    Nat.add_comm layout.plaintextPadding]

/-- One octet more than the threshold. -/
def largeFile : Bytes := List.replicate (v21WholeFileThresholdBytes + 1) 5

/-- In blocks of at most 4 MiB the whole-file object has five tokens. -/
def largeLayout : WireLayout :=
  { numTokens := 5, wireBlockSize := 3355524, ciphertextLength := 16777247,
    totalWireBytes := 16777620, lastBlockLength := 3355151, plaintextPadding := 2 }

theorem largeLayout_eq :
    computeWireLayout .native largeFile.length 0 (4 * 1024 * 1024) = .ok largeLayout := by
  rw [largeFile, List.length_replicate]
  decide +kernel

/-- The driver streams it, and the first drain throws. -/
theorem large_file_refused :
    ∃ uploads tape', prepareUpload .native plain largeFile (toUtf8 letters) (ascii "a.bin") 0
        (4 * 1024 * 1024) (List.replicate 84 7) = .ok (uploads, tape') ∧
      downloadAdaptive .wasm32 plain (getFrom uploads) letters ≠ .ok largeFile := by
  have hholds := wholeRun_holds (toUtf8 letters) (ascii "a.bin") (List.replicate 84 7)
    largeLayout_eq (by rw [List.length_replicate]) (by decide +kernel)
  refine ⟨_, _, prepareUpload_of_holds .native plain hholds, fun hdata => ?_⟩
  have hread : readCode (ascii "a.bin") 0 = 0 := by decide +kernel
  have hlength : v21WholeFileThresholdBytes < largeFile.length := by
    rw [largeFile, List.length_replicate]
    exact Nat.lt_succ_self _
  have hfive : largeLayout.numTokens ≠ 1 := by decide
  obtain ⟨-, -, hsmall | ⟨hcode | hone, -⟩⟩ := (downloadAdaptive_fits plain_laws plain_distinctTokens
    hholds (.inl rfl) (hread ▸ Nat.zero_le _) (.inl hread) (getFrom_serves _)).mp hdata
  · exact absurd hsmall (not_le.mpr hlength)
  · exact hcode hread
  · exact hfive hone

end TwelveC.Client.DownloadDecode
