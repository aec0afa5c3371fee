import TwelveC.Layout32
import TwelveC.LengthInversion
import TwelveC.SmbBounds
import TwelveC.ReceiveAgreement

/-!
# The receivers on the WebAssembly build

With a 32-bit `size_t` the SMB reads as it does natively: an end that wraps lies
before its field, so that no slice is taken. The padded length is the native one
as long as a full segment more is within `2 ^ 32`, and behind the constructor
only the length of token 0 is cast again.
-/

namespace TwelveC.Receive32

open Segment Payload Merkle Smb Crypto Receiver SmbGrammar SmbBounds Layout32 ReceiveSession Lib Lib.Word

variable {C : Primitives}

section parser

variable {buffer data : Bytes} {offset : Nat}

theorem readBytes_wasm32 (hL : buffer.length < 2 ^ 31) (ho : offset ≤ buffer.length) :
    SameOk (readBytes .wasm32 buffer offset) (readBytes .native buffer offset) := by
  rw [readBytes, readBytes, readU32_wasm32 (by omega)]
  refine (SameOk.refl _).bind fun r hr => ?_
  obtain ⟨length, next⟩ := r
  obtain ⟨hle, hlength, hnext⟩ := (readU32_eq_ok native_size).mp hr
  have hword : length < 2 ^ 32 := hlength ▸ Word.wordAt_lt buffer offset 4
  dsimp only
  rw [native_size]
  by_cases hwrap : next + length < 2 ^ 32
  · rw [wasm32_size hwrap]
    exact SameOk.refl _
  · -- The wrapped end lies before the field, the true one behind the buffer.
    have hsize : Machine.wasm32.size (next + length) = next + length - 2 ^ 32 := by
      rw [wasm32_size_eq]
      omega
    intro a
    rw [hsize, throwIf_bind_eq_ok, throwIf_bind_eq_ok, slice, if_neg (by omega), error_bind]
    refine iff_of_false (fun h => ?_) fun h => ?_
    · cases h.2
    · omega

theorem deserializeSmb_wasm32 (hL : data.length < 2 ^ 31) :
    SameOk (deserializeSmb .wasm32 C data) (deserializeSmb .native C data) := by
  rw [deserializeSmb, deserializeSmb]
  refine (SameOk.refl _).bind fun _ _ => (SameOk.refl _).bind fun hash _ => ?_
  refine (SameOk.refl _).bind fun payload hpayload => (SameOk.refl _).bind fun _ _ => ?_
  obtain ⟨-, -, hvalue⟩ := slice_eq_ok.mp hpayload
  have hlen : payload.length < 2 ^ 31 := by
    rw [hvalue, field, List.length_take, List.length_drop]
    omega
  refine (sameOk_of_eq (readU32_wasm32 (by decide))).bind fun magic hmagic => ?_
  obtain ⟨hfour, -, hmagicEnd⟩ := (readU32_eq_ok native_size).mp hmagic
  refine (SameOk.refl _).bind fun _ _ => (SameOk.refl _).bind fun _ hversion => ?_
  refine (SameOk.refl _).bind fun version _ => ?_
  have hfive : magic.2 + 1 ≤ payload.length := by
    rw [throwIf_eq_ok] at hversion
    omega
  rw [wasm32_size (by omega), native_size]
  refine (SameOk.refl _).bind fun _ _ => ?_
  refine (readBytes_wasm32 hlen hfive).bind fun rootHash hroot => ?_
  obtain ⟨-, hroot, -⟩ := (readBytes_eq_ok native_size).mp hroot
  refine (readBytes_wasm32 hlen hroot).bind fun packedFek hfek => ?_
  obtain ⟨-, hfek, -⟩ := (readBytes_eq_ok native_size).mp hfek
  refine (SameOk.refl _).bind fun encryptedFek _ => ?_
  refine (readBytes_wasm32 hlen hfek).bind fun saltRand hsalt => ?_
  obtain ⟨-, hsalt, -⟩ := (readBytes_eq_ok native_size).mp hsalt
  refine (sameOk_of_eq (readU32_wasm32 (by omega))).bind fun numTokens htokens => ?_
  obtain ⟨htokens, -, htokensEnd⟩ := (readU32_eq_ok native_size).mp htokens
  refine (sameOk_of_eq (readU32_wasm32 (by omega))).bind fun wireBlockSize hblock => ?_
  obtain ⟨hblock, -, hblockEnd⟩ := (readU32_eq_ok native_size).mp hblock
  refine (sameOk_of_eq (readU64_wasm32 (by omega))).bind fun ciphertextLength hcipher => ?_
  obtain ⟨hcipher, -, hcipherEnd⟩ := (readU64_eq_ok native_size).mp hcipher
  refine (sameOk_of_eq (readU64_wasm32 (by omega))).bind fun originalFileLength hfile => ?_
  obtain ⟨hfile, -, hfileEnd⟩ := (readU64_eq_ok native_size).mp hfile
  refine (sameOk_of_eq (readFixedFileNameField_wasm32 (by omega))).bind fun named hnamed => ?_
  obtain ⟨hnamed, -, -, hnamedEnd⟩ := (readFixedFileNameField_eq_ok native_size).mp hnamed
  refine (SameOk.refl _).bind fun body _ => ?_
  exact (readBytes_wasm32 hlen (by omega)).bind fun _ _ => SameOk.refl _

end parser

section lengths

variable {M : Machine} {L P s code k : Nat}

/-- A search whose every guess is decided by `p`. -/
theorem paddedLengthSearch_find {p : Nat → Prop} [DecidablePred p] {guesses : List Nat}
    (h : ∀ k ∈ guesses, paddedLengthFor M L s k = .ok (if p k then some (L - 28 * k) else none)) :
    paddedLengthSearch M L s guesses = .ok P ↔
      ∃ k, guesses.find? (fun k => p k) = some k ∧ P = L - 28 * k := by
  induction guesses with
  | nil => simp [paddedLengthSearch]
  | cons k rest ih =>
    rw [paddedLengthSearch, h k List.mem_cons_self, ok_bind, List.find?_cons]
    by_cases hk : p k
    · simp [hk, eq_comm]
    · simpa [hk] using ih fun j hj => h j (List.mem_cons_of_mem _ hj)

/-- A guess on the 32-bit build: with the last segment filled up the length stays within `2 ^ 32`. -/
def Fits32 (L s k : Nat) : Prop :=
  28 * k ≤ L ∧ L - 28 * k + s ≤ 2 ^ 32 ∧ (L - 28 * k + s - 1) / s = k

instance (L s k : Nat) : Decidable (Fits32 L s k) := inferInstanceAs (Decidable (_ ∧ _))

/-- A sum that wraps comes back below a segment, and as many envelopes as wrap are too many guesses. -/
theorem paddedLengthFor_wasm32 (hs : 2 ^ 24 ≤ s) (hs' : s ≤ 2 ^ 28) (hL : L < 2 ^ 32) (hk : 1 ≤ k) :
    paddedLengthFor .wasm32 L s k = .ok (if Fits32 L s k then some (L - 28 * k) else none) := by
  have hcount (n : Nat) : segmentCountV21 .wasm32 n s = .ok ((n + s - 1) % 2 ^ 32 / s) := by
    rw [segmentCountV21, if_neg (by omega), wasm32_ceilDiv (by omega)]
  rw [paddedLengthFor, kGcmEnvelopeBytes_eq, Nat.mul_comm]
  simp only [hcount, ok_bind, pure_eq_ok]
  by_cases hmany : 28 * k < 2 ^ 32
  · rw [wasm32_size hmany]
    by_cases hlt : L < 28 * k
    · rw [if_pos hlt, if_neg fun h => not_lt.mpr h.1 hlt]
    · rw [if_neg hlt]
      by_cases hsum : L - 28 * k + s ≤ 2 ^ 32
      · rw [Nat.mod_eq_of_lt (by omega)]
        by_cases heq : (L - 28 * k + s - 1) / s = k
        · rw [if_pos heq, if_pos ⟨by omega, hsum, heq⟩]
        · rw [if_neg heq, if_neg fun h => heq h.2.2]
      · have hzero : (L - 28 * k + s - 1) % 2 ^ 32 / s = 0 := Nat.div_eq_of_lt (by omega)
        rw [hzero, if_neg (by omega), if_neg fun h => hsum h.2.1]
  · have hnot : ¬ Fits32 L s k := fun h => hmany (Nat.lt_of_le_of_lt h.1 hL)
    rw [if_neg hnot]
    have hsmall (n : Nat) : n % 2 ^ 32 / s ≠ k := by
      have hlt : n % 2 ^ 32 < 2 ^ 32 := Nat.mod_lt _ (by decide)
      have hdiv : n % 2 ^ 32 / s < 2 ^ 8 + 1 := Nat.div_lt_of_lt_mul (by omega)
      omega
    split
    · rfl
    · rw [if_neg (hsmall _)]

theorem recordCount_pos (h₀ : code ≠ 0) (hP : 1 ≤ P) : 1 ≤ recordCount P code := by
  rw [recordCount, if_neg h₀]
  exact Nat.div_pos (by omega) (segmentBytes_pos code)

theorem paddedLength_wasm32 (hL : L < 2 ^ 32) :
    paddedPlaintextLengthFromCiphertext .wasm32 L code = .ok P ↔
      paddedPlaintextLengthFromCiphertext .native L code = .ok P ∧
        (code = 0 ∨ P + segmentBytes code ≤ 2 ^ 32) := by
  by_cases h₀ : code = 0
  · subst h₀
    rw [and_iff_left (.inl rfl)]
    rfl
  · have hw : ¬ isV2WholeFileMode code = true := by
      simp [isV2WholeFileMode, kV2SegmentCodeWholeFile, h₀]
    by_cases hv : ValidCode code
    · have hv' : code ≤ 5 := hv
      have hs := segmentBytes_ge code (by omega)
      have hs' := segmentBytes_le hv
      have hguesses (k : Nat) (hk : k ∈ List.range' 1 L) :
          paddedLengthFor .wasm32 L (segmentBytes code) k =
            .ok (if Fits32 L (segmentBytes code) k then some (L - 28 * k) else none) :=
        paddedLengthFor_wasm32 (by omega) (by omega) hL (List.mem_range'_1.mp hk).1
      have hsearch : paddedPlaintextLengthFromCiphertext .wasm32 L code =
          paddedLengthSearch .wasm32 L (segmentBytes code) (List.range' 1 L) := by
        rw [paddedPlaintextLengthFromCiphertext, if_neg hw, decode_ok code (by omega) hv', ok_bind,
          segmentCountV21, if_neg (by decide), wasm32_ceilDiv (by decide), ok_bind,
          Nat.add_sub_cancel, Nat.mod_eq_of_lt hL, Nat.div_one]
      rw [hsearch, paddedLengthSearch_find hguesses]
      constructor
      · rintro ⟨k, hfind, rfl⟩
        have hk := List.mem_range'_1.mp (List.mem_of_find?_eq_some hfind)
        have hfits : Fits32 L (segmentBytes code) k := by simpa using List.find?_some hfind
        obtain ⟨hpos, himage⟩ := cipherLength_of_fits h₀ hk.1 ⟨hfits.1, hfits.2.2⟩
        have hnative := paddedLength_of_cipherLength native_size (L - 28 * k) code hv (.inr hpos)
        rw [himage] at hnative
        exact ⟨hnative, .inr hfits.2.1⟩
      · rintro ⟨hnative, hroom⟩
        obtain ⟨-, hsome, rfl⟩ := paddedLength_inv native_size hnative
        have hpos := hsome.resolve_left h₀
        have hcount := recordCount_pos h₀ hpos
        -- The guess that is the number of records fits, so that some guess is found.
        have hfits : Fits32 (cipherLength P code) (segmentBytes code) (recordCount P code) := by
          have hback : cipherLength P code - 28 * recordCount P code = P := Nat.add_sub_cancel ..
          refine ⟨Nat.le_add_left _ _, ?_, ?_⟩
          · rw [hback]
            exact hroom.resolve_left h₀
          · rw [hback, recordCount, if_neg h₀]
        have hfound : ((List.range' 1 (cipherLength P code)).find? fun k =>
            Fits32 (cipherLength P code) (segmentBytes code) k).isSome = true := by
          rw [List.find?_isSome]
          refine ⟨recordCount P code, List.mem_range'_1.mpr ⟨hcount, ?_⟩, decide_eq_true hfits⟩
          have := hfits.1
          omega
        obtain ⟨k, hfind⟩ := Option.isSome_iff_exists.mp hfound
        have hk := List.mem_range'_1.mp (List.mem_of_find?_eq_some hfind)
        have hfits' : Fits32 (cipherLength P code) (segmentBytes code) k := by
          simpa using List.find?_some hfind
        obtain ⟨hpos', himage⟩ := cipherLength_of_fits h₀ hk.1 ⟨hfits'.1, hfits'.2.2⟩
        have hnative' := paddedLength_of_cipherLength native_size _ code hv (.inr hpos')
        rw [himage, hnative, Except.ok.injEq] at hnative'
        exact ⟨k, hfind, hnative'⟩
    · constructor
      · intro h
        rw [paddedPlaintextLengthFromCiphertext, if_neg hw, bind_eq_ok] at h
        obtain ⟨size, hsize, -⟩ := h
        obtain ⟨_, hcode, -⟩ := bind_eq_ok.mp hsize
        exact absurd ((validate_ok code).mp hcode) hv
      · intro h
        exact absurd (paddedLength_inv native_size h.1).1 hv

end lengths

/-- The lengths of the object and of its last segment, filled up, fit the 32-bit `size_t`. -/
structure Addressable (metadata : SmbMetadata) (padded : Nat) : Prop where
  ciphertext : metadata.ciphertextLength < 2 ^ 32
  segment : metadata.segmentCode = 0 ∨ padded + segmentBytes metadata.segmentCode ≤ 2 ^ 32

section sessions

variable {credential : Str} {token0 : Bytes} {parts : CredentialParts} {metadata : SmbMetadata}
  {padded : Nat} {leading : List Bytes} {uploads : UploadMap} {s : ReceiveDecryptSession}

theorem addressable_length (hd : Described C credential token0 parts metadata padded)
    (ha : Addressable metadata padded) :
    paddedPlaintextLengthFromCiphertext .wasm32 metadata.ciphertextLength metadata.segmentCode =
      .ok padded :=
  (paddedLength_wasm32 ha.ciphertext).mpr ⟨hd.length, ha.segment⟩

/-- The length of the last block comes out of the casts as it is. -/
theorem lastBlock_wasm32 (hd : Described C credential token0 parts metadata padded)
    (ha : metadata.ciphertextLength < 2 ^ 32) :
    Machine.wasm32.sizeSub metadata.ciphertextLength
      (Machine.wasm32.size ((metadata.numTokens - 1) * metadata.wireBlockSize)) =
        metadata.wireBlockSize - 373 := by
  have hfills := hd.fills
  rw [wasm32_size (by omega), wasm32_sizeSub ha (by omega)]
  omega

theorem lastBlock_native (hd : Described C credential token0 parts metadata padded) :
    Machine.native.sizeSub metadata.ciphertextLength
      ((metadata.numTokens - 1) * metadata.wireBlockSize) = metadata.wireBlockSize - 373 := by
  have hfills := hd.fills
  rw [native_sizeSub_le (by omega)]
  omega

theorem block_lt (hd : Described C credential token0 parts metadata padded) :
    373 + (metadata.wireBlockSize - 373) < 2 ^ 32 := by
  have hfloor := hd.floor
  have hword := (parse_bounds hd.parse).2.2
  omega

theorem file_lt (hd : Described C credential token0 parts metadata padded)
    (ha : Addressable metadata padded) : metadata.originalFileLength < 2 ^ 32 := by
  have hfile := hd.file
  have hcipher := hd.cipherLength_eq
  have hlt := ha.ciphertext
  rw [cipherLength] at hcipher
  omega

theorem new_wasm32 (hd : Described C credential token0 parts metadata padded)
    (hparse : parseSmbEncrypted .wasm32 C credential token0 = .ok metadata)
    (ha : Addressable metadata padded) :
    new .wasm32 C credential token0 = .ok (start parts metadata token0 padded) := by
  rw [← new_eq_ok.mpr ⟨parts, metadata, padded, hd, rfl⟩, new, new]
  simp only [hd.split, hparse, hd.parse, ok_bind, lastBlock_wasm32 hd ha.ciphertext,
    wasm32_size ha.ciphertext, addressable_length hd ha, kSmEncBytes_eq, wasm32_size (block_lt hd),
    wasm32_size (file_lt hd ha), native_size, lastBlock_native hd, hd.length]

/-- What the constructor has checked by its end. -/
theorem of_new {M : Machine} (hparse : parseSmbEncrypted M C credential token0 = .ok metadata)
    (hnew : new M C credential token0 = .ok s) :
    s.originalFileLength = M.size metadata.originalFileLength ∧
      ∃ (padded : Nat), paddedPlaintextLengthFromCiphertext M (M.size metadata.ciphertextLength)
          metadata.segmentCode = .ok padded ∧ M.size metadata.originalFileLength ≤ padded := by
  obtain ⟨split, -, hnew⟩ := bind_eq_ok.mp hnew
  rw [hparse, ok_bind, throwIf_bind_eq_ok, throwIf_bind_eq_ok, throwIf_bind_eq_ok] at hnew
  obtain ⟨padded, hlength, hnew⟩ := bind_eq_ok.mp hnew.2.2.2
  rw [throwIf_bind_eq_ok, not_lt] at hnew
  obtain ⟨hfile, hs⟩ := hnew
  refine ⟨?_, padded, hlength, hfile⟩
  split at hs
  case isTrue =>
    obtain ⟨size, -, hs⟩ := bind_eq_ok.mp hs
    obtain rfl := Except.ok.inj hs
    rfl
  case isFalse =>
    obtain rfl := Except.ok.inj hs
    rfl

/-- What the batch receiver has checked by its end. -/
theorem of_receive {M : Machine} {file : Bytes} (hsplit : splitCredential credential = .ok parts)
    (hfound : lookupUpload uploads (makeToken C parts.searchCode 0) = .ok token0)
    (hparse : parseSmbEncrypted M C credential token0 = .ok metadata)
    (h : receiveFromUploadMap M C credential uploads = .ok file) :
    ∃ (padded : Nat), paddedPlaintextLengthFromCiphertext M (M.size metadata.ciphertextLength)
        metadata.segmentCode = .ok padded ∧ M.size metadata.originalFileLength ≤ padded := by
  rw [receiveFromUploadMap, hsplit, ok_bind, hfound, ok_bind, hparse, ok_bind] at h
  obtain ⟨blocks, -, hdecrypt⟩ := bind_eq_ok.mp h
  obtain ⟨padded, hlength, hfile, -⟩ := of_decryptFile hdecrypt
  exact ⟨padded, hlength, hfile⟩

/-- A padded length that is found although the casts may cut the length of the ciphertext. -/
theorem addressable_of_length
    (h : paddedPlaintextLengthFromCiphertext .wasm32 (metadata.ciphertextLength % 2 ^ 32)
      metadata.segmentCode = .ok padded)
    (hfile : metadata.originalFileLength ≤ padded)
    (hcipher : metadata.ciphertextLength < 2 ^ 32 + metadata.originalFileLength) :
    Addressable metadata padded ∧
      paddedPlaintextLengthFromCiphertext .native metadata.ciphertextLength metadata.segmentCode =
        .ok padded := by
  obtain ⟨hnative, hroom⟩ := (paddedLength_wasm32 (Nat.mod_lt _ (by decide))).mp h
  obtain ⟨-, -, hinv⟩ := paddedLength_inv native_size hnative
  rw [cipherLength] at hinv
  -- A length that is cut comes out shorter than the file.
  have hlt : metadata.ciphertextLength < 2 ^ 32 := by omega
  rw [Nat.mod_eq_of_lt hlt] at hnative
  exact ⟨⟨hlt, hroom⟩, hnative⟩

theorem addWireToken_wasm32 (tokenIndex : Nat) (wire : Bytes) :
    addWireToken .wasm32 C tokenIndex wire s = addWireToken .native C tokenIndex wire s := rfl

theorem completeFinalize_wasm32 (h : 373 + s.lastBlockLength < 2 ^ 32) :
    completeFinalize .wasm32 C s = completeFinalize .native C s := by
  simp only [completeFinalize, feedLastLogicalBlock, kSmEncBytes_eq, wasm32_size h, native_size]

theorem receiveFromUploadMap_wasm32
    (h : Stored C uploads credential token0 parts metadata padded leading)
    (hparse : parseSmbEncrypted .wasm32 C credential token0 = .ok metadata)
    (ha : Addressable metadata padded) :
    receiveFromUploadMap .wasm32 C credential uploads =
      receiveFromUploadMap .native C credential uploads := by
  have hd := h.described
  simp only [receiveFromUploadMap, hd.split, ok_bind, h.token0, hparse, hd.parse,
    collectBlocksFromUploads, decryptFile, lastBlock_wasm32 hd ha.ciphertext, lastBlock_native hd,
    wasm32_size ha.ciphertext, wasm32_size (file_lt hd ha), kSmEncBytes_eq, wasm32_size (block_lt hd),
    native_size, addressable_length hd ha, hd.length]

end sessions

end TwelveC.Receive32
