import TwelveC.SmbGrammar

/-!
# The SMB parser on the WebAssembly build

With a 32-bit `size_t` the end of a field, its offset plus a length from the
block, can pass `2 ^ 32` and come back below the size of the buffer. The bounds
check then passes and the slice runs backwards. Every other read of the parser
stays in bounds: the readers agree with the native ones until an end wraps.
-/

namespace TwelveC.SmbBounds

open Segment Crypto Smb SmbRoundTrip SmbGrammar PlainCrypto Lib.Word

variable {α β : Type} {C : Primitives} {buffer data : Bytes} {offset : Nat}

/-- A read outside of the buffer. -/
def Faults (x : Except Exn α) : Prop := x = .error .outOfBounds

theorem not_faults_ok (a : α) : ¬ Faults (Except.ok a : Except Exn α) := by
  intro h
  cases h

theorem faults_bind_iff {x : Except Exn α} {f : α → Except Exn β} (hx : ¬ Faults x) :
    Faults (x >>= f) ↔ ∃ a, x = .ok a ∧ Faults (f a) := by
  cases x with
  | ok a => simp
  | error e =>
    have he : e ≠ .outOfBounds := fun h => hx (congrArg Except.error h)
    simp [Faults, he]

theorem not_faults_throwIf {c : Prop} [Decidable c] {what : String} :
    ¬ Faults (throwIf c (.runtimeError what)) := by
  by_cases h : c
  · simp [Faults, throwIf_pos h]
  · simp [Faults, throwIf_neg h]

theorem faults_throwIf_bind {c : Prop} [Decidable c] {what : String} {f : Unit → Except Exn β} :
    Faults (throwIf c (.runtimeError what) >>= f) ↔ ¬ c ∧ Faults (f ()) := by
  rw [faults_bind_iff not_faults_throwIf]
  simp only [throwIf_eq_ok, Unique.exists_iff]

theorem faults_slice_bind {first last : Nat} {f : Bytes → Except Exn β} (h : first ≤ last)
    (hl : last ≤ buffer.length) :
    Faults (slice buffer first last >>= f) ↔ Faults (f (field buffer first (last - first))) := by
  rw [slice_eq_ok.mpr ⟨h, hl, rfl⟩, ok_bind]

theorem faults_byteAt_bind {f : UInt8 → Except Exn β} (h : offset < buffer.length) :
    Faults (byteAt buffer offset >>= f) ↔ Faults (f buffer[offset]) := by
  rw [byteAt_eq_ok.mpr (List.getElem?_eq_getElem h), ok_bind]

theorem faults_unpack_bind {packed : Bytes} {f : EncryptedBlob → Except Exn β} {W : Prop}
    (hf : ∀ blob, Faults (f blob) ↔ W) :
    Faults (EncryptedBlob.unpack packed >>= f) ↔ 28 ≤ packed.length ∧ W := by
  by_cases h : 28 ≤ packed.length
  · obtain ⟨blob, hblob, -, -, -⟩ := EncryptedBlob.unpack_ok h
    rw [hblob, ok_bind, hf]
    simp [h]
  · rw [EncryptedBlob.unpack, throwIf_pos (by simpa [kGcmNonceBytes, kGcmTagBytes] using h),
      error_bind, error_bind]
    simp [Faults, h]

theorem readU32_wasm32 (h : offset + 4 < 2 ^ 32) :
    readU32 .wasm32 buffer offset = readU32 .native buffer offset := by
  have h₁ := wasm32_size (show offset + 1 < 2 ^ 32 by omega)
  have h₂ := wasm32_size (show offset + 2 < 2 ^ 32 by omega)
  have h₃ := wasm32_size (show offset + 3 < 2 ^ 32 by omega)
  simp only [readU32, wasm32_size h, h₁, h₂, h₃, native_size]

theorem readOctets_wasm32 {k : Nat} (h : offset + k < 2 ^ 32) :
    readOctets .wasm32 buffer k offset = readOctets .native buffer k offset := by
  induction k generalizing offset with
  | zero => rfl
  | succ k ih =>
    have hnext := wasm32_size (show offset + 1 < 2 ^ 32 by omega)
    rw [readOctets, readOctets, hnext, native_size, ih (by omega)]

theorem readU64_wasm32 (h : offset + 8 < 2 ^ 32) :
    readU64 .wasm32 buffer offset = readU64 .native buffer offset := by
  rw [readU64, readU64, wasm32_size h, native_size, readOctets_wasm32 h]

theorem checkReserved_wasm32 {indices : List Nat} (h : ∀ i ∈ indices, offset + i < 2 ^ 32) :
    checkReserved .wasm32 buffer offset indices = checkReserved .native buffer offset indices := by
  induction indices with
  | nil => rfl
  | cons i rest ih =>
    rw [checkReserved, checkReserved, wasm32_size (h i (by simp)), native_size,
      ih fun j hj => h j (by simp [hj])]

theorem readFixedFileNameField_wasm32 (h : offset + 128 < 2 ^ 32) :
    readFixedFileNameField .wasm32 buffer offset = readFixedFileNameField .native buffer offset := by
  have h₁ := wasm32_size (show offset + 120 < 2 ^ 32 by omega)
  have h₂ := wasm32_size (show offset + 120 + 1 < 2 ^ 32 by omega)
  have h₃ := wasm32_size (show offset + 120 + 2 < 2 ^ 32 by omega)
  have hreserved : checkReserved .wasm32 buffer offset (List.range' (120 + 2) (128 - (120 + 2))) =
      checkReserved .native buffer offset (List.range' (120 + 2) (128 - (120 + 2))) := by
    apply checkReserved_wasm32
    intro i hi
    rw [List.mem_range'_1] at hi
    omega
  have hcode : readSegmentCodeFromFileNameField .wasm32 buffer offset =
      readSegmentCodeFromFileNameField .native buffer offset := by
    simp only [readSegmentCodeFromFileNameField, readU16Le, kV21SegmentCodeFieldOffset,
      kMaxOriginalFileNameBytes, h₁, h₂, h₃, native_size, hreserved]
  simp only [readFixedFileNameField, hcode, readFixedFileNameV2, readFixedFileNameV21,
    kMaxOriginalFileNameBytes, kV21FileNamePayloadBytes, wasm32_size h, h₁, native_size]

theorem not_faults_readU32 : ¬ Faults (readU32 .native buffer offset) := by
  by_cases hle : offset + 4 ≤ buffer.length
  · rw [(readU32_eq_ok native_size).mpr ⟨hle, rfl, rfl⟩]
    exact not_faults_ok _
  · rw [readU32, native_size, throwIf_pos (by omega)]
    simp [Faults]

theorem not_faults_readBytes : ¬ Faults (readBytes .native buffer offset) := by
  rw [readBytes, faults_bind_iff not_faults_readU32]
  rintro ⟨⟨length, next⟩, -, h⟩
  simp only [native_size, faults_throwIf_bind] at h
  rw [faults_slice_bind (Nat.le_add_right _ _) (not_lt.mp h.1)] at h
  exact not_faults_ok _ h.2

theorem not_faults_readU64 : ¬ Faults (readU64 .native buffer offset) := by
  by_cases hle : offset + 8 ≤ buffer.length
  · rw [(readU64_eq_ok native_size).mpr ⟨hle, rfl, rfl⟩]
    exact not_faults_ok _
  · rw [readU64, native_size, throwIf_pos (by omega)]
    simp [Faults]

theorem not_faults_checkReserved {indices : List Nat}
    (h : ∀ i ∈ indices, offset + i < buffer.length) :
    ¬ Faults (checkReserved .native buffer offset indices) := by
  induction indices with
  | nil => exact not_faults_ok _
  | cons i rest ih =>
    rw [checkReserved, native_size, faults_byteAt_bind (h i (by simp)), faults_throwIf_bind]
    rintro ⟨-, hrest⟩
    exact ih (fun j hj => h j (by simp [hj])) hrest

theorem not_faults_validate {segmentCode : Nat} : ¬ Faults (validateSegmentCodeV21 segmentCode) := by
  rw [validateSegmentCodeV21]
  split
  · exact not_faults_ok _
  · split
    · simp [Faults]
    · exact not_faults_ok _

theorem not_faults_readFixedFileNameField :
    ¬ Faults (readFixedFileNameField .native buffer offset) := by
  intro h
  rw [readFixedFileNameField, faults_throwIf_bind, native_size, kMaxOriginalFileNameBytes] at h
  obtain ⟨hle, h⟩ := h
  have hcode : ¬ Faults (readSegmentCodeFromFileNameField .native buffer offset) := by
    intro hc
    have hread := (readU16Le_eq_ok native_size (v := slotCode buffer offset)
      (show offset + 120 + 2 ≤ buffer.length by omega)).mpr rfl
    rw [readSegmentCodeFromFileNameField, native_size, kV21SegmentCodeFieldOffset, hread, ok_bind]
      at hc
    split at hc
    · exact not_faults_ok _ hc
    · rw [faults_bind_iff not_faults_validate] at hc
      obtain ⟨-, -, hc⟩ := hc
      rw [faults_bind_iff (not_faults_checkReserved ?_)] at hc
      · obtain ⟨-, -, hc⟩ := hc
        exact not_faults_ok _ hc
      · intro i hi
        rw [List.mem_range'_1, kMaxOriginalFileNameBytes] at hi
        omega
  rw [faults_bind_iff hcode] at h
  obtain ⟨code, hok, h⟩ := h
  split at h
  · rw [readFixedFileNameV2, native_size, kMaxOriginalFileNameBytes, throwIf_neg hle, ok_bind,
      slice_eq_ok.mpr ⟨by omega, by omega, rfl⟩] at h
    exact not_faults_ok _ h
  · rw [readFixedFileNameV21, native_size, kV21FileNamePayloadBytes,
      slice_eq_ok.mpr ⟨by omega, by omega, rfl⟩] at h
    exact not_faults_ok _ h

/-- The end of the field at `offset` lies in the buffer. -/
def FieldFits (buffer : Bytes) (offset : Nat) : Prop :=
  offset + 4 + wordAt buffer offset 4 ≤ buffer.length

/-- The length at `offset` can be read and puts the end of the field at `2 ^ 32` or beyond. -/
def EndWraps (buffer : Bytes) (offset : Nat) : Prop :=
  offset + 4 ≤ buffer.length ∧ 2 ^ 32 ≤ offset + 4 + wordAt buffer offset 4

theorem faults_readU32_bind {f : Nat × Nat → Except Exn β} (hL : buffer.length < 2 ^ 31)
    (ho : offset ≤ buffer.length) :
    Faults (readU32 .wasm32 buffer offset >>= f) ↔
      offset + 4 ≤ buffer.length ∧ Faults (f (wordAt buffer offset 4, offset + 4)) := by
  rw [readU32_wasm32 (by omega), faults_bind_iff not_faults_readU32]
  simp [readU32_eq_ok native_size, and_assoc]

theorem faults_readU64_bind {f : Nat × Nat → Except Exn β} (hL : buffer.length < 2 ^ 31)
    (ho : offset ≤ buffer.length) :
    Faults (readU64 .wasm32 buffer offset >>= f) ↔
      offset + 8 ≤ buffer.length ∧ Faults (f (wordAt buffer offset 8, offset + 8)) := by
  rw [readU64_wasm32 (by omega), faults_bind_iff not_faults_readU64]
  simp [readU64_eq_ok native_size, and_assoc]

theorem faults_readFixedFileNameField_bind {f : (Str × Nat) × Nat → Except Exn β}
    (hL : buffer.length < 2 ^ 31) (ho : offset ≤ buffer.length) :
    Faults (readFixedFileNameField .wasm32 buffer offset >>= f) ↔
      offset + 128 ≤ buffer.length ∧ SlotOk buffer offset ∧
        Faults (f ((slotFileName buffer offset, slotCode buffer offset), offset + 128)) := by
  rw [readFixedFileNameField_wasm32 (by omega), faults_bind_iff not_faults_readFixedFileNameField]
  simp only [Prod.exists, readFixedFileNameField_eq_ok native_size, and_assoc, Prod.mk.injEq]
  constructor
  · rintro ⟨_, _, _, hle, hslot, rfl, rfl, rfl, hf⟩
    exact ⟨hle, hslot, hf⟩
  · rintro ⟨hle, hslot, hf⟩
    exact ⟨_, _, _, hle, hslot, rfl, rfl, rfl, hf⟩

theorem faults_readBytes_bind {f : Bytes × Nat → Except Exn β} (hL : buffer.length < 2 ^ 31)
    (ho : offset ≤ buffer.length) :
    Faults (readBytes .wasm32 buffer offset >>= f) ↔
      EndWraps buffer offset ∨ FieldFits buffer offset ∧
        Faults (f (field buffer (offset + 4) (wordAt buffer offset 4),
          offset + 4 + wordAt buffer offset 4)) := by
  have hword : wordAt buffer offset 4 < 2 ^ 32 := wordAt_lt buffer offset 4
  by_cases hwrap : EndWraps buffer offset
  · -- The wrapped end lies before the offset.
    obtain ⟨hle, hover⟩ := hwrap
    have hsize : Machine.wasm32.size (offset + 4 + wordAt buffer offset 4) =
        offset + 4 + wordAt buffer offset 4 - 2 ^ 32 := by
      rw [wasm32_size_eq]
      omega
    rw [readBytes, readU32_wasm32 (by omega), (readU32_eq_ok native_size).mpr ⟨hle, rfl, rfl⟩,
      ok_bind]
    dsimp only
    rw [hsize, throwIf_neg (by omega), ok_bind, slice, if_neg (by omega), error_bind, error_bind]
    exact iff_of_true rfl (.inl ⟨hle, hover⟩)
  · rw [or_iff_right hwrap]
    by_cases hle : offset + 4 ≤ buffer.length
    · have hexact : readBytes .wasm32 buffer offset = readBytes .native buffer offset := by
        have hlt : offset + 4 + wordAt buffer offset 4 < 2 ^ 32 :=
          not_le.mp fun hover => hwrap ⟨hle, hover⟩
        rw [readBytes, readBytes, readU32_wasm32 (by omega),
          (readU32_eq_ok native_size).mpr ⟨hle, rfl, rfl⟩, ok_bind, ok_bind]
        simp only [wasm32_size hlt, native_size]
      rw [hexact, faults_bind_iff not_faults_readBytes]
      simp only [Prod.exists, readBytes_eq_ok native_size, FieldFits]
      constructor
      · rintro ⟨_, _, ⟨rfl, hfits, rfl⟩, hf⟩
        exact ⟨hfits, hf⟩
      · rintro ⟨hfits, hf⟩
        exact ⟨_, _, ⟨rfl, hfits, rfl⟩, hf⟩
    · have hfits : ¬ FieldFits buffer offset := fun h => hle ((Nat.le_add_right _ _).trans h)
      rw [readBytes, readU32_wasm32 (by omega), readU32, native_size, throwIf_pos (by omega)]
      simp [Faults, hfits]

/-- The octets before the payload hash. -/
def front (data : Bytes) : Bytes := data.take (data.length - 32)

/-- Length, payload hash, magic and version are those of a block. -/
structure HeaderOk (C : Primitives) (data : Bytes) : Prop where
  length : 73 ≤ data.length
  payloadHash : C.sha256 (front data) = data.drop (data.length - 32)
  magic : wordAt (front data) 0 4 = kSmbMagic
  version : (front data)[4]? = some kSmbVersion

/-- The end of one of the four length-prefixed fields wraps, behind fields that all fit: root hash,
file key record, salt, and the body hash behind the integers and the name slot. -/
def LengthWraps (payload : Bytes) : Prop :=
  EndWraps payload 5 ∨ FieldFits payload 5 ∧
    (EndWraps payload (9 + rootLength payload) ∨ FieldFits payload (9 + rootLength payload) ∧
      28 ≤ fekLength payload ∧
      (EndWraps payload (13 + rootLength payload + fekLength payload) ∨
        FieldFits payload (13 + rootLength payload + fekLength payload) ∧
        169 + lengths payload ≤ payload.length ∧ SlotOk payload (41 + lengths payload) ∧
        EndWraps payload (169 + lengths payload)))

theorem faults_body {payload : Bytes} (hL : payload.length < 2 ^ 31) (h₅ : 5 ≤ payload.length) :
    Faults (do
      let (rootHash, offset) ← readBytes .wasm32 payload 5
      let (packedFek, offset) ← readBytes .wasm32 payload offset
      let encryptedFek ← EncryptedBlob.unpack packedFek
      let (saltRand, offset) ← readBytes .wasm32 payload offset
      let (numTokens, offset) ← readU32 .wasm32 payload offset
      let (wireBlockSize, offset) ← readU32 .wasm32 payload offset
      let (ciphertextLength, offset) ← readU64 .wasm32 payload offset
      let (originalFileLength, offset) ← readU64 .wasm32 payload offset
      let ((originalFileName, segmentCode), offset) ← readFixedFileNameField .wasm32 payload offset
      let body ← slice payload 5 offset
      let (expectedBodyHash, offset) ← readBytes .wasm32 payload offset
      throwIf (C.sha256 body ≠ expectedBodyHash) (.runtimeError "SMB body hash mismatch")
      throwIf (offset ≠ payload.length) (.runtimeError "SMB trailing bytes detected")
      return ({ rootHash, encryptedFek, saltRand, numTokens, wireBlockSize, ciphertextLength,
                originalFileLength, originalFileName, segmentCode } : SmbMetadata)) ↔
    LengthWraps payload := by
  rw [faults_readBytes_bind hL h₅, LengthWraps]
  refine or_congr Iff.rfl (and_congr_right fun hroot => ?_)
  have hroot' : 9 + rootLength payload ≤ payload.length := hroot
  have e₁ : 5 + 4 + wordAt payload 5 4 = 9 + rootLength payload := rfl
  dsimp only
  rw [e₁, faults_readBytes_bind hL hroot']
  refine or_congr Iff.rfl (and_congr_right fun hfek => ?_)
  have hfek' : 9 + rootLength payload + 4 + fekLength payload ≤ payload.length := hfek
  have e₂ : 9 + rootLength payload + 4 + wordAt payload (9 + rootLength payload) 4 =
      13 + rootLength payload + fekLength payload := by
    rw [← fekLength]
    omega
  have hlength : (field payload (9 + rootLength payload + 4)
      (wordAt payload (9 + rootLength payload) 4)).length = fekLength payload := length_field hfek
  dsimp only
  rw [e₂]
  refine (faults_unpack_bind fun blob => ?_).trans (and_congr_left' (by rw [hlength]))
  rw [faults_readBytes_bind hL (by omega)]
  refine or_congr Iff.rfl (and_congr_right fun hsalt => ?_)
  have hsalt' : 13 + rootLength payload + fekLength payload + 4 + saltLength payload ≤
    payload.length := hsalt
  have hsum : lengths payload = rootLength payload + fekLength payload + saltLength payload := rfl
  have e₃ : 13 + rootLength payload + fekLength payload + 4 +
      wordAt payload (13 + rootLength payload + fekLength payload) 4 = 17 + lengths payload := by
    rw [← saltLength]
    omega
  have e₄ : 17 + lengths payload + 4 + 4 + 8 + 8 = 41 + lengths payload := by omega
  have e₅ : 41 + lengths payload + 128 = 169 + lengths payload := by omega
  dsimp only
  rw [e₃]
  constructor
  · intro h
    rw [faults_readU32_bind hL (by omega)] at h
    obtain ⟨h₁, h⟩ := h
    rw [faults_readU32_bind hL h₁] at h
    obtain ⟨h₂, h⟩ := h
    rw [faults_readU64_bind hL h₂] at h
    obtain ⟨h₃, h⟩ := h
    rw [faults_readU64_bind hL h₃] at h
    obtain ⟨h₄, h⟩ := h
    rw [faults_readFixedFileNameField_bind hL h₄, e₄, e₅] at h
    obtain ⟨h₅, hslot, h⟩ := h
    rw [faults_slice_bind (by omega) h₅, faults_readBytes_bind hL h₅] at h
    rcases h with hwrap | ⟨-, h⟩
    · exact ⟨h₅, hslot, hwrap⟩
    · rw [faults_throwIf_bind, faults_throwIf_bind] at h
      exact absurd h.2.2 (not_faults_ok _)
  · rintro ⟨h₁, hslot, h⟩
    rw [faults_readU32_bind hL (by omega), faults_readU32_bind hL (by omega),
      faults_readU64_bind hL (by omega), faults_readU64_bind hL (by omega),
      faults_readFixedFileNameField_bind hL (by omega), e₄, e₅,
      faults_slice_bind (by omega) h₁, faults_readBytes_bind hL h₁]
    exact ⟨by omega, by omega, by omega, by omega, h₁, hslot, .inl h⟩

theorem deserialize_faults_iff (hlen : data.length < 2 ^ 31) :
    Faults (deserializeSmb .wasm32 C data) ↔ HeaderOk C data ∧ LengthWraps (front data) := by
  by_cases h₇₃ : 73 ≤ data.length
  · have hlast : slice data (data.length - 32) data.length =
        .ok (data.drop (data.length - 32)) := by
      rw [slice_eq_ok]
      refine ⟨by omega, le_rfl, ?_⟩
      rw [field, List.take_of_length_le (by simp)]
    have hfirst : slice data 0 (data.length - 32) = .ok (front data) := by
      rw [slice_eq_ok]
      exact ⟨by omega, by omega, rfl⟩
    have hplen : (front data).length = data.length - 32 := List.length_take_of_le (by omega)
    have hnext : Machine.wasm32.size (0 + 4 + 1) = 5 := rfl
    rw [deserializeSmb, kHashBytes_eq, throwIf_neg (by omega), ok_bind, hlast, ok_bind, hfirst,
      ok_bind, faults_throwIf_bind, faults_readU32_bind (by omega) (by omega), faults_throwIf_bind,
      faults_throwIf_bind, faults_byteAt_bind (by omega), faults_throwIf_bind, hnext,
      faults_body (by omega) (by omega)]
    have hversion : (front data)[4]? = some kSmbVersion ↔
        (front data)[0 + 4] = kSmbVersion := by
      rw [List.getElem?_eq_getElem (by omega)]
      simp
    constructor
    · rintro ⟨hhash, -, hmagic, -, hv, hwraps⟩
      exact ⟨⟨h₇₃, not_not.mp hhash, not_not.mp hmagic, hversion.mpr (not_not.mp hv)⟩, hwraps⟩
    · rintro ⟨⟨-, hhash, hmagic, hv⟩, hwraps⟩
      exact ⟨not_not.mpr hhash, by omega, not_not.mpr hmagic, by omega,
        not_not.mpr (hversion.mp hv), hwraps⟩
  · rw [deserializeSmb, kHashBytes_eq, throwIf_pos (by omega), error_bind]
    apply iff_of_false
    · simp [Faults]
    · exact fun h => h₇₃ h.1.length

/-- On the WebAssembly build every read of the parser stays in the buffer exactly when no length in
a block with a sound header makes the end of its field wrap. The size of an octet vector is a
`ptrdiff_t` there. -/
theorem deserialize_inBounds_iff (C : Primitives) (data : Bytes) (hlen : data.length < 2 ^ 31) :
    ¬ Faults (deserializeSmb .wasm32 C data) ↔ ¬ (HeaderOk C data ∧ LengthWraps (front data)) :=
  not_congr (deserialize_faults_iff hlen)

/-- Magic, version and a root hash of `2 ^ 32 - 1` octets, then the payload hash. -/
def wrappingBlock : Bytes :=
  let payload := bigEndian 4 kSmbMagic ++ [kSmbVersion] ++ bigEndian 4 (2 ^ 32 - 1) ++
    List.replicate 32 0
  payload ++ plain.sha256 payload

theorem deserialize_inBounds_iff_wrapping :
    ¬ Faults (deserializeSmb .wasm32 plain wrappingBlock) ↔
      ¬ (HeaderOk plain wrappingBlock ∧ LengthWraps (front wrappingBlock)) :=
  deserialize_inBounds_iff plain wrappingBlock (by decide +kernel)

/-- The root hash ends at `2 ^ 32 + 8`, which is 8, before its first octet. -/
theorem wrapping_length_faults : Faults (deserializeSmb .wasm32 plain wrappingBlock) := by
  rw [Faults]
  decide +kernel

end TwelveC.SmbBounds
