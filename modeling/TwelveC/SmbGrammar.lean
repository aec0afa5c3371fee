import TwelveC.SmbRoundTrip
import TwelveC.PlainCrypto

/-!
# What the SMB parser accepts

The parser follows three length prefixes and never compares them with the
32, 60 and 16 of the published layout. Their sum is forced by the total of 345
octets, so one wrong length can be made up for by another. Each reader is
described on an arbitrary buffer first; the accepted inputs are then read off
the parser's own order of checks.
-/

namespace TwelveC.SmbGrammar

open Segment Crypto Smb SmbRoundTrip PlainCrypto Lib.Word

variable {M : Machine} (hM : ∀ n, M.size n = n) {C : Primitives}
variable {buffer data value : Bytes} {offset next : Nat}

theorem slice_eq_ok {first last : Nat} :
    slice buffer first last = .ok value ↔
      first ≤ last ∧ last ≤ buffer.length ∧ value = field buffer first (last - first) := by
  rw [slice]
  by_cases h : first ≤ last ∧ last ≤ buffer.length
  · simp [h, field, eq_comm]
  · rw [if_neg h]
    constructor
    · intro hv
      cases hv
    · rintro ⟨h₁, h₂, -⟩
      exact absurd ⟨h₁, h₂⟩ h

theorem byteAt_eq_ok {byte : UInt8} : byteAt buffer offset = .ok byte ↔ buffer[offset]? = some byte := by
  rw [byteAt]
  cases buffer[offset]? <;> simp

include hM

theorem readU32_eq_ok {v : Nat} :
    readU32 M buffer offset = .ok (v, next) ↔
      offset + 4 ≤ buffer.length ∧ v = wordAt buffer offset 4 ∧ next = offset + 4 := by
  by_cases hle : offset + 4 ≤ buffer.length
  · have hlen := length_field hle
    have hat := at_field hle
    rw [wordAt]
    generalize field buffer offset 4 = x at hlen hat
    obtain ⟨b₀, b₁, b₂, b₃, rfl⟩ := List.length_eq_four.mp hlen
    rw [readU32]
    simp only [hM]
    rw [throwIf_neg (by omega), ok_bind, byteAt_at hat, ok_bind, byteAt_at hat.tail, ok_bind,
      byteAt_at hat.tail.tail, ok_bind, byteAt_at hat.tail.tail.tail, ok_bind, pure_eq_ok]
    simp [hle, eq_comm]
  · rw [readU32, hM, throwIf_pos (by omega)]
    simp [hle]

theorem readBytes_eq_ok :
    readBytes M buffer offset = .ok (value, next) ↔
      next = offset + 4 + wordAt buffer offset 4 ∧ next ≤ buffer.length ∧
        value = field buffer (offset + 4) (wordAt buffer offset 4) := by
  simp only [readBytes, bind_eq_ok, Prod.exists, readU32_eq_ok hM, hM, throwIf_eq_ok, slice_eq_ok,
    pure_eq_ok, Except.ok.injEq, Prod.mk.injEq]
  constructor
  · rintro ⟨v, o, ⟨-, rfl, rfl⟩, u, -, x, ⟨-, hle, rfl⟩, rfl, rfl⟩
    rw [Nat.add_sub_cancel_left]
    exact ⟨rfl, hle, rfl⟩
  · rintro ⟨rfl, hle, rfl⟩
    refine ⟨_, _, ⟨by omega, rfl, rfl⟩, (), by omega, _, ⟨by omega, hle, rfl⟩, ?_, rfl⟩
    rw [Nat.add_sub_cancel_left]

theorem readU64_eq_ok {v : Nat} :
    readU64 M buffer offset = .ok (v, next) ↔
      offset + 8 ≤ buffer.length ∧ v = wordAt buffer offset 8 ∧ next = offset + 8 := by
  by_cases hle : offset + 8 ≤ buffer.length
  · have hread := readOctets_at hM (at_field hle)
    rw [length_field hle] at hread
    rw [readU64, hM, throwIf_neg (by omega), ok_bind, hread, ok_bind, pure_eq_ok, wordAt]
    simp [hle, eq_comm]
  · rw [readU64, hM, throwIf_pos (by omega)]
    simp [hle]

omit hM

/-- The little-endian code of the slot at `offset`. -/
def slotCode (buffer : Bytes) (offset : Nat) : Nat :=
  (buffer.getD (offset + 120) 0).toNat + 256 * (buffer.getD (offset + 121) 0).toNat

/-- What the name slot at `offset` has to satisfy. -/
def SlotOk (buffer : Bytes) (offset : Nat) : Prop :=
  slotCode buffer offset ≤ 5 ∧
    (slotCode buffer offset ≠ 0 → field buffer (offset + 122) 6 = List.replicate 6 0)

instance (buffer : Bytes) (offset : Nat) : Decidable (SlotOk buffer offset) :=
  inferInstanceAs (Decidable (_ ∧ _))

include hM

theorem readU16Le_eq_ok {v : Nat} (hle : offset + 2 ≤ buffer.length) :
    readU16Le M buffer offset = .ok v ↔
      v = (buffer.getD offset 0).toNat + 256 * (buffer.getD (offset + 1) 0).toNat := by
  have h₀ : byteAt buffer offset = .ok (buffer.getD offset 0) := by
    simp [byteAt, List.getElem?_eq_getElem (show offset < buffer.length by omega)]
  have h₁ : byteAt buffer (offset + 1) = .ok (buffer.getD (offset + 1) 0) := by
    simp [byteAt, List.getElem?_eq_getElem (show offset + 1 < buffer.length by omega)]
  rw [readU16Le, hM, throwIf_neg (by omega), ok_bind, h₀, ok_bind, hM, h₁, ok_bind, pure_eq_ok]
  simp [eq_comm]

theorem checkReserved_eq_ok {first n : Nat} (hle : offset + first + n ≤ buffer.length) :
    checkReserved M buffer offset (List.range' first n) = .ok () ↔
      field buffer (offset + first) n = List.replicate n 0 := by
  induction n generalizing first with
  | zero => simp [checkReserved, field]
  | succ n ih =>
    have hlt : offset + first < buffer.length := by omega
    have hbyte : byteAt buffer (offset + first) = .ok buffer[offset + first] := by
      simp [byteAt, List.getElem?_eq_getElem hlt]
    have hfield : field buffer (offset + first) (n + 1) =
        buffer[offset + first] :: field buffer (offset + (first + 1)) n := by
      rw [field, List.drop_eq_getElem_cons hlt, List.take_succ_cons, field]
      rfl
    rw [List.range'_succ, checkReserved, hM, hbyte, ok_bind, hfield, List.replicate_succ,
      List.cons.injEq, ← ih (by omega)]
    by_cases h₀ : buffer[offset + first] = 0
    · rw [throwIf_neg (by simpa using h₀), ok_bind]
      simp [h₀]
    · rw [throwIf_pos (by simpa using h₀), error_bind]
      simp [h₀]

theorem readSegmentCode_eq_ok {code : Nat} (hle : offset + 128 ≤ buffer.length) :
    readSegmentCodeFromFileNameField M buffer offset = .ok code ↔
      SlotOk buffer offset ∧ code = slotCode buffer offset := by
  have hread := (readU16Le_eq_ok hM (v := slotCode buffer offset)
    (show offset + 120 + 2 ≤ buffer.length by omega)).mpr rfl
  have hres : checkReserved M buffer offset (List.range' 122 6) = .ok () ↔
      field buffer (offset + 122) 6 = List.replicate 6 0 :=
    checkReserved_eq_ok hM (by omega)
  rw [readSegmentCodeFromFileNameField, hM, kV21SegmentCodeFieldOffset, hread, ok_bind,
    kV2SegmentCodeWholeFile, kMaxOriginalFileNameBytes, SlotOk]
  have hval : validateSegmentCodeV21 (slotCode buffer offset) = .ok () ↔
    slotCode buffer offset ≤ 5 := validate_ok _
  by_cases h₀ : slotCode buffer offset = 0
  · rw [if_pos h₀]
    simp [h₀, eq_comm]
  · rw [if_neg h₀]
    simp only [bind_eq_ok, pure_eq_ok, Except.ok.injEq]
    constructor
    · rintro ⟨⟨⟩, hv, ⟨⟩, hz, rfl⟩
      exact ⟨⟨hval.mp hv, fun _ => hres.mp hz⟩, rfl⟩
    · rintro ⟨⟨hv, hz⟩, rfl⟩
      exact ⟨(), hval.mpr hv, (), hres.mpr (hz h₀), rfl⟩

/-- The name that the parser takes from the slot at `offset`. -/
def slotFileName (buffer : Bytes) (offset : Nat) : Str :=
  normalizeOriginalFileName
    (slotText (field buffer offset (if slotCode buffer offset = 0 then 128 else 120)))

theorem readFixedFileNameField_eq_ok {named : Str × Nat} :
    readFixedFileNameField M buffer offset = .ok (named, next) ↔
      offset + 128 ≤ buffer.length ∧ SlotOk buffer offset ∧
        named = (slotFileName buffer offset, slotCode buffer offset) ∧ next = offset + 128 := by
  by_cases hle : offset + 128 ≤ buffer.length
  · have hslice : ∀ width, width ≤ 128 →
        slice buffer offset (offset + width) = .ok (field buffer offset width) := by
      intro width hw
      rw [slice_eq_ok, Nat.add_sub_cancel_left]
      exact ⟨by omega, by omega, rfl⟩
    rw [readFixedFileNameField, hM, kMaxOriginalFileNameBytes, throwIf_neg (by omega), ok_bind]
    simp only [bind_eq_ok, readSegmentCode_eq_ok hM hle]
    by_cases h₀ : slotCode buffer offset = kV2SegmentCodeWholeFile
    · have h₁ : slotCode buffer offset = 0 := h₀
      constructor
      · rintro ⟨code, ⟨hslot, rfl⟩, h⟩
        rw [if_pos h₀, readFixedFileNameV2, hM, kMaxOriginalFileNameBytes, throwIf_neg (by omega),
          ok_bind, hslice 128 (le_refl _)] at h
        simp only [ok_bind, pure_eq_ok, Except.ok.injEq, Prod.mk.injEq] at h
        refine ⟨hle, hslot, ?_, h.2.symm⟩
        rw [← h.1, slotFileName, if_pos h₁]
      · rintro ⟨-, hslot, rfl, rfl⟩
        refine ⟨_, ⟨hslot, rfl⟩, ?_⟩
        rw [if_pos h₀, readFixedFileNameV2, hM, kMaxOriginalFileNameBytes, throwIf_neg (by omega),
          ok_bind, hslice 128 (le_refl _), slotFileName, if_pos h₁]
        rfl
    · have h₁ : slotCode buffer offset ≠ 0 := h₀
      constructor
      · rintro ⟨code, ⟨hslot, rfl⟩, h⟩
        rw [if_neg h₀, readFixedFileNameV21, hM, kV21FileNamePayloadBytes, hslice 120 (by omega)] at h
        simp only [ok_bind, pure_eq_ok, Except.ok.injEq, Prod.mk.injEq] at h
        refine ⟨hle, hslot, ?_, h.2.symm⟩
        rw [← h.1, slotFileName, if_neg h₁]
      · rintro ⟨-, hslot, rfl, rfl⟩
        refine ⟨_, ⟨hslot, rfl⟩, ?_⟩
        rw [if_neg h₀, readFixedFileNameV21, hM, kV21FileNamePayloadBytes, hslice 120 (by omega),
          slotFileName, if_neg h₁]
        rfl
  · rw [readFixedFileNameField, hM, kMaxOriginalFileNameBytes, throwIf_pos (by omega)]
    simp [hle]

omit hM

/-- The three length prefixes, each found behind the field before it. -/
def rootLength (payload : Bytes) : Nat := wordAt payload 5 4

def fekLength (payload : Bytes) : Nat := wordAt payload (9 + rootLength payload) 4

def saltLength (payload : Bytes) : Nat :=
  wordAt payload (13 + rootLength payload + fekLength payload) 4

def lengths (payload : Bytes) : Nat :=
  rootLength payload + fekLength payload + saltLength payload

/-- The fields of an accepted payload; `blob` is its unpacked file key record. -/
def parsed (payload : Bytes) (blob : EncryptedBlob) : SmbMetadata :=
  { rootHash := field payload 9 (rootLength payload),
    encryptedFek := blob,
    saltRand := field payload (13 + rootLength payload + fekLength payload + 4) (saltLength payload),
    numTokens := wordAt payload (17 + lengths payload) 4,
    wireBlockSize := wordAt payload (21 + lengths payload) 4,
    ciphertextLength := wordAt payload (25 + lengths payload) 8,
    originalFileLength := wordAt payload (33 + lengths payload) 8,
    originalFileName := slotFileName payload (41 + lengths payload),
    segmentCode := slotCode payload (41 + lengths payload) }

/-- The parser's checks on the octets before the payload hash, in its own terms. -/
structure Accepted (C : Primitives) (payload : Bytes) : Prop where
  magic : wordAt payload 0 4 = kSmbMagic
  version : payload[4]? = some kSmbVersion
  slot : SlotOk payload (41 + lengths payload)
  total : 173 + lengths payload + wordAt payload (169 + lengths payload) 4 = payload.length
  bodyHash : C.sha256 (field payload 5 (164 + lengths payload)) =
    field payload (173 + lengths payload) (wordAt payload (169 + lengths payload) 4)

include hM

theorem deserialize_eq_ok {metadata : SmbMetadata} (hlen : data.length = 345) :
    deserializeSmb M C data = .ok metadata ↔
      C.sha256 (field data 0 313) = field data 313 32 ∧ Accepted C (field data 0 313) ∧
        ∃ blob, EncryptedBlob.unpack (field (field data 0 313)
          (9 + rootLength (field data 0 313) + 4) (fekLength (field data 0 313))) = .ok blob ∧ metadata = parsed (field data 0 313) blob := by
  have hplen : (field data 0 313).length = 313 := length_field (by omega)
  rw [deserializeSmb, hlen, kHashBytes_eq]
  simp only [bind_eq_ok, Prod.exists, readU32_eq_ok hM, readBytes_eq_ok hM, readU64_eq_ok hM,
    readFixedFileNameField_eq_ok hM, slice_eq_ok, byteAt_eq_ok, throwIf_eq_ok, pure_eq_ok,
    Except.ok.injEq, Prod.mk.injEq, not_not, ne_eq, hM, Nat.reduceAdd, Nat.reduceSub]
  generalize field data 0 313 = payload at hplen ⊢
  have hlengths : lengths payload = rootLength payload + fekLength payload + saltLength payload := rfl
  constructor
  · simp only [forall_exists_index, and_imp]
    intro _ _ _ _ _ e₀ payload _ _ e₁ _ hhash _ _ _ e₂ h₀ _ hmagic _ _
      _ hversion _ e₃ _ o₁ h₁ _ e₄ _ o₂ h₂ _ e₅ blob hblob
      _ o₃ h₃ _ e₆ _ o₄ _ e₇ h₄ _ o₅ _ e₈ h₅ _ o₆ _ e₉ h₆
      _ o₇ _ e₁₀ h₇ _ _ o₈ _ hslot e₁₁ e₁₂ h₈ _ _ _ e₁₃ _ o₉ h₉ _ e₁₄
      _ hbody _ htotal e₁₅
    subst e₀ e₁ e₂ h₀ e₃ e₄ e₅ e₆ e₇ e₈ e₉ e₁₀ e₁₁ e₁₂ e₁₃ e₁₄ e₁₅
    -- every offset is a constant behind the length prefixes read so far
    obtain rfl : o₁ = 9 + rootLength payload := h₁
    obtain rfl : o₂ = 13 + rootLength payload + fekLength payload := by
      rw [h₂, fekLength]
      omega
    obtain rfl : o₃ = 17 + lengths payload := by
      rw [h₃, hlengths, saltLength]
      omega
    obtain rfl : o₄ = 21 + lengths payload := by omega
    obtain rfl : o₅ = 25 + lengths payload := by omega
    obtain rfl : o₆ = 33 + lengths payload := by omega
    obtain rfl : o₇ = 41 + lengths payload := by omega
    obtain rfl : o₈ = 169 + lengths payload := by omega
    rw [show 169 + lengths payload - (4 + 1) = 164 + lengths payload by omega,
      show 169 + lengths payload + 4 = 173 + lengths payload by omega] at hbody
    exact ⟨hhash, ⟨hmagic, hversion, hslot, by omega, hbody⟩, blob, hblob, rfl⟩
  · rintro ⟨hhash, h, blob, hblob, rfl⟩
    have htotal := h.total
    refine ⟨(), by omega, _, ⟨by omega, by omega, rfl⟩, payload, ⟨by omega, by omega, rfl⟩, (), hhash,
      _, _, ⟨by omega, rfl, rfl⟩, (), h.magic, (), by omega, _, h.version, (), rfl,
      _, 9 + rootLength payload, ⟨rfl, by omega, rfl⟩,
      _, 13 + rootLength payload + fekLength payload, ⟨?_, by omega, rfl⟩, blob, hblob,
      _, 17 + lengths payload, ⟨?_, by omega, rfl⟩, _, 21 + lengths payload, ⟨by omega, rfl, by omega⟩,
      _, 25 + lengths payload, ⟨by omega, rfl, by omega⟩,
      _, 33 + lengths payload, ⟨by omega, rfl, by omega⟩,
      _, 41 + lengths payload, ⟨by omega, rfl, by omega⟩,
      _, _, 169 + lengths payload, ⟨by omega, h.slot, ⟨rfl, rfl⟩, by omega⟩,
      _, ⟨by omega, by omega, rfl⟩, _, _, ⟨rfl, by omega, rfl⟩, (), ?_, (), by omega, rfl⟩
    · rw [fekLength]
      omega
    · rw [hlengths, saltLength]
      omega
    · rw [show 169 + lengths payload - (4 + 1) = 164 + lengths payload by omega,
        show 169 + lengths payload + 4 = 173 + lengths payload by omega]
      exact h.bodyHash

omit hM

/-- The checks on octets whose place the layout fixes: all but the three length prefixes. -/
structure Envelope (C : Primitives) (data : Bytes) : Prop where
  magic : wordAt data 0 4 = kSmbMagic
  version : data[4]? = some kSmbVersion
  slot : SlotOk data 149
  bodyHashLength : wordAt data 277 4 = kHashBytes
  bodyHash : C.sha256 (field data 5 272) = field data 281 32
  payloadHash : C.sha256 (field data 0 313) = field data 313 32

/-- The layout of the protocol text. -/
structure Grammar (C : Primitives) (data : Bytes) : Prop extends Envelope C data where
  rootHash : wordAt data 5 4 = 32
  encryptedFek : wordAt data 41 4 = 60
  saltRand : wordAt data 105 4 = 16

/-- Wrong lengths that make up for each other: they sum to `32 + 60 + 16` and leave the file key
record room for its nonce and tag. -/
structure Compensated (C : Primitives) (data : Bytes) : Prop extends Envelope C data where
  total : lengths data = 108
  room : 28 ≤ fekLength data
  wrong : ¬ (rootLength data = 32 ∧ fekLength data = 60 ∧ saltLength data = 16)

theorem grammar_lengths : Grammar C data ↔
    Envelope C data ∧ rootLength data = 32 ∧ fekLength data = 60 ∧ saltLength data = 16 := by
  constructor
  · intro h
    have h₁ : rootLength data = 32 := h.rootHash
    have h₂ : fekLength data = 60 := by
      rw [fekLength, h₁]
      exact h.encryptedFek
    refine ⟨h.toEnvelope, h₁, h₂, ?_⟩
    rw [saltLength, h₁, h₂]
    exact h.saltRand
  · rintro ⟨henv, h₁, h₂, h₃⟩
    have h₄ := h₂
    rw [fekLength, h₁] at h₄
    have h₅ := h₃
    rw [saltLength, h₁, h₂] at h₅
    exact ⟨henv, h₁, h₄, h₅⟩

theorem slotCode_front (h : offset + 128 ≤ 313) :
    slotCode (field data 0 313) offset = slotCode data offset := by
  have hget : ∀ i, i < 313 → (data.take 313).getD i 0 = data.getD i 0 := by
    intro i hi
    simp [hi]
  rw [slotCode, slotCode, show field data 0 313 = data.take 313 from rfl, hget _ (by omega),
    hget _ (by omega)]

theorem slotOk_front (h : offset + 128 ≤ 313) :
    SlotOk (field data 0 313) offset ↔ SlotOk data offset := by
  rw [SlotOk, SlotOk, slotCode_front h, show field data 0 313 = data.take 313 from rfl,
    field_take (by omega)]

/-- Lengths that keep the fields in front of the payload hash are the same with or without it. -/
theorem lengths_front (h : lengths data ≤ 296 ∨ lengths (field data 0 313) ≤ 296) :
    rootLength (field data 0 313) = rootLength data ∧ fekLength (field data 0 313) = fekLength data ∧
      saltLength (field data 0 313) = saltLength data := by
  have hfield : field data 0 313 = data.take 313 := rfl
  have h₁ : rootLength (data.take 313) = rootLength data := wordAt_take (by omega)
  rw [hfield] at h ⊢
  simp only [lengths, h₁] at h
  have h₂ : fekLength (data.take 313) = fekLength data := by
    rw [fekLength, h₁]
    exact wordAt_take (by omega)
  rw [h₂] at h
  refine ⟨h₁, h₂, ?_⟩
  rw [saltLength, h₁, h₂]
  exact wordAt_take (by omega)

theorem unpack_isOk {packed : Bytes} :
    (∃ blob, EncryptedBlob.unpack packed = .ok blob) ↔ 28 ≤ packed.length := by
  constructor
  · rintro ⟨blob, h⟩
    by_contra hlt
    rw [EncryptedBlob.unpack, throwIf_pos (by simpa using hlt)] at h
    cases h
  · intro h
    obtain ⟨blob, hb, -⟩ := EncryptedBlob.unpack_ok h
    exact ⟨blob, hb⟩

/-- With the lengths summing to 108 the parser's own offsets are those of the layout. -/
theorem accepted_iff_envelope (hlen : data.length = 345) (hl : lengths (field data 0 313) = 108) :
    C.sha256 (field data 0 313) = field data 313 32 ∧ Accepted C (field data 0 313) ↔
      Envelope C data := by
  have hplen : (field data 0 313).length = 313 := length_field (by omega)
  have hfield : field data 0 313 = data.take 313 := rfl
  have hword : ∀ offset width, offset + width ≤ 313 →
      wordAt (field data 0 313) offset width = wordAt data offset width :=
    fun _ _ h => wordAt_take h
  have hpart : ∀ offset width, offset + width ≤ 313 →
      field (field data 0 313) offset width = field data offset width :=
    fun _ _ h => field_take h
  have hversion : (field data 0 313)[4]? = data[4]? := by
    rw [hfield, List.getElem?_take_of_lt (by omega)]
  constructor
  · rintro ⟨hhash, h⟩
    have hmagic := h.magic
    have hv := h.version
    have hslot := h.slot
    have htotal := h.total
    have hbody := h.bodyHash
    rw [hl] at hslot htotal hbody
    rw [hword _ _ (by omega)] at hmagic
    rw [hversion] at hv
    rw [hplen, hword _ _ (by omega)] at htotal
    have h32 : wordAt data (169 + 108) 4 = 32 := by omega
    rw [hpart _ _ (by omega), hword _ _ (by omega), h32, hpart _ _ (by omega)] at hbody
    exact ⟨hmagic, hv, (slotOk_front (by omega)).mp hslot, h32, hbody, hhash⟩
  · intro h
    have h32 : wordAt data 277 4 = 32 := h.bodyHashLength
    refine ⟨h.payloadHash, ⟨?_, ?_, ?_, ?_, ?_⟩⟩
    · rw [hword _ _ (by omega), h.magic]
    · rw [hversion, h.version]
    · rw [hl]
      exact (slotOk_front (by omega)).mpr h.slot
    · rw [hl, hplen, hword _ _ (by omega), h32]
    · rw [hl, hword _ _ (by omega), h32, hpart _ _ (by omega), hpart _ _ (by omega)]
      exact h.bodyHash

include hM

/-- Exactly the accepted inputs. -/
theorem deserialize_ok_iff (hsha : ∀ input, (C.sha256 input).length = kHashBytes)
    (hlen : data.length = 345) :
    (∃ metadata, deserializeSmb M C data = .ok metadata) ↔
      Envelope C data ∧ lengths data = 108 ∧ 28 ≤ fekLength data := by
  have hplen : (field data 0 313).length = 313 := length_field (by omega)
  simp only [deserialize_eq_ok hM hlen]
  constructor
  · rintro ⟨_, hhash, h, blob, hblob, -⟩
    have htotal := h.total
    rw [hplen] at htotal
    have h32 := congrArg List.length h.bodyHash
    rw [hsha, length_field (by omega), kHashBytes_eq] at h32
    have hl : lengths (field data 0 313) = 108 := by omega
    have hsum : rootLength (field data 0 313) + fekLength (field data 0 313) +
      saltLength (field data 0 313) = 108 := hl
    have hfek := unpack_isOk.mp ⟨blob, hblob⟩
    rw [length_field (by omega)] at hfek
    obtain ⟨h₁, h₂, h₃⟩ := lengths_front (.inr (by omega : lengths (field data 0 313) ≤ 296))
    refine ⟨(accepted_iff_envelope hlen hl).mp ⟨hhash, h⟩, ?_, by omega⟩
    rw [lengths]
    omega
  · rintro ⟨henv, hl, hfek⟩
    obtain ⟨h₁, h₂, h₃⟩ := lengths_front (.inl (by omega : lengths data ≤ 296))
    have hsum : rootLength data + fekLength data + saltLength data = 108 := hl
    have hl' : lengths (field data 0 313) = 108 := by
      rw [lengths]
      omega
    obtain ⟨hhash, hacc⟩ := (accepted_iff_envelope hlen hl').mpr henv
    obtain ⟨blob, hblob⟩ := unpack_isOk.mpr
      (show 28 ≤ (field (field data 0 313) (9 + rootLength (field data 0 313) + 4)
        (fekLength (field data 0 313))).length by rw [length_field (by omega)]; omega)
    exact ⟨_, hhash, hacc, blob, hblob, rfl⟩

omit hM

/-- The parser accepts exactly the published layout, unless the lengths make up for each other. -/
theorem deserialize_grammar_iff (C : Primitives)
    (hsha : ∀ input, (C.sha256 input).length = kHashBytes) (data : Bytes)
    (hlen : data.length = 345) :
    ((∃ metadata, deserializeSmb .native C data = .ok metadata) ↔ Grammar C data) ↔
      ¬ Compensated C data := by
  rw [deserialize_ok_iff native_size hsha hlen]
  constructor
  · intro hiff h
    have hg := hiff.mp ⟨h.toEnvelope, h.total, h.room⟩
    exact h.wrong (grammar_lengths.mp hg).2
  · intro hno
    rw [grammar_lengths]
    constructor
    · rintro ⟨henv, hl, hfek⟩
      refine ⟨henv, ?_⟩
      by_contra hwrong
      exact hno ⟨henv, hl, hfek, hwrong⟩
    · rintro ⟨henv, h₁, h₂, h₃⟩
      refine ⟨henv, ?_, by omega⟩
      rw [lengths]
      omega

/-- A block whose root hash has 16 octets and whose salt has 32. -/
def swappedBlock : Bytes :=
  let body := appendBytes (appendBytes (appendBytes [] (List.replicate 16 7)) (List.replicate 60 8))
    (List.replicate 32 9)
  let body := appendU64 (appendU64 (appendU32 (appendU32 body 1) 1024) 28) 0
  let body := appendFixedFileNameField body (ascii "note.txt") 0
  let payload := appendBytes (appendU32 [] kSmbMagic ++ [kSmbVersion] ++ body) (plain.sha256 body)
  payload ++ plain.sha256 payload

theorem deserialize_grammar_iff_swapped :
    (∀ input, (plain.sha256 input).length = kHashBytes) ∧ swappedBlock.length = 345 ∧
      (((∃ metadata, deserializeSmb .native plain swappedBlock = .ok metadata) ↔
        Grammar plain swappedBlock) ↔ ¬ Compensated plain swappedBlock) :=
  have hlen : swappedBlock.length = 345 := by decide +kernel
  ⟨plain_laws.sha256_length, hlen,
    deserialize_grammar_iff plain plain_laws.sha256_length swappedBlock hlen⟩

/-- The parser takes the swapped lengths, which the layout excludes. -/
theorem swappedBlock_accepted :
    ¬ ((∃ metadata, deserializeSmb .native plain swappedBlock = .ok metadata) ↔
      Grammar plain swappedBlock) := by
  have hok : (deserializeSmb .native plain swappedBlock).isOk = true := by decide +kernel
  intro h
  cases hd : deserializeSmb .native plain swappedBlock with
  | error e =>
    rw [hd] at hok
    cases hok
  | ok metadata =>
    have hroot := (h.mp ⟨metadata, hd⟩).rootHash
    revert hroot
    decide +kernel

end TwelveC.SmbGrammar
