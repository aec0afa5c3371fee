import TwelveC.Smb

/-!
# Reading back a written metadata block

Each reader is described by what it returns where a field lies in the buffer;
the written block is a chain of such fields.
-/

namespace TwelveC.SmbRoundTrip

open Segment Crypto Smb Lib.Word

variable {M : Machine} (hM : ∀ n, M.size n = n) {C : Primitives}
variable {buffer data : Bytes} {offset : Nat}

theorem slice_at (h : At buffer offset data) :
    slice buffer offset (offset + data.length) = .ok data := by
  have hle := h.le
  rw [slice, if_pos ⟨by omega, hle⟩, Nat.add_sub_cancel_left, h.take_drop]

theorem byteAt_at {c : UInt8} (h : At buffer offset (c :: data)) :
    byteAt buffer offset = .ok c := by
  rw [byteAt, h.head]

include hM

theorem readU32_at {v : Nat} (h : At buffer offset (bigEndian 4 v)) (hv : v < 2 ^ 32) :
    readU32 M buffer offset = .ok (v, offset + 4) := by
  have hle := h.le
  rw [length_bigEndian] at hle
  have h₀ : At buffer offset [UInt8.ofNat (v / 256 ^ 3), UInt8.ofNat (v / 256 ^ 2),
    UInt8.ofNat (v / 256 ^ 1), UInt8.ofNat (v / 256 ^ 0)] := h
  have hval := ofBigEndian_bigEndian_of_lt 4 v hv
  rw [readU32]
  simp only [hM]
  rw [throwIf_neg (by omega), ok_bind, byteAt_at h₀, ok_bind, byteAt_at h₀.tail, ok_bind,
    byteAt_at h₀.tail.tail, ok_bind, byteAt_at h₀.tail.tail.tail, ok_bind, pure_eq_ok]
  exact congrArg (fun n => Except.ok (n, offset + 4)) hval

theorem readOctets_at (h : At buffer offset data) :
    readOctets M buffer data.length offset = .ok data := by
  induction data generalizing offset with
  | nil => rfl
  | cons c rest ih =>
    rw [List.length_cons, readOctets, byteAt_at h, ok_bind, hM, ih h.tail]
    rfl

theorem readU64_at {v : Nat} (h : At buffer offset (bigEndian 8 v)) (hv : v < 2 ^ 64) :
    readU64 M buffer offset = .ok (v, offset + 8) := by
  have hle := h.le
  have hread := readOctets_at hM h
  have hval := ofBigEndian_bigEndian_of_lt 8 v hv
  rw [length_bigEndian] at hle hread
  rw [readU64, hM, throwIf_neg (by omega), ok_bind, hread, ok_bind, pure_eq_ok, hval]

theorem readBytes_at (h : At buffer offset (bigEndian 4 data.length ++ data))
    (hd : data.length < 2 ^ 32) :
    readBytes M buffer offset = .ok (data, offset + (4 + data.length)) := by
  have hr := h.right
  rw [length_bigEndian] at hr
  have hle := hr.le
  rw [readBytes, readU32_at hM h.left hd, ok_bind]
  simp only [hM]
  rw [throwIf_neg (by omega), ok_bind, slice_at hr, ok_bind, pure_eq_ok, Nat.add_assoc]

theorem readU16Le_at {b₀ b₁ : UInt8} (h : At buffer offset (b₀ :: b₁ :: data)) :
    readU16Le M buffer offset = .ok (b₀.toNat + 256 * b₁.toNat) := by
  have hle := h.le
  simp only [List.length_cons] at hle
  rw [readU16Le, hM, throwIf_neg (by omega), ok_bind, byteAt_at h, ok_bind, hM, byteAt_at h.tail]
  rfl

theorem checkReserved_at {n first : Nat} (h : At buffer (offset + first) (List.replicate n 0)) :
    checkReserved M buffer offset (List.range' first n) = .ok () := by
  induction n generalizing first with
  | zero => rfl
  | succ n ih =>
    rw [List.replicate_succ] at h
    rw [List.range'_succ, checkReserved, hM, byteAt_at h, ok_bind, throwIf_neg (by simp), ok_bind]
    exact ih h.tail

omit hM

/-- The name slot of the block: text, segment code, reserved zeros. -/
def nameSlot (text : Bytes) (segmentCode : Nat) : Bytes :=
  text ++ [UInt8.ofNat segmentCode, UInt8.ofNat (segmentCode / 256)] ++ List.replicate 6 0

theorem length_zeroPadded {width : Nat} {name : Str} (h : name.length ≤ width) :
    (zeroPadded width name).length = width := by
  simp only [zeroPadded, List.length_append, List.length_replicate]
  omega

/-- A whole-file object with a short name has the segment code 0 in its slot like any other. -/
theorem appendFixedFileNameField_eq (fileName : Str) (code : Nat)
    (h : fileName.length ≤ 120 ∨ code ≠ 0) :
    appendFixedFileNameField buffer fileName code =
      buffer ++ nameSlot (zeroPadded 120 (fileName.take 120)) code := by
  rw [appendFixedFileNameField, kV2SegmentCodeWholeFile]
  by_cases h₀ : code = 0
  · have hl : fileName.length ≤ 120 := h.resolve_right (not_not.mpr h₀)
    have h₁ : fileName.take 120 = fileName := List.take_of_length_le hl
    have h₂ : fileName.take 128 = fileName := List.take_of_length_le (by omega)
    have hsplit : 128 - fileName.length = 120 - fileName.length + (2 + 6) := by omega
    subst h₀
    rw [if_pos rfl, appendFixedFileNameV2, kMaxOriginalFileNameBytes, h₁, h₂, zeroPadded, hsplit,
      List.replicate_add]
    simp [nameSlot, zeroPadded]
  · rw [if_neg h₀, appendFixedFileNameV21]
    simp [nameSlot, kV21SegmentCodeFieldOffset, kV21FileNamePayloadBytes, kMaxOriginalFileNameBytes]

/-- The name a reader takes from a slot. -/
def slotName (text : Bytes) (segmentCode : Nat) : Str :=
  normalizeOriginalFileName
    (slotText (if segmentCode = 0 then nameSlot text segmentCode else text))

include hM

theorem readFixedFileNameField_at {text : Bytes} {code next : Nat} (ht : text.length = 120)
    (hv : ValidCode code) (h : At buffer offset (nameSlot text code)) (hn : next = offset + 128) :
    readFixedFileNameField M buffer offset = .ok ((slotName text code, code), next) := by
  subst hn
  have hlen : (nameSlot text code).length = 128 := by simp [nameSlot, ht]
  have hle := h.le
  have hlt : code < 256 := by
    have : code ≤ 5 := hv
    omega
  have hcode : (UInt8.ofNat code).toNat + 256 * (UInt8.ofNat (code / 256)).toNat = code := by
    simp [Nat.div_eq_of_lt hlt]
    omega
  have hmid := h.left.right
  rw [ht] at hmid
  have hread : readSegmentCodeFromFileNameField M buffer offset = .ok code := by
    rw [readSegmentCodeFromFileNameField, hM, kV21SegmentCodeFieldOffset, readU16Le_at hM hmid,
      hcode, ok_bind, kV2SegmentCodeWholeFile]
    by_cases h₀ : code = 0
    · rw [if_pos h₀, h₀]
      rfl
    · have hres : At buffer (offset + 122) (List.replicate 6 0) := by
        have hr := h.right
        simpa [ht] using hr
      rw [if_neg h₀, (validate_ok code).mpr hv, ok_bind, kMaxOriginalFileNameBytes,
        checkReserved_at hM hres]
      rfl
  have hslot := slice_at h
  rw [hlen] at hle hslot
  have htext := slice_at h.left.left
  rw [ht] at htext
  rw [readFixedFileNameField, hM, kMaxOriginalFileNameBytes, throwIf_neg (by omega), ok_bind, hread,
    ok_bind, kV2SegmentCodeWholeFile]
  by_cases h₀ : code = 0
  · rw [if_pos h₀, readFixedFileNameV2]
    simp only [hM, kMaxOriginalFileNameBytes]
    rw [throwIf_neg (by omega), ok_bind, hslot]
    simp [slotName, h₀]
  · rw [if_neg h₀, readFixedFileNameV21, hM, kV21FileNamePayloadBytes, htext]
    simp [slotName, h₀]

omit hM

/-- The fields fit the widths they are written in. -/
structure Writable (metadata : SmbMetadata) : Prop where
  rootHash : metadata.rootHash.length < 2 ^ 32
  nonce : metadata.encryptedFek.nonce.length = 12
  tag : metadata.encryptedFek.tag.length = 16
  encryptedFek : metadata.encryptedFek.pack.length < 2 ^ 32
  saltRand : metadata.saltRand.length < 2 ^ 32
  numTokens : metadata.numTokens < 2 ^ 32
  wireBlockSize : metadata.wireBlockSize < 2 ^ 32
  ciphertextLength : metadata.ciphertextLength < 2 ^ 64
  originalFileLength : metadata.originalFileLength < 2 ^ 64
  segmentCode : ValidCode metadata.segmentCode
  fileName : metadata.originalFileName.length ≤ 120 ∨ metadata.segmentCode ≠ 0

/-- The block as it comes back: only the name may have changed. -/
def readBack (metadata : SmbMetadata) : SmbMetadata :=
  { metadata with
    originalFileName := slotName (zeroPadded 120 (metadata.originalFileName.take 120))
      metadata.segmentCode }

/-- The body as a chain of fields. -/
theorem buildBody_eq (metadata : SmbMetadata) (h : Writable metadata) :
    buildBody metadata =
      (bigEndian 4 metadata.rootHash.length ++ metadata.rootHash) ++
      ((bigEndian 4 metadata.encryptedFek.pack.length ++ metadata.encryptedFek.pack) ++
      ((bigEndian 4 metadata.saltRand.length ++ metadata.saltRand) ++
      (bigEndian 4 metadata.numTokens ++ (bigEndian 4 metadata.wireBlockSize ++
      (bigEndian 8 metadata.ciphertextLength ++ (bigEndian 8 metadata.originalFileLength ++
        nameSlot (zeroPadded 120 (metadata.originalFileName.take 120)) metadata.segmentCode)))))) := by
  simp only [buildBody, appendFixedFileNameField_eq _ _ h.fileName, appendBytes, appendU32, appendU64,
    List.nil_append, List.append_assoc]

include hM in
theorem deserialize_serialize (hsha : ∀ input, (C.sha256 input).length = kHashBytes)
    (metadata : SmbMetadata) (h : Writable metadata) :
    deserializeSmb M C (serializeSmb C metadata) = .ok (readBack metadata) := by
  have hbody := buildBody_eq metadata h
  have htext : (zeroPadded 120 (metadata.originalFileName.take 120)).length = 120 :=
    length_zeroPadded (List.length_take_le _ _)
  have hslot : (nameSlot (zeroPadded 120 (metadata.originalFileName.take 120))
      metadata.segmentCode).length = 128 := by
    simp [nameSlot, htext]
  rw [serializeSmb]
  generalize hb : buildBody metadata = body at *
  obtain ⟨payload, hp⟩ : ∃ payload, appendBytes (appendU32 [] kSmbMagic ++ [kSmbVersion] ++ body)
    (C.sha256 body) = payload := ⟨_, rfl⟩
  have hhash := hsha payload
  have hbhash := hsha body
  rw [kHashBytes_eq] at hhash hbhash
  have hchain : payload = bigEndian 4 kSmbMagic ++ (kSmbVersion :: (body ++
      (bigEndian 4 (C.sha256 body).length ++ C.sha256 body))) := by
    rw [← hp]
    simp [appendBytes, appendU32]
  rw [hp]
  -- where each field lies in the payload
  have a₀ := at_of_eq hchain
  have a₁ := a₀.right
  rw [length_bigEndian] at a₁
  have a₂ := a₁.tail
  have aHash := a₂.right
  have a₃ := a₂.left
  rw [hbody] at a₃
  have a₄ := a₃.right
  have a₅ := a₄.right
  have a₆ := a₅.right
  have a₇ := a₆.right
  have a₈ := a₇.right
  have a₉ := a₈.right
  have a₁₀ := a₉.right
  simp only [List.length_append, length_bigEndian, Nat.zero_add, Nat.reduceAdd] at *
  have hlen := congrArg List.length hchain
  simp only [List.length_append, List.length_cons, length_bigEndian, hbhash] at hlen
  have hblen : body.length = metadata.rootHash.length + metadata.encryptedFek.pack.length +
      metadata.saltRand.length + 164 := by
    rw [hbody]
    simp only [List.length_append, length_bigEndian, hslot]
    omega
  have hdata : (payload ++ C.sha256 payload).length = payload.length + 32 := by simp [hhash]
  have hback := slice_at (at_of_eq (rfl : payload ++ C.sha256 payload = _)).right
  have hfront := slice_at (at_of_eq (rfl : payload ++ C.sha256 payload = _)).left
  have hbodySlice := slice_at a₂.left
  rw [Nat.zero_add] at hfront hback
  rw [hhash] at hback
  rw [deserializeSmb, kHashBytes_eq, hdata, Nat.add_sub_cancel, throwIf_neg (by omega), ok_bind, hback,
    ok_bind, hfront, ok_bind, throwIf_neg (by simp), ok_bind]
  have e₀ := readU32_at hM a₀.left (by decide)
  have e₃ := readBytes_at hM a₃.left h.rootHash
  have e₄ := readBytes_at hM a₄.left h.encryptedFek
  have e₅ := readBytes_at hM a₅.left h.saltRand
  have e₆ := readU32_at hM a₆.left h.numTokens
  have e₇ := readU32_at hM a₇.left h.wireBlockSize
  have e₈ := readU64_at hM a₈.left h.ciphertextLength
  have e₉ := readU64_at hM a₉.left h.originalFileLength
  have e₁₀ := readFixedFileNameField_at hM htext h.segmentCode a₁₀
    (show 5 + body.length = _ by omega)
  have eHash := readBytes_at hM aHash (by omega)
  have eFek := EncryptedBlob.unpack_pack metadata.encryptedFek h.nonce h.tag
  simp only [e₀, byteAt_at a₁, ok_bind, hM, Nat.reduceAdd]
  rw [throwIf_neg (by simp), ok_bind, throwIf_neg (by omega), ok_bind, throwIf_neg (by simp), ok_bind]
  simp only [e₃, e₄, eFek, e₅, e₆, e₇, e₈, e₉, e₁₀, eHash, hbodySlice, ok_bind]
  rw [throwIf_neg (by simp), ok_bind, throwIf_neg (by omega), ok_bind]
  rfl

end TwelveC.SmbRoundTrip
