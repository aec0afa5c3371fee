import TwelveC.SmbGrammar
import TwelveC.Sender

/-!
# File names in the metadata block

A name that the sender has normalised comes back unchanged whenever its octets
stay out of octets 120 and 121 of the slot. A whole-file object may write there:
the parser then takes two octets of the name for a segment code.
-/

namespace TwelveC.SmbNames

open Segment Crypto Smb SmbRoundTrip SmbGrammar Sender PlainCrypto Lib.Word

variable {C : Primitives} {name : Str} {metadata : SmbMetadata}

/-- No separator and no terminator is left in the name, and it fits the slot. -/
structure Clean (name : Str) : Prop where
  noSeparator : ∀ c ∈ name, isPathSeparator c = false
  noZero : ∀ c ∈ name, c ≠ 0
  length : name.length ≤ 128

theorem truncateName_front (limit : Nat) (name : Str) : truncateName limit name <+: name := by
  rw [truncateName]
  split
  · exact (List.rdropWhile_prefix _ _).trans (List.take_prefix _ _)
  · exact List.prefix_refl _

theorem length_truncateName_le (limit : Nat) (name : Str) :
    (truncateName limit name).length ≤ limit := by
  rw [truncateName]
  split
  · exact (List.IsPrefix.length_le (List.rdropWhile_prefix _ _)).trans (List.length_take_le _ _)
  · omega

theorem Clean.of_front {front : Str} (h : Clean name) (hf : front <+: name) : Clean front :=
  ⟨fun c hc => h.noSeparator c (hf.subset hc), fun c hc => h.noZero c (hf.subset hc),
    hf.length_le.trans h.length⟩

theorem normalize_clean (input : Str) : Clean (normalizeOriginalFileName input) := by
  have hmem : ∀ c ∈ normalizeOriginalFileName input,
      c ∈ input.rtakeWhile (fun c => !isPathSeparator c) ∧ (c != 0) = true := by
    intro c hc
    exact List.mem_filter.mp ((truncateName_front _ _).subset hc)
  refine ⟨?_, ?_, length_truncateName_le _ _⟩
  · intro c hc
    simpa using List.mem_rtakeWhile_imp (hmem c hc).1
  · intro c hc
    simpa using (hmem c hc).2

theorem normalizeForCode_clean (input : Str) (code : Nat) :
    Clean (normalizeFileNameForSegmentCode input code) := by
  rw [normalizeFileNameForSegmentCode]
  split
  · exact (normalize_clean input).of_front (truncateName_front _ _)
  · exact normalize_clean input

theorem normalizeForCode_length (input : Str) {code : Nat} (hv : ValidCode code) (h₀ : code ≠ 0) :
    (normalizeFileNameForSegmentCode input code).length ≤ 120 := by
  have hm : isV21SegmentedMode code = true := by
    have h₅ : code ≤ 5 := hv
    simp [isV21SegmentedMode, kV21SegmentCodeMin, kV21SegmentCodeMax, h₅, Nat.one_le_iff_ne_zero, h₀]
  rw [normalizeFileNameForSegmentCode, if_pos hm]
  exact length_truncateName_le _ _

/-- Normalising again changes nothing. -/
theorem Clean.normalize_eq (h : Clean name) : normalizeOriginalFileName name = name := by
  have hkeep : name.rtakeWhile (fun c => !isPathSeparator c) = name := by
    rw [List.rtakeWhile_eq_self_iff]
    intro c hc
    simp [h.noSeparator c hc]
  have hfilter : name.filter (· != 0) = name := by
    rw [List.filter_eq_self]
    intro c hc
    simpa using h.noZero c hc
  rw [normalizeOriginalFileName, hkeep, hfilter, truncateName,
    if_neg (by rw [kMaxOriginalFileNameBytes]; exact not_lt.mpr h.length)]

/-- The terminator, or the end of the slot, marks the end of the name. -/
theorem Clean.slotText_eq (h : Clean name) (n : Nat) :
    slotText (name ++ List.replicate n 0) = name := by
  have htake : name.takeWhile (· != 0) = name := by
    rw [List.takeWhile_eq_self_iff]
    intro c hc
    simpa using h.noZero c hc
  cases n with
  | zero =>
    have hno : name.contains 0 = false := by
      rw [List.contains_eq_mem, decide_eq_false_iff_not]
      exact fun hz => h.noZero 0 hz rfl
    rw [List.replicate_zero, List.append_nil, slotText, hno, if_neg (by simp),
      List.rdropWhile_eq_self_iff]
    intro hne
    simpa using h.noZero _ (List.getLast_mem hne)
  | succ n =>
    have hyes : (name ++ List.replicate (n + 1) 0).contains 0 = true := by
      rw [List.contains_eq_mem, decide_eq_true_eq]
      exact List.mem_append_right _ (by simp)
    rw [slotText, hyes, if_pos rfl, List.takeWhile_append]
    simp [htake]

/-- A short name is read back from the slot as it was written. -/
theorem slotName_eq (h : Clean name) (hl : name.length ≤ 120) (code : Nat) :
    slotName (zeroPadded 120 (name.take 120)) code = name := by
  rw [List.take_of_length_le hl, slotName]
  by_cases h₀ : code = 0
  · have hslot : nameSlot (zeroPadded 120 name) code =
        name ++ List.replicate (120 - name.length + 8) 0 := by
      rw [h₀, List.replicate_add]
      simp [nameSlot, zeroPadded]
    rw [if_pos h₀, hslot, h.slotText_eq, h.normalize_eq]
  · rw [if_neg h₀, zeroPadded, h.slotText_eq, h.normalize_eq]

/-- Fields of the widths that the block gives them. -/
structure Sealable (metadata : SmbMetadata) : Prop where
  rootHash : metadata.rootHash.length = 32
  encryptedFek : metadata.encryptedFek.pack.length = 60
  saltRand : metadata.saltRand.length = 16
  numTokens : metadata.numTokens < 2 ^ 32
  wireBlockSize : metadata.wireBlockSize < 2 ^ 32
  ciphertextLength : metadata.ciphertextLength < 2 ^ 64
  originalFileLength : metadata.originalFileLength < 2 ^ 64
  segmentCode : ValidCode metadata.segmentCode

/-- The same fields. The block holds the packed file key record, whose nonce and tag are told apart
by their octet counts. -/
structure SameFields (out metadata : SmbMetadata) : Prop where
  rootHash : out.rootHash = metadata.rootHash
  fekRecord : out.encryptedFek.pack = metadata.encryptedFek.pack
  fekParts : metadata.encryptedFek.nonce.length = 12 → metadata.encryptedFek.tag.length = 16 →
    out.encryptedFek = metadata.encryptedFek
  saltRand : out.saltRand = metadata.saltRand
  originalFileName : out.originalFileName = metadata.originalFileName
  numTokens : out.numTokens = metadata.numTokens
  wireBlockSize : out.wireBlockSize = metadata.wireBlockSize
  ciphertextLength : out.ciphertextLength = metadata.ciphertextLength
  originalFileLength : out.originalFileLength = metadata.originalFileLength
  segmentCode : out.segmentCode = metadata.segmentCode

/-- Only the packed form of the file key record is written. -/
theorem serialize_congr_fek (blob : EncryptedBlob) (h : blob.pack = metadata.encryptedFek.pack) :
    serializeSmb C { metadata with encryptedFek := blob } = serializeSmb C metadata := by
  have hbody : buildBody { metadata with encryptedFek := blob } = buildBody metadata := by
    simp only [buildBody, h]
  rw [serializeSmb, serializeSmb, hbody]

theorem roundTrip_of_short (hsha : ∀ input, (C.sha256 input).length = kHashBytes)
    (hs : Sealable metadata) (hc : Clean metadata.originalFileName)
    (hl : metadata.originalFileName.length ≤ 120) :
    ∃ out, deserializeSmb .native C (serializeSmb C metadata) = .ok out ∧
      SameFields out metadata := by
  obtain ⟨blob, hblob, hpack, hnonce, htag⟩ :=
    EncryptedBlob.unpack_ok (show 28 ≤ metadata.encryptedFek.pack.length by rw [hs.encryptedFek]; omega)
  have hw : Writable { metadata with encryptedFek := blob } :=
    { rootHash := by rw [hs.rootHash]; omega
      nonce := hnonce
      tag := htag
      encryptedFek := by rw [hpack, hs.encryptedFek]; omega
      saltRand := by rw [hs.saltRand]; omega
      numTokens := hs.numTokens
      wireBlockSize := hs.wireBlockSize
      ciphertextLength := hs.ciphertextLength
      originalFileLength := hs.originalFileLength
      segmentCode := hs.segmentCode
      fileName := .inl hl }
  have hread := deserialize_serialize native_size hsha _ hw
  rw [serialize_congr_fek blob hpack] at hread
  refine ⟨_, hread, ?_⟩
  have hparts : metadata.encryptedFek.nonce.length = 12 → metadata.encryptedFek.tag.length = 16 →
      blob = metadata.encryptedFek := by
    intro hn ht
    have hsame := EncryptedBlob.unpack_pack metadata.encryptedFek hn ht
    rw [hblob] at hsame
    exact Except.ok.inj hsame
  exact ⟨rfl, hpack, hparts, rfl, slotName_eq hc hl _, rfl, rfl, rfl, rfl, rfl⟩

theorem appendFixedFileNameField_append (buffer : Bytes) (fileName : Str) (code : Nat) :
    appendFixedFileNameField buffer fileName code =
      buffer ++ appendFixedFileNameField [] fileName code := by
  simp only [appendFixedFileNameField]
  split <;> simp [appendFixedFileNameV2, appendFixedFileNameV21]

theorem length_appendFixedFileNameField (fileName : Str) (code : Nat) :
    (appendFixedFileNameField [] fileName code).length = 128 := by
  rw [appendFixedFileNameField]
  split
  · rw [appendFixedFileNameV2, List.nil_append,
      length_zeroPadded (List.length_take_le _ _), kMaxOriginalFileNameBytes]
  · have h := length_zeroPadded (List.length_take_le 120 fileName)
    simp [appendFixedFileNameV21, kV21SegmentCodeFieldOffset, kV21FileNamePayloadBytes,
      kMaxOriginalFileNameBytes, h]

theorem length_serialize (hsha : ∀ input, (C.sha256 input).length = kHashBytes)
    (metadata : SmbMetadata) :
    (serializeSmb C metadata).length = metadata.rootHash.length +
      metadata.encryptedFek.pack.length + metadata.saltRand.length + 237 := by
  have hslot := length_appendFixedFileNameField metadata.originalFileName metadata.segmentCode
  rw [serializeSmb, buildBody, appendFixedFileNameField_append]
  simp only [appendBytes, appendU32, appendU64, List.length_append, length_bigEndian, hsha, hslot,
    kHashBytes_eq, List.length_nil, List.length_singleton]
  omega

/-- Where the length prefixes and the slot of a written block lie. -/
theorem serialize_layout (hsha : ∀ input, (C.sha256 input).length = kHashBytes)
    (hs : Sealable metadata) :
    (serializeSmb C metadata).length = 345 ∧ lengths (serializeSmb C metadata) = 108 ∧
      At (serializeSmb C metadata) 149
        (appendFixedFileNameField [] metadata.originalFileName metadata.segmentCode) := by
  have hslot := length_appendFixedFileNameField metadata.originalFileName metadata.segmentCode
  have hbody : buildBody metadata =
      bigEndian 4 32 ++ (metadata.rootHash ++ (bigEndian 4 60 ++ (metadata.encryptedFek.pack ++
      (bigEndian 4 16 ++ (metadata.saltRand ++
      ((bigEndian 4 metadata.numTokens ++ (bigEndian 4 metadata.wireBlockSize ++
      (bigEndian 8 metadata.ciphertextLength ++ bigEndian 8 metadata.originalFileLength))) ++
        appendFixedFileNameField [] metadata.originalFileName metadata.segmentCode)))))) := by
    rw [buildBody, appendFixedFileNameField_append]
    simp only [appendBytes, appendU32, appendU64, List.nil_append, List.append_assoc, hs.rootHash,
      hs.encryptedFek, hs.saltRand]
  have hword : ∀ {v offset : Nat}, v < 2 ^ 32 → At (serializeSmb C metadata) offset (bigEndian 4 v) →
      wordAt (serializeSmb C metadata) offset 4 = v := by
    intro v offset hv hat
    have hfield := hat.field_eq
    rw [length_bigEndian] at hfield
    rw [wordAt, hfield, ofBigEndian_bigEndian_of_lt 4 v hv]
  obtain ⟨rest, hchain⟩ : ∃ rest, serializeSmb C metadata =
      (bigEndian 4 kSmbMagic ++ [kSmbVersion]) ++ (buildBody metadata ++ rest) := by
    rw [serializeSmb]
    simp only [appendBytes, appendU32, List.nil_append, List.append_assoc]
    exact ⟨_, rfl⟩
  have hlen : (serializeSmb C metadata).length = 345 := by
    rw [serializeSmb]
    simp only [hbody, appendBytes, appendU32, List.length_append, length_bigEndian, hsha, hslot,
      hs.rootHash, hs.encryptedFek, hs.saltRand]
    rfl
  have a₀ := (at_of_eq hchain).right
  have a₁ := a₀.left
  rw [hbody] at a₁
  have a₂ := a₁.right.right
  have a₃ := a₂.right.right
  have a₄ := a₃.right.right.right
  simp only [List.length_append, length_bigEndian, hs.rootHash, hs.encryptedFek, hs.saltRand,
    List.length_singleton, Nat.zero_add, Nat.reduceAdd] at a₁ a₂ a₃ a₄
  have h₁ : rootLength (serializeSmb C metadata) = 32 := hword (by omega) a₁.left
  have h₂ : fekLength (serializeSmb C metadata) = 60 := by
    rw [fekLength, h₁]
    exact hword (by omega) a₂.left
  have h₃ : saltLength (serializeSmb C metadata) = 16 := by
    rw [saltLength, h₁, h₂]
    exact hword (by omega) a₃.left
  exact ⟨hlen, by rw [lengths, h₁, h₂, h₃], a₄⟩

/-- A long name of a whole-file object puts an octet of the name where the code is read. -/
theorem slotCode_long {buffer : Bytes} {offset : Nat} (hc : Clean name) (hl : 120 < name.length)
    (h : At buffer offset (appendFixedFileNameField [] name 0)) : slotCode buffer offset ≠ 0 := by
  have hslot : appendFixedFileNameField [] name 0 =
      name.take 120 ++ (name[120] :: (name.drop 121 ++ List.replicate (128 - name.length) 0)) := by
    rw [appendFixedFileNameField, kV2SegmentCodeWholeFile, if_pos rfl, appendFixedFileNameV2,
      kMaxOriginalFileNameBytes, List.take_of_length_le hc.length, zeroPadded, List.nil_append,
      ← List.cons_append, List.getElem_cons_drop, ← List.append_assoc, List.take_append_drop]
  rw [hslot] at h
  have hget := h.right.head
  rw [List.length_take_of_le (by omega)] at hget
  have hne : name[120].toNat ≠ 0 := by
    intro h₀
    exact hc.noZero _ (List.getElem_mem hl) (UInt8.toNat_inj.mp h₀)
  rw [slotCode, List.getD_eq_getElem?_getD, hget, Option.getD_some]
  omega

theorem roundTrip_short (hsha : ∀ input, (C.sha256 input).length = kHashBytes)
    (hs : Sealable metadata) (hc : Clean metadata.originalFileName) (h₀ : metadata.segmentCode = 0)
    {out : SmbMetadata} (hread : deserializeSmb .native C (serializeSmb C metadata) = .ok out)
    (hsame : SameFields out metadata) : metadata.originalFileName.length ≤ 120 := by
  by_contra hl
  obtain ⟨hlen, hlengths, hat⟩ := serialize_layout hsha hs
  obtain ⟨h₁, h₂, h₃⟩ := lengths_front (.inl (by omega : lengths (serializeSmb C metadata) ≤ 296))
  have hsum : lengths (field (serializeSmb C metadata) 0 313) = 108 := by
    rw [← hlengths, lengths, lengths, h₁, h₂, h₃]
  obtain ⟨-, -, blob, -, rfl⟩ := (deserialize_eq_ok native_size hlen).mp hread
  have hcode := hsame.segmentCode
  simp only [parsed, hsum, Nat.reduceAdd] at hcode
  rw [slotCode_front (by omega), h₀] at hcode
  rw [h₀] at hat
  exact slotCode_long hc (by omega) hat hcode

/-- A block comes back with the same fields exactly when its name stays out of octets 120 and 121 of
the slot: always in a segmented object, up to 120 octets of name in a whole-file one. -/
theorem deserialize_serialize_iff (C : Primitives)
    (hsha : ∀ input, (C.sha256 input).length = kHashBytes) (metadata : SmbMetadata) (input : Str)
    (hs : Sealable metadata) (hname : metadata.originalFileName =
      normalizeFileNameForSegmentCode input metadata.segmentCode) :
    (∃ out, deserializeSmb .native C (serializeSmb C metadata) = .ok out ∧
      SameFields out metadata) ↔
    metadata.segmentCode ≠ 0 ∨ metadata.originalFileName.length ≤ 120 := by
  have hc : Clean metadata.originalFileName := by
    rw [hname]
    exact normalizeForCode_clean _ _
  constructor
  · rintro ⟨out, hread, hsame⟩
    by_cases h₀ : metadata.segmentCode = 0
    · exact .inr (roundTrip_short hsha hs hc h₀ hread hsame)
    · exact .inl h₀
  · intro h
    have hl : metadata.originalFileName.length ≤ 120 := by
      rcases h with h₀ | hl
      · rw [hname]
        exact normalizeForCode_length input hs.segmentCode h₀
      · exact hl
    exact roundTrip_of_short hsha hs hc hl

def sampleBlock (fileName : Str) (segmentCode : Nat) : SmbMetadata :=
  { rootHash := List.replicate 32 7,
    encryptedFek := ⟨List.replicate 12 1, List.replicate 32 2, List.replicate 16 3⟩,
    saltRand := List.replicate 16 9, numTokens := 1, wireBlockSize := 1024, ciphertextLength := 28,
    originalFileLength := 0, originalFileName := fileName, segmentCode }

theorem sampleBlock_sealable (fileName : Str) {segmentCode : Nat} (h : ValidCode segmentCode) :
    Sealable (sampleBlock fileName segmentCode) :=
  ⟨rfl, rfl, rfl, by simp [sampleBlock], by simp [sampleBlock], by simp [sampleBlock],
    by simp [sampleBlock], h⟩

theorem deserialize_serialize_iff_note :
    (∃ out, deserializeSmb .native plain (serializeSmb plain (sampleBlock (ascii "note.txt") 1)) =
      .ok out ∧ SameFields out (sampleBlock (ascii "note.txt") 1)) ↔
    (1 ≠ 0 ∨ (ascii "note.txt").length ≤ 120) :=
  deserialize_serialize_iff plain plain_laws.sha256_length (sampleBlock (ascii "note.txt") 1)
    (ascii "docs/note.txt") (sampleBlock_sealable _ (by decide)) (by decide +kernel)

/-- 121 octets of `a` (97) in a whole-file object: the parser reads the segment code 97. -/
theorem long_name_lost :
    Sealable (sampleBlock (List.replicate 121 97) 0) ∧
      List.replicate 121 97 = normalizeFileNameForSegmentCode (List.replicate 121 97) 0 ∧
      ¬ ∃ out, deserializeSmb .native plain
        (serializeSmb plain (sampleBlock (List.replicate 121 97) 0)) = .ok out ∧
          SameFields out (sampleBlock (List.replicate 121 97) 0) := by
  have hbad : (deserializeSmb .native plain
      (serializeSmb plain (sampleBlock (List.replicate 121 97) 0))).isOk = false := by
    decide +kernel
  refine ⟨sampleBlock_sealable _ (by decide), by decide +kernel, ?_⟩
  rintro ⟨out, hout, -⟩
  rw [hout] at hbad
  cases hbad

/-- The segment code that the parser finds: octets 120 and 121 of the slot, which in a whole-file
object belong to the name. -/
def codeRead (fileName : Str) (segmentCode : Nat) : Nat :=
  if segmentCode = 0 then (fileName.getD 120 0).toNat + 256 * (fileName.getD 121 0).toNat
  else segmentCode

/-- The fields that a written block stands for. -/
def asRead (metadata : SmbMetadata) : SmbMetadata :=
  { metadata with
    originalFileName := metadata.originalFileName.take 120
    segmentCode := codeRead metadata.originalFileName metadata.segmentCode }

theorem codeRead_short (hl : name.length ≤ 120) (code : Nat) : codeRead name code = code := by
  have hnone (i : Nat) (hi : 120 ≤ i) : name.getD i 0 = 0 := by
    rw [List.getD_eq_getElem?_getD, List.getElem?_eq_none (by omega), Option.getD_none]
  rw [codeRead, hnone 120 (by omega), hnone 121 (by omega)]
  split
  case isTrue h₀ => exact h₀.symm
  case isFalse => rfl

/-- Only one octet of a longer name fits a valid code. -/
theorem length_of_codeRead (hc : Clean name) (hv : ValidCode (codeRead name 0)) :
    name.length ≤ 121 := by
  by_contra hl
  have hget : name[121]? = some name[121] := List.getElem?_eq_getElem (by omega)
  have hne : name[121].toNat ≠ 0 := fun hzero =>
    hc.noZero _ (List.getElem_mem (by omega)) (UInt8.toNat_inj.mp hzero)
  have hle : codeRead name 0 ≤ 5 := hv
  rw [codeRead, if_pos rfl, List.getD_eq_getElem?_getD (i := 121), hget, Option.getD_some] at hle
  omega

theorem nameField_asRead (hc : Clean metadata.originalFileName)
    (hl : metadata.segmentCode ≠ 0 → metadata.originalFileName.length ≤ 120)
    (hv : ValidCode (codeRead metadata.originalFileName metadata.segmentCode)) :
    appendFixedFileNameField [] (asRead metadata).originalFileName (asRead metadata).segmentCode =
      appendFixedFileNameField [] metadata.originalFileName metadata.segmentCode := by
  by_cases hshort : metadata.originalFileName.length ≤ 120
  · rw [asRead, codeRead_short hshort, List.take_of_length_le hshort]
  · have h₀ : metadata.segmentCode = 0 := by
      by_contra hne
      exact hshort (hl hne)
    have hlen : metadata.originalFileName.length = 121 := by
      rw [h₀] at hv
      have hle := length_of_codeRead hc hv
      omega
    obtain ⟨front, c, hname⟩ : ∃ front c, metadata.originalFileName = front ++ [c] := by
      refine ⟨_, _, (List.dropLast_append_getLast (List.ne_nil_of_length_pos ?_)).symm⟩
      omega
    have hfront : front.length = 120 := by
      rw [hname, List.length_append, List.length_singleton] at hlen
      omega
    have hcode : codeRead metadata.originalFileName metadata.segmentCode = c.toNat := by
      have hlast : (front ++ [c])[120]? = some c := by
        rw [← hfront, List.getElem?_concat_length]
      have hover : (front ++ [c])[121]? = none := by
        rw [List.getElem?_eq_none_iff, List.length_append, hfront, List.length_singleton]
      rw [codeRead, if_pos h₀, hname, List.getD_eq_getElem?_getD, List.getD_eq_getElem?_getD, hlast,
        hover]
      rfl
    have hne : c ≠ 0 := hc.noZero c (by simp [hname])
    have hlt : c.toNat ≤ 5 := by
      rw [← hcode]
      exact hv
    have hnat : c.toNat ≠ 0 := fun hzero => hne (UInt8.toNat_inj.mp hzero)
    have hread : (asRead metadata).originalFileName = front := by
      rw [asRead, hname, List.take_left' hfront]
    have hfull : (front ++ [c]).length ≤ 128 := by
      rw [List.length_append, hfront, List.length_singleton]
      decide
    have htext : appendFixedFileNameV21 [] front c.toNat = front ++ [c, 0] ++ List.replicate 6 0 := by
      rw [appendFixedFileNameV21, kV21SegmentCodeFieldOffset, kV21FileNamePayloadBytes,
        List.take_of_length_le hfront.le, zeroPadded, hfront, Nat.div_eq_of_lt (by omega),
        UInt8.ofNat_toNat]
      simp [kMaxOriginalFileNameBytes]
    have hwhole : appendFixedFileNameV2 [] (front ++ [c]) = front ++ [c] ++ List.replicate 7 0 := by
      rw [appendFixedFileNameV2, kMaxOriginalFileNameBytes, List.take_of_length_le hfull, zeroPadded,
        List.length_append, hfront, List.length_singleton, List.nil_append]
    rw [hread, show (asRead metadata).segmentCode = c.toNat from hcode, hname, h₀,
      appendFixedFileNameField, kV2SegmentCodeWholeFile, if_neg hnat, appendFixedFileNameField,
      kV2SegmentCodeWholeFile, if_pos rfl, htext, hwhole]
    simp [List.replicate_succ]

theorem serialize_asRead (C : Primitives) (hc : Clean metadata.originalFileName)
    (hl : metadata.segmentCode ≠ 0 → metadata.originalFileName.length ≤ 120)
    (hv : ValidCode (codeRead metadata.originalFileName metadata.segmentCode)) :
    serializeSmb C (asRead metadata) = serializeSmb C metadata := by
  have hbody : buildBody (asRead metadata) = buildBody metadata := by
    rw [buildBody, buildBody, appendFixedFileNameField_append, nameField_asRead hc hl hv,
      ← appendFixedFileNameField_append]
    rfl
  rw [serializeSmb, serializeSmb, hbody]

theorem getD_at {buffer data : Bytes} {offset i : Nat} (h : At buffer offset data)
    (hi : i < data.length) : buffer.getD (offset + i) 0 = data.getD i 0 := by
  obtain ⟨before, after, rfl, rfl⟩ := h
  rw [List.getD_eq_getElem?_getD, List.append_assoc, List.getElem?_append_right (by omega),
    Nat.add_sub_cancel_left, List.getElem?_append_left hi, ← List.getD_eq_getElem?_getD]

theorem getD_zeroPadded (name : Str) (width i : Nat) : (zeroPadded width name).getD i 0 = name.getD i 0 := by
  rw [zeroPadded, List.getD_eq_getElem?_getD, List.getD_eq_getElem?_getD, List.getElem?_append]
  split
  case isTrue => rfl
  case isFalse hge =>
    rw [List.getElem?_eq_none (not_lt.mp hge), List.getElem?_replicate]
    split
    case isTrue => rfl
    case isFalse => rfl

/-- The parser rejects any other code. -/
theorem codeRead_valid (hsha : ∀ input, (C.sha256 input).length = kHashBytes)
    (hs : Sealable metadata) (hc : Clean metadata.originalFileName) {out : SmbMetadata}
    (hread : deserializeSmb .native C (serializeSmb C metadata) = .ok out) :
    ValidCode (codeRead metadata.originalFileName metadata.segmentCode) := by
  rw [codeRead]
  split
  case isFalse => exact hs.segmentCode
  case isTrue h₀ =>
    obtain ⟨hlen, hlengths, hat⟩ := serialize_layout hsha hs
    obtain ⟨h₁, h₂, h₃⟩ := lengths_front (.inl (by omega : lengths (serializeSmb C metadata) ≤ 296))
    have hsum : lengths (field (serializeSmb C metadata) 0 313) = 108 := by
      rw [← hlengths, lengths, lengths, h₁, h₂, h₃]
    obtain ⟨-, haccepted, -⟩ := (deserialize_eq_ok native_size hlen).mp hread
    have hslot := haccepted.slot.1
    have hfield : appendFixedFileNameField [] metadata.originalFileName metadata.segmentCode =
        zeroPadded 128 metadata.originalFileName := by
      rw [h₀, appendFixedFileNameField, kV2SegmentCodeWholeFile, if_pos rfl, appendFixedFileNameV2,
        kMaxOriginalFileNameBytes, List.take_of_length_le hc.length, List.nil_append]
    have hwidth := length_zeroPadded hc.length
    rw [hfield] at hat
    rwa [hsum, slotCode_front (by omega), slotCode, getD_at hat (by omega), getD_at hat (by omega),
      getD_zeroPadded, getD_zeroPadded] at hslot

end TwelveC.SmbNames
