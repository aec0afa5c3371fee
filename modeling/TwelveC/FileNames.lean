import TwelveC.Lib.Utf8
import TwelveC.Sender

/-!
# Cutting UTF-8 file names

A name that exceeds its limit is cut there, and continuation octets at the end
are dropped, but not the lead octet before them. Only a cut after an ASCII
character leaves whole characters.
-/

namespace TwelveC.FileNames

open Segment Smb Sender Lib.Utf8

/-- The base name without NUL, as characters. -/
def baseName (fileName : List Char) : List Char :=
  (fileName.rtakeWhile fun c => !(c == '/' || c == '\\')).filter (· != '\x00')

def nameLimit (segmentCode : Nat) : Nat :=
  if segmentCode = kV2SegmentCodeWholeFile then kMaxOriginalFileNameBytes
  else kV21FileNamePayloadBytes

/-- The UTF-8 form of the longest front of the base name that fits the limit. -/
def LongestName (fileName : List Char) (segmentCode : Nat) (name : Str) : Prop :=
  ∃ kept, LongestFit (nameLimit segmentCode) (baseName fileName) kept ∧ name = encode kept

theorem truncateName_eq (limit : Nat) (name : Str) :
    truncateName limit name = if limit < name.length then cutBack limit name else name := rfl

theorem octet_eq_iff {c : Char} {n : Nat} (hc : c.toNat < 128) (hn : n < 128) :
    UInt8.ofNat c.toNat = UInt8.ofNat n ↔ c = Char.ofNat n := by
  have hchar : (Char.ofNat n).toNat = n := by
    rw [Char.ofNat, dif_pos (.inl (by omega))]
    rfl
  rw [← UInt8.toNat_inj, UInt8.toNat_ofNat', UInt8.toNat_ofNat', Nat.mod_eq_of_lt (by omega),
    Nat.mod_eq_of_lt (by omega), ← Char.toNat_inj, hchar]

theorem separator_test :
    AsciiTest (fun c => !isPathSeparator c) (fun c => !(c == '/' || c == '\\')) := by
  apply AsciiTest.of_chars
  · intro b hb
    have hb' : b = 47 ∨ b = 92 := by simpa [isPathSeparator, or_iff_not_imp_left] using hb
    rcases hb' with rfl | rfl <;> decide
  · intro c
    constructor
    · intro hc
      have hc' : c = '/' ∨ c = '\\' := by simpa [or_iff_not_imp_left] using hc
      rcases hc' with rfl | rfl <;> decide
    · rintro ⟨hc, hsep⟩
      have hsep' : UInt8.ofNat c.toNat = UInt8.ofNat 47 ∨ UInt8.ofNat c.toNat = UInt8.ofNat 92 := by
        simpa [isPathSeparator, or_iff_not_imp_left] using hsep
      rw [octet_eq_iff hc (by decide), octet_eq_iff hc (by decide)] at hsep'
      rcases hsep' with rfl | rfl <;> decide

theorem nul_test : AsciiTest (· != 0) (· != '\x00') := by
  apply AsciiTest.of_chars
  · intro b hb
    have hb' : b = 0 := by simpa using hb
    simp [hb']
  · intro c
    constructor
    · intro hc
      have hc' : c = '\x00' := by simpa using hc
      simp [hc']
    · rintro ⟨hc, h₀⟩
      have h₀' : UInt8.ofNat c.toNat = UInt8.ofNat 0 := by simpa using h₀
      rw [octet_eq_iff hc (by decide)] at h₀'
      simp [h₀']

theorem normalizeOriginalFileName_encode (fileName : List Char) :
    normalizeOriginalFileName (encode fileName) =
      truncateName kMaxOriginalFileNameBytes (encode (baseName fileName)) := by
  rw [normalizeOriginalFileName, separator_test.rtakeWhile_encode, nul_test.filter_encode, baseName]

/-- The cut at 128 octets never shows behind the one at 120. -/
theorem normalizeFileNameForSegmentCode_encode (fileName : List Char) {segmentCode : Nat}
    (hv : ValidCode segmentCode) :
    normalizeFileNameForSegmentCode (encode fileName) segmentCode =
      truncateName (nameLimit segmentCode) (encode (baseName fileName)) := by
  rw [normalizeFileNameForSegmentCode, normalizeOriginalFileName_encode]
  by_cases h₀ : segmentCode = 0
  · simp [h₀, nameLimit, isV21SegmentedMode, kV2SegmentCodeWholeFile, kV21SegmentCodeMin]
  · have hmode : isV21SegmentedMode segmentCode = true := by
      have h₅ : segmentCode ≤ 5 := hv
      simp [isV21SegmentedMode, kV21SegmentCodeMin, kV21SegmentCodeMax, h₅, Nat.one_le_iff_ne_zero,
        h₀]
    have hlimit : nameLimit segmentCode = kV21FileNamePayloadBytes := if_neg h₀
    rw [if_pos hmode, hlimit, truncateName_eq kMaxOriginalFileNameBytes]
    split
    next hl =>
      have hlt : kV21FileNamePayloadBytes < (cutBack kMaxOriginalFileNameBytes
          (encode (baseName fileName))).length :=
        lt_length_cutBack _ (by decide) hl.le
      have hlong : kV21FileNamePayloadBytes < (encode (baseName fileName)).length :=
        Nat.lt_trans (by decide) hl
      rw [truncateName_eq, truncateName_eq, if_pos hlt, if_pos hlong,
        cutBack_cutBack _ (by decide) hl.le]
    next => rfl

theorem truncateName_longest_iff (chars : List Char) {limit : Nat} (h₀ : 0 < limit) :
    (∃ kept, LongestFit limit chars kept ∧ truncateName limit (encode chars) = encode kept) ↔
      (encode chars).length ≤ limit ∨ ((encode chars).getD (limit - 1) 0).toNat < 128 := by
  rw [truncateName_eq]
  split
  next hl => rw [cutBack_longest_iff chars h₀ hl, or_iff_right (not_le.mpr hl)]
  next hl => exact iff_of_true ⟨chars, .whole (not_lt.mp hl), rfl⟩ (.inl (not_lt.mp hl))

/-- The normalised name is the longest front of whole characters exactly when the base name fits or
its last octet within the limit is an ASCII character. -/
theorem normalize_longest_iff (fileName : List Char) (segmentCode : Nat)
    (hv : ValidCode segmentCode) :
    LongestName fileName segmentCode
        (normalizeFileNameForSegmentCode (encode fileName) segmentCode) ↔
      (encode (baseName fileName)).length ≤ nameLimit segmentCode ∨
        ((encode (baseName fileName)).getD (nameLimit segmentCode - 1) 0).toNat < 128 := by
  rw [LongestName, normalizeFileNameForSegmentCode_encode fileName hv]
  apply truncateName_longest_iff
  rw [nameLimit]
  split
  · decide
  · decide

/-- `reports/a.txt` keeps its base name in a segmented object. -/
theorem normalize_longest_iff_report :
    LongestName "reports/a.txt".toList 1
        (normalizeFileNameForSegmentCode (encode "reports/a.txt".toList) 1) ↔
      (encode (baseName "reports/a.txt".toList)).length ≤ nameLimit 1 ∨
        ((encode (baseName "reports/a.txt".toList)).getD (nameLimit 1 - 1) 0).toNat < 128 :=
  normalize_longest_iff "reports/a.txt".toList 1 (by decide)

/-- 127 times `a`, then the two octets of `é`: the first of them stays at the end of the name. -/
theorem lead_octet_left :
    ¬ LongestName (List.replicate 127 'a' ++ ['é']) 0
      (normalizeFileNameForSegmentCode (encode (List.replicate 127 'a' ++ ['é'])) 0) := by
  rw [LongestName, normalizeFileNameForSegmentCode_encode _ (by decide),
    truncateName_longest_iff _ (by decide)]
  decide +kernel

end TwelveC.FileNames
