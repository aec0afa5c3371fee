import TwelveC.Types
import Mathlib.Tactic.Ring

/-!
# Segment codes and ciphertext lengths

`segment_code` 0 seals the padded plaintext as one GCM record; codes 1 to 5 cut
it into segments of 16 MiB to 256 MiB, one record each. A record is 28 octets
longer than what it seals.
-/

namespace TwelveC.Segment

open TwelveC

variable (M : Machine)

def ceilDiv (numerator denominator : Nat) : Except Exn Nat :=
  if denominator = 0 then
    .error (.logicError "ceil_div denominator must be greater than zero")
  else .ok (M.size (numerator + denominator - 1) / denominator)

def isV2WholeFileMode (segmentCode : Nat) : Bool := segmentCode == kV2SegmentCodeWholeFile

def isV21SegmentedMode (segmentCode : Nat) : Bool :=
  kV21SegmentCodeMin ≤ segmentCode && segmentCode ≤ kV21SegmentCodeMax

def validateSegmentCodeV21 (segmentCode : Nat) : Except Exn Unit :=
  if isV2WholeFileMode segmentCode then .ok ()
  else if !isV21SegmentedMode segmentCode then .error (.runtimeError "unsupported segment_code")
  else .ok ()

def decodeSegmentPlaintextBytesV21 (segmentCode : Nat) : Except Exn Nat := do
  validateSegmentCodeV21 segmentCode
  throwIf (isV2WholeFileMode segmentCode)
    (.logicError "decode_segment_plaintext_bytes_v21 requires V2.1 code")
  return 2 ^ (segmentCode - 1 + 4) * 1024 * 1024

def segmentCountV21 (paddedPlaintextLength segmentPlaintextBytes : Nat) : Except Exn Nat :=
  if segmentPlaintextBytes = 0 then
    .error (.logicError "segment_plaintext_bytes must be greater than zero")
  else ceilDiv M paddedPlaintextLength segmentPlaintextBytes

def ciphertextLengthFromPlaintextV2 (paddedPlaintextLength : Nat) : Nat :=
  M.size (paddedPlaintextLength + kGcmEnvelopeBytes)

def ciphertextLengthFromPlaintextV21 (paddedPlaintextLength segmentCode : Nat) :
    Except Exn Nat := do
  let segmentPlaintextBytes ← decodeSegmentPlaintextBytesV21 segmentCode
  let count ← segmentCountV21 M paddedPlaintextLength segmentPlaintextBytes
  return M.size (paddedPlaintextLength + M.size (count * kGcmEnvelopeBytes))

def ciphertextLengthFromPlaintext (paddedPlaintextLength segmentCode : Nat) : Except Exn Nat :=
  if isV2WholeFileMode segmentCode then
    .ok (ciphertextLengthFromPlaintextV2 M paddedPlaintextLength)
  else ciphertextLengthFromPlaintextV21 M paddedPlaintextLength segmentCode

/-- The codes that `validate_segment_code_v21` lets through. -/
def ValidCode (segmentCode : Nat) : Prop := segmentCode ≤ kV21SegmentCodeMax

instance (segmentCode : Nat) : Decidable (ValidCode segmentCode) :=
  inferInstanceAs (Decidable (_ ≤ _))

/-- Plaintext octets of one full segment; used for codes 1 to 5. -/
def segmentBytes (segmentCode : Nat) : Nat := 2 ^ (segmentCode + 3) * 1024 * 1024

/-- Number of GCM records that a padded plaintext of `length` octets becomes. -/
def recordCount (length segmentCode : Nat) : Nat :=
  if segmentCode = 0 then 1 else (length + segmentBytes segmentCode - 1) / segmentBytes segmentCode

/-- Exact ciphertext length. -/
def cipherLength (length segmentCode : Nat) : Nat := length + 28 * recordCount length segmentCode

theorem validate_ok (code : Nat) : validateSegmentCodeV21 code = .ok () ↔ ValidCode code := by
  simp only [validateSegmentCodeV21, isV2WholeFileMode, isV21SegmentedMode, ValidCode,
    kV2SegmentCodeWholeFile, kV21SegmentCodeMin, kV21SegmentCodeMax]
  by_cases h0 : code = 0
  · simp [h0]
  · by_cases h5 : code ≤ 5
    · simp [h0, h5, show 1 ≤ code by omega]
    · simp [h0, h5]

theorem segmentBytes_ge (code : Nat) (h : 1 ≤ code) : 16 * 1024 * 1024 ≤ segmentBytes code := by
  have hp : 2 ^ 4 ≤ 2 ^ (code + 3) := Nat.pow_le_pow_right (by decide) (by omega)
  simp only [segmentBytes]
  omega

theorem segmentBytes_pos (code : Nat) : 0 < segmentBytes code := by
  have hp : 0 < 2 ^ (code + 3) := Nat.pow_pos (by decide)
  simp only [segmentBytes]
  omega

theorem decode_ok (code : Nat) (h : 1 ≤ code) (h5 : code ≤ 5) :
    decodeSegmentPlaintextBytesV21 code = .ok (segmentBytes code) := by
  have hv : validateSegmentCodeV21 code = .ok () := (validate_ok code).mpr h5
  have h0 : isV2WholeFileMode code = false := by
    simp [isV2WholeFileMode, kV2SegmentCodeWholeFile]; omega
  have he : code - 1 + 4 = code + 3 := by omega
  simp [decodeSegmentPlaintextBytesV21, hv, h0, throwIf, segmentBytes, he]

theorem ceilDiv_ok (a b : Nat) (h : 0 < b) (hM : ∀ n, M.size n = n) :
    ceilDiv M a b = .ok ((a + b - 1) / b) := by
  have h0 : b ≠ 0 := by omega
  simp only [ceilDiv, h0, if_false, hM]

theorem segmentCount_ok (length size : Nat) (h : 0 < size) (hM : ∀ n, M.size n = n) :
    segmentCountV21 M length size = .ok ((length + size - 1) / size) := by
  have h0 : size ≠ 0 := by omega
  simp only [segmentCountV21, h0, if_false, ceilDiv_ok M length size h hM]

/-- On a machine whose `size_t` does not wrap, the code computes the exact length. -/
theorem ciphertextLength_ok (length code : Nat) (h : ValidCode code) (hM : ∀ n, M.size n = n) :
    ciphertextLengthFromPlaintext M length code = .ok (cipherLength length code) := by
  by_cases h0 : code = 0
  · subst h0
    simp [ciphertextLengthFromPlaintext, isV2WholeFileMode, kV2SegmentCodeWholeFile,
      ciphertextLengthFromPlaintextV2, hM, cipherLength, recordCount]
  · have hw : isV2WholeFileMode code = false := by
      simp [isV2WholeFileMode, kV2SegmentCodeWholeFile, h0]
    have hd := decode_ok code (by omega) h
    have hc := segmentCount_ok M length _ (segmentBytes_pos code) hM
    simp [ciphertextLengthFromPlaintext, hw, ciphertextLengthFromPlaintextV21, hd, hc,
      cipherLength, recordCount, h0, hM, Nat.mul_comm]

theorem recordCount_zero_code (length : Nat) : recordCount length 0 = 1 := rfl

theorem recordCount_mono (code : Nat) {a b : Nat} (h : a ≤ b) :
    recordCount a code ≤ recordCount b code := by
  simp only [recordCount]
  split
  · omega
  · exact Nat.div_le_div_right (by omega)

/-- Each record beyond the first new one needs a full segment of further plaintext. -/
theorem recordCount_add_lt (a p code j : Nat)
    (h : recordCount a code + j < recordCount (a + p) code) : j * segmentBytes code < p := by
  simp only [recordCount] at h
  split at h
  · omega
  · have hs := segmentBytes_pos code
    generalize segmentBytes code = s at *
    have h1 : a + s - 1 < s * ((a + s - 1) / s + 1) := Nat.lt_mul_div_succ _ hs
    have h2 : s * ((a + s - 1) / s + j + 1) ≤ a + p + s - 1 :=
      (Nat.mul_le_mul_left s h).trans (Nat.mul_div_le _ s)
    rw [Nat.mul_comm j s]
    simp only [Nat.mul_add] at h1 h2
    omega

end TwelveC.Segment
