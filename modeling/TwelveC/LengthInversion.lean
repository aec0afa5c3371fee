import TwelveC.Payload

/-!
# Plaintext lengths from ciphertext lengths

The search finds the one number of records that fits, and a ciphertext length
that no plaintext has makes it throw.
-/

namespace TwelveC.Payload

open Segment

/-- The search throws where no number of records fits. -/
theorem paddedLengthSearch_error {M : Machine} (hM : ∀ n, M.size n = n) {L s : Nat} (hs : 0 < s)
    (first n : Nat)
    (hnone : ∀ k, first ≤ k → k < first + n → ¬ (28 * k ≤ L ∧ (L - 28 * k + s - 1) / s = k)) :
    paddedLengthSearch M L s (List.range' first n) =
      .error (.runtimeError "V2.1 ciphertext length does not match segment_code") := by
  induction n generalizing first with
  | zero => rfl
  | succ n ih =>
    rw [List.range'_succ, paddedLengthSearch, paddedLengthFor_eq hM L s first hs, ok_bind,
      if_neg (hnone first le_rfl (by omega))]
    apply ih
    intro k hk hlt
    exact hnone k (by omega) (by omega)

/-- A number of records that fits is that of the plaintext that is left. -/
theorem cipherLength_of_fits {L code k : Nat} (hcode : code ≠ 0) (hk : 1 ≤ k)
    (hfits : 28 * k ≤ L ∧ (L - 28 * k + segmentBytes code - 1) / segmentBytes code = k) :
    1 ≤ L - 28 * k ∧ cipherLength (L - 28 * k) code = L := by
  have hs := segmentBytes_pos code
  have hcount : recordCount (L - 28 * k) code = k := by
    rw [recordCount, if_neg hcode]
    exact hfits.2
  refine ⟨?_, ?_⟩
  · by_contra hzero
    have hlt : (L - 28 * k + segmentBytes code - 1) / segmentBytes code = 0 :=
      Nat.div_eq_of_lt (by omega)
    omega
  · rw [cipherLength, hcount]
    omega

theorem paddedLength_error {M : Machine} (hM : ∀ n, M.size n = n) {L code : Nat}
    (hv : ValidCode code) (hnone : ∀ P, code = 0 ∨ 1 ≤ P → cipherLength P code ≠ L) :
    ∃ what, paddedPlaintextLengthFromCiphertext M L code = .error (.runtimeError what) := by
  rw [paddedPlaintextLengthFromCiphertext]
  by_cases h₀ : code = 0
  · subst h₀
    have hshort : L < kGcmEnvelopeBytes := by
      by_contra hge
      rw [kGcmEnvelopeBytes_eq] at hge
      apply hnone (L - 28) (.inl rfl)
      rw [cipherLength, recordCount_zero_code]
      omega
    rw [if_pos (show isV2WholeFileMode 0 = true from rfl), throwIf_pos hshort]
    exact ⟨_, rfl⟩
  · have hw : ¬ isV2WholeFileMode code = true := by
      simp [isV2WholeFileMode, kV2SegmentCodeWholeFile, h₀]
    rw [if_neg hw, decode_ok code (by omega) hv, ok_bind,
      segmentCount_ok M _ 1 (by omega) hM, ok_bind]
    refine ⟨_, paddedLengthSearch_error hM (segmentBytes_pos code) 1 _ ?_⟩
    intro k hk _ hfits
    obtain ⟨hpos, himage⟩ := cipherLength_of_fits h₀ hk hfits
    exact hnone _ (.inr hpos) himage

/-- A padded length that is returned is that of the one plaintext of this ciphertext length. -/
theorem paddedLength_inv {M : Machine} (hM : ∀ n, M.size n = n) {L P code : Nat}
    (h : paddedPlaintextLengthFromCiphertext M L code = .ok P) :
    ValidCode code ∧ (code = 0 ∨ 1 ≤ P) ∧ cipherLength P code = L := by
  have hv : ValidCode code := by
    by_cases h₀ : code = 0
    · subst h₀
      exact Nat.zero_le _
    · have hw : ¬ isV2WholeFileMode code = true := by
        simp [isV2WholeFileMode, kV2SegmentCodeWholeFile, h₀]
      rw [paddedPlaintextLengthFromCiphertext, if_neg hw, bind_eq_ok] at h
      obtain ⟨size, hsize, -⟩ := h
      obtain ⟨_, hcode, -⟩ := bind_eq_ok.mp hsize
      exact (validate_ok code).mp hcode
  by_cases hsome : ∃ P', (code = 0 ∨ 1 ≤ P') ∧ cipherLength P' code = L
  · obtain ⟨P', hpos, rfl⟩ := hsome
    rw [paddedLength_of_cipherLength hM P' code hv hpos] at h
    obtain rfl := Except.ok.inj h
    exact ⟨hv, hpos, rfl⟩
  · obtain ⟨what, herror⟩ := paddedLength_error hM hv fun P' hpos himage =>
      hsome ⟨P', hpos, himage⟩
    simp [herror] at h

/-- The length of a plaintext that the sender encrypts: a segmented one is not empty. -/
def Encryptable (length code : Nat) : Prop := code = 0 ∨ 1 ≤ length

/-- Lengths are recovered, and impossible ones are refused. -/
theorem length_inversion (code : Nat) (hv : ValidCode code) :
    (∀ P, Encryptable P code → ∃ L, ciphertextLengthFromPlaintext Machine.exact P code = .ok L ∧
      paddedPlaintextLengthFromCiphertext Machine.exact L code = .ok P) ∧
    ∀ L, (∀ P, Encryptable P code → ciphertextLengthFromPlaintext Machine.exact P code ≠ .ok L) →
      ∃ what, paddedPlaintextLengthFromCiphertext Machine.exact L code =
        .error (.runtimeError what) := by
  constructor
  · intro P hP
    exact ⟨_, ciphertextLength_ok _ P code hv exact_size,
      paddedLength_of_cipherLength exact_size P code hv hP⟩
  · intro L hnone
    apply paddedLength_error exact_size hv
    intro P hP himage
    apply hnone P hP
    rw [ciphertextLength_ok _ P code hv exact_size, himage]

/-- A record more than a full segment of 16 MiB needs at least 29 octets. -/
theorem length_inversion_boundary :
    ∃ what, paddedPlaintextLengthFromCiphertext Machine.exact (16777216 + 28 + 28) 1 =
      .error (.runtimeError what) := by
  apply (length_inversion 1 (by decide)).2
  intro P _ himage
  rw [ciphertextLength_ok _ P 1 (by decide) exact_size] at himage
  have hL : cipherLength P 1 = 16777216 + 28 + 28 := Except.ok.inj himage
  have hs : segmentBytes 1 = 16777216 := rfl
  rw [cipherLength, recordCount, if_neg (by decide), hs] at hL
  omega

end TwelveC.Payload
