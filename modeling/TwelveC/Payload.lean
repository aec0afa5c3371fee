import TwelveC.Crypto
import TwelveC.Segment
import TwelveC.Lib.Cut
import Mathlib.Data.List.Forall2

/-!
# Payload records

The padded plaintext is sealed whole (`segment_code` 0) or segment by segment;
the ciphertext is the concatenation of the records. The receiver recovers the
padded length from the ciphertext length alone and opens record after record.
-/

namespace TwelveC.Payload

open Segment Crypto Lib.Cut

variable (M : Machine) (C : Primitives)

def encryptPayloadV2WholeFile (kFek plaintextPadded : Bytes) : RandM Bytes :=
  encrypt C kFek plaintextPadded

/-- The blocks of `cut` are the chunks that the offset loop visits. -/
def encryptPayloadV21Segmented (kFek plaintextPadded : Bytes) (segmentCode : Nat) :
    RandM Bytes := do
  let segmentPlaintextBytes ← decodeSegmentPlaintextBytesV21 segmentCode
  let packs ← (cut segmentPlaintextBytes plaintextPadded).mapM (encrypt C kFek)
  let expected ← ciphertextLengthFromPlaintextV21 M plaintextPadded.length segmentCode
  throwIf (packs.flatten.length ≠ expected)
    (.runtimeError "V2.1 segmented ciphertext length mismatch")
  return packs.flatten

def encryptPayloadForSegmentCode (kFek plaintextPadded : Bytes) (segmentCode : Nat) :
    RandM Bytes :=
  if isV2WholeFileMode segmentCode then encryptPayloadV2WholeFile C kFek plaintextPadded
  else encryptPayloadV21Segmented M C kFek plaintextPadded segmentCode

/-- The body of the search loop: the padded length for a guessed number of records. -/
def paddedLengthFor (ciphertextLength segmentPlaintextBytes segmentCount : Nat) :
    Except Exn (Option Nat) := do
  let envelopeTotal := M.size (segmentCount * kGcmEnvelopeBytes)
  if ciphertextLength < envelopeTotal then return none
  else
    let count ← segmentCountV21 M (ciphertextLength - envelopeTotal) segmentPlaintextBytes
    return if count = segmentCount then some (ciphertextLength - envelopeTotal) else none

/-- The search loop over the numbers of records still to be tried. -/
def paddedLengthSearch (ciphertextLength segmentPlaintextBytes : Nat) :
    List Nat → Except Exn Nat
  | [] => .error (.runtimeError "V2.1 ciphertext length does not match segment_code")
  | segmentCount :: rest => do
    match ← paddedLengthFor M ciphertextLength segmentPlaintextBytes segmentCount with
    | some length => return length
    | none => paddedLengthSearch ciphertextLength segmentPlaintextBytes rest

def paddedPlaintextLengthFromCiphertext (ciphertextLength segmentCode : Nat) :
    Except Exn Nat := do
  if isV2WholeFileMode segmentCode then
    throwIf (ciphertextLength < kGcmEnvelopeBytes)
      (.runtimeError "V2 ciphertext shorter than envelope")
    return ciphertextLength - kGcmEnvelopeBytes
  else
    let segmentPlaintextBytes ← decodeSegmentPlaintextBytesV21 segmentCode
    let maxSegments ← segmentCountV21 M ciphertextLength 1
    paddedLengthSearch M ciphertextLength segmentPlaintextBytes (List.range' 1 maxSegments)

def decryptPayloadV2WholeFile (kFek ciphertextPacked : Bytes) (paddedPlaintextLength : Nat) :
    Except Exn Bytes := do
  let plaintext ← decrypt C kFek ciphertextPacked
  throwIf (plaintext.length ≠ paddedPlaintextLength)
    (.runtimeError "V2 decrypted plaintext length mismatch")
  return plaintext

/-- The `while (remaining_plaintext > 0)` loop on the ciphertext from `stream_offset` on. Every
round takes at least one octet off `remaining_plaintext`, which serves as fuel. -/
def decryptSegments (kFek : Bytes) (segmentPlaintextBytes : Nat) :
    Nat → Nat → Bytes → Except Exn Bytes
  | _, 0, stream => do
    throwIf (stream ≠ []) (.runtimeError "V2.1 ciphertext stream has trailing bytes")
    return []
  | 0, _ + 1, _ => .error .stuck
  | fuel + 1, remaining + 1, stream => do
    throwIf (stream = []) (.runtimeError "V2.1 ciphertext stream ended early")
    let segmentPlainLength := min segmentPlaintextBytes (remaining + 1)
    let segmentPackLength := segmentPlainLength + kGcmEnvelopeBytes
    throwIf (stream.length < segmentPackLength) (.runtimeError "V2.1 segment pack truncated")
    let segmentPlain ← decrypt C kFek (stream.take segmentPackLength)
    throwIf (segmentPlain.length ≠ segmentPlainLength)
      (.runtimeError "V2.1 decrypted segment length mismatch")
    let rest ← decryptSegments kFek segmentPlaintextBytes fuel
      (remaining + 1 - segmentPlainLength) (stream.drop segmentPackLength)
    return segmentPlain ++ rest

def decryptPayloadV21Segmented (kFek ciphertextStream : Bytes) (segmentCode : Nat)
    (paddedPlaintextLength : Nat) : Except Exn Bytes := do
  let segmentPlaintextBytes ← decodeSegmentPlaintextBytesV21 segmentCode
  decryptSegments C kFek segmentPlaintextBytes paddedPlaintextLength paddedPlaintextLength
    ciphertextStream

section RoundTrip

variable {C} {M} {kFek plaintext stream tape tape' : Bytes} {segmentCode : Nat}

theorem segmentBytes_lt (code : Nat) (h : ValidCode code) : segmentBytes code < 2 ^ 31 := by
  have hp : 2 ^ (code + 3) ≤ 2 ^ 8 :=
    Nat.pow_le_pow_right (by decide) (by have : code ≤ 5 := h; omega)
  simp only [segmentBytes]
  omega

/-- Every chunk has its record. -/
theorem mapM_encrypt_sealed (chunks packs : List Bytes)
    (h : chunks.mapM (encrypt C kFek) tape = .ok (packs, tape')) :
    List.Forall₂ (Sealed C kFek) chunks packs := by
  induction chunks generalizing tape packs with
  | nil =>
    simp only [List.mapM_nil, rand_pure_eq_ok, Prod.mk.injEq] at h
    rw [h.1]
    exact .nil
  | cons chunk chunks ih =>
    simp only [List.mapM_cons, rand_bind_eq_ok, rand_pure_eq_ok, Prod.mk.injEq] at h
    obtain ⟨pack, t₁, henc, rest, t₂, hrest, rfl, rfl⟩ := h
    exact .cons (sealed_of_encrypt henc) (ih rest hrest)

theorem segmented_eq_ok (hv : ValidCode segmentCode) (h₁ : 1 ≤ segmentCode)
    (h : encryptPayloadV21Segmented M C kFek plaintext segmentCode tape = .ok (stream, tape')) :
    ∃ packs, (cut (segmentBytes segmentCode) plaintext).mapM (encrypt C kFek) tape =
      .ok (packs, tape') ∧ stream = packs.flatten := by
  simp only [encryptPayloadV21Segmented, decode_ok _ h₁ hv, rand_bind_eq_ok, rand_lift_eq_ok,
    rand_pure_eq_ok] at h
  obtain ⟨_, _, ⟨hs, rfl⟩, packs, t₁, hpacks, _, _, ⟨-, rfl⟩, -, _, ⟨-, rfl⟩, hr⟩ := h
  obtain ⟨rfl, rfl⟩ := Prod.mk.inj hr
  rw [Except.ok.inj hs]
  exact ⟨packs, hpacks, rfl⟩

/-- Records of the right total length are the payload. -/
theorem encryptPayload_of_packs (hM : ∀ n, M.size n = n) (hv : ValidCode segmentCode)
    (hcode : segmentCode ≠ 0) {packs : List Bytes}
    (hpacks : (cut (segmentBytes segmentCode) plaintext).mapM (encrypt C kFek) tape =
      .ok (packs, tape'))
    (hlength : packs.flatten.length = cipherLength plaintext.length segmentCode) :
    encryptPayloadForSegmentCode M C kFek plaintext segmentCode tape = .ok (packs.flatten, tape') := by
  have hw : ¬ isV2WholeFileMode segmentCode = true := by
    simpa [isV2WholeFileMode, kV2SegmentCodeWholeFile] using hcode
  have hexpected := ciphertextLength_ok M plaintext.length segmentCode hv hM
  rw [ciphertextLengthFromPlaintext, if_neg hw] at hexpected
  rw [encryptPayloadForSegmentCode, if_neg hw]
  simp only [encryptPayloadV21Segmented, decode_ok _ (Nat.pos_of_ne_zero hcode) hv, rand_bind_eq_ok,
    rand_lift_eq_ok, rand_pure_eq_ok, throwIf_eq_ok]
  exact ⟨_, _, ⟨rfl, rfl⟩, packs, tape', hpacks, _, _, ⟨hexpected, rfl⟩, (), _,
    ⟨not_not.mpr hlength, rfl⟩, rfl⟩

/-- The receiving loop inverts the sending loop. -/
theorem decryptSegments_ok (hC : C.Laws) {s : Nat} (hs : 0 < s) (hlt : s < 2 ^ 31)
    (packs : List Bytes) (h : List.Forall₂ (Sealed C kFek) (cut s plaintext) packs) (fuel : Nat)
    (hf : plaintext.length ≤ fuel) :
    decryptSegments C kFek s fuel plaintext.length packs.flatten = .ok plaintext := by
  induction plaintext using cut_induction hs generalizing packs fuel with
  | nil =>
    rw [cut_nil, List.forall₂_nil_left_iff] at h
    subst h
    cases fuel <;> simp [decryptSegments, throwIf]
  | step l hl ih =>
    rw [cut_of_ne_nil hs hl, List.forall₂_cons_left_iff] at h
    obtain ⟨pack, rest, hpack, hrest, rfl⟩ := h
    have hpos := List.length_pos_of_ne_nil hl
    obtain ⟨n, hn⟩ : ∃ n, l.length = n + 1 := ⟨l.length - 1, by omega⟩
    obtain ⟨f, rfl⟩ : ∃ f, fuel = f + 1 := ⟨fuel - 1, by omega⟩
    have hmin : (l.take s).length = min s (n + 1) := by rw [List.length_take, hn]
    have hlen := hpack.length hC (by omega)
    have hdec := hpack.decrypt hC hlen
    have hdrop : (l.drop s).length = n + 1 - min s (n + 1) := by
      rw [List.length_drop, hn]
      omega
    have hih := ih rest hrest f (by omega)
    rw [hn, List.flatten_cons, decryptSegments]
    rw [hdrop] at hih
    rw [hmin] at hlen
    have htake : (pack ++ rest.flatten).take (min s (n + 1) + kGcmEnvelopeBytes) = pack := by
      rw [kGcmEnvelopeBytes_eq, ← hlen, List.take_left]
    have hrest' : (pack ++ rest.flatten).drop (min s (n + 1) + kGcmEnvelopeBytes) =
        rest.flatten := by
      rw [kGcmEnvelopeBytes_eq, ← hlen, List.drop_left]
    have hne : ¬ pack ++ rest.flatten = [] := by
      intro h₀
      rw [(List.append_eq_nil_iff.mp h₀).1] at hlen
      simp at hlen
    have hge : ¬ (pack ++ rest.flatten).length < min s (n + 1) + kGcmEnvelopeBytes := by
      rw [List.length_append, hlen, kGcmEnvelopeBytes_eq]
      omega
    rw [throwIf_neg hne, ok_bind]
    dsimp only
    rw [throwIf_neg hge, ok_bind, htake, hrest', hdec, ok_bind, throwIf_neg (by simp [hmin]), ok_bind,
      hih, ok_bind, pure_eq_ok, List.take_append_drop]

end RoundTrip

section Length

variable {M} (hM : ∀ n, M.size n = n)

include hM

theorem paddedLengthFor_eq (L s k : Nat) (hs : 0 < s) :
    paddedLengthFor M L s k =
      .ok (if 28 * k ≤ L ∧ (L - 28 * k + s - 1) / s = k then some (L - 28 * k) else none) := by
  rw [paddedLengthFor]
  simp only [hM, kGcmEnvelopeBytes_eq, Nat.mul_comm k 28]
  by_cases hlt : L < 28 * k
  · rw [if_pos hlt, if_neg (by omega)]
    rfl
  · rw [if_neg hlt, segmentCount_ok M _ s hs hM, ok_bind, pure_eq_ok]
    by_cases hk : (L - 28 * k + s - 1) / s = k
    · rw [if_pos hk, if_pos ⟨by omega, hk⟩]
    · rw [if_neg hk, if_neg fun h => hk h.2]

/-- The first count that fits is taken. -/
theorem paddedLengthSearch_ok (L s first n : Nat) (hs : 0 < s) (k : Nat) (h₁ : first ≤ k)
    (h₂ : k < first + n) (hk : 28 * k ≤ L ∧ (L - 28 * k + s - 1) / s = k)
    (hbefore : ∀ j, first ≤ j → j < k → ¬ (28 * j ≤ L ∧ (L - 28 * j + s - 1) / s = j)) :
    paddedLengthSearch M L s (List.range' first n) = .ok (L - 28 * k) := by
  induction n generalizing first with
  | zero => omega
  | succ n ih =>
    rw [List.range'_succ, paddedLengthSearch, paddedLengthFor_eq hM L s first hs, ok_bind]
    by_cases hf : first = k
    · subst hf
      rw [if_pos hk]
      rfl
    · rw [if_neg (hbefore first le_rfl (by omega))]
      exact ih (first + 1) (by omega) (by omega) fun j hj => hbefore j (by omega)

/-- The length search recovers every padded length the sender can produce. -/
theorem paddedLength_of_cipherLength (P code : Nat) (hv : ValidCode code)
    (hP : code = 0 ∨ 0 < P) :
    paddedPlaintextLengthFromCiphertext M (cipherLength P code) code = .ok P := by
  rw [paddedPlaintextLengthFromCiphertext]
  by_cases h₀ : code = 0
  · subst h₀
    rw [if_pos (show isV2WholeFileMode 0 = true from rfl), throwIf_neg (by simp [cipherLength, recordCount]), ok_bind]
    simp [cipherLength, recordCount]
  · have hw : ¬ isV2WholeFileMode code = true := by
      simp [isV2WholeFileMode, kV2SegmentCodeWholeFile, h₀]
    have hs := segmentBytes_pos code
    have hcount : recordCount P code = (P + segmentBytes code - 1) / segmentBytes code := by
      rw [recordCount, if_neg h₀]
    have hL : cipherLength P code = P + 28 * recordCount P code := rfl
    rw [if_neg hw, decode_ok code (by omega) hv, ok_bind, segmentCount_ok M _ 1 (by omega) hM,
      ok_bind, Nat.div_one, Nat.add_sub_cancel]
    have hpos : 1 ≤ recordCount P code := by
      rw [hcount]
      exact (Nat.le_div_iff_mul_le hs).mpr (by omega)
    rw [paddedLengthSearch_ok hM _ (segmentBytes code) 1 _ hs (recordCount P code) hpos (by omega)]
    · rw [hL, Nat.add_sub_cancel]
    · rw [hL, Nat.add_sub_cancel]
      exact ⟨by omega, hcount.symm⟩
    · rintro j - hlt ⟨-, hj⟩
      -- with fewer envelopes taken off, the plaintext would be longer and need no fewer records
      have hmono := recordCount_mono code (show P ≤ cipherLength P code - 28 * j by omega)
      rw [recordCount.eq_def (cipherLength P code - 28 * j), if_neg h₀, hj] at hmono
      omega

end Length

end TwelveC.Payload
