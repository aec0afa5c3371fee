import TwelveC.WireLayout
import Mathlib.Tactic.Linarith

/-!
# What a returned layout guarantees

On the native build a layout that `compute_wire_layout` returns is exact: the
32-bit casts lose nothing, and the blocks hold the encrypted SMB and the
ciphertext with nothing left over.
-/

namespace TwelveC

open Segment WireLayout

/-- The equations between a layout's fields. -/
structure SoundLayout (plaintextLength segmentCode : Nat) (layout : WireLayout) : Prop where
  code : ValidCode segmentCode
  ciphertext : layout.ciphertextLength =
    cipherLength (plaintextLength + layout.plaintextPadding) segmentCode
  fills : layout.numTokens * layout.wireBlockSize = 373 + layout.ciphertextLength
  tokens : 1 ≤ layout.numTokens
  block : 373 ≤ layout.wireBlockSize
  last : 373 + layout.lastBlockLength = layout.wireBlockSize
  tokens_lt : layout.numTokens < 2 ^ 32
  block_lt : layout.wireBlockSize < 2 ^ 32

namespace LayoutSound

variable {M : Machine} {P Q code W limit fuel p : Nat} {layout : WireLayout}

/-- The leading blocks and the last one partition the ciphertext. -/
theorem leading_add_last (h : SoundLayout P code layout) :
    (layout.numTokens - 1) * layout.wireBlockSize + layout.lastBlockLength =
      layout.ciphertextLength := by
  obtain ⟨n, hn⟩ : ∃ n, layout.numTokens = n + 1 := ⟨layout.numTokens - 1, by have := h.tokens; omega⟩
  have hf := h.fills
  have hl := h.last
  rw [hn, Nat.add_mul, Nat.one_mul] at hf
  rw [hn, Nat.add_sub_cancel]
  omega

theorem ciphertext_lt (h : SoundLayout P code layout) : layout.ciphertextLength < 2 ^ 64 := by
  have hf := h.fills
  have hm : layout.numTokens * layout.wireBlockSize ≤ 2 ^ 32 * 2 ^ 32 :=
    Nat.mul_le_mul h.tokens_lt.le h.block_lt.le
  omega

theorem padded_le (h : SoundLayout P code layout) :
    P + layout.plaintextPadding ≤ layout.ciphertextLength := by
  rw [h.ciphertext]
  exact Nat.le_add_right _ _

/-- A quotient cut to 32 bits cannot satisfy the token 0 equation. -/
theorem fills_of_sizeSub {m B C : Nat} (hm : 1 ≤ m) (hm' : m < 2 ^ 32) (hB : B < 2 ^ 32)
    (h : 373 + Machine.native.sizeSub C ((m - 1) * B) = B) : m * B = 373 + C := by
  obtain ⟨n, rfl⟩ : ∃ n, m = n + 1 := ⟨m - 1, by omega⟩
  rw [Nat.add_sub_cancel] at h
  rw [Nat.add_mul, Nat.one_mul]
  rcases Nat.lt_or_ge C (n * B) with hlt | hge
  · rw [native_sizeSub_gt hlt] at h
    have hprod : n * B ≤ (2 ^ 32 - 2) * (2 ^ 32 - 1) := Nat.mul_le_mul (by omega) (by omega)
    norm_num at hprod
    omega
  · rw [native_sizeSub_le hge] at h
    omega

theorem layoutExact_sound (hv : ValidCode code) (p : Nat)
    (h : computeWireLayoutExact Machine.native (P + p) code W = .ok layout) :
    SoundLayout P code { layout with plaintextPadding := p } := by
  simp only [computeWireLayoutExact, ciphertextLength_ok _ (P + p) code hv native_size, ok_bind,
    smEncSize, kSmEncBytes_eq, native_size, native_u32, bind_eq_ok, throwIf_eq_ok, pure_eq_ok,
    Except.ok.injEq] at h
  obtain ⟨m, hm, -, hm₀, -, -, -, hB, -, -, -, -, -, hlast, rfl⟩ := h
  have hlt : (373 + cipherLength (P + p) code) / m % 2 ^ 32 < 2 ^ 32 := Nat.mod_lt _ (by decide)
  generalize (373 + cipherLength (P + p) code) / m % 2 ^ 32 = B at *
  have hm₁ : m < 2 ^ 32 := by
    simp only [chooseNumTokens, bind_eq_ok, native_u32, native_size] at hm
    obtain ⟨maxM, -, minM, -, hm⟩ := hm
    by_cases hc : maxM < minM
    · simp [hc] at hm
    · rw [if_neg hc] at hm
      split at hm
      · rw [pure_eq_ok, Except.ok.injEq] at hm
        rw [← hm]
        exact Nat.mod_lt _ (by decide)
      · split at hm
        · rw [pure_eq_ok, Except.ok.injEq] at hm
          rw [← hm]
          exact Nat.mod_lt _ (by decide)
        · simp at hm
  have hlast' : 373 + Machine.native.sizeSub (cipherLength (P + p) code) ((m - 1) * B) = B := by
    omega
  have hpos : 1 ≤ m := Nat.pos_of_ne_zero hm₀
  exact ⟨hv, rfl, fills_of_sizeSub hpos hm₁ hlt hlast', hpos, not_lt.mp hB, hlast', hm₁, hlt⟩

/-- A returned layout was chosen at some padding within the limit. -/
theorem paddingSearch_ok (h : paddingSearch M P code W limit fuel p = .ok layout) :
    ∃ q l, q ≤ limit ∧ computeWireLayoutExact M (M.size (P + q)) code W = .ok l ∧
      layout = { l with plaintextPadding := q } := by
  induction fuel generalizing p with
  | zero => simp [paddingSearch] at h
  | succ fuel ih =>
    rw [paddingSearch] at h
    split at h
    next hle =>
      cases hx : computeWireLayoutExact M (M.size (P + p)) code W with
      | ok l =>
        rw [hx] at h
        exact ⟨p, l, hle, hx, (Except.ok.inj h).symm⟩
      | error e =>
        rw [hx] at h
        dsimp only at h
        split at h
        · obtain ⟨step, -, h⟩ := bind_eq_ok.mp h
          split at h
          · simp at h
          · exact ih h
        · simp at h
    next => simp at h

theorem computeWireLayout_ok (h : computeWireLayout M P code W = .ok layout) :
    ValidCode code ∧ AcceptedBlockBytes W ∧
      ∃ q l, q ≤ maxPlaintextPaddingForLayout W ∧
        computeWireLayoutExact M (M.size (P + q)) code W = .ok l ∧
        layout = { l with plaintextPadding := q } := by
  simp only [computeWireLayout, bind_eq_ok] at h
  obtain ⟨_, hv, _, hw, h⟩ := h
  exact ⟨(validate_ok code).mp hv, (validateMaxWireBlockBytes_ok W).mp hw, paddingSearch_ok h⟩

theorem computeWireLayout_sound (h : computeWireLayout Machine.native P code W = .ok layout) :
    SoundLayout P code layout := by
  obtain ⟨hv, -, q, l, -, hl, rfl⟩ := computeWireLayout_ok h
  rw [native_size] at hl
  exact layoutExact_sound hv q hl

end LayoutSound
end TwelveC
