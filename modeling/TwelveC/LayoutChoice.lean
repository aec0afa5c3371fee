import TwelveC.LayoutSound
import TwelveC.PaddingSearch

/-!
# What the search returns

Below `373 * 2 ^ 32` octets the casts to 32 bits lose nothing, so the native
search is the exact one: it ends, and a layout that it returns was chosen at a
padding within the limit, with the least token count that divides the total into
blocks of an allowed size.
-/

namespace TwelveC.LayoutChoice

open Segment WireLayout PaddingSearch

variable {P Q code W m limit fuel p : Nat} {layout : WireLayout}

theorem chooseNumTokens_least {T C S a b : Nat} (ha : maxTokenCount T S W = .ok a)
    (hb : minTokenCount Machine.exact T C a W = .ok b)
    (h : chooseNumTokens Machine.exact T C S W = .ok m) :
    m ≤ a ∧ IsLeast {n | b ≤ n ∧ fits T W n = true} m := by
  obtain ⟨e, he, -⟩ | ⟨m', hm', hleast⟩ := chooseNumTokens_exact ha hb
  · simp [he] at h
  · obtain rfl : m' = m := Except.ok.inj (hm'.symm.trans h)
    exact hleast

theorem total_mono (code : Nat) {a b : Nat} (h : a ≤ b) : total a code ≤ total b code := by
  have := recordCount_mono code h
  rw [total, total, cipherLength, cipherLength]
  omega

theorem minTokenCount_native (T C a W : Nat) :
    minTokenCount Machine.native T C a W = minTokenCount Machine.exact T C a W := by
  simp only [minTokenCount, ceilDiv, native_size, exact_size]

theorem ciphertextLength_native (Q code : Nat) :
    ciphertextLengthFromPlaintext Machine.native Q code =
      ciphertextLengthFromPlaintext Machine.exact Q code := by
  simp only [ciphertextLengthFromPlaintext, ciphertextLengthFromPlaintextV2,
    ciphertextLengthFromPlaintextV21, segmentCountV21, ceilDiv, native_size, exact_size]

theorem nextLayoutPadding_native (Q S code W : Nat) :
    nextLayoutPadding Machine.native Q S code W = nextLayoutPadding Machine.exact Q S code W := by
  simp only [nextLayoutPadding, ciphertextLength_native, minTokenCount_native, native_size,
    exact_size]

theorem chooseNumTokens_native {T C S a : Nat} (ha : maxTokenCount T S W = .ok a)
    (hlt : a < 2 ^ 32) :
    chooseNumTokens Machine.native T C S W = chooseNumTokens Machine.exact T C S W := by
  rw [chooseNumTokens, chooseNumTokens, ha, ok_bind, ok_bind, minTokenCount_native]
  have hcast : ∀ first last c, firstFit T W first last = some c → last ≤ a →
      Machine.native.u32 c = Machine.exact.u32 c := by
    intro first last c hc hlast
    have := (firstFit_some T W _ _ c hc).2.1
    rw [native_u32, exact_u32, Nat.mod_eq_of_lt (by omega)]
  have hend : ∀ b, preferredEnd Machine.native b a = preferredEnd Machine.exact b a := by
    intro b
    rw [preferredEnd, preferredEnd, native_size, exact_size]
  cases minTokenCount Machine.exact T C a W with
  | error e => rfl
  | ok b =>
    rw [ok_bind, ok_bind]
    split
    · rfl
    · rw [hend, native_size, exact_size]
      cases h₁ : firstFit T W b (preferredEnd Machine.exact b a) with
      | some c => simp only [hcast _ _ c h₁ (Nat.min_le_right _ _)]
      | none =>
        cases h₂ : firstFit T W (preferredEnd Machine.exact b a + 1) a with
        | some c => simp only [hcast _ _ c h₂ le_rfl]
        | none => rfl

theorem layoutExact_native (hc : ValidCode code) (hW : AcceptedBlockBytes W)
    (hT : total Q code < 373 * 2 ^ 32) :
    computeWireLayoutExact Machine.native Q code W =
      computeWireLayoutExact Machine.exact Q code W := by
  obtain ⟨hW₁, hW₂⟩ := (acceptedBlockBytes_iff W).mp hW
  have hge := total_ge Q code
  have hC : 373 + cipherLength Q code = total Q code := rfl
  have hmax := maxTokenCount_eq (total Q code) W hge
  have hhi := hi_mul_le (total Q code) W _ hge le_rfl
  have hmin := minTokenCount_eq (total Q code) W (by omega)
  rw [← hC, Nat.add_sub_cancel_left, hC] at hmin
  rw [computeWireLayoutExact, computeWireLayoutExact, ciphertextLength_native,
    ciphertextLength_ok _ Q code hc exact_size, ok_bind, ok_bind]
  simp only [smEncSize, kSmEncBytes_eq, native_size, exact_size, hC]
  rw [chooseNumTokens_native hmax (by omega)]
  cases hm : chooseNumTokens Machine.exact (total Q code) (cipherLength Q code) 373 W with
  | error e => rfl
  | ok m =>
    obtain ⟨hle, ⟨hlo, hfits⟩, -⟩ := chooseNumTokens_least hmax hmin hm
    have hpos : 0 < m := (one_le_lo _ W).trans hlo
    obtain ⟨hdvd, -, hB⟩ := (fits_iff _ _ _).mp hfits
    have hmul := Nat.mul_div_cancel' (Nat.dvd_of_mod_eq_zero hdvd)
    have hmT := hi_mul_le _ W m hge hle
    generalize total Q code = T at *
    generalize cipherLength Q code = C at *
    have hcast : Machine.native.u32 (T / m) = T / m := by
      rw [native_u32, Nat.mod_eq_of_lt (by omega)]
    have hlead : (m - 1) * (T / m) ≤ C := by
      rw [Nat.sub_mul, hmul, Nat.one_mul]
      have : 373 ≤ T / m := (Nat.le_div_iff_mul_le hpos).mpr (by rwa [Nat.mul_comm])
      omega
    rw [ok_bind, ok_bind]
    simp only [hcast, exact_u32, native_sizeSub_le hlead, exact_sizeSub]

theorem paddingSearch_native (hc : ValidCode code) (hW : AcceptedBlockBytes W)
    (hT : total (P + limit) code < 373 * 2 ^ 32) :
    paddingSearch Machine.native P code W limit fuel p =
      paddingSearch Machine.exact P code W limit fuel p := by
  induction fuel generalizing p with
  | zero => rfl
  | succ fuel ih =>
    rw [paddingSearch, paddingSearch]
    simp only [native_size, exact_size, nextLayoutPadding_native]
    by_cases hle : p ≤ limit
    · have hmono := total_mono code (Nat.add_le_add_left hle P)
      rw [if_pos hle, if_pos hle, layoutExact_native hc hW (hmono.trans_lt hT)]
      simp only [ih]
    · rw [if_neg hle, if_neg hle]

theorem computeWireLayout_native
    (hT : total (P + maxPlaintextPaddingForLayout W) code < 373 * 2 ^ 32) :
    computeWireLayout Machine.native P code W = computeWireLayout Machine.exact P code W := by
  rw [computeWireLayout, computeWireLayout]
  cases hv : validateSegmentCodeV21 code with
  | error e => rw [error_bind, error_bind]
  | ok _ =>
    rw [ok_bind, ok_bind]
    cases hw : validateMaxWireBlockBytes W with
    | error e => rw [error_bind, error_bind]
    | ok _ =>
      rw [ok_bind, ok_bind]
      exact paddingSearch_native ((validate_ok code).mp hv) ((validateMaxWireBlockBytes_ok W).mp hw) hT

/-- The layout uses padding within the limit and the least token count that fits. -/
structure ChosenLayout (plaintextLength segmentCode maxWireBlockBytes : Nat) (layout : WireLayout) :
    Prop where
  padding : layout.plaintextPadding ≤ maxPlaintextPaddingForLayout maxWireBlockBytes
  ciphertext : layout.ciphertextLength =
    cipherLength (plaintextLength + layout.plaintextPadding) segmentCode
  fills : layout.numTokens * layout.wireBlockSize = 373 + layout.ciphertextLength
  floor : 373 ≤ layout.wireBlockSize
  cap : layout.wireBlockSize ≤ maxWireBlockBytes
  share : min maxWireBlockBytes ((373 + layout.ciphertextLength) / 8) ≤ layout.wireBlockSize
  last : layout.lastBlockLength = layout.wireBlockSize - 373
  rest : layout.lastBlockLength =
    layout.ciphertextLength - (layout.numTokens - 1) * layout.wireBlockSize
  least : ∃ maxTokens minTokens,
    maxTokenCount (373 + layout.ciphertextLength) 373 maxWireBlockBytes = .ok maxTokens ∧
    minTokenCount Machine.native (373 + layout.ciphertextLength) layout.ciphertextLength maxTokens
      maxWireBlockBytes = .ok minTokens ∧
    IsLeast {n | minTokens ≤ n ∧
      fits (373 + layout.ciphertextLength) maxWireBlockBytes n = true} layout.numTokens

/-- A layout at a padded length `Q`, by its token count. -/
structure LayoutAt (Q code W : Nat) (layout : WireLayout) : Prop where
  tokens_le : layout.numTokens ≤ hi (total Q code) W
  least : IsLeast {n | lo (total Q code) W ≤ n ∧ fits (total Q code) W n = true} layout.numTokens
  ciphertext : layout.ciphertextLength = cipherLength Q code
  block : layout.wireBlockSize = total Q code / layout.numTokens
  last : layout.lastBlockLength =
    layout.ciphertextLength - (layout.numTokens - 1) * layout.wireBlockSize
  token0 : 373 + layout.lastBlockLength = layout.wireBlockSize

theorem layoutAt_of_exact (hc : ValidCode code) (hW : 0 < W)
    (h : computeWireLayoutExact Machine.exact Q code W = .ok layout) :
    LayoutAt Q code W layout := by
  have hC : 373 + cipherLength Q code = total Q code := rfl
  have hmax := maxTokenCount_eq (total Q code) W (total_ge Q code)
  have hmin := minTokenCount_eq (total Q code) W hW
  rw [← hC, Nat.add_sub_cancel_left, hC] at hmin
  simp only [computeWireLayoutExact, ciphertextLength_ok _ Q code hc exact_size, ok_bind,
    smEncSize, kSmEncBytes_eq, exact_size, exact_u32, exact_sizeSub, hC, bind_eq_ok,
    throwIf_eq_ok, pure_eq_ok, Except.ok.injEq] at h
  obtain ⟨m, hm, -, -, -, -, -, -, -, -, -, -, -, hlast, rfl⟩ := h
  obtain ⟨hle, hleast⟩ := chooseNumTokens_least hmax hmin hm
  exact ⟨hle, hleast, rfl, rfl, rfl, not_not.mp hlast⟩

namespace LayoutAt

theorem pos (h : LayoutAt Q code W layout) : 0 < layout.numTokens :=
  (one_le_lo _ W).trans h.least.1.1

theorem dvd (h : LayoutAt Q code W layout) : layout.numTokens ∣ total Q code :=
  Nat.dvd_of_mod_eq_zero ((fits_iff _ _ _).mp h.least.1.2).1

theorem fills (h : LayoutAt Q code W layout) :
    layout.numTokens * layout.wireBlockSize = total Q code := by
  rw [h.block, Nat.mul_div_cancel' h.dvd]

end LayoutAt

theorem LayoutAt.chosen (h : LayoutAt (P + p) code W layout) (hW : 0 < W)
    (hp : p ≤ maxPlaintextPaddingForLayout W) :
    ChosenLayout P code W { layout with plaintextPadding := p } := by
  obtain ⟨-, hshare, hcap⟩ := (fits_iff _ _ _).mp h.least.1.2
  have hT : 373 + layout.ciphertextLength = total (P + p) code := by
    rw [h.ciphertext, total]
  have hmax := maxTokenCount_eq (total (P + p) code) W (total_ge _ _)
  have hmin := minTokenCount_eq (total (P + p) code) W hW
  have htoken := h.token0
  refine ⟨hp, h.ciphertext, ?_, ?_, ?_, ?_, ?_, h.last, ?_⟩
  · rw [hT]
    exact h.fills
  · exact Nat.le_of_add_right_le htoken.le
  · dsimp only
    rw [h.block]
    exact hcap
  · dsimp only
    rw [hT, h.block]
    exact hshare
  · dsimp only
    omega
  · dsimp only
    rw [hT]
    refine ⟨_, _, hmax, ?_, h.least⟩
    rw [minTokenCount_native, h.ciphertext, ← hmin, total, Nat.add_sub_cancel_left]

/-- The search ends, with a layout or with the error of a failed search, and a returned layout is a
sound choice. -/
theorem computeWireLayout_chosen (P code W : Nat) (hc : ValidCode code) (hW : AcceptedBlockBytes W)
    (hT : 373 + cipherLength (P + maxPlaintextPaddingForLayout W) code < 373 * 2 ^ 32) :
    ((∃ layout, computeWireLayout Machine.native P code W = .ok layout) ∨
      computeWireLayout Machine.native P code W = .error searchFailed) ∧
    ∀ layout, computeWireLayout Machine.native P code W = .ok layout →
      ChosenLayout P code W layout := by
  rw [computeWireLayout_native hT]
  constructor
  · obtain ⟨hfound, hnone⟩ := computeWireLayout_spec (P := P) hc hW
    rcases Classical.em (Found P code W (maxPlaintextPaddingForLayout W) 0) with h | h
    · exact .inl (hfound h)
    · exact .inr (hnone h)
  · intro layout h
    obtain ⟨-, -, q, l, hq, hl, rfl⟩ := LayoutSound.computeWireLayout_ok h
    rw [exact_size] at hl
    have hpos : 0 < W := Nat.lt_of_lt_of_le (by decide) ((acceptedBlockBytes_iff W).mp hW).1
    exact (layoutAt_of_exact hc hpos hl).chosen hpos hq

/-- Three blocks, once an octet is prefixed. -/
def paddedLayout : WireLayout :=
  { numTokens := 3, wireBlockSize := 434, ciphertextLength := 929, totalWireBytes := 1302,
    lastBlockLength := 61, plaintextPadding := 1 }

theorem computeWireLayout_chosen_small :
    computeWireLayout Machine.native 900 1 500 = .ok paddedLayout ∧
      ChosenLayout 900 1 500 paddedLayout := by
  have hlayout : computeWireLayout Machine.native 900 1 500 = .ok paddedLayout := by decide +kernel
  exact ⟨hlayout, (computeWireLayout_chosen 900 1 500 (by decide) (by decide) (by decide)).2 _ hlayout⟩

end TwelveC.LayoutChoice
