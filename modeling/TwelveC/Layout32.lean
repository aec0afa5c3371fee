import TwelveC.LayoutChoice
import Mathlib.Logic.Function.Iterate

/-!
# The layout on the WebAssembly build

With a 32-bit `size_t` a layout is always consistent with the ciphertext length
that was computed for it; that length is wrong where the sum behind it wrapped.
Below the last full segment nothing wraps. Beyond it the record count becomes
zero, and the search returns a layout as soon as it meets a multiple of the
block size.
-/

namespace TwelveC.Layout32

open Segment WireLayout PaddingSearch LayoutChoice Lib.Align

variable {P Q code W T C S a b m n limit fuel p : Nat} {layout : WireLayout}

theorem wasm32_sizeSub {x y : Nat} (hx : x < 2 ^ 32) (h : y ≤ x) :
    Machine.wasm32.sizeSub x y = x - y := by
  have hsub : Machine.wasm32.sizeSub x y = (x + (2 ^ 32 - y)) % 2 ^ 32 := rfl
  rw [hsub]
  omega

theorem wasm32_u32 (x : Nat) : Machine.wasm32.u32 x = x % 2 ^ 32 := rfl

theorem wasm32_ceilDiv {x y : Nat} (hy : 0 < y) :
    ceilDiv .wasm32 x y = .ok ((x + y - 1) % 2 ^ 32 / y) := by
  rw [ceilDiv, if_neg (by omega), wasm32_size_eq]

/-- The ciphertext length that the build computes. -/
def cipherLength32 (n code : Nat) : Nat :=
  if code = 0 then (n + 28) % 2 ^ 32
  else if n + segmentBytes code ≤ 2 ^ 32 then cipherLength n code else n

theorem recordCount_le {code : Nat} (h₀ : code ≠ 0) (hn : n < 2 ^ 32) : recordCount n code ≤ 256 := by
  have hs := segmentBytes_ge code (by omega)
  rw [recordCount, if_neg h₀]
  generalize segmentBytes code = s at *
  exact Nat.le_of_lt_succ (Nat.div_lt_of_lt_mul (by omega))

theorem segmentBytes_le {code : Nat} (hv : ValidCode code) : segmentBytes code ≤ 256 * 1024 * 1024 := by
  have h₅ : code ≤ 5 := hv
  have hpow : 2 ^ (code + 3) ≤ 2 ^ 8 := Nat.pow_le_pow_right (by decide) (by omega)
  rw [segmentBytes]
  omega

theorem ciphertextLength_wasm32 (hv : ValidCode code) (hn : n < 2 ^ 32) :
    ciphertextLengthFromPlaintext .wasm32 n code = .ok (cipherLength32 n code) := by
  rw [cipherLength32, ciphertextLengthFromPlaintext]
  by_cases h₀ : code = 0
  · rw [if_pos (by simp [isV2WholeFileMode, kV2SegmentCodeWholeFile, h₀]), if_pos h₀,
      ciphertextLengthFromPlaintextV2, wasm32_size_eq, kGcmEnvelopeBytes_eq]
  · have hs := segmentBytes_ge code (by omega)
    have hs' := segmentBytes_le hv
    have hle := recordCount_le h₀ hn
    rw [recordCount, if_neg h₀] at hle
    rw [if_neg (by simp [isV2WholeFileMode, kV2SegmentCodeWholeFile, h₀]), if_neg h₀,
      ciphertextLengthFromPlaintextV21, decode_ok code (by omega) hv, ok_bind, segmentCountV21,
      if_neg (by omega), wasm32_ceilDiv (by omega), ok_bind, wasm32_size_eq, wasm32_size_eq,
      kGcmEnvelopeBytes_eq, pure_eq_ok, cipherLength, recordCount, if_neg h₀]
    generalize segmentBytes code = s at *
    split
    next hfits =>
      rw [Nat.mod_eq_of_lt (show n + s - 1 < 2 ^ 32 by omega)]
      generalize (n + s - 1) / s = k at *
      congr 1
      omega
    next hwrap =>
      have hzero : (n + s - 1) % 2 ^ 32 / s = 0 := Nat.div_eq_of_lt (by omega)
      rw [hzero]
      congr 1
      omega

theorem cipherLength32_lt (hn : n < 2 ^ 32) : cipherLength32 n code < 2 ^ 32 := by
  rw [cipherLength32]
  split
  · exact Nat.mod_lt _ (by decide)
  next h₀ =>
    have hs := segmentBytes_ge code (by omega)
    have hle := recordCount_le h₀ hn
    rw [cipherLength]
    split <;> omega

theorem chooseNumTokens_wasm32 (ha : maxTokenCount T S W = .ok a)
    (hb : minTokenCount .wasm32 T C a W = .ok b) (hlt : a < 2 ^ 31) (hlt' : b < 2 ^ 31) :
    (∃ e, chooseNumTokens .wasm32 T C S W = .error e ∧ e.isLogicError = true ∧
      ∀ c, b ≤ c → c ≤ a → fits T W c = false) ∨
    ∃ m, chooseNumTokens .wasm32 T C S W = .ok m ∧ m ≤ a ∧
      IsLeast {n | b ≤ n ∧ fits T W n = true} m := by
  have hend : preferredEnd .wasm32 b a = min (b + 256) a := by
    rw [preferredEnd, kMaxTokenAdjust, wasm32_size (by omega)]
  apply chooseNumTokens_cases ha hb
  · rw [hend]
    omega
  · rw [hend, wasm32_size (by omega)]
  · intro c hc
    rw [wasm32_u32, Nat.mod_eq_of_lt (by omega)]

/-- The checks behind `choose_num_tokens` pass for a candidate that fits. -/
theorem layoutExact_pick (hC : ciphertextLengthFromPlaintext .wasm32 Q code = .ok C)
    (hT : 373 + C < 2 ^ 32) (hm : chooseNumTokens .wasm32 (373 + C) C 373 W = .ok m)
    (hfit : fits (373 + C) W m = true) (hpos : 0 < m) (hfloor : m * 373 ≤ 373 + C) :
    ∃ l, computeWireLayoutExact .wasm32 Q code W = .ok l := by
  obtain ⟨hdvd, hge, hle⟩ := (fits_iff _ _ _).mp hfit
  have hmul := Nat.mul_div_cancel' (Nat.dvd_of_mod_eq_zero hdvd)
  have hB : 373 ≤ (373 + C) / m := (Nat.le_div_iff_mul_le hpos).mpr (by rwa [Nat.mul_comm])
  have hBT := Nat.div_le_self (373 + C) m
  have hlead : (m - 1) * ((373 + C) / m) = 373 + C - (373 + C) / m := by
    rw [Nat.sub_mul, hmul, Nat.one_mul]
  rw [computeWireLayoutExact, hC, ok_bind]
  simp only [smEncSize, kSmEncBytes_eq, wasm32_size hT, hm, ok_bind]
  generalize (373 + C) / m = B at *
  have hcast : Machine.wasm32.u32 B = B := by
    rw [wasm32_u32, Nat.mod_eq_of_lt (by omega)]
  rw [throwIf_neg (by omega), ok_bind, throwIf_neg (by omega), ok_bind]
  simp only [hcast, hlead]
  rw [wasm32_size (show 373 + C - B < 2 ^ 32 by omega),
    wasm32_sizeSub (show C < 2 ^ 32 by omega) (show 373 + C - B ≤ C by omega),
    wasm32_size (show 373 + (C - (373 + C - B)) < 2 ^ 32 by omega), throwIf_neg (by omega), ok_bind, throwIf_neg (by omega), ok_bind, throwIf_neg (by omega),
    ok_bind, throwIf_neg (by omega), ok_bind]
  exact ⟨_, rfl⟩

theorem layoutExact_error (hC : ciphertextLengthFromPlaintext .wasm32 Q code = .ok C)
    (hT : 373 + C < 2 ^ 32) {e : Exn} (he : chooseNumTokens .wasm32 (373 + C) C 373 W = .error e) :
    computeWireLayoutExact .wasm32 Q code W = .error e := by
  rw [computeWireLayoutExact, hC, ok_bind]
  simp only [smEncSize, kSmEncBytes_eq, wasm32_size hT, he, error_bind]

/-- A total that wrapped is below the encrypted SMB. -/
theorem maxTokenCount_wrapped (hC : C < 2 ^ 32) (hT : 2 ^ 32 ≤ 373 + C) :
    ∃ what, maxTokenCount (Machine.wasm32.size (373 + C)) 373 W = .error (.logicError what) := by
  rw [maxTokenCount, wasm32_size_eq, if_pos (by omega)]
  exact ⟨_, rfl⟩

/-- Whatever length was computed, the blocks of a returned layout hold it. -/
theorem layoutExact_consistent (hC : ciphertextLengthFromPlaintext .wasm32 Q code = .ok C)
    (hlt : C < 2 ^ 32) (h : computeWireLayoutExact .wasm32 Q code W = .ok layout) :
    layout.ciphertextLength = C ∧
      layout.numTokens * layout.wireBlockSize = 373 + layout.ciphertextLength ∧
      layout.lastBlockLength + 373 = layout.wireBlockSize := by
  have hT : 373 + C < 2 ^ 32 := by
    by_contra hover
    obtain ⟨what, hwhat⟩ := maxTokenCount_wrapped (W := W) hlt (not_lt.mp hover)
    rw [computeWireLayoutExact, hC, ok_bind] at h
    simp only [smEncSize, kSmEncBytes_eq] at h
    rw [chooseNumTokens, hwhat] at h
    simp at h
  simp only [computeWireLayoutExact, hC, ok_bind, smEncSize, kSmEncBytes_eq, wasm32_size hT,
    bind_eq_ok, throwIf_eq_ok, pure_eq_ok, Except.ok.injEq] at h
  obtain ⟨m, -, -, hm, -, hdvd, -, hfloor, -, -, -, -, -, -, rfl⟩ := h
  have hmul := Nat.mul_div_cancel' (Nat.dvd_of_mod_eq_zero (not_not.mp hdvd))
  have hBT := Nat.div_le_self (373 + C) m
  have hlead : (m - 1) * ((373 + C) / m) = 373 + C - (373 + C) / m := by
    rw [Nat.sub_mul, hmul, Nat.one_mul]
  have hcast : Machine.wasm32.u32 ((373 + C) / m) = (373 + C) / m := by
    rw [wasm32_u32, Nat.mod_eq_of_lt (by omega)]
  rw [hcast] at hfloor
  simp only [hcast, hlead]
  generalize (373 + C) / m = B at *
  rw [wasm32_size (show 373 + C - B < 2 ^ 32 by omega),
    wasm32_sizeSub hlt (show 373 + C - B ≤ C by omega)]
  exact ⟨trivial, hmul, by omega⟩

/-- Only full blocks are large enough. -/
theorem fits_large (hW : 0 < W) (hT : 8 * W ≤ T) : fits T W m = true ↔ T = m * W := by
  have hmin : minWireBlockSize T W = W := by
    rw [minWireBlockSize, kMinBlockSizeDivisor]
    omega
  rw [fits_iff, hmin]
  constructor
  · rintro ⟨hdvd, hge, hle⟩
    have hmul := Nat.mul_div_cancel' (Nat.dvd_of_mod_eq_zero hdvd)
    rw [le_antisymm hle hge] at hmul
    exact hmul.symm
  · rintro rfl
    have hm : 0 < m := by
      by_contra h₀
      obtain rfl : m = 0 := by omega
      omega
    rw [Nat.mul_mod_right, Nat.mul_div_cancel_left _ hm]
    exact ⟨rfl, le_rfl, le_rfl⟩

/-- The reference bound as the build computes it: zero where its ceiling wraps. -/
@[irreducible] def refTokens (T : Nat) : Nat :=
  (T - 373 + kWireBlockRef - 1) % 2 ^ 32 / kWireBlockRef

/-- The lower bound where the ceiling over the block size wraps: what is left is the reference bound,
unless it is out of reach. -/
@[irreducible] def tailStart (T W : Nat) : Nat :=
  if refTokens T ≤ T / W then max 1 (refTokens T) else 1

/-- The distance to the next multiple of the first candidate that does not divide the total. -/
def tailStep (T W : Nat) : Nat :=
  let candidates := List.range' (tailStart T W) (T / W + 1 - tailStart T W)
  (candidates.find? fun c => !decide (c ∣ T)).elim 1 (gap T)

theorem one_le_tailStart (T W : Nat) : 1 ≤ tailStart T W := by
  rw [tailStart]
  split <;> omega

theorem tailStart_le (hW : 0 < W) (hT : W ≤ T) : tailStart T W ≤ T / W := by
  have hone : 1 ≤ T / W := (Nat.le_div_iff_mul_le hW).mpr (by omega)
  rw [tailStart]
  split <;> omega

theorem minTokenCount_large (hW : 373 ≤ W) (hT : 8 * W ≤ T) (hlt : T < 2 ^ 32) :
    minTokenCount .wasm32 T (T - 373) (T / W) W =
      .ok (if T + W ≤ 2 ^ 32 then (T + W - 1) / W else tailStart T W) := by
  have hr : 0 < kWireBlockRef := by simp [kWireBlockRef]
  rw [minTokenCount, wasm32_ceilDiv (by omega), wasm32_ceilDiv hr, ok_bind, ok_bind, pure_eq_ok,
    tailStart, ← refTokens]
  by_cases hin : T + W ≤ 2 ^ 32
  · have hge : T / W ≤ (T + W - 1) / W := Nat.div_le_div_right (by omega)
    have hone : 1 ≤ T / W := (Nat.le_div_iff_mul_le (by omega)).mpr (by omega)
    rw [Nat.mod_eq_of_lt (by omega), if_pos hin]
    congr 1
    split <;> omega
  · have hzero : (T + W - 1) % 2 ^ 32 / W = 0 := Nat.div_eq_of_lt (by omega)
    rw [hzero, if_neg hin]
    congr 1

theorem paddingCandidates_eq {minBlock : Nat} {candidates : List Nat}
    (h : ∀ c ∈ candidates, T % c = 0 → ¬ (minBlock ≤ T / c ∧ T / c ≤ W)) :
    paddingCandidates T minBlock W candidates =
      match candidates.find? (fun c => !decide (c ∣ T)) with
      | some c => c - T % c
      | none => 1 := by
  induction candidates with
  | nil => rfl
  | cons c rest ih =>
    have hrest := ih fun d hd => h d (List.mem_cons_of_mem _ hd)
    rw [paddingCandidates, List.find?_cons]
    by_cases hc : T % c = 0
    · have hdvd : c ∣ T := Nat.dvd_of_mod_eq_zero hc
      simp [hc, hdvd, h c List.mem_cons_self hc, hrest]
    · have hdvd : ¬ c ∣ T := fun hd => hc (Nat.mod_eq_zero_of_dvd hd)
      simp [hc, hdvd]

/-- The candidate loop stops at the first candidate that does not divide. -/
theorem paddingCandidates_tail {minBlock : Nat}
    (h : ∀ c, T % c = 0 → ¬ (minBlock ≤ T / c ∧ T / c ≤ W)) :
    paddingCandidates T minBlock W
      (List.range' (tailStart T W) (T / W + 1 - tailStart T W)) = tailStep T W := by
  rw [paddingCandidates_eq fun c _ => h c, tailStep]
  cases hc : (List.range' (tailStart T W) (T / W + 1 - tailStart T W)).find?
      (fun c => !decide (c ∣ T)) with
  | none => rfl
  | some c =>
    have hndvd := List.find?_some hc
    have hmem := List.mem_of_find?_eq_some hc
    rw [List.mem_range'_1] at hmem
    have hone := one_le_tailStart T W
    simp [gap_of_not_dvd T c (by omega) (by simpa using hndvd)]

/-- The step of the search at a total that is no multiple of the block size. -/
def largeStep (T W : Nat) : Nat := if T + W ≤ 2 ^ 32 then gap T W else tailStep T W

theorem lowerBound_lt (hW : 373 ≤ W) (hT : 8 * W ≤ T) (hlt : T < 2 ^ 32) :
    (if T + W ≤ 2 ^ 32 then (T + W - 1) / W else tailStart T W) < 2 ^ 31 := by
  have htail := tailStart_le (by omega) (show W ≤ T by omega)
  have hdiv := Nat.div_le_div_right (c := W) (show T ≤ T + W - 1 by omega)
  have hceil : (T + W - 1) / W < 2 ^ 31 := Nat.div_lt_of_lt_mul (by omega)
  split <;> omega

/-- A round at a multiple of the block size returns, any other round pads on. -/
theorem layoutExact_large (hC : ciphertextLengthFromPlaintext .wasm32 Q code = .ok C)
    (hW : 373 ≤ W) (hT : 8 * W ≤ 373 + C) (hlt : 373 + C < 2 ^ 32) :
    (W ∣ 373 + C → ∃ l, computeWireLayoutExact .wasm32 Q code W = .ok l) ∧
    (¬ W ∣ 373 + C → ∃ e, computeWireLayoutExact .wasm32 Q code W = .error e ∧
      e.isLogicError = true) := by
  have hmax := maxTokenCount_eq (373 + C) W (Nat.le_add_right _ _)
  rw [hi_large _ W hW hT] at hmax
  have hmin := minTokenCount_large hW hT hlt
  rw [Nat.add_sub_cancel_left] at hmin
  have ha : (373 + C) / W < 2 ^ 31 := Nat.div_lt_of_lt_mul (by omega)
  have hchoose := chooseNumTokens_wasm32 hmax hmin ha (lowerBound_lt hW hT hlt)
  constructor
  · intro hd
    have hmul := Nat.div_mul_cancel hd
    have hfull : fits (373 + C) W ((373 + C) / W) = true :=
      (fits_large (by omega) hT).mpr hmul.symm
    have hlow : (if 373 + C + W ≤ 2 ^ 32 then (373 + C + W - 1) / W else tailStart (373 + C) W) ≤
        (373 + C) / W := by
      split
      · apply Nat.le_of_lt_succ
        apply Nat.div_lt_of_lt_mul
        rw [Nat.mul_succ, Nat.mul_comm]
        omega
      · exact tailStart_le (by omega) (by omega)
    rcases hchoose with ⟨e, -, -, hnone⟩ | ⟨m, hm, -, ⟨-, hfit⟩, -⟩
    · have := hnone _ hlow le_rfl
      simp [hfull] at this
    · have hmW := (fits_large (by omega) hT).mp hfit
      have hpos : 0 < m := by
        by_contra h₀
        obtain rfl : m = 0 := by omega
        omega
      apply layoutExact_pick hC hlt hm hfit hpos
      rw [hmW]
      exact Nat.mul_le_mul_left m hW
  · intro hd
    rcases hchoose with ⟨e, he, hlog, -⟩ | ⟨m, -, -, ⟨-, hfit⟩, -⟩
    · exact ⟨e, layoutExact_error hC hlt he, hlog⟩
    · exact absurd (Dvd.intro_left m ((fits_large (by omega) hT).mp hfit).symm) hd

theorem nextLayoutPadding_large (hC : ciphertextLengthFromPlaintext .wasm32 Q code = .ok C)
    (hW : 373 ≤ W) (hT : 8 * W ≤ 373 + C) (hlt : 373 + C < 2 ^ 32) (hd : ¬ W ∣ 373 + C) :
    nextLayoutPadding .wasm32 Q 373 code W = .ok (largeStep (373 + C) W) := by
  have hmax := maxTokenCount_eq (373 + C) W (Nat.le_add_right _ _)
  rw [hi_large _ W hW hT] at hmax
  have hmin := minTokenCount_large hW hT hlt
  rw [Nat.add_sub_cancel_left] at hmin
  rw [nextLayoutPadding, hC, ok_bind, wasm32_size hlt]
  dsimp only
  rw [hmax, ok_bind, hmin, ok_bind, largeStep]
  generalize 373 + C = T at *
  by_cases hin : T + W ≤ 2 ^ 32
  · have hge := ceil_mul_ge T W (by omega)
    have hlow := ceil_mul_lt T W (by omega) (by omega)
    have hgap := gap_of_between T W _ (by omega) hlow hge
    have hempty : T / W < (T + W - 1) / W := by
      by_contra hle
      have h₁ := Nat.mul_le_mul_left W (not_lt.mp hle)
      have h₂ := Nat.mul_div_le T W
      exact hd ⟨_, le_antisymm hge (h₁.trans h₂)⟩
    have hne : T ≠ W * ((T + W - 1) / W) := fun h => hd ⟨_, h⟩
    have hend := Nat.mul_div_le (T + W - 1) W
    rw [if_pos hin, if_pos hin, if_pos hempty, hgap, Nat.mul_comm,
      wasm32_size (show W * ((T + W - 1) / W) < 2 ^ 32 by omega), if_pos (by omega), pure_eq_ok]
  · have hstart := tailStart_le (by omega) (show W ≤ T by omega)
    rw [if_neg hin, if_neg hin, if_neg (Nat.not_lt.mpr hstart), pure_eq_ok, paddingCandidates_tail]
    rintro c hc ⟨hge, hle⟩
    have hfit := (fits_iff T W c).mpr ⟨hc, hge, hle⟩
    exact hd (Dvd.intro_left c ((fits_large (by omega) hT).mp hfit).symm)

/-- Some number up to 373 does not divide a 32-bit total. -/
theorem exists_not_dvd (h₀ : 0 < T) (hlt : T < 2 ^ 32) : ∃ c, 1 ≤ c ∧ c < 373 ∧ ¬ c ∣ T := by
  by_contra hall
  have hdvd : ∀ c, 1 ≤ c → c < 373 → c ∣ T := by
    intro c h₁ h₂
    by_contra hnd
    exact hall ⟨c, h₁, h₂, hnd⟩
  have hlcm : Nat.lcm (Nat.lcm 349 353) (Nat.lcm 359 367) ∣ T := by
    apply Nat.lcm_dvd <;> apply Nat.lcm_dvd <;> apply hdvd <;> decide
  have hval : Nat.lcm (Nat.lcm 349 353) (Nat.lcm 359 367) = 16231574341 := by decide +kernel
  rw [hval] at hlcm
  have := Nat.le_of_dvd h₀ hlcm
  omega

theorem tailStep_pos : 0 < tailStep T W := by
  rw [tailStep]
  cases hc : (List.range' (tailStart T W) (T / W + 1 - tailStart T W)).find?
      (fun c => !decide (c ∣ T)) with
  | none => exact Nat.one_pos
  | some c =>
    have hndvd := List.find?_some hc
    have hmem := List.mem_of_find?_eq_some hc
    rw [List.mem_range'_1] at hmem
    have hone := one_le_tailStart T W
    exact gap_pos T c (by omega) (by simpa using hndvd)

/-- A tail step does not jump over the totals that the search refuses. -/
theorem add_tailStep_lt (hW : 373 ≤ W) (hlt : T < 2 ^ 32) (hT : 8 * W ≤ T) (hout : 2 ^ 32 < T + W) :
    T + tailStep T W < 2 ^ 32 + 373 := by
  rw [tailStep]
  cases hc : (List.range' (tailStart T W) (T / W + 1 - tailStart T W)).find?
      (fun c => !decide (c ∣ T)) with
  | none => simp only [Option.elim_none]; omega
  | some c =>
    rw [List.find?_range'_eq_some, List.mem_range'_1] at hc
    obtain ⟨-, hmem, hbefore⟩ := hc
    have hone := one_le_tailStart T W
    have hgap := gap_lt T c (by omega)
    simp only [Option.elim_some]
    by_cases href : refTokens T = 0
    · obtain ⟨d, h₁, h₂, hnd⟩ := exists_not_dvd (by omega) hlt
      have hstart : tailStart T W = 1 := by
        rw [tailStart, href]
        simp
      have hcd : c ≤ d := by
        by_contra hdc
        have := hbefore d (by omega) (by omega)
        simp [hnd] at this
      omega
    · -- the ceiling over the reference block did not wrap, so a whole reference block is left
      have hr : kWireBlockRef = 4 * 1024 * 1024 := rfl
      have hleft : T ≤ 2 ^ 32 - kWireBlockRef + 373 := by
        by_contra hmore
        apply href
        rw [refTokens, hr]
        apply Nat.div_eq_of_lt
        omega
      have hfew : T / W < 1100 := Nat.div_lt_of_lt_mul (by omega)
      have hle := tailStart_le (by omega) (show W ≤ T by omega)
      omega

theorem add_largeStep_lt (hW : 373 ≤ W) (hlt : T < 2 ^ 32) (hT : 8 * W ≤ T) :
    T + largeStep T W < 2 ^ 32 + 373 := by
  rw [largeStep]
  split
  next hin =>
    have := gap_lt T W (by omega)
    omega
  next hout => exact add_tailStep_lt hW hlt hT (not_le.mp hout)

theorem largeStep_pos (hW : 373 ≤ W) (hd : ¬ W ∣ T) : 0 < largeStep T W := by
  rw [largeStep]
  split
  · exact gap_pos T W (by omega) hd
  · exact tailStep_pos

/-- The total that the build works with at a padded length, before the sum with 373 is cut. -/
def total32 (n code : Nat) : Nat := 373 + cipherLength32 n code

/-- The padded length that follows `n`: where the total is no multiple of the block size, the next
multiple of it, or near `2 ^ 32` the next multiple of the first candidate that does not divide. -/
def nextLength (segmentCode maxWireBlockBytes n : Nat) : Nat :=
  if maxWireBlockBytes ∣ total32 n segmentCode then n
  else n + largeStep (total32 n segmentCode) maxWireBlockBytes

/-- A padded length of eight full blocks or more that the build can still tell apart. -/
structure Live (code W n : Nat) : Prop where
  lt : n < 2 ^ 32
  large : 8 * W ≤ n
  whole : code = 0 → n + 28 < 2 ^ 32

theorem Live.le_total32 (h : Live code W n) : 373 + n ≤ total32 n code := by
  rw [total32, cipherLength32]
  by_cases h₀ : code = 0
  · have := h.whole h₀
    rw [if_pos h₀]
    omega
  · rw [if_neg h₀, cipherLength]
    split <;> omega

theorem Live.next (hW : 373 ≤ W) (h : Live code W n) (hT : total32 n code < 2 ^ 32) :
    Live code W (nextLength code W n) := by
  rw [nextLength]
  split
  · exact h
  · have hle := h.le_total32
    have hstep := add_largeStep_lt hW hT (by have := h.large; omega)
    refine ⟨by omega, by have := h.large; omega, ?_⟩
    intro h₀
    have hwhole := h.whole h₀
    have htotal : total32 n code = 401 + n := by
      rw [total32, cipherLength32, if_pos h₀]
      omega
    omega

section Rounds

variable (hv : ValidCode code) (hW : 373 ≤ W) (hl : Live code W (P + p))

include hv hW hl

omit hW in
theorem round_refused (limit fuel : Nat) (hT : 2 ^ 32 ≤ total32 (P + p) code) :
    ∃ e, paddingSearch .wasm32 P code W limit fuel p = .error e := by
  have hC := ciphertextLength_wasm32 hv hl.lt
  obtain ⟨what, hwhat⟩ := maxTokenCount_wrapped (W := W) (cipherLength32_lt hl.lt) hT
  have hexact : computeWireLayoutExact .wasm32 (P + p) code W = .error (.logicError what) := by
    rw [computeWireLayoutExact, hC, ok_bind]
    simp only [smEncSize, kSmEncBytes_eq, chooseNumTokens, hwhat, error_bind]
  have hnext : nextLayoutPadding .wasm32 (P + p) 373 code W = .error (.logicError what) := by
    rw [nextLayoutPadding, hC, ok_bind]
    simp only [hwhat, error_bind]
  cases fuel with
  | zero => exact ⟨_, rfl⟩
  | succ fuel =>
    rw [paddingSearch, wasm32_size hl.lt, hexact]
    split
    · simp only [Exn.isLogicError, smEncSize, kSmEncBytes_eq, hnext, error_bind, if_true]
      exact ⟨_, rfl⟩
    · exact ⟨_, rfl⟩

theorem round_returns (fuel : Nat) (hp : p ≤ limit) (hT : total32 (P + p) code < 2 ^ 32)
    (hd : W ∣ total32 (P + p) code) :
    ∃ layout, paddingSearch .wasm32 P code W limit (fuel + 1) p = .ok layout ∧
      layout.plaintextPadding = p := by
  have hC := ciphertextLength_wasm32 hv hl.lt
  have hle := hl.le_total32
  have hlarge := hl.large
  obtain ⟨l, hexact⟩ := (layoutExact_large hC hW (by rw [← total32]; omega) hT).1 hd
  rw [paddingSearch, if_pos hp, wasm32_size hl.lt, hexact]
  exact ⟨_, rfl, rfl⟩

theorem round_pads (hp : p ≤ limit) (hT : total32 (P + p) code < 2 ^ 32)
    (hd : ¬ W ∣ total32 (P + p) code) :
    paddingSearch .wasm32 P code W limit (fuel + 1) p =
      paddingSearch .wasm32 P code W limit fuel (p + largeStep (total32 (P + p) code) W) := by
  have hC := ciphertextLength_wasm32 hv hl.lt
  have hle := hl.le_total32
  have hlarge := hl.large
  have hpos := largeStep_pos hW hd
  have hstep := add_largeStep_lt hW hT (by omega)
  obtain ⟨e, hexact, hlog⟩ := (layoutExact_large hC hW (by rw [← total32]; omega) hT).2 hd
  have hnext := nextLayoutPadding_large hC hW (by rw [← total32]; omega) hT hd
  rw [← total32] at hnext
  rw [paddingSearch, if_pos hp, wasm32_size hl.lt, hexact]
  dsimp only
  rw [if_pos hlog, smEncSize, kSmEncBytes_eq, hnext, ok_bind, if_neg (by omega),
    wasm32_size (by omega)]

end Rounds

/-- A returned layout lies on the sequence of padded lengths. -/
theorem search_reaches (hv : ValidCode code) (hW : 373 ≤ W) (hl : Live code W (P + p))
    (h : paddingSearch .wasm32 P code W limit fuel p = .ok layout) :
    ∃ k, (nextLength code W)^[k] (P + p) = P + layout.plaintextPadding ∧
      Live code W (P + layout.plaintextPadding) ∧
      total32 (P + layout.plaintextPadding) code < 2 ^ 32 ∧
      W ∣ total32 (P + layout.plaintextPadding) code := by
  induction fuel generalizing p with
  | zero => simp [paddingSearch] at h
  | succ fuel ih =>
    by_cases hp : p ≤ limit
    · rcases Nat.lt_or_ge (total32 (P + p) code) (2 ^ 32) with hT | hT
      · by_cases hd : W ∣ total32 (P + p) code
        · obtain ⟨found, hfound, hpad⟩ := round_returns hv hW hl fuel hp hT hd
          obtain rfl : found = layout := Except.ok.inj (hfound.symm.trans h)
          rw [hpad]
          exact ⟨0, rfl, hl, hT, hd⟩
        · rw [round_pads hv hW hl hp hT hd] at h
          have hnext : nextLength code W (P + p) =
              P + (p + largeStep (total32 (P + p) code) W) := by
            rw [nextLength, if_neg hd, Nat.add_assoc]
          have hl' := hl.next hW hT
          rw [hnext] at hl'
          obtain ⟨k, hk, hrest⟩ := ih hl' h
          refine ⟨k + 1, ?_, hrest⟩
          rw [Function.iterate_succ_apply, hnext, hk]
      · obtain ⟨e, he⟩ := round_refused hv hl limit (fuel + 1) hT
        rw [he] at h
        cases h
    · rw [paddingSearch, if_neg hp] at h
      cases h

theorem le_nextLength (code W n : Nat) : n ≤ nextLength code W n := by
  rw [nextLength]
  split <;> omega

theorem le_iterate (code W n k : Nat) : n ≤ (nextLength code W)^[k] n := by
  induction k generalizing n with
  | zero => exact le_rfl
  | succ k ih => exact (le_nextLength code W n).trans (ih _)

theorem total32_lt (h₀ : code ≠ 0) (hn : n + 373 < 2 ^ 32) : total32 n code < 2 ^ 32 := by
  have hs := segmentBytes_ge code (by omega)
  have hle := recordCount_le h₀ (show n < 2 ^ 32 by omega)
  rw [total32, cipherLength32, if_neg h₀, cipherLength]
  split <;> omega

/-- A length of the sequence that the build can use is returned, if the limit allows it. -/
theorem search_returns (fuel : Nat) (hv : ValidCode code) (h₀ : code ≠ 0) (hW : 373 ≤ W) {k : Nat}
    (hl : Live code W (P + p)) (hfuel : limit + 1 < fuel + p)
    (hn : (nextLength code W)^[k] (P + p) + 373 < 2 ^ 32)
    (hlimit : (nextLength code W)^[k] (P + p) ≤ P + limit)
    (hd : W ∣ total32 ((nextLength code W)^[k] (P + p)) code) :
    ∃ layout, paddingSearch .wasm32 P code W limit fuel p = .ok layout ∧
      P + layout.plaintextPadding = (nextLength code W)^[k] (P + p) := by
  induction k generalizing p fuel with
  | zero =>
    rw [Function.iterate_zero_apply] at hn hlimit hd ⊢
    obtain ⟨rest, rfl⟩ : ∃ rest, fuel = rest + 1 := ⟨fuel - 1, by omega⟩
    obtain ⟨layout, hfound, hpad⟩ :=
      round_returns hv hW hl rest (show p ≤ limit by omega) (total32_lt h₀ hn) hd
    exact ⟨layout, hfound, by rw [hpad]⟩
  | succ k ih =>
    have hfirst := le_iterate code W (P + p) (k + 1)
    have hp : p ≤ limit := by omega
    have hT := total32_lt h₀ (show P + p + 373 < 2 ^ 32 by omega)
    obtain ⟨rest, rfl⟩ : ∃ rest, fuel = rest + 1 := ⟨fuel - 1, by omega⟩
    by_cases hd₀ : W ∣ total32 (P + p) code
    · have hfix : nextLength code W (P + p) = P + p := if_pos hd₀
      rw [Function.iterate_fixed hfix]
      obtain ⟨layout, hfound, hpad⟩ := round_returns hv hW hl rest hp hT hd₀
      exact ⟨layout, hfound, by rw [hpad]⟩
    · have hnext : nextLength code W (P + p) = P + (p + largeStep (total32 (P + p) code) W) := by
        rw [nextLength, if_neg hd₀, Nat.add_assoc]
      have hl' := hl.next hW hT
      have hpos := largeStep_pos hW hd₀
      rw [hnext] at hl'
      rw [Function.iterate_succ_apply, hnext] at hn hlimit hd ⊢
      rw [round_pads hv hW hl hp hT hd₀]
      exact ih rest hl' (by omega) hn hlimit hd

theorem minTokenCount_small (hW : 0 < W) (hT : T + W ≤ 2 ^ 32)
    (href : T - 373 + kWireBlockRef ≤ 2 ^ 32) :
    minTokenCount .wasm32 T (T - 373) (hi T W) W = .ok (lo T W) := by
  have hr : 0 < kWireBlockRef := by simp [kWireBlockRef]
  rw [minTokenCount, wasm32_ceilDiv hW, wasm32_ceilDiv hr, ok_bind, ok_bind,
    Nat.mod_eq_of_lt (by omega), Nat.mod_eq_of_lt (by omega), pure_eq_ok, lo, ref]

theorem layoutExact_small (hC : ciphertextLengthFromPlaintext .wasm32 Q code = .ok C)
    (hW : 373 ≤ W) (hcap : W ≤ 32 * 1024 * 1024) (hT : 373 + C < 8 * W)
    (hu : Usable (373 + C) W) : ∃ l, computeWireLayoutExact .wasm32 Q code W = .ok l := by
  have hr : kWireBlockRef = 4 * 1024 * 1024 := rfl
  have hmax := maxTokenCount_eq (373 + C) W (Nat.le_add_right _ _)
  have hmin := minTokenCount_small (W := W) (T := 373 + C) (by omega) (by omega) (by omega)
  rw [Nat.add_sub_cancel_left] at hmin
  obtain ⟨m, hlo, hhi, hfit⟩ := hu
  have hfloor := fun m => hi_mul_le (373 + C) W m (Nat.le_add_right _ _)
  have hle := hfloor _ le_rfl
  rcases chooseNumTokens_wasm32 hmax hmin (by omega) (by omega) with
    ⟨-, -, -, hnone⟩ | ⟨m', hm', hhi', ⟨hlo', hfit'⟩, -⟩
  · simp [hnone m hlo hhi] at hfit
  · exact layoutExact_pick hC (by omega) hm' hfit' ((one_le_lo _ W).trans hlo') (hfloor m' hhi')

/-- A whole-file object whose ciphertext length wraps gets the layout of a tiny one. -/
theorem wrapped_layout (hW : AcceptedBlockBytes W) (hP : P < 2 ^ 32) (hover : 2 ^ 32 ≤ P + 28) :
    ∃ layout, computeWireLayout .wasm32 P 0 W = .ok layout := by
  obtain ⟨hW₁, hW₂⟩ := (acceptedBlockBytes_iff W).mp hW
  have hC : ∀ n, n < 2 ^ 32 →
      ciphertextLengthFromPlaintext .wasm32 n 0 = .ok ((n + 28) % 2 ^ 32) := by
    intro n hn
    rw [ciphertextLength_wasm32 (by decide) hn, cipherLength32, if_pos rfl]
  have hC₀ := hC P hP
  have hwrap : (P + 28) % 2 ^ 32 = P + 28 - 2 ^ 32 := by omega
  rw [hwrap] at hC₀
  generalize hd : P + 28 - 2 ^ 32 = d at hC₀
  have hlimit := limit_eq W
  rw [computeWireLayout, (validate_ok 0).mpr (by decide), ok_bind,
    (validateMaxWireBlockBytes_ok W).mpr hW, ok_bind]
  dsimp only
  generalize maxPlaintextPaddingForLayout W = limit at *
  rw [paddingSearch, if_pos (Nat.zero_le _), Nat.add_zero, wasm32_size hP]
  rcases Nat.lt_or_ge W (373 + d) with hlt | hle
  · -- the block is doubled, as for a tiny object
    have hlo : lo (373 + d) W = 2 := lo_two (by omega) hlt (by omega)
    have hhi : hi (373 + d) W = 1 := by
      rw [hi_small _ W (by omega) (by omega)]
      omega
    have hmax := maxTokenCount_eq (373 + d) W (Nat.le_add_right _ _)
    have hr : kWireBlockRef = 4 * 1024 * 1024 := rfl
    have hmin := minTokenCount_small (W := W) (T := 373 + d) (by omega) (by omega) (by omega)
    rw [hhi] at hmax hmin
    rw [hlo, Nat.add_sub_cancel_left] at hmin
    have hexact : ∃ e, computeWireLayoutExact .wasm32 P 0 W = .error e ∧ e.isLogicError = true := by
      rcases chooseNumTokens_wasm32 hmax hmin (by decide) (by decide) with
        ⟨e, he, hlog, -⟩ | ⟨m, -, h₂, ⟨h₁, -⟩, -⟩
      · exact ⟨e, layoutExact_error hC₀ (by omega) he, hlog⟩
      · omega
    have hnext : nextLayoutPadding .wasm32 P 373 0 W = .ok (2 * W - (373 + d)) := by
      rw [nextLayoutPadding, hC₀, ok_bind, wasm32_size (by omega)]
      dsimp only
      rw [hmax, ok_bind, hmin, ok_bind, if_pos (by decide),
        wasm32_size (show 2 * W < 2 ^ 32 by omega), if_pos (by omega), pure_eq_ok]
    obtain ⟨e, he, hlog⟩ := hexact
    rw [he]
    dsimp only
    rw [if_pos hlog, smEncSize, kSmEncBytes_eq, hnext, ok_bind, if_neg (by omega), Nat.zero_add,
      wasm32_size (show 2 * W - (373 + d) < 2 ^ 32 by omega), paddingSearch, if_pos (by omega),
      wasm32_size_eq]
    have hC₁ := hC ((P + (2 * W - (373 + d))) % 2 ^ 32) (Nat.mod_lt _ (by decide))
    have hlength : ((P + (2 * W - (373 + d))) % 2 ^ 32 + 28) % 2 ^ 32 = 2 * W - 373 := by omega
    rw [hlength] at hC₁
    have hdouble : 373 + (2 * W - 373) = 2 * W := by omega
    have husable : Usable (2 * W) W := by
      have halign := usable_of_aligned (W := W) (2 * W) 2 (by omega) (by decide) (by decide)
        (Dvd.intro W rfl) (by omega) (by omega)
      have href : ref (2 * W) ≤ 1 := ref_le_one (by omega)
      exact halign.resolve_right (by omega)
    obtain ⟨l, hl⟩ := layoutExact_small hC₁ hW₁ hW₂ (by omega) (by rwa [hdouble])
    rw [hl]
    exact ⟨_, rfl⟩
  · have husable : Usable (373 + d) W := usable_one (by omega) hle (ref_le_one (by omega))
    obtain ⟨l, hl⟩ := layoutExact_small hC₀ hW₁ hW₂ (by omega) husable
    rw [hl]
    exact ⟨_, rfl⟩

/-- The equations of the layout over the true ciphertext length. -/
structure ExactLayout (plaintextLength segmentCode : Nat) (layout : WireLayout) : Prop where
  ciphertext : layout.ciphertextLength =
    cipherLength (plaintextLength + layout.plaintextPadding) segmentCode
  fills : layout.numTokens * layout.wireBlockSize = 373 + layout.ciphertextLength
  last : layout.lastBlockLength + 373 = layout.wireBlockSize

/-- The sequence of padded lengths comes to one that lies beyond the last full segment, within the
padding limit, where the total without envelopes is a multiple of the block size. -/
def Overshoots (plaintextLength segmentCode maxWireBlockBytes : Nat) : Prop :=
  ∃ k, 2 ^ 32 < (nextLength segmentCode maxWireBlockBytes)^[k] plaintextLength +
      segmentBytes segmentCode ∧
    (nextLength segmentCode maxWireBlockBytes)^[k] plaintextLength ≤
      plaintextLength + maxPlaintextPaddingForLayout maxWireBlockBytes ∧
    (nextLength segmentCode maxWireBlockBytes)^[k] plaintextLength + 373 < 2 ^ 32 ∧
    maxWireBlockBytes ∣ (nextLength segmentCode maxWireBlockBytes)^[k] plaintextLength + 373

/-- The computed length is the true one exactly where no sum wraps. -/
theorem cipherLength32_eq_iff (hv : ValidCode code) :
    cipherLength32 (n % 2 ^ 32) code = cipherLength n code ↔
      if code = 0 then n + 28 < 2 ^ 32 else n + segmentBytes code ≤ 2 ^ 32 := by
  have hs := segmentBytes_le hv
  have hs₀ := segmentBytes_pos code
  have hge : n ≤ cipherLength n code := Nat.le_add_right _ _
  rcases Nat.lt_or_ge n (2 ^ 32) with hn | hn
  · rw [Nat.mod_eq_of_lt hn, cipherLength32]
    by_cases h₀ : code = 0
    · rw [if_pos h₀, if_pos h₀, cipherLength, h₀, recordCount_zero_code]
      omega
    · rw [if_neg h₀, if_neg h₀]
      by_cases hfits : n + segmentBytes code ≤ 2 ^ 32
      · rw [if_pos hfits]
        exact iff_of_true rfl hfits
      · rw [if_neg hfits]
        apply iff_of_false ?_ hfits
        have hone : 1 ≤ recordCount n code := by
          rw [recordCount, if_neg h₀]
          exact (Nat.le_div_iff_mul_le hs₀).mpr (by omega)
        rw [cipherLength]
        omega
  · have hlt : cipherLength32 (n % 2 ^ 32) code < 2 ^ 32 := cipherLength32_lt (Nat.mod_lt n (by decide))
    apply iff_of_false
    · omega
    · split <;> omega

theorem total32_beyond (h₀ : code ≠ 0) (hn : 2 ^ 32 < n + segmentBytes code) :
    total32 n code = n + 373 := by
  rw [total32, cipherLength32, if_neg h₀, if_neg (by omega), Nat.add_comm]

theorem exactLayout_iff (hv : ValidCode code)
    (h : computeWireLayout .wasm32 P code W = .ok layout) :
    ExactLayout P code layout ↔
      if code = 0 then P + layout.plaintextPadding + 28 < 2 ^ 32
      else P + layout.plaintextPadding + segmentBytes code ≤ 2 ^ 32 := by
  rw [← cipherLength32_eq_iff hv]
  obtain ⟨-, -, q, l, -, hl, rfl⟩ := LayoutSound.computeWireLayout_ok h
  rw [wasm32_size_eq] at hl
  have hlt : (P + q) % 2 ^ 32 < 2 ^ 32 := Nat.mod_lt _ (by decide)
  obtain ⟨hC, hfills, hlast⟩ :=
    layoutExact_consistent (ciphertextLength_wasm32 hv hlt) (cipherLength32_lt hlt) hl
  constructor
  · intro hexact
    rw [← hC]
    exact hexact.ciphertext
  · intro heq
    exact ⟨hC.trans heq, hfills, hlast⟩

theorem padding_le (h : computeWireLayout .wasm32 P code W = .ok layout) :
    layout.plaintextPadding ≤ maxPlaintextPaddingForLayout W := by
  obtain ⟨-, -, q, l, hq, -, rfl⟩ := LayoutSound.computeWireLayout_ok h
  exact hq

theorem wholeFile_exact_iff (hW : AcceptedBlockBytes W) (hP : P < 2 ^ 32) :
    (∀ layout, computeWireLayout .wasm32 P 0 W = .ok layout → ExactLayout P 0 layout) ↔
      P + 28 < 2 ^ 32 := by
  obtain ⟨hW₁, hW₂⟩ := (acceptedBlockBytes_iff W).mp hW
  have hlimit := limit_eq W
  constructor
  · intro hall
    by_contra hover
    obtain ⟨layout, h⟩ := wrapped_layout hW hP (not_lt.mp hover)
    have hexact := (exactLayout_iff (by decide) h).mp (hall layout h)
    rw [if_pos rfl] at hexact
    omega
  · intro hfits layout h
    have hpad := padding_le h
    rw [exactLayout_iff (by decide) h, if_pos rfl]
    by_cases hfar : P + maxPlaintextPaddingForLayout W + 28 < 2 ^ 32
    · omega
    · have hlive : Live 0 W (P + 0) := ⟨hP, by omega, fun _ => hfits⟩
      simp only [computeWireLayout, bind_eq_ok] at h
      obtain ⟨_, -, _, -, h⟩ := h
      obtain ⟨-, -, hreached, -, -⟩ := search_reaches (by decide) hW₁ hlive h
      exact hreached.whole rfl

theorem segmented_exact_iff (hv : ValidCode code) (h₀ : code ≠ 0) (hW : AcceptedBlockBytes W)
    (hP : P < 2 ^ 32) :
    (∀ layout, computeWireLayout .wasm32 P code W = .ok layout → ExactLayout P code layout) ↔
      ¬ Overshoots P code W := by
  obtain ⟨hW₁, hW₂⟩ := (acceptedBlockBytes_iff W).mp hW
  have hlimit := limit_eq W
  have hs := segmentBytes_le hv
  have hlive : 2 ^ 32 < P + maxPlaintextPaddingForLayout W + segmentBytes code →
      Live code W (P + 0) := fun hnear => ⟨hP, by omega, fun h => absurd h h₀⟩
  constructor
  · rintro hall ⟨k, hbeyond, hle, hlt, hd⟩
    rw [← total32_beyond h₀ hbeyond] at hd
    obtain ⟨layout, hsearch, hreached⟩ := search_returns (p := 0)
      (maxPlaintextPaddingForLayout W + 2) hv h₀ hW₁ (hlive (by omega)) (by omega) hlt hle hd
    have h : computeWireLayout .wasm32 P code W = .ok layout := by
      rw [computeWireLayout, (validate_ok code).mpr hv, ok_bind,
        (validateMaxWireBlockBytes_ok W).mpr hW, ok_bind]
      exact hsearch
    have hexact := (exactLayout_iff hv h).mp (hall layout h)
    rw [if_neg h₀, hreached] at hexact
    exact absurd hbeyond (not_lt.mpr hexact)
  · intro hnever layout h
    have hpad := padding_le h
    rw [exactLayout_iff hv h, if_neg h₀]
    by_contra hbeyond
    have hsearch := h
    simp only [computeWireLayout, bind_eq_ok] at hsearch
    obtain ⟨_, -, _, -, hsearch⟩ := hsearch
    obtain ⟨k, hk, -, hlt, hd⟩ := search_reaches hv hW₁ (hlive (by omega)) hsearch
    rw [total32_beyond h₀ (not_le.mp hbeyond)] at hlt hd
    apply hnever
    refine ⟨k, ?_⟩
    rw [Nat.add_zero] at hk
    rw [hk]
    exact ⟨not_le.mp hbeyond, Nat.add_le_add_left hpad P, hlt, hd⟩

section ends

theorem maxTokenCount_ends (hT : T < 2 ^ 32) :
    (∃ a, maxTokenCount T 373 W = .ok a ∧ a < 2 ^ 31) ∨
      ∃ what, maxTokenCount T 373 W = .error (.logicError what) := by
  rw [maxTokenCount]
  split
  · exact .inr ⟨_, rfl⟩
  · dsimp only
    split
    · exact .inl ⟨1, rfl, by decide⟩
    · exact .inl ⟨_, rfl, by omega⟩

/-- The count may be more than `a` only where the blocks fill the total. -/
theorem minTokenCount_ends (hW : 373 ≤ W) (hT : T < 2 ^ 32) (ha : a < 2 ^ 31) :
    ∃ b, minTokenCount .wasm32 T C a W = .ok b ∧ 1 ≤ b ∧ b < 2 ^ 31 ∧ (a < b → b * W ≤ T + W) := by
  have hr : 0 < kWireBlockRef := by decide
  rw [minTokenCount, wasm32_ceilDiv (by omega), wasm32_ceilDiv hr, ok_bind, ok_bind]
  generalize (C + kWireBlockRef - 1) % 2 ^ 32 / kWireBlockRef = refMin
  have hcount : (T + W - 1) % 2 ^ 32 / W < 2 ^ 31 := Nat.div_lt_of_lt_mul (by omega)
  have hfill : (T + W - 1) % 2 ^ 32 / W * W ≤ T + W :=
    (Nat.div_mul_le_self _ _).trans ((Nat.mod_le _ _).trans (Nat.sub_le _ _))
  generalize (T + W - 1) % 2 ^ 32 / W = relayMin at *
  have hmax : max 1 relayMin * W ≤ T + W := by
    rcases Nat.le_total relayMin 1 with hle | hge
    · rw [Nat.max_eq_left hle]
      omega
    · rwa [Nat.max_eq_right hge]
  refine ⟨_, rfl, ?_⟩
  split
  · refine ⟨by omega, by omega, fun hlt => ?_⟩
    rwa [Nat.max_eq_left (by omega)]
  · exact ⟨by omega, by omega, fun _ => hmax⟩

theorem throwIf_ends {α : Type} {c : Prop} [Decidable c] {what : String} {f : Unit → Except Exn α}
    (h : f () ≠ .error .stuck) : (throwIf c (.logicError what) >>= f) ≠ .error .stuck := by
  by_cases hc : c
  · rw [throwIf_pos hc, error_bind]
    rintro ⟨⟩
  · rwa [throwIf_neg hc, ok_bind]

theorem layoutExact_ends (hv : ValidCode code) (hQ : Q < 2 ^ 32) (hW : 373 ≤ W) :
    computeWireLayoutExact .wasm32 Q code W ≠ .error .stuck := by
  rw [computeWireLayoutExact, ciphertextLength_wasm32 hv hQ, ok_bind]
  have hT : Machine.wasm32.size (smEncSize + cipherLength32 Q code) < 2 ^ 32 := Nat.mod_lt _ (by decide)
  have hS : smEncSize = 373 := kSmEncBytes_eq
  simp only [hS] at hT ⊢
  generalize Machine.wasm32.size (373 + cipherLength32 Q code) = T at *
  rcases maxTokenCount_ends (W := W) hT with ⟨a, ha, hlt⟩ | ⟨what, ha⟩
  · obtain ⟨b, hb, hone, hlt', -⟩ := minTokenCount_ends (C := cipherLength32 Q code) hW hT hlt
    rcases chooseNumTokens_wasm32 ha hb hlt hlt' with ⟨e, he, hlogic, -⟩ | ⟨m, hm, -, hleast⟩
    · rw [he, error_bind]
      rintro ⟨⟩
      cases hlogic
    · have hm₀ : m ≠ 0 := by
        have := hleast.1.1
        omega
      rw [hm, ok_bind, throwIf_neg hm₀, ok_bind]
      refine throwIf_ends (throwIf_ends (throwIf_ends (throwIf_ends (throwIf_ends ?_))))
      rintro ⟨⟩
  · rw [chooseNumTokens, ha, error_bind, error_bind]
    rintro ⟨⟩

theorem paddingCandidates_le {minBlock : Nat} {candidates : List Nat} (h : ∀ c ∈ candidates, c ≤ a) :
    paddingCandidates T minBlock W candidates ≤ max 1 a := by
  induction candidates with
  | nil => exact Nat.le_max_left 1 a
  | cons c rest ih =>
    have hrest := ih fun d hd => h d (List.mem_cons_of_mem _ hd)
    have hc := h c List.mem_cons_self
    rw [paddingCandidates]
    dsimp only
    split
    · split
      · exact Nat.zero_le _
      · exact hrest
    · omega

/-- A step is too short to wrap. -/
theorem nextLayoutPadding_ends (hv : ValidCode code) (hQ : Q < 2 ^ 32) (hW : AcceptedBlockBytes W) :
    (∃ step, nextLayoutPadding .wasm32 Q 373 code W = .ok step ∧ step < 2 ^ 31) ∨
      ∃ what, nextLayoutPadding .wasm32 Q 373 code W = .error (.logicError what) := by
  obtain ⟨hW₁, hW₂⟩ := (acceptedBlockBytes_iff W).mp hW
  rw [nextLayoutPadding, ciphertextLength_wasm32 hv hQ, ok_bind]
  have hT : Machine.wasm32.size (373 + cipherLength32 Q code) < 2 ^ 32 := Nat.mod_lt _ (by decide)
  dsimp only
  generalize Machine.wasm32.size (373 + cipherLength32 Q code) = T at *
  rcases maxTokenCount_ends (W := W) hT with ⟨a, ha, hlt⟩ | ⟨what, ha⟩
  · obtain ⟨b, hb, hone, hlt', hfill⟩ := minTokenCount_ends (C := cipherLength32 Q code) hW₁ hT hlt
    rw [ha, ok_bind, hb, ok_bind]
    left
    split
    next hmore =>
      have haligned : Machine.wasm32.size (b * W) ≤ b * W := Nat.mod_le _ _
      have hle := hfill hmore
      split
      · exact ⟨_, rfl, by omega⟩
      · refine ⟨_, rfl, ?_⟩
        split <;> omega
    next =>
      refine ⟨_, rfl, Nat.lt_of_le_of_lt (paddingCandidates_le (a := a) fun c hc => ?_) (by omega)⟩
      have hmem := List.mem_range'_1.mp hc
      omega
  · rw [ha, error_bind]
    exact .inr ⟨what, rfl⟩

/-- Each round pads further, and the fuel is enough for all of them. -/
theorem paddingSearch_ends (hv : ValidCode code) (hW : AcceptedBlockBytes W) (hlimit : limit ≤ 2 ^ 25)
    (hfuel : limit + 2 ≤ fuel + p) (hpos : 0 < fuel) :
    paddingSearch .wasm32 P code W limit fuel p ≠ .error .stuck := by
  obtain ⟨hW₁, -⟩ := (acceptedBlockBytes_iff W).mp hW
  induction fuel generalizing p with
  | zero => exact absurd hpos (Nat.lt_irrefl 0)
  | succ fuel ih =>
    rw [paddingSearch]
    split
    case isFalse => rintro ⟨⟩
    case isTrue hp =>
      have hQ : Machine.wasm32.size (P + p) < 2 ^ 32 := Nat.mod_lt _ (by decide)
      generalize Machine.wasm32.size (P + p) = Q at *
      have hexact := layoutExact_ends hv hQ hW₁
      cases hround : computeWireLayoutExact .wasm32 Q code W with
      | ok layout => rintro ⟨⟩
      | error e =>
        rw [hround] at hexact
        dsimp only
        split
        case isFalse => exact fun hstuck => hexact (by rw [Except.error.inj hstuck])
        case isTrue =>
          rw [smEncSize, kSmEncBytes_eq]
          rcases nextLayoutPadding_ends hv hQ hW with ⟨step, hstep, hlt⟩ | ⟨what, hwhat⟩
          · rw [hstep, ok_bind]
            split
            case isTrue => rintro ⟨⟩
            case isFalse hmore =>
              rw [wasm32_size (by omega)]
              exact ih (by omega) (by omega)
          · rw [hwhat, error_bind]
            rintro ⟨⟩

theorem computeWireLayout_ends (hv : ValidCode code) (hW : AcceptedBlockBytes W) :
    computeWireLayout .wasm32 P code W ≠ .error .stuck := by
  have hlimit : maxPlaintextPaddingForLayout W = max (16 * 1024 * 1024) W := rfl
  obtain ⟨-, hW₂⟩ := (acceptedBlockBytes_iff W).mp hW
  rw [computeWireLayout, (validate_ok code).mpr hv, ok_bind, (validateMaxWireBlockBytes_ok W).mpr hW, ok_bind]
  exact paddingSearch_ends hv hW (by omega) (by omega) (by omega)

end ends

/-- On the WebAssembly build the search ends, and every returned layout is exact exactly when a
whole-file plaintext stays 28 octets below `2 ^ 32`, or the search over a segmented one never overshoots
the last full segment. -/
theorem computeWireLayout32_exact_iff (P code W : Nat) (hv : ValidCode code)
    (hW : AcceptedBlockBytes W) (hP : P < 2 ^ 32) :
    computeWireLayout .wasm32 P code W ≠ .error .stuck ∧
    ((∀ layout, computeWireLayout .wasm32 P code W = .ok layout → ExactLayout P code layout) ↔
      if code = 0 then P + 28 < 2 ^ 32 else ¬ Overshoots P code W) := by
  refine ⟨computeWireLayout_ends hv hW, ?_⟩
  split
  next h₀ =>
    subst h₀
    exact wholeFile_exact_iff hW hP
  next h₀ => exact segmented_exact_iff hv h₀ hW hP

theorem computeWireLayout32_exact_iff_small :
    computeWireLayout .wasm32 1000 1 4096 ≠ .error .stuck ∧
    ((∀ layout, computeWireLayout .wasm32 1000 1 4096 = .ok layout → ExactLayout 1000 1 layout) ↔
      if 1 = 0 then 1000 + 28 < 2 ^ 32 else ¬ Overshoots 1000 1 4096) :=
  computeWireLayout32_exact_iff 1000 1 4096 (by decide) (by decide) (by decide)

/-- A file within the last segment below 4 GiB, in segments of 16 MiB and blocks of 4 MiB. -/
def envelopelessLayout : WireLayout :=
  { numTokens := 1021, wireBlockSize := 4194304, ciphertextLength := 4282384011,
    totalWireBytes := 4282384384, lastBlockLength := 4193931, plaintextPadding := 0 }

/-- The layout leaves no room for the envelopes of its 256 records. -/
theorem envelopes_lost :
    computeWireLayout .wasm32 4282384011 1 4194304 = .ok envelopelessLayout ∧
      ¬ ExactLayout 4282384011 1 envelopelessLayout := by
  refine ⟨by decide +kernel, ?_⟩
  intro h
  have hlength := h.ciphertext
  rw [cipherLength] at hlength
  have hrecords : recordCount (4282384011 + envelopelessLayout.plaintextPadding) 1 = 256 := by
    decide +kernel
  rw [hrecords] at hlength
  simp [envelopelessLayout] at hlength

end TwelveC.Layout32
