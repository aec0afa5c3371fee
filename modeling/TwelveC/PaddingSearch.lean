import TwelveC.WireLayout
import TwelveC.Lib.Align

/-!
# The padding search in exact arithmetic

`compute_wire_layout` succeeds at a padded length exactly when some token count
between two bounds divides the total. With eight or more full blocks the bounds
force the full block size, so the total has to be a multiple of it; below that,
eight candidates at most are in play and a few octets of padding suffice. What
upsets either case is a segment boundary inside the padding: the new record adds
28 octets that the padding step did not count.
-/

namespace TwelveC.PaddingSearch

open Segment WireLayout Lib.Align

/-- Octets of the whole object for a padded plaintext of `length` octets. -/
def total (length code : Nat) : Nat := 373 + cipherLength length code

theorem total_ge (length code : Nat) : 373 ≤ total length code := Nat.le_add_right _ _

theorem total_add (a p code : Nat) :
    total (a + p) code + 28 * recordCount a code =
      total a code + p + 28 * recordCount (a + p) code := by
  simp only [total, cipherLength]
  omega

/-- `maxTokenCount` as a plain number. -/
@[irreducible] def hi (T W : Nat) : Nat :=
  if minWireBlockSize T W = 0 then 1 else max 1 (min (T / minWireBlockSize T W) (T / 373))

/-- The soft lower bound from the 4 MiB reference block. -/
@[irreducible] def ref (T : Nat) : Nat := (T - 373 + kWireBlockRef - 1) / kWireBlockRef

/-- `minTokenCount` as a plain number. -/
@[irreducible] def lo (T W : Nat) : Nat :=
  if ref T ≤ hi T W then max (max 1 ((T + W - 1) / W)) (ref T) else max 1 ((T + W - 1) / W)

/-- Some candidate in range passes the test of `choose_num_tokens`. -/
def Usable (T W : Nat) : Prop := ∃ m, lo T W ≤ m ∧ m ≤ hi T W ∧ fits T W m = true

theorem maxTokenCount_eq (T W : Nat) (h : 373 ≤ T) : maxTokenCount T 373 W = .ok (hi T W) := by
  simp only [maxTokenCount, hi, show ¬ T < 373 by omega, if_false]
  split <;> rfl

theorem minTokenCount_eq (T W : Nat) (hW : 0 < W) :
    minTokenCount Machine.exact T (T - 373) (hi T W) W = .ok (lo T W) := by
  have hr : 0 < kWireBlockRef := by simp [kWireBlockRef]
  rw [minTokenCount, ceilDiv_ok _ _ _ hW exact_size, ceilDiv_ok _ _ _ hr exact_size, ok_bind,
    ok_bind, pure_eq_ok, lo, ref]

theorem firstFit_none (T W a b : Nat) :
    firstFit T W a b = none ↔ ∀ m, a ≤ m → m ≤ b → fits T W m = false := by
  simp only [firstFit, List.find?_eq_none, List.mem_range'_1]
  constructor
  · intro h m ha hb
    simpa using h m ⟨ha, by omega⟩
  · intro h m hm
    simpa using h m hm.1 (by omega)

theorem firstFit_some (T W a b m : Nat) (h : firstFit T W a b = some m) :
    a ≤ m ∧ m ≤ b ∧ fits T W m = true := by
  have hm := List.mem_of_find?_eq_some h
  have hf := List.find?_some h
  rw [List.mem_range'_1] at hm
  exact ⟨hm.1, by omega, hf⟩

theorem firstFit_least {T W a b m : Nat} (h : firstFit T W a b = some m) :
    IsLeast {n | a ≤ n ∧ fits T W n = true} m := by
  rw [firstFit, List.find?_range'_eq_some] at h
  obtain ⟨hfit, hmem, hbefore⟩ := h
  rw [List.mem_range'_1] at hmem
  refine ⟨⟨hmem.1, hfit⟩, ?_⟩
  rintro n ⟨hn, hfits⟩
  by_contra hlt
  have := hbefore n hn (by omega)
  simp [hfits] at this

section Choose

variable {M : Machine} {T C S W a b : Nat}

/-- Together the loops try every candidate between the two bounds, in order. -/
theorem chooseNumTokens_cases (ha : maxTokenCount T S W = .ok a)
    (hb : minTokenCount M T C a W = .ok b) (hstart : b ≤ a → b ≤ preferredEnd M b a)
    (hnext : M.size (preferredEnd M b a + 1) = preferredEnd M b a + 1)
    (hcast : ∀ c ≤ a, M.u32 c = c) :
    (∃ e, chooseNumTokens M T C S W = .error e ∧ e.isLogicError = true ∧
      ∀ c, b ≤ c → c ≤ a → fits T W c = false) ∨
    ∃ m, chooseNumTokens M T C S W = .ok m ∧ m ≤ a ∧
      IsLeast {n | b ≤ n ∧ fits T W n = true} m := by
  have hend : preferredEnd M b a ≤ a := Nat.min_le_right _ _
  rw [chooseNumTokens, ha, ok_bind, hb, ok_bind, hnext]
  generalize preferredEnd M b a = p at *
  split
  · exact .inl ⟨_, rfl, rfl, fun c h₁ h₂ => by omega⟩
  next hle =>
    have hbp := hstart (not_lt.mp hle)
    cases h₁ : firstFit T W b p with
    | some c =>
      have hca := (firstFit_some T W _ _ c h₁).2.1.trans hend
      exact .inr ⟨c, congrArg Except.ok (hcast c hca), hca, firstFit_least h₁⟩
    | none =>
      have hbefore := (firstFit_none T W b p).mp h₁
      cases h₂ : firstFit T W (p + 1) a with
      | some c =>
        obtain ⟨hpc, hca, hfit⟩ := firstFit_some T W _ _ c h₂
        refine .inr ⟨c, congrArg Except.ok (hcast c hca), hca, ⟨by omega, hfit⟩, ?_⟩
        rintro n ⟨hn, hfits⟩
        rcases Nat.lt_or_ge p n with hlt | hge
        · exact (firstFit_least h₂).2 ⟨hlt, hfits⟩
        · simp [hbefore n hn hge] at hfits
      | none =>
        refine .inl ⟨_, rfl, rfl, fun c hbc hca => ?_⟩
        rcases Nat.lt_or_ge p c with hlt | hge
        · exact (firstFit_none T W _ _).mp h₂ c hlt hca
        · exact hbefore c hbc hge

theorem chooseNumTokens_exact (ha : maxTokenCount T S W = .ok a)
    (hb : minTokenCount Machine.exact T C a W = .ok b) :
    (∃ e, chooseNumTokens Machine.exact T C S W = .error e ∧ e.isLogicError = true ∧
      ∀ c, b ≤ c → c ≤ a → fits T W c = false) ∨
    ∃ m, chooseNumTokens Machine.exact T C S W = .ok m ∧ m ≤ a ∧
      IsLeast {n | b ≤ n ∧ fits T W n = true} m :=
  chooseNumTokens_cases ha hb (fun h => Nat.le_min.mpr ⟨Nat.le_add_right _ _, h⟩) (exact_size _)
    fun c _ => exact_u32 c

end Choose

theorem fits_iff (T W m : Nat) : fits T W m = true ↔
    T % m = 0 ∧ minWireBlockSize T W ≤ T / m ∧ T / m ≤ W := by
  simp [fits, and_assoc]

theorem hi_mul_le (T W m : Nat) (hT : 373 ≤ T) (h : m ≤ hi T W) : m * 373 ≤ T := by
  have h₁ : m ≤ T / 373 := by
    rw [hi] at h
    have h₂ : 1 ≤ T / 373 := (Nat.le_div_iff_mul_le (by decide)).mpr (by omega)
    split at h
    · omega
    · exact h.trans (Nat.max_le.mpr ⟨h₂, Nat.min_le_right _ _⟩)
  exact (Nat.le_div_iff_mul_le (by decide)).mp h₁

/-- The checks after `choose_num_tokens` never fail on its result. -/
theorem layoutExact_ok (Q code W : Nat) (hc : ValidCode code) (hW : 0 < W)
    (h : Usable (total Q code) W) :
    ∃ l, computeWireLayoutExact Machine.exact Q code W = .ok l := by
  have hT := total_ge Q code
  have hC : total Q code - 373 = cipherLength Q code := by simp [total]
  have hmin := minTokenCount_eq (total Q code) W hW
  rw [hC] at hmin
  obtain ⟨n, hlo, hhi, hn⟩ := h
  have hchoose := chooseNumTokens_exact (maxTokenCount_eq _ W hT) hmin
  obtain ⟨e, -, -, hnone⟩ | ⟨m, hm, hle, ⟨-, hfit⟩, -⟩ := hchoose
  · simp [hnone n hlo hhi] at hn
  rw [fits_iff] at hfit
  obtain ⟨hdvd, hge, hlt⟩ := hfit
  have hmT := hi_mul_le _ W m hT hle
  have hCT : 373 + cipherLength Q code = total Q code := rfl
  simp only [computeWireLayoutExact, ciphertextLength_ok _ Q code hc exact_size, ok_bind, smEncSize,
    kSmEncBytes_eq, exact_size, hCT, hm]
  generalize total Q code = T at *
  generalize cipherLength Q code = C at *
  have hm0 : m ≠ 0 := by
    rintro rfl
    simp at hdvd
    omega
  have hmul : m * (T / m) = T := Nat.mul_div_cancel' (Nat.dvd_of_mod_eq_zero hdvd)
  have hB : 373 ≤ T / m := (Nat.le_div_iff_mul_le (by omega)).mpr (by rw [Nat.mul_comm]; exact hmT)
  have hlast : 373 + (C - (m - 1) * (T / m)) = T / m := by
    rw [Nat.sub_mul, hmul, Nat.one_mul, ← hC]
    have hle : T / m ≤ T := Nat.div_le_self T m
    omega
  simp only [exact_u32, exact_sizeSub]
  generalize T / m = B at *
  rw [throwIf_neg hm0, throwIf_neg (by omega), throwIf_neg (by omega), throwIf_neg (by omega),
    throwIf_neg (by omega), throwIf_neg (by omega)]
  exact ⟨_, rfl⟩

theorem layoutExact_error (Q code W : Nat) (hc : ValidCode code) (hW : 0 < W)
    (h : ¬ Usable (total Q code) W) :
    ∃ e, computeWireLayoutExact Machine.exact Q code W = .error e ∧ e.isLogicError = true := by
  have hT := total_ge Q code
  have hC : total Q code - 373 = cipherLength Q code := by simp [total]
  have hmin := minTokenCount_eq (total Q code) W hW
  rw [hC] at hmin
  have hchoose := chooseNumTokens_exact (maxTokenCount_eq _ W hT) hmin
  obtain ⟨e, he, hl, -⟩ | ⟨m, -, hle, ⟨hlo, hfit⟩, -⟩ := hchoose
  · have hCT : 373 + cipherLength Q code = total Q code := rfl
    refine ⟨e, ?_, hl⟩
    simp only [computeWireLayoutExact, ciphertextLength_ok _ Q code hc exact_size, ok_bind,
      smEncSize, kSmEncBytes_eq, exact_size, hCT, he, error_bind]
  · exact absurd ⟨m, hlo, hle, hfit⟩ h

theorem le_mul_lo (T W : Nat) (hW : 0 < W) : T ≤ W * lo T W := by
  have h₁ : (T + W - 1) / W ≤ lo T W := by
    rw [lo]
    split <;> omega
  exact (ceil_mul_ge T W hW).trans (Nat.mul_le_mul_left W h₁)

theorem one_le_lo (T W : Nat) : 1 ≤ lo T W := by
  rw [lo]
  split <;> omega

theorem ref_le_lo (T W : Nat) (h : ref T ≤ hi T W) : ref T ≤ lo T W := by
  rw [lo, if_pos h]
  exact Nat.le_max_right _ _

/-- What lies above the reference bound comes from the block size. -/
theorem mul_lo_lt (T W : Nat) (hT : 0 < T) (hW : 0 < W) (h : ref T ≤ hi T W → ref T < lo T W) :
    W * (lo T W - 1) < T := by
  have hc := ceil_mul_lt T W hT hW
  have h₁ : lo T W = max 1 ((T + W - 1) / W) := by
    rw [lo] at h ⊢
    split at h
    · rename_i hr
      have := h hr
      rw [if_pos hr]
      omega
    · rename_i hr
      rw [if_neg hr]
  rw [h₁]
  rcases Nat.le_total 1 ((T + W - 1) / W) with h₂ | h₂
  · rw [Nat.max_eq_right h₂]
    exact hc
  · rw [Nat.max_eq_left h₂]
    simpa using hT

theorem minBlock_mul_hi (T W : Nat) (h : 0 < minWireBlockSize T W) (m : Nat)
    (hm : m ≤ hi T W) : minWireBlockSize T W * m ≤ T := by
  have h₀ : minWireBlockSize T W ≤ T :=
    (Nat.min_le_right _ _).trans (Nat.div_le_self _ _)
  have h₁ : m ≤ T / minWireBlockSize T W := by
    have h₂ : 1 ≤ T / minWireBlockSize T W := (Nat.le_div_iff_mul_le h).mpr (by omega)
    rw [hi, if_neg (by omega)] at hm
    exact hm.trans (Nat.max_le.mpr ⟨h₂, Nat.min_le_left _ _⟩)
  calc minWireBlockSize T W * m
      ≤ minWireBlockSize T W * (T / minWireBlockSize T W) := Nat.mul_le_mul_left _ h₁
    _ ≤ T := Nat.mul_div_le _ _

theorem minBlock_pos (T W : Nat) (hT : 373 ≤ T) (hW : 0 < W) : 0 < minWireBlockSize T W := by
  have h : kMinBlockSizeDivisor = 8 := rfl
  rw [minWireBlockSize, h]
  omega

/-- In range, only divisibility is left of the test. -/
theorem fits_of_dvd (T W m : Nat) (hT : 373 ≤ T) (hW : 0 < W) (hlo : lo T W ≤ m)
    (hhi : m ≤ hi T W) (h : m ∣ T) : fits T W m = true := by
  have hm : 0 < m := (one_le_lo T W).trans hlo
  rw [fits_iff]
  refine ⟨Nat.mod_eq_zero_of_dvd h, ?_, ?_⟩
  · exact (Nat.le_div_iff_mul_le hm).mpr
      (minBlock_mul_hi T W (minBlock_pos T W hT hW) m hhi)
  · apply Nat.div_le_of_le_mul
    rw [Nat.mul_comm]
    exact (le_mul_lo T W hW).trans (Nat.mul_le_mul_left W hlo)

theorem usable_iff (T W : Nat) (hT : 373 ≤ T) (hW : 0 < W) :
    Usable T W ↔ ∃ m, lo T W ≤ m ∧ m ≤ hi T W ∧ m ∣ T := by
  constructor
  · rintro ⟨m, h₁, h₂, h₃⟩
    rw [fits_iff] at h₃
    exact ⟨m, h₁, h₂, Nat.dvd_of_mod_eq_zero h₃.1⟩
  · rintro ⟨m, h₁, h₂, h₃⟩
    exact ⟨m, h₁, h₂, fits_of_dvd T W m hT hW h₁ h₂ h₃⟩

/-- `nextLayoutPadding` at a total without a usable token count. -/
def step (T W : Nat) : Nat := if hi T W < lo T W then gap T W else gap T (lo T W)

theorem hi_large (T W : Nat) (hW : 373 ≤ W) (h : 8 * W ≤ T) : hi T W = T / W := by
  have hd : kMinBlockSizeDivisor = 8 := rfl
  have h₁ : minWireBlockSize T W = W := by
    rw [minWireBlockSize, hd]
    omega
  have h₂ : T / W ≤ T / 373 := Nat.div_le_div_left hW (by decide)
  have h₃ : 8 ≤ T / W := (Nat.le_div_iff_mul_le (by omega)).mpr h
  rw [hi, h₁, if_neg (by omega)]
  omega

theorem hi_small (T W : Nat) (hT : 373 ≤ T) (h : T < 8 * W) : hi T W = min 8 (T / 373) := by
  have hd : kMinBlockSizeDivisor = 8 := rfl
  have h₁ : minWireBlockSize T W = T / 8 := by
    rw [minWireBlockSize, hd]
    omega
  have h₂ : T / (T / 8) = 8 := by
    apply Nat.div_eq_of_lt_le <;> omega
  have h₃ : 1 ≤ T / 373 := (Nat.le_div_iff_mul_le (by decide)).mpr (by omega)
  rw [hi, h₁, if_neg (by omega), h₂]
  omega

/-- An empty range lies below the next multiple of the block size. -/
theorem lt_mul_lo (T W : Nat) (hT : 373 ≤ T) (hW : 373 ≤ W) (h : hi T W < lo T W) :
    T < W * lo T W := by
  have hle := le_mul_lo T W (by omega)
  rcases Nat.lt_or_ge T (W * lo T W) with hlt | hge
  · exact hlt
  have he : T = lo T W * W := by
    rw [Nat.mul_comm]
    omega
  have hdiv : T / W = lo T W := Nat.div_eq_of_eq_mul_left (by omega) he
  rcases Nat.lt_or_ge T (8 * W) with hs | hl
  · have h₁ := hi_small T W hT hs
    have h₂ : T / W ≤ T / 373 := Nat.div_le_div_left hW (by decide)
    have h₃ : lo T W < 8 := by
      apply Nat.lt_of_mul_lt_mul_right (a := W)
      omega
    omega
  · have h₁ := hi_large T W hW hl
    omega

theorem paddingStep_eq (T W : Nat) (hT : 373 ≤ T) (hW : 373 ≤ W) (h : ¬ Usable T W) :
    step T W = (if hi T W < lo T W then lo T W * W - T else lo T W - T % lo T W) ∧
      0 < step T W := by
  have hlo := one_le_lo T W
  by_cases hlt : hi T W < lo T W
  · have h₁ := lt_mul_lo T W hT hW hlt
    have h₂ := mul_lo_lt T W (by omega) (by omega) (by omega)
    have h₃ := gap_of_between T W (lo T W) (by omega) h₂ h₁.le
    rw [step, if_pos hlt, if_pos hlt, h₃, Nat.mul_comm]
    rw [Nat.mul_comm] at h₁
    omega
  · have h₁ : ¬ lo T W ∣ T := fun hd =>
      h ((usable_iff T W hT (by omega)).mpr ⟨lo T W, le_rfl, by omega, hd⟩)
    rw [step, if_neg hlt, if_neg hlt]
    exact ⟨gap_of_not_dvd T _ hlo h₁, gap_pos T _ hlo h₁⟩

theorem nextLayoutPadding_ok (Q code W : Nat) (hc : ValidCode code) (hW : 373 ≤ W)
    (h : ¬ Usable (total Q code) W) :
    nextLayoutPadding Machine.exact Q 373 code W = .ok (step (total Q code) W) := by
  have hT := total_ge Q code
  have hC : total Q code - 373 = cipherLength Q code := by simp [total]
  have hCT : 373 + cipherLength Q code = total Q code := rfl
  have hmax := maxTokenCount_eq (total Q code) W hT
  have hmin := minTokenCount_eq (total Q code) W (by omega)
  have hnd : ¬ hi (total Q code) W < lo (total Q code) W →
      ¬ lo (total Q code) W ∣ total Q code := fun hle hd =>
    h ((usable_iff _ W hT (by omega)).mpr ⟨_, le_rfl, by omega, hd⟩)
  have hlt := lt_mul_lo (total Q code) W hT hW
  have hlo := one_le_lo (total Q code) W
  rw [(paddingStep_eq _ W hT hW h).1, nextLayoutPadding,
    ciphertextLength_ok _ Q code hc exact_size, ok_bind, exact_size, hCT]
  rw [hC] at hmin
  dsimp only
  rw [hmax, ok_bind, hmin, ok_bind]
  clear hC hCT hmax hmin h hT
  generalize hi (total Q code) W = a at *
  generalize lo (total Q code) W = b at *
  generalize total Q code = T at *
  by_cases hab : a < b
  · have h₁ : T < b * W := by
      rw [Nat.mul_comm]
      exact hlt hab
    rw [if_pos hab, if_pos hab, exact_size, if_pos h₁, pure_eq_ok]
  · have h₁ : T % b ≠ 0 := fun h0 => hnd hab (Nat.dvd_of_mod_eq_zero h0)
    obtain ⟨n, hn⟩ : ∃ n, a + 1 - b = n + 1 := ⟨a - b, by omega⟩
    rw [if_neg hab, if_neg hab, hn, List.range'_succ, paddingCandidates, if_neg h₁, pure_eq_ok]

/-- From `padding` the loop arrives at a usable total within the limit. -/
inductive Found (P code W limit : Nat) : Nat → Prop
  | here {p : Nat} : p ≤ limit → Usable (total (P + p) code) W → Found P code W limit p
  | next {p : Nat} : p ≤ limit → ¬ Usable (total (P + p) code) W →
      Found P code W limit (p + step (total (P + p) code) W) → Found P code W limit p

variable {P code W limit p : Nat}

theorem found_of_usable (h : Usable (total (P + p) code) W) :
    Found P code W limit p ↔ p ≤ limit := by
  constructor
  · rintro (⟨hp, -⟩ | ⟨hp, -⟩) <;> exact hp
  · exact fun hp => .here hp h

theorem found_of_not_usable (h : ¬ Usable (total (P + p) code) W) :
    Found P code W limit p ↔
      p ≤ limit ∧ Found P code W limit (p + step (total (P + p) code) W) := by
  constructor
  · rintro (⟨-, hu⟩ | ⟨hp, -, hn⟩)
    · exact absurd hu h
    · exact ⟨hp, hn⟩
  · exact fun hp => .next hp.1 h hp.2

/-- Each round adds at least one octet, so the fuel lasts. -/
theorem paddingSearch_spec (hc : ValidCode code) (hW : 373 ≤ W) (fuel : Nat) :
    ∀ p, 0 < fuel → limit + 1 < fuel + p →
      (Found P code W limit p →
        ∃ l, paddingSearch Machine.exact P code W limit fuel p = .ok l) ∧
      (¬ Found P code W limit p →
        paddingSearch Machine.exact P code W limit fuel p = .error searchFailed) := by
  induction fuel with
  | zero => exact fun p h0 => absurd h0 (lt_irrefl 0)
  | succ fuel ih =>
    intro p _ hp
    rw [paddingSearch, exact_size]
    by_cases hle : p ≤ limit
    · by_cases hu : Usable (total (P + p) code) W
      · obtain ⟨l, hl⟩ := layoutExact_ok (P + p) code W hc (by omega) hu
        rw [if_pos hle, hl]
        exact ⟨fun _ => ⟨_, rfl⟩, fun h => absurd (.here hle hu) h⟩
      · obtain ⟨e, he, hlog⟩ := layoutExact_error (P + p) code W hc (by omega) hu
        have hs := (paddingStep_eq _ W (total_ge (P + p) code) hW hu).2
        have hn := nextLayoutPadding_ok (P + p) code W hc hW hu
        rw [if_pos hle, he]
        dsimp only
        rw [if_pos hlog, smEncSize, kSmEncBytes_eq, hn, ok_bind, if_neg (by omega), exact_size,
          found_of_not_usable hu]
        have hih := ih (p + step (total (P + p) code) W) (by omega) (by omega)
        exact ⟨fun h => hih.1 h.2, fun h => hih.2 fun hf => h ⟨hle, hf⟩⟩
    · rw [if_neg hle]
      constructor
      · rintro (⟨h, -⟩ | ⟨h, -⟩) <;> omega
      · exact fun _ => rfl

theorem computeWireLayout_spec (hc : ValidCode code) (hW : AcceptedBlockBytes W) :
    (Found P code W (maxPlaintextPaddingForLayout W) 0 →
      ∃ l, computeWireLayout Machine.exact P code W = .ok l) ∧
    (¬ Found P code W (maxPlaintextPaddingForLayout W) 0 →
      computeWireLayout Machine.exact P code W = .error searchFailed) := by
  rw [computeWireLayout, (validate_ok code).mpr hc, ok_bind,
    (validateMaxWireBlockBytes_ok W).mpr hW, ok_bind]
  exact paddingSearch_spec hc ((acceptedBlockBytes_iff W).mp hW).1 _ 0 (by omega) (by omega)

theorem usable_large {T : Nat} (hW : 373 ≤ W) (h : 8 * W ≤ T) : Usable T W ↔ W ∣ T := by
  have hT : 373 ≤ T := by omega
  have hhi := hi_large T W hW h
  have hle := le_mul_lo T W (by omega)
  have hdiv := Nat.div_mul_le_self T W
  rw [usable_iff T W hT (by omega), hhi]
  constructor
  · rintro ⟨m, h₁, h₂, -⟩
    have h₃ : m * W ≤ T / W * W := Nat.mul_le_mul_right W h₂
    have h₄ : W * lo T W ≤ W * m := Nat.mul_le_mul_left W h₁
    rw [Nat.mul_comm m W] at h₃
    exact ⟨m, by omega⟩
  · intro hd
    refine ⟨T / W, ?_, le_rfl, Nat.div_dvd_of_dvd hd⟩
    by_contra hlt
    have hlow := mul_lo_lt T W (by omega) (by omega) (by omega)
    have h₁ : W * (T / W) ≤ W * (lo T W - 1) := Nat.mul_le_mul_left W (by omega)
    rw [Nat.mul_div_cancel' hd] at h₁
    omega

theorem step_large {T : Nat} (hW : 373 ≤ W) (h : 8 * W ≤ T) (hd : ¬ W ∣ T) :
    step T W = gap T W := by
  have hhi := hi_large T W hW h
  have hle := le_mul_lo T W (by omega)
  have hdiv := Nat.div_mul_le_self T W
  rw [step, if_pos]
  by_contra hlt
  have h₁ : lo T W * W ≤ T / W * W := Nat.mul_le_mul_right W (by omega)
  rw [Nat.mul_comm (lo T W)] at h₁
  exact hd ⟨lo T W, by omega⟩

theorem ref_mono {T T' : Nat} (h : T ≤ T') : ref T ≤ ref T' := by
  rw [ref, ref]
  exact Nat.div_le_div_right (by omega)

theorem ref_add_le (T d : Nat) (h : d ≤ kWireBlockRef) : ref (T + d) ≤ ref T + 1 := by
  have hr : 0 < kWireBlockRef := by simp [kWireBlockRef]
  rw [ref, ref]
  generalize kWireBlockRef = r at *
  rw [← Nat.add_div_right _ hr]
  exact Nat.div_le_div_right (by omega)

theorem hi_mid {T : Nat} (hT : 2984 ≤ T) (h : T < 8 * W) : hi T W = 8 := by
  have h₁ := hi_small T W (by omega) h
  have h₂ : 8 ≤ T / 373 := (Nat.le_div_iff_mul_le (by decide)).mpr (by omega)
  omega

theorem lo_mid {T : Nat} (hT : 2984 ≤ T) (h : T < 8 * W) : lo T W ≤ 8 := by
  have hhi := hi_mid hT h
  by_contra hlt
  have h₁ := mul_lo_lt T W (by omega) (by omega) (by omega)
  have h₂ : W * 8 ≤ W * (lo T W - 1) := Nat.mul_le_mul_left W (by omega)
  omega

theorem lo_last {T : Nat} (hT : 2984 ≤ T) (h : T < 8 * W) (h₇ : 7 * W < T) : lo T W = 8 := by
  have hle := lo_mid hT h
  have h₁ := le_mul_lo T W (by omega)
  by_contra hne
  have h₂ : W * lo T W ≤ W * 7 := Nat.mul_le_mul_left W (by omega)
  omega

theorem step_mid {T : Nat} (hT : 2984 ≤ T) (h : T < 8 * W) :
    step T W = gap T (lo T W) ∧ step T W ≤ 7 ∧ T + step T W ≤ 8 * W := by
  have hhi := hi_mid hT h
  have hlo := lo_mid hT h
  have h₁ := one_le_lo T W
  have hlt := gap_lt T (lo T W) h₁
  have hle := le_mul_lo T W (by omega)
  rw [Nat.mul_comm] at hle
  have hend := add_gap_le T (lo T W) W h₁ hle
  have h₈ : lo T W * W ≤ 8 * W := Nat.mul_le_mul_right W hlo
  rw [step, if_neg (by omega)]
  omega

/-- A multiple of `k` that `k` blocks can hold is usable, unless the reference bound is above `k`. -/
theorem usable_of_aligned (T k : Nat) (hW : 373 ≤ W) (hk : 1 ≤ k) (hk₈ : k ≤ 8) (hd : k ∣ T)
    (hle : T ≤ W * k) (hge : k * 373 ≤ T) :
    Usable T W ∨ T < 8 * W ∧ k < ref T ∧ ref T ≤ 8 := by
  have h₈ : W * k ≤ W * 8 := Nat.mul_le_mul_left W hk₈
  rcases Nat.lt_or_ge T (8 * W) with hlt | hfull
  · have hhi := hi_small T W (by omega) hlt
    have hk' : k ≤ T / 373 := (Nat.le_div_iff_mul_le (by decide)).mpr hge
    by_cases hcmp : lo T W ≤ k
    · left
      rw [usable_iff T W (by omega) (by omega)]
      exact ⟨k, hcmp, by omega, hd⟩
    · right
      -- the block size alone would allow `k`, so the reference bound is what forbids it
      have h₁ : ref T ≤ hi T W ∧ lo T W ≤ ref T := by
        by_contra hno
        have h₂ := mul_lo_lt T W (by omega) (by omega) (by omega)
        have h₃ : W * k ≤ W * (lo T W - 1) := Nat.mul_le_mul_left W (by omega)
        omega
      omega
  · left
    rw [usable_large hW hfull]
    exact ⟨8, by omega⟩

/-- One step is enough unless the reference bound rises meanwhile. -/
theorem usable_after_step {T : Nat} (hT : 2984 ≤ T) (hW : 373 ≤ W) (h : T < 8 * W) :
    Usable (T + step T W) W ∨ T + step T W < 8 * W ∧ ref T < ref (T + step T W) := by
  obtain ⟨hs, -, -⟩ := step_mid hT h
  have h₁ := one_le_lo T W
  have hdvd : lo T W ∣ T + step T W := hs ▸ dvd_add_gap T (lo T W) h₁
  have hend : T + step T W ≤ W * lo T W := by
    rw [hs, Nat.mul_comm]
    exact add_gap_le T (lo T W) W h₁ (by rw [Nat.mul_comm]; exact le_mul_lo T W (by omega))
  have hlo := lo_mid hT h
  have hhi := hi_mid hT h
  have href := ref_le_lo T W
  have hmono := ref_mono (Nat.le_add_right T (step T W))
  rcases usable_of_aligned _ _ hW h₁ hlo hdvd hend (by omega) with hu | ⟨hlt, hk, h₈⟩
  · exact .inl hu
  · exact .inr ⟨hlt, by omega⟩

theorem usable_smb_only (hW : 373 ≤ W) : Usable 373 W := by
  have href : ref 373 = 0 := by
    rw [ref]
    exact Nat.div_eq_of_lt (by simp [kWireBlockRef])
  have h := usable_of_aligned 373 1 hW le_rfl (by decide) (one_dvd _) (by omega) (by omega)
  exact h.resolve_right (by omega)

theorem records_le (code a d j : Nat) (hd : d ≤ j * (16 * 1024 * 1024)) :
    recordCount (a + d) code ≤ recordCount a code + j := by
  by_contra h
  have h₁ := recordCount_add_lt a d code j (by omega)
  by_cases hc : code = 0
  · subst hc
    simp only [recordCount_zero_code] at h
    omega
  · have h₂ : j * (16 * 1024 * 1024) ≤ j * segmentBytes code :=
      Nat.mul_le_mul_left j (segmentBytes_ge code (by omega))
    omega

/-- Padding of at most 16 MiB inside which no record is added moves the total by its own length. -/
theorem total_quiet {s d : Nat} (h : recordCount (P + p + d) code = recordCount (P + p) code)
    (hs : s ≤ d) :
    total (P + (p + s)) code = total (P + p) code + s ∧
      recordCount (P + (p + s)) code = recordCount (P + p) code := by
  have h₁ := recordCount_mono code (show P + p ≤ P + (p + s) by omega)
  have h₂ := recordCount_mono code (show P + (p + s) ≤ P + p + d by omega)
  have h₃ := total_add (P + p) s code
  rw [Nat.add_assoc] at h₃
  omega

theorem found_quiet (hW : 373 ≤ W) (hT : 2984 ≤ total (P + p) code)
    (hle : total (P + p) code ≤ 8 * W) (hp : p + 14 ≤ limit)
    (hN : recordCount (P + p + 14) code = recordCount (P + p) code) : Found P code W limit p := by
  by_cases hu : Usable (total (P + p) code) W
  · exact .here (by omega) hu
  have hlt : total (P + p) code < 8 * W := by
    by_contra hge
    exact hu ((usable_large hW (by omega)).mpr ⟨8, by omega⟩)
  obtain ⟨-, hs, -⟩ := step_mid hT hlt
  obtain ⟨hT₁, hN₁⟩ := total_quiet hN (show step (total (P + p) code) W ≤ 14 by omega)
  refine .next (by omega) hu ?_
  have hafter := usable_after_step hT hW hlt
  rw [← hT₁] at hafter
  generalize step (total (P + p) code) W = s at *
  by_cases hu₁ : Usable (total (P + (p + s)) code) W
  · exact .here (by omega) hu₁
  obtain ⟨hlt₁, href⟩ := hafter.resolve_left hu₁
  obtain ⟨-, hs₁, -⟩ := step_mid (by omega) hlt₁
  have hN' : recordCount (P + (p + s) + 7) code = recordCount (P + (p + s)) code := by
    have h₁ := recordCount_mono code (show P + (p + s) ≤ P + (p + s) + 7 by omega)
    have h₂ := recordCount_mono code (show P + (p + s) + 7 ≤ P + p + 14 by omega)
    omega
  obtain ⟨hT₂, -⟩ := total_quiet hN' hs₁
  refine .next (by omega) hu₁ (.here (by omega) ?_)
  rw [hT₂]
  refine (usable_after_step (by omega) hW hlt₁).resolve_right ?_
  rintro ⟨-, href₂⟩
  -- the reference bound would have risen twice within fourteen octets
  have hr : 14 ≤ kWireBlockRef := by simp [kWireBlockRef]
  have hbound := ref_add_le (total (P + p) code) (s + step (total (P + (p + s)) code) W) (by omega)
  have he : total (P + (p + s)) code + step (total (P + (p + s)) code) W =
      total (P + p) code + (s + step (total (P + (p + s)) code) W) := by omega
  rw [he] at href₂
  omega

/-- Padding of `s` octets that opens `j` new records. -/
theorem total_cross {s j : Nat} (h : recordCount (P + (p + s)) code = recordCount (P + p) code + j) :
    total (P + (p + s)) code = total (P + p) code + s + 28 * j := by
  have h₃ := total_add (P + p) s code
  rw [Nat.add_assoc] at h₃
  omega

/-- Below eight full blocks the search goes on to succeed, unless the alignment to eight blocks
itself crosses a segment boundary and the new record takes the total past eight full blocks. -/
theorem found_mid (hW : 373 ≤ W) (hT : 2984 ≤ total (P + p) code)
    (hlt : total (P + p) code < 8 * W) (hp : p + 64 ≤ limit) :
    Found P code W limit p ∨
      recordCount (P + (p + gap (total (P + p) code) 8)) code = recordCount (P + p) code + 1 ∧
        8 * W < total (P + (p + gap (total (P + p) code) 8)) code := by
  by_cases hu : Usable (total (P + p) code) W
  · exact .inl (.here (by omega) hu)
  obtain ⟨hsgap, hs, -⟩ := step_mid hT hlt
  have hafter := usable_after_step hT hW hlt
  have hlast := lo_last hT hlt
  have hN₂ := records_le code (P + p) 28 1 (by omega)
  have hmono := recordCount_mono code (show P + p ≤ P + (p + step (total (P + p) code) W) by omega)
  have hmono₂ :=
    recordCount_mono code (show P + (p + step (total (P + p) code) W) ≤ P + p + 28 by omega)
  by_cases hx : recordCount (P + (p + step (total (P + p) code) W)) code =
      recordCount (P + p) code
  · -- no boundary in the first step; a second one follows only if the reference bound rose
    left
    have hT₁ := total_cross (j := 0) hx
    rw [Nat.mul_zero, Nat.add_zero] at hT₁
    rw [← hT₁] at hafter
    refine .next (by omega) hu ?_
    generalize step (total (P + p) code) W = s at *
    by_cases hu₁ : Usable (total (P + (p + s)) code) W
    · exact .here (by omega) hu₁
    obtain ⟨hlt₁, href⟩ := hafter.resolve_left hu₁
    obtain ⟨-, hs₁, -⟩ := step_mid (by omega) hlt₁
    have hafter₁ := usable_after_step (by omega) hW hlt₁
    refine .next (by omega) hu₁ ?_
    have hhi := hi_mid (by omega) hlt₁
    have hlo := lo_mid (by omega) hlt₁
    generalize step (total (P + (p + s)) code) W = t at *
    have hm₁ := recordCount_mono code (show P + (p + s) ≤ P + (p + s + t) by omega)
    have hm₂ := recordCount_mono code (show P + (p + s + t) ≤ P + (p + s + t) + 14 by omega)
    have hm₃ := recordCount_mono code (show P + (p + s + t) + 14 ≤ P + p + 28 by omega)
    by_cases hy : recordCount (P + (p + s + t)) code = recordCount (P + (p + s)) code
    · have hT₂ := total_cross (j := 0) hy
      rw [Nat.mul_zero, Nat.add_zero] at hT₂
      refine .here (by omega) ?_
      rw [hT₂]
      refine hafter₁.resolve_right ?_
      rintro ⟨-, href₂⟩
      have hr : 14 ≤ kWireBlockRef := by simp [kWireBlockRef]
      have hbound := ref_add_le (total (P + p) code) (s + t) (by omega)
      have he : total (P + (p + s)) code + t = total (P + p) code + (s + t) := by omega
      rw [he] at href₂
      omega
    · have hT₂ := total_cross (j := 1) (show recordCount (P + (p + s + t)) code =
        recordCount (P + (p + s)) code + 1 by omega)
      rcases Nat.lt_or_ge (8 * W) (total (P + (p + s + t)) code) with hover | hin
      · -- then the first step already aligned the total to eight blocks
        exfalso
        have h₈ := hlast (by omega)
        refine hu₁ ((usable_iff _ W (by omega) (by omega)).mpr ⟨8, hlo, by omega, ?_⟩)
        rw [hT₁, hsgap, h₈]
        exact dvd_add_gap _ 8 (by decide)
      · exact found_quiet hW (by omega) hin (by omega) (by omega)
  · have hN₁ : recordCount (P + (p + step (total (P + p) code) W)) code =
        recordCount (P + p) code + 1 := by omega
    have hT₁ := total_cross hN₁
    rcases Nat.lt_or_ge (8 * W) (total (P + (p + step (total (P + p) code) W)) code) with hover | hin
    · right
      have h₈ := hlast (by omega)
      rw [hsgap, h₈] at hN₁ hover
      exact ⟨hN₁, hover⟩
    · left
      have hm₂ := recordCount_mono code
        (show P + (p + step (total (P + p) code) W) ≤
          P + (p + step (total (P + p) code) W) + 14 by omega)
      have hm₃ := recordCount_mono code
        (show P + (p + step (total (P + p) code) W) + 14 ≤ P + p + 28 by omega)
      exact .next (by omega) hu (found_quiet hW (by omega) hin (by omega) (by omega))

/-- Once a boundary has been crossed, the next full block must be reached without crossing another:
a second boundary is more than 16 MiB of padding away, and the limit is then one block. -/
theorem found_tail {k r : Nat} (hW : 373 ≤ W) (hcap : W ≤ 32 * 1024 * 1024)
    (hlimit : limit = max (16 * 1024 * 1024) W) (hp : p ≤ limit)
    (hN : recordCount P code < recordCount (P + p) code)
    (hT : total (P + p) code = W * k + r) (hr₀ : 0 < r) (hr : r ≤ 56) (hk : 8 ≤ k) :
    Found P code W limit p ↔
      p + gap (total (P + p) code) W ≤ limit ∧
        recordCount (P + (p + gap (total (P + p) code) W)) code = recordCount (P + p) code := by
  have hk₈ : W * 8 ≤ W * k := Nat.mul_le_mul_left W hk
  have hnd : ¬ W ∣ total (P + p) code := hT ▸ not_dvd_mul_add W k r hr₀ (by omega)
  have hu : ¬ Usable (total (P + p) code) W := by rwa [usable_large hW (by omega)]
  have hgap : gap (total (P + p) code) W = W - r := hT ▸ gap_of_mul_add W k r hr₀ (by omega)
  have hstep := step_large hW (by omega) hnd
  rw [found_of_not_usable hu, hstep, hgap]
  have hle := records_le code (P + p) (W - r) 2 (by omega)
  have hge := recordCount_mono code (show P + p ≤ P + p + (W - r) by omega)
  rw [Nat.add_assoc] at hle hge
  obtain ⟨j, hj⟩ : ∃ j, recordCount (P + (p + (W - r))) code = recordCount (P + p) code + j :=
    ⟨_, (Nat.add_sub_cancel' hge).symm⟩
  have hT₂ := total_cross hj
  have hk₁ : W * (k + 1) = W * k + W := by rw [Nat.mul_add, Nat.mul_one]
  rcases Nat.eq_zero_or_pos j with rfl | hpos
  · have hu₂ : Usable (total (P + (p + (W - r))) code) W := by
      rw [usable_large hW (by omega)]
      exact ⟨k + 1, by omega⟩
    rw [found_of_usable hu₂]
    constructor
    · exact fun h => ⟨h.2, by omega⟩
    · exact fun h => ⟨hp, h.1⟩
  · constructor
    · rintro ⟨-, hf⟩
      exfalso
      have hT₃ : total (P + (p + (W - r))) code = W * (k + 1) + 28 * j := by omega
      have hnd₂ : ¬ W ∣ total (P + (p + (W - r))) code :=
        hT₃ ▸ not_dvd_mul_add W (k + 1) (28 * j) (by omega) (by omega)
      have hu₂ : ¬ Usable (total (P + (p + (W - r))) code) W := by
        rwa [usable_large hW (by omega)]
      have hgap₂ : gap (total (P + (p + (W - r))) code) W = W - 28 * j :=
        hT₃ ▸ gap_of_mul_add W (k + 1) (28 * j) (by omega) (by omega)
      rw [found_of_not_usable hu₂, step_large hW (by omega) hnd₂, hgap₂] at hf
      have hend : p + (W - r) + (W - 28 * j) ≤ limit := by
        rcases hf.2 with ⟨h, -⟩ | ⟨h, -⟩ <;> exact h
      have hfar : 16 * 1024 * 1024 < p + (W - r) := by
        by_contra hnear
        have h₁ := records_le code P (p + (W - r)) 1 (by omega)
        omega
      omega
    · intro h
      omega

/-- Within 16 MiB of plaintext only the very first octet opens a record. -/
theorem records_small (P d code : Nat) (h : P + d ≤ 16 * 1024 * 1024) :
    recordCount (P + d) code = recordCount P code ∨ total P code = 373 := by
  by_cases hc : code = 0
  · left
    subst hc
    rw [recordCount_zero_code, recordCount_zero_code]
  · by_cases hP : P = 0
    · right
      have hs := segmentBytes_pos code
      have h₀ : recordCount 0 code = 0 := by
        rw [recordCount, if_neg hc]
        exact Nat.div_eq_of_lt (by omega)
      simp [hP, total, cipherLength, h₀]
    · left
      have h₁ : ∀ n, 0 < n → n ≤ 16 * 1024 * 1024 → recordCount n code = 1 := by
        intro n hn hle
        have hs := segmentBytes_ge code (by omega)
        rw [recordCount, if_neg hc]
        generalize segmentBytes code = S at *
        apply Nat.div_eq_of_lt_le <;> omega
      rw [h₁ P (by omega) (by omega), h₁ (P + d) (by omega) h]

theorem total_one (hP : code = 0 ∨ 0 < P) (hle : P ≤ 16 * 1024 * 1024) :
    total P code = P + 401 := by
  have hone : recordCount P code = 1 := by
    rw [recordCount]
    split
    · rfl
    next h₀ =>
      have hs := segmentBytes_ge code (by omega)
      generalize segmentBytes code = s at *
      apply Nat.div_eq_of_lt_le <;> omega
  rw [total, cipherLength, hone]
  omega

theorem ref_le_one {T : Nat} (hT : T ≤ 2984) : ref T ≤ 1 := by
  have hr : 2984 ≤ kWireBlockRef := by simp [kWireBlockRef]
  rw [ref]
  generalize kWireBlockRef = r at *
  exact Nat.le_of_lt_succ (Nat.div_lt_of_lt_mul (by omega))

theorem ref_le_eight {T : Nat} (hT : T ≤ 32 * 1024 * 1024) : ref T ≤ 8 := by
  rw [ref, kWireBlockRef]
  omega

theorem lo_two {T : Nat} (hT : T ≤ 2984) (h₁ : W < T) (h₂ : T ≤ 2 * W) : lo T W = 2 := by
  have hle := le_mul_lo T W (by omega)
  have href := ref_le_one hT
  have hge : 2 ≤ lo T W := by
    by_contra hlt
    have h₃ : W * lo T W ≤ W * 1 := Nat.mul_le_mul_left W (by omega)
    omega
  have hlow := mul_lo_lt T W (by omega) (by omega) fun _ => by omega
  by_contra hne
  have h₃ : W * 2 ≤ W * (lo T W - 1) := Nat.mul_le_mul_left W (by omega)
  omega

/-- The whole object in one block. -/
theorem usable_one {T : Nat} (hT : 373 ≤ T) (hW : T ≤ W) (href : ref T ≤ 1) : Usable T W := by
  have h := usable_of_aligned (W := W) T 1 (by omega) le_rfl (by decide) (one_dvd T) (by omega) (by omega)
  exact h.resolve_right (by omega)

theorem found_tiny (hW : 373 ≤ W) (hlimit : W ≤ limit) (hT : total P code < 2984) :
    Found P code W limit 0 := by
  have hge := total_ge P code
  by_cases hu : Usable (total P code) W
  · exact .here (Nat.zero_le _) hu
  have hne : total P code ≠ 373 := fun h => hu (h ▸ usable_smb_only hW)
  have hP : P < 2984 := by
    have h : total P code = 373 + (P + 28 * recordCount P code) := rfl
    omega
  have hlo := one_le_lo (total P code) W
  have hhi := hi_small (total P code) W hge (by omega)
  have hle := le_mul_lo (total P code) W (by omega)
  -- either way the step stays below a block and ends on a multiple of the lower bound
  have hstep : step (total P code) W < W ∧ step (total P code) W < 2984 ∧
      lo (total P code) W ∣ total P code + step (total P code) W ∧
      total P code + step (total P code) W ≤ W * lo (total P code) W ∧ lo (total P code) W ≤ 8 ∧
      lo (total P code) W * 373 ≤ total P code + step (total P code) W := by
    by_cases hlt : hi (total P code) W < lo (total P code) W
    · have h₁ := mul_lo_lt (total P code) W (by omega) (by omega) (by omega)
      have h₂ := gap_of_between (total P code) W _ (by omega) h₁ hle
      have h₃ := gap_lt (total P code) W (by omega)
      have h₄ : 2 ≤ lo (total P code) W := by
        have h₅ : 1 ≤ total P code / 373 := (Nat.le_div_iff_mul_le (by decide)).mpr (by omega)
        omega
      have h₆ : W * 1 ≤ W * (lo (total P code) W - 1) := Nat.mul_le_mul_left W (by omega)
      have h₇ : lo (total P code) W ≤ 8 := by
        by_contra h₈
        have h₉ : W * 8 ≤ W * (lo (total P code) W - 1) := Nat.mul_le_mul_left W (by omega)
        omega
      have he : total P code + step (total P code) W = W * lo (total P code) W := by
        rw [step, if_pos hlt]
        omega
      have hs : step (total P code) W = gap (total P code) W := by rw [step, if_pos hlt]
      rw [he]
      refine ⟨by omega, by omega, Dvd.intro_left W rfl, le_rfl, h₇, ?_⟩
      rw [Nat.mul_comm]
      exact Nat.mul_le_mul_right _ hW
    · have hs : step (total P code) W = gap (total P code) (lo (total P code) W) := by
        rw [step, if_neg hlt]
      have h₁ := gap_lt (total P code) _ hlo
      have h₂ := hi_mul_le (total P code) W (lo (total P code) W) hge (by omega)
      rw [hs]
      refine ⟨by omega, by omega, dvd_add_gap _ _ hlo, ?_, by omega, by omega⟩
      rw [Nat.mul_comm] at hle ⊢
      exact add_gap_le _ _ W hlo hle
  have hu₀ : ¬ Usable (total (P + 0) code) W := hu
  rw [found_of_not_usable hu₀, Nat.add_zero, Nat.zero_add]
  obtain ⟨hsW, hs, hdvd, hend, hlo₈, hfloor⟩ := hstep
  generalize step (total P code) W = s at *
  have hN := (records_small P s code (by omega)).resolve_right hne
  have hT₁ := total_add P s code
  rw [hN] at hT₁
  refine ⟨Nat.zero_le _, .here (by omega) ?_⟩
  rw [Nat.add_right_cancel hT₁]
  refine (usable_of_aligned _ _ hW hlo hlo₈ hdvd hend hfloor).resolve_right ?_
  rintro ⟨-, hk, -⟩
  have href : ref (total P code + s) ≤ 1 := by
    have hr : 2984 + 2984 ≤ kWireBlockRef := by simp [kWireBlockRef]
    rw [ref]
    generalize kWireBlockRef = r at *
    exact Nat.le_of_lt_succ (Nat.div_lt_of_lt_mul (by omega))
  omega

/-- The first alignment of the total: to a full block, or to eight equal blocks. -/
def firstPadding (totalWire maxWireBlockBytes : Nat) : Nat :=
  if 8 * maxWireBlockBytes ≤ totalWire then gap totalWire maxWireBlockBytes else gap totalWire 8

/-- The first alignment opens no new record, or stays within eight blocks, or the alignment after
it to a full block opens no further record and still fits the padding limit. -/
def AlignmentSettles (plaintextLength segmentCode maxWireBlockBytes : Nat) : Prop :=
  let a := firstPadding (total plaintextLength segmentCode) maxWireBlockBytes
  let b := gap (total (plaintextLength + a) segmentCode) maxWireBlockBytes
  recordCount (plaintextLength + a) segmentCode = recordCount plaintextLength segmentCode ∨
    total (plaintextLength + a) segmentCode ≤ 8 * maxWireBlockBytes ∨
    a + b ≤ maxPlaintextPaddingForLayout maxWireBlockBytes ∧
      recordCount (plaintextLength + (a + b)) segmentCode =
        recordCount (plaintextLength + a) segmentCode

instance (plaintextLength segmentCode maxWireBlockBytes : Nat) :
    Decidable (AlignmentSettles plaintextLength segmentCode maxWireBlockBytes) :=
  inferInstanceAs (Decidable (_ ∨ _ ∨ _ ∧ _))

theorem limit_eq (W : Nat) : maxPlaintextPaddingForLayout W = max (16 * 1024 * 1024) W := rfl

theorem usable_zero (P code W : Nat) : Usable (total (P + 0) code) W = Usable (total P code) W := rfl

theorem found_large (hW : 373 ≤ W) (hcap : W ≤ 32 * 1024 * 1024)
    (hlimit : limit = max (16 * 1024 * 1024) W) (hT : 8 * W ≤ total P code) :
    Found P code W limit 0 ↔
      recordCount (P + gap (total P code) W) code = recordCount P code ∨
      gap (total P code) W + gap (total (P + gap (total P code) W) code) W ≤ limit ∧
        recordCount (P + (gap (total P code) W + gap (total (P + gap (total P code) W) code) W)) code
          = recordCount (P + gap (total P code) W) code := by
  have hmono := recordCount_mono code (Nat.le_add_right P (gap (total P code) W))
  have hlt := gap_lt (total P code) W (by omega)
  have hle := records_le code P (gap (total P code) W) 2 (by omega)
  have hT₁ := total_add P (gap (total P code) W) code
  obtain ⟨k, hk⟩ := dvd_add_gap (total P code) W (by omega)
  by_cases hd : W ∣ total P code
  · have h₀ := gap_eq_zero _ _ hd
    have hu : Usable (total (P + 0) code) W := (usable_large hW hT).mpr hd
    rw [found_of_usable hu, h₀, Nat.add_zero]
    exact ⟨fun _ => .inl rfl, fun _ => Nat.zero_le _⟩
  · have hu : ¬ Usable (total (P + 0) code) W := by rwa [usable_zero, usable_large hW hT]
    rw [found_of_not_usable hu, Nat.add_zero, Nat.zero_add, step_large hW hT hd]
    generalize gap (total P code) W = a at *
    by_cases hN : recordCount (P + a) code = recordCount P code
    · have hu₁ : Usable (total (P + a) code) W := by
        rw [usable_large hW (by omega)]
        exact ⟨k, by omega⟩
      rw [found_of_usable hu₁]
      exact ⟨fun _ => .inl hN, fun _ => ⟨Nat.zero_le _, by omega⟩⟩
    · have hk₈ : 8 ≤ k := by
        by_contra hlt₈
        have h₁ : W * k ≤ W * 7 := Nat.mul_le_mul_left W (by omega)
        omega
      obtain ⟨j, hj⟩ : ∃ j, recordCount (P + a) code = recordCount P code + j :=
        ⟨_, (Nat.add_sub_cancel' hmono).symm⟩
      rw [found_tail hW hcap hlimit (by omega) (by omega)
        (show total (P + a) code = W * k + 28 * j by omega) (by omega) (by omega) hk₈]
      exact ⟨fun h => .inr h.2, fun h => ⟨Nat.zero_le _, h.resolve_left hN⟩⟩

theorem found_small (hW : 373 ≤ W) (hcap : W ≤ 32 * 1024 * 1024)
    (hlimit : limit = max (16 * 1024 * 1024) W) (hT : total P code < 8 * W) :
    Found P code W limit 0 ↔
      recordCount (P + gap (total P code) 8) code = recordCount P code ∨
      total (P + gap (total P code) 8) code ≤ 8 * W ∨
      gap (total P code) 8 + gap (total (P + gap (total P code) 8) code) W ≤ limit ∧
        recordCount (P + (gap (total P code) 8 + gap (total (P + gap (total P code) 8) code) W)) code
          = recordCount (P + gap (total P code) 8) code := by
  have hmono := recordCount_mono code (Nat.le_add_right P (gap (total P code) 8))
  have hlt := gap_lt (total P code) 8 (by omega)
  have hle := records_le code P (gap (total P code) 8) 1 (by omega)
  have hT₁ := total_add P (gap (total P code) 8) code
  have hdvd := dvd_add_gap (total P code) 8 (by omega)
  have hend := add_gap_le (total P code) 8 W (by omega) hT.le
  rcases Nat.lt_or_ge (total P code) 2984 with htiny | hmid
  · refine iff_of_true (found_tiny hW (by omega) htiny) ?_
    have hP : total P code = 373 + (P + 28 * recordCount P code) := rfl
    rcases records_small P (gap (total P code) 8) code (by omega) with h | h
    · exact .inl h
    · exact .inr (.inl (by omega))
  by_cases hc : recordCount (P + gap (total P code) 8) code = recordCount P code ∨
      total (P + gap (total P code) 8) code ≤ 8 * W
  · have hf : Found P code W limit 0 ∨ _ := found_mid (p := 0) hW hmid hT (by omega)
    rw [Nat.add_zero, Nat.zero_add] at hf
    refine iff_of_true (hf.resolve_right (by omega)) ?_
    rcases hc with h | h
    · exact .inl h
    · exact .inr (.inl h)
  · -- eight is then the only candidate, and the step to it is the first alignment
    have h₁ : recordCount (P + gap (total P code) 8) code = recordCount P code + 1 := by omega
    have hlast := lo_last hmid hT (by omega)
    have hhi := hi_mid hmid hT
    have hstep := (step_mid hmid hT).1
    rw [hlast] at hstep
    have hu : ¬ Usable (total (P + 0) code) W := by
      rw [usable_zero, usable_iff _ W (by omega) (by omega), hlast, hhi]
      rintro ⟨m, h₂, h₃, h₄⟩
      obtain rfl : m = 8 := by omega
      have h₀ := gap_eq_zero _ _ h₄
      rw [h₀, Nat.add_zero] at h₁
      omega
    rw [found_of_not_usable hu, Nat.add_zero, Nat.zero_add, hstep]
    generalize gap (total P code) 8 = a at *
    rw [found_tail (r := total (P + a) code - W * 8) (k := 8) hW hcap hlimit (by omega) (by omega)
      (by omega) (by omega) (by omega) le_rfl]
    constructor
    · exact fun h => .inr (.inr h.2)
    · exact fun h => ⟨Nat.zero_le _, by omega⟩

theorem found_iff (hW : AcceptedBlockBytes W) :
    Found P code W (maxPlaintextPaddingForLayout W) 0 ↔ AlignmentSettles P code W := by
  obtain ⟨hW₁, hW₂⟩ := (acceptedBlockBytes_iff W).mp hW
  rw [AlignmentSettles, firstPadding]
  rcases Nat.lt_or_ge (total P code) (8 * W) with hT | hT
  · rw [if_neg (by omega)]
    exact found_small hW₁ hW₂ (limit_eq W) hT
  · rw [if_pos hT, found_large hW₁ hW₂ (limit_eq W) hT]
    have hmono := recordCount_mono code (Nat.le_add_right P (gap (total P code) W))
    have hT₁ := total_add P (gap (total P code) W) code
    constructor
    · rintro (h | h)
      · exact .inl h
      · exact .inr (.inr h)
    · rintro (h | h | h)
      · exact .inl h
      · -- a total that did not grow past eight blocks has no new record
        exact .inl (by omega)
      · exact .inr h

/-- `compute_wire_layout` returns a layout exactly when the alignment settles; otherwise the
search runs past the padding limit. -/
theorem computeWireLayout_ok_iff (P code W : Nat) (hc : ValidCode code)
    (hW : AcceptedBlockBytes W) :
    ((∃ l, computeWireLayout Machine.exact P code W = .ok l) ↔ AlignmentSettles P code W) ∧
      (computeWireLayout Machine.exact P code W = .error searchFailed ↔
        ¬ AlignmentSettles P code W) := by
  have hs := computeWireLayout_spec (P := P) hc hW
  rw [found_iff hW] at hs
  by_cases h : AlignmentSettles P code W
  · obtain ⟨l, hl⟩ := hs.1 h
    simp [h, hl]
  · simp [h, hs.2 h]

theorem computeWireLayout_ok_iff_small :
    ∃ l, computeWireLayout Machine.exact 1000 1 4096 = .ok l :=
  (computeWireLayout_ok_iff 1000 1 4096 (by decide) (by decide)).1.mpr (by decide)

/-- Nine segments of 16 MiB less 100 octets, in blocks of 16 MiB: the padding to a full block
opens a tenth record. -/
theorem computeWireLayout_incomplete :
    ¬ ∀ P code W, ValidCode code → AcceptedBlockBytes W →
      ∃ l, computeWireLayout Machine.exact P code W = .ok l := by
  intro h
  have hW : AcceptedBlockBytes 16777216 := by decide
  have hs := computeWireLayout_spec (P := 150994844) (show ValidCode 1 by decide) hW
  rw [found_iff hW] at hs
  obtain ⟨l, hl⟩ := h 150994844 1 16777216 (by decide) hW
  rw [hs.2 (by decide)] at hl
  simp at hl

end TwelveC.PaddingSearch
