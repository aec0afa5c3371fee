import TwelveC.LayoutChoice
import TwelveC.Payload

/-!
# Where the padding ends up

The padding is the front of the padded plaintext. Its octets stay out of the
last logical block unless the object is so small that the empty token range
makes the search double it: then the padding reaches past the first block.
-/

namespace TwelveC.PaddingPlacement

open Segment WireLayout PaddingSearch LayoutChoice Payload Crypto Lib.Align Lib.Cut

/-- The offset in the ciphertext of plaintext octet `i`: each record opens with 28 octets of nonce
and tag. -/
def sealedOffset (segmentCode i : Nat) : Nat :=
  if segmentCode = 0 then 28 + i
  else i / segmentBytes segmentCode * (segmentBytes segmentCode + 28) + 28 +
    i % segmentBytes segmentCode

section Offsets

variable {C : Primitives} {kFek plaintext stream tape tape' pack : Bytes} {segmentCode i : Nat}

/-- Octet `j` of a chunk becomes octet `28 + j` of its record. -/
theorem octet_of_record {chunk : Bytes} (hC : C.Laws) (h : Sealed C kFek chunk pack) (j : Nat) :
    ∃ nonce body tag, C.gcmSeal kFek nonce chunk = some (body, tag) ∧ pack[28 + j]? = body[j]? := by
  obtain ⟨-, nonce, body, tag, hn, hseal, rfl⟩ := sealed_iff.mp h
  refine ⟨nonce, body, tag, hseal, ?_⟩
  have hfront : (nonce ++ tag).length = 28 := by
    rw [List.length_append, hn, hC.tag_length hseal]
    rfl
  rw [EncryptedBlob.pack, List.getElem?_append_right (hfront.le.trans (Nat.le_add_right _ _)), hfront,
    Nat.add_sub_cancel_left]

theorem octet_of_records (hC : C.Laws) {s : Nat} (hs : 0 < s) (hlt : s < 2 ^ 31)
    {packs : List Bytes} (h : List.Forall₂ (Sealed C kFek) (cut s plaintext) packs)
    (hi : i < plaintext.length) :
    ∃ nonce chunk body tag, C.gcmSeal kFek nonce chunk = some (body, tag) ∧
      chunk[i % s]? = plaintext[i]? ∧
      packs.flatten[i / s * (s + 28) + 28 + i % s]? = body[i % s]? := by
  induction plaintext using cut_induction hs generalizing packs i with
  | nil => simp at hi
  | step l hl ih =>
    rw [cut_of_ne_nil hs hl, List.forall₂_cons_left_iff] at h
    obtain ⟨pack, rest, hpack, hrest, rfl⟩ := h
    rw [List.flatten_cons]
    have hlen := hpack.length hC (by rw [List.length_take]; omega)
    rw [List.length_take] at hlen
    rcases Nat.lt_or_ge i s with hin | hout
    · obtain ⟨nonce, body, tag, hseal, hget⟩ := octet_of_record hC hpack i
      refine ⟨nonce, l.take s, body, tag, hseal, ?_, ?_⟩
      · rw [Nat.mod_eq_of_lt hin, List.getElem?_take_of_lt hin]
      · rw [Nat.mod_eq_of_lt hin, Nat.div_eq_of_lt hin, Nat.zero_mul, Nat.zero_add, ← hget,
          List.getElem?_append_left (by omega)]
    · obtain ⟨k, rfl⟩ := Nat.exists_eq_add_of_le hout
      obtain ⟨nonce, chunk, body, tag, hseal, hchunk, hget⟩ := ih hrest (i := k) (by simp; omega)
      have hpacklen : pack.length = s + 28 := by omega
      refine ⟨nonce, chunk, body, tag, hseal, ?_, ?_⟩
      · rw [Nat.add_mod_left, hchunk, List.getElem?_drop]
      · rw [Nat.add_mod_left, Nat.add_div_left _ hs, Nat.succ_mul, ← hget,
          List.getElem?_append_right (by omega), hpacklen]
        congr 1
        omega

/-- Octet `i` of a sealed plaintext is an octet of a chunk, and that octet of the chunk's GCM
ciphertext stands at `sealedOffset`. -/
theorem octet_of_payload (hC : C.Laws) {M : Machine} (hv : ValidCode segmentCode)
    (h : encryptPayloadForSegmentCode M C kFek plaintext segmentCode tape = .ok (stream, tape'))
    (hi : i < plaintext.length) :
    ∃ nonce chunk body tag, ∃ j : Nat, C.gcmSeal kFek nonce chunk = some (body, tag) ∧
      chunk[j]? = plaintext[i]? ∧ stream[sealedOffset segmentCode i]? = body[j]? := by
  rw [encryptPayloadForSegmentCode] at h
  by_cases h₀ : segmentCode = 0
  · rw [if_pos (by simp [isV2WholeFileMode, kV2SegmentCodeWholeFile, h₀])] at h
    obtain ⟨nonce, body, tag, hseal, hget⟩ := octet_of_record hC (sealed_of_encrypt h) i
    refine ⟨nonce, plaintext, body, tag, i, hseal, rfl, ?_⟩
    rw [sealedOffset, if_pos h₀, hget]
  · rw [if_neg (by simp [isV2WholeFileMode, kV2SegmentCodeWholeFile, h₀])] at h
    obtain ⟨packs, hpacks, rfl⟩ := segmented_eq_ok hv (by omega) h
    obtain ⟨nonce, chunk, body, tag, hseal, hchunk, hget⟩ :=
      octet_of_records hC (segmentBytes_pos segmentCode) (segmentBytes_lt segmentCode hv)
        (mapM_encrypt_sealed _ _ hpacks) hi
    refine ⟨nonce, chunk, body, tag, _, hseal, hchunk, ?_⟩
    rw [sealedOffset, if_neg h₀, hget]

/-- Behind octet `i` of `n` there is at least the rest of the plaintext. -/
theorem sealedOffset_add_le (segmentCode : Nat) {n : Nat} (hi : i < n) :
    sealedOffset segmentCode i + (n - i) ≤ cipherLength n segmentCode := by
  rw [sealedOffset, cipherLength, recordCount]
  by_cases h₀ : segmentCode = 0
  · rw [if_pos h₀, if_pos h₀]
    omega
  · have hs := segmentBytes_pos segmentCode
    rw [if_neg h₀, if_neg h₀]
    generalize segmentBytes segmentCode = s at *
    have hdiv := Nat.div_add_mod i s
    have hrecords : i / s + 1 ≤ (n + s - 1) / s := by
      rw [Nat.le_div_iff_mul_le hs, Nat.add_mul, Nat.one_mul, Nat.mul_comm]
      omega
    rw [Nat.mul_add, Nat.mul_comm (i / s) s]
    omega

end Offsets

/-- Every octet of padding stands before the last logical block. -/
def PaddingStaysOut (segmentCode : Nat) (layout : WireLayout) : Prop :=
  ∀ i < layout.plaintextPadding,
    sealedOffset segmentCode i < (layout.numTokens - 1) * layout.wireBlockSize

variable {P code W limit fuel p q : Nat} {layout : WireLayout}

theorem search_here (hc : ValidCode code) (hW : 373 ≤ W) (hu : Usable (total (P + p) code) W)
    (h : paddingSearch Machine.exact P code W limit fuel p = .ok layout) :
    layout.plaintextPadding = p := by
  cases fuel with
  | zero => simp [paddingSearch] at h
  | succ fuel =>
    obtain ⟨l, hl⟩ := layoutExact_ok (P + p) code W hc (by omega) hu
    rw [paddingSearch, exact_size, hl] at h
    split at h
    · rw [← Except.ok.inj h]
    · simp at h

theorem search_next (hc : ValidCode code) (hW : 373 ≤ W) (hu : ¬ Usable (total (P + p) code) W)
    (h : paddingSearch Machine.exact P code W limit fuel p = .ok layout) :
    ∃ rounds, paddingSearch Machine.exact P code W limit rounds (p + step (total (P + p) code) W) =
      .ok layout := by
  cases fuel with
  | zero => simp [paddingSearch] at h
  | succ fuel =>
    obtain ⟨e, he, hlog⟩ := layoutExact_error (P + p) code W hc (by omega) hu
    have hs := (paddingStep_eq _ W (total_ge (P + p) code) hW hu).2
    have hn := nextLayoutPadding_ok (P + p) code W hc hW hu
    rw [paddingSearch, exact_size, he] at h
    split at h
    · dsimp only at h
      rw [if_pos hlog, smEncSize, kSmEncBytes_eq, hn, ok_bind, if_neg (by omega), exact_size] at h
      exact ⟨fuel, h⟩
    · simp at h

/-- A search that is bound to find a usable total within `q` octets of padding ends there. -/
theorem search_le (hc : ValidCode code) (hW : 373 ≤ W) (hf : Found P code W q p)
    (h : paddingSearch Machine.exact P code W limit fuel p = .ok layout) :
    layout.plaintextPadding ≤ q := by
  induction hf generalizing fuel with
  | here hp hu => exact (search_here hc hW hu h).le.trans hp
  | next hp hu _ ih =>
    obtain ⟨rounds, h⟩ := search_next hc hW hu h
    exact ih h

/-- A last block that the file fills keeps the padding out. -/
theorem staysOut_of_block_le (h : SoundLayout P code layout)
    (hB : layout.wireBlockSize ≤ P + 373) : PaddingStaysOut code layout := by
  intro i hi
  have hoffset := sealedOffset_add_le code (show i < P + layout.plaintextPadding by omega)
  have hsum := LayoutSound.leading_add_last h
  have hlast := h.last
  rw [← h.ciphertext] at hoffset
  omega

theorem layoutExact_cap {M : Machine} {Q : Nat}
    (h : computeWireLayoutExact M Q code W = .ok layout) : layout.wireBlockSize ≤ W := by
  simp only [computeWireLayoutExact, bind_eq_ok, throwIf_eq_ok, pure_eq_ok, Except.ok.injEq] at h
  obtain ⟨_, -, _, -, _, -, _, -, _, -, _, hcap, _, -, _, -, rfl⟩ := h
  exact not_lt.mp hcap

/-- The search doubles a block that the object exceeds, when two blocks are not yet allowed. -/
def PaddingSpills (plaintextLength segmentCode maxWireBlockBytes : Nat) : Prop :=
  (segmentCode = 0 ∨ 0 < plaintextLength) ∧ plaintextLength < 345 ∧
    plaintextLength + 374 ≤ maxWireBlockBytes ∧ maxWireBlockBytes ≤ plaintextLength + 400

theorem spills_search (hc : ValidCode code) (hs : PaddingSpills P code W)
    (h : paddingSearch Machine.exact P code W limit fuel 0 = .ok layout) :
    layout.plaintextPadding = 2 * W - (P + 401) := by
  obtain ⟨hP, hP₃₄₅, hW₁, hW₂⟩ := hs
  have hT := total_one hP (by omega)
  have hlo : lo (P + 401) W = 2 := lo_two (by omega) (by omega) (by omega)
  have hhi : hi (P + 401) W = 1 := by
    rw [hi_small _ W (by omega) (by omega)]
    omega
  have hu : ¬ Usable (total (P + 0) code) W := by
    rw [Nat.add_zero, hT, usable_iff _ W (by omega) (by omega), hlo, hhi]
    rintro ⟨m, h₁, h₂, -⟩
    omega
  have hstep : step (total (P + 0) code) W = 2 * W - (P + 401) := by
    rw [(paddingStep_eq _ W (total_ge _ _) (by omega) hu).1, Nat.add_zero, hT, hlo, hhi,
      if_pos (by decide)]
  obtain ⟨rounds, hnext⟩ := search_next hc (by omega) hu h
  rw [hstep, Nat.zero_add] at hnext
  have hT' : total (P + (2 * W - (P + 401))) code = 2 * W := by
    rw [total_one (by omega) (by omega)]
    omega
  apply search_here (W := W) hc (by omega) ?_ hnext
  rw [hT']
  have halign := usable_of_aligned (W := W) (2 * W) 2 (by omega) (by decide) (by decide) (Dvd.intro W rfl)
    (by omega) (by omega)
  have href : ref (2 * W) ≤ 1 := ref_le_one (by omega)
  exact halign.resolve_right (by omega)

theorem not_staysOut_of_spills (hs : PaddingSpills P code W)
    (h : LayoutAt (P + layout.plaintextPadding) code W layout)
    (hpad : layout.plaintextPadding = 2 * W - (P + 401)) : ¬ PaddingStaysOut code layout := by
  obtain ⟨hP, hP₃₄₅, hW₁, hW₂⟩ := hs
  have hT : total (P + layout.plaintextPadding) code = 2 * W := by
    rw [total_one (by omega) (by omega)]
    omega
  have hlo : lo (2 * W) W = 2 := lo_two (by omega) (by omega) le_rfl
  have hhi : 2 ≤ hi (2 * W) W := by
    have := (Nat.le_div_iff_mul_le (show 0 < 373 by decide)).mpr (show 2 * 373 ≤ 2 * W by omega)
    rw [hi_small _ W (by omega) (by omega)]
    omega
  have hfits := fits_of_dvd (2 * W) W 2 (by omega) (by omega) hlo.le hhi (Dvd.intro W rfl)
  have htwo : layout.numTokens = 2 := by
    have hleast := h.least
    rw [hT, hlo] at hleast
    exact le_antisymm (hleast.2 ⟨le_rfl, hfits⟩) hleast.1.1
  have hblock : layout.wireBlockSize = W := by
    rw [h.block, hT, htwo, Nat.mul_div_cancel_left _ (by decide)]
  intro hout
  have hlast := hout (layout.plaintextPadding - 1) (by omega)
  have hoffset : sealedOffset code (layout.plaintextPadding - 1) =
      28 + (layout.plaintextPadding - 1) := by
    rw [sealedOffset]
    split
    · rfl
    next h₀ =>
      have hs := segmentBytes_ge code (by omega)
      rw [Nat.div_eq_of_lt (by omega), Nat.mod_eq_of_lt (by omega), Nat.zero_mul, Nat.zero_add]
  rw [htwo, hblock, hoffset] at hlast
  omega

theorem two_le_tokens (h : LayoutAt (P + p) code W layout) (hT : W < total (P + p) code) :
    2 ≤ layout.numTokens := by
  by_contra hlt
  have hone : layout.numTokens = 1 := by
    have := h.pos
    omega
  have hcap := ((fits_iff _ _ _).mp h.least.1.2).2.2
  rw [hone, Nat.div_one] at hcap
  omega

theorem two_mul_block_le (h : LayoutAt (P + p) code W layout) (hm : 2 ≤ layout.numTokens) :
    2 * layout.wireBlockSize ≤ total (P + p) code :=
  (Nat.mul_le_mul_right _ hm).trans h.fills.le

theorem block_le_of_mid (hc : ValidCode code) (hcap : W ≤ 32 * 1024 * 1024) (hW : P + 374 ≤ W)
    (hT : 2984 ≤ total P code) (hu : ¬ Usable (total P code) W)
    (hsearch : paddingSearch Machine.exact P code W limit fuel 0 = .ok layout)
    (h : LayoutAt (P + layout.plaintextPadding) code W layout) :
    layout.wireBlockSize ≤ P + 373 := by
  have hrecords : recordCount P code ≤ 2 := by
    rw [recordCount]
    split
    · decide
    next h₀ =>
      have hs := segmentBytes_ge code (by omega)
      generalize segmentBytes code = s at *
      exact Nat.le_of_lt_succ (Nat.div_lt_of_lt_mul (by omega))
  have hle : total P code ≤ P + 429 := by
    rw [total, cipherLength]
    omega
  have hpad : layout.plaintextPadding ≤ 64 := by
    apply search_le hc (by omega) ?_ hsearch
    refine (found_mid (p := 0) (by omega) hT (by rw [Nat.add_zero]; omega) le_rfl).resolve_right ?_
    rintro ⟨hnew, hover⟩
    have hcross := total_cross hnew
    simp only [Nat.add_zero, Nat.zero_add] at hcross hover
    have hgap := gap_lt (total P code) 8 (by decide)
    omega
  have hmore := records_le code P layout.plaintextPadding 1 (by omega)
  have hT' := total_add P layout.plaintextPadding code
  have htwo : 2 ≤ layout.numTokens := by
    rcases Nat.lt_or_ge W (total (P + layout.plaintextPadding) code) with hlt | hge
    · exact two_le_tokens h hlt
    · -- the reference bound then asks for more than one block from the start
      by_contra hone
      have hmono := total_mono code (Nat.le_add_right P layout.plaintextPadding)
      have href : ref (total (P + layout.plaintextPadding) code) ≤ 8 := ref_le_eight (by omega)
      have hhi := hi_mid (W := W) (show 2984 ≤ total (P + layout.plaintextPadding) code by omega)
        (by omega)
      have hlo := (ref_le_lo _ W (href.trans hhi.ge)).trans h.least.1.1
      exact hu (usable_one (by omega) (by omega) ((ref_mono hmono).trans (by omega)))
  have hhalf := two_mul_block_le h htwo
  omega

theorem block_le_of_small (hc : ValidCode code) (hW : P + 374 ≤ W) (hs : ¬ PaddingSpills P code W)
    (hT : total P code < 2984) (hu : ¬ Usable (total P code) W)
    (hsearch : paddingSearch Machine.exact P code W limit fuel 0 = .ok layout)
    (h : LayoutAt (P + layout.plaintextPadding) code W layout) :
    layout.wireBlockSize ≤ P + 373 := by
  have hP : code = 0 ∨ 0 < P := by
    by_contra hno
    have hzero : P = 0 ∧ code ≠ 0 := by omega
    have hs := segmentBytes_pos code
    have hempty : total 0 code = 373 := by
      rw [total, cipherLength, recordCount, if_neg hzero.2, Nat.zero_add,
        Nat.div_eq_of_lt (by omega)]
    rw [hzero.1, hempty] at hu
    exact hu (usable_smb_only (by omega))
  have hle : P ≤ total P code := by
    rw [total, cipherLength]
    omega
  have hT₀ := total_one hP (by omega)
  rw [hT₀] at hT hu
  have hlt : W < P + 401 := by
    by_contra hge
    exact hu (usable_one (by omega) (by omega) (ref_le_one hT.le))
  have hlo : lo (P + 401) W = 2 := lo_two hT.le hlt (by omega)
  have hbig : 345 ≤ P := by
    by_contra hsmall
    exact hs ⟨hP, by omega, hW, by omega⟩
  have hhi : 2 ≤ hi (P + 401) W := by
    have := (Nat.le_div_iff_mul_le (show 0 < 373 by decide)).mpr (show 2 * 373 ≤ P + 401 by omega)
    rw [hi_small _ W (by omega) (by omega)]
    omega
  have hodd : (P + 401) % 2 = 1 := by
    have hnd : ¬ 2 ∣ P + 401 := fun hd =>
      hu ((usable_iff _ W (by omega) (by omega)).mpr ⟨2, hlo.le, hhi, hd⟩)
    omega
  have hstep : step (P + 401) W = 1 := by
    rw [(paddingStep_eq _ W (by omega) (by omega) hu).1, hlo, if_neg (by omega), hodd]
  -- one octet makes the total even
  have heven : Usable (P + 402) W := by
    have halign := usable_of_aligned (W := W) (P + 402) 2 (by omega) (by decide) (by decide)
      (by omega) (by omega) (by omega)
    have href : ref (P + 402) ≤ 1 := ref_le_one (by omega)
    exact halign.resolve_right (by omega)
  have hpad : layout.plaintextPadding ≤ 1 := by
    apply search_le hc (by omega) (.next (Nat.zero_le _) ?_ (.here ?_ ?_)) hsearch
    · rwa [Nat.add_zero, hT₀]
    · rw [Nat.add_zero, hT₀, hstep]
    · rw [Nat.add_zero, hT₀, hstep, Nat.zero_add, total_one (by omega) (by omega)]
      exact heven
  have hT' : total (P + layout.plaintextPadding) code = P + layout.plaintextPadding + 401 :=
    total_one (by omega) (by omega)
  have hhalf := two_mul_block_le h (two_le_tokens h (by omega))
  omega

/-- Without the spill, padding comes with blocks of about half the object. -/
theorem block_le_of_padded (hc : ValidCode code) (hcap : W ≤ 32 * 1024 * 1024) (hW : P + 374 ≤ W)
    (hs : ¬ PaddingSpills P code W)
    (hsearch : paddingSearch Machine.exact P code W limit fuel 0 = .ok layout)
    (h : LayoutAt (P + layout.plaintextPadding) code W layout)
    (hpos : 0 < layout.plaintextPadding) : layout.wireBlockSize ≤ P + 373 := by
  have hu : ¬ Usable (total (P + 0) code) W := by
    intro hu
    have := search_here hc (by omega) hu hsearch
    omega
  rcases Nat.lt_or_ge (total P code) 2984 with hT | hT
  · exact block_le_of_small hc hW hs hT hu hsearch h
  · exact block_le_of_mid hc hcap hW hT hu hsearch h

theorem total_lt (code : Nat) {n : Nat} (hn : n ≤ 64 * 1024 * 1024) :
    total n code < 373 * 2 ^ 32 := by
  have hrecords : recordCount n code ≤ n + 1 := by
    have hs := segmentBytes_pos code
    rw [recordCount]
    split
    · omega
    · generalize segmentBytes code = s at *
      apply Nat.div_le_of_le_mul
      rw [Nat.mul_add, Nat.mul_one]
      have := Nat.le_mul_of_pos_left n hs
      omega
  rw [total, cipherLength]
  omega

/-- Padding stays out of the last logical block exactly when it does not have to double a block that
the whole object exceeds by at most 27 octets. -/
theorem paddingStaysOut_iff (P code W : Nat) (layout : WireLayout)
    (h : computeWireLayout Machine.native P code W = .ok layout) :
    PaddingStaysOut code layout ↔ ¬ PaddingSpills P code W := by
  have hsound := LayoutSound.computeWireLayout_sound h
  have hcap : layout.wireBlockSize ≤ W := by
    obtain ⟨-, -, q, l, -, hl, rfl⟩ := LayoutSound.computeWireLayout_ok h
    have := layoutExact_cap hl
    exact this
  rcases Nat.lt_or_ge W (P + 374) with hlt | hge
  · apply iff_of_true
    · exact staysOut_of_block_le hsound (by omega)
    · rintro ⟨-, -, hle, -⟩
      omega
  · obtain ⟨hc, hW, -⟩ := LayoutSound.computeWireLayout_ok h
    obtain ⟨hW₁, hW₂⟩ := (acceptedBlockBytes_iff W).mp hW
    have hlimit := limit_eq W
    rw [computeWireLayout_native (total_lt code (by omega))] at h
    have hat : LayoutAt (P + layout.plaintextPadding) code W layout := by
      obtain ⟨-, -, q, l, -, hl, rfl⟩ := LayoutSound.computeWireLayout_ok h
      rw [exact_size] at hl
      obtain ⟨h₁, h₂, h₃, h₄, h₅, h₆⟩ := layoutAt_of_exact hc (by omega) hl
      exact ⟨h₁, h₂, h₃, h₄, h₅, h₆⟩
    simp only [computeWireLayout, bind_eq_ok] at h
    obtain ⟨_, -, _, -, hsearch⟩ := h
    by_cases hs : PaddingSpills P code W
    · exact iff_of_false (not_staysOut_of_spills hs hat (spills_search hc hs hsearch)) (not_not.mpr hs)
    · refine iff_of_true ?_ hs
      rcases Nat.eq_zero_or_pos layout.plaintextPadding with h₀ | hpos
      · intro i hi
        omega
      · exact staysOut_of_block_le hsound (block_le_of_padded hc hW₂ hge hs hsearch hat hpos)

/-- A file of 100 octets in blocks of 400 is padded with 299. -/
def paddedLayout : WireLayout :=
  { numTokens := 2, wireBlockSize := 400, ciphertextLength := 427, totalWireBytes := 800,
    lastBlockLength := 27, plaintextPadding := 299 }

theorem paddingStaysOut_iff_padded : PaddingStaysOut 0 paddedLayout ↔ ¬ PaddingSpills 100 0 400 :=
  paddingStaysOut_iff 100 0 400 paddedLayout (by decide +kernel)

/-- In blocks of 480 it is padded with 459, and octet 458 of them stands at 486, in the last block. -/
def spilledLayout : WireLayout :=
  { numTokens := 2, wireBlockSize := 480, ciphertextLength := 587, totalWireBytes := 960,
    lastBlockLength := 107, plaintextPadding := 459 }

theorem padding_in_last_block :
    computeWireLayout Machine.native 100 0 480 = .ok spilledLayout ∧
      ¬ PaddingStaysOut 0 spilledLayout := by
  refine ⟨by decide +kernel, ?_⟩
  intro h
  have := h 458 (by decide)
  simp [sealedOffset, spilledLayout] at this

end TwelveC.PaddingPlacement
