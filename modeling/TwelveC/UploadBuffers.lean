import TwelveC.StreamingUpload

/-!
# The buffers of a streaming upload

What a session holds back stays below one segment and below one wire block, and
the blocks that are out make up, with what is pending, the records sealed so
far. None of this needs the file to be fed to its end, nor the batch sender.
-/

namespace TwelveC.UploadBuffers

open Segment WireLayout Crypto UploadSession LayoutSound Payload Lib.Cut StreamingUpload

/-- An update of the cipher writes no more octets than it is given, however many they are. -/
def StreamMode (C : Primitives) : Prop :=
  ∀ {key nonce plaintext ciphertext tag : Bytes},
    C.gcmSeal key nonce plaintext = some (ciphertext, tag) → ciphertext.length ≤ plaintext.length

theorem plain_streamMode : StreamMode PlainCrypto.plain := by
  intro key nonce plaintext ciphertext tag h
  rw [(Prod.mk.inj (Option.some.inj h)).1]

theorem length_le_of_sealed {C : Primitives} (hC : C.Laws) (hstream : StreamMode C)
    {key plaintext packed : Bytes} (h : Sealed C key plaintext packed) :
    packed.length ≤ plaintext.length + 28 := by
  obtain ⟨-, nonce, ciphertext, tag, hn, hseal, rfl⟩ := sealed_iff.mp h
  have ht := hC.tag_length hseal
  have hle := hstream hseal
  simp only [EncryptedBlob.pack, List.length_append, hn, ht, kGcmNonceBytes, kGcmTagBytes]
  omega

section Ends

variable {α β : Type} {P : α → Bytes → Prop} {Q : β → Bytes → Prop} {tape : Bytes}

/-- What is returned has `P`; what is thrown is no sign of a loop that goes on for ever. -/
def Ends (P : α → Bytes → Prop) : Except Exn (α × Bytes) → Prop
  | .ok (a, tape) => P a tape
  | .error e => e ≠ .stuck

theorem Ends.of_ok {r : Except Exn (α × Bytes)} {a : α} (h : Ends P r) (hr : r = .ok (a, tape)) :
    P a tape := by
  rw [hr] at h
  exact h

theorem Ends.not_stuck {r : Except Exn (α × Bytes)} (h : Ends P r) : r ≠ .error .stuck := by
  rintro rfl
  exact h rfl

theorem ends_bind {x : RandM α} {f : α → RandM β} (hx : Ends P (x tape))
    (hf : ∀ a tape', P a tape' → Ends Q (f a tape')) : Ends Q ((x >>= f) tape) := by
  rw [show (x >>= f) tape = x tape >>= fun p => f p.1 p.2 from rfl]
  cases h : x tape with
  | error e =>
    rw [h] at hx
    exact hx
  | ok p =>
    rw [h] at hx
    exact hf p.1 p.2 hx

theorem ends_pure {a : α} (h : P a tape) : Ends P ((pure a : RandM α) tape) := h

theorem ends_mono {r : Except Exn (α × Bytes)} {P' : α → Bytes → Prop} (h : Ends P r)
    (hP : ∀ a tape', P a tape' → P' a tape') : Ends P' r := by
  cases r with
  | error e => exact h
  | ok p => exact hP p.1 p.2 h

theorem ends_throwIf {c : Prop} [Decidable c] {e : Exn} (he : e ≠ .stuck) :
    Ends (fun _ tape' => ¬ c ∧ tape' = tape) ((liftM (throwIf c e) : RandM Unit) tape) := by
  by_cases h : c
  · rw [throwIf_pos h]
    exact he
  · rw [throwIf_neg h]
    exact ⟨h, rfl⟩

theorem ends_sealWith (C : Primitives) (key plaintext nonce : Bytes) :
    Ends (fun _ _ => True) ((liftM (sealWith C key plaintext nonce) : RandM Bytes) tape) := by
  rw [sealWith]
  split
  · exact Exn.noConfusion
  · trivial

theorem ends_encrypt (C : Primitives) (key plaintext : Bytes) :
    Ends (fun pack tape' => encrypt C key plaintext tape = .ok (pack, tape'))
      (encrypt C key plaintext tape) := by
  have hends : Ends (fun _ _ => True) (encrypt C key plaintext tape) := by
    refine ends_bind (ends_throwIf Exn.noConfusion) fun _ tape₁ _ => ?_
    refine ends_bind (P := fun _ _ => True) ?_ fun nonce tape₂ _ => ends_sealWith C key plaintext nonce
    rw [randomBytes]
    split
    · exact Exn.noConfusion
    · trivial
  cases h : encrypt C key plaintext tape with
  | ok p => rfl
  | error e =>
    rw [h] at hends
    exact hends

end Ends

/-- The session with the octets of the file that its feeds took. -/
structure Watched where
  session : UploadPrepareSession
  fed : Bytes

variable (C : Primitives)

/-- The caller catches what `feed` throws before it has changed anything. -/
def act : Action → Watched → RandM Watched
  | .feed chunk, w =>
    if w.session.finalized ∨
        w.session.originalFileSize < Machine.native.size (w.session.fileBytesFed + chunk.length) then
      return w
    else do
      let s ← feed .native C chunk w.session
      return ⟨s, w.fed ++ chunk⟩
  | .take, w => return ⟨(takeReadyBlocks w.session).2, w.fed⟩

def acts : List Action → Watched → RandM Watched
  | [], w => return w
  | action :: actions, w => do
    let w ← act C action w
    acts actions w

/-- The plaintext that went in: of the padding as much as is not left, then the fed octets. -/
def taken (w : Watched) : Bytes :=
  List.replicate (w.session.layout.plaintextPadding - w.session.paddingRemaining) 0 ++ w.fed

/-- The part of it that left the segment buffer. -/
def sealedPart (w : Watched) : Bytes :=
  (taken w).take ((taken w).length - w.session.segmentBuffer.length)

/-- What holds between two calls. `tape₀` is the tape on which the session started: the records are
those of the sealed part, segment by segment, and have used it up to `tape`. -/
structure Bounded (tape₀ : Bytes) (w : Watched) (tape : Bytes) : Prop where
  buffer : w.session.segmentBuffer.length < w.session.segmentPlaintextBytes
  held : (taken w).drop ((taken w).length - w.session.segmentBuffer.length) = w.session.segmentBuffer
  pending : w.session.wirePending.length < w.session.layout.wireBlockSize
  emitted : w.session.emittedLeadingCount ≤ w.session.layout.numTokens - 1
  conserved : ∃ packs, (cut w.session.segmentPlaintextBytes (sealedPart w)).mapM
      (encrypt C w.session.kFek) tape₀ = .ok (packs, tape) ∧
    w.session.emittedLeadingCount * w.session.layout.wireBlockSize + w.session.wirePending.length =
      packs.flatten.length

/-- All but the buffers. -/
def apartFromBuffers (s : UploadPrepareSession) : UploadPrepareSession :=
  { s with segmentBuffer := [], wirePending := [], leafHashes := [], readyBlocks := [],
           emittedLeadingCount := 0 }

variable {C} {s s' s₀ : UploadPrepareSession} {tape tape₀ whole plain data pack : Bytes}

theorem same_config (h : apartFromBuffers s' = apartFromBuffers s) :
    s'.toUploadConfig = s.toUploadConfig := congrArg (·.toUploadConfig) h

theorem same_finalized (h : apartFromBuffers s' = apartFromBuffers s) :
    s'.finalized = s.finalized := congrArg (·.finalized) h

theorem same_padding (h : apartFromBuffers s' = apartFromBuffers s) :
    s'.paddingRemaining = s.paddingRemaining := congrArg (·.paddingRemaining) h

theorem same_fed (h : apartFromBuffers s' = apartFromBuffers s) :
    s'.fileBytesFed = s.fileBytesFed := congrArg (·.fileBytesFed) h

/-- Ciphertext octets that went into the pending buffer. -/
def wired (s : UploadPrepareSession) : Nat :=
  s.emittedLeadingCount * s.layout.wireBlockSize + s.wirePending.length

/-- No more blocks than the leading ones, and none that could go out is held back. -/
structure Drained (s : UploadPrepareSession) : Prop where
  le : s.emittedLeadingCount ≤ s.layout.numTokens - 1
  settled : s.emittedLeadingCount = s.layout.numTokens - 1 ∨
    s.wirePending.length < s.layout.wireBlockSize

theorem emitLeadingBlock_wired (h : s.layout.wireBlockSize ≤ s.wirePending.length) :
    wired (emitLeadingBlock .native C s) = wired s := by
  simp only [wired, emitLeadingBlock, List.length_drop, Nat.add_mul, Nat.one_mul]
  omega

theorem tryEmit_drained (fuel : Nat) (hle : s.emittedLeadingCount ≤ s.layout.numTokens - 1)
    (hf : s.layout.numTokens - 1 ≤ fuel + s.emittedLeadingCount) :
    Drained (tryEmitLeadingBlocks .native C fuel s) ∧
      wired (tryEmitLeadingBlocks .native C fuel s) = wired s ∧
      apartFromBuffers (tryEmitLeadingBlocks .native C fuel s) = apartFromBuffers s ∧
      (tryEmitLeadingBlocks .native C fuel s).segmentBuffer = s.segmentBuffer := by
  induction fuel generalizing s with
  | zero =>
    refine ⟨⟨hle, .inl ?_⟩, rfl, rfl, rfl⟩
    rw [tryEmitLeadingBlocks]
    omega
  | succ fuel ih =>
    rw [tryEmitLeadingBlocks]
    by_cases hc : s.emittedLeadingCount < s.layout.numTokens - 1 ∧
        s.layout.wireBlockSize ≤ s.wirePending.length
    · rw [if_pos hc]
      obtain ⟨hdrained, hwired, hapart, hbuffer⟩ := ih (s := emitLeadingBlock .native C s)
        (by simp only [emitLeadingBlock]; omega) (by simp only [emitLeadingBlock]; omega)
      exact ⟨hdrained, hwired.trans (emitLeadingBlock_wired hc.2), hapart, hbuffer⟩
    · rw [if_neg hc]
      refine ⟨⟨hle, ?_⟩, rfl, rfl, rfl⟩
      omega

theorem appendCiphertextPack_drained (pack : Bytes) (h : Drained s) :
    Drained (appendCiphertextPack .native C pack s) ∧
      wired (appendCiphertextPack .native C pack s) = wired s + pack.length ∧
      apartFromBuffers (appendCiphertextPack .native C pack s) = apartFromBuffers s ∧
      (appendCiphertextPack .native C pack s).segmentBuffer = s.segmentBuffer := by
  obtain ⟨hdrained, hwired, hapart, hbuffer⟩ := tryEmit_drained (C := C) s.layout.numTokens
    (s := { s with wirePending := s.wirePending ++ pack }) h.le
    ((Nat.sub_le _ _).trans (Nat.le_add_right _ _))
  refine ⟨hdrained, hwired.trans ?_, hapart, hbuffer⟩
  simp only [wired, List.length_append]
  omega

variable (C s₀ tape₀) in
/-- The records of `whole` are sealed, all of them went to the pending buffer. -/
structure Flowing (whole : Bytes) (s : UploadPrepareSession) (tape : Bytes) : Prop where
  config : s.toUploadConfig = s₀.toUploadConfig
  live : s.finalized = false
  drained : Drained s
  records : ∃ packs, (cut s₀.segmentPlaintextBytes whole).mapM (encrypt C s₀.kFek) tape₀ =
    .ok (packs, tape) ∧ wired s = packs.flatten.length

theorem Flowing.limit (h : Flowing C s₀ tape₀ whole s tape) :
    s.segmentPlaintextBytes = s₀.segmentPlaintextBytes :=
  congrArg UploadConfig.segmentPlaintextBytes h.config

theorem Flowing.kFek (h : Flowing C s₀ tape₀ whole s tape) : s.kFek = s₀.kFek :=
  congrArg UploadConfig.kFek h.config

/-- A session that differs in its plaintext members only. -/
theorem Flowing.congr (h : Flowing C s₀ tape₀ whole s tape)
    (hconfig : s'.toUploadConfig = s.toUploadConfig) (hlive : s'.finalized = s.finalized)
    (hemitted : s'.emittedLeadingCount = s.emittedLeadingCount)
    (hpending : s'.wirePending = s.wirePending) : Flowing C s₀ tape₀ whole s' tape := by
  have hlayout : s'.layout = s.layout := congrArg UploadConfig.layout hconfig
  obtain ⟨packs, hpacks, hwired⟩ := h.records
  refine ⟨hconfig.trans h.config, hlive.trans h.live, ⟨?_, ?_⟩, packs, hpacks, ?_⟩
  · rw [hemitted, hlayout]
    exact h.drained.le
  · rw [hemitted, hlayout, hpending]
    exact h.drained.settled
  · rw [wired, hemitted, hlayout, hpending]
    exact hwired

/-- The buffer is sealed as the next record. -/
theorem flush_flowing {force : Bool} (h : Flowing C s₀ tape₀ whole s tape)
    (hne : s.segmentBuffer ≠ [])
    (hf : force = true ∨ s.segmentBuffer.length = s.segmentPlaintextBytes)
    (hcut : cut s₀.segmentPlaintextBytes (whole ++ s.segmentBuffer) =
      cut s₀.segmentPlaintextBytes whole ++ [s.segmentBuffer]) :
    Ends (fun s' tape' => Flowing C s₀ tape₀ (whole ++ s.segmentBuffer) s' tape' ∧
        s'.segmentBuffer = [] ∧ apartFromBuffers s' = apartFromBuffers s)
      (flushSegmentBufferIfReady .native C force s tape) := by
  rw [flush_eq hne hf]
  refine ends_bind (ends_encrypt C s.kFek s.segmentBuffer) fun pack tape₁ hpack => ?_
  refine ends_pure ?_
  obtain ⟨packs, hpacks, hwired⟩ := h.records
  obtain ⟨hdrained, hwired', hapart, hbuffer⟩ := appendCiphertextPack_drained (C := C)
    (s := { s with segmentBuffer := [] }) pack ⟨h.drained.le, h.drained.settled⟩
  refine ⟨⟨(same_config hapart).trans h.config, (same_finalized hapart).trans h.live, hdrained,
    packs ++ [pack], ?_, ?_⟩, hbuffer, hapart⟩
  · rw [h.kFek] at hpack
    simp only [hcut, List.mapM_append, List.mapM_cons, List.mapM_nil, rand_bind_eq_ok,
      rand_pure_eq_ok]
    exact ⟨packs, tape, hpacks, [pack], tape₁, ⟨pack, tape₁, hpack, [], tape₁, rfl, rfl⟩, rfl⟩
  · rw [hwired', List.flatten_append, List.length_append, ← hwired]
    simp [wired]

variable (C s₀ tape₀) in
/-- All of `plain` went in: full segments are sealed and less than one is buffered. -/
structure Filling (plain : Bytes) (s : UploadPrepareSession) (tape : Bytes) : Prop where
  short : s.segmentBuffer.length < s₀.segmentPlaintextBytes
  flowing : ∃ whole, whole ++ s.segmentBuffer = plain ∧ s₀.segmentPlaintextBytes ∣ whole.length ∧
    Flowing C s₀ tape₀ whole s tape

theorem Filling.live (h : Filling C s₀ tape₀ plain s tape) : s.finalized = false := by
  obtain ⟨_, -, -, hflowing⟩ := h.flowing
  exact hflowing.live

theorem Filling.config (h : Filling C s₀ tape₀ plain s tape) :
    s.toUploadConfig = s₀.toUploadConfig := by
  obtain ⟨_, -, -, hflowing⟩ := h.flowing
  exact hflowing.config

theorem Filling.limit (h : Filling C s₀ tape₀ plain s tape) :
    s.segmentPlaintextBytes = s₀.segmentPlaintextBytes :=
  congrArg UploadConfig.segmentPlaintextBytes h.config

theorem Filling.with_counts (h : Filling C s₀ tape₀ plain s tape) (fed padding : Nat) :
    Filling C s₀ tape₀ plain { s with fileBytesFed := fed, paddingRemaining := padding } tape := by
  obtain ⟨whole, hplain, hdvd, hflowing⟩ := h.flowing
  exact ⟨h.short, whole, hplain, hdvd, hflowing.congr rfl rfl rfl rfl⟩

/-- One round puts in what fits and seals the segment if that fills it. -/
theorem fill_filling (data : Bytes) (h : Filling C s₀ tape₀ plain s tape)
    (hfit : s.segmentBuffer.length + data.length ≤ s₀.segmentPlaintextBytes) :
    Ends (fun s' tape' => Filling C s₀ tape₀ (plain ++ data) s' tape' ∧
        apartFromBuffers s' = apartFromBuffers s)
      (flushIfFull .native C { s with segmentBuffer := s.segmentBuffer ++ data } tape) := by
  have hshort := h.short
  have hlimit := h.limit
  obtain ⟨whole, hplain, hdvd, hflowing⟩ := h.flowing
  obtain ⟨s₁, hs₁⟩ : ∃ s₁, { s with segmentBuffer := s.segmentBuffer ++ data } = s₁ := ⟨_, rfl⟩
  have hbuffer : s₁.segmentBuffer = s.segmentBuffer ++ data := by rw [← hs₁]
  have hapart : apartFromBuffers s₁ = apartFromBuffers s := by
    rw [← hs₁]
    rfl
  have hflowing₁ : Flowing C s₀ tape₀ whole s₁ tape := by
    rw [← hs₁]
    exact hflowing.congr rfl rfl rfl rfl
  have hlimit₁ := hflowing₁.limit
  have hlength : s₁.segmentBuffer.length = s.segmentBuffer.length + data.length := by
    rw [hbuffer, List.length_append]
  have hplain₁ : whole ++ s₁.segmentBuffer = plain ++ data := by
    rw [hbuffer, ← List.append_assoc, hplain]
  rw [hs₁]
  by_cases hfull : s₁.segmentBuffer.length = s₀.segmentPlaintextBytes
  · have hpos : 0 < s₀.segmentPlaintextBytes := by omega
    have hne : s₁.segmentBuffer ≠ [] := List.ne_nil_of_length_pos (by omega)
    have hcut : cut s₀.segmentPlaintextBytes (whole ++ s₁.segmentBuffer) =
        cut s₀.segmentPlaintextBytes whole ++ [s₁.segmentBuffer] := by
      rw [cut_append hpos _ _ hdvd, cut_of_le hpos hne hfull.le]
    rw [flushIfFull, if_pos (by omega)]
    refine ends_mono (flush_flowing hflowing₁ hne (.inr (by omega)) hcut) ?_
    rintro s₂ tape₂ ⟨hflowing₂, hempty, hapart₂⟩
    refine ⟨⟨?_, _, ?_, ?_, hflowing₂⟩, hapart₂.trans hapart⟩
    · rw [hempty]
      exact hpos
    · rw [hempty, List.append_nil]
      exact hplain₁
    · rw [List.length_append]
      exact Nat.dvd_add hdvd (by rw [hfull])
  · rw [flushIfFull_short (by omega)]
    exact ⟨⟨by omega, whole, hplain₁, hdvd, hflowing₁⟩, hapart⟩

/-- The loop that the two append functions share ends, and has put all its octets in. -/
theorem appendLoop_filling (fuel : Nat) (hf : data.length ≤ fuel)
    (h : Filling C s₀ tape₀ plain s tape) :
    Ends (fun s' tape' => Filling C s₀ tape₀ (plain ++ data) s' tape' ∧
        apartFromBuffers s' = apartFromBuffers s)
      (appendLoop .native C fuel data s tape) := by
  induction fuel generalizing data plain s tape with
  | zero =>
    obtain rfl : data = [] := List.eq_nil_of_length_eq_zero (by omega)
    rw [appendLoop]
    refine ends_pure ⟨?_, rfl⟩
    rwa [List.append_nil]
  | succ fuel ih =>
    cases data with
    | nil =>
      rw [appendLoop]
      refine ends_pure ⟨?_, rfl⟩
      rwa [List.append_nil]
    | cons b data =>
      have hshort := h.short
      have hlimit := h.limit
      rw [appendLoop]
      refine ends_bind (P := fun s' tape' => s' = s ∧ tape' = tape) ?_ ?_
      · rw [flushIfFull_short (by omega)]
        exact ⟨rfl, rfl⟩
      rintro s' tape' ⟨rfl, rfl⟩
      obtain ⟨n, hn⟩ : ∃ n, min (b :: data).length
          (s'.segmentPlaintextBytes - s'.segmentBuffer.length) = n := ⟨_, rfl⟩
      have hpos : n ≠ 0 := by
        rw [← hn, List.length_cons]
        omega
      simp only [hn, if_neg hpos]
      have htake : ((b :: data).take n).length = n := List.length_take_of_le (by omega)
      refine ends_bind (fill_filling ((b :: data).take n) h (by omega)) ?_
      rintro s₁ tape₁ ⟨h₁, hapart₁⟩
      have hdrop : ((b :: data).drop n).length ≤ fuel := by
        rw [List.length_drop]
        rw [List.length_cons] at hf ⊢
        omega
      refine ends_mono (ih hdrop h₁) ?_
      rintro s₂ tape₂ ⟨h₂, hapart₂⟩
      rw [List.append_assoc, List.take_append_drop] at h₂
      exact ⟨h₂, hapart₂.trans hapart₁⟩

/-- The padding loop ends as well, every batch being appended in full. -/
theorem padLoop_filling (fuel : Nat) (hf : s.paddingRemaining ≤ fuel)
    (h : Filling C s₀ tape₀ plain s tape) :
    Ends (fun s' tape' =>
        Filling C s₀ tape₀ (plain ++ List.replicate s.paddingRemaining 0) s' tape' ∧
        s'.paddingRemaining = 0 ∧ s'.fileBytesFed = s.fileBytesFed)
      (padLoop .native C fuel s tape) := by
  induction fuel generalizing plain s tape with
  | zero =>
    have hzero : s.paddingRemaining = 0 := by omega
    rw [padLoop, if_neg (by omega), hzero]
    refine ends_pure ⟨?_, hzero, rfl⟩
    rwa [List.replicate_zero, List.append_nil]
  | succ fuel ih =>
    rw [padLoop]
    by_cases hpos : 0 < s.paddingRemaining
    · rw [if_pos hpos]
      obtain ⟨n, hn⟩ : ∃ n, min s.paddingRemaining (64 * 1024) = n := ⟨_, rfl⟩
      simp only [hn]
      have happend : Ends (fun s' tape' =>
          Filling C s₀ tape₀ (plain ++ List.replicate n 0) s' tape' ∧
            apartFromBuffers s' = apartFromBuffers s) (appendPaddingZeros .native C n s tape) := by
        rw [appendPaddingZeros]
        refine ends_bind (ends_throwIf Exn.noConfusion) ?_
        rintro _ tape₁ ⟨-, rfl⟩
        exact appendLoop_filling n (by rw [List.length_replicate]) h
      refine ends_bind happend ?_
      rintro s₁ tape₁ ⟨h₁, hapart₁⟩
      have hleft : s₁.paddingRemaining = s.paddingRemaining := same_padding hapart₁
      have hfed₁ : s₁.fileBytesFed = s.fileBytesFed := same_fed hapart₁
      refine ends_mono (ih (s := { s₁ with paddingRemaining := s₁.paddingRemaining - n })
        (by simp only; omega) (h₁.with_counts s₁.fileBytesFed _)) ?_
      rintro s₂ tape₂ ⟨h₂, hzero, hfed⟩
      refine ⟨?_, hzero, hfed.trans hfed₁⟩
      rw [List.append_assoc, ← List.replicate_add] at h₂
      rwa [show n + (s₁.paddingRemaining - n) = s.paddingRemaining by omega] at h₂
    · have hzero : s.paddingRemaining = 0 := by omega
      rw [if_neg hpos, hzero]
      refine ends_pure ⟨?_, hzero, rfl⟩
      rwa [List.replicate_zero, List.append_nil]

variable (C s₀ tape₀) in
/-- Between two calls: the padding goes in with the first feed, and the buffer goes out with the
last. -/
structure Between (w : Watched) (tape : Bytes) : Prop where
  count : w.session.fileBytesFed = w.fed.length
  le : w.fed.length ≤ s₀.originalFileSize
  padding : w.session.paddingRemaining ≤ s₀.layout.plaintextPadding
  unpadded : w.session.paddingRemaining ≠ 0 → w.fed = []
  filling : w.fed.length < s₀.originalFileSize → Filling C s₀ tape₀ (taken w) w.session tape
  complete : w.fed.length = s₀.originalFileSize → w.session.segmentBuffer = [] ∧
    w.session.paddingRemaining = 0 ∧ Flowing C s₀ tape₀ (taken w) w.session tape

variable {w : Watched} {chunk fed : Bytes}

theorem Between.flowing (h : Between C s₀ tape₀ w tape) :
    ∃ whole, whole ++ w.session.segmentBuffer = taken w ∧ Flowing C s₀ tape₀ whole w.session tape := by
  rcases Nat.lt_or_eq_of_le h.le with hopen | hend
  · obtain ⟨whole, hplain, -, hflowing⟩ := (h.filling hopen).flowing
    exact ⟨whole, hplain, hflowing⟩
  · obtain ⟨hempty, -, hflowing⟩ := h.complete hend
    refine ⟨taken w, ?_, hflowing⟩
    rw [hempty, List.append_nil]

/-- The octets in front once the padding is in. -/
theorem taken_of_padded (hconfig : w.session.toUploadConfig = s₀.toUploadConfig)
    (hzero : w.session.paddingRemaining = 0) :
    taken w = List.replicate s₀.layout.plaintextPadding 0 ++ w.fed := by
  rw [taken, hzero, congrArg UploadConfig.layout hconfig, Nat.sub_zero]

/-- What went in and the rest of the padding. -/
theorem Between.padded (h : Between C s₀ tape₀ w tape)
    (hconfig : w.session.toUploadConfig = s₀.toUploadConfig) :
    taken w ++ List.replicate w.session.paddingRemaining 0 =
      List.replicate s₀.layout.plaintextPadding 0 ++ w.fed := by
  by_cases hzero : w.session.paddingRemaining = 0
  · rw [hzero, List.replicate_zero, List.append_nil, taken_of_padded hconfig hzero]
  · have hpadding := h.padding
    rw [taken, h.unpadded hzero, List.append_nil, List.append_nil, ← List.replicate_add,
      congrArg UploadConfig.layout hconfig, Nat.sub_add_cancel hpadding]

theorem flushWhenComplete_between (hcount : s.fileBytesFed = fed.length)
    (hle : fed.length ≤ s₀.originalFileSize) (hzero : s.paddingRemaining = 0)
    (h : Filling C s₀ tape₀ (List.replicate s₀.layout.plaintextPadding 0 ++ fed) s tape) :
    Ends (fun s' tape' => Between C s₀ tape₀ ⟨s', fed⟩ tape') (flushWhenComplete .native C s tape) := by
  have hsize : s.originalFileSize = s₀.originalFileSize :=
    congrArg UploadConfig.originalFileSize h.config
  have hshort := h.short
  have hfilled : taken ⟨s, fed⟩ = List.replicate s₀.layout.plaintextPadding 0 ++ fed :=
    taken_of_padded h.config hzero
  have hnone : s.paddingRemaining ≠ 0 → fed = [] := fun hne => absurd hzero hne
  rw [flushWhenComplete]
  by_cases hend : isFeedComplete s
  · have hfull : fed.length = s₀.originalFileSize := by
      rw [isFeedComplete] at hend
      omega
    obtain ⟨whole, hplain, hdvd, hflowing⟩ := h.flowing
    rw [if_pos hend]
    by_cases hne : s.segmentBuffer = []
    · rw [flushSegmentBufferIfReady, if_pos hne]
      refine ends_pure ⟨hcount, hle, hzero.le.trans (Nat.zero_le _), hnone,
        fun hlt => absurd hfull (Nat.ne_of_lt hlt), fun _ => ⟨hne, hzero, ?_⟩⟩
      rw [hfilled, ← hplain, hne, List.append_nil]
      exact hflowing
    · have hpos : 0 < s₀.segmentPlaintextBytes := by omega
      have hcut : cut s₀.segmentPlaintextBytes (whole ++ s.segmentBuffer) =
          cut s₀.segmentPlaintextBytes whole ++ [s.segmentBuffer] := by
        rw [cut_append hpos _ _ hdvd, cut_of_le hpos hne hshort.le]
      refine ends_mono (flush_flowing hflowing hne (.inl rfl) hcut) ?_
      rintro s₁ tape₁ ⟨hflowing₁, hempty, hapart⟩
      have hzero₁ : s₁.paddingRemaining = 0 := (same_padding hapart).trans hzero
      refine ⟨(same_fed hapart).trans hcount, hle, ?_, ?_, ?_, fun _ => ⟨hempty, hzero₁, ?_⟩⟩
      · show s₁.paddingRemaining ≤ _
        omega
      · exact fun hne => absurd hzero₁ hne
      · show fed.length < _ → _
        omega
      · rw [taken_of_padded hflowing₁.config hzero₁, ← hplain]
        exact hflowing₁
  · have hopen : fed.length < s₀.originalFileSize := by
      rw [isFeedComplete] at hend
      omega
    rw [if_neg hend]
    refine ends_pure ⟨hcount, hle, ?_, hnone, fun _ => ?_, ?_⟩
    · show s.paddingRemaining ≤ _
      omega
    · rw [hfilled]
      exact h
    · show fed.length = _ → _
      omega

/-- One feed that is within the file. -/
theorem feed_between (h : Between C s₀ tape₀ w tape)
    (hfit : w.fed.length + chunk.length ≤ s₀.originalFileSize) :
    Ends (fun s' tape' => Between C s₀ tape₀ ⟨s', w.fed ++ chunk⟩ tape')
      (feed .native C chunk w.session tape) := by
  have hcount := h.count
  rw [feed]
  refine ends_bind (ends_throwIf Exn.noConfusion) ?_
  rintro _ tape₁ ⟨-, rfl⟩
  refine ends_bind (ends_throwIf Exn.noConfusion) ?_
  rintro _ tape₂ ⟨-, rfl⟩
  simp only [native_size]
  rcases Nat.lt_or_eq_of_le h.le with hopen | hend
  · have hfilling := h.filling hopen
    have hlive := hfilling.live
    refine ends_bind (padLoop_filling _ le_rfl hfilling) ?_
    rintro s₁ tape₁ ⟨h₁, hzero, hfed₁⟩
    rw [h.padded hfilling.config] at h₁
    have hlive₁ := h₁.live
    have happend : Ends (fun s' tape' =>
        Filling C s₀ tape₀ (List.replicate s₀.layout.plaintextPadding 0 ++ w.fed ++ chunk) s' tape' ∧
          apartFromBuffers s' = apartFromBuffers s₁) (appendChunk .native C chunk s₁ tape₁) := by
      rw [appendChunk]
      cases chunk with
      | nil =>
        refine ends_pure ⟨?_, rfl⟩
        rwa [List.append_nil]
      | cons b chunk =>
        rw [List.isEmpty_cons, if_neg (by decide), appendPlaintextBytes]
        refine ends_bind (ends_throwIf Exn.noConfusion) ?_
        rintro _ tape₂ ⟨-, rfl⟩
        exact appendLoop_filling _ le_rfl h₁
    refine ends_bind happend ?_
    rintro s₂ tape₂ ⟨h₂, hapart₂⟩
    have hfed₂ : s₂.fileBytesFed = s₁.fileBytesFed := same_fed hapart₂
    have hzero₂ : s₂.paddingRemaining = s₁.paddingRemaining := same_padding hapart₂
    rw [List.append_assoc] at h₂
    refine flushWhenComplete_between ?_ ?_ ?_ (h₂.with_counts _ _)
    · show s₂.fileBytesFed + chunk.length = _
      rw [List.length_append]
      omega
    · rw [List.length_append]
      omega
    · show s₂.paddingRemaining = 0
      omega
  -- the file is complete: nothing goes in
  · obtain ⟨hempty, hzero, hflowing⟩ := h.complete hend
    obtain rfl : chunk = [] := List.eq_nil_of_length_eq_zero (by omega)
    refine ends_bind (P := fun s' tape' => s' = w.session ∧ tape' = tape₂) ?_ ?_
    · rw [hzero, padLoop, if_neg (by omega)]
      exact ends_pure ⟨rfl, rfl⟩
    rintro s₁ tape₁ ⟨rfl, rfl⟩
    refine ends_bind (P := fun s' tape' => s' = w.session ∧ tape' = tape₁) ?_ ?_
    · exact ends_pure ⟨rfl, rfl⟩
    rintro s₂ tape₂ ⟨rfl, rfl⟩
    have hunfed : ({ w.session with fileBytesFed := w.session.fileBytesFed + ([] : Bytes).length } :
        UploadPrepareSession) = w.session := rfl
    rw [hunfed, List.append_nil, flushWhenComplete]
    split
    · rw [flushSegmentBufferIfReady, if_pos hempty]
      exact ends_pure h
    · exact ends_pure h

theorem act_between (h : Between C s₀ tape₀ w tape) (action : Action) :
    Ends (fun w' tape' => Between C s₀ tape₀ w' tape') (act C action w tape) := by
  have hsize : w.session.originalFileSize = s₀.originalFileSize := by
    obtain ⟨_, -, hflowing⟩ := h.flowing
    exact congrArg UploadConfig.originalFileSize hflowing.config
  cases action with
  | take =>
    refine ends_pure ⟨h.count, h.le, h.padding, h.unpadded, fun hopen => ?_, fun hend => ?_⟩
    · obtain ⟨whole, hplain, hdvd, hflowing⟩ := (h.filling hopen).flowing
      exact ⟨(h.filling hopen).short, whole, hplain, hdvd, hflowing.congr rfl rfl rfl rfl⟩
    · obtain ⟨hempty, hzero, hflowing⟩ := h.complete hend
      exact ⟨hempty, hzero, hflowing.congr rfl rfl rfl rfl⟩
  | feed chunk =>
    rw [act]
    split
    case isTrue => exact ends_pure h
    case isFalse hfeed =>
      have hcount := h.count
      rw [native_size, not_or, not_lt] at hfeed
      refine ends_bind (feed_between h (by omega)) fun s' tape' h' => ?_
      exact ends_pure h'

theorem acts_between (actions : List Action) (h : Between C s₀ tape₀ w tape) :
    Ends (fun w' tape' => Between C s₀ tape₀ w' tape') (acts C actions w tape) := by
  induction actions generalizing w tape with
  | nil => exact ends_pure h
  | cons action actions ih => exact ends_bind (act_between h action) fun w' tape' h' => ih h'

theorem length_flatten_le (hC : C.Laws) (hstream : StreamMode C) {key : Bytes}
    {chunks packs : List Bytes} (h : List.Forall₂ (Sealed C key) chunks packs) :
    packs.flatten.length ≤ chunks.flatten.length + 28 * chunks.length := by
  induction h with
  | nil => exact Nat.zero_le _
  | cons hseal _ ih =>
    have hlength := length_le_of_sealed hC hstream hseal
    simp only [List.flatten_cons, List.length_append, List.length_cons]
    omega

/-- What the constructor settles about the session's layout and segment. -/
structure Laid (s₀ : UploadPrepareSession) : Prop where
  sound : SoundLayout s₀.originalFileSize s₀.segmentCode s₀.layout
  segment : s₀.segmentPlaintextBytes =
    if s₀.segmentCode = 0 then s₀.originalFileSize + s₀.layout.plaintextPadding
    else segmentBytes s₀.segmentCode

theorem Laid.pos (h : Laid s₀) (hfile : 0 < s₀.originalFileSize) : 0 < s₀.segmentPlaintextBytes := by
  have hseg := segmentBytes_pos s₀.segmentCode
  rw [h.segment]
  split <;> omega

/-- Part of the padded file becomes no more records than the layout has counted. -/
theorem Laid.records_le (h : Laid s₀) (hfile : 0 < s₀.originalFileSize) {n : Nat}
    (hn : n ≤ s₀.originalFileSize + s₀.layout.plaintextPadding) :
    n + 28 * ((n + s₀.segmentPlaintextBytes - 1) / s₀.segmentPlaintextBytes) ≤
      s₀.layout.ciphertextLength := by
  have hpos := h.pos hfile
  have hcount : (n + s₀.segmentPlaintextBytes - 1) / s₀.segmentPlaintextBytes ≤
      recordCount (s₀.originalFileSize + s₀.layout.plaintextPadding) s₀.segmentCode := by
    rw [recordCount]
    have hsegment := h.segment
    by_cases hcode : s₀.segmentCode = 0
    · rw [if_pos hcode] at hsegment ⊢
      exact Nat.lt_succ_iff.mp ((Nat.div_lt_iff_lt_mul hpos).mpr (by omega))
    · rw [if_neg hcode] at hsegment ⊢
      rw [hsegment]
      exact Nat.div_le_div_right (by omega)
  rw [h.sound.ciphertext, cipherLength]
  omega

theorem Between.bounded (hC : C.Laws) (hstream : StreamMode C) (hlaid : Laid s₀)
    (hfile : 0 < s₀.originalFileSize) (h : Between C s₀ tape₀ w tape) : Bounded C tape₀ w tape := by
  obtain ⟨whole, hplain, hflowing⟩ := h.flowing
  have hlimit := hflowing.limit
  have hlayout : w.session.layout = s₀.layout := congrArg UploadConfig.layout hflowing.config
  have hpos := hlaid.pos hfile
  have hlength := congrArg List.length hplain
  rw [List.length_append] at hlength
  have hwhole : (taken w).length - w.session.segmentBuffer.length = whole.length := by omega
  have hsealed : sealedPart w = whole := by rw [sealedPart, hwhole, ← hplain, List.take_left]
  obtain ⟨packs, hpacks, hwired⟩ := hflowing.records
  have htaken : (taken w).length ≤ s₀.originalFileSize + s₀.layout.plaintextPadding := by
    have hle := h.le
    rw [taken, List.length_append, List.length_replicate, hlayout]
    omega
  have htotal : packs.flatten.length ≤ s₀.layout.ciphertextLength := by
    have hsum := length_flatten_le hC hstream (mapM_encrypt_sealed _ _ hpacks)
    rw [flatten_cut hpos, length_cut hpos] at hsum
    exact hsum.trans (hlaid.records_le hfile (by omega))
  have hle := hflowing.drained.le
  rw [wired] at hwired
  refine ⟨?_, ?_, ?_, hle, packs, ?_, hwired⟩
  · rw [hlimit]
    rcases Nat.lt_or_eq_of_le h.le with hopen | hend
    · exact (h.filling hopen).short
    · rw [(h.complete hend).1]
      exact hpos
  · rw [hwhole, ← hplain, List.drop_left]
  · rcases hflowing.drained.settled with hall | hshort
    · have hparts := leading_add_last hlaid.sound
      have hlast := hlaid.sound.last
      rw [hall, hlayout] at hwired
      rw [hlayout]
      omega
    · exact hshort
  · rw [hsealed, hlimit, hflowing.kFek]
    exact hpacks

/-- A session as the constructor leaves it. -/
structure Fresh (s₀ : UploadPrepareSession) : Prop where
  laid : Laid s₀
  live : s₀.finalized = false
  padding : s₀.paddingRemaining = s₀.layout.plaintextPadding
  unfed : s₀.fileBytesFed = 0
  buffer : s₀.segmentBuffer = []
  pending : s₀.wirePending = []
  emitted : s₀.emittedLeadingCount = 0

theorem segmentPlaintextBytes_eq {layout : WireLayout} {size code n : Nat} (hv : ValidCode code)
    (h : UploadSession.segmentPlaintextBytes .native layout size code = .ok n) :
    n = if code = 0 then size + layout.plaintextPadding else segmentBytes code := by
  rw [UploadSession.segmentPlaintextBytes, native_size] at h
  by_cases hcode : code = 0
  · rw [if_pos (by simp [isV2WholeFileMode, hcode, kV2SegmentCodeWholeFile])] at h
    rw [if_pos hcode]
    exact (Except.ok.inj h).symm
  · rw [if_neg (by simp [isV2WholeFileMode, hcode, kV2SegmentCodeWholeFile]),
      decode_ok code (Nat.pos_of_ne_zero hcode) hv] at h
    rw [if_neg hcode]
    exact (Except.ok.inj h).symm

theorem new_fresh {credential originalFileName : Str} {size code maxWireBlockBytes : Nat}
    (h : UploadSession.new .native C credential originalFileName size code maxWireBlockBytes tape =
      .ok (s₀, tape₀)) : Fresh s₀ ∧ s₀.originalFileSize = size := by
  simp only [UploadSession.new, rand_bind_eq_ok, rand_lift_eq_ok, rand_pure_eq_ok] at h
  obtain ⟨parts, _, -, _, _, -, layout, _, ⟨hlayout, -⟩, limit, _, ⟨hlimit, -⟩, salt, _, -, fek, _, -,
    hs₀⟩ := h
  have hsound := computeWireLayout_sound hlayout
  have hsegment := segmentPlaintextBytes_eq hsound.code hlimit
  rw [(Prod.mk.inj hs₀).1]
  exact ⟨⟨⟨hsound, hsegment⟩, rfl, rfl, rfl, rfl, rfl, rfl⟩, rfl⟩

theorem Fresh.between (h : Fresh s₀) (hfile : 0 < s₀.originalFileSize) :
    Between C s₀ tape₀ ⟨s₀, []⟩ tape₀ := by
  have hblock := h.laid.sound.block
  have hempty : taken ⟨s₀, []⟩ = [] := by rw [taken, h.padding, Nat.sub_self]; rfl
  refine ⟨h.unfed, Nat.zero_le _, h.padding.le, fun _ => rfl, fun _ => ?_, fun hend => ?_⟩
  · refine ⟨?_, [], ?_, dvd_zero _, rfl, h.live, ⟨?_, .inr ?_⟩, [], rfl, ?_⟩
    · show s₀.segmentBuffer.length < _
      rw [h.buffer]
      exact h.laid.pos hfile
    · rw [hempty, List.nil_append]
      exact h.buffer
    · rw [h.emitted]
      exact Nat.zero_le _
    · rw [h.pending]
      exact Nat.lt_of_lt_of_le (by decide) hblock
    · rw [wired, h.emitted, h.pending, Nat.zero_mul]
      rfl
  · exact absurd hend (Nat.ne_of_lt hfile)

/-- After every feed and every take the session is bounded, and no call is stuck. -/
theorem buffers_bounded (hC : C.Laws) (hstream : StreamMode C) (credential originalFileName : Str)
    (size code maxWireBlockBytes : Nat) (hfile : 0 < size) (s₀ : UploadPrepareSession)
    (tape tape₀ : Bytes)
    (hnew : UploadSession.new .native C credential originalFileName size code maxWireBlockBytes tape =
      .ok (s₀, tape₀)) (actions : List Action) :
    acts C actions ⟨s₀, []⟩ tape₀ ≠ .error .stuck ∧
      ∀ w tape', acts C actions ⟨s₀, []⟩ tape₀ = .ok (w, tape') → Bounded C tape₀ w tape' := by
  obtain ⟨hfresh, rfl⟩ := new_fresh hnew
  have hbetween : Between C s₀ tape₀ ⟨s₀, []⟩ tape₀ := hfresh.between hfile
  have hends := acts_between actions hbetween
  refine ⟨hends.not_stuck, fun w tape' hw => ?_⟩
  exact (hends.of_ok hw).bounded hC hstream hfresh.laid hfile

/-- 600 of 900 octets, an attempt at too many, and the rest. -/
def someFeeds : List Action :=
  [.feed (List.replicate 600 5), .take, .feed (List.replicate 301 5), .feed (List.replicate 300 5)]

theorem buffers_bounded_plain :
    ∃ s₀ tape₀ w tape', UploadSession.new .native PlainCrypto.plain (ascii "abcdefghijkl")
        (ascii "a.txt") 900 1 700 (List.replicate 200 7) = .ok (s₀, tape₀) ∧
      acts PlainCrypto.plain someFeeds ⟨s₀, []⟩ tape₀ = .ok (w, tape') ∧
      Bounded PlainCrypto.plain tape₀ w tape' := by
  have hok : ((do
      let s₀ ← UploadSession.new .native PlainCrypto.plain (ascii "abcdefghijkl") (ascii "a.txt") 900
        1 700
      acts PlainCrypto.plain someFeeds ⟨s₀, []⟩ : RandM Watched) (List.replicate 200 7)).isOk =
        true := by
    decide +kernel
  cases h : (do
      let s₀ ← UploadSession.new .native PlainCrypto.plain (ascii "abcdefghijkl") (ascii "a.txt") 900
        1 700
      acts PlainCrypto.plain someFeeds ⟨s₀, []⟩ : RandM Watched) (List.replicate 200 7) with
  | error e =>
    rw [h] at hok
    cases hok
  | ok r =>
    obtain ⟨s₀, tape₀, hnew, hacts⟩ := rand_bind_eq_ok.mp h
    exact ⟨s₀, tape₀, r.1, r.2, hnew, hacts, (buffers_bounded PlainCrypto.plain_laws plain_streamMode
      _ _ 900 1 700 (by decide) s₀ _ tape₀ hnew _).2 r.1 r.2 hacts⟩

end TwelveC.UploadBuffers
