import TwelveC.StreamingUpload

/-!
# When a streaming upload succeeds

A session that is fed the whole file finalizes on a tape exactly if the batch
sender succeeds on it. What a session has sealed is read backwards from its end:
if the rest could be sealed after a step, then so could what the step took in and
the rest before it.
-/

namespace TwelveC.StreamingUpload

open Segment WireLayout Payload Merkle Smb Crypto Sender UploadSession RoundTrip Lib.Cut

variable {C : Primitives} {s s' s'' : UploadPrepareSession} {tape tape' tape'' : Bytes}

variable (C) in
/-- The buffer and what is still to come can be sealed, on the tape up to `last`. -/
def Sealable (s : UploadPrepareSession) (tape remaining last : Bytes) : Prop :=
  ∃ packs, (cut s.segmentPlaintextBytes (s.segmentBuffer ++ remaining)).mapM (encrypt C s.kFek) tape =
    .ok (packs, last)

/-- Less than a segment is buffered. -/
def Short (s : UploadPrepareSession) : Prop := s.segmentBuffer.length < s.segmentPlaintextBytes

variable (C) in
/-- A step from `s` to `s'` that takes in `data`. -/
structure Absorbs (data : Bytes) (s : UploadPrepareSession) (tape : Bytes) (s' : UploadPrepareSession)
    (tape' : Bytes) : Prop where
  config : s'.toUploadConfig = s.toUploadConfig
  short : Short s'
  back : ∀ remaining last, Sealable C s' tape' remaining last →
    Sealable C s tape (data ++ remaining) last

theorem Absorbs.refl (h : Short s) : Absorbs C [] s tape s tape :=
  ⟨rfl, h, fun _ _ hseal => hseal⟩

theorem Absorbs.trans {data more : Bytes} (h : Absorbs C data s tape s' tape')
    (h' : Absorbs C more s' tape' s'' tape'') : Absorbs C (data ++ more) s tape s'' tape'' where
  config := h'.config.trans h.config
  short := h'.short
  back remaining last hseal := by
    rw [List.append_assoc]
    exact h.back _ _ (h'.back _ _ hseal)

/-- Only the configuration and the buffer count. -/
theorem Absorbs.congr {data : Bytes} (h : Absorbs C data s tape s' tape')
    (hconfig : s''.toUploadConfig = s'.toUploadConfig) (hbuffer : s''.segmentBuffer = s'.segmentBuffer) :
    Absorbs C data s tape s'' tape' where
  config := hconfig.trans h.config
  short := by
    rw [Short, hbuffer, congrArg UploadConfig.segmentPlaintextBytes hconfig]
    exact h.short
  back remaining last hseal := by
    rw [Sealable, hbuffer, congrArg UploadConfig.segmentPlaintextBytes hconfig,
      congrArg UploadConfig.kFek hconfig] at hseal
    exact h.back _ _ hseal

theorem tryEmit_same (fuel : Nat) (s : UploadPrepareSession) :
    (tryEmitLeadingBlocks .native C fuel s).toUploadConfig = s.toUploadConfig ∧
      SamePlain s (tryEmitLeadingBlocks .native C fuel s) := by
  induction fuel generalizing s with
  | zero => exact ⟨rfl, rfl, rfl, rfl, rfl⟩
  | succ fuel ih =>
    rw [tryEmitLeadingBlocks]
    split
    · obtain ⟨hconfig, hsame⟩ := ih (emitLeadingBlock .native C s)
      exact ⟨hconfig, hsame.1, hsame.2, hsame.3, hsame.4⟩
    · exact ⟨rfl, rfl, rfl, rfl, rfl⟩

/-- A flush that succeeds has sealed the buffer, if that is a block of its own. -/
theorem flush_absorbs {force : Bool}
    (hf : force = true ∨ s.segmentBuffer.length = s.segmentPlaintextBytes)
    (hne : s.segmentBuffer ≠ [])
    (h : flushSegmentBufferIfReady .native C force s tape = .ok (s', tape')) :
    s'.toUploadConfig = s.toUploadConfig ∧ s'.segmentBuffer = [] ∧
      s'.fileBytesFed = s.fileBytesFed ∧ s'.paddingRemaining = s.paddingRemaining ∧
      ∀ remaining last, cut s.segmentPlaintextBytes (s.segmentBuffer ++ remaining) =
          s.segmentBuffer :: cut s.segmentPlaintextBytes remaining →
        Sealable C s' tape' remaining last → Sealable C s tape remaining last := by
  rw [flush_eq hne hf] at h
  simp only [rand_bind_eq_ok, rand_pure_eq_ok, Prod.mk.injEq] at h
  obtain ⟨pack, t₁, henc, rfl, rfl⟩ := h
  obtain ⟨hconfig, hsame⟩ := tryEmit_same (C := C) s.layout.numTokens
    { s with segmentBuffer := [], wirePending := s.wirePending ++ pack }
  refine ⟨hconfig, hsame.segmentBuffer, hsame.fileBytesFed, hsame.paddingRemaining, ?_⟩
  rintro remaining last hcut ⟨packs, hpacks⟩
  refine ⟨pack :: packs, ?_⟩
  have hbuffer : (appendCiphertextPack .native C pack { s with segmentBuffer := [] }).segmentBuffer =
      [] := hsame.segmentBuffer
  rw [hbuffer, List.nil_append,
    show (appendCiphertextPack .native C pack { s with segmentBuffer := [] }).segmentPlaintextBytes =
      s.segmentPlaintextBytes from congrArg UploadConfig.segmentPlaintextBytes hconfig,
    show (appendCiphertextPack .native C pack { s with segmentBuffer := [] }).kFek = s.kFek from
      congrArg UploadConfig.kFek hconfig] at hpacks
  rw [hcut]
  simp only [List.mapM_cons, rand_bind_eq_ok, rand_pure_eq_ok]
  exact ⟨pack, _, henc, packs, last, hpacks, rfl⟩

/-- The members that a step of the plaintext side leaves alone. -/
def SameCounts (s s' : UploadPrepareSession) : Prop :=
  s'.fileBytesFed = s.fileBytesFed ∧ s'.paddingRemaining = s.paddingRemaining

theorem flushIfFull_absorbs (h : flushIfFull .native C s tape = .ok (s', tape'))
    (hpos : 0 < s.segmentPlaintextBytes) (hle : s.segmentBuffer.length ≤ s.segmentPlaintextBytes) :
    Absorbs C [] s tape s' tape' ∧ SameCounts s s' := by
  rw [flushIfFull] at h
  split at h
  case isTrue hfull =>
    have hlen : s.segmentBuffer.length = s.segmentPlaintextBytes := by omega
    obtain ⟨hconfig, hbuffer, hfed, hpadding, hback⟩ := flush_absorbs (.inr hlen)
      (List.ne_nil_of_length_pos (by omega)) h
    refine ⟨⟨hconfig, ?_, fun remaining last => hback _ _ (cut_append_block hpos _ _ hlen)⟩, hfed, hpadding⟩
    rw [Short, hbuffer, congrArg UploadConfig.segmentPlaintextBytes hconfig]
    exact hpos
  case isFalse hshort =>
    obtain ⟨rfl, rfl⟩ := Prod.mk.inj (Except.ok.inj h)
    exact ⟨.refl (by rw [Short]; omega), rfl, rfl⟩

theorem appendLoop_absorbs (fuel : Nat) (data : Bytes) (hshort : Short s)
    (h : appendLoop .native C fuel data s tape = .ok (s', tape')) :
    Absorbs C data s tape s' tape' ∧ SameCounts s s' := by
  induction fuel generalizing data s tape with
  | zero =>
    cases data with
    | nil =>
      obtain ⟨rfl, rfl⟩ := Prod.mk.inj (Except.ok.inj h)
      exact ⟨.refl hshort, rfl, rfl⟩
    | cons b data => cases h
  | succ fuel ih =>
    cases data with
    | nil =>
      obtain ⟨rfl, rfl⟩ := Prod.mk.inj (Except.ok.inj h)
      exact ⟨.refl hshort, rfl, rfl⟩
    | cons b data =>
      have hlt : s.segmentBuffer.length < s.segmentPlaintextBytes := hshort
      simp only [appendLoop, rand_bind_eq_ok] at h
      obtain ⟨s₀, t₀, hfirst, h⟩ := h
      rw [flushIfFull_short hlt] at hfirst
      obtain ⟨rfl, rfl⟩ := Prod.mk.inj (Except.ok.inj hfirst)
      obtain ⟨n, hn⟩ : ∃ n, min (b :: data).length (s.segmentPlaintextBytes - s.segmentBuffer.length) =
        n := ⟨_, rfl⟩
      have hn₀ : n ≠ 0 := by
        simp only [List.length_cons] at hn
        omega
      rw [hn, if_neg hn₀, rand_bind_eq_ok] at h
      obtain ⟨s₁, t₁, hflush, h⟩ := h
      have hlen : (s.segmentBuffer ++ (b :: data).take n).length ≤ s.segmentPlaintextBytes := by
        rw [List.length_append, List.length_take]
        omega
      obtain ⟨habsorbs, hfed, hpadding⟩ := flushIfFull_absorbs hflush (Nat.zero_lt_of_lt hlt) hlen
      obtain ⟨hrest, hfed', hpadding'⟩ := ih _ habsorbs.short h
      -- the octets moved into the buffer are the front of the data
      have hmove : ∀ remaining last,
          Sealable C { s with segmentBuffer := s.segmentBuffer ++ (b :: data).take n } tape remaining last →
            Sealable C s tape ((b :: data).take n ++ remaining) last := by
        intro remaining last hseal
        rw [Sealable, List.append_assoc] at hseal
        exact hseal
      refine ⟨⟨hrest.config.trans habsorbs.config, hrest.short, fun remaining last hseal => ?_⟩,
        hfed'.trans hfed, hpadding'.trans hpadding⟩
      have := hmove _ _ (habsorbs.back _ _ (hrest.back _ _ hseal))
      rwa [List.nil_append, ← List.append_assoc, List.take_append_drop] at this

theorem padLoop_done (hzero : ¬ 0 < s.paddingRemaining) (hshort : Short s) :
    Absorbs C (List.replicate s.paddingRemaining 0) s tape s tape ∧
      s.fileBytesFed = s.fileBytesFed ∧ s.paddingRemaining = 0 := by
  have hpadding : s.paddingRemaining = 0 := by omega
  refine ⟨?_, rfl, hpadding⟩
  rw [hpadding]
  exact .refl hshort

theorem padLoop_absorbs (fuel : Nat) (hshort : Short s)
    (h : padLoop .native C fuel s tape = .ok (s', tape')) :
    Absorbs C (List.replicate s.paddingRemaining 0) s tape s' tape' ∧
      s'.fileBytesFed = s.fileBytesFed ∧ s'.paddingRemaining = 0 := by
  induction fuel generalizing s tape with
  | zero =>
    rw [padLoop] at h
    split at h
    case isTrue => cases h
    case isFalse hzero =>
      obtain ⟨rfl, rfl⟩ := Prod.mk.inj (Except.ok.inj h)
      exact padLoop_done hzero hshort
  | succ fuel ih =>
    rw [padLoop] at h
    split at h
    case isFalse hzero =>
      obtain ⟨rfl, rfl⟩ := Prod.mk.inj (Except.ok.inj h)
      exact padLoop_done hzero hshort
    case isTrue =>
      obtain ⟨n, hn⟩ : ∃ n, min s.paddingRemaining (64 * 1024) = n := ⟨_, rfl⟩
      simp only [hn, appendPaddingZeros, rand_bind_eq_ok, rand_lift_eq_ok, throwIf_eq_ok] at h
      obtain ⟨s₁, t₁, ⟨_, _, ⟨-, rfl⟩, hloop⟩, h⟩ := h
      obtain ⟨habsorbs, hfed, hpadding⟩ := appendLoop_absorbs _ _ hshort hloop
      have hstep : Absorbs C (List.replicate n 0) s tape
          { s₁ with paddingRemaining := s₁.paddingRemaining - n } t₁ := habsorbs.congr rfl rfl
      obtain ⟨hrest, hfed', hpadding'⟩ := ih hstep.short h
      have hboth := hstep.trans hrest
      rw [← List.replicate_add, hpadding, Nat.add_sub_cancel' (by omega)] at hboth
      exact ⟨hboth, hfed'.trans hfed, hpadding'⟩

theorem flushLast_absorbs (hshort : Short s)
    (h : flushSegmentBufferIfReady .native C true s tape = .ok (s', tape')) :
    s'.toUploadConfig = s.toUploadConfig ∧ s'.segmentBuffer = [] ∧ SameCounts s s' ∧
      ∀ last, Sealable C s' tape' [] last → Sealable C s tape [] last := by
  have hlt : s.segmentBuffer.length < s.segmentPlaintextBytes := hshort
  by_cases hne : s.segmentBuffer = []
  · rw [flushSegmentBufferIfReady, if_pos hne] at h
    obtain ⟨rfl, rfl⟩ := Prod.mk.inj (Except.ok.inj h)
    exact ⟨rfl, hne, ⟨rfl, rfl⟩, fun _ hseal => hseal⟩
  · obtain ⟨hconfig, hbuffer, hfed, hpadding, hback⟩ := flush_absorbs (.inl rfl) hne h
    refine ⟨hconfig, hbuffer, ⟨hfed, hpadding⟩, fun last => hback [] last ?_⟩
    rw [List.append_nil, cut_of_le (by omega) hne hlt.le, cut_nil]

theorem appendChunk_absorbs (chunk : Bytes) (hshort : Short s)
    (h : appendChunk .native C chunk s tape = .ok (s', tape')) :
    Absorbs C chunk s tape s' tape' ∧ SameCounts s s' := by
  rw [appendChunk] at h
  cases chunk with
  | nil =>
    obtain ⟨rfl, rfl⟩ := Prod.mk.inj (Except.ok.inj h)
    exact ⟨.refl hshort, rfl, rfl⟩
  | cons b chunk =>
    rw [List.isEmpty_cons, if_neg (by decide), appendPlaintextBytes] at h
    simp only [rand_bind_eq_ok, rand_lift_eq_ok, throwIf_eq_ok] at h
    obtain ⟨_, _, ⟨-, rfl⟩, hloop⟩ := h
    exact appendLoop_absorbs _ _ hshort hloop

/-- Nothing is held back of a file that was fed completely. -/
def Done (s : UploadPrepareSession) : Prop :=
  isFeedComplete s → s.segmentBuffer = [] ∧ s.paddingRemaining = 0

variable (C) in
/-- A call to `feed` that succeeds. -/
structure Takes (chunk : Bytes) (s : UploadPrepareSession) (tape : Bytes) (s' : UploadPrepareSession)
    (tape' : Bytes) : Prop where
  config : s'.toUploadConfig = s.toUploadConfig
  short : Short s'
  fed : s'.fileBytesFed = s.fileBytesFed + chunk.length
  padding : s'.paddingRemaining = 0
  done : Done s'
  back : ∀ remaining last, (isFeedComplete s' → remaining = []) → Sealable C s' tape' remaining last →
    Sealable C s tape (List.replicate s.paddingRemaining 0 ++ (chunk ++ remaining)) last

theorem feed_takes (chunk : Bytes) (hshort : Short s)
    (h : feed .native C chunk s tape = .ok (s', tape')) : Takes C chunk s tape s' tape' := by
  simp only [feed, rand_bind_eq_ok, rand_lift_eq_ok, throwIf_eq_ok, native_size] at h
  obtain ⟨_, _, ⟨-, rfl⟩, _, _, ⟨-, rfl⟩, s₁, t₁, hpad, s₂, t₂, hchunk, h⟩ := h
  obtain ⟨hpadded, hfed₁, hpadding₁⟩ := padLoop_absorbs _ hshort hpad
  obtain ⟨happended, hfed₂, hpadding₂⟩ := appendChunk_absorbs chunk hpadded.short hchunk
  have hboth : Absorbs C (List.replicate s.paddingRemaining 0 ++ chunk) s tape
      { s₂ with fileBytesFed := s₂.fileBytesFed + chunk.length } t₂ :=
    (hpadded.trans happended).congr rfl rfl
  have hpadding : s₂.paddingRemaining = 0 := hpadding₂.trans hpadding₁
  have hfed : s₂.fileBytesFed = s.fileBytesFed := hfed₂.trans hfed₁
  have hfront {remaining last : Bytes}
      (hseal : Sealable C { s₂ with fileBytesFed := s₂.fileBytesFed + chunk.length } t₂ remaining last) :
      Sealable C s tape (List.replicate s.paddingRemaining 0 ++ (chunk ++ remaining)) last := by
    have := hboth.back _ _ hseal
    rwa [List.append_assoc] at this
  rw [flushWhenComplete] at h
  split at h
  case isTrue =>
    obtain ⟨hconfig, hbuffer, ⟨hfed', hpadding'⟩, hback⟩ := flushLast_absorbs hboth.short h
    have hcomplete : isFeedComplete s' := by
      rw [isFeedComplete, congrArg UploadConfig.originalFileSize hconfig, hfed']
      assumption
    refine ⟨hconfig.trans hboth.config, ?_, by rw [hfed', ← hfed], hpadding'.trans hpadding,
      fun _ => ⟨hbuffer, hpadding'.trans hpadding⟩, fun remaining last hend hseal => ?_⟩
    · rw [Short, hbuffer, congrArg UploadConfig.segmentPlaintextBytes hconfig]
      exact Nat.zero_lt_of_lt hboth.short
    · rw [hend hcomplete] at hseal ⊢
      exact hfront (hback last hseal)
  case isFalse hopen =>
    obtain ⟨rfl, rfl⟩ := Prod.mk.inj (Except.ok.inj h)
    exact ⟨hboth.config, hboth.short, by rw [← hfed], hpadding, fun hcomplete => absurd hcomplete hopen,
      fun _ _ _ hseal => hfront hseal⟩

/-- A run of feeds and takes that succeeds has sealed the padded file. -/
theorem runActions_sealable {taken : List UploadWireBlock} (actions : List Action) (hshort : Short s)
    (hdone : Done s)
    (hfed : s.fileBytesFed + (actions.flatMap Action.fed).length = s.originalFileSize)
    (h : runActions .native C actions s tape = .ok ((taken, s'), tape')) :
    Sealable C s tape (List.replicate s.paddingRemaining 0 ++ actions.flatMap Action.fed) tape' := by
  induction actions generalizing s tape taken with
  | nil =>
    obtain ⟨hboth, rfl⟩ := Prod.mk.inj (Except.ok.inj h)
    rw [List.flatMap_nil, List.length_nil] at hfed
    obtain ⟨hbuffer, hpadding⟩ := hdone hfed.symm.le
    exact ⟨[], by simp [hbuffer, hpadding]⟩
  | cons action actions ih =>
    cases action with
    | take =>
      simp only [runActions, rand_bind_eq_ok] at h
      obtain ⟨⟨rest, s₁⟩, t₁, hrun, h⟩ := h
      obtain ⟨hboth, rfl⟩ := Prod.mk.inj (Except.ok.inj h)
      obtain ⟨-, rfl⟩ := Prod.mk.inj hboth
      exact ih (s := (takeReadyBlocks s).2) hshort hdone hfed hrun
    | feed chunk =>
      simp only [runActions, rand_bind_eq_ok] at h
      obtain ⟨s₁, t₁, hfeed, hrun⟩ := h
      have htakes := feed_takes chunk hshort hfeed
      have hsize : s₁.originalFileSize = s.originalFileSize :=
        congrArg UploadConfig.originalFileSize htakes.config
      have htotal := htakes.fed
      simp only [List.flatMap_cons, Action.fed, List.length_append] at hfed
      have hseal := ih htakes.short htakes.done (by omega) hrun
      rw [htakes.padding, List.replicate_zero, List.nil_append] at hseal
      refine htakes.back (actions.flatMap Action.fed) _ (fun hcomplete => ?_) hseal
      rw [isFeedComplete] at hcomplete
      exact List.eq_nil_of_length_eq_zero (by omega)

variable {filePlaintext : Bytes} {credential originalFileName : Str}
  {segmentCode maxWireBlockBytes : Nat} {tape₀ tape₂ tape₃ tape₅ : Bytes}

theorem segmentPlaintextBytes_limit (hcode : ValidCode segmentCode)
    (r : Run filePlaintext credential originalFileName segmentCode maxWireBlockBytes) :
    UploadSession.segmentPlaintextBytes .native r.layout filePlaintext.length segmentCode =
      .ok (limit r) := by
  rw [UploadSession.segmentPlaintextBytes, limit]
  split
  case isTrue => rw [native_size]
  case isFalse hmode =>
    have hne : segmentCode ≠ 0 := by simpa [isV2WholeFileMode, kV2SegmentCodeWholeFile] using hmode
    exact decode_ok _ (Nat.one_le_iff_ne_zero.mpr hne) hcode

/-- What the constructor settles, as a run with nothing sealed yet. -/
theorem new_eq_ok (h : UploadSession.new .native C credential originalFileName filePlaintext.length
      segmentCode maxWireBlockBytes tape₀ = .ok (s, tape₂)) :
    ∃ (r : Run filePlaintext credential originalFileName segmentCode maxWireBlockBytes) (tape₁ : Bytes),
      s = fresh C r ∧ splitCredential credential = .ok r.parts ∧
      validateSegmentCodeV21 segmentCode = .ok () ∧
      computeWireLayout .native filePlaintext.length segmentCode maxWireBlockBytes = .ok r.layout ∧
      randomBytes kSaltRandBytes tape₀ = .ok (r.saltRand, tape₁) ∧
      generateFek tape₁ = .ok (r.kFek, tape₂) := by
  simp only [UploadSession.new, rand_bind_eq_ok, rand_lift_eq_ok, rand_pure_eq_ok, Prod.mk.injEq] at h
  obtain ⟨parts, _, ⟨hsplit, rfl⟩, _, _, ⟨hcode, rfl⟩, layout, _, ⟨hlayout, rfl⟩, size, _, ⟨hsize, rfl⟩,
    salt, t₁, hsalt, kFek, t₂, hfek, rfl, rfl⟩ := h
  refine ⟨⟨parts, layout, salt, kFek, [], [], [], [], ⟨[], [], []⟩, []⟩, t₁, ?_, hsplit, hcode, hlayout,
    hsalt, hfek⟩
  have hlimit := segmentPlaintextBytes_limit (LayoutSound.computeWireLayout_sound hlayout).code
    (⟨parts, layout, salt, kFek, [], [], [], [], ⟨[], [], []⟩, []⟩ :
      Run filePlaintext credential originalFileName segmentCode maxWireBlockBytes)
  rw [Except.ok.inj (hsize.symm.trans hlimit)]
  rfl

/-- The records make the payload of the batch sender. -/
theorem payload_of_packs (hne : filePlaintext ≠ [])
    {r : Run filePlaintext credential originalFileName segmentCode maxWireBlockBytes}
    (hs : SoundLayout filePlaintext.length segmentCode r.layout) {packs : List Bytes}
    (hpacks : (cut (limit r) r.plaintext).mapM (encrypt C r.kFek) tape₂ = .ok (packs, tape₃))
    (hlength : packs.flatten.length = r.layout.ciphertextLength) :
    encryptPayloadForSegmentCode .native C r.kFek r.plaintext segmentCode tape₂ =
      .ok (packs.flatten, tape₃) := by
  have hfile := List.length_pos_of_ne_nil hne
  have hplain := length_plaintext r
  by_cases hmode : isV2WholeFileMode segmentCode = true
  · have hpos : r.plaintext ≠ [] := List.ne_nil_of_length_pos (by omega)
    rw [limit, if_pos hmode, ← hplain, cut_of_le (List.length_pos_of_ne_nil hpos) hpos le_rfl] at hpacks
    simp only [List.mapM_cons, List.mapM_nil, rand_bind_eq_ok, rand_pure_eq_ok, Prod.mk.injEq] at hpacks
    obtain ⟨pack, t, henc, rest, t', ⟨rfl, rfl⟩, rfl, rfl⟩ := hpacks
    rw [encryptPayloadForSegmentCode, if_pos hmode, encryptPayloadV2WholeFile, List.flatten_singleton]
    exact henc
  · have hcode : segmentCode ≠ 0 := by
      simpa [isV2WholeFileMode, kV2SegmentCodeWholeFile] using hmode
    rw [limit, if_neg hmode] at hpacks
    exact encryptPayload_of_packs native_size hs.code hcode hpacks
      (by rw [hlength, hs.ciphertext, hplain])

/-- The run with this ciphertext, cut as the layout says, and these records. -/
def withSealed (r : Run filePlaintext credential originalFileName segmentCode maxWireBlockBytes)
    (ciphertext packedFek : Bytes) (encryptedFek : EncryptedBlob) (sEnc : Bytes) :
    Run filePlaintext credential originalFileName segmentCode maxWireBlockBytes :=
  let leading := (r.layout.numTokens - 1) * r.layout.wireBlockSize
  { r with
    ciphertext
    leadingBlocks := cut r.layout.wireBlockSize (ciphertext.take leading)
    lastBlock := ciphertext.drop leading
    packedFek, encryptedFek, sEnc }

/-- At the end of the file a session that has emitted all its blocks holds the last one. -/
theorem blocks_of_counts {r : Run filePlaintext credential originalFileName segmentCode maxWireBlockBytes}
    (hs : SoundLayout filePlaintext.length segmentCode r.layout) {taken : List UploadWireBlock}
    (hready : Ready C r tape₃ s tape taken) (hend : s.fileBytesFed = filePlaintext.length)
    (hcount : s.emittedLeadingCount = r.layout.numTokens - 1)
    (hpending : s.wirePending.length = r.layout.lastBlockLength) :
    ∃ blocks, Emitted C r blocks s taken [] ∧ r.ciphertext.length = r.layout.ciphertextLength ∧
      cut r.layout.wireBlockSize
        (r.ciphertext.take ((r.layout.numTokens - 1) * r.layout.wireBlockSize)) = blocks ∧
      r.ciphertext.drop ((r.layout.numTokens - 1) * r.layout.wireBlockSize) = s.wirePending := by
  have hblock := hs.block
  have hsum := LayoutSound.leading_add_last hs
  obtain ⟨hbuffer, hpadding⟩ := hready.done hend
  obtain ⟨blocks, packs, hpacks, he⟩ := hready.fed.residual
  rw [hbuffer, hpadding, hend, List.drop_length, List.replicate_zero, List.nil_append, List.nil_append,
    cut_nil, List.mapM_nil, rand_pure_eq_ok, Prod.mk.injEq] at hpacks
  obtain ⟨rfl, rfl⟩ := hpacks
  have hstream := he.stream
  rw [List.flatten_nil, List.append_nil] at hstream
  have hflat : blocks.flatten.length = (r.layout.numTokens - 1) * r.layout.wireBlockSize := by
    rw [length_flatten_of_full blocks he.full, ← he.count, hcount]
  refine ⟨blocks, he, ?_, ?_, ?_⟩
  · rw [← hstream, List.length_append, hflat, hpending, hsum]
  · rw [← hstream, ← hflat, List.take_left, cut_flatten (by omega) _ he.full]
  · rw [← hstream, ← hflat, List.drop_left]

/-- The session that the constructor leaves, before a payload that the run seals. -/
theorem fresh_ready_of_packs (hne : filePlaintext ≠ [])
    {r : Run filePlaintext credential originalFileName segmentCode maxWireBlockBytes}
    (hblock : 373 ≤ r.layout.wireBlockSize) {packs : List Bytes}
    (hpacks : (cut (limit r) r.plaintext).mapM (encrypt C r.kFek) tape₂ = .ok (packs, tape₃))
    (hstream : packs.flatten = r.ciphertext) : Ready C r tape₃ (fresh C r) tape₂ [] := by
  refine ⟨⟨rfl, limit_pos hne, .inr ?_, [], packs, hpacks,
    ⟨rfl, hstream, fun b hb => absurd hb List.not_mem_nil, rfl, Nat.zero_le _, rfl, rfl⟩⟩,
    Nat.zero_le _, fun hzero => absurd (List.eq_nil_of_length_eq_zero hzero.symm) hne⟩
  exact Nat.lt_of_lt_of_le (Nat.zero_lt_succ _) hblock

/-- A session that was fed the file and finalized makes a run of the batch sender. -/
theorem prepared_of_session {s₀ : UploadPrepareSession} {taken : List UploadWireBlock}
    {token0 : UploadWireBlock} (hne : filePlaintext ≠ []) (actions : List Action)
    (hfed : actions.flatMap Action.fed = filePlaintext)
    (hnew : UploadSession.new .native C credential originalFileName filePlaintext.length segmentCode
      maxWireBlockBytes tape₀ = .ok (s₀, tape₂))
    (hrun : runActions .native C actions s₀ tape₂ = .ok ((taken, s), tape₃))
    (hfin : UploadSession.finalize C s tape₃ = .ok ((token0, s'), tape₅)) :
    ∃ uploads, prepareUpload .native C filePlaintext credential originalFileName segmentCode
      maxWireBlockBytes tape₀ = .ok (uploads, tape₅) := by
  obtain ⟨r₀, tape₁, rfl, hsplit, hcode, hlayout, hsalt, hfek⟩ := new_eq_ok hnew
  have hs := LayoutSound.computeWireLayout_sound hlayout
  -- what the session sealed
  obtain ⟨packs, hpacks⟩ : Sealable C (fresh C r₀) tape₂
      (List.replicate r₀.layout.plaintextPadding 0 ++ actions.flatMap Action.fed) tape₃ :=
    runActions_sealable actions (limit_pos hne) (fun hcomplete => by
      have hpos := List.length_pos_of_ne_nil hne
      have hle : filePlaintext.length ≤ 0 := hcomplete
      omega) (by rw [hfed]; exact Nat.zero_add _) hrun
  rw [hfed] at hpacks
  -- what it checked at the end
  simp only [UploadSession.finalize, rand_bind_eq_ok, rand_lift_eq_ok, throwIf_eq_ok,
    rand_pure_eq_ok, not_not, Prod.mk.injEq] at hfin
  obtain ⟨_, _, ⟨-, rfl⟩, _, _, ⟨-, rfl⟩, _, _, ⟨-, rfl⟩, _, _, ⟨-, rfl⟩, _, _, ⟨hcount, rfl⟩, _, _,
    ⟨hpending, rfl⟩, packedFek, t₄, hpacked, blob, _, ⟨hblob, rfl⟩, _, _, ⟨hplain, rfl⟩, sEnc, _, hsEnc,
    _, _, ⟨hsmEnc, rfl⟩, _, _, ⟨htoken, rfl⟩, -, rfl⟩ := hfin
  obtain ⟨r, hr⟩ : ∃ r, withSealed r₀ packs.flatten packedFek blob sEnc = r := ⟨_, rfl⟩
  have hready : Ready C r tape₃ (fresh C r) tape₂ [] := by
    rw [← hr]
    exact fresh_ready_of_packs hne hs.block hpacks rfl
  have hs' : SoundLayout filePlaintext.length segmentCode r.layout := by rw [← hr]; exact hs
  obtain ⟨more, s₁, t₁, hrun₁, hready₁, hend⟩ :=
    runActions_ready (s := fresh C r) hs'.tokens_lt actions hfed hready
  rw [show fresh C r₀ = fresh C r by rw [← hr]; rfl] at hrun
  obtain ⟨hboth, rfl⟩ := Prod.mk.inj (Except.ok.inj (hrun.symm.trans hrun₁))
  obtain ⟨rfl, rfl⟩ := Prod.mk.inj hboth
  have hconfig := hready₁.fed.config
  have hlayout₁ : s.layout = r.layout := congrArg UploadConfig.layout hconfig
  rw [hlayout₁] at hcount hpending htoken
  obtain ⟨blocks, he, hlength, hleading, hlast⟩ := blocks_of_counts hs' hready₁ hend hcount hpending
  have hleadingBlocks : r.leadingBlocks = blocks := by rw [← hleading, ← hr]; rfl
  have hlastBlock : r.lastBlock = s.wirePending := by rw [← hlast, ← hr]; rfl
  have hroot : (buildMerkleTreeFromLeafHashes C (s.leafHashes ++ [hashBlock C s.wirePending])).rootHash =
      (buildMerkleTree C r.blocks).rootHash := by
    rw [he.leaves, Run.blocks, hleadingBlocks, hlastBlock, ← fromLeafHashes_map, List.map_append]
    rfl
  have hmeta : uploadMetadata s.layout (buildMerkleTree C r.blocks).rootHash blob s.saltRand
      s.originalFileSize s.originalFileName s.segmentCode = r.metadata C := by
    rw [congrArg UploadConfig.layout hconfig, congrArg UploadConfig.saltRand hconfig,
      congrArg UploadConfig.originalFileSize hconfig,
      congrArg UploadConfig.originalFileName hconfig, congrArg UploadConfig.segmentCode hconfig, ← hr]
    rfl
  rw [hroot, hmeta] at hplain hsEnc
  rw [congrArg UploadConfig.kKek hconfig, congrArg UploadConfig.kFek hconfig] at hpacked
  rw [congrArg UploadConfig.kSmb hconfig] at hsEnc
  have hholds : r.Holds .native C tape₀ tape₁ tape₂ tape₃ t₄ tape₅
      (buildUploadMap .native C r.token0 r.leadingBlocks r.parts.searchCode) :=
    { split := by rw [hsplit, ← hr]; rfl
      code := hcode
      layout := by rw [hlayout, ← hr]; rfl
      salt := by rw [hsalt, ← hr]; rfl
      fek := by rw [hfek, ← hr]; rfl
      payload := by
        rw [← hr] at hlength ⊢
        exact payload_of_packs hne hs hpacks hlength
      ciphertext := hlength
      blocks := by
        rw [splitCiphertext_ok hs' hlength, hleadingBlocks, hlastBlock, hleading, hlast]
      packedFek := by
        rw [← hr] at hpacked ⊢
        exact hpacked
      encryptedFek := by rw [← hr]; exact hblob
      smPlain := hplain
      sEnc := by
        rw [← hr] at hsEnc ⊢
        exact hsEnc
      smEnc := by rw [← hr]; exact hsmEnc
      last := by rw [hlastBlock, hpending]
      token0 := by
        rw [Run.token0, buildToken0, hlastBlock, ← htoken, ← hr]
        rfl
      uploads := rfl }
  exact ⟨_, prepareUpload_of_holds .native C hholds⟩

/-- And back: the session's blocks are the entries of the batch sender, token 0 first. -/
theorem session_of_prepared (hd : DistinctTokens C) (hne : filePlaintext ≠ []) {uploads : UploadMap}
    (h : prepareUpload .native C filePlaintext credential originalFileName segmentCode maxWireBlockBytes
      tape₀ = .ok (uploads, tape₅))
    (actions : List Action) (hfed : actions.flatMap Action.fed = filePlaintext) :
    ∃ s₀ t₂ taken s t₃ token0 s',
      UploadSession.new .native C credential originalFileName filePlaintext.length segmentCode
        maxWireBlockBytes tape₀ = .ok (s₀, t₂) ∧
      runActions .native C actions s₀ t₂ = .ok ((taken, s), t₃) ∧
      UploadSession.finalize C s t₃ = .ok ((token0, s'), tape₅) ∧
      s'.readyBlocks = s.readyBlocks ∧ entries (token0 :: (taken ++ s.readyBlocks)) = uploads := by
  obtain ⟨r, t₁, t₂, t₃, t₄, hr⟩ := prepareUpload_eq_ok _ _ h
  obtain ⟨taken, s, t, hrun, hready, hend⟩ :=
    runActions_ready (s := fresh C r) (sound hr).tokens_lt actions hfed (fresh_ready hne hr)
  obtain ⟨s', hfin, hblocks⟩ := finalize_ok hr hready hend
  obtain ⟨-, -, -, he⟩ := blocks_at_end hr hready hend
  have hhanded := he.handed
  rw [List.nil_append] at hhanded
  refine ⟨_, t₂, taken, s, t, _, s', new_ok hr, hrun, hfin, hblocks, ?_⟩
  rw [uploads_eq hd hr, hhanded]
  simp [tokenEntries, entries, wireBlocks, List.zipIdx_cons]

variable (C) in
/-- On every tape a session that is fed the file in any chunks, with blocks taken at any time,
finalizes exactly if the batch sender succeeds, and then at the same place of the tape and with the
same entries. -/
theorem session_iff_prepared (hd : DistinctTokens C) (filePlaintext : Bytes)
    (credential originalFileName : Str) (segmentCode maxWireBlockBytes : Nat) (tape tape' : Bytes)
    (hne : filePlaintext ≠ []) (actions : List Action)
    (hfed : actions.flatMap Action.fed = filePlaintext) (stored : UploadMap) :
    (∃ handed, UploadSession.run .native C credential originalFileName filePlaintext.length segmentCode
        maxWireBlockBytes actions tape = .ok (handed, tape') ∧ (entries handed).Perm stored) ↔
      ∃ uploads, prepareUpload .native C filePlaintext credential originalFileName segmentCode
        maxWireBlockBytes tape = .ok (uploads, tape') ∧ uploads.Perm stored := by
  have hrun {uploads : UploadMap} (h : prepareUpload .native C filePlaintext credential originalFileName
      segmentCode maxWireBlockBytes tape = .ok (uploads, tape')) :
      ∃ handed, UploadSession.run .native C credential originalFileName filePlaintext.length segmentCode
        maxWireBlockBytes actions tape = .ok (handed, tape') ∧ (entries handed).Perm uploads := by
    obtain ⟨s₀, t₂, taken, s, t₃, token0, s', hnew, hactions, hfin, hready, hentries⟩ :=
      session_of_prepared hd hne h actions hfed
    refine ⟨taken ++ [token0] ++ s.readyBlocks, ?_, ?_⟩
    · simp only [UploadSession.run, rand_bind_eq_ok, rand_pure_eq_ok]
      exact ⟨s₀, t₂, hnew, _, t₃, hactions, _, tape', hfin, by simp [takeReadyBlocks, hready]⟩
    · rw [← hentries, List.append_assoc, List.singleton_append]
      exact List.perm_middle.map _
  constructor
  · rintro ⟨handed, h, hperm⟩
    have hhanded := h
    simp only [UploadSession.run, rand_bind_eq_ok, rand_pure_eq_ok, Prod.mk.injEq] at h
    obtain ⟨s₀, t₂, hnew, ⟨taken, s⟩, t₃, hactions, ⟨token0, s'⟩, t₅, hfin, -, rfl⟩ := h
    obtain ⟨uploads, hprepared⟩ := prepared_of_session hne actions hfed hnew hactions hfin
    obtain ⟨other, hother, hsame⟩ := hrun hprepared
    obtain ⟨rfl, -⟩ := Prod.mk.inj (Except.ok.inj (hhanded.symm.trans hother))
    exact ⟨uploads, hprepared, hsame.symm.trans hperm⟩
  · rintro ⟨uploads, hprepared, hperm⟩
    obtain ⟨handed, h, hsame⟩ := hrun hprepared
    exact ⟨handed, h, hsame.trans hperm⟩

open PlainCrypto in
/-- 900 octets in two chunks, for the map that the session hands out. -/
theorem session_iff_prepared_plain :
    ∃ handed tape', UploadSession.run .native plain (ascii "abcdefghijkl") (ascii "a.txt") 900 1 700
        [.feed (List.replicate 600 5), .take, .feed (List.replicate 300 5)] (List.replicate 200 7) =
        .ok (handed, tape') ∧
      ∃ uploads, prepareUpload .native plain (List.replicate 900 5) (ascii "abcdefghijkl") (ascii "a.txt")
        1 700 (List.replicate 200 7) = .ok (uploads, tape') ∧ uploads.Perm (entries handed) := by
  have hok : (UploadSession.run .native plain (ascii "abcdefghijkl") (ascii "a.txt") 900 1 700
      [.feed (List.replicate 600 5), .take, .feed (List.replicate 300 5)] (List.replicate 200 7)).isOk =
      true := by decide +kernel
  cases h : UploadSession.run .native plain (ascii "abcdefghijkl") (ascii "a.txt") 900 1 700
      [.feed (List.replicate 600 5), .take, .feed (List.replicate 300 5)] (List.replicate 200 7) with
  | error e =>
    rw [h] at hok
    cases hok
  | ok p =>
    refine ⟨p.1, p.2, rfl, (session_iff_prepared plain plain_distinctTokens (List.replicate 900 5)
      (ascii "abcdefghijkl") (ascii "a.txt") 1 700 (List.replicate 200 7) p.2 (by decide +kernel)
      [.feed (List.replicate 600 5), .take, .feed (List.replicate 300 5)] (by decide +kernel)
      (entries p.1)).mp ⟨p.1, ?_, List.Perm.refl _⟩⟩
    rw [List.length_replicate]
    exact h

end TwelveC.StreamingUpload
