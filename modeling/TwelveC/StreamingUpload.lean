import TwelveC.UploadSession
import TwelveC.RoundTrip

/-!
# Streaming upload and batch upload

A session that is fed the file in any chunks, with blocks taken at any time,
hands out the batch sender's map. The invariant is stated against the batch
run: what was emitted, what is pending and what the rest of the plaintext will
still be sealed to make up the batch ciphertext, on the tape that is left.
-/

namespace TwelveC.StreamingUpload

open Segment WireLayout Payload Merkle Smb Crypto Sender UploadSession RoundTrip Lib.Cut

variable {C : Primitives} {filePlaintext : Bytes} {credential originalFileName : Str}
  {segmentCode maxWireBlockBytes : Nat}
  (r : Run filePlaintext credential originalFileName segmentCode maxWireBlockBytes)

/-- Plaintext octets of one record: the whole padded file for code 0. -/
def limit : Nat :=
  if isV2WholeFileMode segmentCode then filePlaintext.length + r.layout.plaintextPadding
  else segmentBytes segmentCode

variable (C) in
/-- The members the constructor fixes, from the batch run's values. -/
def config : UploadConfig :=
  { credentialParts := r.parts, layout := r.layout, segmentCode, originalFileName,
    originalFileSize := filePlaintext.length, segmentPlaintextBytes := limit r,
    kSmb := slowKdf C r.parts.keyCode kSaltFixKey, kKek := slowKdf C r.parts.keyCode r.saltRand,
    kFek := r.kFek, saltRand := r.saltRand }

variable (C) in
/-- Blocks under the tokens from index 1 on. -/
def wireBlocks (blocks : List Bytes) : List UploadWireBlock :=
  (blocks.zipIdx 1).map fun entry =>
    ⟨deriveUploadToken C r.parts.searchCode kSaltFixSearch entry.2, entry.1⟩

theorem wireBlocks_append (blocks : List Bytes) (block : Bytes) :
    wireBlocks C r (blocks ++ [block]) = wireBlocks C r blocks ++
      [⟨deriveUploadToken C r.parts.searchCode kSaltFixSearch (blocks.length + 1), block⟩] := by
  simp [wireBlocks, List.zipIdx_append, Nat.add_comm]

variable (C) in
/-- The ciphertext side: `blocks` are out, the rest is pending or in `tail`, still to come. -/
structure Emitted (blocks : List Bytes) (s : UploadPrepareSession) (taken : List UploadWireBlock)
    (tail : Bytes) : Prop where
  config : s.toUploadConfig = config C r
  stream : blocks.flatten ++ s.wirePending ++ tail = r.ciphertext
  full : ∀ b ∈ blocks, b.length = r.layout.wireBlockSize
  count : s.emittedLeadingCount = blocks.length
  le : s.emittedLeadingCount ≤ r.layout.numTokens - 1
  leaves : s.leafHashes = blocks.map (hashBlock C)
  handed : taken ++ s.readyBlocks = wireBlocks C r blocks

/-- Nothing more can be emitted. -/
def Settled (s : UploadPrepareSession) : Prop :=
  s.emittedLeadingCount = r.layout.numTokens - 1 ∨ s.wirePending.length < r.layout.wireBlockSize

/-- The members that emitting leaves alone. -/
structure SamePlain (s s' : UploadPrepareSession) : Prop where
  fileBytesFed : s'.fileBytesFed = s.fileBytesFed
  paddingRemaining : s'.paddingRemaining = s.paddingRemaining
  segmentBuffer : s'.segmentBuffer = s.segmentBuffer
  finalized : s'.finalized = s.finalized

variable {r} {blocks : List Bytes} {s : UploadPrepareSession} {taken : List UploadWireBlock}
  {tail pack tape later : Bytes} {tape₀ tape₁ tape₂ tape₃ tape₄ tape₅ : Bytes}
  {uploads : UploadMap}

theorem Emitted.layout (h : Emitted C r blocks s taken tail) : s.layout = r.layout :=
  congrArg UploadConfig.layout h.config

theorem Emitted.parts (h : Emitted C r blocks s taken tail) : s.credentialParts = r.parts :=
  congrArg UploadConfig.credentialParts h.config

theorem emitLeadingBlock_emitted (hm : r.layout.numTokens < 2 ^ 32)
    (h : Emitted C r blocks s taken tail) (hlt : s.emittedLeadingCount < r.layout.numTokens - 1)
    (hp : r.layout.wireBlockSize ≤ s.wirePending.length) :
    Emitted C r (blocks ++ [s.wirePending.take r.layout.wireBlockSize])
      (emitLeadingBlock .native C s) taken tail := by
  have hl := h.layout
  have hparts := h.parts
  have hcount := h.count
  have hmod : (blocks.length + 1) % 2 ^ 32 = blocks.length + 1 := Nat.mod_eq_of_lt (by omega)
  refine ⟨h.config, ?_, ?_, ?_, ?_, ?_, ?_⟩
  · rw [← h.stream]
    simp [emitLeadingBlock, hl]
  · intro b hb
    rw [List.mem_append, List.mem_singleton] at hb
    rcases hb with hb | rfl
    · exact h.full b hb
    · exact List.length_take_of_le hp
  · simp [emitLeadingBlock, hcount]
  · simp only [emitLeadingBlock]
    omega
  · simp [emitLeadingBlock, h.leaves, hl]
  · rw [wireBlocks_append, ← h.handed]
    simp only [emitLeadingBlock, native_u32, hl, hparts, hcount, hmod, List.append_assoc]

theorem tryEmit_emitted (hm : r.layout.numTokens < 2 ^ 32) (fuel : Nat)
    (h : Emitted C r blocks s taken tail)
    (hf : r.layout.numTokens - 1 ≤ fuel + s.emittedLeadingCount) :
    ∃ blocks', Emitted C r blocks' (tryEmitLeadingBlocks .native C fuel s) taken tail ∧
      Settled r (tryEmitLeadingBlocks .native C fuel s) ∧
      SamePlain s (tryEmitLeadingBlocks .native C fuel s) := by
  induction fuel generalizing blocks s with
  | zero =>
    have hle := h.le
    exact ⟨blocks, h, .inl (by rw [tryEmitLeadingBlocks]; omega), ⟨rfl, rfl, rfl, rfl⟩⟩
  | succ fuel ih =>
    rw [tryEmitLeadingBlocks, h.layout]
    by_cases hc : s.emittedLeadingCount < r.layout.numTokens - 1 ∧
        r.layout.wireBlockSize ≤ s.wirePending.length
    · rw [if_pos hc]
      obtain ⟨blocks', h₁, h₂, h₃⟩ := ih (emitLeadingBlock_emitted hm h hc.1 hc.2)
        (by simp only [emitLeadingBlock]; omega)
      exact ⟨blocks', h₁, h₂, ⟨h₃.1, h₃.2, h₃.3, h₃.4⟩⟩
    · rw [if_neg hc]
      have hle := h.le
      refine ⟨blocks, h, ?_, ⟨rfl, rfl, rfl, rfl⟩⟩
      by_cases heq : s.emittedLeadingCount = r.layout.numTokens - 1
      · exact .inl heq
      · right
        by_contra hge
        exact hc ⟨by omega, by omega⟩

theorem appendCiphertextPack_emitted (hm : r.layout.numTokens < 2 ^ 32)
    (h : Emitted C r blocks s taken (pack ++ tail)) :
    ∃ blocks', Emitted C r blocks' (appendCiphertextPack .native C pack s) taken tail ∧
      Settled r (appendCiphertextPack .native C pack s) ∧
      SamePlain s (appendCiphertextPack .native C pack s) := by
  have h' : Emitted C r blocks { s with wirePending := s.wirePending ++ pack } taken tail :=
    ⟨h.config, by simpa using h.stream, h.full, h.count, h.le, h.leaves, h.handed⟩
  obtain ⟨blocks', h₁, h₂, h₃⟩ := tryEmit_emitted hm s.layout.numTokens h'
    (by rw [h.layout]; omega)
  exact ⟨blocks', h₁, h₂, ⟨h₃.1, h₃.2, h₃.3, h₃.4⟩⟩

/-- A full buffer, or one that is flushed at the end, is sealed as it is. -/
theorem flush_eq {force : Bool} (hne : s.segmentBuffer ≠ [])
    (hf : force = true ∨ s.segmentBuffer.length = s.segmentPlaintextBytes) :
    flushSegmentBufferIfReady .native C force s = do
      let segmentPack ← encrypt C s.kFek s.segmentBuffer
      return appendCiphertextPack .native C segmentPack { s with segmentBuffer := [] } := by
  have hpos := List.length_pos_of_ne_nil hne
  have htake : (if force then s.segmentBuffer.length else s.segmentPlaintextBytes) =
      s.segmentBuffer.length := by
    rcases hf with h | h
    · simp [h]
    · simp [h]
  have hshort : ¬ ((!force && s.segmentBuffer.length < s.segmentPlaintextBytes) = true) := by
    rcases hf with h | h
    · simp [h]
    · simp [h]
  rw [flushSegmentBufferIfReady, if_neg hne, if_neg hshort, htake, if_neg (by omega),
    List.take_length, List.drop_length]

theorem flush_whole {force : Bool} (hne : s.segmentBuffer ≠ [])
    (hf : force = true ∨ s.segmentBuffer.length = s.segmentPlaintextBytes)
    (henc : encrypt C s.kFek s.segmentBuffer tape = .ok (pack, later)) :
    flushSegmentBufferIfReady .native C force s tape =
      .ok (appendCiphertextPack .native C pack { s with segmentBuffer := [] }, later) := by
  rw [flush_eq hne hf, rand_bind_eq_ok]
  exact ⟨pack, later, henc, rfl⟩

variable (C r) in
/-- The session has taken in all of the padded plaintext but `remaining`; sealing what is left on
the tape that is left completes the batch ciphertext and ends on the batch run's tape. -/
structure Fed (tape₃ : Bytes) (s : UploadPrepareSession) (tape : Bytes)
    (taken : List UploadWireBlock) (remaining : Bytes) : Prop where
  live : s.finalized = false
  short : s.segmentBuffer.length < limit r
  settled : Settled r s
  residual : ∃ blocks packs,
    (cut (limit r) (s.segmentBuffer ++ remaining)).mapM (encrypt C r.kFek) tape =
      .ok (packs, tape₃) ∧ Emitted C r blocks s taken packs.flatten

theorem Fed.config (h : Fed C r tape₃ s tape taken later) : s.toUploadConfig = config C r := by
  obtain ⟨_, _, -, he⟩ := h.residual
  exact he.config

theorem Fed.limit (h : Fed C r tape₃ s tape taken later) : s.segmentPlaintextBytes = limit r :=
  congrArg UploadConfig.segmentPlaintextBytes h.config

theorem Fed.kFek (h : Fed C r tape₃ s tape taken later) : s.kFek = r.kFek :=
  congrArg UploadConfig.kFek h.config

/-- The sealing step: the buffer is the next block of `cut`, and what follows is cut afresh. -/
theorem flush_fed (hm : r.layout.numTokens < 2 ^ 32) (force : Bool) {remaining : Bytes}
    (hconfig : s.toUploadConfig = config C r) (hlive : s.finalized = false)
    (hne : s.segmentBuffer ≠ [])
    (hf : force = true ∨ s.segmentBuffer.length = s.segmentPlaintextBytes)
    (hcut : cut (limit r) (s.segmentBuffer ++ remaining) =
      s.segmentBuffer :: cut (limit r) remaining)
    (hres : ∃ blocks packs,
      (cut (limit r) (s.segmentBuffer ++ remaining)).mapM (encrypt C r.kFek) tape =
        .ok (packs, tape₃) ∧ Emitted C r blocks s taken packs.flatten)
    (hpos : 0 < limit r) :
    ∃ s' tape', flushSegmentBufferIfReady .native C force s tape = .ok (s', tape') ∧
      Fed C r tape₃ s' tape' taken remaining ∧ s'.segmentBuffer = [] ∧
      s'.fileBytesFed = s.fileBytesFed ∧ s'.paddingRemaining = s.paddingRemaining := by
  obtain ⟨blocks, packs, hpacks, he⟩ := hres
  rw [hcut] at hpacks
  simp only [List.mapM_cons, rand_bind_eq_ok, rand_pure_eq_ok, Prod.mk.injEq] at hpacks
  obtain ⟨pack, t₁, henc, rest, t₂, hrest, rfl, rfl⟩ := hpacks
  have hk : s.kFek = r.kFek := congrArg UploadConfig.kFek hconfig
  rw [← hk] at henc
  have he' : Emitted C r blocks { s with segmentBuffer := [] } taken (pack ++ rest.flatten) :=
    ⟨he.config, by simpa using he.stream, he.full, he.count, he.le, he.leaves, he.handed⟩
  obtain ⟨blocks', h₁, h₂, h₃⟩ := appendCiphertextPack_emitted hm he'
  refine ⟨_, t₁, flush_whole hne hf henc, ⟨?_, ?_, h₂, blocks', rest, ?_, h₁⟩, ?_, ?_, ?_⟩
  · rw [h₃.finalized]
    exact hlive
  · rw [h₃.segmentBuffer]
    exact hpos
  · rw [h₃.segmentBuffer]
    exact hrest
  · exact h₃.segmentBuffer
  · exact h₃.fileBytesFed
  · exact h₃.paddingRemaining

theorem flushIfFull_short (h : s.segmentBuffer.length < s.segmentPlaintextBytes) :
    flushIfFull .native C s tape = .ok (s, tape) := by
  rw [flushIfFull, if_neg (by omega)]
  rfl

/-- Appending plaintext keeps the residual. -/
theorem appendLoop_fed (hm : r.layout.numTokens < 2 ^ 32) (fuel : Nat) (data remaining : Bytes)
    (hf : data.length ≤ fuel) (h : Fed C r tape₃ s tape taken (data ++ remaining)) :
    ∃ s' tape', appendLoop .native C fuel data s tape = .ok (s', tape') ∧
      Fed C r tape₃ s' tape' taken remaining ∧
      s'.fileBytesFed = s.fileBytesFed ∧ s'.paddingRemaining = s.paddingRemaining := by
  induction fuel generalizing data s tape with
  | zero =>
    obtain rfl : data = [] := List.eq_nil_of_length_eq_zero (by omega)
    exact ⟨s, tape, rfl, h, rfl, rfl⟩
  | succ fuel ih =>
    cases data with
    | nil => exact ⟨s, tape, rfl, h, rfl, rfl⟩
    | cons b data =>
      have hlim := h.limit
      have hshort := h.short
      have hpos : 0 < limit r := by omega
      simp only [appendLoop, rand_bind_eq_ok]
      obtain ⟨n, hn⟩ : ∃ n, min (b :: data).length (limit r - s.segmentBuffer.length) = n :=
        ⟨_, rfl⟩
      have hn₀ : n ≠ 0 := by
        simp only [List.length_cons] at hn
        omega
      obtain ⟨blocks, packs, hpacks, he⟩ := h.residual
      have hsplit : s.segmentBuffer ++ (b :: data ++ remaining) =
          (s.segmentBuffer ++ (b :: data).take n) ++ ((b :: data).drop n ++ remaining) := by
        rw [List.append_assoc, ← List.append_assoc ((b :: data).take n), List.take_append_drop]
      rw [hsplit] at hpacks
      obtain ⟨s₁, hs₁⟩ : ∃ s₁, { s with segmentBuffer := s.segmentBuffer ++ (b :: data).take n } =
        s₁ := ⟨_, rfl⟩
      have hbuf : s₁.segmentBuffer = s.segmentBuffer ++ (b :: data).take n := by rw [← hs₁]
      have hlen : s₁.segmentBuffer.length = s.segmentBuffer.length + n := by
        rw [hbuf, List.length_append, List.length_take]
        omega
      have hconfig₁ : s₁.toUploadConfig = config C r := by
        rw [← hs₁]
        exact h.config
      have hlim₁ : s₁.segmentPlaintextBytes = limit r :=
        congrArg UploadConfig.segmentPlaintextBytes hconfig₁
      have hlive₁ : s₁.finalized = false := by
        rw [← hs₁]
        exact h.live
      have he₁ : Emitted C r blocks s₁ taken packs.flatten := by
        rw [← hs₁]
        exact ⟨he.config, he.stream, he.full, he.count, he.le, he.leaves, he.handed⟩
      have hsettled₁ : Settled r s₁ := by
        rw [← hs₁]
        exact h.settled
      rw [← hbuf] at hpacks
      -- either the segment is full now, or all the data went in
      have hstep : ∃ s₂ tape₂, flushIfFull .native C s₁ tape = .ok (s₂, tape₂) ∧
          Fed C r tape₃ s₂ tape₂ taken ((b :: data).drop n ++ remaining) ∧
          s₂.fileBytesFed = s₁.fileBytesFed ∧ s₂.paddingRemaining = s₁.paddingRemaining := by
        by_cases hfull : s₁.segmentBuffer.length = limit r
        · rw [flushIfFull, if_pos (by omega)]
          obtain ⟨s₂, t₂, h₁, h₂, -, h₃, h₄⟩ := flush_fed hm false hconfig₁ hlive₁
            (List.ne_nil_of_length_pos (by omega)) (.inr (by omega))
            (cut_append_block hpos _ _ hfull) ⟨blocks, packs, hpacks, he₁⟩ hpos
          exact ⟨s₂, t₂, h₁, h₂, h₃, h₄⟩
        · have hle : s₁.segmentBuffer.length < limit r := by omega
          exact ⟨s₁, tape, flushIfFull_short (by omega),
            ⟨hlive₁, hle, hsettled₁, blocks, packs, hpacks, he₁⟩, rfl, rfl⟩
      obtain ⟨s₂, tape₂, hflush, hfed₂, hf₂, hp₂⟩ := hstep
      obtain ⟨s₃, tape₃', hloop, hfed₃, hf₃, hp₃⟩ := ih ((b :: data).drop n)
        (by simp only [List.length_drop, List.length_cons] at hf ⊢; omega) hfed₂
      refine ⟨s₃, tape₃', ⟨s, tape, flushIfFull_short (by omega), ?_⟩, hfed₃, ?_, ?_⟩
      · rw [hlim, hn, if_neg hn₀, hs₁, rand_bind_eq_ok]
        exact ⟨s₂, tape₂, hflush, hloop⟩
      · rw [hf₃, hf₂, ← hs₁]
      · rw [hp₃, hp₂, ← hs₁]

theorem Fed.with_counts (h : Fed C r tape₃ s tape taken later) (fed padding : Nat) :
    Fed C r tape₃ { s with fileBytesFed := fed, paddingRemaining := padding } tape taken later := by
  obtain ⟨blocks, packs, hpacks, he⟩ := h.residual
  exact ⟨h.live, h.short, h.settled, blocks, packs, hpacks,
    ⟨he.config, he.stream, he.full, he.count, he.le, he.leaves, he.handed⟩⟩

theorem padLoop_fed (hm : r.layout.numTokens < 2 ^ 32) (fuel : Nat) (remaining : Bytes)
    (hf : s.paddingRemaining ≤ fuel)
    (h : Fed C r tape₃ s tape taken (List.replicate s.paddingRemaining 0 ++ remaining)) :
    ∃ s' tape', padLoop .native C fuel s tape = .ok (s', tape') ∧
      Fed C r tape₃ s' tape' taken remaining ∧
      s'.fileBytesFed = s.fileBytesFed ∧ s'.paddingRemaining = 0 := by
  induction fuel generalizing s tape with
  | zero =>
    have h₀ : s.paddingRemaining = 0 := by omega
    rw [h₀] at h
    refine ⟨s, tape, ?_, h, rfl, h₀⟩
    rw [padLoop, if_neg (by omega)]
    rfl
  | succ fuel ih =>
    rw [padLoop]
    by_cases hpos : 0 < s.paddingRemaining
    · obtain ⟨n, hn⟩ : ∃ n, min s.paddingRemaining (64 * 1024) = n := ⟨_, rfl⟩
      have hsplit : List.replicate s.paddingRemaining (0 : UInt8) =
          List.replicate n 0 ++ List.replicate (s.paddingRemaining - n) 0 := by
        rw [← List.replicate_add]
        congr 1
        omega
      rw [hsplit, List.append_assoc] at h
      obtain ⟨s₁, t₁, h₁, hfed₁, hf₁, hp₁⟩ := appendLoop_fed hm n _ _ (by simp) h
      have hlive := h.live
      obtain ⟨s₂, t₂, h₂, hfed₂, hf₂, hp₂⟩ := ih
        (s := { s₁ with paddingRemaining := s₁.paddingRemaining - n })
        (by simp only; omega) (by rw [← hp₁] at hfed₁; exact hfed₁.with_counts _ _)
      refine ⟨s₂, t₂, ?_, hfed₂, by rw [hf₂, ← hf₁], hp₂⟩
      rw [if_pos hpos]
      simp only [hn, rand_bind_eq_ok]
      refine ⟨s₁, t₁, ?_, h₂⟩
      simp only [appendPaddingZeros, rand_bind_eq_ok, rand_lift_eq_ok, throwIf_eq_ok]
      exact ⟨(), tape, ⟨by simp [hlive], rfl⟩, h₁⟩
    · have h₀ : s.paddingRemaining = 0 := by omega
      rw [h₀] at h
      refine ⟨s, tape, ?_, h, rfl, h₀⟩
      rw [if_neg hpos]
      rfl

variable (C r) in
/-- Between two calls: the plaintext still to come is the unfed rest of the file, after the padding
when nothing was fed yet; once the file is complete the buffer is flushed. -/
structure Ready (tape₃ : Bytes) (s : UploadPrepareSession) (tape : Bytes)
    (taken : List UploadWireBlock) : Prop where
  fed : Fed C r tape₃ s tape taken
    (List.replicate s.paddingRemaining 0 ++ filePlaintext.drop s.fileBytesFed)
  le : s.fileBytesFed ≤ filePlaintext.length
  done : s.fileBytesFed = filePlaintext.length → s.segmentBuffer = [] ∧ s.paddingRemaining = 0

theorem Ready.fileSize (h : Ready C r tape₃ s tape taken) :
    s.originalFileSize = filePlaintext.length :=
  congrArg UploadConfig.originalFileSize h.fed.config

/-- The flush at the end of the file: what is buffered is the last record's plaintext. -/
theorem flush_last (hm : r.layout.numTokens < 2 ^ 32) (h : Fed C r tape₃ s tape taken []) :
    ∃ s' tape', flushSegmentBufferIfReady .native C true s tape = .ok (s', tape') ∧
      Fed C r tape₃ s' tape' taken [] ∧ s'.segmentBuffer = [] ∧
      s'.fileBytesFed = s.fileBytesFed ∧ s'.paddingRemaining = s.paddingRemaining := by
  by_cases hne : s.segmentBuffer = []
  · exact ⟨s, tape, by rw [flushSegmentBufferIfReady, if_pos hne]; rfl, h, hne, rfl, rfl⟩
  · have hshort := h.short
    have hcut : cut (limit r) (s.segmentBuffer ++ []) =
        s.segmentBuffer :: cut (limit r) ([] : Bytes) := by
      rw [List.append_nil, cut_of_le (by omega) hne hshort.le, cut_nil]
    exact flush_fed hm true h.config h.live hne (.inl rfl) hcut h.residual (by omega)

theorem feed_ready (hm : r.layout.numTokens < 2 ^ 32) (chunk : Bytes)
    (h : Ready C r tape₃ s tape taken)
    (hnext : filePlaintext.drop s.fileBytesFed =
      chunk ++ filePlaintext.drop (s.fileBytesFed + chunk.length))
    (hle : s.fileBytesFed + chunk.length ≤ filePlaintext.length) :
    ∃ s' tape', feed .native C chunk s tape = .ok (s', tape') ∧ Ready C r tape₃ s' tape' taken ∧
      s'.fileBytesFed = s.fileBytesFed + chunk.length := by
  have hsize := h.fileSize
  have hlive := h.fed.live
  obtain ⟨s₁, t₁, h₁, hfed₁, hf₁, hp₁⟩ := padLoop_fed hm _ _ le_rfl h.fed
  rw [hnext] at hfed₁
  have hlive₁ := hfed₁.live
  obtain ⟨s₂, t₂, h₂, hfed₂, hf₂, hp₂⟩ := appendLoop_fed hm chunk.length _ _ le_rfl hfed₁
  have happend : appendChunk .native C chunk s₁ t₁ = .ok (s₂, t₂) := by
    rw [appendChunk]
    cases chunk with
    | nil => simpa [appendLoop] using h₂
    | cons b chunk =>
      rw [List.isEmpty_cons, if_neg (by decide), appendPlaintextBytes]
      simp only [rand_bind_eq_ok, rand_lift_eq_ok, throwIf_eq_ok]
      exact ⟨(), t₁, ⟨by simp [hlive₁], rfl⟩, h₂⟩
  have hfed₃ := hfed₂.with_counts (s₂.fileBytesFed + chunk.length) s₂.paddingRemaining
  have hsize₂ : s₂.originalFileSize = filePlaintext.length :=
    congrArg UploadConfig.originalFileSize hfed₂.config
  -- after the file's last octet the buffer is flushed
  have hlast : ∃ s' tape', flushWhenComplete .native C
      { s₂ with fileBytesFed := s₂.fileBytesFed + chunk.length } t₂ = .ok (s', tape') ∧
      Ready C r tape₃ s' tape' taken ∧ s'.fileBytesFed = s.fileBytesFed + chunk.length := by
    by_cases hc : isFeedComplete { s₂ with fileBytesFed := s₂.fileBytesFed + chunk.length }
    · rw [flushWhenComplete, if_pos hc]
      have hend : s.fileBytesFed + chunk.length = filePlaintext.length := by
        simp only [isFeedComplete] at hc
        omega
      rw [hend, List.drop_length] at hfed₃
      obtain ⟨s₃, t₃, h₃, hfed, hbuf, hf, hp⟩ := flush_last hm hfed₃
      simp only at hf hp
      have hfull : s₃.fileBytesFed = filePlaintext.length := by omega
      have hpad : s₃.paddingRemaining = 0 := by omega
      refine ⟨s₃, t₃, h₃, ⟨?_, by omega, fun _ => ⟨hbuf, hpad⟩⟩, by omega⟩
      rw [hfull, hpad, List.drop_length]
      exact hfed
    · rw [flushWhenComplete, if_neg hc]
      have hopen : s.fileBytesFed + chunk.length < filePlaintext.length := by
        simp only [isFeedComplete] at hc
        omega
      have hpad : s₂.paddingRemaining = 0 := by omega
      refine ⟨_, t₂, rfl, ⟨?_, ?_, ?_⟩, ?_⟩
      · simp only [hpad, hf₂, hf₁]
        rw [hpad, hf₂, hf₁] at hfed₃
        exact hfed₃
      · simp only
        omega
      · simp only
        omega
      · simp only
        omega
  obtain ⟨s', t', h', hready, hcount⟩ := hlast
  refine ⟨s', t', ?_, hready, hcount⟩
  simp only [feed, rand_bind_eq_ok, rand_lift_eq_ok, throwIf_eq_ok, native_size]
  exact ⟨(), tape, ⟨by simp [hlive], rfl⟩, (), tape, ⟨by omega, rfl⟩, s₁, t₁, h₁, s₂, t₂, happend, h'⟩

theorem take_ready (h : Ready C r tape₃ s tape taken) :
    Ready C r tape₃ (takeReadyBlocks s).2 tape (taken ++ (takeReadyBlocks s).1) := by
  obtain ⟨blocks, packs, hpacks, he⟩ := h.fed.residual
  refine ⟨⟨h.fed.live, h.fed.short, h.fed.settled, blocks, packs, hpacks, ?_⟩, h.le, h.done⟩
  exact ⟨he.config, he.stream, he.full, he.count, he.le, he.leaves,
    by simpa [takeReadyBlocks] using he.handed⟩

/-- Any interleaving of feeds and takes that feeds the rest of the file. -/
theorem runActions_ready (hm : r.layout.numTokens < 2 ^ 32) (actions : List Action)
    (hfed : actions.flatMap Action.fed = filePlaintext.drop s.fileBytesFed)
    (h : Ready C r tape₃ s tape taken) :
    ∃ more s' tape', runActions .native C actions s tape = .ok ((more, s'), tape') ∧
      Ready C r tape₃ s' tape' (taken ++ more) ∧ s'.fileBytesFed = filePlaintext.length := by
  induction actions generalizing s tape taken with
  | nil =>
    have hle := h.le
    have hend := congrArg List.length hfed
    simp only [List.flatMap_nil, List.length_nil, List.length_drop] at hend
    exact ⟨[], s, tape, rfl, by simpa using h, by omega⟩
  | cons action actions ih =>
    cases action with
    | feed chunk =>
      simp only [List.flatMap_cons, Action.fed] at hfed
      have hlen := congrArg List.length hfed
      simp only [List.length_append, List.length_drop] at hlen
      have hdrop : filePlaintext.drop (s.fileBytesFed + chunk.length) =
          actions.flatMap Action.fed := by
        rw [← List.drop_drop, ← hfed, List.drop_left]
      obtain ⟨s₁, t₁, h₁, hready₁, hf₁⟩ := feed_ready hm chunk h (by rw [hdrop, hfed])
        (by have := h.le; omega)
      rw [← hf₁] at hdrop
      obtain ⟨more, s₂, t₂, h₂, hready₂, hf₂⟩ := ih hdrop.symm hready₁
      refine ⟨more, s₂, t₂, ?_, hready₂, hf₂⟩
      simp only [runActions, rand_bind_eq_ok]
      exact ⟨s₁, t₁, h₁, h₂⟩
    | take =>
      have hfed' : actions.flatMap Action.fed =
          filePlaintext.drop (takeReadyBlocks s).2.fileBytesFed := by
        simpa [Action.fed, takeReadyBlocks] using hfed
      obtain ⟨more, s₂, t₂, h₂, hready₂, hf₂⟩ := ih hfed' (take_ready h)
      refine ⟨(takeReadyBlocks s).1 ++ more, s₂, t₂, ?_, by simpa using hready₂, hf₂⟩
      simp only [runActions, rand_bind_eq_ok]
      exact ⟨_, _, h₂, rfl⟩

/-- The session the constructor leaves. -/
def fresh (C : Primitives)
    (r : Run filePlaintext credential originalFileName segmentCode maxWireBlockBytes) :
    UploadPrepareSession :=
  { config C r with paddingRemaining := r.layout.plaintextPadding }

theorem new_ok (h : r.Holds .native C tape₀ tape₁ tape₂ tape₃ tape₄ tape₅ uploads) :
    UploadSession.new .native C credential originalFileName filePlaintext.length segmentCode
      maxWireBlockBytes tape₀ = .ok (fresh C r, tape₂) := by
  have hs := sound h
  have hlimit : UploadSession.segmentPlaintextBytes .native r.layout filePlaintext.length
      segmentCode = .ok (limit r) := by
    rw [UploadSession.segmentPlaintextBytes, limit]
    by_cases hw : isV2WholeFileMode segmentCode = true
    · rw [if_pos hw, if_pos hw, native_size]
    · have h₁ : 1 ≤ segmentCode := by
        have : segmentCode ≠ 0 := by simpa [isV2WholeFileMode, kV2SegmentCodeWholeFile] using hw
        omega
      rw [if_neg hw, if_neg hw, decode_ok _ h₁ hs.code]
  simp only [UploadSession.new, rand_bind_eq_ok, rand_lift_eq_ok, rand_pure_eq_ok]
  exact ⟨r.parts, tape₀, ⟨h.split, rfl⟩, (), tape₀, ⟨h.code, rfl⟩, r.layout, tape₀, ⟨h.layout, rfl⟩,
    limit r, tape₀, ⟨hlimit, rfl⟩, r.saltRand, tape₁, h.salt, r.kFek, tape₂, h.fek, rfl⟩

/-- The batch payload as records of the session's segments. -/
theorem payload_packs (hne : filePlaintext ≠ [])
    (h : r.Holds .native C tape₀ tape₁ tape₂ tape₃ tape₄ tape₅ uploads) :
    ∃ packs, (cut (limit r) r.plaintext).mapM (encrypt C r.kFek) tape₂ = .ok (packs, tape₃) ∧
      packs.flatten = r.ciphertext := by
  have hs := sound h
  have hp := h.payload
  have hfile := List.length_pos_of_ne_nil hne
  have hlen := length_plaintext r
  rw [encryptPayloadForSegmentCode] at hp
  by_cases hw : isV2WholeFileMode segmentCode = true
  · rw [if_pos hw] at hp
    have hlim : limit r = r.plaintext.length := by rw [limit, if_pos hw, hlen]
    have hpos : r.plaintext ≠ [] := List.ne_nil_of_length_pos (by omega)
    rw [hlim, cut_of_le (List.length_pos_of_ne_nil hpos) hpos le_rfl]
    refine ⟨[r.ciphertext], ?_, by simp⟩
    simp only [List.mapM_cons, List.mapM_nil, rand_bind_eq_ok, rand_pure_eq_ok]
    exact ⟨r.ciphertext, tape₃, hp, [], tape₃, rfl, rfl⟩
  · have h₁ : 1 ≤ segmentCode := by
      have : segmentCode ≠ 0 := by simpa [isV2WholeFileMode, kV2SegmentCodeWholeFile] using hw
      omega
    rw [if_neg hw] at hp
    obtain ⟨packs, hpacks, hflat⟩ := segmented_eq_ok hs.code h₁ hp
    rw [limit, if_neg hw]
    exact ⟨packs, hpacks, hflat.symm⟩

theorem limit_pos (hne : filePlaintext ≠ []) : 0 < limit r := by
  have hfile := List.length_pos_of_ne_nil hne
  have hseg := segmentBytes_pos segmentCode
  rw [limit]
  split <;> omega

theorem fresh_ready (hne : filePlaintext ≠ [])
    (h : r.Holds .native C tape₀ tape₁ tape₂ tape₃ tape₄ tape₅ uploads) :
    Ready C r tape₃ (fresh C r) tape₂ [] := by
  have hb := (sound h).block
  have hfile := List.length_pos_of_ne_nil hne
  obtain ⟨packs, hpacks, hflat⟩ := payload_packs hne h
  refine ⟨⟨rfl, limit_pos hne, .inr ?_, [], packs, hpacks, ?_⟩, Nat.zero_le _, ?_⟩
  · simp only [fresh, List.length_nil]
    omega
  · exact ⟨rfl, by simpa [fresh] using hflat, by simp, rfl, Nat.zero_le _, rfl, rfl⟩
  · intro h₀
    simp only [fresh] at h₀
    omega

/-- At the end of the file the session holds the batch run's blocks. -/
theorem blocks_at_end (h : r.Holds .native C tape₀ tape₁ tape₂ tape₃ tape₄ tape₅ uploads)
    (hr : Ready C r tape₃ s tape taken) (hend : s.fileBytesFed = filePlaintext.length) :
    tape = tape₃ ∧ s.emittedLeadingCount = r.layout.numTokens - 1 ∧
      s.wirePending = r.lastBlock ∧ Emitted C r r.leadingBlocks s taken [] := by
  have hs := sound h
  have hsum := LayoutSound.leading_add_last hs
  have hlast := hs.last
  have hlt := hs.block
  obtain ⟨hbuf, hpad⟩ := hr.done hend
  obtain ⟨blocks, packs, hpacks, he⟩ := hr.fed.residual
  rw [hbuf, hpad, hend, List.drop_length] at hpacks
  simp only [List.replicate_zero, List.nil_append, cut_nil, List.mapM_nil, rand_pure_eq_ok,
    Prod.mk.injEq] at hpacks
  obtain ⟨rfl, rfl⟩ := hpacks
  have hstream := he.stream
  rw [List.flatten_nil, List.append_nil] at hstream
  have hflat := length_flatten_of_full blocks he.full
  have hlen := congrArg List.length hstream
  rw [List.length_append, hflat, h.ciphertext, ← he.count] at hlen
  have hcount : s.emittedLeadingCount = r.layout.numTokens - 1 := by
    rcases hr.fed.settled with heq | hshort
    · exact heq
    · have hle := he.le
      by_contra hne
      have hmul : (s.emittedLeadingCount + 1) * r.layout.wireBlockSize ≤
          (r.layout.numTokens - 1) * r.layout.wireBlockSize :=
        Nat.mul_le_mul_right _ (by omega)
      rw [Nat.add_mul, Nat.one_mul] at hmul
      omega
  have hblocks := RoundTrip.blocks_eq h
  rw [hcount] at hlen
  have hflat' : blocks.flatten.length = (r.layout.numTokens - 1) * r.layout.wireBlockSize := by
    rw [hflat, ← he.count, hcount]
  have hleading : blocks = r.leadingBlocks := by
    rw [hblocks.1, ← hstream, ← hflat', List.take_left, cut_flatten (by omega) _ he.full]
  have hpending : s.wirePending = r.lastBlock := by
    rw [hblocks.2, ← hstream, ← hflat', List.drop_left]
  rw [hleading] at he
  exact ⟨rfl, hcount, hpending, he⟩

/-- `finalize` makes the batch run's token 0. -/
theorem finalize_ok (h : r.Holds .native C tape₀ tape₁ tape₂ tape₃ tape₄ tape₅ uploads)
    (hr : Ready C r tape₃ s tape taken) (hend : s.fileBytesFed = filePlaintext.length) :
    ∃ s', UploadSession.finalize C s tape =
        .ok ((⟨deriveUploadToken C r.parts.searchCode kSaltFixSearch 0, r.token0⟩, s'), tape₅) ∧
      s'.readyBlocks = s.readyBlocks := by
  obtain ⟨rfl, hcount, hpending, he⟩ := blocks_at_end h hr hend
  obtain ⟨hbuf, hpad⟩ := hr.done hend
  have hlive := hr.fed.live
  have hsize := hr.fileSize
  have hlayout := he.layout
  have hleaves : s.leafHashes ++ [hashBlock C r.lastBlock] = r.blocks.map (hashBlock C) := by
    rw [he.leaves, Run.blocks, List.map_append]
    rfl
  have hroot : (buildMerkleTreeFromLeafHashes C (s.leafHashes ++ [hashBlock C s.wirePending])).rootHash =
      (buildMerkleTree C r.blocks).rootHash := by
    rw [hpending, hleaves, fromLeafHashes_map]
  have hconfig := hr.fed.config
  have hmeta : uploadMetadata s.layout (buildMerkleTree C r.blocks).rootHash r.encryptedFek s.saltRand
      s.originalFileSize s.originalFileName s.segmentCode = r.metadata C := by
    rw [congrArg UploadConfig.layout hconfig, congrArg UploadConfig.saltRand hconfig,
      congrArg UploadConfig.originalFileSize hconfig,
      congrArg UploadConfig.originalFileName hconfig, congrArg UploadConfig.segmentCode hconfig]
    rfl
  refine ⟨{ s with saltRand := [], wirePending := [], finalized := true }, ?_, rfl⟩
  simp only [UploadSession.finalize, rand_bind_eq_ok, rand_lift_eq_ok, throwIf_eq_ok,
    rand_pure_eq_ok, hroot]
  refine ⟨(), tape, ⟨by simp [hlive], rfl⟩, (), tape, ⟨by simp [isFeedComplete, hend, hsize], rfl⟩,
    (), tape, ⟨by simp [hpad], rfl⟩, (), tape, ⟨by simp [hbuf], rfl⟩,
    (), tape, ⟨by simp [hcount, hlayout], rfl⟩, (), tape, ⟨by simp [hpending, h.last, hlayout], rfl⟩,
    r.packedFek, tape₄, ?_, r.encryptedFek, tape₄, ⟨h.encryptedFek, rfl⟩, (), tape₄, ⟨?_, rfl⟩,
    r.sEnc, tape₅, ?_, (), tape₅, ⟨by simpa using h.smEnc, rfl⟩, (), tape₅, ⟨?_, rfl⟩, ?_⟩
  · rw [congrArg UploadConfig.kKek hconfig, congrArg UploadConfig.kFek hconfig]
    exact h.packedFek
  · rw [hmeta]
    simpa using h.smPlain
  · rw [hmeta, congrArg UploadConfig.kSmb hconfig]
    exact h.sEnc
  · rw [hpending, hlayout]
    simpa [Run.token0, buildToken0] using h.token0
  · rw [hpending, he.parts]
    rfl

/-- The entries a block list stands for. -/
def entries (blocks : List UploadWireBlock) : UploadMap := blocks.map fun b => (b.token, b.data)

/-- Streaming upload equals batch upload: on the same tape the session finalizes, ends on the same
tape, and hands out the batch sender's entries, each token once. -/
theorem run_eq_prepareUpload (hd : DistinctTokens C) (filePlaintext : Bytes)
    (credential originalFileName : Str) (segmentCode maxWireBlockBytes : Nat) (tape tape' : Bytes)
    (uploads : UploadMap) (hne : filePlaintext ≠ [])
    (h : prepareUpload .native C filePlaintext credential originalFileName segmentCode
      maxWireBlockBytes tape = .ok (uploads, tape'))
    (actions : List Action) (hfed : actions.flatMap Action.fed = filePlaintext) :
    ∃ handed, UploadSession.run .native C credential originalFileName filePlaintext.length
        segmentCode maxWireBlockBytes actions tape = .ok (handed, tape') ∧
      (entries handed).Perm uploads ∧ (handed.map UploadWireBlock.token).Nodup := by
  obtain ⟨r, t₁, t₂, t₃, t₄, hr⟩ := prepareUpload_eq_ok _ _ h
  obtain ⟨taken, s, t, hrun, hready, hend⟩ :=
    runActions_ready (s := fresh C r) (sound hr).tokens_lt actions hfed (fresh_ready hne hr)
  obtain ⟨s', hfin, hblocks⟩ := finalize_ok hr hready hend
  obtain ⟨-, -, -, he⟩ := blocks_at_end hr hready hend
  have hhanded := he.handed
  rw [List.nil_append] at hhanded
  refine ⟨taken ++ [⟨deriveUploadToken C r.parts.searchCode kSaltFixSearch 0, r.token0⟩] ++
    s.readyBlocks, ?_, ?_⟩
  · simp only [UploadSession.run, rand_bind_eq_ok, rand_pure_eq_ok]
    exact ⟨fresh C r, t₂, new_ok hr, _, t, hrun, _, tape', hfin, by simp [takeReadyBlocks, hblocks]⟩
  · have hperm : (entries (taken ++
        [⟨deriveUploadToken C r.parts.searchCode kSaltFixSearch 0, r.token0⟩] ++
          s.readyBlocks)).Perm uploads := by
      have huploads : uploads = entries (⟨deriveUploadToken C r.parts.searchCode kSaltFixSearch 0,
          r.token0⟩ :: (taken ++ s.readyBlocks)) := by
        rw [uploads_eq hd hr, hhanded]
        simp [tokenEntries, entries, wireBlocks, List.zipIdx_cons]
      rw [huploads, List.append_assoc, List.singleton_append]
      exact (List.perm_middle).map _
    refine ⟨hperm, ?_⟩
    have hkeys := nodup_tokenEntries hd r.parts.searchCode (r.token0 :: r.leadingBlocks) (by
      have := length_leadingBlocks hr
      have := (sound hr).tokens_lt
      simp only [List.length_cons]
      omega)
    rw [← uploads_eq hd hr] at hkeys
    have htokens := (hperm.map Prod.fst).nodup_iff.mpr hkeys
    rwa [entries, List.map_map] at htokens

open PlainCrypto in
/-- 900 octets fed as 600, none and 300, with blocks taken in between. -/
theorem run_eq_prepareUpload_plain :
    ∃ handed uploads tape',
      UploadSession.run .native plain (ascii "abcdefghijkl") (ascii "a.txt") 900 1 700
        [.take, .feed (List.replicate 600 5), .feed [], .take, .feed (List.replicate 300 5), .take]
        (List.replicate 200 7) = .ok (handed, tape') ∧
      prepareUpload .native plain (List.replicate 900 5) (ascii "abcdefghijkl") (ascii "a.txt") 1
        700 (List.replicate 200 7) = .ok (uploads, tape') ∧
      (entries handed).Perm uploads ∧ (handed.map UploadWireBlock.token).Nodup := by
  have hok : (prepareUpload .native plain (List.replicate 900 5) (ascii "abcdefghijkl")
      (ascii "a.txt") 1 700 (List.replicate 200 7)).isOk = true := by decide +kernel
  cases h : prepareUpload .native plain (List.replicate 900 5) (ascii "abcdefghijkl")
      (ascii "a.txt") 1 700 (List.replicate 200 7) with
  | error e =>
    rw [h] at hok
    simp [Except.isOk, Except.toBool] at hok
  | ok p =>
    obtain ⟨handed, hrun, hperm, hnodup⟩ := run_eq_prepareUpload plain_distinctTokens
      (List.replicate 900 5) _ _ _ _ _ _ _ (by decide +kernel) h
      [.take, .feed (List.replicate 600 5), .feed [], .take, .feed (List.replicate 300 5), .take]
      (by decide +kernel)
    rw [List.length_replicate] at hrun
    exact ⟨handed, p.1, p.2, hrun, rfl, hperm, hnodup⟩

end TwelveC.StreamingUpload
