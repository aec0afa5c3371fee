import TwelveC.ReceiveSession
import TwelveC.Lib.RecordStream

/-!
# Queue and records of a session

Between two calls a session has opened the records that the ciphertext so far
completes; the rest of it is in the pack buffer. The opened plaintext is split
into what was consumed and what is in the queue, and the chunks handed out are
the consumed part behind the padding.
-/

namespace TwelveC.ReceiveSession

open Segment Payload Merkle Smb Crypto Receiver Lib

variable {C : Primitives}

/-- The offset of the queue lies in its first part. -/
def Normal : List Bytes → Nat → Prop
  | [], offset => offset = 0
  | front :: _, offset => offset ≤ front.length

/-- The opened octets that wait in the queue. -/
def unread (s : ReceiveDecryptSession) : Bytes :=
  s.readyPlaintextParts.flatten.drop s.readyPlaintextOffset

theorem Normal.le {parts : List Bytes} {offset : Nat} (h : Normal parts offset) :
    offset ≤ parts.flatten.length := by
  cases parts with
  | nil => exact Nat.le_of_eq h
  | cons front rest =>
    rw [List.flatten_cons, List.length_append]
    exact Nat.le_add_right_of_le h

theorem readyPlaintextAvailable_eq {s : ReceiveDecryptSession}
    (h : Normal s.readyPlaintextParts s.readyPlaintextOffset) :
    readyPlaintextAvailable s = (unread s).length := by
  rw [readyPlaintextAvailable, unread]
  cases hparts : s.readyPlaintextParts with
  | nil => simp
  | cons front rest =>
    rw [hparts] at h
    have hle : s.readyPlaintextOffset ≤ front.length := h
    rw [List.flatten_cons, List.length_drop, List.length_append, List.length_flatten]
    dsimp only
    omega

theorem popConsumed_spec (parts : List Bytes) (offset : Nat) (h : offset ≤ parts.flatten.length) :
    Normal (popConsumed parts offset).1 (popConsumed parts offset).2 ∧
    (popConsumed parts offset).1.flatten.drop (popConsumed parts offset).2 =
      parts.flatten.drop offset ∧
    (popConsumed parts offset).1.length ≤ parts.length := by
  induction parts generalizing offset with
  | nil => exact ⟨Nat.le_zero.mp h, rfl, le_rfl⟩
  | cons front rest ih =>
    rw [List.flatten_cons, List.length_append] at h
    rw [popConsumed]
    split
    next hle =>
      obtain ⟨hnormal, hrest, hlen⟩ := ih (offset - front.length) (by omega)
      refine ⟨hnormal, ?_, Nat.le_succ_of_le hlen⟩
      rw [hrest, List.flatten_cons, List.drop_append, List.drop_of_length_le hle, List.nil_append]
    next hlt => exact ⟨(not_le.mp hlt).le, rfl, le_rfl⟩

/-- What moving `k` octets on in the queue changes. -/
structure Advanced (k : Nat) (s s' : ReceiveDecryptSession) : Prop where
  normal : Normal s'.readyPlaintextParts s'.readyPlaintextOffset
  unread : unread s' = (unread s).drop k
  parts : s'.readyPlaintextParts.length ≤ s.readyPlaintextParts.length
  same : s' = { s with
    readyPlaintextParts := s'.readyPlaintextParts
    readyPlaintextOffset := s'.readyPlaintextOffset
    consumedPaddedBytes := s.consumedPaddedBytes + k
    prefixSkipRemaining := s.prefixSkipRemaining - k }

theorem Advanced.trans {j k : Nat} {s s' s'' : ReceiveDecryptSession} (h : Advanced j s s')
    (h' : Advanced k s' s'') : Advanced (j + k) s s'' := by
  refine ⟨h'.normal, ?_, h'.parts.trans h.parts, ?_⟩
  · rw [h'.unread, h.unread, List.drop_drop]
  · rw [h'.same, h.same]
    simp only [Nat.add_assoc, Nat.sub_sub]

theorem Advanced.refl {s : ReceiveDecryptSession}
    (h : Normal s.readyPlaintextParts s.readyPlaintextOffset) : Advanced 0 s s :=
  ⟨h, rfl, le_rfl, rfl⟩

/-- Moving on within the first part. -/
theorem advanceReadyFront_spec {s : ReceiveDecryptSession} {k : Nat} (hk : 0 < k)
    (h : s.readyPlaintextOffset + k ≤ s.readyPlaintextParts.flatten.length) :
    Advanced k s { advanceReadyFront k s with prefixSkipRemaining := s.prefixSkipRemaining - k } := by
  obtain ⟨hnormal, hunread, hparts⟩ := popConsumed_spec _ _ h
  rw [advanceReadyFront, if_neg (by omega)]
  refine ⟨hnormal, ?_, hparts, rfl⟩
  rw [unread, unread, List.drop_drop]
  exact hunread

/-- Past the padding there is nothing more to skip. -/
theorem advanceReadyFront_file {s : ReceiveDecryptSession} {k : Nat} (hk : 0 < k)
    (h : s.readyPlaintextOffset + k ≤ s.readyPlaintextParts.flatten.length)
    (hskip : s.prefixSkipRemaining = 0) : Advanced k s (advanceReadyFront k s) := by
  have hspec := advanceReadyFront_spec hk h
  have hsame : { advanceReadyFront k s with
      prefixSkipRemaining := s.prefixSkipRemaining - k } = advanceReadyFront k s := by
    rw [advanceReadyFront, if_neg (by omega), hskip, Nat.zero_sub, ← hskip]
  rwa [hsame] at hspec

theorem drainLoop_spec {max : Nat} (fuel : Nat) {output : Bytes} {s : ReceiveDecryptSession}
    (h : Normal s.readyPlaintextParts s.readyPlaintextOffset) (hout : output.length ≤ max)
    (hroom : output.length = max → s.prefixSkipRemaining = 0)
    (hfuel : (unread s).length + s.readyPlaintextParts.length ≤ fuel) :
    (drainLoop max fuel output s).1 =
      output ++ ((unread s).drop s.prefixSkipRemaining).take (max - output.length) ∧
    Advanced (min (unread s).length (s.prefixSkipRemaining + (max - output.length))) s
      (drainLoop max fuel output s).2 := by
  induction fuel generalizing output s with
  | zero =>
    have hnone : unread s = [] := List.length_eq_zero_iff.mp (by omega)
    rw [drainLoop, hnone]
    simpa using Advanced.refl h
  | succ fuel ih =>
    rw [drainLoop]
    by_cases hfull : output.length < max
    · rw [if_pos hfull]
      cases hparts : s.readyPlaintextParts with
      | nil =>
        have hnone : unread s = [] := by simp [unread, hparts]
        rw [hnone]
        simpa using Advanced.refl h
      | cons front rest =>
        rw [hparts, List.length_cons] at hfuel
        rw [hparts] at h
        have hle : s.readyPlaintextOffset ≤ front.length := h
        have hunread : unread s = front.drop s.readyPlaintextOffset ++ rest.flatten := by
          rw [unread, hparts, List.flatten_cons, List.drop_append_of_le_length hle]
        dsimp only
        split
        next hzero =>
          -- an empty remainder of the first part
          let s₁ : ReceiveDecryptSession :=
            { s with readyPlaintextParts := rest, readyPlaintextOffset := 0 }
          have hsame : unread s₁ = unread s := by
            rw [hunread, List.drop_of_length_le (by omega)]
            rfl
          have hnormal : Normal rest 0 := by
            cases rest with
            | nil => rfl
            | cons => exact Nat.zero_le _
          obtain ⟨hdrained, hadvanced⟩ := ih (s := s₁) hnormal hout hroom (by
            rw [hsame]
            exact Nat.le_of_succ_le_succ hfuel)
          rw [hsame] at hdrained hadvanced
          refine ⟨hdrained, hadvanced.normal, hadvanced.unread.trans (by rw [hsame]), ?_, ?_⟩
          · rw [hparts]
            exact Nat.le_succ_of_le hadvanced.parts
          · exact hadvanced.same
        next havail =>
          have hlen : s.readyPlaintextOffset + (front.length - s.readyPlaintextOffset) ≤
              s.readyPlaintextParts.flatten.length := by
            rw [hparts, List.flatten_cons, List.length_append]
            omega
          have hpos : front.length - s.readyPlaintextOffset ≤ (unread s).length := by
            rw [hunread, List.length_append, List.length_drop]
            omega
          split
          next hskip =>
            generalize hk : min (front.length - s.readyPlaintextOffset) s.prefixSkipRemaining = k
            have hadv := advanceReadyFront_spec (s := s) (k := k) (by omega) (by omega)
            have hparts₁ := hadv.parts
            have hunread₁ := hadv.unread
            generalize hs₁ : { advanceReadyFront k s with
              prefixSkipRemaining := s.prefixSkipRemaining - k } = s₁ at *
            have hskip₁ : s₁.prefixSkipRemaining = s.prefixSkipRemaining - k := by rw [← hs₁]
            rw [hparts, List.length_cons] at hparts₁
            have hfuel₁ : (unread s₁).length + s₁.readyPlaintextParts.length ≤ fuel := by
              rw [hunread₁, List.length_drop]
              omega
            obtain ⟨hdrained, hrest⟩ := ih hadv.normal hout (fun hmax => by omega) hfuel₁
            have htotal := hadv.trans hrest
            rw [hunread₁, hskip₁, List.drop_drop, show k + (s.prefixSkipRemaining - k) =
              s.prefixSkipRemaining by omega] at hdrained
            rw [hunread₁, hskip₁, List.length_drop, show k + min ((unread s).length - k)
              (s.prefixSkipRemaining - k + (max - output.length)) = min (unread s).length
              (s.prefixSkipRemaining + (max - output.length)) by omega] at htotal
            exact ⟨hdrained, htotal⟩
          next hskip =>
            have hskip₀ : s.prefixSkipRemaining = 0 := by omega
            generalize hk : min (front.length - s.readyPlaintextOffset) (max - output.length) = k
            have hadv := advanceReadyFront_file (s := s) (k := k) (by omega) (by omega) hskip₀
            have hparts₁ := hadv.parts
            have hunread₁ := hadv.unread
            have hskip₁ : (advanceReadyFront k s).prefixSkipRemaining = 0 := by
              rw [hadv.same]
              exact (congrArg (· - k) hskip₀).trans (Nat.zero_sub k)
            rw [hparts, List.length_cons] at hparts₁
            have hchunk : (front.drop s.readyPlaintextOffset).take k = (unread s).take k := by
              rw [hunread, List.take_append_of_le_length (by rw [List.length_drop]; omega)]
            have hchunkLen : ((unread s).take k).length = k := List.length_take_of_le (by omega)
            rw [hchunk]
            have hfuel₁ : (unread (advanceReadyFront k s)).length +
                (advanceReadyFront k s).readyPlaintextParts.length ≤ fuel := by
              rw [hunread₁, List.length_drop]
              omega
            have hroom₁ : (output ++ (unread s).take k).length ≤ max := by
              rw [List.length_append]
              omega
            obtain ⟨hdrained, hrest⟩ := ih hadv.normal hroom₁ (fun _ => hskip₁) hfuel₁
            have htotal := hadv.trans hrest
            rw [List.length_append, hchunkLen, hskip₁, hunread₁] at hdrained htotal
            rw [hskip₀]
            constructor
            · rw [hdrained, List.append_assoc, List.drop_zero, List.drop_zero, ← List.take_add]
              congr 2
              omega
            · rw [List.length_drop, show k + min ((unread s).length - k)
                (0 + (max - (output.length + k))) =
                min (unread s).length (0 + (max - output.length)) by omega] at htotal
              exact htotal
    · rw [if_neg hfull, hroom (by omega), show max - output.length = 0 by omega]
      simpa using Advanced.refl h

/-- `text` has been opened and `taken` has been handed out, with `padding` octets before the file. -/
structure Queue (padding : Nat) (text taken : Bytes) (s : ReceiveDecryptSession) : Prop where
  normal : Normal s.readyPlaintextParts s.readyPlaintextOffset
  produced : s.producedPlaintextBytes = text.length
  consumed : s.consumedPaddedBytes ≤ text.length
  unread : unread s = text.drop s.consumedPaddedBytes
  skip : s.prefixSkipRemaining = padding - s.consumedPaddedBytes
  exported : s.exportedFileBytes = taken.length
  taken : taken = (text.take s.consumedPaddedBytes).drop padding

variable {padding : Nat} {text taken : Bytes} {s s' : ReceiveDecryptSession}

theorem Queue.length_taken (h : Queue padding text taken s) :
    taken.length = s.consumedPaddedBytes - padding := by
  have hle := h.consumed
  rw [h.taken, List.length_drop, List.length_take_of_le hle]

/-- What was taken is the start of the file part of the text. -/
theorem Queue.taken_take (h : Queue padding text taken s) :
    taken = (text.drop padding).take taken.length := by
  rw [h.length_taken, List.take_drop]
  rcases Nat.le_total s.consumedPaddedBytes padding with hle | hle
  · have hle' := h.consumed
    rw [h.taken, List.drop_of_length_le (by rw [List.length_take_of_le hle']; exact hle),
      List.drop_of_length_le (by rw [List.length_take]; omega)]
  · rw [show padding + (s.consumedPaddedBytes - padding) = s.consumedPaddedBytes by omega, h.taken]

theorem Queue.taken_start (h : Queue padding text taken s) : taken <+: text.drop padding := by
  rw [h.taken_take]
  exact List.take_prefix _ _

theorem Queue.available (h : Queue padding text taken s) :
    readyPlaintextAvailable s = text.length - s.consumedPaddedBytes := by
  rw [readyPlaintextAvailable_eq h.normal, h.unread, List.length_drop]

theorem Queue.fileAvailable (h : Queue padding text taken s) :
    taken.length + readyFileBytesAvailable s = text.length - padding := by
  have hle := h.consumed
  rw [readyFileBytesAvailable, h.available, h.skip, h.length_taken]
  omega

/-- The session but for what taking a chunk changes. -/
def apartFromQueue (s : ReceiveDecryptSession) : ReceiveDecryptSession :=
  { s with
    readyPlaintextParts := []
    readyPlaintextOffset := 0
    consumedPaddedBytes := 0
    exportedFileBytes := 0
    prefixSkipRemaining := 0 }

/-- A chunk is what follows in the file part, up to its size. -/
theorem drainReadyQueue_spec (h : Queue padding text taken s) {max : Nat} (hmax : 0 < max) :
    (drainReadyQueue max s).1 = ((text.drop padding).drop taken.length).take max ∧
    Queue padding text (taken ++ (drainReadyQueue max s).1) (drainReadyQueue max s).2 ∧
    apartFromQueue (drainReadyQueue max s).2 = apartFromQueue s := by
  have hfuel : (unread s).length + s.readyPlaintextParts.length ≤
      (s.readyPlaintextParts.map List.length).sum + s.readyPlaintextParts.length := by
    rw [unread, List.length_drop, List.length_flatten]
    omega
  have hempty : ([] : Bytes).length ≤ max := Nat.zero_le _
  have hroom : ([] : Bytes).length = max → s.prefixSkipRemaining = 0 := fun hzero => by
    rw [List.length_nil] at hzero
    omega
  obtain ⟨hout, hadv⟩ := drainLoop_spec _ h.normal hempty hroom hfuel
  rw [drainReadyQueue, if_neg (by omega)]
  dsimp only
  generalize drainLoop max _ [] s = r at hout hadv
  obtain ⟨out, s₁⟩ := r
  dsimp only at hout hadv ⊢
  have hle := h.consumed
  have ht := h.length_taken
  rw [h.unread, h.skip, List.nil_append, List.length_nil, Nat.sub_zero, List.drop_drop] at hout
  have hchunk : out = ((text.drop padding).drop taken.length).take max := by
    rw [hout, List.drop_drop, ht, show s.consumedPaddedBytes + (padding - s.consumedPaddedBytes) =
      padding + (s.consumedPaddedBytes - padding) by omega]
  rw [h.unread, List.length_drop, h.skip, List.length_nil, Nat.sub_zero] at hadv
  generalize hk : min (text.length - s.consumedPaddedBytes)
    (padding - s.consumedPaddedBytes + max) = k at hadv
  refine ⟨hchunk, ⟨hadv.normal, ?_, ?_, ?_, ?_, ?_, ?_⟩, ?_⟩
  · rw [hadv.same]
    exact h.produced
  · rw [hadv.same]
    dsimp only
    omega
  · rw [hadv.same]
    exact hadv.unread.trans (by rw [h.unread, List.drop_drop])
  · rw [hadv.same]
    dsimp only
    rw [h.skip, Nat.sub_sub]
  · rw [hadv.same]
    dsimp only
    rw [h.exported, List.length_append]
  · have htaken := h.taken_take
    generalize taken.length = t at htaken ht hchunk
    rw [htaken, hchunk, ← List.take_add, hadv.same, List.drop_take, List.take_eq_take_iff,
      List.length_drop]
    dsimp only
    omega
  · rw [hadv.same]
    rfl

theorem Queue.enqueue (h : Queue padding text taken s) (chunk : Bytes) :
    Queue padding (text ++ chunk) taken (enqueuePlaintext chunk s) := by
  have hle := h.consumed
  refine ⟨?_, ?_, ?_, ?_, h.skip, h.exported, ?_⟩
  · have hnormal := h.normal
    rw [enqueuePlaintext]
    cases hparts : s.readyPlaintextParts with
    | nil =>
      rw [hparts] at hnormal
      have hzero : s.readyPlaintextOffset = 0 := hnormal
      exact hzero.trans_le (Nat.zero_le _)
    | cons front rest =>
      rw [hparts] at hnormal
      exact hnormal
  · rw [List.length_append, ← h.produced]
    rfl
  · rw [List.length_append]
    exact Nat.le_add_right_of_le hle
  · have hunread := h.unread
    rw [ReceiveSession.unread] at hunread ⊢
    rw [enqueuePlaintext]
    dsimp only
    rw [List.flatten_append, List.flatten_singleton,
      List.drop_append_of_le_length h.normal.le, hunread, List.drop_append_of_le_length hle]
  · rw [enqueuePlaintext]
    dsimp only
    rw [List.take_append_of_le_length hle]
    exact h.taken

section Outcomes

variable {α β : Type} {e : Exn}

theorem thrownAt_ok_bind (a : α) (f : α → Except (Exn × ReceiveDecryptSession) β) :
    (thrownAt s (.ok a) >>= f) = f a := rfl

theorem thrownAt_error_bind (f : α → Except (Exn × ReceiveDecryptSession) β) :
    (thrownAt s (.error e) >>= f) = .error (e, s) := rfl

theorem outcome_bind (f : ReceiveDecryptSession → Outcome) :
    ((.ok s : Outcome) >>= f) = f s := rfl

theorem outcome_error_bind (f : ReceiveDecryptSession → Outcome) :
    ((.error (e, s) : Outcome) >>= f) = .error (e, s) := rfl

end Outcomes

/-- The file key of the SMB. -/
def unlock (C : Primitives) (parts : CredentialParts) (metadata : SmbMetadata) : Except Exn Bytes :=
  decrypt C (slowKdf C parts.keyCode metadata.saltRand) metadata.encryptedFek.pack

def openRecord (C : Primitives) (parts : CredentialParts) (metadata : SmbMetadata) (record : Bytes) :
    Except Exn Bytes := do
  let kFek ← unlock C parts metadata
  decrypt C kFek record

/-- A key that is marked as ready is the file key. -/
def KeyReady (C : Primitives) (s : ReceiveDecryptSession) : Prop :=
  s.kFekReady = true → unlock C s.credentialParts s.metadata = .ok s.kFek

theorem readyFek_ok (hkey : KeyReady C s) {kFek : Bytes}
    (hu : unlock C s.credentialParts s.metadata = .ok kFek) :
    readyFek C s = .ok { s with kFek := kFek, kFekReady := true } := by
  rw [readyFek]
  split
  next hready =>
    obtain rfl := Except.ok.inj ((hkey hready).symm.trans hu)
    rw [← hready]
  next =>
    rw [unlock] at hu
    dsimp only
    rw [hu]
    rfl

theorem readyFek_error (hkey : KeyReady C s) {e : Exn}
    (hu : unlock C s.credentialParts s.metadata = .error e) : readyFek C s = .error (e, s) := by
  rw [readyFek]
  split
  next hready => simp [hkey hready] at hu
  next =>
    rw [unlock] at hu
    dsimp only
    rw [hu]
    rfl

variable {parts : CredentialParts} {metadata : SmbMetadata} {n : Nat}

theorem openSegment_ok (hkey : KeyReady C s) {piece : Bytes}
    (hopen : openRecord C s.credentialParts s.metadata s.ciphertextPackBuffer = .ok piece)
    (hn : piece.length = n) :
    ∃ kFek, unlock C s.credentialParts s.metadata = .ok kFek ∧ openSegment C n s =
      .ok { enqueuePlaintext piece s with
        kFek := kFek
        kFekReady := true
        ciphertextPackBuffer := []
        remainingPlaintext := s.remainingPlaintext - n } := by
  obtain ⟨kFek, hu, hdec⟩ := bind_eq_ok.mp hopen
  refine ⟨kFek, hu, ?_⟩
  rw [openSegment, readyFek_ok hkey hu, outcome_bind]
  dsimp only
  rw [hdec, thrownAt_ok_bind, throwIf_neg (by simpa using hn), thrownAt_ok_bind]
  rfl

theorem openSegment_error (hkey : KeyReady C s)
    (hno : ∀ piece, openRecord C s.credentialParts s.metadata s.ciphertextPackBuffer = .ok piece →
      piece.length ≠ n) :
    ∃ e kFek ready, openSegment C n s = .error (e, { s with kFek := kFek, kFekReady := ready }) ∧
      KeyReady C { s with kFek := kFek, kFekReady := ready } := by
  cases hu : unlock C s.credentialParts s.metadata with
  | error e =>
    refine ⟨e, s.kFek, s.kFekReady, ?_, hkey⟩
    rw [openSegment, readyFek_error hkey hu, outcome_error_bind]
  | ok kFek =>
    have hopened : ∀ x, openRecord C s.credentialParts s.metadata s.ciphertextPackBuffer = x ↔
        decrypt C kFek s.ciphertextPackBuffer = x := by
      intro x
      rw [openRecord, hu, ok_bind]
    have hready : KeyReady C { s with kFek := kFek, kFekReady := true } := fun _ => hu
    rw [openSegment, readyFek_ok hkey hu, outcome_bind]
    dsimp only
    cases hdec : decrypt C kFek s.ciphertextPackBuffer with
    | error e => exact ⟨e, kFek, true, thrownAt_error_bind _, hready⟩
    | ok piece =>
      have hne := hno piece ((hopened _).mpr hdec)
      refine ⟨.runtimeError "receive decrypt session: V2.1 segment plaintext length mismatch", kFek,
        true, ?_, hready⟩
      rw [thrownAt_ok_bind, throwIf_pos hne]
      rfl

/-- The records of an object with `n` octets of padded plaintext. -/
def Records (C : Primitives) (parts : CredentialParts) (metadata : SmbMetadata) (n : Nat)
    (stream : Bytes) (pieces : List Bytes) (r : Nat) : Prop :=
  Opened (openRecord C parts metadata) (segmentBytes metadata.segmentCode) 28 n stream pieces r

/-- The whole records in the ciphertext delivered so far open. -/
def WholeRecordsOpen (C : Primitives) (parts : CredentialParts) (metadata : SmbMetadata) (n : Nat)
    (delivered : Bytes) : Prop :=
  ∃ stream rest pieces r, delivered = stream ++ rest ∧ Records C parts metadata n stream pieces r ∧
    rest.length < min (segmentBytes metadata.segmentCode) r + 28

theorem WholeRecordsOpen.start {n : Nat} {delivered more : Bytes}
    (h : WholeRecordsOpen C parts metadata n (delivered ++ more)) :
    WholeRecordsOpen C parts metadata n delivered := by
  obtain ⟨stream, rest, pieces, r, heq, hopened, hrest⟩ := h
  obtain ⟨whole, short, opened, left, hsplit, hwhole, hlt⟩ := hopened.front heq hrest
  exact ⟨whole, short, opened, left, hsplit, hwhole, hlt⟩

/-- A ciphertext that opens to its end. -/
theorem Records.wholeRecordsOpen {n : Nat} {stream : Bytes} {pieces : List Bytes}
    (h : Records C parts metadata n stream pieces 0) : WholeRecordsOpen C parts metadata n stream :=
  ⟨stream, [], pieces, 0, (List.append_nil _).symm, h, by rw [List.length_nil]; omega⟩

/-- What a segmented session has made of the ciphertext delivered so far. -/
structure Reading (C : Primitives) (parts : CredentialParts) (metadata : SmbMetadata)
    (padded : Nat) (delivered text : Bytes) (s : ReceiveDecryptSession) : Prop where
  sameParts : s.credentialParts = parts
  sameMetadata : s.metadata = metadata
  size : s.segmentPlaintextBytes = segmentBytes metadata.segmentCode
  key : KeyReady C s
  opened : ∃ stream pieces, delivered = stream ++ s.ciphertextPackBuffer ∧
    Records C parts metadata padded stream pieces s.remainingPlaintext ∧ pieces.flatten = text

/-- The octets of the record to come. -/
def recordLength (s : ReceiveDecryptSession) : Nat :=
  min s.segmentPlaintextBytes s.remainingPlaintext + 28

/-- The pack buffer holds a whole record that does not open. -/
structure Jammed (C : Primitives) (s : ReceiveDecryptSession) : Prop where
  full : s.ciphertextPackBuffer.length = recordLength s
  more : 0 < s.remainingPlaintext
  refused : ∀ piece, openRecord C s.credentialParts s.metadata s.ciphertextPackBuffer = .ok piece →
    piece.length ≠ min s.segmentPlaintextBytes s.remainingPlaintext

/-- The session but for what feeding ciphertext changes. -/
def apartFromFeed (s : ReceiveDecryptSession) : ReceiveDecryptSession :=
  { s with
    kFek := []
    kFekReady := false
    ciphertextPackBuffer := []
    remainingPlaintext := 0
    readyPlaintextParts := []
    producedPlaintextBytes := 0 }

variable {padded : Nat} {delivered data stream : Bytes} {pieces : List Bytes}

theorem Records.length_eq (hcode : metadata.segmentCode ≠ 0)
    (h : Records C parts metadata padded stream pieces 0) :
    stream.length = cipherLength padded metadata.segmentCode := by
  have hs := segmentBytes_pos metadata.segmentCode
  have htext := h.length_flatten
  rw [h.length_stream, h.length_pieces hs rfl, cipherLength, recordCount, if_neg hcode]
  omega

/-- With ciphertext still to come, there is plaintext to come. -/
theorem Reading.remaining_pos (h : Reading C parts metadata padded delivered text s)
    (hcode : metadata.segmentCode ≠ 0)
    (hlen : delivered.length < cipherLength padded metadata.segmentCode) :
    0 < s.remainingPlaintext := by
  obtain ⟨stream, pieces, rfl, hopened, -⟩ := h.opened
  by_contra hzero
  rw [show s.remainingPlaintext = 0 by omega] at hopened
  rw [List.length_append, hopened.length_eq hcode] at hlen
  omega

/-- One round of the loop completes a record and opens it. -/
theorem Reading.record (h : Reading C parts metadata padded delivered text s)
    (hpos : 0 < s.remainingPlaintext) {piece : Bytes}
    (hfull : (s.ciphertextPackBuffer ++ data).length = recordLength s)
    (hopen : openRecord C parts metadata (s.ciphertextPackBuffer ++ data) = .ok piece)
    (hpiece : piece.length = min s.segmentPlaintextBytes s.remainingPlaintext) {kFek : Bytes}
    (hu : unlock C parts metadata = .ok kFek) :
    Reading C parts metadata padded (delivered ++ data) (text ++ piece)
      { enqueuePlaintext piece s with
        kFek := kFek
        kFekReady := true
        ciphertextPackBuffer := []
        remainingPlaintext :=
          s.remainingPlaintext - min s.segmentPlaintextBytes s.remainingPlaintext } := by
  obtain ⟨stream, pieces, rfl, hopened, rfl⟩ := h.opened
  refine ⟨h.sameParts, h.sameMetadata, h.size, fun _ => ?_, stream ++ (s.ciphertextPackBuffer ++ data),
    pieces ++ [piece], ?_, ?_, ?_⟩
  · rw [← h.sameParts, ← h.sameMetadata] at hu
    exact hu
  · rw [List.append_nil, List.append_assoc]
  · rw [recordLength, h.size] at hfull
    rw [h.size] at hpiece ⊢
    exact hopened.append (Opened.single hpos hfull hopen hpiece)
  · rw [List.flatten_append, List.flatten_singleton]

theorem feedSegments_spec (fuel : Nat) (hcode : metadata.segmentCode ≠ 0)
    (h : Reading C parts metadata padded delivered text s) (hq : Queue padding text taken s)
    (hroom : s.ciphertextPackBuffer.length < recordLength s)
    (hlen : delivered.length + data.length ≤ cipherLength padded metadata.segmentCode)
    (hfuel : data.length < fuel) :
    (∃ s' text', feedSegments C fuel data s = .ok s' ∧
      Reading C parts metadata padded (delivered ++ data) text' s' ∧ Queue padding text' taken s' ∧
      s'.ciphertextPackBuffer.length < recordLength s' ∧ apartFromFeed s' = apartFromFeed s) ∨
    ∃ e s' text' consumed, feedSegments C fuel data s = .error (e, s') ∧ consumed <+: data ∧
      Reading C parts metadata padded (delivered ++ consumed) text' s' ∧
      Queue padding text' taken s' ∧ Jammed C s' ∧ apartFromFeed s' = apartFromFeed s := by
  induction fuel generalizing delivered data text s with
  | zero => omega
  | succ fuel ih =>
    cases data with
    | nil => exact .inl ⟨s, text, rfl, by rwa [List.append_nil], hq, hroom, rfl⟩
    | cons b rest =>
      have hpos := h.remaining_pos hcode (by rw [List.length_cons] at hlen; omega)
      rw [feedSegments, kGcmEnvelopeBytes_eq]
      dsimp only
      rw [show min s.segmentPlaintextBytes s.remainingPlaintext + 28 = recordLength s from rfl]
      generalize hdata : b :: rest = data at *
      generalize hw : recordLength s - s.ciphertextPackBuffer.length = wanted
      split
      next hshort =>
        -- the record goes on behind these octets
        rw [List.length_append, List.length_take] at hshort
        have htake : data.take wanted = data := List.take_of_length_le (by omega)
        rw [htake]
        obtain ⟨stream, pieces, rfl, hopened, htext⟩ := h.opened
        refine .inl ⟨_, text, rfl, ⟨h.sameParts, h.sameMetadata, h.size, h.key, stream, pieces, ?_, hopened,
          htext⟩, ⟨hq.normal, hq.produced, hq.consumed, hq.unread, hq.skip, hq.exported, hq.taken⟩,
          ?_, rfl⟩
        · rw [List.append_assoc]
        · show (s.ciphertextPackBuffer ++ data).length < recordLength s
          rw [List.length_append]
          omega
      next hfull =>
        have hsplit := List.take_append_drop wanted data
        have hrecord : (s.ciphertextPackBuffer ++ data.take wanted).length = recordLength s := by
          rw [List.length_append, List.length_take] at hfull ⊢
          omega
        have hlens := congrArg List.length hsplit
        rw [List.length_append] at hlens
        by_cases hopen : ∃ piece,
            openRecord C parts metadata (s.ciphertextPackBuffer ++ data.take wanted) = .ok piece ∧
            piece.length = min s.segmentPlaintextBytes s.remainingPlaintext
        · obtain ⟨piece, hopen, hpiece⟩ := hopen
          have hopen' := hopen
          rw [← h.sameParts, ← h.sameMetadata] at hopen'
          obtain ⟨kFek, hu, hseg⟩ := openSegment_ok
            (s := { s with ciphertextPackBuffer := s.ciphertextPackBuffer ++ data.take wanted })
            h.key hopen' hpiece
          dsimp only at hu
          rw [h.sameParts, h.sameMetadata] at hu
          rw [hseg, outcome_bind]
          have hread := h.record hpos hrecord hopen hpiece hu
          have hq' := hq.enqueue piece
          have hlen₁ : (delivered ++ data.take wanted).length + (data.drop wanted).length ≤
              cipherLength padded metadata.segmentCode := by
            rw [List.length_append]
            omega
          have hfuel₁ : (data.drop wanted).length < fuel := by
            have hb : 0 < data.length := by simp [← hdata]
            rw [List.length_drop] at hlens ⊢
            omega
          rcases ih hread
            ⟨hq'.normal, hq'.produced, hq'.consumed, hq'.unread, hq'.skip, hq'.exported, hq'.taken⟩
            (Nat.succ_pos _) hlen₁ hfuel₁ with
            ⟨s', text', hok, hread', hrest⟩ | ⟨e, s', text', consumed, herr, hstart, hread', hrest⟩
          · rw [List.append_assoc, hsplit] at hread'
            exact .inl ⟨s', text', hok, hread', hrest⟩
          · rw [List.append_assoc] at hread'
            have hstart' := (List.prefix_append_right_inj (data.take wanted)).mpr hstart
            rw [hsplit] at hstart'
            exact .inr ⟨e, s', text', _, herr, hstart', hread', hrest⟩
        · have hno : ∀ piece, openRecord C s.credentialParts s.metadata
              (s.ciphertextPackBuffer ++ data.take wanted) = .ok piece →
              piece.length ≠ min s.segmentPlaintextBytes s.remainingPlaintext := by
            intro piece hpiece hlength
            rw [h.sameParts, h.sameMetadata] at hpiece
            exact hopen ⟨piece, hpiece, hlength⟩
          obtain ⟨e, kFek, ready, hseg, hkey⟩ := openSegment_error
            (s := { s with ciphertextPackBuffer := s.ciphertextPackBuffer ++ data.take wanted })
            h.key hno
          rw [hseg, outcome_error_bind]
          obtain ⟨stream, pieces, rfl, hopened, htext⟩ := h.opened
          refine .inr ⟨e, _, text, data.take wanted, rfl, List.take_prefix _ _, ⟨h.sameParts,
            h.sameMetadata, h.size, hkey, stream, pieces, ?_, hopened, htext⟩, ⟨hq.normal, hq.produced,
            hq.consumed, hq.unread, hq.skip, hq.exported, hq.taken⟩, ⟨hrecord, hpos, hno⟩, rfl⟩
          rw [List.append_assoc]

/-- In the ciphertext so far, and whatever follows it, there is a record that does not open. -/
theorem Jammed.refuses (hj : Jammed C s) (h : Reading C parts metadata padded delivered text s)
    (more : Bytes) : ¬ WholeRecordsOpen C parts metadata padded (delivered ++ more) := by
  rintro ⟨whole, rest, others, r, heq, hall, hrest⟩
  obtain ⟨stream, pieces, rfl, hopened, -⟩ := h.opened
  have hfull := hj.full
  rw [recordLength, h.size] at hfull
  rw [List.append_assoc] at heq
  obtain ⟨between, later, rfl, hsplit, -, hbetween⟩ := hopened.upTo hall heq hrest
  cases hbetween with
  | nil =>
    have hlen := congrArg List.length hsplit
    rw [List.nil_append, List.length_append] at hlen
    omega
  | cons _ hrecord hopen hpiece =>
    rw [List.append_assoc] at hsplit
    obtain ⟨rfl, -⟩ := List.append_inj hsplit (hfull.trans hrecord.symm)
    rw [← h.sameParts, ← h.sameMetadata] at hopen
    rw [← h.size] at hpiece
    exact hj.refused _ hopen hpiece

/-- Taking a chunk leaves the records alone. -/
theorem Reading.of_queue (h : Reading C parts metadata padded delivered text s)
    (hsame : apartFromQueue s' = apartFromQueue s) :
    Reading C parts metadata padded delivered text s' ∧
    s'.ciphertextPackBuffer = s.ciphertextPackBuffer ∧ recordLength s' = recordLength s := by
  have hparts : s'.credentialParts = s.credentialParts := congrArg (·.credentialParts) hsame
  have hmetadata : s'.metadata = s.metadata := congrArg (·.metadata) hsame
  have hsize : s'.segmentPlaintextBytes = s.segmentPlaintextBytes :=
    congrArg (·.segmentPlaintextBytes) hsame
  have hkey : s'.kFek = s.kFek := congrArg (·.kFek) hsame
  have hready : s'.kFekReady = s.kFekReady := congrArg (·.kFekReady) hsame
  have hbuffer : s'.ciphertextPackBuffer = s.ciphertextPackBuffer :=
    congrArg (·.ciphertextPackBuffer) hsame
  have hremaining : s'.remainingPlaintext = s.remainingPlaintext :=
    congrArg (·.remainingPlaintext) hsame
  refine ⟨⟨hparts.trans h.sameParts, hmetadata.trans h.sameMetadata, hsize.trans h.size, ?_, ?_⟩,
    hbuffer, by rw [recordLength, recordLength, hsize, hremaining]⟩
  · rw [KeyReady, hready, hparts, hmetadata, hkey]
    exact h.key
  · rw [hbuffer, hremaining]
    exact h.opened

theorem decryptSegments_end {kFek : Bytes} {size fuel : Nat} :
    decryptSegments C kFek size fuel 0 stream = .ok text ↔
      ∃ pieces, Opened (decrypt C kFek) size 28 0 stream pieces 0 ∧ pieces.flatten = text := by
  rw [decryptSegments, throwIf_bind_eq_ok, not_not, pure_eq_ok, Except.ok.injEq]
  constructor
  · rintro ⟨rfl, rfl⟩
    exact ⟨[], .nil 0, rfl⟩
  · rintro ⟨pieces, hopened, rfl⟩
    cases hopened with
    | nil => exact ⟨rfl, rfl⟩
    | cons hn => exact absurd hn (Nat.lt_irrefl 0)

/-- The loop of the batch receiver opens the records one after another. -/
theorem decryptSegments_iff {kFek : Bytes} {size fuel : Nat} (hs : 0 < size) (hfuel : n ≤ fuel) :
    decryptSegments C kFek size fuel n stream = .ok text ↔
      ∃ pieces, Opened (decrypt C kFek) size 28 n stream pieces 0 ∧ pieces.flatten = text := by
  induction fuel generalizing n stream text with
  | zero =>
    obtain rfl : n = 0 := by omega
    exact decryptSegments_end
  | succ fuel ih =>
    cases n with
    | zero => exact decryptSegments_end
    | succ n =>
      rw [decryptSegments, throwIf_bind_eq_ok]
      dsimp only
      simp only [bind_eq_ok, throwIf_eq_ok, exists_const, pure_eq_ok, Except.ok.injEq, not_not,
        not_lt]
      constructor
      · rintro ⟨-, hlen, piece, hopen, hpiece, rest, hrest, rfl⟩
        rw [kGcmEnvelopeBytes_eq] at hlen hopen hrest
        obtain ⟨pieces, hopened, rfl⟩ := (ih (by omega)).mp hrest
        refine ⟨piece :: pieces, ?_, rfl⟩
        rw [← List.take_append_drop (min size (n + 1) + 28) stream]
        exact .cons (Nat.succ_pos n) (List.length_take_of_le hlen) hopen hpiece hopened
      · rintro ⟨pieces, hopened, rfl⟩
        cases hopened with
        | @cons _ _ record piece later pieces _ hrecord hopen hpiece hrest =>
          have htake : (record ++ later).take (min size (n + 1) + kGcmEnvelopeBytes) = record := by
            rw [kGcmEnvelopeBytes_eq, ← hrecord, List.take_left]
          have hdrop : (record ++ later).drop (min size (n + 1) + kGcmEnvelopeBytes) = later := by
            rw [kGcmEnvelopeBytes_eq, ← hrecord, List.drop_left]
          have hlen : min size (n + 1) + kGcmEnvelopeBytes ≤ (record ++ later).length := by
            rw [kGcmEnvelopeBytes_eq, List.length_append, hrecord]
            exact Nat.le_add_right _ _
          rw [htake, hdrop]
          refine ⟨?_, hlen, piece, hopen, hpiece, pieces.flatten, ?_, rfl⟩
          · intro hnil
            rw [hnil] at hlen
            exact absurd hlen (by simp)
          · exact (ih (by omega)).mpr ⟨pieces, hrest, rfl⟩

/-- What the ciphertext opens to under the file key of the SMB. -/
def OpensTo (C : Primitives) (parts : CredentialParts) (metadata : SmbMetadata) (padded : Nat)
    (stream plaintext : Bytes) : Prop :=
  ∃ kFek, unlock C parts metadata = .ok kFek ∧
    decryptPayloadForSegmentCode C kFek stream metadata padded = .ok plaintext

theorem opensTo_iff (hv : ValidCode metadata.segmentCode) (hcode : metadata.segmentCode ≠ 0)
    (hpos : 0 < padded) : OpensTo C parts metadata padded stream text ↔
      ∃ pieces, Records C parts metadata padded stream pieces 0 ∧ pieces.flatten = text := by
  have hmode : ¬ isV2WholeFileMode metadata.segmentCode = true := by
    simpa [isV2WholeFileMode, kV2SegmentCodeWholeFile] using hcode
  have hrecords : ∀ kFek, unlock C parts metadata = .ok kFek →
      openRecord C parts metadata = decrypt C kFek := by
    intro kFek hu
    funext record
    rw [openRecord, hu, ok_bind]
  have hdecrypt : ∀ kFek, decryptPayloadForSegmentCode C kFek stream metadata padded = .ok text ↔
      ∃ pieces, Opened (decrypt C kFek) (segmentBytes metadata.segmentCode) 28 padded stream pieces 0 ∧
        pieces.flatten = text := by
    intro kFek
    rw [decryptPayloadForSegmentCode, if_neg hmode, decryptPayloadV21Segmented,
      decode_ok _ (by omega) hv, ok_bind, decryptSegments_iff (segmentBytes_pos _) le_rfl]
  constructor
  · rintro ⟨kFek, hu, hopen⟩
    simp only [Records, hrecords kFek hu]
    exact (hdecrypt kFek).mp hopen
  · rintro ⟨pieces, hopened, htext⟩
    obtain ⟨record, piece, later, -, hopen, -, -⟩ := hopened.next hpos
    obtain ⟨kFek, hu, -⟩ := bind_eq_ok.mp hopen
    rw [Records, hrecords kFek hu] at hopened
    exact ⟨kFek, hu, (hdecrypt kFek).mpr ⟨pieces, hopened, htext⟩⟩

end TwelveC.ReceiveSession
