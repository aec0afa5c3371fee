import TwelveC.StreamingReceive
import TwelveC.Sender
import TwelveC.PlainCrypto
import TwelveC.Lib.Run

/-!
# Chunks before the end of a session

A caller may hand any octets under any index to a segmented session, ask for
chunks in between and go on after an exception. What it has been given is the
plaintext of the records that opened, in the order in which they came; nothing
else decides it before `complete_finalize`.
-/

namespace TwelveC.ReceiveSession

open Segment Merkle Smb Crypto Receiver Lib

/-- One call of a member function. -/
inductive EarlyCall where
  | token (tokenIndex : Nat) (wireData : Bytes)
  | take (maxBytes : Nat)
  deriving DecidableEq, Repr

/-- A session with the tokens it took in, those it threw at, and the chunks it gave. -/
structure EarlyRun where
  session : ReceiveDecryptSession
  accepted : List Bytes := []
  rejected : List Bytes := []
  taken : Bytes := []

/-- A caller that catches what is thrown. -/
def advance (C : Primitives) (run : EarlyRun) : EarlyCall → EarlyRun
  | .token tokenIndex wireData =>
    match addWireToken .native C tokenIndex wireData run.session with
    | .ok s => { run with session := s, accepted := run.accepted ++ [wireData] }
    | .error (_, s) => { run with session := s, rejected := run.rejected ++ [wireData] }
  | .take maxBytes =>
    match takePlaintextChunk maxBytes run.session with
    | .ok (chunk, s) => { run with session := s, taken := run.taken ++ chunk }
    | .error _ => run

variable {C : Primitives} {s s' : ReceiveDecryptSession} {parts : CredentialParts}
  {metadata : SmbMetadata} {padding padded : Nat} {text taken delivered wire : Bytes}
  {credential : Str} {token0 : Bytes} {fed : List Bytes} {run : EarlyRun}

/-- What `add_wire_token` checks before it feeds. -/
structure Admitted (s : ReceiveDecryptSession) (tokenIndex : Nat) (wire : Bytes) : Prop where
  next : tokenIndex = s.nextTokenIndex
  range : 0 < tokenIndex ∧ tokenIndex < s.metadata.numTokens
  size : wire.length = s.wireBlockSize

theorem addWireToken_admitted {tokenIndex : Nat} (hfinal : s.finalized = false)
    (h : Admitted s tokenIndex wire) :
    addWireToken .native C tokenIndex wire s =
      (feedCiphertext C wire { s with leafHashes := s.leafHashes.set (tokenIndex - 1) (C.sha256 wire) } >>=
        fun s => pure { s with nextTokenIndex := Machine.native.u32 (s.nextTokenIndex + 1) }) := by
  have hrange := h.range
  rw [addWireToken, throwIf_neg (by simp [hfinal]), thrownAt_ok_bind, throwIf_neg (by simp [h.next]),
    thrownAt_ok_bind, throwIf_neg (by omega), thrownAt_ok_bind, throwIf_neg (by simp [h.size]),
    thrownAt_ok_bind]

/-- A check that fails leaves the session alone. -/
theorem addWireToken_refused {tokenIndex : Nat} (h : ¬ Admitted s tokenIndex wire) :
    ∃ e, addWireToken .native C tokenIndex wire s = .error (e, s) := by
  rw [addWireToken]
  by_cases hfinal : s.finalized = true
  · rw [throwIf_pos hfinal]
    exact ⟨_, rfl⟩
  rw [throwIf_neg hfinal, thrownAt_ok_bind]
  by_cases hnext : tokenIndex ≠ s.nextTokenIndex
  · rw [throwIf_pos hnext]
    exact ⟨_, rfl⟩
  rw [throwIf_neg hnext, thrownAt_ok_bind]
  by_cases hrange : tokenIndex = 0 ∨ s.metadata.numTokens ≤ tokenIndex
  · rw [throwIf_pos hrange]
    exact ⟨_, rfl⟩
  rw [throwIf_neg hrange, thrownAt_ok_bind]
  by_cases hsize : wire.length ≠ s.wireBlockSize
  · rw [throwIf_pos hsize]
    exact ⟨_, rfl⟩
  · exact absurd ⟨not_not.mp hnext, by omega, not_not.mp hsize⟩ h

/-- The session has stopped in front of a record that does not open, within the token behind `fed`. -/
structure Stopped (C : Primitives) (parts : CredentialParts) (metadata : SmbMetadata) (token0 : Bytes)
    (padded : Nat) (fed : List Bytes) (consumed taken : Bytes) (s : ReceiveDecryptSession) : Prop where
  settings : settings s = settings (start parts metadata token0 padded)
  next : s.nextTokenIndex = fed.length + 1
  jammed : Jammed C s
  payload : ∃ text, Reading C parts metadata padded (fed.flatten ++ consumed) text s ∧
    Queue (padded - metadata.originalFileLength) text taken s

/-- The next token is taken in, or the session stops within it. -/
theorem addWireToken_running (hd : Described C credential token0 parts metadata padded)
    (hcode : metadata.segmentCode ≠ 0) (h : Running C parts metadata token0 padded fed taken s)
    (hnext : fed.length + 1 < metadata.numTokens) (hwire : wire.length = metadata.wireBlockSize) :
    (∃ s', addWireToken .native C (fed.length + 1) wire s = .ok s' ∧
      Running C parts metadata token0 padded (fed ++ [wire]) taken s') ∨
    ∃ e s' consumed, addWireToken .native C (fed.length + 1) wire s = .error (e, s') ∧
      consumed <+: wire ∧ Stopped C parts metadata token0 padded fed consumed taken s' := by
  have hadmitted : Admitted s (fed.length + 1) wire :=
    ⟨h.next.symm, ⟨Nat.succ_pos _, by rw [h.sameMetadata]; exact hnext⟩, by rw [h.block]; exact hwire⟩
  have hadd := addWireToken_admitted (C := C) h.finalized hadmitted
  have hmul : (fed.length + 1) * metadata.wireBlockSize ≤
      (metadata.numTokens - 1) * metadata.wireBlockSize := Nat.mul_le_mul_right _ (by omega)
  rw [Nat.add_mul, Nat.one_mul] at hmul
  have hlen : fed.flatten.length + wire.length ≤ cipherLength padded metadata.segmentCode := by
    rw [h.length_fed, hd.cipherLength_eq, ← hd.fills, hwire]
    omega
  cases h.payload with
  | whole hzero => exact absurd hzero hcode
  | segmented text _ hread hqueue hroom =>
    have hmode : isV21SegmentedMode s.metadata.segmentCode = true := by
      rw [h.sameMetadata]
      exact (segmentedMode_iff hd.valid).mpr hcode
    have hpos : wire.length ≠ 0 := by
      have hfloor := hd.floor
      omega
    generalize hleaves : s.leafHashes.set (fed.length + 1 - 1) (C.sha256 wire) = leaves at hadd
    have hfeed : feedCiphertext C wire { s with leafHashes := leaves } =
        feedSegments C (wire.length + 1) wire { s with leafHashes := leaves } := by
      rw [feedCiphertext, if_neg hpos, if_neg (not_not.mpr hmode)]
    rw [hfeed] at hadd
    rcases feedSegments_spec (s := { s with leafHashes := leaves }) _ hcode
      ⟨hread.sameParts, hread.sameMetadata, hread.size, hread.key, hread.opened⟩
      ⟨hqueue.normal, hqueue.produced, hqueue.consumed, hqueue.unread, hqueue.skip, hqueue.exported,
        hqueue.taken⟩ hroom hlen (Nat.lt_succ_self _) with
      ⟨s', text', hok, -⟩ | ⟨e, s', text', consumed, herr, hstart, hread', hqueue', hjam, hsame⟩
    · rw [hok, outcome_bind] at hadd
      rcases addWireToken_spec hd h hnext hwire with hrunning | ⟨e, s'', herr, -⟩
      · exact .inl hrunning
      · rw [hadd] at herr
        cases herr
    · rw [herr, outcome_error_bind] at hadd
      have hindex : s'.nextTokenIndex = s.nextTokenIndex := congrArg (·.nextTokenIndex) hsame
      exact .inr ⟨e, s', consumed, hadd, hstart, (settings_of_feed hsame).trans h.settings,
        hindex.trans h.next, hjam, text', hread', hqueue'⟩

/-- A session that has stopped throws at every token and stays as it is. -/
theorem addWireToken_stopped (hd : Described C credential token0 parts metadata padded)
    (hcode : metadata.segmentCode ≠ 0) {consumed : Bytes}
    (h : Stopped C parts metadata token0 padded fed consumed taken s) (tokenIndex : Nat)
    (wire : Bytes) : ∃ e s', addWireToken .native C tokenIndex wire s = .error (e, s') ∧
      Stopped C parts metadata token0 padded fed consumed taken s' := by
  by_cases hadmitted : Admitted s tokenIndex wire
  · obtain ⟨text, hread, hqueue⟩ := h.payload
    have hjam := h.jammed
    have hfinal : s.finalized = false := congrArg (·.finalized) h.settings
    have hblock : s.wireBlockSize = metadata.wireBlockSize := congrArg (·.wireBlockSize) h.settings
    have hmode : isV21SegmentedMode s.metadata.segmentCode = true := by
      rw [hread.sameMetadata]
      exact (segmentedMode_iff hd.valid).mpr hcode
    have hfloor := hd.floor
    have hsize := hadmitted.size
    have hfull : s.ciphertextPackBuffer.length =
        min s.segmentPlaintextBytes s.remainingPlaintext + 28 := hjam.full
    rw [addWireToken_admitted hfinal hadmitted]
    generalize s.leafHashes.set (tokenIndex - 1) (C.sha256 wire) = leaves
    obtain ⟨e, kFek, ready, hseg, hkey⟩ := openSegment_error (s := { s with leafHashes := leaves })
      (n := min s.segmentPlaintextBytes s.remainingPlaintext) hread.key hjam.refused
    -- nothing more fits into the buffer, and its record is tried again
    have hfeed : feedCiphertext C wire { s with leafHashes := leaves } =
        .error (e, { s with leafHashes := leaves, kFek := kFek, kFekReady := ready }) := by
      rw [feedCiphertext, if_neg (by omega), if_neg (not_not.mpr hmode)]
      cases wire with
      | nil =>
        rw [List.length_nil] at hsize
        omega
      | cons b data =>
        rw [feedSegments, kGcmEnvelopeBytes_eq]
        dsimp only
        rw [hfull, Nat.sub_self, List.take_zero, List.append_nil, if_neg (by omega)]
        rw [hseg, outcome_error_bind]
    rw [hfeed, outcome_error_bind]
    refine ⟨e, _, rfl, h.settings, h.next, ⟨hjam.full, hjam.more, hjam.refused⟩, text,
      ⟨hread.sameParts, hread.sameMetadata, hread.size, hkey, hread.opened⟩,
      ⟨hqueue.normal, hqueue.produced, hqueue.consumed, hqueue.unread, hqueue.skip, hqueue.exported,
        hqueue.taken⟩⟩
  · obtain ⟨e, herr⟩ := addWireToken_refused (C := C) hadmitted
    exact ⟨e, s, herr, h⟩

theorem Jammed.of_queue (h : Jammed C s) (hsame : apartFromQueue s' = apartFromQueue s) :
    Jammed C s' := by
  have hparts : s'.credentialParts = s.credentialParts := congrArg (·.credentialParts) hsame
  have hmetadata : s'.metadata = s.metadata := congrArg (·.metadata) hsame
  have hsize : s'.segmentPlaintextBytes = s.segmentPlaintextBytes :=
    congrArg (·.segmentPlaintextBytes) hsame
  have hbuffer : s'.ciphertextPackBuffer = s.ciphertextPackBuffer :=
    congrArg (·.ciphertextPackBuffer) hsame
  have hremaining : s'.remainingPlaintext = s.remainingPlaintext :=
    congrArg (·.remainingPlaintext) hsame
  refine ⟨?_, ?_, ?_⟩
  · rw [hbuffer, recordLength, hsize, hremaining]
    exact h.full
  · rw [hremaining]
    exact h.more
  · rw [hparts, hmetadata, hbuffer, hsize, hremaining]
    exact h.refused

/-- Where a caller can have brought a session. -/
inductive Early (C : Primitives) (parts : CredentialParts) (metadata : SmbMetadata) (token0 : Bytes)
    (padded : Nat) (run : EarlyRun) : Prop
  | running (h : Running C parts metadata token0 padded run.accepted run.taken run.session)
  | stopped (consumed : Bytes) (hconsumed : ∃ wire ∈ run.rejected, consumed <+: wire)
      (h : Stopped C parts metadata token0 padded run.accepted consumed run.taken run.session)

theorem takePlaintextChunk_segmented (hmetadata : s.metadata = metadata)
    (hv : ValidCode metadata.segmentCode) (hcode : metadata.segmentCode ≠ 0) (maxBytes : Nat) :
    takePlaintextChunk maxBytes s = .ok (drainReadyQueue maxBytes s) := by
  rw [takePlaintextChunk, hmetadata, if_pos ((segmentedMode_iff hv).mpr hcode)]

/-- Whatever a caller asks for, it is given the next octets of the file part. -/
theorem Running.take (hd : Described C credential token0 parts metadata padded)
    (hcode : metadata.segmentCode ≠ 0) (h : Running C parts metadata token0 padded fed taken s)
    (maxBytes : Nat) : ∃ chunk s', takePlaintextChunk maxBytes s = .ok (chunk, s') ∧
      Running C parts metadata token0 padded fed (taken ++ chunk) s' := by
  by_cases hmax : maxBytes = 0
  · refine ⟨[], s, ?_, by rwa [List.append_nil]⟩
    rw [takePlaintextChunk_segmented h.sameMetadata hd.valid hcode, drainReadyQueue, if_pos hmax]
  · exact takePlaintextChunk_spec hd h hcode (by omega)

theorem Stopped.take (hd : Described C credential token0 parts metadata padded)
    (hcode : metadata.segmentCode ≠ 0) {consumed : Bytes}
    (h : Stopped C parts metadata token0 padded fed consumed taken s) (maxBytes : Nat) :
    ∃ chunk s', takePlaintextChunk maxBytes s = .ok (chunk, s') ∧
      Stopped C parts metadata token0 padded fed consumed (taken ++ chunk) s' := by
  have hmetadata : s.metadata = metadata := congrArg (·.metadata) h.settings
  refine ⟨(drainReadyQueue maxBytes s).1, (drainReadyQueue maxBytes s).2,
    takePlaintextChunk_segmented hmetadata hd.valid hcode maxBytes, ?_⟩
  by_cases hmax : maxBytes = 0
  · have hnone : drainReadyQueue maxBytes s = ([], s) := by rw [drainReadyQueue, if_pos hmax]
    rw [hnone, List.append_nil]
    exact h
  · obtain ⟨text, hread, hqueue⟩ := h.payload
    obtain ⟨-, hqueue', hsame⟩ := drainReadyQueue_spec hqueue (by omega : 0 < maxBytes)
    have hnext : (drainReadyQueue maxBytes s).2.nextTokenIndex = s.nextTokenIndex :=
      congrArg (·.nextTokenIndex) hsame
    exact ⟨(settings_of_queue hsame).trans h.settings, hnext.trans h.next, h.jammed.of_queue hsame, text,
      (hread.of_queue hsame).1, hqueue'⟩

theorem Early.take (hd : Described C credential token0 parts metadata padded)
    (hcode : metadata.segmentCode ≠ 0) (h : Early C parts metadata token0 padded run)
    (maxBytes : Nat) : Early C parts metadata token0 padded (advance C run (.take maxBytes)) := by
  rw [advance]
  cases h with
  | running h =>
    obtain ⟨chunk, s', hchunk, hrunning⟩ := h.take hd hcode maxBytes
    rw [hchunk]
    exact .running hrunning
  | stopped consumed hconsumed h =>
    obtain ⟨chunk, s', hchunk, hstopped⟩ := h.take hd hcode maxBytes
    rw [hchunk]
    exact .stopped consumed hconsumed hstopped

theorem Early.token (hd : Described C credential token0 parts metadata padded)
    (hcode : metadata.segmentCode ≠ 0) (h : Early C parts metadata token0 padded run)
    (tokenIndex : Nat) (wire : Bytes) :
    Early C parts metadata token0 padded (advance C run (.token tokenIndex wire)) := by
  rw [advance]
  cases h with
  | stopped consumed hconsumed h =>
    obtain ⟨e, s', herr, hstopped⟩ := addWireToken_stopped hd hcode h tokenIndex wire
    obtain ⟨earlier, hmem, hstart⟩ := hconsumed
    rw [herr]
    exact .stopped consumed ⟨earlier, List.mem_append_left _ hmem, hstart⟩ hstopped
  | running h =>
    by_cases hadmitted : Admitted run.session tokenIndex wire
    · have hindex := hadmitted.next.trans h.next
      have hrange := hadmitted.range.2
      rw [h.sameMetadata, hindex] at hrange
      rw [hindex]
      rcases addWireToken_running hd hcode h hrange (hadmitted.size.trans h.block) with
        ⟨s', hok, hrunning⟩ | ⟨e, s', consumed, herr, hstart, hstopped⟩
      · rw [hok]
        exact .running hrunning
      · rw [herr]
        exact .stopped consumed ⟨wire, List.mem_append_right _ (List.mem_singleton_self wire), hstart⟩
          hstopped
    · obtain ⟨e, herr⟩ := addWireToken_refused (C := C) hadmitted
      rw [herr]
      exact .running h

theorem Early.step (hd : Described C credential token0 parts metadata padded)
    (hcode : metadata.segmentCode ≠ 0) (h : Early C parts metadata token0 padded run)
    (call : EarlyCall) : Early C parts metadata token0 padded (advance C run call) := by
  cases call with
  | token tokenIndex wireData => exact h.token hd hcode tokenIndex wireData
  | take maxBytes => exact h.take hd hcode maxBytes

theorem early_exec (hd : Described C credential token0 parts metadata padded)
    (hcode : metadata.segmentCode ≠ 0) (h : Early C parts metadata token0 padded run)
    (calls : List EarlyCall) :
    Early C parts metadata token0 padded (Run.exec (advance C) run calls) :=
  Run.exec_invariant (P := fun _ _ => True) (fun _ call hearly _ => hearly.step hd hcode call) h
    (Run.along_of_forall (fun _ _ => trivial) _ _)

/-- The records that opened so far: they are the front of the tokens taken in and, in a session that
has stopped, of a token that it threw at. -/
structure OpenedSoFar (C : Primitives) (begun : ReceiveDecryptSession) (run : EarlyRun)
    (pieces : List Bytes) : Prop where
  records : ∃ stream consumed, Records C begun.credentialParts begun.metadata
      begun.paddedPlaintextLength stream pieces run.session.remainingPlaintext ∧
    stream ++ run.session.ciphertextPackBuffer = run.accepted.flatten ++ consumed ∧
    (consumed = [] ∨ ∃ wire ∈ run.rejected, consumed <+: wire)
  taken : run.taken <+:
    pieces.flatten.drop (begun.paddedPlaintextLength - begun.originalFileLength)

/-- Whatever calls are made, the chunks are the start of the opened plaintext behind the padding. -/
theorem early_chunks (C : Primitives) (credential : Str) (token0 : Bytes)
    (begun : ReceiveDecryptSession) (calls : List EarlyCall)
    (hnew : new .native C credential token0 = .ok begun) (hcode : begun.metadata.segmentCode ≠ 0) :
    ∃ pieces, OpenedSoFar C begun (Run.exec (advance C) { session := begun } calls) pieces := by
  obtain ⟨parts, metadata, padded, hd, rfl⟩ := new_eq_ok.mp hnew
  have hbegun : Early C parts metadata token0 padded { session := start parts metadata token0 padded } :=
    .running (start_running hd)
  have hearly := early_exec hd hcode hbegun calls
  generalize Run.exec (advance C) { session := start parts metadata token0 padded } calls = run at *
  cases hearly with
  | running h =>
    cases h.payload with
    | whole hzero => exact absurd hzero hcode
    | segmented text _ hread hqueue hroom =>
      obtain ⟨stream, pieces, hsplit, hrecords, rfl⟩ := hread.opened
      exact ⟨pieces, ⟨stream, [], hrecords, by rw [List.append_nil, hsplit], .inl rfl⟩,
        hqueue.taken_start⟩
  | stopped consumed hconsumed h =>
    obtain ⟨text, hread, hqueue⟩ := h.payload
    obtain ⟨stream, pieces, hsplit, hrecords, rfl⟩ := hread.opened
    exact ⟨pieces, ⟨stream, consumed, hrecords, hsplit.symm, .inr hconsumed⟩, hqueue.taken_start⟩

open PlainCrypto Sender

/-- A segmented file of 345 octets is one record, which fills token 1. -/
def oneRecord : Except Exn (UploadMap × Bytes) :=
  prepareUpload .native plain (List.replicate 345 5) (ascii "abcdefghijkl") (ascii "a.txt") 1 373
    (List.replicate 200 7)

/-- Under `plain` any octets open. -/
def forged : Bytes := List.replicate 28 0 ++ List.replicate 345 6

def opensForged (begun : ReceiveDecryptSession) : Bool :=
  openRecord plain begun.credentialParts begun.metadata forged = .ok (List.replicate 345 6) ∧
    begun.metadata.segmentCode = 1 ∧ begun.paddedPlaintextLength = 345 ∧
    begun.originalFileLength = 345 ∧ begun.wireBlockSize = 373 ∧ begun.metadata.numTokens = 2

def beginOneRecord : Except Exn ReceiveDecryptSession := do
  let (uploads, _) ← oneRecord
  let token0 ← lookupUpload uploads (makeToken plain (ascii "abcdef") 0)
  new .native plain (ascii "abcdefghijkl") token0

theorem oneRecord_begins : ∃ token0 begun, new .native plain (ascii "abcdefghijkl") token0 = .ok begun ∧
    opensForged begun = true := by
  have hrun : beginOneRecord.map opensForged = .ok true := by decide +kernel
  obtain ⟨begun, hbegun, hopens⟩ := map_ok_iff.mp hrun
  simp only [beginOneRecord, bind_eq_ok] at hbegun
  obtain ⟨_, -, token0, -, hnew⟩ := hbegun
  exact ⟨token0, begun, hnew, hopens⟩

/-- A foreign index is refused, and the record under the right one is opened. -/
theorem early_chunks_forged : ∃ token0 begun pieces,
    new .native plain (ascii "abcdefghijkl") token0 = .ok begun ∧
    OpenedSoFar plain begun (Run.exec (advance plain) { session := begun }
      [.take 3, .token 5 forged, .token 1 forged, .take 10]) pieces := by
  obtain ⟨token0, begun, hnew, hopens⟩ := oneRecord_begins
  obtain ⟨-, hcode, -⟩ := of_decide_eq_true hopens
  obtain ⟨pieces, hpieces⟩ := early_chunks plain (ascii "abcdefghijkl") token0 begun
    [.take 3, .token 5 forged, .token 1 forged, .take 10] hnew (by omega)
  exact ⟨token0, begun, pieces, hnew, hpieces⟩

/-- The calls that feed these tokens, from an index on. -/
def tokenCalls : Nat → List Bytes → List EarlyCall
  | _, [] => []
  | tokenIndex, wire :: wires => .token tokenIndex wire :: tokenCalls (tokenIndex + 1) wires

/-- A session cannot stop within a stream whose records open. -/
theorem Stopped.not_records {stream rest consumed : Bytes} {pieces : List Bytes} {r : Nat}
    (h : Stopped C parts metadata token0 padded fed consumed taken s)
    (hrecords : Records C parts metadata padded stream pieces r)
    (hrest : rest.length < min (segmentBytes metadata.segmentCode) r + 28) :
    ¬ fed.flatten ++ consumed <+: stream ++ rest := by
  rintro ⟨tail, htail⟩
  obtain ⟨text, hread, -⟩ := h.payload
  obtain ⟨opened, openedPieces, hsplit, hopened, -⟩ := hread.opened
  rw [hsplit, List.append_assoc] at htail
  obtain ⟨between, others, -, hcut, -, hbetween⟩ := hopened.upTo hrecords htail hrest
  have hfull := h.jammed.full
  have hmore := h.jammed.more
  rw [recordLength, hread.size] at hfull
  generalize hremaining : s.remainingPlaintext = remaining at *
  generalize hbuffer : s.ciphertextPackBuffer = buffer at *
  cases hbetween with
  | nil =>
    have hlen := congrArg List.length hcut
    rw [List.length_append, List.length_append, List.length_nil] at hlen
    omega
  | cons hn hrecord hopen hpiece _ =>
    rw [List.append_assoc] at hcut
    obtain ⟨rfl, -⟩ := List.append_inj hcut (hfull.trans hrecord.symm)
    rw [← hread.sameParts, ← hread.sameMetadata, ← hbuffer] at hopen
    rw [← hread.size, ← hremaining] at hpiece
    exact h.jammed.refused _ hopen hpiece

variable (run) in
theorem tokens_taken_in (hd : Described C credential token0 parts metadata padded)
    (hcode : metadata.segmentCode ≠ 0) {stream rest : Bytes} {pieces : List Bytes} {r : Nat}
    (hrecords : Records C parts metadata padded stream pieces r)
    (hrest : rest.length < min (segmentBytes metadata.segmentCode) r + 28) (wires : List Bytes)
    (h : Running C parts metadata token0 padded run.accepted run.taken run.session)
    (hstream : run.accepted.flatten ++ wires.flatten = stream ++ rest)
    (hfull : ∀ wire ∈ wires, wire.length = metadata.wireBlockSize)
    (hcount : run.accepted.length + wires.length < metadata.numTokens) :
    ∃ s', Run.exec (advance C) run (tokenCalls (run.accepted.length + 1) wires) =
        { run with session := s', accepted := run.accepted ++ wires } ∧
      Running C parts metadata token0 padded (run.accepted ++ wires) run.taken s' := by
  induction wires generalizing run with
  | nil =>
    rw [List.append_nil]
    exact ⟨run.session, rfl, h⟩
  | cons wire wires ih =>
    rw [List.length_cons] at hcount
    rw [List.flatten_cons] at hstream
    rcases addWireToken_running hd hcode h (by omega) (hfull wire List.mem_cons_self) with
      ⟨s₁, hok, hrunning⟩ | ⟨e, s₁, consumed, -, hstart, hstopped⟩
    · have hnext : advance C run (.token (run.accepted.length + 1) wire) =
          { run with session := s₁, accepted := run.accepted ++ [wire] } := by
        rw [advance, hok]
      obtain ⟨s', hexec, hlast⟩ := ih
        { run with session := s₁, accepted := run.accepted ++ [wire] } hrunning
        (by rw [List.flatten_append, List.flatten_singleton, List.append_assoc, hstream])
        (fun w hw => hfull w (List.mem_cons_of_mem _ hw))
        (by rw [List.length_append, List.length_singleton]; omega)
      rw [List.length_append, List.length_singleton, List.append_assoc, List.singleton_append] at hexec
      rw [List.append_assoc, List.singleton_append] at hlast
      rw [tokenCalls, Run.exec_cons, hnext]
      exact ⟨s', hexec, hlast⟩
    · refine absurd ?_ (hstopped.not_records hrecords hrest)
      rw [← hstream]
      exact (List.prefix_append_right_inj _).mpr (hstart.trans (List.prefix_append _ _))

/-- Any stream of records that open, in whatever order the relays put them, is handed out at once. -/
theorem early_released (C : Primitives) (credential : Str) (token0 : Bytes)
    (begun : ReceiveDecryptSession) (wires pieces : List Bytes) (stream rest : Bytes)
    (r maxBytes : Nat)
    (hnew : new .native C credential token0 = .ok begun) (hcode : begun.metadata.segmentCode ≠ 0)
    (hrecords : Records C begun.credentialParts begun.metadata begun.paddedPlaintextLength stream
      pieces r)
    (hrest : rest.length < min (segmentBytes begun.metadata.segmentCode) r + 28)
    (hwires : wires.flatten = stream ++ rest)
    (hfull : ∀ wire ∈ wires, wire.length = begun.wireBlockSize)
    (hcount : wires.length < begun.metadata.numTokens) (hmax : 0 < maxBytes) :
    (Run.exec (advance C) { session := begun } (tokenCalls 1 wires ++ [.take maxBytes])).taken =
      (pieces.flatten.drop (begun.paddedPlaintextLength - begun.originalFileLength)).take
        maxBytes := by
  obtain ⟨parts, metadata, padded, hd, rfl⟩ := new_eq_ok.mp hnew
  obtain ⟨s', hexec, h⟩ := tokens_taken_in { session := start parts metadata token0 padded } hd hcode
    hrecords hrest wires (start_running hd) hwires hfull
    (by rw [List.length_nil, Nat.zero_add]; exact hcount)
  have hfirst : tokenCalls 1 wires = tokenCalls (([] : List Bytes).length + 1) wires := rfl
  rw [Run.exec_append, hfirst, hexec, Run.exec_cons, Run.exec_nil, advance]
  dsimp only
  rw [takePlaintextChunk_segmented h.sameMetadata hd.valid hcode]
  cases h.payload with
  | whole hzero => exact absurd hzero hcode
  | segmented text _ hread hqueue hroom =>
    obtain ⟨hchunk, -, -⟩ := drainReadyQueue_spec hqueue hmax
    obtain ⟨opened, openedPieces, hsplit, hopened, rfl⟩ := hread.opened
    have htail : opened ++ s'.ciphertextPackBuffer = stream ++ rest := hsplit.symm.trans hwires
    obtain ⟨between, others, -, hcut, rfl, hbetween⟩ := hopened.upTo hrecords htail hrest
    rw [recordLength, hread.size] at hroom
    generalize s'.remainingPlaintext = remaining at *
    cases hbetween with
    | nil =>
      dsimp only
      rw [hchunk, List.append_nil, List.nil_append]
      rfl
    | cons hn hrecord _ _ _ =>
      have hlen := congrArg List.length hcut
      rw [List.length_append, List.length_append, hrecord] at hlen
      omega

theorem early_released_forged : ∃ token0 begun,
    new .native plain (ascii "abcdefghijkl") token0 = .ok begun ∧
    (Run.exec (advance plain) { session := begun } (tokenCalls 1 [forged] ++ [.take 345])).taken =
      (([List.replicate 345 6] : List Bytes).flatten.drop
        (begun.paddedPlaintextLength - begun.originalFileLength)).take 345 := by
  obtain ⟨token0, begun, hnew, hopens⟩ := oneRecord_begins
  obtain ⟨hopen, hcode, hpadded, horiginal, hblock, htokens⟩ := of_decide_eq_true hopens
  have hsize : min (segmentBytes begun.metadata.segmentCode) begun.paddedPlaintextLength = 345 := by
    rw [hcode, hpadded]
    decide
  have hlength : forged.length = 373 := by
    rw [forged, List.length_append, List.length_replicate, List.length_replicate]
  have hrecords : Records plain begun.credentialParts begun.metadata begun.paddedPlaintextLength
      forged [List.replicate 345 6] (begun.paddedPlaintextLength -
        min (segmentBytes begun.metadata.segmentCode) begun.paddedPlaintextLength) :=
    Opened.single (by rw [hpadded]; decide) (by rw [hsize, hlength]) hopen
      (by rw [hsize, List.length_replicate])
  exact ⟨token0, begun, hnew, early_released plain (ascii "abcdefghijkl") token0 begun [forged]
    [List.replicate 345 6] forged [] _ 345 hnew (by omega) hrecords (Nat.succ_pos _)
    (by rw [List.flatten_singleton, List.append_nil])
    (fun wire hwire => by rw [List.mem_singleton.mp hwire, hlength, hblock])
    (by rw [htokens]; decide) (by decide)⟩

end TwelveC.ReceiveSession
