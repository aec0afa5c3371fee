import TwelveC.TamperedBlocks

/-!
# The one-call end of a session

`finalize` ends a session and drains it in one call. It is the batch receiver
for a caller that has taken nothing yet; after an early chunk it throws, for the
length that it checks is that of the whole file.
-/

namespace TwelveC.ReceiveSession

open Segment Merkle Smb Crypto Receiver Lib

section receiver

variable (M : Machine) (C : Primitives) (uploads : UploadMap)

/-- The session when the calls have been made, with the chunks taken by them. -/
def fedSession (credential : Str) (calls : List Call) : Except Exn (ReceiveDecryptSession × Bytes) := do
  let s ← openSession M C uploads credential
  calls.foldlM (call M C uploads) (s, [])

/-- A session that is ended by `finalize`. -/
def finalizedAfter (credential : Str) (calls : List Call) : Except Exn Bytes := do
  let (s, _) ← fedSession M C uploads credential calls
  let (output, _) ← (finalize M C s).mapError Prod.fst
  return output

end receiver

variable {C : Primitives} {uploads : UploadMap} {credential : Str} {token0 : Bytes}
  {parts : CredentialParts} {metadata : SmbMetadata} {padded : Nat} {s s' : ReceiveDecryptSession}
  {plaintext taken : Bytes}

/-- Where the computation ends, the file length is this one. -/
def KeepsLength (n : Nat) (x : Outcome) : Prop := ∀ s, x = .ok s → s.originalFileLength = n

variable {n : Nat}

theorem KeepsLength.ok (h : s.originalFileLength = n) : KeepsLength n (.ok s) := by
  intro s' heq
  rw [← Except.ok.inj heq]
  exact h

theorem KeepsLength.error (e : Exn × ReceiveDecryptSession) : KeepsLength n (.error e) := by
  intro s' heq
  cases heq

theorem KeepsLength.bind {x : Outcome} {f : ReceiveDecryptSession → Outcome} (hx : KeepsLength n x)
    (hf : ∀ s₁, s₁.originalFileLength = n → KeepsLength n (f s₁)) : KeepsLength n (x >>= f) := by
  intro s' heq
  obtain ⟨s₁, hok, hrest⟩ := bind_ok_iff.mp heq
  exact hf s₁ (hx s₁ hok) s' hrest

/-- A check or a computation that may throw comes first. -/
theorem KeepsLength.thrown {α : Type} {x : Except Exn α} {f : α → Outcome}
    (hf : ∀ a, KeepsLength n (f a)) : KeepsLength n (thrownAt s x >>= f) := by
  cases x with
  | ok a => exact hf a
  | error e => exact .error _

theorem readyFek_length : KeepsLength s.originalFileLength (readyFek C s) := by
  rw [readyFek]
  split
  · exact .ok rfl
  · exact .thrown fun kFek => .ok rfl

theorem openSegment_length (length : Nat) :
    KeepsLength s.originalFileLength (openSegment C length s) :=
  readyFek_length.bind fun _ h => .thrown fun _ => .thrown fun _ => .ok h

theorem feedSegments_length (fuel : Nat) (data : Bytes) :
    KeepsLength s.originalFileLength (feedSegments C fuel data s) := by
  induction fuel generalizing data s with
  | zero =>
    cases data with
    | nil => exact .ok rfl
    | cons => exact .error _
  | succ fuel ih =>
    cases data with
    | nil => exact .ok rfl
    | cons b data =>
      rw [feedSegments]
      dsimp only
      split
      · exact .ok rfl
      · refine (openSegment_length _).bind fun s₁ h => ?_
        have hrest := ih (s := s₁)
        rw [h] at hrest
        exact hrest _

theorem feedCiphertext_length (data : Bytes) :
    KeepsLength s.originalFileLength (feedCiphertext C data s) := by
  rw [feedCiphertext]
  split
  · exact .ok rfl
  · split
    · exact .ok rfl
    · exact feedSegments_length _ _

theorem feedLastLogicalBlock_length :
    KeepsLength s.originalFileLength (feedLastLogicalBlock .native C s) := by
  rw [feedLastLogicalBlock]
  split
  · exact .ok rfl
  · exact .thrown fun block => (feedCiphertext_length block).bind fun _ h => .ok h

theorem finishWholeFile_length : KeepsLength s.originalFileLength (finishWholeFile C s) :=
  readyFek_length.bind fun _ h => .thrown fun _ => .thrown fun _ => .ok h

theorem finishSegmented_length : KeepsLength s.originalFileLength (finishSegmented s) :=
  .thrown fun _ => .thrown fun _ => .thrown fun _ => .thrown fun _ => .ok rfl

theorem completeFinalize_length : KeepsLength s.originalFileLength (completeFinalize .native C s) := by
  refine .thrown fun _ => .thrown fun _ => feedLastLogicalBlock_length.bind fun s₁ h => .thrown fun _ => ?_
  dsimp only
  rw [← h]
  split
  · exact finishWholeFile_length.bind fun _ h₂ => .ok h₂
  · exact finishSegmented_length.bind fun _ h₂ => .ok h₂

theorem advanceReadyFront_length (k : Nat) :
    (advanceReadyFront k s).originalFileLength = s.originalFileLength := by
  rw [advanceReadyFront]
  split <;> rfl

theorem drainLoop_length (max fuel : Nat) (output : Bytes) :
    (drainLoop max fuel output s).2.originalFileLength = s.originalFileLength := by
  induction fuel generalizing output s with
  | zero => rfl
  | succ fuel ih =>
    rw [drainLoop]
    split
    · split
      · rfl
      · dsimp only
        split
        · exact ih _
        · split
          · exact (ih _).trans (advanceReadyFront_length _)
          · exact (ih _).trans (advanceReadyFront_length _)
    · rfl

theorem takePlaintextChunk_length {maxBytes : Nat} {chunk : Bytes}
    (h : takePlaintextChunk maxBytes s = .ok (chunk, s')) :
    s'.originalFileLength = s.originalFileLength := by
  rw [takePlaintextChunk] at h
  split at h
  · rw [Except.ok.injEq, drainReadyQueue] at h
    split at h
    · rw [← (Prod.mk.inj h).2]
    · rw [← (Prod.mk.inj h).2]
      exact drainLoop_length _ _ _
  · rw [throwIf_bind_eq_ok, pure_eq_ok, Except.ok.injEq] at h
    rw [← (Prod.mk.inj h.2).2]

/-- What a finished session has left. -/
theorem Done.remaining (hv : ValidCode metadata.segmentCode)
    (h : Done metadata padded plaintext taken s) :
    taken.length + remainingFileBytes s =
      (plaintext.drop (padded - metadata.originalFileLength)).length := by
  have hmode := segmentedMode_iff hv
  rw [remainingFileBytes, h.sameMetadata]
  cases h.left with
  | whole hcode hbuffer htaken =>
    have hlen := congrArg List.length htaken
    rw [List.length_take] at hlen
    rw [if_neg (by rw [hmode]; exact not_not.mpr hcode), hbuffer, List.length_drop]
    omega
  | segmented hcode hqueue =>
    rw [if_pos (hmode.mpr hcode), hqueue.fileAvailable, List.length_drop]

theorem finalizeLoop_end {fuel : Nat} {output : Bytes} (h : remainingFileBytes s = 0) :
    finalizeLoop (fuel + 1) output s = .ok (output, s) := by
  rw [finalizeLoop, if_pos h]

/-- The loop drains what is left of the file. -/
theorem Done.drain (hv : ValidCode metadata.segmentCode)
    (h : Done metadata padded plaintext taken s) :
    ∃ s', finalizeLoop (remainingFileBytes s + 1) [] s =
        .ok ((plaintext.drop (padded - metadata.originalFileLength)).drop taken.length, s') ∧
      s'.originalFileLength = s.originalFileLength := by
  have hlen := h.remaining hv
  by_cases hzero : remainingFileBytes s = 0
  · rw [finalizeLoop_end hzero, List.drop_of_length_le (by omega)]
    exact ⟨s, rfl, rfl⟩
  · obtain ⟨n, hn⟩ : ∃ n, remainingFileBytes s = n + 1 := ⟨remainingFileBytes s - 1, by omega⟩
    obtain ⟨s₁, htake, hdone⟩ := h.take hv (show 0 < max (remainingFileBytes s) 1 by omega)
    have hlen₁ := hdone.remaining hv
    generalize plaintext.drop (padded - metadata.originalFileLength) = file at *
    have hall : (file.drop taken.length).take (max (remainingFileBytes s) 1) =
        file.drop taken.length := by
      rw [List.take_of_length_le]
      rw [List.length_drop]
      omega
    rw [hall] at htake hlen₁
    have hne : file.drop taken.length ≠ [] := by
      refine List.ne_nil_of_length_pos ?_
      rw [List.length_drop]
      omega
    have hend : remainingFileBytes s₁ = 0 := by
      rw [List.length_append, List.length_drop] at hlen₁
      omega
    have hkept := takePlaintextChunk_length htake
    refine ⟨s₁, ?_, hkept⟩
    rw [finalizeLoop, if_neg hzero, htake, ok_bind]
    dsimp only
    rw [if_neg hne, hn, finalizeLoop_end hend, List.nil_append]

/-- Of a finished session the whole file comes out, or nothing if a chunk is gone. -/
theorem Done.finalize_eq_ok {begun : ReceiveDecryptSession} (hv : ValidCode metadata.segmentCode)
    (h : Done metadata padded plaintext taken s) (hfinal : completeFinalize .native C begun = .ok s)
    (hlength : (plaintext.drop (padded - metadata.originalFileLength)).length =
      begun.originalFileLength) {output : Bytes} :
    (∃ s', finalize .native C begun = .ok (output, s')) ↔
      output = plaintext.drop (padded - metadata.originalFileLength) ∧ taken = [] := by
  obtain ⟨s₁, hdrain, hkept⟩ := h.drain hv
  have hlen := h.remaining hv
  have hsame := hkept.trans (completeFinalize_length s hfinal)
  generalize plaintext.drop (padded - metadata.originalFileLength) = file at *
  rw [finalize, hfinal, bind_of_ok rfl, hdrain, thrownAt_ok_bind]
  dsimp only
  rw [hsame, List.length_drop, hlength]
  cases taken with
  | nil =>
    rw [throwIf_neg (by simp), thrownAt_ok_bind]
    constructor
    · rintro ⟨s', hok⟩
      exact ⟨(Prod.mk.inj (Except.ok.inj hok)).1.symm, rfl⟩
    · rintro ⟨rfl, -⟩
      exact ⟨s₁, rfl⟩
  | cons b taken =>
    rw [List.length_cons] at hlen ⊢
    rw [throwIf_pos (by omega), thrownAt_error_bind]
    simp

theorem streamed_eq_fed (calls : List Call) : streamed .native C uploads credential calls =
    (fedSession .native C uploads credential calls >>= fun fed =>
      (completeFinalize .native C fed.1).mapError Prod.fst >>= fun s => pure (s, fed.2)) := by
  rw [streamed, fedSession, bind_assoc]

/-- The session that `finalize` is called on. -/
theorem fedSession_running {calls : List Call}
    (hcalls : ∀ s, openSession .native C uploads credential = .ok s → InOrder s.metadata calls)
    (h : fedSession .native C uploads credential calls = .ok (s, taken)) :
    ∃ token0 parts metadata padded fed, Described C credential token0 parts metadata padded ∧
      lookupUpload uploads (makeToken C parts.searchCode 0) = .ok token0 ∧
      Running C parts metadata token0 padded fed taken s := by
  obtain ⟨begun, hopen, hfeeds⟩ := bind_eq_ok.mp h
  have horder := hcalls begun hopen
  obtain ⟨token0, parts, metadata, padded, hd, hfound, rfl⟩ := openSession_eq_ok.mp hopen
  have hpos := hd.tokens
  have hcount : calls.count .feed = metadata.numTokens - 1 := horder.feeds
  rcases calls_spec hd calls (start_running hd) (fun _ _ h => by cases h)
      (by rw [List.length_nil]; omega) horder.takes with
    ⟨fed, taken', s', hok, hrunning, -, -⟩ | ⟨⟨e, herr⟩, -⟩
  · obtain ⟨rfl, rfl⟩ := Prod.mk.inj (Except.ok.inj (hfeeds.symm.trans hok))
    exact ⟨token0, parts, metadata, padded, fed, hd, hfound, hrunning⟩
  · rw [hfeeds] at herr
    cases herr

/-- What `finalize` returns on a session that `complete_finalize` ends. -/
theorem finalize_of_streamed {calls : List Call}
    (hcalls : ∀ s, openSession .native C uploads credential = .ok s → InOrder s.metadata calls)
    (hfed : fedSession .native C uploads credential calls = .ok (s, taken))
    (hfinal : completeFinalize .native C s = .ok s') :
    ∃ token0 parts metadata padded leading plaintext,
      Stored C uploads credential token0 parts metadata padded leading ∧
      Accepts C parts metadata padded (leading.map C.sha256 ++ [lastLeaf C (token0.drop 373)])
        (leading.flatten ++ token0.drop 373) plaintext ∧
      ∀ output, (∃ s'', finalize .native C s = .ok (output, s'')) ↔
        output = plaintext.drop (padded - metadata.originalFileLength) ∧ taken = [] := by
  have hrun : streamed .native C uploads credential calls = .ok (s', taken) := by
    rw [streamed_eq_fed, hfed, ok_bind, hfinal]
    rfl
  obtain ⟨token0, parts, metadata, padded, leading, plaintext, hstored, haccepts, hdone⟩ :=
    streamed_done hcalls hrun
  obtain ⟨token0', parts', metadata', padded', fed, hd, hfound, hrunning⟩ :=
    fedSession_running hcalls hfed
  obtain rfl := Except.ok.inj (hstored.described.split.symm.trans hd.split)
  obtain rfl := Except.ok.inj (hstored.token0.symm.trans hfound)
  obtain rfl := Except.ok.inj (hstored.described.parse.symm.trans hd.parse)
  have hlength : s.originalFileLength = metadata.originalFileLength :=
    congrArg (·.originalFileLength) hrunning.settings
  have hfile := hd.file
  refine ⟨token0, parts, metadata, padded, leading, plaintext, hstored, haccepts, fun output => ?_⟩
  refine hdone.finalize_eq_ok hstored.described.valid hfinal ?_
  have hpadded := Except.ok.inj (hstored.described.length.symm.trans hd.length)
  rw [List.length_drop, haccepts.2.length hstored.described, hlength, hpadded]
  omega

/-- `finalize` returns the file that the batch receiver returns, to callers that have taken no chunk
before, and to no other. -/
theorem finalize_as_batch (C : Primitives) (uploads : UploadMap) (credential : Str)
    (calls : List Call) (output : Bytes) (hempty : ¬ EmptyLastBlock C uploads credential)
    (hcalls : ∀ s, openSession .native C uploads credential = .ok s → InOrder s.metadata calls) :
    finalizedAfter .native C uploads credential calls = .ok output ↔
      receiveFromUploadMap .native C credential uploads = .ok output ∧
        ∃ s, fedSession .native C uploads credential calls = .ok (s, []) := by
  constructor
  · intro h
    obtain ⟨⟨s, taken⟩, hfed, hrest⟩ := bind_eq_ok.mp h
    obtain ⟨⟨output', s₁⟩, hmapped, houtput⟩ := bind_eq_ok.mp hrest
    obtain rfl : output' = output := Except.ok.inj houtput
    have hfinalize := mapError_ok_iff.mp hmapped
    obtain ⟨s', hfinal, -⟩ := bind_ok_iff.mp hfinalize
    obtain ⟨token0, parts, metadata, padded, leading, plaintext, hstored, haccepts, hiff⟩ :=
      finalize_of_streamed hcalls hfed hfinal
    obtain ⟨rfl, rfl⟩ := (hiff output').mp ⟨s₁, hfinalize⟩
    exact ⟨receiveFromUploadMap_eq_ok.mpr ⟨token0, parts, metadata, padded, leading, plaintext, hstored,
      (accepts_iff hempty hstored).mp haccepts, rfl⟩, s, hfed⟩
  · rintro ⟨hbatch, s, hfed⟩
    obtain ⟨token0, parts, metadata, padded, leading, plaintext, hstored, haccepts, rfl⟩ :=
      receiveFromUploadMap_eq_ok.mp hbatch
    have hopen := openSession_eq_ok.mpr
      ⟨token0, parts, metadata, padded, hstored.described, hstored.token0, rfl⟩
    obtain ⟨run, hrun⟩ := hstored.streamed (hcalls _ hopen) ((accepts_iff hempty hstored).mpr haccepts)
    rw [streamed_eq_fed, hfed, ok_bind] at hrun
    obtain ⟨s', hmapped, -⟩ := bind_eq_ok.mp hrun
    have hfinal := mapError_ok_iff.mp hmapped
    obtain ⟨_, _, _, _, _, plaintext', hstored', haccepts', hiff⟩ :=
      finalize_of_streamed hcalls hfed hfinal
    obtain ⟨rfl, rfl, rfl, rfl, rfl⟩ := hstored.unique hstored'
    obtain rfl := haccepts.2.unique haccepts'.2
    obtain ⟨s'', hfinalize⟩ := (hiff _).mpr ⟨rfl, rfl⟩
    rw [finalizedAfter, hfed, ok_bind]
    dsimp only
    rw [hfinalize]
    rfl

theorem finalize_as_batch_two : ∃ uploads tape, twoTokens = .ok (uploads, tape) ∧
    (finalizedAfter .native PlainCrypto.plain uploads (ascii "abcdefghijkl") [.feed] =
        .ok (List.replicate 900 5) ↔
      receiveFromUploadMap .native PlainCrypto.plain (ascii "abcdefghijkl") uploads =
          .ok (List.replicate 900 5) ∧
        ∃ s, fedSession .native PlainCrypto.plain uploads (ascii "abcdefghijkl") [.feed] =
          .ok (s, [])) := by
  obtain ⟨uploads, tape, metadata, -, -, hmap, -, -, hsmb, -, hblock, htokens, -⟩ := twoTokens_changed
  have hempty : ¬ EmptyLastBlock PlainCrypto.plain uploads (ascii "abcdefghijkl") := by
    rintro ⟨token0, parts, metadata', padded, leading, plaintext, hstored, hlast, -⟩
    obtain rfl := Except.ok.inj (hsmb.symm.trans hstored.readSmb)
    omega
  have hcalls : InOrder metadata [.feed] := by
    refine ⟨by rw [htokens]; decide, fun n hn => ?_⟩
    cases List.mem_singleton.mp hn
  exact ⟨uploads, tape, hmap, finalize_as_batch PlainCrypto.plain uploads (ascii "abcdefghijkl")
    [.feed] (List.replicate 900 5) hempty (inOrder_of_readSmb hsmb hcalls)⟩

end TwelveC.ReceiveSession
