import TwelveC.EarlyPlaintext
import TwelveC.PlainRun

/-!
# The order of the records

GCM tells a session that a record is the sender's, not which place in the file
is its own. A caller that takes chunks before `complete_finalize` has the start
of the file as long as every record that the relays put in front carries the
text of the segment in whose place it stands.
-/

namespace TwelveC.ReceiveSession

open Segment TwelveC.Payload Merkle Smb Crypto Receiver Sender SmbRoundTrip RoundTrip Lib Lib.Cut

/-- What a call brings, and under which index. -/
def EarlyCall.brought : EarlyCall → Option (Nat × Bytes)
  | .token tokenIndex wireData => some (tokenIndex, wireData)
  | .take _ => none

/-- The blocks that come under the next index and in the right size. -/
def inTurn (metadata : SmbMetadata) : Nat → List (Nat × Bytes) → List Bytes
  | _, [] => []
  | next, (tokenIndex, wireData) :: later =>
    if tokenIndex = next ∧ next < metadata.numTokens ∧ wireData.length = metadata.wireBlockSize then
      wireData :: inTurn metadata (next + 1) later
    else inTurn metadata next later

/-- Wherever chunks are taken between these tokens, and wherever the caller stops, it has the start of
the file. -/
def FrontOnly (C : Primitives) (begun : ReceiveDecryptSession) (tokens : List (Nat × Bytes))
    (filePlaintext : Bytes) : Prop :=
  ∀ calls : List EarlyCall, calls.filterMap EarlyCall.brought <+: tokens →
    (Run.exec (advance C) { session := begun } calls).taken <+: filePlaintext

theorem inTurn_append (metadata : SmbMetadata) (next : Nat) (tokens later : List (Nat × Bytes)) :
    inTurn metadata next (tokens ++ later) = inTurn metadata next tokens ++
      inTurn metadata (next + (inTurn metadata next tokens).length) later := by
  induction tokens generalizing next with
  | nil => rfl
  | cons token tokens ih =>
    rw [List.cons_append, inTurn, inTurn]
    split
    next =>
      rw [ih, List.cons_append, List.length_cons, Nat.add_assoc, Nat.add_comm 1]
    next => exact ih next

variable {C : Primitives} {credential : Str} {token0 : Bytes} {parts : CredentialParts}
  {metadata : SmbMetadata} {padded : Nat} {s : ReceiveDecryptSession} {blocks : List Bytes}
  {taken wire : Bytes}

/-- The session has read these blocks, or the start of them up to a record that does not open. -/
inductive Fed (C : Primitives) (parts : CredentialParts) (metadata : SmbMetadata) (token0 : Bytes)
    (padded : Nat) (blocks : List Bytes) (taken : Bytes) (s : ReceiveDecryptSession) : Prop
  | running (h : Running C parts metadata token0 padded blocks taken s)
  | stopped (accepted : List Bytes) (consumed : Bytes)
      (hstart : accepted.flatten ++ consumed <+: blocks.flatten)
      (h : Stopped C parts metadata token0 padded accepted consumed taken s)

theorem Fed.take (hd : Described C credential token0 parts metadata padded)
    (hcode : metadata.segmentCode ≠ 0) (h : Fed C parts metadata token0 padded blocks taken s)
    (maxBytes : Nat) : ∃ chunk s', takePlaintextChunk maxBytes s = .ok (chunk, s') ∧
      Fed C parts metadata token0 padded blocks (taken ++ chunk) s' := by
  cases h with
  | running h =>
    obtain ⟨chunk, s', hchunk, hrunning⟩ := h.take hd hcode maxBytes
    exact ⟨chunk, s', hchunk, .running hrunning⟩
  | stopped accepted consumed hstart h =>
    obtain ⟨chunk, s', hchunk, hstopped⟩ := h.take hd hcode maxBytes
    exact ⟨chunk, s', hchunk, .stopped accepted consumed hstart hstopped⟩

theorem Running.admitted_iff (h : Running C parts metadata token0 padded blocks taken s)
    {tokenIndex : Nat} : Admitted s tokenIndex wire ↔ tokenIndex = 1 + blocks.length ∧
      1 + blocks.length < metadata.numTokens ∧ wire.length = metadata.wireBlockSize := by
  have hnext := h.next
  have hblock := h.block
  constructor
  · rintro ⟨hindex, hrange, hsize⟩
    rw [h.sameMetadata] at hrange
    exact ⟨by omega, by omega, hsize.trans hblock⟩
  · rintro ⟨hindex, hrange, hsize⟩
    refine ⟨by omega, ?_, hsize.trans hblock.symm⟩
    rw [h.sameMetadata]
    omega

/-- A block in turn is read; any other token changes nothing. -/
theorem Fed.token (hd : Described C credential token0 parts metadata padded)
    (hcode : metadata.segmentCode ≠ 0) (h : Fed C parts metadata token0 padded blocks taken s)
    (tokenIndex : Nat) (wire : Bytes) :
    ∃ s', (addWireToken .native C tokenIndex wire s = .ok s' ∨
        ∃ e, addWireToken .native C tokenIndex wire s = .error (e, s')) ∧
      Fed C parts metadata token0 padded
        (blocks ++ inTurn metadata (1 + blocks.length) [(tokenIndex, wire)]) taken s' := by
  cases h with
  | stopped accepted consumed hstart h =>
    obtain ⟨e, s', herr, hstopped⟩ := addWireToken_stopped hd hcode h tokenIndex wire
    refine ⟨s', .inr ⟨e, herr⟩, .stopped accepted consumed (hstart.trans ?_) hstopped⟩
    rw [List.flatten_append]
    exact List.prefix_append _ _
  | running h =>
    rw [inTurn]
    by_cases hadmitted : Admitted s tokenIndex wire
    · obtain ⟨rfl, hrange, hsize⟩ := h.admitted_iff.mp hadmitted
      rw [if_pos ⟨rfl, hrange, hsize⟩, inTurn]
      rw [Nat.add_comm 1] at hrange ⊢
      rcases addWireToken_running hd hcode h hrange hsize with
        ⟨s', hok, hrunning⟩ | ⟨e, s', consumed, herr, hstart, hstopped⟩
      · exact ⟨s', .inl hok, .running hrunning⟩
      · refine ⟨s', .inr ⟨e, herr⟩, .stopped blocks consumed ?_ hstopped⟩
        rw [List.flatten_append, List.flatten_singleton]
        exact (List.prefix_append_right_inj _).mpr hstart
    · obtain ⟨e, herr⟩ := addWireToken_refused (C := C) hadmitted
      rw [if_neg fun hturn => hadmitted (h.admitted_iff.mpr hturn), inTurn, List.append_nil]
      exact ⟨s, .inr ⟨e, herr⟩, .running h⟩

/-- Whatever calls are made, the session has read the blocks that came in turn. -/
theorem fed_exec (hd : Described C credential token0 parts metadata padded)
    (hcode : metadata.segmentCode ≠ 0) (calls : List EarlyCall) :
    Fed C parts metadata token0 padded (inTurn metadata 1 (calls.filterMap EarlyCall.brought))
      (Run.exec (advance C) { session := start parts metadata token0 padded } calls).taken
      (Run.exec (advance C) { session := start parts metadata token0 padded } calls).session := by
  induction calls using List.reverseRecOn with
  | nil => exact .running (start_running hd)
  | append_singleton calls call ih =>
    rw [Run.exec_append, Run.exec_cons, Run.exec_nil]
    generalize Run.exec (advance C) { session := start parts metadata token0 padded } calls = run at *
    rw [List.filterMap_append]
    cases call with
    | take maxBytes =>
      obtain ⟨chunk, s', hchunk, hfed⟩ := ih.take hd hcode maxBytes
      have hnone : [EarlyCall.take maxBytes].filterMap EarlyCall.brought = [] := rfl
      rw [advance, hchunk, hnone, List.append_nil]
      exact hfed
    | token tokenIndex wireData =>
      obtain ⟨s', hadd, hfed⟩ := ih.token hd hcode tokenIndex wireData
      have hone : [EarlyCall.token tokenIndex wireData].filterMap EarlyCall.brought =
        [(tokenIndex, wireData)] := rfl
      rw [hone, inTurn_append, advance]
      rcases hadd with hok | ⟨e, herr⟩
      · rw [hok]
        exact hfed
      · rw [herr]
        exact hfed

/-- What a session has opened of the blocks, and handed out of that. -/
structure OpenedFront (C : Primitives) (parts : CredentialParts) (metadata : SmbMetadata) (padded : Nat)
    (stream taken : Bytes) (s : ReceiveDecryptSession) (pieces : List Bytes) : Prop where
  records : ∃ part left, part <+: stream ∧ Records C parts metadata padded part pieces left
  all : ∀ {part : Bytes} {others : List Bytes} {left : Nat}, part <+: stream →
    Records C parts metadata padded part others left → others <+: pieces
  queue : Queue (padded - metadata.originalFileLength) pieces.flatten taken s

/-- No record in front of those that do not open is left out. -/
theorem Fed.openedFront (hcode : metadata.segmentCode ≠ 0)
    (h : Fed C parts metadata token0 padded blocks taken s) :
    ∃ pieces, OpenedFront C parts metadata padded blocks.flatten taken s pieces := by
  cases h with
  | running h =>
    cases h.payload with
    | whole hzero => exact absurd hzero hcode
    | segmented text _ hread hqueue hroom =>
      obtain ⟨stream, pieces, hsplit, hopened, rfl⟩ := hread.opened
      rw [recordLength, hread.size] at hroom
      refine ⟨pieces, ⟨stream, _, hsplit ▸ List.prefix_append _ _, hopened⟩, ?_, hqueue⟩
      rintro part others left ⟨tail, htail⟩ hothers
      rcases hopened.beyond hothers (hsplit.symm.trans htail.symm) with hle |
        ⟨record, piece, more, -, hbuffer, hrecord, -⟩
      · exact hle
      · rw [hbuffer, List.length_append] at hroom
        omega
  | stopped accepted consumed hstart h =>
    obtain ⟨text, hread, hqueue⟩ := h.payload
    obtain ⟨stream, pieces, hsplit, hopened, rfl⟩ := hread.opened
    obtain ⟨later, hlater⟩ := hstart
    have hfull := h.jammed.full
    rw [recordLength, hread.size] at hfull
    rw [hsplit, List.append_assoc] at hlater
    refine ⟨pieces, ⟨stream, _, hlater ▸ List.prefix_append _ _, hopened⟩, ?_, hqueue⟩
    rintro part others left ⟨tail, htail⟩ hothers
    rcases hopened.beyond hothers (hlater.trans htail.symm) with hle |
      ⟨record, piece, more, -, hbuffer, hrecord, hopen, hpiece⟩
    · exact hle
    · obtain ⟨rfl, -⟩ := List.append_inj hbuffer (hfull.trans hrecord.symm)
      rw [← hread.sameParts, ← hread.sameMetadata] at hopen
      rw [← hread.size] at hpiece
      exact absurd hpiece (h.jammed.refused _ hopen)

/-- A caller that takes all there is, once the tokens are in, has the text of any records in front. -/
theorem handed_out (hd : Described C credential token0 parts metadata padded)
    (hcode : metadata.segmentCode ≠ 0) (tokens : List (Nat × Bytes)) {part : Bytes}
    {pieces : List Bytes} {left : Nat} (hpart : part <+: (inTurn metadata 1 tokens).flatten)
    (hrecords : Records C parts metadata padded part pieces left) :
    ∃ calls : List EarlyCall, calls.filterMap EarlyCall.brought = tokens ∧
      pieces.flatten.drop (padded - metadata.originalFileLength) <+:
        (Run.exec (advance C) { session := start parts metadata token0 padded } calls).taken := by
  let feeds : List EarlyCall := tokens.map fun token => .token token.1 token.2
  have hfeeds : feeds.filterMap EarlyCall.brought = tokens := by
    rw [List.filterMap_map]
    exact List.filterMap_some
  refine ⟨feeds ++ [.take (padded + 1)], ?_, ?_⟩
  · rw [List.filterMap_append, hfeeds]
    exact List.append_nil _
  · have hfed := fed_exec hd hcode feeds
    rw [hfeeds] at hfed
    rw [Run.exec_append, Run.exec_cons, Run.exec_nil]
    generalize Run.exec (advance C) { session := start parts metadata token0 padded } feeds = run at *
    obtain ⟨all, hfront⟩ := hfed.openedFront hcode
    obtain ⟨part', left', -, hall⟩ := hfront.records
    have hlength := hall.length_flatten
    have hmetadata : run.session.metadata = metadata := by
      cases hfed with
      | running h => exact h.sameMetadata
      | stopped _ _ _ h => exact congrArg (·.metadata) h.settings
    obtain ⟨hchunk, -⟩ := drainReadyQueue_spec hfront.queue (Nat.succ_pos padded)
    have htaken := hfront.queue.taken_take
    rw [List.take_of_length_le (by rw [List.length_drop, List.length_drop]; omega)] at hchunk
    rw [advance, takePlaintextChunk_segmented hmetadata hd.valid hcode]
    dsimp only
    generalize run.taken.length = n at htaken hchunk
    rw [hchunk, htaken, List.take_append_drop]
    obtain ⟨more, hmore⟩ := hfront.all hpart hrecords
    rw [← hmore, List.flatten_append, List.drop_append]
    exact List.prefix_append _ _

section Sent

variable {filePlaintext : Bytes} {originalFileName : Str} {segmentCode maxWireBlockBytes : Nat}
  {tape₀ tape₁ tape₂ tape₃ tape₄ tape₅ : Bytes} {uploads : UploadMap}

/-- The segments of the padded plaintext. -/
def segments (r : Run filePlaintext credential originalFileName segmentCode maxWireBlockBytes) :
    List Bytes :=
  cut (segmentBytes segmentCode) r.plaintext

/-- The records that the sender made of them. -/
def records (r : Run filePlaintext credential originalFileName segmentCode maxWireBlockBytes) :
    List Bytes :=
  cut (segmentBytes segmentCode + kGcmEnvelopeBytes) r.ciphertext

/-- Under the file key nothing opens but what the sender sealed. -/
def OnlyIssued (C : Primitives)
    (r : Run filePlaintext credential originalFileName segmentCode maxWireBlockBytes) : Prop :=
  ∀ record text, decrypt C r.kFek record = .ok text → record ∈ records r

/-- Behind `padding` octets the texts are the segments in whose places they stand. -/
def StandFor : Nat → List Bytes → List Bytes → Prop
  | _, [], _ => True
  | _, _ :: _, [] => False
  | padding, text :: texts, segment :: segments =>
    text.drop padding = segment.drop padding ∧ StandFor (padding - segment.length) texts segments

/-- Segments with their records, in any order and number, such that the records begin a ciphertext and
each segment is as long as the one in whose place it stands. -/
structure InFront (r : Run filePlaintext credential originalFileName segmentCode maxWireBlockBytes)
    (delivered : Bytes) (front : List (Bytes × Bytes)) : Prop where
  issued : ∀ sent ∈ front, sent ∈ (segments r).zip (records r)
  fits : (front.map Prod.fst).map List.length <+: (segments r).map List.length
  start : (front.map Prod.snd).flatten <+: delivered

/-- No record stands in the place of a segment with another text. -/
def InPlace (r : Run filePlaintext credential originalFileName segmentCode maxWireBlockBytes)
    (delivered : Bytes) : Prop :=
  ∀ front, InFront r delivered front →
    StandFor r.layout.plaintextPadding (front.map Prod.fst) (segments r)

theorem prefix_append_iff {a b c d : Bytes} (h : a.length = b.length) :
    a ++ c <+: b ++ d ↔ a = b ∧ c <+: d := by
  constructor
  · rintro ⟨tail, heq⟩
    rw [List.append_assoc] at heq
    obtain ⟨rfl, rfl⟩ := List.append_inj heq h
    exact ⟨rfl, List.prefix_append _ _⟩
  · rintro ⟨rfl, hcd⟩
    exact (List.prefix_append_right_inj a).mpr hcd

/-- Texts that stand for segments of their lengths are the start of what the segments are. -/
theorem standFor_iff {padding : Nat} {texts segments : List Bytes}
    (h : texts.map List.length <+: segments.map List.length) :
    StandFor padding texts segments ↔
      texts.flatten.drop padding <+: segments.flatten.drop padding := by
  induction texts generalizing padding segments with
  | nil =>
    rw [List.flatten_nil, List.drop_nil]
    exact ⟨fun _ => List.nil_prefix, fun _ => trivial⟩
  | cons text texts ih =>
    cases segments with
    | nil =>
      rw [List.map_cons, List.map_nil, List.prefix_nil] at h
      exact absurd h (List.cons_ne_nil _ _)
    | cons segment segments =>
      rw [List.map_cons, List.map_cons, List.cons_prefix_cons] at h
      have hlength : (text.drop padding).length = (segment.drop padding).length := by
        rw [List.length_drop, List.length_drop, h.1]
      rw [StandFor, ih h.2, List.flatten_cons, List.flatten_cons, List.drop_append, List.drop_append,
        h.1, prefix_append_iff hlength]

variable {r : Run filePlaintext credential originalFileName segmentCode maxWireBlockBytes}

theorem segments_sealed (hC : C.Laws) (hcode : segmentCode ≠ 0)
    (h : r.Holds .native C tape₀ tape₁ tape₂ tape₃ tape₄ tape₅ uploads) :
    List.Forall₂ (Sealed C r.kFek) (segments r) (records r) := by
  obtain ⟨packs, hpacks, hflat⟩ := sealed_segments hcode h
  have hs := segmentBytes_pos segmentCode
  have hlt := segmentBytes_lt segmentCode (sound h).code
  have hlength : List.Forall₂ (fun segment pack => pack.length = segment.length + 28)
      (cut (segmentBytes segmentCode) r.plaintext) packs := by
    rw [List.forall₂_iff_zip] at hpacks ⊢
    refine ⟨hpacks.1, fun {segment pack} hmem => ?_⟩
    have hle := length_le_of_mem_cut hs _ _ (List.of_mem_zip hmem).1
    exact (hpacks.2 hmem).length hC (by omega)
  rw [records, kGcmEnvelopeBytes_eq, hflat, cut_flatten_longer hs _ _ hlength]
  exact hpacks

/-- A record of the sender opens to its segment. -/
theorem opens_issued (hC : C.Laws) (hcode : segmentCode ≠ 0)
    (h : r.Holds .native C tape₀ tape₁ tape₂ tape₃ tape₄ tape₅ uploads) {sent : Bytes × Bytes}
    (hsent : sent ∈ (segments r).zip (records r)) :
    decrypt C r.kFek sent.2 = .ok sent.1 ∧ sent.2.length = sent.1.length + 28 := by
  have hs := segmentBytes_pos segmentCode
  have hlt := segmentBytes_lt segmentCode (sound h).code
  have hsealed := (List.forall₂_iff_zip.mp (segments_sealed hC hcode h)).2 hsent
  have hle := length_le_of_mem_cut hs _ _ (List.of_mem_zip hsent).1
  have hlength := hsealed.length hC (by omega)
  exact ⟨hsealed.decrypt hC hlength, hlength⟩

theorem mem_zip_records (hC : C.Laws) (hcode : segmentCode ≠ 0)
    (h : r.Holds .native C tape₀ tape₁ tape₂ tape₃ tape₄ tape₅ uploads) {record : Bytes}
    (hrecord : record ∈ records r) : ∃ sent ∈ (segments r).zip (records r), sent.2 = record := by
  have hsame := (segments_sealed hC hcode h).length_eq
  rw [← List.map_snd_zip hsame.ge, List.mem_map] at hrecord
  exact hrecord

/-- Records that open are the sender's. -/
theorem front_of_opened (hC : C.Laws) (hcode : segmentCode ≠ 0)
    (h : r.Holds .native C tape₀ tape₁ tape₂ tape₃ tape₄ tape₅ uploads) (hissued : OnlyIssued C r)
    {n left : Nat} {stream : Bytes} {pieces : List Bytes}
    (hopened : Opened (decrypt C r.kFek) (segmentBytes segmentCode) 28 n stream pieces left)
    (text : Bytes) (hn : text.length = n) :
    ∃ front : List (Bytes × Bytes), (∀ sent ∈ front, sent ∈ (segments r).zip (records r)) ∧
      front.map Prod.fst = pieces ∧ (front.map Prod.snd).flatten = stream ∧
      pieces.map List.length <+: (cut (segmentBytes segmentCode) text).map List.length := by
  have hs := segmentBytes_pos segmentCode
  induction hopened generalizing text with
  | nil n =>
    exact ⟨[], fun sent hsent => absurd hsent List.not_mem_nil, rfl, rfl, List.nil_prefix⟩
  | @cons n left record piece stream pieces hpos hrecord hopen hpiece hrest ih =>
    obtain ⟨front, hfront, rfl, rfl, hfits⟩ := ih (text.drop (segmentBytes segmentCode))
      (by rw [List.length_drop]; omega)
    obtain ⟨sent, hsent, rfl⟩ := mem_zip_records hC hcode h (hissued _ _ hopen)
    obtain ⟨hopen', -⟩ := opens_issued hC hcode h hsent
    obtain rfl := Except.ok.inj (hopen'.symm.trans hopen)
    refine ⟨sent :: front, ?_, rfl, rfl, ?_⟩
    · exact List.forall_mem_cons.mpr ⟨hsent, hfront⟩
    · rw [cut_of_ne_nil hs (List.ne_nil_of_length_pos (by omega)), List.map_cons, List.map_cons,
        List.cons_prefix_cons, List.length_take, hn]
      exact ⟨hpiece, hfits⟩

/-- And the sender's records open, in whatever order they come. -/
theorem opened_of_front (hC : C.Laws) (hcode : segmentCode ≠ 0)
    (h : r.Holds .native C tape₀ tape₁ tape₂ tape₃ tape₄ tape₅ uploads) (front : List (Bytes × Bytes))
    (text : Bytes) (hfront : ∀ sent ∈ front, sent ∈ (segments r).zip (records r))
    (hfits : (front.map Prod.fst).map List.length <+:
      (cut (segmentBytes segmentCode) text).map List.length) :
    ∃ left, Opened (decrypt C r.kFek) (segmentBytes segmentCode) 28 text.length
      (front.map Prod.snd).flatten (front.map Prod.fst) left := by
  have hs := segmentBytes_pos segmentCode
  induction front generalizing text with
  | nil => exact ⟨_, .nil _⟩
  | cons sent front ih =>
    obtain ⟨hsent, hfront⟩ := List.forall_mem_cons.mp hfront
    obtain ⟨hopen, hlength⟩ := opens_issued hC hcode h hsent
    by_cases hnone : text = []
    · rw [hnone, cut_nil, List.map_nil, List.prefix_nil] at hfits
      exact absurd hfits (List.cons_ne_nil _ _)
    · have hpos := List.length_pos_of_ne_nil hnone
      rw [cut_of_ne_nil hs hnone, List.map_cons, List.map_cons, List.map_cons, List.cons_prefix_cons,
        List.length_take] at hfits
      obtain ⟨left, hopened⟩ := ih (text.drop (segmentBytes segmentCode)) hfront hfits.2
      rw [List.length_drop, show text.length - segmentBytes segmentCode =
        text.length - min (segmentBytes segmentCode) text.length by omega] at hopened
      exact ⟨left, .cons hpos (by rw [hlength, hfits.1]) hopen hfits.1 hopened⟩

/-- What the session reads in the sender's SMB. -/
theorem described_authentic (hC : C.Laws) (hcode : segmentCode ≠ 0)
    (h : r.Holds .native C tape₀ tape₁ tape₂ tape₃ tape₄ tape₅ uploads)
    (hsmb : token0.take kSmEncBytes = r.sEnc)
    (hd : Described C credential token0 parts metadata padded) :
    parts = r.parts ∧ metadata = readBack (r.metadata C) ∧ padded = r.plaintext.length := by
  have hs := sound h
  have hfloor := hd.floor
  have hblock := hd.block
  have hextract : extractSEnc token0 = extractSEnc r.token0 := by
    rw [extractSEnc_ok h, extractSEnc, throwIf_neg (by rw [kSmEncBytes_eq]; omega), ok_bind, hsmb]
    rfl
  have hparse := hd.parse
  rw [parseSmbEncrypted, hextract] at hparse
  obtain rfl := Except.ok.inj ((parseSmb_ok hC (.inr hcode) h).symm.trans hparse)
  refine ⟨Except.ok.inj (hd.split.symm.trans h.split), rfl, ?_⟩
  have hlength : cipherLength padded segmentCode = cipherLength r.plaintext.length segmentCode := by
    rw [length_plaintext, ← hs.ciphertext]
    exact hd.cipherLength_eq
  rw [cipherLength, cipherLength] at hlength
  rcases Nat.le_total padded r.plaintext.length with hle | hle
  · have hcount := recordCount_mono segmentCode hle
    omega
  · have hcount := recordCount_mono segmentCode hle
    omega

theorem openRecord_authentic (hC : C.Laws)
    (h : r.Holds .native C tape₀ tape₁ tape₂ tape₃ tape₄ tape₅ uploads) :
    openRecord C r.parts (readBack (r.metadata C)) = decrypt C r.kFek := by
  funext record
  have hfek : unlock C r.parts (readBack (r.metadata C)) = .ok r.kFek := decryptFek_ok hC h
  rw [openRecord, hfek, ok_bind]

theorem length_padding (r : Run filePlaintext credential originalFileName segmentCode maxWireBlockBytes) :
    r.plaintext.length - filePlaintext.length = r.layout.plaintextPadding := by
  rw [length_plaintext, Nat.add_sub_cancel_left]

theorem segments_flatten (r : Run filePlaintext credential originalFileName segmentCode maxWireBlockBytes) :
    (segments r).flatten.drop r.layout.plaintextPadding = filePlaintext := by
  have hdrop := drop_plaintext r
  rw [length_padding] at hdrop
  rw [segments, flatten_cut (segmentBytes_pos _), hdrop]

/-- What records of the sender stand in front of the ciphertext is handed out. -/
theorem texts_start (hC : C.Laws) (hcode : segmentCode ≠ 0)
    (h : r.Holds .native C tape₀ tape₁ tape₂ tape₃ tape₄ tape₅ uploads)
    (hd : Described C credential token0 r.parts (readBack (r.metadata C)) r.plaintext.length)
    (tokens : List (Nat × Bytes)) {front : List (Bytes × Bytes)}
    (hfront : InFront r (inTurn (readBack (r.metadata C)) 1 tokens).flatten front)
    (honly : FrontOnly C (start r.parts (readBack (r.metadata C)) token0 r.plaintext.length) tokens
      filePlaintext) :
    (front.map Prod.fst).flatten.drop r.layout.plaintextPadding <+: filePlaintext := by
  obtain ⟨left, hopened⟩ := opened_of_front hC hcode h front r.plaintext hfront.issued hfront.fits
  rw [← openRecord_authentic hC h] at hopened
  obtain ⟨calls, hcalls, hstart⟩ := handed_out hd hcode tokens hfront.start hopened
  have hpadding : r.plaintext.length - (readBack (r.metadata C)).originalFileLength =
      r.layout.plaintextPadding := length_padding r
  rw [hpadding] at hstart
  exact hstart.trans (honly calls (hcalls ▸ List.prefix_rfl))

/-- What the sender's own ciphertext begins with is in place. -/
theorem inPlace_own (hC : C.Laws) (hcode : segmentCode ≠ 0)
    (h : r.Holds .native C tape₀ tape₁ tape₂ tape₃ tape₄ tape₅ uploads) {delivered : Bytes}
    (hown : delivered <+: r.ciphertext) : InPlace r delivered := by
  rintro front ⟨hissued, hfits, hstart⟩
  have hmatch : List.Forall₂ (fun segment record =>
      decrypt C r.kFek record = .ok segment ∧ record.length = segment.length + 28)
      (segments r) (records r) := by
    refine List.forall₂_iff_zip.mpr ⟨(segments_sealed hC hcode h).length_eq, fun hmem => ?_⟩
    exact opens_issued hC hcode h hmem
  have hflat : (records r).flatten = r.ciphertext := flatten_cut (by rw [kGcmEnvelopeBytes_eq]; omega) _
  have hrecords : (front.map Prod.snd).flatten <+: (records r).flatten := hflat ▸ hstart.trans hown
  have hopen : ∀ sent ∈ front, decrypt C r.kFek sent.2 = .ok sent.1 ∧
      sent.2.length = sent.1.length + 28 := fun sent hsent => opens_issued hC hcode h (hissued sent hsent)
  have htexts : front.map Prod.fst <+: segments r := by
    generalize segments r = texts at hmatch hfits
    generalize records r = packs at hmatch hrecords
    clear hissued hstart
    induction hmatch generalizing front with
    | nil =>
      rw [List.map_nil, List.prefix_nil, List.map_eq_nil_iff] at hfits
      exact List.prefix_nil.mpr hfits
    | @cons segment record segments records hfirst _ ih =>
      cases front with
      | nil => exact List.nil_prefix
      | cons sent front =>
        obtain ⟨hsent, hlater⟩ := List.forall_mem_cons.mp hopen
        rw [List.map_cons, List.map_cons, List.map_cons, List.cons_prefix_cons] at hfits
        rw [List.map_cons, List.flatten_cons, List.flatten_cons,
          prefix_append_iff (by rw [hsent.2, hfirst.2, hfits.1])] at hrecords
        have hsame := hsent.1
        rw [hrecords.1, hfirst.1, Except.ok.injEq] at hsame
        rw [List.map_cons, List.cons_prefix_cons]
        exact ⟨hsame.symm, ih front hlater hfits.2 hrecords.2⟩
  obtain ⟨later, hlater⟩ := htexts
  rw [standFor_iff hfits, ← hlater, List.flatten_append, List.drop_append]
  exact List.prefix_append _ _

/-- A session for an object takes its own SMB. -/
theorem described_prepared (hC : C.Laws) (hcode : segmentCode ≠ 0) (hne : filePlaintext ≠ [])
    (h : r.Holds .native C tape₀ tape₁ tape₂ tape₃ tape₄ tape₅ uploads) :
    Described C credential r.token0 r.parts (readBack (r.metadata C)) r.plaintext.length := by
  have hs := sound h
  have hsum := LayoutSound.leading_add_last hs
  have hlast := hs.last
  have hfile := List.length_pos_of_ne_nil hne
  have hplain := length_plaintext r
  have hlength := paddedLength_of_cipherLength native_size r.plaintext.length segmentCode hs.code
    (.inr (by omega))
  rw [hplain, ← hs.ciphertext, ← hplain] at hlength
  refine ⟨h.split, parseSmb_ok hC (.inr hcode) h, hs.tokens, hs.tokens_lt, h.token0, ?_, ?_, hlength, ?_⟩
  · show 373 ≤ r.layout.wireBlockSize
    omega
  · show (r.layout.numTokens - 1) * r.layout.wireBlockSize + (r.layout.wireBlockSize - 373) =
      r.layout.ciphertextLength
    omega
  · show filePlaintext.length ≤ r.plaintext.length
    omega

end Sent

open WireLayout PlainCrypto

section ledger

variable {filePlaintext : Bytes} {segmentCode maxWireBlockBytes : Nat} {layout : WireLayout}
  {tape : Bytes} (credential originalFileName : Str)
  (htape : 72 + 12 * (textsOf filePlaintext segmentCode layout).length ≤ tape.length)

include htape

theorem records_ledger : records (ledgerRun filePlaintext credential originalFileName segmentCode
    maxWireBlockBytes layout tape) = packsFrom tape 48 (textsOf filePlaintext segmentCode layout) := by
  rw [textsOf] at htape
  exact cut_flatten_longer (segmentBytes_pos segmentCode) _ _ (packsFrom_longer (by omega))

theorem onlyIssued_ledger : OnlyIssued (ledgerOf filePlaintext segmentCode layout tape)
    (ledgerRun filePlaintext credential originalFileName segmentCode maxWireBlockBytes layout tape) := by
  intro record text hopen
  obtain ⟨sent, hsent, rfl⟩ := ledger_opens hopen
  rw [records_ledger credential originalFileName htape]
  exact List.mem_map_of_mem hsent

end ledger

theorem onlyIssued_strict : OnlyIssued strict ledgerObject := onlyIssued_ledger _ _ octets_suffice

theorem ledgerObject_described {tape₁ tape₂ tape₃ tape₄ tape₅ : Bytes} {uploads : UploadMap}
    (h : ledgerObject.Holds .native strict octets tape₁ tape₂ tape₃ tape₄ tape₅ uploads) :
    Described strict (ascii "abcdefghijkl") ledgerObject.token0 ledgerObject.parts
      (readBack (ledgerObject.metadata strict)) ledgerObject.plaintext.length :=
  described_prepared ledger_laws (by decide)
    (List.ne_nil_of_length_pos (by rw [length_threeTexts]; omega)) h

theorem inTurn_single {metadata : SmbMetadata} {wire : Bytes} (htokens : 1 < metadata.numTokens)
    (hwire : wire.length = metadata.wireBlockSize) : inTurn metadata 1 [(1, wire)] = [wire] := by
  rw [inTurn, if_pos ⟨rfl, htokens, hwire⟩, inTurn]

section Order

variable {filePlaintext : Bytes} {originalFileName : Str} {segmentCode maxWireBlockBytes : Nat}
  {tape₀ tape₁ tape₂ tape₃ tape₄ tape₅ : Bytes} {uploads : UploadMap}

/-- With a GCM that opens nothing but the sender's records, chunks taken before `complete_finalize` are
the start of the file exactly if no record stands in the place of a segment with another text. -/
theorem frontOnly_iff (C : Primitives) (hC : C.Laws)
    (r : Run filePlaintext credential originalFileName segmentCode maxWireBlockBytes)
    (h : r.Holds .native C tape₀ tape₁ tape₂ tape₃ tape₄ tape₅ uploads) (hcode : segmentCode ≠ 0)
    (hissued : OnlyIssued C r) (token0 : Bytes) (hsmb : token0.take kSmEncBytes = r.sEnc)
    (begun : ReceiveDecryptSession) (hnew : new .native C credential token0 = .ok begun)
    (tokens : List (Nat × Bytes)) :
    FrontOnly C begun tokens filePlaintext ↔
      InPlace r (inTurn begun.metadata 1 tokens).flatten := by
  obtain ⟨parts, metadata, padded, hd, rfl⟩ := new_eq_ok.mp hnew
  obtain ⟨rfl, rfl, rfl⟩ := described_authentic hC hcode h hsmb hd
  show _ ↔ InPlace r (inTurn (readBack (r.metadata C)) 1 tokens).flatten
  constructor
  · intro honly front hfront
    rw [standFor_iff hfront.fits, segments_flatten]
    exact texts_start hC hcode h hd tokens hfront honly
  · rintro hplace calls ⟨later, rfl⟩
    obtain ⟨pieces, hopened⟩ := (fed_exec hd hcode calls).openedFront hcode
    obtain ⟨part, left, hpart, hrecords⟩ := hopened.records
    rw [Records, openRecord_authentic hC h] at hrecords
    obtain ⟨front, hfront, rfl, rfl, hfits⟩ :=
      front_of_opened hC hcode h hissued hrecords r.plaintext rfl
    have hsame : (front.map Prod.fst).map List.length <+: (segments r).map List.length := hfits
    have hstand := hplace front ⟨hfront, hsame, ?_⟩
    · rw [standFor_iff hsame, segments_flatten] at hstand
      have hpadding : r.plaintext.length - (readBack (r.metadata C)).originalFileLength =
          r.layout.plaintextPadding := length_padding r
      have htaken := hopened.queue.taken_start
      rw [hpadding] at htaken
      exact htaken.trans hstand
    · rw [inTurn_append, List.flatten_append]
      exact hpart.trans (List.prefix_append _ _)

end Order

/-- The sender's own block is read from the front of the file. -/
theorem frontOnly_iff_own : ∃ begun,
    new .native strict (ascii "abcdefghijkl") ledgerObject.token0 = .ok begun ∧
    FrontOnly strict begun [(1, ledgerObject.ciphertext.take 16777445)] threeTexts := by
  obtain ⟨_, _, _, _, _, _, h⟩ := ledgerObject_holds
  have hd := ledgerObject_described h
  have hnew := new_eq_ok.mpr ⟨_, _, _, hd, rfl⟩
  have hsmb : ledgerObject.token0.take kSmEncBytes = ledgerObject.sEnc := List.take_left' h.smEnc
  have hblock : (ledgerObject.ciphertext.take 16777445).length = 16777445 :=
    List.length_take_of_le (h.ciphertext ▸ by decide)
  refine ⟨_, hnew, (frontOnly_iff strict ledger_laws ledgerObject h (by decide) onlyIssued_strict
    ledgerObject.token0 hsmb _ hnew _).mpr (inPlace_own ledger_laws (by decide) h ?_)⟩
  show (inTurn (readBack (ledgerObject.metadata strict)) 1 _).flatten <+: _
  rw [inTurn_single (by decide) hblock, List.flatten_singleton]
  exact List.take_prefix _ _

/-- The relays put the second record first, and its text is handed out before the first one. -/
theorem swapped_handed_out : ∃ tape₁ tape₂ tape₃ tape₄ tape₅ uploads begun,
    ledgerObject.Holds .native strict octets tape₁ tape₂ tape₃ tape₄ tape₅ uploads ∧
    strict.Laws ∧ OnlyIssued strict ledgerObject ∧
    new .native strict (ascii "abcdefghijkl") ledgerObject.token0 = .ok begun ∧
    ¬ FrontOnly strict begun [(1, swapped)] threeTexts := by
  obtain ⟨t₁, t₂, t₃, t₄, t₅, uploads, h⟩ := ledgerObject_holds
  have hd := ledgerObject_described h
  have hnew := new_eq_ok.mpr ⟨_, _, _, hd, rfl⟩
  refine ⟨t₁, t₂, t₃, t₄, t₅, uploads, _, h, ledger_laws, onlyIssued_strict, hnew, fun honly => ?_⟩
  have hsegments : segments ledgerObject = [fives, sixes, [7]] := textsOf_threeTexts
  have hrecords : records ledgerObject = packsFrom octets 48 [fives, sixes, [7]] :=
    (records_ledger _ _ octets_suffice).trans (congrArg _ textsOf_threeTexts)
  rw [packsFrom_cons, packsFrom_cons] at hrecords
  have hfront : InFront ledgerObject
      (inTurn (readBack (ledgerObject.metadata strict)) 1 [(1, swapped)]).flatten
      [(sixes, plainRecord (octets.drop 60) sixes)] := by
    refine ⟨fun sent hsent => ?_, ?_, ?_⟩
    · rw [List.mem_singleton.mp hsent, hsegments, hrecords, List.zip_cons_cons, List.zip_cons_cons]
      exact List.mem_cons_of_mem _ List.mem_cons_self
    · have hsame : sixes.length = fives.length := by
        rw [sixes, fives, List.length_replicate, List.length_replicate]
      rw [hsegments, List.map_singleton, List.map_singleton, List.map_cons, List.cons_prefix_cons]
      exact ⟨hsame, List.nil_prefix⟩
    · rw [inTurn_single (by decide) length_swapped, List.flatten_singleton, List.map_singleton,
        List.flatten_singleton, swapped]
      exact List.prefix_append _ _
  have hstart := texts_start ledger_laws (by decide) h hd _ hfront honly
  rw [List.map_singleton, List.flatten_singleton] at hstart
  have hsixes : sixes <+: fives ++ (sixes ++ [7]) := hstart
  obtain ⟨n, hn⟩ : ∃ n, segmentBytes 1 = n + 1 := ⟨_, (Nat.sub_add_cancel (segmentBytes_pos 1)).symm⟩
  rw [sixes, fives, hn, List.replicate_succ, List.replicate_succ] at hsixes
  have hhead := (List.cons_prefix_cons.mp hsixes).1
  exact absurd hhead (by decide)

end TwelveC.ReceiveSession
