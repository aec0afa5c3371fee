import TwelveC.SessionReading
import TwelveC.LayoutSound
import TwelveC.LengthInversion
import TwelveC.SmbGrammar

/-!
# Streaming receive and batch receive

A session that has taken in the whole ciphertext has opened what the batch
receiver opens, whatever was taken in between; `complete_finalize` makes the
checks that are left. Only an empty last block sets the two apart: the session
leaves it without a leaf hash.
-/

namespace TwelveC.ReceiveSession

open Segment Payload Merkle Smb Crypto Receiver Lib

variable {C : Primitives} {s s' : ReceiveDecryptSession} {parts : CredentialParts}
  {metadata : SmbMetadata} {padding padded : Nat} {text taken delivered data stream : Bytes}

/-- What the constructor finds in order. -/
structure Described (C : Primitives) (credential : Str) (token0 : Bytes) (parts : CredentialParts)
    (metadata : SmbMetadata) (padded : Nat) : Prop where
  split : splitCredential credential = .ok parts
  parse : parseSmbEncrypted .native C credential token0 = .ok metadata
  tokens : 0 < metadata.numTokens
  tokens_lt : metadata.numTokens < 2 ^ 32
  block : token0.length = metadata.wireBlockSize
  floor : 373 ≤ metadata.wireBlockSize
  fills : (metadata.numTokens - 1) * metadata.wireBlockSize + (metadata.wireBlockSize - 373) =
    metadata.ciphertextLength
  length : paddedPlaintextLengthFromCiphertext .native metadata.ciphertextLength
    metadata.segmentCode = .ok padded
  file : metadata.originalFileLength ≤ padded

theorem readU32_lt {buffer : Bytes} {offset v next : Nat}
    (h : readU32 .native buffer offset = .ok (v, next)) : v < 2 ^ 32 := by
  obtain ⟨-, rfl, -⟩ := (SmbGrammar.readU32_eq_ok native_size).mp h
  exact Lib.Word.wordAt_lt buffer offset 4

theorem deserialize_lt {data : Bytes} (h : deserializeSmb .native C data = .ok metadata) :
    metadata.numTokens < 2 ^ 32 ∧ metadata.wireBlockSize < 2 ^ 32 := by
  simp only [deserializeSmb, bind_eq_ok, Prod.exists, pure_eq_ok, Except.ok.injEq] at h
  obtain ⟨_, -, _, -, _, -, _, -, _, _, -, _, -, _, -, _, -, _, -, _, _, -, _, _, -, _, -, _, _, -,
    numTokens, _, htokens, wireBlockSize, _, hblock, _, _, -, _, _, -, _, _, _, -, _, -, _, _, -, _, -,
    _, -, rfl⟩ := h
  exact ⟨readU32_lt htokens, readU32_lt hblock⟩

theorem rethrow_eq_ok {α : Type} {what : String} {x : Except Exn α} {a : α} :
    rethrow what x = .ok a ↔ x = .ok a := by
  cases x with
  | ok b => exact Iff.rfl
  | error e =>
    rw [rethrow]
    cases e.what <;> simp

variable {credential : Str} {token0 : Bytes}

theorem parse_bounds (h : parseSmbEncrypted .native C credential token0 = .ok metadata) :
    373 ≤ token0.length ∧ metadata.numTokens < 2 ^ 32 ∧ metadata.wireBlockSize < 2 ^ 32 := by
  simp only [parseSmbEncrypted, bind_eq_ok, rethrow_eq_ok] at h
  obtain ⟨_, -, sEnc, hextract, _, -, hmetadata⟩ := h
  refine ⟨?_, deserialize_lt hmetadata⟩
  rw [extractSEnc, throwIf_bind_eq_ok] at hextract
  exact not_lt.mp hextract.1

/-- The blocks fill the object exactly when the last block is as long as token 0 says. -/
theorem fills_iff (h : parseSmbEncrypted .native C credential token0 = .ok metadata)
    (hm : 0 < metadata.numTokens) (hblock : token0.length = metadata.wireBlockSize) :
    373 + Machine.native.sizeSub metadata.ciphertextLength
        ((metadata.numTokens - 1) * metadata.wireBlockSize) = metadata.wireBlockSize ↔
    (metadata.numTokens - 1) * metadata.wireBlockSize + (metadata.wireBlockSize - 373) =
      metadata.ciphertextLength := by
  obtain ⟨hfloor, hm', hB⟩ := parse_bounds h
  rw [hblock] at hfloor
  constructor
  · intro heq
    have hfills := LayoutSound.fills_of_sizeSub hm hm' hB heq
    obtain ⟨n, hn⟩ : ∃ n, metadata.numTokens = n + 1 := ⟨metadata.numTokens - 1, by omega⟩
    rw [hn, Nat.add_mul, Nat.one_mul] at hfills
    rw [hn, Nat.add_sub_cancel]
    omega
  · intro heq
    rw [native_sizeSub_le (by omega)]
    omega

/-- The session that the constructor leaves. -/
def start (parts : CredentialParts) (metadata : SmbMetadata) (token0 : Bytes) (padded : Nat) :
    ReceiveDecryptSession :=
  { credentialParts := parts, metadata, token0Wire := token0,
    wireBlockSize := metadata.wireBlockSize, lastBlockLength := metadata.wireBlockSize - 373,
    paddedPlaintextLength := padded, originalFileLength := metadata.originalFileLength,
    leafHashes := List.replicate metadata.numTokens [],
    segmentPlaintextBytes := if metadata.segmentCode = 0 then 0 else segmentBytes metadata.segmentCode,
    remainingPlaintext := if metadata.segmentCode = 0 then 0 else padded,
    prefixSkipRemaining :=
      if metadata.segmentCode = 0 then 0 else padded - metadata.originalFileLength }

theorem segmentedMode_iff {code : Nat} (hv : ValidCode code) :
    isV21SegmentedMode code = true ↔ code ≠ 0 := by
  have hle : code ≤ 5 := hv
  rw [isV21SegmentedMode, Bool.and_eq_true, decide_eq_true_iff, decide_eq_true_iff,
    kV21SegmentCodeMin, kV21SegmentCodeMax]
  omega

theorem new_eq_ok : new .native C credential token0 = .ok s ↔
    ∃ parts metadata padded, Described C credential token0 parts metadata padded ∧
      s = start parts metadata token0 padded := by
  simp only [new, bind_eq_ok, throwIf_eq_ok, exists_const, native_size, kSmEncBytes_eq, not_not,
    not_lt]
  constructor
  · rintro ⟨parts, hsplit, metadata, hparse, hm, hblock, hlast, padded, hpadded, hfile, hs⟩
    obtain ⟨hfloor, hm', -⟩ := parse_bounds hparse
    have hpos : 0 < metadata.numTokens := by omega
    have hfills := (fills_iff hparse hpos hblock).mp hlast
    obtain ⟨hv, -, -⟩ := paddedLength_inv native_size hpadded
    refine ⟨parts, metadata, padded, ⟨hsplit, hparse, hpos, hm', hblock, hblock ▸ hfloor, hfills,
      hpadded, hfile⟩, ?_⟩
    rw [native_sizeSub_le (by omega), ← hfills, Nat.add_sub_cancel_left] at hs
    split at hs
    next hmode =>
      have hne := (segmentedMode_iff hv).mp hmode
      rw [decode_ok _ (by omega) hv, ok_bind] at hs
      rw [start, if_neg hne, if_neg hne, if_neg hne]
      exact (Except.ok.inj hs).symm
    next hmode =>
      have hzero : metadata.segmentCode = 0 := by
        by_contra hne
        exact hmode ((segmentedMode_iff hv).mpr hne)
      rw [start, if_pos hzero, if_pos hzero, if_pos hzero]
      exact (Except.ok.inj hs).symm
  · rintro ⟨parts, metadata, padded, h, rfl⟩
    have hm := h.tokens
    have hfills := h.fills
    have hfloor := h.floor
    refine ⟨parts, h.split, metadata, h.parse, by omega, h.block,
      (fills_iff h.parse h.tokens h.block).mpr hfills, padded, h.length, h.file, ?_⟩
    obtain ⟨hv, -, -⟩ := paddedLength_inv native_size h.length
    rw [native_sizeSub_le (by omega), ← hfills, Nat.add_sub_cancel_left]
    split
    next hmode =>
      have hne := (segmentedMode_iff hv).mp hmode
      rw [decode_ok _ (by omega) hv, ok_bind, start, if_neg hne, if_neg hne, if_neg hne]
      rfl
    next hmode =>
      have hzero : metadata.segmentCode = 0 := by
        by_contra hne
        exact hmode ((segmentedMode_iff hv).mpr hne)
      rw [start, if_pos hzero, if_pos hzero, if_pos hzero]
      rfl

/-- What the constructor fixes. -/
def settings (s : ReceiveDecryptSession) : ReceiveDecryptSession :=
  { apartFromQueue (apartFromFeed s) with leafHashes := [], nextTokenIndex := 1 }

theorem settings_of_feed (h : apartFromFeed s' = apartFromFeed s) : settings s' = settings s := by
  have hsettings := congrArg settings h
  exact hsettings

theorem settings_of_queue (h : apartFromQueue s' = apartFromQueue s) : settings s' = settings s := by
  have hsettings := congrArg settings h
  exact hsettings

/-- The payload side of a session, with `delivered` of the ciphertext fed to it. -/
inductive Payload (C : Primitives) (parts : CredentialParts) (metadata : SmbMetadata)
    (padded : Nat) (delivered taken : Bytes) (s : ReceiveDecryptSession) : Prop
  | whole (hcode : metadata.segmentCode = 0) (hkey : KeyReady C s)
      (hbuffer : s.ciphertextPackBuffer = delivered) (htaken : taken = [])
  | segmented (text : Bytes) (hcode : metadata.segmentCode ≠ 0)
      (hread : Reading C parts metadata padded delivered text s)
      (hqueue : Queue (padded - metadata.originalFileLength) text taken s)
      (hroom : s.ciphertextPackBuffer.length < recordLength s)

/-- A segmented object whose ciphertext so far has a record that does not open. -/
def Refused (C : Primitives) (parts : CredentialParts) (metadata : SmbMetadata) (padded : Nat)
    (delivered : Bytes) : Prop :=
  metadata.segmentCode ≠ 0 ∧ ¬ WholeRecordsOpen C parts metadata padded delivered

/-- The session after the tokens `fed`, with `taken` handed out. -/
structure Running (C : Primitives) (parts : CredentialParts) (metadata : SmbMetadata)
    (token0 : Bytes) (padded : Nat) (fed : List Bytes) (taken : Bytes) (s : ReceiveDecryptSession) :
    Prop where
  settings : settings s = settings (start parts metadata token0 padded)
  next : s.nextTokenIndex = fed.length + 1
  within : fed.length < metadata.numTokens
  full : ∀ block ∈ fed, block.length = metadata.wireBlockSize
  leaves : s.leafHashes = fed.map C.sha256 ++ List.replicate (metadata.numTokens - fed.length) []
  payload : Payload C parts metadata padded fed.flatten taken s

theorem Described.valid (hd : Described C credential token0 parts metadata padded) :
    ValidCode metadata.segmentCode :=
  (paddedLength_inv native_size hd.length).1

theorem Described.cipherLength_eq (hd : Described C credential token0 parts metadata padded) :
    cipherLength padded metadata.segmentCode = metadata.ciphertextLength :=
  (paddedLength_inv native_size hd.length).2.2

theorem Payload.counted (h : Payload C parts metadata padded delivered taken s)
    (leaves : List Bytes) (index : Nat) (wire : Bytes) :
    Payload C parts metadata padded delivered taken
      { s with leafHashes := leaves, nextTokenIndex := index, token0Wire := wire } := by
  cases h with
  | whole hcode hkey hbuffer htaken => exact .whole hcode hkey hbuffer htaken
  | segmented text hcode hread hqueue hroom =>
    exact .segmented text hcode
      ⟨hread.sameParts, hread.sameMetadata, hread.size, hread.key, hread.opened⟩
      ⟨hqueue.normal, hqueue.produced, hqueue.consumed, hqueue.unread, hqueue.skip, hqueue.exported,
        hqueue.taken⟩ hroom

theorem feedCiphertext_spec (hv : ValidCode metadata.segmentCode) (hmetadata : s.metadata = metadata)
    (h : Payload C parts metadata padded delivered taken s)
    (hlen : delivered.length + data.length ≤ cipherLength padded metadata.segmentCode) :
    (∃ s', feedCiphertext C data s = .ok s' ∧
      Payload C parts metadata padded (delivered ++ data) taken s' ∧
      apartFromFeed s' = apartFromFeed s) ∨
    ∃ e s', feedCiphertext C data s = .error (e, s') ∧
      Refused C parts metadata padded (delivered ++ data) := by
  subst hmetadata
  rw [feedCiphertext]
  split
  next hnone =>
    rw [List.length_eq_zero_iff.mp hnone, List.append_nil]
    exact .inl ⟨s, rfl, h, rfl⟩
  next =>
    cases h with
    | whole hcode hkey hbuffer htaken =>
      have hmode : ¬ isV21SegmentedMode s.metadata.segmentCode = true := fun hm =>
        (segmentedMode_iff hv).mp hm hcode
      rw [if_pos hmode]
      exact .inl ⟨_, rfl, .whole hcode hkey (by rw [hbuffer]) htaken, rfl⟩
    | segmented text hcode hread hqueue hroom =>
      rw [if_neg (not_not.mpr ((segmentedMode_iff hv).mpr hcode))]
      rcases feedSegments_spec _ hcode hread hqueue hroom hlen (Nat.lt_succ_self _) with
        ⟨s', text', hok, hread', hqueue', hroom', hsame⟩ |
        ⟨e, s', text', consumed, herr, ⟨rest, rfl⟩, hread', -, hjam, -⟩
      · exact .inl ⟨s', hok, .segmented text' hcode hread' hqueue' hroom', hsame⟩
      · refine .inr ⟨e, s', herr, hcode, ?_⟩
        rw [← List.append_assoc]
        exact hjam.refuses hread' rest

theorem leaves_set (hashes : List Bytes) (hash : Bytes) {n : Nat} (hn : 0 < n) :
    (hashes ++ List.replicate n []).set hashes.length hash =
      hashes ++ [hash] ++ List.replicate (n - 1) [] := by
  obtain ⟨k, rfl⟩ : ∃ k, n = k + 1 := ⟨n - 1, by omega⟩
  rw [List.set_append_right _ _ le_rfl, Nat.sub_self, List.replicate_succ, List.set_cons_zero,
    Nat.add_sub_cancel, List.append_assoc, List.singleton_append]

section Calls

variable {fed : List Bytes} {wire : Bytes}

theorem Running.finalized (h : Running C parts metadata token0 padded fed taken s) :
    s.finalized = false := by
  have heq := congrArg (·.finalized) h.settings
  exact heq

theorem Running.sameMetadata (h : Running C parts metadata token0 padded fed taken s) :
    s.metadata = metadata := by
  have heq := congrArg (·.metadata) h.settings
  exact heq

theorem Running.block (h : Running C parts metadata token0 padded fed taken s) :
    s.wireBlockSize = metadata.wireBlockSize := by
  have heq := congrArg (·.wireBlockSize) h.settings
  exact heq

theorem Running.length_fed (h : Running C parts metadata token0 padded fed taken s) :
    fed.flatten.length = fed.length * metadata.wireBlockSize :=
  Cut.length_flatten_of_full fed h.full

/-- A session that goes on has opened every whole record. -/
theorem Running.wholeRecordsOpen (h : Running C parts metadata token0 padded fed taken s)
    (hcode : metadata.segmentCode ≠ 0) : WholeRecordsOpen C parts metadata padded fed.flatten := by
  cases h.payload with
  | whole hzero => exact absurd hzero hcode
  | segmented text _ hread hqueue hroom =>
    obtain ⟨stream, pieces, heq, hopened, -⟩ := hread.opened
    rw [recordLength, hread.size] at hroom
    exact ⟨stream, _, pieces, _, heq, hopened, hroom⟩

/-- The next token is taken in, or its ciphertext does not belong to any plaintext. -/
theorem addWireToken_spec (hd : Described C credential token0 parts metadata padded)
    (h : Running C parts metadata token0 padded fed taken s) (hnext : fed.length + 1 < metadata.numTokens)
    (hwire : wire.length = metadata.wireBlockSize) :
    (∃ s', addWireToken .native C (fed.length + 1) wire s = .ok s' ∧
      Running C parts metadata token0 padded (fed ++ [wire]) taken s') ∨
    ∃ e s', addWireToken .native C (fed.length + 1) wire s = .error (e, s') ∧
      Refused C parts metadata padded (fed.flatten ++ wire) := by
  have hlt := hd.tokens_lt
  have hmul : (fed.length + 1) * metadata.wireBlockSize ≤
      (metadata.numTokens - 1) * metadata.wireBlockSize := Nat.mul_le_mul_right _ (by omega)
  rw [Nat.add_mul, Nat.one_mul] at hmul
  have hlen : fed.flatten.length + wire.length ≤ cipherLength padded metadata.segmentCode := by
    rw [h.length_fed, hd.cipherLength_eq, ← hd.fills, hwire]
    omega
  rw [addWireToken, throwIf_neg (by simp [h.finalized]), thrownAt_ok_bind,
    throwIf_neg (by simp [h.next]), thrownAt_ok_bind, throwIf_neg (by rw [h.sameMetadata]; omega),
    thrownAt_ok_bind, throwIf_neg (by rw [h.block]; simp [hwire]), thrownAt_ok_bind]
  rcases feedCiphertext_spec (s := { s with
      leafHashes := s.leafHashes.set (fed.length + 1 - 1) (C.sha256 wire) }) hd.valid h.sameMetadata
      (h.payload.counted _ _ _) hlen with ⟨s', hok, hpayload, hsame⟩ | ⟨e, s', herr, hrefused⟩
  · refine .inl ⟨{ s' with nextTokenIndex := Machine.native.u32 (s'.nextTokenIndex + 1) }, ?_, ?_⟩
    · rw [hok, outcome_bind]
      rfl
    · have hindex : s'.nextTokenIndex = fed.length + 1 := by
        have heq := congrArg (·.nextTokenIndex) hsame
        exact heq.trans h.next
      have hleaves : s'.leafHashes = s.leafHashes.set (fed.length + 1 - 1) (C.sha256 wire) := by
        have heq := congrArg (·.leafHashes) hsame
        exact heq
      have hcount := leaves_set (fed.map C.sha256) (C.sha256 wire)
        (show 0 < metadata.numTokens - fed.length by omega)
      rw [List.length_map] at hcount
      refine ⟨(settings_of_feed hsame).trans h.settings, ?_, ?_, ?_, ?_, ?_⟩
      · rw [hindex, native_u32, Nat.mod_eq_of_lt (by omega), List.length_append,
          List.length_singleton]
      · rw [List.length_append, List.length_singleton]
        exact hnext
      · intro block hb
        rcases List.mem_append.mp hb with hb | hb
        · exact h.full block hb
        · rw [List.mem_singleton.mp hb, hwire]
      · rw [hleaves, h.leaves, Nat.add_sub_cancel, hcount, List.map_append, List.map_singleton,
          List.length_append, List.length_singleton, Nat.sub_sub]
      · rw [List.flatten_append, List.flatten_singleton]
        exact hpayload.counted _ _ _
  · exact .inr ⟨e, s', by rw [herr, outcome_error_bind], hrefused⟩

theorem start_running (hd : Described C credential token0 parts metadata padded) :
    Running C parts metadata token0 padded [] [] (start parts metadata token0 padded) := by
  refine ⟨rfl, rfl, hd.tokens, fun _ hb => absurd hb List.not_mem_nil, rfl, ?_⟩
  have hkey : KeyReady C (start parts metadata token0 padded) := by
    intro hready
    cases hready
  by_cases hcode : metadata.segmentCode = 0
  · exact .whole hcode hkey rfl rfl
  · refine .segmented [] hcode ⟨rfl, rfl, if_neg hcode, hkey, [], [], rfl, ?_, rfl⟩
      ⟨rfl, rfl, le_rfl, rfl, if_neg hcode, rfl, List.drop_nil.symm⟩ (Nat.succ_pos _)
    have hremaining : (start parts metadata token0 padded).remainingPlaintext = padded := if_neg hcode
    rw [hremaining]
    exact .nil padded

theorem takePlaintextChunk_spec (hd : Described C credential token0 parts metadata padded)
    (h : Running C parts metadata token0 padded fed taken s) (hcode : metadata.segmentCode ≠ 0)
    {maxBytes : Nat} (hmax : 0 < maxBytes) :
    ∃ chunk s', takePlaintextChunk maxBytes s = .ok (chunk, s') ∧
      Running C parts metadata token0 padded fed (taken ++ chunk) s' := by
  have hmode : isV21SegmentedMode s.metadata.segmentCode = true := by
    rw [h.sameMetadata]
    exact (segmentedMode_iff hd.valid).mpr hcode
  cases h.payload with
  | whole hzero => exact absurd hzero hcode
  | segmented text _ hread hqueue hroom =>
    obtain ⟨-, hqueue', hsame⟩ := drainReadyQueue_spec hqueue hmax
    obtain ⟨hread', hbuffer, hlen⟩ := hread.of_queue hsame
    have hnext : (drainReadyQueue maxBytes s).2.nextTokenIndex = s.nextTokenIndex :=
      congrArg (·.nextTokenIndex) hsame
    have hleaves : (drainReadyQueue maxBytes s).2.leafHashes = s.leafHashes :=
      congrArg (·.leafHashes) hsame
    refine ⟨(drainReadyQueue maxBytes s).1, (drainReadyQueue maxBytes s).2, if_pos hmode,
      (settings_of_queue hsame).trans h.settings, hnext.trans h.next,
      h.within, h.full, hleaves.trans h.leaves, .segmented text hcode hread' hqueue' ?_⟩
    rwa [hbuffer, hlen]

/-- What is stored for the last block. -/
def lastLeaf (C : Primitives) (last : Bytes) : Bytes := if last = [] then [] else C.sha256 last

/-- The session when the last block has been fed. -/
structure Filled (C : Primitives) (parts : CredentialParts) (metadata : SmbMetadata)
    (padded : Nat) (leaves : List Bytes) (stream taken : Bytes) (s : ReceiveDecryptSession) :
    Prop where
  sameParts : s.credentialParts = parts
  sameMetadata : s.metadata = metadata
  samePadded : s.paddedPlaintextLength = padded
  sameOriginal : s.originalFileLength = metadata.originalFileLength
  leaves : s.leafHashes = leaves
  payload : Payload C parts metadata padded stream taken s

theorem feedLastLogicalBlock_spec (hd : Described C credential token0 parts metadata padded)
    (h : Running C parts metadata token0 padded fed taken s)
    (hlast : fed.length + 1 = metadata.numTokens) :
    (∃ s', feedLastLogicalBlock .native C s = .ok s' ∧
      Filled C parts metadata padded (fed.map C.sha256 ++ [lastLeaf C (token0.drop 373)])
        (fed.flatten ++ token0.drop 373) taken s') ∨
    ∃ e s', feedLastLogicalBlock .native C s = .error (e, s') ∧
      Refused C parts metadata padded (fed.flatten ++ token0.drop 373) := by
  have hlength : s.lastBlockLength = metadata.wireBlockSize - 373 :=
    congrArg (·.lastBlockLength) h.settings
  have htoken : s.token0Wire = token0 := congrArg (·.token0Wire) h.settings
  have hparts : s.credentialParts = parts := congrArg (·.credentialParts) h.settings
  have hpadded : s.paddedPlaintextLength = padded := congrArg (·.paddedPlaintextLength) h.settings
  have horiginal : s.originalFileLength = metadata.originalFileLength :=
    congrArg (·.originalFileLength) h.settings
  have hdrop : (token0.drop 373).length = metadata.wireBlockSize - 373 := by
    rw [List.length_drop, hd.block]
  have hone : metadata.numTokens - fed.length = 1 := by omega
  have hleaves := h.leaves
  rw [hone] at hleaves
  rw [feedLastLogicalBlock]
  split
  next hzero =>
    have hnil : token0.drop 373 = [] :=
      List.length_eq_zero_iff.mp (hdrop.trans (hlength.symm.trans hzero))
    rw [hnil, List.append_nil, lastLeaf, if_pos rfl]
    exact .inl ⟨s, rfl, hparts, h.sameMetadata, hpadded, horiginal, hleaves, h.payload⟩
  next hpos =>
    rw [hlength, ← hdrop] at hpos
    have hne : token0.drop 373 ≠ [] := fun hnil => hpos (congrArg List.length hnil)
    have hfloor := hd.floor
    have hblock := hd.block
    have hslice : slice s.token0Wire kSmEncBytes
        (Machine.native.size (kSmEncBytes + s.lastBlockLength)) = .ok (token0.drop 373) := by
      rw [htoken, hlength, native_size, kSmEncBytes_eq, slice, if_pos ⟨by omega, by omega⟩,
        List.take_of_length_le (by rw [hdrop]; omega)]
    have hlen : fed.flatten.length + (token0.drop 373).length ≤
        cipherLength padded metadata.segmentCode := by
      rw [h.length_fed, hdrop, hd.cipherLength_eq, ← hd.fills,
        show fed.length = metadata.numTokens - 1 by omega]
    have hset := leaves_set (fed.map C.sha256) (C.sha256 (token0.drop 373)) Nat.one_pos
    rw [List.length_map, Nat.sub_self, List.replicate_zero, List.append_nil] at hset
    rw [hslice, thrownAt_ok_bind]
    rcases feedCiphertext_spec (s := { s with
        leafHashes := s.leafHashes.set (s.metadata.numTokens - 1) (C.sha256 (token0.drop 373)) })
        hd.valid h.sameMetadata (h.payload.counted _ _ _) hlen with
      ⟨s', hok, hpayload, hsame⟩ | ⟨e, s', herr, hrefused⟩
    · have hsettings := settings_of_feed hsame
      have hleaves' : s'.leafHashes =
          s.leafHashes.set (s.metadata.numTokens - 1) (C.sha256 (token0.drop 373)) :=
        congrArg (·.leafHashes) hsame
      rw [hleaves, h.sameMetadata, show metadata.numTokens - 1 = fed.length by omega,
        List.replicate_one] at hleaves'
      rw [hok, outcome_bind]
      refine .inl ⟨_, rfl, (congrArg (·.credentialParts) hsettings).trans hparts,
        (congrArg (·.metadata) hsettings).trans h.sameMetadata,
        (congrArg (·.paddedPlaintextLength) hsettings).trans hpadded,
        (congrArg (·.originalFileLength) hsettings).trans horiginal, ?_, ?_⟩
      · rw [lastLeaf, if_neg hne]
        exact hleaves'.trans hset
      · exact hpayload.counted _ _ _
    · exact .inr ⟨e, s', by rw [herr, outcome_error_bind], hrefused⟩

/-- What a finished session has left to hand out. -/
inductive Left (metadata : SmbMetadata) (padded : Nat) (plaintext taken : Bytes)
    (s : ReceiveDecryptSession) : Prop
  | whole (hcode : metadata.segmentCode = 0)
      (hbuffer : s.plaintextPadded =
        (plaintext.drop (padded - metadata.originalFileLength)).drop taken.length)
      (htaken : taken =
        (plaintext.drop (padded - metadata.originalFileLength)).take taken.length)
  | segmented (hcode : metadata.segmentCode ≠ 0)
      (hqueue : Queue (padded - metadata.originalFileLength) plaintext taken s)

/-- The end of `complete_finalize` opens the whole ciphertext, or throws because nothing opens it. -/
def Finished (C : Primitives) (parts : CredentialParts) (metadata : SmbMetadata) (padded : Nat)
    (stream taken : Bytes) (x : Outcome) : Prop :=
  (∃ plaintext s', OpensTo C parts metadata padded stream plaintext ∧ x = .ok s' ∧
    s'.metadata = metadata ∧ Left metadata padded plaintext taken s') ∨
  (∃ e s', x = .error (e, s')) ∧ ∀ plaintext, ¬ OpensTo C parts metadata padded stream plaintext

theorem wholeFileMode_iff {code : Nat} : isV2WholeFileMode code = true ↔ code = 0 := by
  rw [isV2WholeFileMode, kV2SegmentCodeWholeFile, beq_iff_eq]

variable {leaves : List Bytes}

theorem finishWholeFile_spec (h : Filled C parts metadata padded leaves stream taken s)
    (hcode : metadata.segmentCode = 0) (hfile : metadata.originalFileLength ≤ padded) :
    Finished C parts metadata padded stream taken (finishWholeFile C s) := by
  cases h.payload with
  | segmented _ hne => exact absurd hcode hne
  | whole _ hkey hbuffer htaken =>
    have hopens : ∀ kFek plaintext,
        decryptPayloadForSegmentCode C kFek stream metadata padded = .ok plaintext ↔
        decryptPayloadV2WholeFile C kFek stream padded = .ok plaintext := by
      intro kFek plaintext
      rw [decryptPayloadForSegmentCode, if_pos (wholeFileMode_iff.mpr hcode)]
    rw [finishWholeFile]
    cases hu : unlock C parts metadata with
    | error e =>
      have hu' := hu
      rw [← h.sameParts, ← h.sameMetadata] at hu'
      rw [readyFek_error hkey hu', outcome_error_bind]
      refine .inr ⟨⟨e, s, rfl⟩, fun plaintext hopen => ?_⟩
      obtain ⟨kFek, hok, -⟩ := hopen
      simp [hu] at hok
    | ok kFek =>
      have hu' := hu
      rw [← h.sameParts, ← h.sameMetadata] at hu'
      rw [readyFek_ok hkey hu', outcome_bind]
      dsimp only
      rw [hbuffer, h.samePadded, h.sameOriginal]
      cases hdec : decryptPayloadV2WholeFile C kFek stream padded with
      | error e =>
        rw [thrownAt_error_bind]
        refine .inr ⟨⟨e, _, rfl⟩, fun plaintext hopen => ?_⟩
        obtain ⟨kFek', hok, hplain⟩ := hopen
        obtain rfl := Except.ok.inj (hu.symm.trans hok)
        simp [(hopens _ _).mp hplain] at hdec
      | ok plaintext =>
        have hlen : plaintext.length = padded := by
          rw [decryptPayloadV2WholeFile, bind_eq_ok] at hdec
          obtain ⟨p, -, hp⟩ := hdec
          rw [throwIf_bind_eq_ok, not_not, pure_eq_ok, Except.ok.injEq] at hp
          exact hp.2 ▸ hp.1
        have hdrop : (plaintext.drop (padded - metadata.originalFileLength)).length =
            metadata.originalFileLength := by
          rw [List.length_drop, hlen]
          omega
        rw [thrownAt_ok_bind, throwIf_neg (by simpa using hdrop), thrownAt_ok_bind]
        refine .inl ⟨plaintext, _, ⟨kFek, hu, (hopens _ _).mpr hdec⟩, rfl, h.sameMetadata,
          .whole hcode ?_ ?_⟩
        · rw [htaken]
          rfl
        · rw [htaken]
          rfl

theorem finishSegmented_spec (hd : Described C credential token0 parts metadata padded)
    (h : Filled C parts metadata padded leaves stream taken s)
    (hcode : metadata.segmentCode ≠ 0) :
    Finished C parts metadata padded stream taken (finishSegmented s) := by
  obtain ⟨hv, hpos, -⟩ := paddedLength_inv native_size hd.length
  have hfile := hd.file
  cases h.payload with
  | whole hzero => exact absurd hzero hcode
  | segmented text _ hread hqueue hroom =>
    obtain ⟨front, pieces, rfl, hopened, rfl⟩ := hread.opened
    have hopens (plaintext : Bytes) :
        OpensTo C parts metadata padded (front ++ s.ciphertextPackBuffer) plaintext ↔
          ∃ all, Records C parts metadata padded (front ++ s.ciphertextPackBuffer) all 0 ∧
            all.flatten = plaintext := opensTo_iff hv hcode (hpos.resolve_left hcode)
    rw [finishSegmented]
    by_cases hdone : s.ciphertextPackBuffer = [] ∧ s.remainingPlaintext = 0
    · obtain ⟨hbuffer, hremaining⟩ := hdone
      have hlen := hopened.length_flatten
      rw [hremaining, Nat.add_zero] at hlen
      have hle := hqueue.consumed
      have hfileLeft := hqueue.fileAvailable
      rw [throwIf_neg (by simp [hbuffer, hremaining]), thrownAt_ok_bind,
        throwIf_neg (by rw [hqueue.produced, h.samePadded, hlen]; simp), thrownAt_ok_bind,
        throwIf_neg (by rw [hqueue.available, hqueue.produced]; omega), thrownAt_ok_bind,
        throwIf_neg (by rw [hqueue.exported, h.sameOriginal]; omega), thrownAt_ok_bind]
      rw [hremaining] at hopened
      refine .inl ⟨pieces.flatten, _, (hopens _).mpr ⟨pieces, ?_, rfl⟩, rfl, h.sameMetadata,
        .segmented hcode ⟨hqueue.normal, hqueue.produced, hqueue.consumed, hqueue.unread, hqueue.skip,
          hqueue.exported, hqueue.taken⟩⟩
      rwa [hbuffer, List.append_nil]
    · rw [throwIf_pos (by tauto), thrownAt_error_bind]
      refine .inr ⟨⟨_, _, rfl⟩, fun plaintext hopen => hdone ?_⟩
      obtain ⟨all, hall, -⟩ := (hopens plaintext).mp hopen
      obtain ⟨later, -, hlater⟩ := hopened.split (segmentBytes_pos _) hall
      rw [recordLength, hread.size] at hroom
      generalize s.remainingPlaintext = r at *
      generalize s.ciphertextPackBuffer = buffer at *
      cases hlater with
      | nil => exact ⟨rfl, rfl⟩
      | cons _ hrecord =>
        rw [List.length_append, hrecord] at hroom
        omega

theorem Left.finalized {plaintext : Bytes} (h : Left metadata padded plaintext taken s) :
    Left metadata padded plaintext taken { s with finalized := true } := by
  cases h with
  | whole hcode hbuffer htaken => exact .whole hcode hbuffer htaken
  | segmented hcode hqueue =>
    exact .segmented hcode ⟨hqueue.normal, hqueue.produced, hqueue.consumed, hqueue.unread,
      hqueue.skip, hqueue.exported, hqueue.taken⟩

/-- What the streaming receiver needs to accept these tokens. -/
def Accepts (C : Primitives) (parts : CredentialParts) (metadata : SmbMetadata) (padded : Nat)
    (leaves : List Bytes) (stream plaintext : Bytes) : Prop :=
  verifyMerkleRootFromLeafHashes C leaves metadata.rootHash = true ∧
    OpensTo C parts metadata padded stream plaintext

/-- A finished session. -/
structure Done (metadata : SmbMetadata) (padded : Nat) (plaintext taken : Bytes)
    (s : ReceiveDecryptSession) : Prop where
  sameMetadata : s.metadata = metadata
  finalized : s.finalized = true
  left : Left metadata padded plaintext taken s

theorem Refused.not_opensTo (h : Refused C parts metadata padded delivered)
    (hd : Described C credential token0 parts metadata padded) (more plaintext : Bytes) :
    ¬ OpensTo C parts metadata padded (delivered ++ more) plaintext := by
  obtain ⟨hv, hpos, -⟩ := paddedLength_inv native_size hd.length
  rw [opensTo_iff hv h.1 (hpos.resolve_left h.1)]
  rintro ⟨pieces, hall, -⟩
  exact h.2 (Records.wholeRecordsOpen hall).start

/-- `complete_finalize` opens the tokens or throws, and it throws only if they are not acceptable. -/
def Completed (C : Primitives) (parts : CredentialParts) (metadata : SmbMetadata) (padded : Nat)
    (leaves : List Bytes) (stream taken : Bytes) (x : Outcome) : Prop :=
  (∃ plaintext s', Accepts C parts metadata padded leaves stream plaintext ∧ x = .ok s' ∧
    Done metadata padded plaintext taken s') ∨
  (∃ e s', x = .error (e, s')) ∧
    ∀ plaintext, ¬ Accepts C parts metadata padded leaves stream plaintext

theorem Finished.completed {x : Outcome} (h : Finished C parts metadata padded stream taken x)
    (hroot : verifyMerkleRootFromLeafHashes C leaves metadata.rootHash = true) :
    Completed C parts metadata padded leaves stream taken
      (x >>= fun s => pure { s with finalized := true }) := by
  rcases h with ⟨plaintext, s', hopens, rfl, hmetadata, hleft⟩ | ⟨⟨e, s', rfl⟩, hnone⟩
  · exact .inl ⟨plaintext, _, ⟨hroot, hopens⟩, rfl, hmetadata, rfl, hleft.finalized⟩
  · exact .inr ⟨⟨e, s', rfl⟩, fun plaintext haccepts => hnone plaintext haccepts.2⟩

theorem completeFinalize_spec (hd : Described C credential token0 parts metadata padded)
    (h : Running C parts metadata token0 padded fed taken s)
    (hlast : fed.length + 1 = metadata.numTokens)
    (hleaves : leaves = fed.map C.sha256 ++ [lastLeaf C (token0.drop 373)])
    (hstream : stream = fed.flatten ++ token0.drop 373) :
    Completed C parts metadata padded leaves stream taken (completeFinalize .native C s) := by
  rw [completeFinalize, throwIf_neg (by simp [h.finalized]), thrownAt_ok_bind,
    throwIf_neg (by rw [h.next, h.sameMetadata]; omega), thrownAt_ok_bind]
  rcases feedLastLogicalBlock_spec hd h hlast with ⟨s₁, hok, hfilled⟩ | ⟨e, s₁, herr, hrefused⟩
  · rw [← hleaves, ← hstream] at hfilled
    have hverify : verifyMerkleRootFromLeafHashes C s₁.leafHashes s₁.metadata.rootHash =
        verifyMerkleRootFromLeafHashes C leaves metadata.rootHash := by
      rw [hfilled.leaves, hfilled.sameMetadata]
    rw [hok, outcome_bind]
    by_cases hroot : verifyMerkleRootFromLeafHashes C leaves metadata.rootHash = true
    · rw [throwIf_neg (not_not.mpr (hverify.trans hroot)), thrownAt_ok_bind]
      have hfilled' : Filled C parts metadata padded [] stream taken { s₁ with leafHashes := [] } :=
        ⟨hfilled.sameParts, hfilled.sameMetadata, hfilled.samePadded, hfilled.sameOriginal, rfl,
          hfilled.payload.counted _ _ _⟩
      have hmode : isV2WholeFileMode s₁.metadata.segmentCode = true ↔ metadata.segmentCode = 0 := by
        rw [hfilled.sameMetadata]
        exact wholeFileMode_iff
      by_cases hcode : metadata.segmentCode = 0
      · rw [if_pos (hmode.mpr hcode)]
        exact (finishWholeFile_spec hfilled' hcode hd.file).completed hroot
      · rw [if_neg fun hm => hcode (hmode.mp hm)]
        exact (finishSegmented_spec hd hfilled' hcode).completed hroot
    · rw [throwIf_pos (by rwa [hverify]), thrownAt_error_bind]
      exact .inr ⟨⟨_, _, rfl⟩, fun _ haccepts => hroot haccepts.1⟩
  · rw [herr, outcome_error_bind]
    refine .inr ⟨⟨e, s₁, rfl⟩, fun plaintext haccepts => ?_⟩
    rw [hstream] at haccepts
    have hnot := hrefused.not_opensTo hd [] plaintext
    rw [List.append_nil] at hnot
    exact hnot haccepts.2

/-- A chunk of a finished session is what follows, up to its size. -/
theorem Done.take {plaintext : Bytes} (hv : ValidCode metadata.segmentCode)
    (h : Done metadata padded plaintext taken s) {maxBytes : Nat} (hmax : 0 < maxBytes) :
    ∃ s', takePlaintextChunk maxBytes s =
        .ok (((plaintext.drop (padded - metadata.originalFileLength)).drop taken.length).take maxBytes,
          s') ∧
      Done metadata padded plaintext (taken ++
        ((plaintext.drop (padded - metadata.originalFileLength)).drop taken.length).take maxBytes)
        s' := by
  have hmode := segmentedMode_iff hv
  rw [takePlaintextChunk, h.sameMetadata]
  cases h.left with
  | whole hcode hbuffer htaken =>
    rw [if_neg (by rw [hmode]; exact not_not.mpr hcode), throwIf_neg (by simp [h.finalized]), ok_bind,
      drainPlaintextBuffer, hbuffer]
    refine ⟨_, rfl, h.sameMetadata, h.finalized, .whole hcode ?_ ?_⟩
    · generalize plaintext.drop (padded - metadata.originalFileLength) = file
      dsimp only
      rw [List.drop_drop, List.length_append, List.length_take, List.length_drop,
        List.drop_eq_drop_iff]
      omega
    · generalize plaintext.drop (padded - metadata.originalFileLength) = file at htaken ⊢
      rw [List.length_append, List.length_take, List.length_drop]
      generalize taken.length = t at htaken ⊢
      rw [htaken, ← List.take_add, List.take_eq_take_iff]
      omega
  | segmented hcode hqueue =>
    obtain ⟨hchunk, hqueue', hsame⟩ := drainReadyQueue_spec hqueue hmax
    rw [if_pos (hmode.mpr hcode)]
    refine ⟨(drainReadyQueue maxBytes s).2, ?_, (congrArg (·.metadata) hsame).trans h.sameMetadata,
      (congrArg (·.finalized) hsame).trans h.finalized, .segmented hcode ?_⟩
    · rw [← hchunk]
    · rwa [hchunk] at hqueue'

end Calls

end TwelveC.ReceiveSession
