import TwelveC.StreamingReceive
import TwelveC.Sender
import TwelveC.PlainCrypto

/-!
# The two receivers of one upload map

The streaming receiver takes the tokens out of the map one by one, chunks being
taken in between, and `complete_finalize` ends it. It is compared with
`receive_from_upload_map` on the same map.
-/

namespace TwelveC.ReceiveSession

open Segment TwelveC.Payload Merkle Smb Crypto Receiver Lib

/-- A call between the constructor and `complete_finalize`: `add_wire_token` with the next token of the
map, or `take_plaintext_chunk`. -/
inductive Call where
  | feed
  | take (maxBytes : Nat)
  deriving DecidableEq, Repr

section receiver

variable (M : Machine) (C : Primitives) (uploads : UploadMap)

def call (run : ReceiveDecryptSession × Bytes) : Call → Except Exn (ReceiveDecryptSession × Bytes)
  | .feed => do
    let wire ← lookupUpload uploads (makeToken C run.1.credentialParts.searchCode run.1.nextTokenIndex)
    let s ← (addWireToken M C run.1.nextTokenIndex wire run.1).mapError Prod.fst
    return (s, run.2)
  | .take maxBytes => do
    let (chunk, s) ← takePlaintextChunk maxBytes run.1
    return (s, run.2 ++ chunk)

def openSession (credential : Str) : Except Exn ReceiveDecryptSession := do
  let parts ← splitCredential credential
  let token0Wire ← lookupUpload uploads (makeToken C parts.searchCode 0)
  new M C credential token0Wire

/-- The session at its end, with the chunks taken before. -/
def streamed (credential : Str) (calls : List Call) : Except Exn (ReceiveDecryptSession × Bytes) := do
  let s ← openSession M C uploads credential
  let (s, chunks) ← calls.foldlM (call M C uploads) (s, [])
  let s ← (completeFinalize M C s).mapError Prod.fst
  return (s, chunks)

end receiver

/-- All tokens are fed, and a chunk is taken only where the mode permits it. -/
structure InOrder (metadata : SmbMetadata) (calls : List Call) : Prop where
  feeds : calls.count .feed = metadata.numTokens - 1
  takes : ∀ n, .take n ∈ calls → 0 < n ∧ metadata.segmentCode ≠ 0

/-- The session ends if the batch receiver succeeds, and then the chunks before and after are its
plaintext. -/
structure Agrees (C : Primitives) (uploads : UploadMap) (credential : Str) (calls : List Call) : Prop where
  accepts : (∃ run, streamed .native C uploads credential calls = .ok run) ↔
    ∃ file, receiveFromUploadMap .native C credential uploads = .ok file
  chunks : ∀ run file, streamed .native C uploads credential calls = .ok run →
    receiveFromUploadMap .native C credential uploads = .ok file →
    ∀ sizes : List Nat, (∀ n ∈ sizes, 0 < n) →
      ∃ last, (sizes.map Call.take).foldlM (call .native C uploads) run = .ok last ∧
        last.2 <+: file ∧ (file.length ≤ run.2.length + sizes.sum → last.2 = file)

def StreamsAsBatch (C : Primitives) (uploads : UploadMap) (credential : Str) : Prop :=
  ∀ calls, (∀ s, openSession .native C uploads credential = .ok s → InOrder s.metadata calls) →
    Agrees C uploads credential calls

/-- What the map has under the credential. -/
structure Stored (C : Primitives) (uploads : UploadMap) (credential : Str) (token0 : Bytes)
    (parts : CredentialParts) (metadata : SmbMetadata) (padded : Nat) (leading : List Bytes) : Prop where
  described : Described C credential token0 parts metadata padded
  token0 : lookupUpload uploads (makeToken C parts.searchCode 0) = .ok token0
  leading : (List.range' 1 (metadata.numTokens - 1)).mapM
    (collectBlock C uploads parts.searchCode metadata.wireBlockSize) = .ok leading

/-- The object opens, its last block is empty, and the root in its SMB tells the hash of the empty
block from the hash that was never set. -/
def EmptyLastBlock (C : Primitives) (uploads : UploadMap) (credential : Str) : Prop :=
  ∃ token0 parts metadata padded leading plaintext,
    Stored C uploads credential token0 parts metadata padded leading ∧
    metadata.wireBlockSize = 373 ∧ OpensTo C parts metadata padded leading.flatten plaintext ∧
    verifyMerkleRootFromLeafHashes C (leading.map C.sha256 ++ [[]]) metadata.rootHash ≠
      verifyMerkleRootFromLeafHashes C (leading.map C.sha256 ++ [C.sha256 []]) metadata.rootHash

variable {C : Primitives} {uploads : UploadMap} {credential : Str} {token0 : Bytes}
  {parts : CredentialParts} {metadata : SmbMetadata} {padded : Nat} {leading fed : List Bytes}
  {s : ReceiveDecryptSession} {taken stream : Bytes}

theorem OpensTo.length (hd : Described C credential token0 parts metadata padded) {plaintext : Bytes}
    (h : OpensTo C parts metadata padded stream plaintext) : plaintext.length = padded := by
  obtain ⟨hv, hpos, -⟩ := paddedLength_inv native_size hd.length
  by_cases hcode : metadata.segmentCode = 0
  · obtain ⟨kFek, -, hdecrypt⟩ := h
    rw [decryptPayloadForSegmentCode, if_pos (wholeFileMode_iff.mpr hcode), decryptPayloadV2WholeFile,
      bind_eq_ok] at hdecrypt
    obtain ⟨opened, -, hopened⟩ := hdecrypt
    rw [throwIf_bind_eq_ok, not_not, pure_eq_ok, Except.ok.injEq] at hopened
    exact hopened.2 ▸ hopened.1
  · obtain ⟨pieces, hopened, rfl⟩ := (opensTo_iff hv hcode (hpos.resolve_left hcode)).mp h
    exact hopened.length_flatten

theorem Stored.last (h : Stored C uploads credential token0 parts metadata padded leading) :
    (token0.drop 373).length = metadata.wireBlockSize - 373 := by
  rw [List.length_drop, h.described.block]

theorem Stored.found (h : Stored C uploads credential token0 parts metadata padded leading) :
    List.Forall₂ (fun i block => collectBlock C uploads parts.searchCode metadata.wireBlockSize i =
      .ok block) (List.range' 1 (metadata.numTokens - 1)) leading := mapM_eq_ok.mp h.leading

theorem Stored.length_leading (h : Stored C uploads credential token0 parts metadata padded leading) :
    leading.length + 1 = metadata.numTokens := by
  have hlen := h.found.length_eq
  have hpos := h.described.tokens
  rw [List.length_range'] at hlen
  omega

theorem collectBlock_eq_ok {searchCode : Str} {size i : Nat} {block : Bytes} :
    collectBlock C uploads searchCode size i = .ok block ↔
      lookupUpload uploads (makeToken C searchCode i) = .ok block ∧ block.length = size := by
  rw [collectBlock, bind_eq_ok]
  constructor
  · rintro ⟨wire, hwire, hblock⟩
    rw [throwIf_bind_eq_ok, not_not, pure_eq_ok, Except.ok.injEq] at hblock
    obtain ⟨hsize, rfl⟩ := hblock
    exact ⟨hwire, hsize⟩
  · rintro ⟨hwire, hsize⟩
    refine ⟨block, hwire, ?_⟩
    rw [throwIf_bind_eq_ok, not_not]
    exact ⟨hsize, rfl⟩

theorem Stored.full (h : Stored C uploads credential token0 parts metadata padded leading) :
    ∀ block ∈ leading, block.length = metadata.wireBlockSize := by
  intro block hblock
  obtain ⟨i, -, hi⟩ := mapM_ok_mem h.leading hblock
  exact (collectBlock_eq_ok.mp hi).2

theorem Stored.length_ciphertext
    (h : Stored C uploads credential token0 parts metadata padded leading) :
    (leading.flatten ++ token0.drop 373).length = metadata.ciphertextLength := by
  rw [List.length_append, Cut.length_flatten_of_full leading h.full, h.last, ← h.described.fills,
    show leading.length = metadata.numTokens - 1 by have := h.length_leading; omega]

theorem decryptFile_eq_ok (h : Stored C uploads credential token0 parts metadata padded leading)
    {file : Bytes} :
    decryptFile .native C parts metadata (leading ++ [token0.drop 373]) = .ok file ↔
      ∃ plaintext, OpensTo C parts metadata padded (leading.flatten ++ token0.drop 373) plaintext ∧
        file = plaintext.drop (padded - metadata.originalFileLength) := by
  have hd := h.described
  have hfile := hd.file
  have hconcat : concatenateBlocks (leading ++ [token0.drop 373]) =
      leading.flatten ++ token0.drop 373 := by
    rw [concatenateBlocks, List.flatten_append, List.flatten_singleton]
  rw [decryptFile, hconcat, h.length_ciphertext]
  simp only [native_size]
  rw [throwIf_neg (not_not.mpr rfl), ok_bind, bind_eq_ok]
  constructor
  · rintro ⟨kFek, hunlock, hrest⟩
    rw [hd.length, ok_bind, bind_eq_ok] at hrest
    obtain ⟨plaintext, hdecrypt, hrest⟩ := hrest
    rw [throwIf_bind_eq_ok, throwIf_bind_eq_ok, throwIf_bind_eq_ok, pure_eq_ok, Except.ok.injEq] at hrest
    exact ⟨plaintext, ⟨kFek, hunlock, hdecrypt⟩, hrest.2.2.2.symm⟩
  · rintro ⟨plaintext, hopens, rfl⟩
    have hlen := hopens.length hd
    obtain ⟨kFek, hunlock, hdecrypt⟩ := hopens
    refine ⟨kFek, hunlock, ?_⟩
    have hdrop : (plaintext.drop (padded - metadata.originalFileLength)).length =
        metadata.originalFileLength := by
      rw [List.length_drop, hlen]
      omega
    rw [hd.length, ok_bind, hdecrypt, ok_bind, throwIf_neg (not_lt.mpr hfile), ok_bind,
      throwIf_neg (not_not.mpr hlen), ok_bind, throwIf_neg (not_not.mpr hdrop), ok_bind]
    rfl

theorem slice_last (hfloor : 373 ≤ token0.length) {n : Nat} (hn : 373 + n = token0.length) :
    slice token0 373 (373 + n) = .ok (token0.drop 373) := by
  rw [slice, if_pos ⟨by omega, by omega⟩, List.take_of_length_le]
  rw [List.length_drop]
  omega

theorem collectBlocks_eq_ok (hparse : parseSmbEncrypted .native C credential token0 = .ok metadata)
    (hfound : lookupUpload uploads (makeToken C parts.searchCode 0) = .ok token0)
    (hpos : 0 < metadata.numTokens) {blocks : List Bytes} :
    collectBlocksFromUploads .native C uploads parts.searchCode metadata = .ok blocks ↔
      token0.length = metadata.wireBlockSize ∧
      (metadata.numTokens - 1) * metadata.wireBlockSize + (metadata.wireBlockSize - 373) =
        metadata.ciphertextLength ∧
      ∃ leading, (List.range' 1 (metadata.numTokens - 1)).mapM
          (collectBlock C uploads parts.searchCode metadata.wireBlockSize) = .ok leading ∧
        verifyMerkleRootFromLeafHashes C (leading.map C.sha256 ++ [C.sha256 (token0.drop 373)])
          metadata.rootHash = true ∧
        blocks = leading ++ [token0.drop 373] := by
  obtain ⟨hfloor, -, -⟩ := parse_bounds hparse
  have hverify (leading : List Bytes) :
      verifyMerkleRoot C (leading ++ [token0.drop 373]) metadata.rootHash =
        verifyMerkleRootFromLeafHashes C (leading.map C.sha256 ++ [C.sha256 (token0.drop 373)])
          metadata.rootHash := by
    rw [← verify_fromLeafHashes_map, List.map_append, List.map_singleton]
    rfl
  rw [collectBlocksFromUploads, if_neg (by omega), hfound, ok_bind, throwIf_bind_eq_ok, not_not]
  simp only [native_size, kSmEncBytes_eq]
  refine and_congr_right fun hblock => ?_
  rw [throwIf_bind_eq_ok, not_not, fills_iff hparse hpos hblock]
  refine and_congr_right fun hfills => ?_
  have hlast := (fills_iff hparse hpos hblock).mpr hfills
  rw [bind_eq_ok]
  refine exists_congr fun leading => and_congr_right fun _ => ?_
  rw [slice_last hfloor (hlast.trans hblock.symm), ok_bind, throwIf_bind_eq_ok, not_not, hverify,
    pure_eq_ok, Except.ok.injEq]
  exact and_congr_right fun _ => eq_comm

theorem cipherLength_pos {code : Nat} (hpos : code = 0 ∨ 1 ≤ padded) : 0 < cipherLength padded code := by
  rw [cipherLength]
  rcases hpos with rfl | hpos
  · rw [recordCount, if_pos rfl]
    omega
  · omega

/-- What `decrypt_file` has checked by its end. -/
theorem of_decryptFile {M : Machine} {blocks : List Bytes} {file : Bytes}
    (h : decryptFile M C parts metadata blocks = .ok file) :
    ∃ padded, paddedPlaintextLengthFromCiphertext M (M.size metadata.ciphertextLength)
        metadata.segmentCode = .ok padded ∧ M.size metadata.originalFileLength ≤ padded ∧
      (concatenateBlocks blocks).length = M.size metadata.ciphertextLength := by
  rw [decryptFile, throwIf_bind_eq_ok, not_not, bind_eq_ok] at h
  obtain ⟨htotal, kFek, -, h⟩ := h
  obtain ⟨padded, hlength, h⟩ := bind_eq_ok.mp h
  obtain ⟨plaintext, -, h⟩ := bind_eq_ok.mp h
  rw [throwIf_bind_eq_ok] at h
  exact ⟨padded, hlength, not_lt.mp h.1, htotal⟩

theorem receiveFromUploadMap_eq_ok {file : Bytes} :
    receiveFromUploadMap .native C credential uploads = .ok file ↔
      ∃ token0 parts metadata padded leading plaintext,
        Stored C uploads credential token0 parts metadata padded leading ∧
        Accepts C parts metadata padded (leading.map C.sha256 ++ [C.sha256 (token0.drop 373)])
          (leading.flatten ++ token0.drop 373) plaintext ∧
        file = plaintext.drop (padded - metadata.originalFileLength) := by
  simp only [receiveFromUploadMap, bind_eq_ok]
  constructor
  · rintro ⟨parts, hsplit, token0, hfound, metadata, hparse, blocks, hblocks, hdecrypt⟩
    obtain ⟨padded, hlength, hfile, htotal⟩ := of_decryptFile hdecrypt
    rw [native_size] at hlength hfile htotal
    have hpos : 0 < metadata.numTokens := by
      refine Nat.pos_of_ne_zero fun hzero => ?_
      rw [collectBlocksFromUploads, if_pos hzero] at hblocks
      cases hblocks
      obtain ⟨-, hsome, hcipher⟩ := paddedLength_inv native_size hlength
      have hnone : 0 = metadata.ciphertextLength := htotal
      exact absurd (hcipher.trans hnone.symm) (Nat.ne_of_gt (cipherLength_pos hsome))
    obtain ⟨hblock, hfills, leading, hleading, hroot, rfl⟩ :=
      (collectBlocks_eq_ok hparse hfound hpos).mp hblocks
    obtain ⟨hfloor, hm, -⟩ := parse_bounds hparse
    have hstored : Stored C uploads credential token0 parts metadata padded leading :=
      ⟨⟨hsplit, hparse, hpos, hm, hblock, hblock ▸ hfloor, hfills, hlength, hfile⟩, hfound, hleading⟩
    obtain ⟨plaintext, hopens, rfl⟩ := (decryptFile_eq_ok hstored).mp hdecrypt
    exact ⟨token0, parts, metadata, padded, leading, plaintext, hstored, ⟨hroot, hopens⟩, rfl⟩
  · rintro ⟨token0, parts, metadata, padded, leading, plaintext, hstored, ⟨hroot, hopens⟩, rfl⟩
    have hd := hstored.described
    refine ⟨parts, hd.split, token0, hstored.token0, metadata, hd.parse, leading ++ [token0.drop 373],
      (collectBlocks_eq_ok hd.parse hstored.token0 hd.tokens).mpr ⟨hd.block, hd.fills, leading,
        hstored.leading, hroot, rfl⟩, (decryptFile_eq_ok hstored).mpr ⟨plaintext, hopens, rfl⟩⟩

theorem Stored.block_at (h : Stored C uploads credential token0 parts metadata padded leading) {i : Nat}
    (hi : i + 1 < metadata.numTokens) :
    ∃ block, leading[i]? = some block ∧
      collectBlock C uploads parts.searchCode metadata.wireBlockSize (i + 1) = .ok block := by
  have hlen := h.length_leading
  obtain ⟨-, hget⟩ := List.forall₂_iff_get.mp h.found
  have hblock := hget i (by rw [List.length_range']; omega) (by omega)
  rw [List.get_eq_getElem, List.getElem_range', Nat.one_mul, Nat.add_comm 1 i] at hblock
  exact ⟨_, List.getElem?_eq_getElem (by omega), hblock⟩

/-- The tokens that were fed are those of the map. -/
def Fetched (C : Primitives) (uploads : UploadMap) (parts : CredentialParts) (metadata : SmbMetadata)
    (fed : List Bytes) : Prop :=
  ∀ i block, fed[i]? = some block →
    collectBlock C uploads parts.searchCode metadata.wireBlockSize (i + 1) = .ok block

theorem Fetched.concat (h : Fetched C uploads parts metadata fed) {wire : Bytes}
    (hwire : collectBlock C uploads parts.searchCode metadata.wireBlockSize (fed.length + 1) =
      .ok wire) : Fetched C uploads parts metadata (fed ++ [wire]) := by
  intro i block hblock
  rw [List.getElem?_append] at hblock
  split at hblock
  case isTrue => exact h i block hblock
  case isFalse hge =>
    obtain ⟨hlt, hget⟩ := List.getElem?_eq_some_iff.mp hblock
    rw [List.length_singleton] at hlt
    obtain rfl : i = fed.length := by omega
    rw [Nat.sub_self] at hblock
    cases hblock
    exact hwire

/-- They are the first of the leading blocks. -/
theorem Fetched.isPrefix (h : Fetched C uploads parts metadata fed)
    (hstored : Stored C uploads credential token0 parts metadata padded leading)
    (hlen : fed.length + 1 ≤ metadata.numTokens) : fed <+: leading := by
  rw [List.prefix_iff_getElem?]
  intro i hi
  obtain ⟨block, hblock, hcollect⟩ := hstored.block_at (show i + 1 < metadata.numTokens by omega)
  have hfed := h i fed[i] (List.getElem?_eq_getElem hi)
  rw [hcollect] at hfed
  rw [hblock, Except.ok.inj hfed]

theorem Fetched.all (h : Fetched C uploads parts metadata fed)
    (hlen : fed.length + 1 = metadata.numTokens) :
    (List.range' 1 (metadata.numTokens - 1)).mapM
      (collectBlock C uploads parts.searchCode metadata.wireBlockSize) = .ok fed := by
  rw [mapM_eq_ok, List.forall₂_iff_get]
  refine ⟨by rw [List.length_range']; omega, fun i h₁ h₂ => ?_⟩
  rw [List.get_eq_getElem, List.getElem_range', Nat.one_mul, Nat.add_comm 1 i]
  exact h i _ (List.getElem?_eq_getElem h₂)

/-- No plaintext belongs to what the map has. -/
def Unopenable (C : Primitives) (uploads : UploadMap) (credential : Str) (token0 : Bytes)
    (parts : CredentialParts) (metadata : SmbMetadata) (padded : Nat) : Prop :=
  ∀ leading plaintext, Stored C uploads credential token0 parts metadata padded leading →
    ¬ OpensTo C parts metadata padded (leading.flatten ++ token0.drop 373) plaintext

theorem addWireToken_size (h : Running C parts metadata token0 padded fed taken s)
    (hnext : fed.length + 1 < metadata.numTokens) {wire : Bytes}
    (hwire : wire.length ≠ metadata.wireBlockSize) :
    ∃ e s', addWireToken .native C (fed.length + 1) wire s = .error (e, s') := by
  refine ⟨.runtimeError "receive decrypt session: wire block size mismatch", s, ?_⟩
  rw [addWireToken, throwIf_neg (by simp [h.finalized]), thrownAt_ok_bind,
    throwIf_neg (by simp [h.next]), thrownAt_ok_bind, throwIf_neg (by rw [h.sameMetadata]; omega),
    thrownAt_ok_bind, throwIf_pos (by rw [h.block]; exact hwire), thrownAt_error_bind]

/-- One token is fed, or there is no plaintext. -/
theorem call_feed (hd : Described C credential token0 parts metadata padded)
    (h : Running C parts metadata token0 padded fed taken s)
    (hfetched : Fetched C uploads parts metadata fed) (hnext : fed.length + 1 < metadata.numTokens) :
    (∃ wire s', call .native C uploads (s, taken) .feed = .ok (s', taken) ∧
      Running C parts metadata token0 padded (fed ++ [wire]) taken s' ∧
      Fetched C uploads parts metadata (fed ++ [wire])) ∨
    (∃ e, call .native C uploads (s, taken) .feed = .error e) ∧
      Unopenable C uploads credential token0 parts metadata padded := by
  have hparts : s.credentialParts = parts := congrArg (·.credentialParts) h.settings
  rw [call, hparts, h.next]
  cases hwire : lookupUpload uploads (makeToken C parts.searchCode (fed.length + 1)) with
  | error e =>
    refine .inr ⟨⟨e, rfl⟩, fun leading _ hstored _ => ?_⟩
    obtain ⟨block, -, hblock⟩ := hstored.block_at hnext
    rw [(collectBlock_eq_ok.mp hblock).1] at hwire
    cases hwire
  | ok wire =>
    rw [ok_bind]
    by_cases hsize : wire.length = metadata.wireBlockSize
    · have hfetched' := hfetched.concat (collectBlock_eq_ok.mpr ⟨hwire, hsize⟩)
      rcases addWireToken_spec hd h hnext hsize with ⟨s', hok, hrunning⟩ | ⟨e, s', herr, hrefused⟩
      · refine .inl ⟨wire, s', ?_, hrunning, hfetched'⟩
        rw [hok]
        rfl
      · refine .inr ⟨⟨e, by rw [herr]; rfl⟩, fun leading plaintext hstored => ?_⟩
        obtain ⟨rest, rfl⟩ := hfetched'.isPrefix hstored (by
          rw [List.length_append, List.length_singleton]
          exact hnext)
        rw [List.flatten_append, List.flatten_append, List.flatten_singleton, List.append_assoc]
        exact hrefused.not_opensTo hd _ plaintext
    · obtain ⟨e, s', herr⟩ := addWireToken_size h hnext hsize
      refine .inr ⟨⟨e, by rw [herr]; rfl⟩, fun leading _ hstored _ => hsize ?_⟩
      obtain ⟨block, -, hblock⟩ := hstored.block_at hnext
      obtain ⟨hfound, hfull⟩ := collectBlock_eq_ok.mp hblock
      rw [hfound] at hwire
      rwa [← Except.ok.inj hwire]

theorem calls_spec (hd : Described C credential token0 parts metadata padded) (calls : List Call)
    (h : Running C parts metadata token0 padded fed taken s)
    (hfetched : Fetched C uploads parts metadata fed)
    (hfeeds : fed.length + calls.count .feed + 1 = metadata.numTokens)
    (htakes : ∀ n, .take n ∈ calls → 0 < n ∧ metadata.segmentCode ≠ 0) :
    (∃ fed' taken' s', calls.foldlM (call .native C uploads) (s, taken) = .ok (s', taken') ∧
      Running C parts metadata token0 padded fed' taken' s' ∧
      Fetched C uploads parts metadata fed' ∧ fed'.length + 1 = metadata.numTokens) ∨
    (∃ e, calls.foldlM (call .native C uploads) (s, taken) = .error e) ∧
      Unopenable C uploads credential token0 parts metadata padded := by
  induction calls generalizing fed taken s with
  | nil => exact .inl ⟨fed, taken, s, rfl, h, hfetched, hfeeds⟩
  | cons c calls ih =>
    have hrest : ∀ n, .take n ∈ calls → 0 < n ∧ metadata.segmentCode ≠ 0 := fun n hn =>
      htakes n (List.mem_cons_of_mem _ hn)
    rw [List.foldlM_cons]
    cases c with
    | feed =>
      rw [List.count_cons_self] at hfeeds
      rcases call_feed hd h hfetched (by omega) with ⟨wire, s', hok, hrunning, hfetched'⟩ | ⟨⟨e, herr⟩, hno⟩
      · rw [hok, ok_bind]
        refine ih hrunning hfetched' ?_ hrest
        rw [List.length_append, List.length_singleton]
        omega
      · rw [herr, error_bind]
        exact .inr ⟨⟨e, rfl⟩, hno⟩
    | take n =>
      obtain ⟨hn, hcode⟩ := htakes n List.mem_cons_self
      obtain ⟨chunk, s', hok, hrunning⟩ := takePlaintextChunk_spec hd h hcode hn
      have hne : Call.take n ≠ .feed := by
        intro heq
        cases heq
      rw [List.count_cons_of_ne hne] at hfeeds
      have hcall : call .native C uploads (s, taken) (.take n) = .ok (s', taken ++ chunk) := by
        rw [call, hok]
        rfl
      rw [hcall, ok_bind]
      exact ih hrunning hfetched hfeeds hrest

theorem openSession_eq_ok : openSession .native C uploads credential = .ok s ↔
    ∃ token0 parts metadata padded, Described C credential token0 parts metadata padded ∧
      lookupUpload uploads (makeToken C parts.searchCode 0) = .ok token0 ∧
      s = start parts metadata token0 padded := by
  simp only [openSession, bind_eq_ok]
  constructor
  · rintro ⟨parts, hsplit, token0, hfound, hnew⟩
    obtain ⟨parts', metadata, padded, hd, rfl⟩ := new_eq_ok.mp hnew
    obtain rfl := Except.ok.inj (hsplit.symm.trans hd.split)
    exact ⟨token0, parts, metadata, padded, hd, hfound, rfl⟩
  · rintro ⟨token0, parts, metadata, padded, hd, hfound, rfl⟩
    exact ⟨parts, hd.split, token0, hfound, new_eq_ok.mpr ⟨parts, metadata, padded, hd, rfl⟩⟩

theorem streamed_spec (hd : Described C credential token0 parts metadata padded)
    (hfound : lookupUpload uploads (makeToken C parts.searchCode 0) = .ok token0) {calls : List Call}
    (hcalls : InOrder metadata calls) :
    (∃ leading plaintext s' taken',
      Stored C uploads credential token0 parts metadata padded leading ∧
      Accepts C parts metadata padded (leading.map C.sha256 ++ [lastLeaf C (token0.drop 373)])
        (leading.flatten ++ token0.drop 373) plaintext ∧
      streamed .native C uploads credential calls = .ok (s', taken') ∧
      Done metadata padded plaintext taken' s') ∨
    (∃ e, streamed .native C uploads credential calls = .error e) ∧
      ∀ leading plaintext, Stored C uploads credential token0 parts metadata padded leading →
        ¬ Accepts C parts metadata padded (leading.map C.sha256 ++ [lastLeaf C (token0.drop 373)])
          (leading.flatten ++ token0.drop 373) plaintext := by
  have hpos := hd.tokens
  have hfeeds := hcalls.feeds
  rw [streamed, openSession_eq_ok.mpr ⟨token0, parts, metadata, padded, hd, hfound, rfl⟩, ok_bind]
  rcases calls_spec hd calls (start_running hd) (fun _ _ h => by cases h)
      (by rw [List.length_nil]; omega) hcalls.takes with
    ⟨fed, taken, s, hok, hrunning, hfetched, hlast⟩ | ⟨⟨e, herr⟩, hno⟩
  · have hstored : Stored C uploads credential token0 parts metadata padded fed :=
      ⟨hd, hfound, hfetched.all hlast⟩
    rw [hok, ok_bind]
    dsimp only
    rcases completeFinalize_spec hd hrunning hlast rfl rfl with
      ⟨plaintext, s', haccepts, hfinal, hdone⟩ | ⟨⟨e, s', hfinal⟩, hno⟩
    · refine .inl ⟨fed, plaintext, s', taken, hstored, haccepts, ?_, hdone⟩
      rw [hfinal]
      rfl
    · refine .inr ⟨⟨e, by rw [hfinal]; rfl⟩, fun leading plaintext hleading => ?_⟩
      obtain rfl := Except.ok.inj (hstored.leading.symm.trans hleading.leading)
      exact hno plaintext
  · rw [herr, error_bind]
    exact .inr ⟨⟨e, rfl⟩, fun leading plaintext hleading haccepts =>
      hno leading plaintext hleading haccepts.2⟩

theorem streamed_done {calls : List Call} {run : ReceiveDecryptSession × Bytes}
    (hcalls : ∀ s, openSession .native C uploads credential = .ok s → InOrder s.metadata calls)
    (h : streamed .native C uploads credential calls = .ok run) :
    ∃ token0 parts metadata padded leading plaintext,
      Stored C uploads credential token0 parts metadata padded leading ∧
      Accepts C parts metadata padded (leading.map C.sha256 ++ [lastLeaf C (token0.drop 373)])
        (leading.flatten ++ token0.drop 373) plaintext ∧
      Done metadata padded plaintext run.2 run.1 := by
  have hopen := h
  rw [streamed, bind_eq_ok] at hopen
  obtain ⟨s, hopen, -⟩ := hopen
  have horder := hcalls s hopen
  obtain ⟨token0, parts, metadata, padded, hd, hfound, rfl⟩ := openSession_eq_ok.mp hopen
  rcases streamed_spec hd hfound horder with
    ⟨leading, plaintext, s', taken', hstored, haccepts, hok, hdone⟩ | ⟨⟨e, herr⟩, -⟩
  · obtain rfl := Except.ok.inj (h.symm.trans hok)
    exact ⟨token0, parts, metadata, padded, leading, plaintext, hstored, haccepts, hdone⟩
  · rw [herr] at h
    cases h

theorem Stored.streamed (h : Stored C uploads credential token0 parts metadata padded leading)
    {calls : List Call} (hcalls : InOrder metadata calls) {plaintext : Bytes}
    (haccepts : Accepts C parts metadata padded
      (leading.map C.sha256 ++ [lastLeaf C (token0.drop 373)]) (leading.flatten ++ token0.drop 373)
      plaintext) : ∃ run, streamed .native C uploads credential calls = .ok run := by
  rcases streamed_spec h.described h.token0 hcalls with ⟨_, _, s', taken', -, -, hok, -⟩ | ⟨-, hno⟩
  · exact ⟨(s', taken'), hok⟩
  · exact absurd haccepts (hno leading plaintext h)

theorem Left.taken_take {plaintext : Bytes} (h : Left metadata padded plaintext taken s) :
    taken = (plaintext.drop (padded - metadata.originalFileLength)).take taken.length := by
  cases h with
  | whole _ _ htaken => exact htaken
  | segmented _ hqueue => exact hqueue.taken_take

variable (uploads) in
/-- After the end the chunks go on through the file. -/
theorem takes_spec (hv : ValidCode metadata.segmentCode) {plaintext file : Bytes}
    (hfile : plaintext.drop (padded - metadata.originalFileLength) = file) (sizes : List Nat)
    (h : Done metadata padded plaintext taken s) (hsizes : ∀ n ∈ sizes, 0 < n) :
    ∃ s', (sizes.map Call.take).foldlM (call .native C uploads) (s, taken) =
      .ok (s', file.take (taken.length + sizes.sum)) := by
  induction sizes generalizing taken s with
  | nil =>
    have htaken := h.left.taken_take
    rw [hfile] at htaken
    refine ⟨s, ?_⟩
    rw [List.sum_nil, Nat.add_zero, ← htaken]
    rfl
  | cons n sizes ih =>
    obtain ⟨s₁, htake, hdone⟩ := h.take hv (hsizes n List.mem_cons_self)
    rw [hfile] at htake hdone
    obtain ⟨s', hrest⟩ := ih hdone fun k hk => hsizes k (List.mem_cons_of_mem _ hk)
    have hcall : call .native C uploads (s, taken) (.take n) =
        .ok (s₁, taken ++ (file.drop taken.length).take n) := by
      rw [call, htake]
      rfl
    have hlen := congrArg List.length h.left.taken_take
    rw [hfile, List.length_take] at hlen
    refine ⟨s', ?_⟩
    rw [List.map_cons, List.foldlM_cons, hcall, ok_bind, hrest, List.sum_cons]
    congr 2
    rw [List.length_append, List.length_take, List.length_drop, List.take_eq_take_iff]
    omega

theorem Stored.unique {token0' : Bytes} {parts' : CredentialParts} {metadata' : SmbMetadata}
    {padded' : Nat} {leading' : List Bytes}
    (h : Stored C uploads credential token0 parts metadata padded leading)
    (h' : Stored C uploads credential token0' parts' metadata' padded' leading') :
    token0 = token0' ∧ parts = parts' ∧ metadata = metadata' ∧ padded = padded' ∧
      leading = leading' := by
  obtain rfl := Except.ok.inj (h.described.split.symm.trans h'.described.split)
  obtain rfl := Except.ok.inj (h.token0.symm.trans h'.token0)
  obtain rfl := Except.ok.inj (h.described.parse.symm.trans h'.described.parse)
  exact ⟨rfl, rfl, rfl, Except.ok.inj (h.described.length.symm.trans h'.described.length),
    Except.ok.inj (h.leading.symm.trans h'.leading)⟩

theorem OpensTo.unique {plaintext plaintext' : Bytes}
    (h : OpensTo C parts metadata padded stream plaintext)
    (h' : OpensTo C parts metadata padded stream plaintext') : plaintext = plaintext' := by
  obtain ⟨kFek, hunlock, hdecrypt⟩ := h
  obtain ⟨kFek', hunlock', hdecrypt'⟩ := h'
  obtain rfl := Except.ok.inj (hunlock.symm.trans hunlock')
  exact Except.ok.inj (hdecrypt.symm.trans hdecrypt')

/-- Both receivers accept the same objects under the root, but for an empty last block. -/
theorem accepts_iff (hempty : ¬ EmptyLastBlock C uploads credential)
    (h : Stored C uploads credential token0 parts metadata padded leading) {plaintext : Bytes} :
    Accepts C parts metadata padded (leading.map C.sha256 ++ [lastLeaf C (token0.drop 373)])
        (leading.flatten ++ token0.drop 373) plaintext ↔
      Accepts C parts metadata padded (leading.map C.sha256 ++ [C.sha256 (token0.drop 373)])
        (leading.flatten ++ token0.drop 373) plaintext := by
  by_cases hlast : token0.drop 373 = []
  · have hfloor := h.described.floor
    have hlen := h.last
    rw [hlast, List.length_nil] at hlen
    rw [hlast, lastLeaf, if_pos rfl, List.append_nil]
    refine and_congr_left fun hopens => ?_
    by_contra hdiffer
    refine hempty ⟨token0, parts, metadata, padded, leading, plaintext, h, by omega, hopens, ?_⟩
    rw [← Bool.eq_iff_iff] at hdiffer
    exact hdiffer
  · rw [lastLeaf, if_neg hlast]

/-- The streaming receiver does what the batch receiver does exactly for the maps whose object has no
empty last block that only one of them hashes. -/
theorem streamsAsBatch_iff (C : Primitives) (uploads : UploadMap) (credential : Str) :
    StreamsAsBatch C uploads credential ↔ ¬ EmptyLastBlock C uploads credential := by
  constructor
  · rintro h ⟨token0, parts, metadata, padded, leading, plaintext, hstored, hblock, hopens, hdiffer⟩
    have hlast : token0.drop 373 = [] := by
      rw [← List.length_eq_zero_iff, hstored.last, hblock]
    have hcalls (s : ReceiveDecryptSession) (hs : openSession .native C uploads credential = .ok s) :
        InOrder s.metadata (List.replicate (metadata.numTokens - 1) .feed) := by
      obtain ⟨token0', parts', metadata', padded', hd, hfound, rfl⟩ := openSession_eq_ok.mp hs
      obtain rfl := Except.ok.inj (hstored.described.split.symm.trans hd.split)
      obtain rfl := Except.ok.inj (hstored.token0.symm.trans hfound)
      obtain rfl := Except.ok.inj (hstored.described.parse.symm.trans hd.parse)
      refine ⟨List.count_replicate_self, fun n hn => ?_⟩
      cases List.eq_of_mem_replicate hn
    have hagrees := (h _ hcalls).accepts
    have horder := hcalls _ (openSession_eq_ok.mpr
      ⟨token0, parts, metadata, padded, hstored.described, hstored.token0, rfl⟩)
    rw [← List.append_nil leading.flatten, ← hlast] at hopens
    refine hdiffer (Bool.eq_iff_iff.mpr ⟨fun hroot => ?_, fun hroot => ?_⟩)
    · have hstream := hstored.streamed horder ⟨by rwa [hlast, lastLeaf, if_pos rfl], hopens⟩
      obtain ⟨file, hfile⟩ := hagrees.mp hstream
      obtain ⟨_, _, _, _, _, _, hstored', haccepts, -⟩ := receiveFromUploadMap_eq_ok.mp hfile
      obtain ⟨rfl, rfl, rfl, rfl, rfl⟩ := hstored.unique hstored'
      rw [← hlast]
      exact haccepts.1
    · have hbatch := receiveFromUploadMap_eq_ok.mpr ⟨token0, parts, metadata, padded, leading, plaintext,
        hstored, ⟨by rwa [hlast], hopens⟩, rfl⟩
      obtain ⟨run, hrun⟩ := hagrees.mpr ⟨_, hbatch⟩
      obtain ⟨_, _, _, _, _, _, hstored', haccepts, -⟩ := streamed_done hcalls hrun
      obtain ⟨rfl, rfl, rfl, rfl, rfl⟩ := hstored.unique hstored'
      have hroot' := haccepts.1
      rwa [hlast, lastLeaf, if_pos rfl] at hroot'
  · intro hempty calls hcalls
    refine ⟨⟨?_, ?_⟩, fun run file hrun hfile sizes hsizes => ?_⟩
    · rintro ⟨run, hrun⟩
      obtain ⟨token0, parts, metadata, padded, leading, plaintext, hstored, haccepts, -⟩ :=
        streamed_done hcalls hrun
      exact ⟨_, receiveFromUploadMap_eq_ok.mpr ⟨token0, parts, metadata, padded, leading, plaintext,
        hstored, (accepts_iff hempty hstored).mp haccepts, rfl⟩⟩
    · rintro ⟨file, hfile⟩
      obtain ⟨token0, parts, metadata, padded, leading, plaintext, hstored, haccepts, -⟩ :=
        receiveFromUploadMap_eq_ok.mp hfile
      have hopen := openSession_eq_ok.mpr
        ⟨token0, parts, metadata, padded, hstored.described, hstored.token0, rfl⟩
      exact hstored.streamed (hcalls _ hopen) ((accepts_iff hempty hstored).mpr haccepts)
    · obtain ⟨token0, parts, metadata, padded, leading, plaintext, hstored, haccepts, hdone⟩ :=
        streamed_done hcalls hrun
      obtain ⟨_, _, _, _, _, plaintext', hstored', haccepts', rfl⟩ := receiveFromUploadMap_eq_ok.mp hfile
      obtain ⟨rfl, rfl, rfl, rfl, rfl⟩ := hstored.unique hstored'
      obtain rfl := haccepts.2.unique haccepts'.2
      obtain ⟨s', hlast⟩ := takes_spec uploads hstored.described.valid rfl sizes hdone hsizes
      exact ⟨_, hlast, List.take_prefix _ _, fun hle => List.take_of_length_le hle⟩

/-- `plain`, with the length of the data in its hash. -/
def counting : Primitives :=
  { PlainCrypto.plain with sha256 := fun data => PlainCrypto.pad32 (UInt8.ofNat data.length :: data) }

/-- A file of 345 octets makes one leading block of 373, with nothing left for the last block. -/
def emptyLast : Except Exn (UploadMap × Bytes) :=
  Sender.prepareUpload .native counting (List.replicate 345 5) (ascii "abcdefghijkl")
    (ascii "a.txt") 0 373 (List.replicate 200 7)

/-- The batch receiver opens it; the session, of two tokens, does not come to its end. -/
def refused (uploads : UploadMap) (credential : Str) (file : Bytes) : Bool :=
  match receiveFromUploadMap .native counting credential uploads,
      openSession .native counting uploads credential,
      streamed .native counting uploads credential [.feed] with
  | .ok received, .ok s, .error _ => received = file ∧ s.metadata.numTokens = 2
  | _, _, _ => false

theorem empty_last_block_refused :
    ∃ uploads tape, emptyLast = .ok (uploads, tape) ∧
      receiveFromUploadMap .native counting (ascii "abcdefghijkl") uploads =
        .ok (List.replicate 345 5) ∧
      ¬ StreamsAsBatch counting uploads (ascii "abcdefghijkl") := by
  have hrun : (emptyLast.map fun p => refused p.1 (ascii "abcdefghijkl") (List.replicate 345 5)) =
      .ok true := by decide +kernel
  obtain ⟨⟨uploads, tape⟩, hmap, hrefused⟩ := map_ok_iff.mp hrun
  rw [refused] at hrefused
  split at hrefused
  case h_2 => cases hrefused
  case h_1 received s e hbatch hopen hstream =>
    obtain ⟨rfl, htokens⟩ := of_decide_eq_true hrefused
    refine ⟨uploads, tape, hmap, hbatch, fun h => ?_⟩
    have hcalls (s' : ReceiveDecryptSession)
        (hs : openSession .native counting uploads (ascii "abcdefghijkl") = .ok s') :
        InOrder s'.metadata [.feed] := by
      obtain rfl := Except.ok.inj (hopen.symm.trans hs)
      refine ⟨by rw [htokens]; rfl, fun n hn => ?_⟩
      cases List.mem_singleton.mp hn
    obtain ⟨run, hrun⟩ := (h [.feed] hcalls).accepts.mpr ⟨_, hbatch⟩
    rw [hstream] at hrun
    cases hrun

end TwelveC.ReceiveSession
