import TwelveC.MerkleBinding
import TwelveC.ReceiveAgreement
import TwelveC.RoundTrip

/-!
# Blocks changed on the way

The relays may deliver any octets. As long as the SMB is the sender's, a
receiver that comes to its end has the sender's file, or the blocks sent and the
blocks delivered show two inputs of the Merkle trees with one digest.
-/

namespace TwelveC.ReceiveSession

open Segment Merkle Smb Crypto Sender Receiver RoundTrip SmbRoundTrip Lib

/-- The SMB in token 0. -/
def readSmb (C : Primitives) (uploads : UploadMap) (credential : Str) : Except Exn SmbMetadata := do
  let parts ← splitCredential credential
  let token0Wire ← lookupUpload uploads (makeToken C parts.searchCode 0)
  parseSmbEncrypted .native C credential token0Wire

/-- The blocks that are decrypted. -/
def collected (C : Primitives) (uploads : UploadMap) (credential : Str) : Except Exn (List Bytes) := do
  let parts ← splitCredential credential
  let metadata ← readSmb C uploads credential
  collectBlocksFromUploads .native C uploads parts.searchCode metadata

/-- The blocks of two maps hold two distinct inputs with one digest. -/
def BlocksCollide (C : Primitives) (uploads delivered : UploadMap) (credential : Str) : Prop :=
  ∃ sent got, collected C uploads credential = .ok sent ∧ collected C delivered credential = .ok got ∧
    Collision C (hashedInputs C sent ++ hashedInputs C got)

variable {C : Primitives} {uploads delivered : UploadMap} {credential : Str} {token0 token0' : Bytes}
  {parts parts' : CredentialParts} {metadata metadata' : SmbMetadata} {padded padded' : Nat}
  {leading leading' : List Bytes} {plaintext plaintext' : Bytes}

theorem Described.readSmb (h : Described C credential token0 parts metadata padded)
    (hfound : lookupUpload uploads (makeToken C parts.searchCode 0) = .ok token0) :
    readSmb C uploads credential = .ok metadata := by
  rw [ReceiveSession.readSmb, h.split, ok_bind, hfound, ok_bind, h.parse]

theorem Stored.readSmb (h : Stored C uploads credential token0 parts metadata padded leading) :
    readSmb C uploads credential = .ok metadata := h.described.readSmb h.token0

/-- A session reads the SMB of its map. -/
theorem inOrder_of_readSmb (hsmb : readSmb C uploads credential = .ok metadata) {calls : List Call}
    (h : InOrder metadata calls) (s : ReceiveDecryptSession)
    (hs : openSession .native C uploads credential = .ok s) : InOrder s.metadata calls := by
  obtain ⟨token0, parts, metadata', padded, hd, hfound, rfl⟩ := openSession_eq_ok.mp hs
  obtain rfl := Except.ok.inj (hsmb.symm.trans (hd.readSmb hfound))
  exact h

/-- The root in the SMB is that of the blocks. -/
theorem Accepts.root (h : Accepts C parts metadata padded
      (leading.map C.sha256 ++ [C.sha256 (token0.drop 373)])
      (leading.flatten ++ token0.drop 373) plaintext) :
    (buildMerkleTree C (leading ++ [token0.drop 373])).rootHash = metadata.rootHash := by
  have hroot := h.1
  have hmap : leading.map C.sha256 ++ [C.sha256 (token0.drop 373)] =
      (leading ++ [token0.drop 373]).map (hashBlock C) := by
    rw [List.map_append, List.map_singleton]
    rfl
  rw [hmap, verify_fromLeafHashes_map, verifyMerkleRoot, beq_iff_eq] at hroot
  exact hroot

theorem Stored.collected (h : Stored C uploads credential token0 parts metadata padded leading)
    (haccepts : Accepts C parts metadata padded (leading.map C.sha256 ++ [C.sha256 (token0.drop 373)])
      (leading.flatten ++ token0.drop 373) plaintext) :
    collected C uploads credential = .ok (leading ++ [token0.drop 373]) := by
  rw [ReceiveSession.collected, h.described.split, ok_bind, h.readSmb, ok_bind]
  exact (collectBlocks_eq_ok h.described.parse h.token0 h.described.tokens).mpr
    ⟨h.described.block, h.described.fills, leading, h.leading, haccepts.1, rfl⟩

/-- Two accepted objects under one SMB have the same padded plaintext. -/
theorem same_plaintext (hC : C.Laws)
    (h : Stored C uploads credential token0 parts metadata padded leading)
    (h' : Stored C delivered credential token0' parts' metadata' padded' leading')
    (haccepts : Accepts C parts metadata padded (leading.map C.sha256 ++ [C.sha256 (token0.drop 373)])
      (leading.flatten ++ token0.drop 373) plaintext)
    (haccepts' : Accepts C parts' metadata' padded'
      (leading'.map C.sha256 ++ [C.sha256 (token0'.drop 373)])
      (leading'.flatten ++ token0'.drop 373) plaintext')
    (hsmb : readSmb C delivered credential = readSmb C uploads credential) :
    (metadata' = metadata ∧ padded' = padded ∧ plaintext' = plaintext) ∨
      BlocksCollide C uploads delivered credential := by
  rw [h.readSmb, h'.readSmb, Except.ok.injEq] at hsmb
  subst hsmb
  obtain rfl := Except.ok.inj (h.described.split.symm.trans h'.described.split)
  obtain rfl := Except.ok.inj (h.described.length.symm.trans h'.described.length)
  have hlen := h.length_leading
  have hlen' := h'.length_leading
  have hroots := haccepts.root.trans haccepts'.root.symm
  rcases root_binding hC.sha256_length (by simp only [List.length_append, List.length_singleton]; omega)
    (by simp) hroots with hblocks | hcollision
  · obtain ⟨rfl, hlast⟩ := List.append_inj hblocks (by omega)
    rw [List.cons.injEq, and_iff_left rfl] at hlast
    have hopens := haccepts'.2
    rw [← hlast] at hopens
    exact .inl ⟨rfl, rfl, hopens.unique haccepts.2⟩
  · exact .inr ⟨_, _, h.collected haccepts, h'.collected haccepts', hcollision⟩

section Prepared

variable {filePlaintext file : Bytes}

/-- What is received under the SMB of a prepared object is its file. -/
theorem received_file (hC : C.Laws)
    (hsent : receiveFromUploadMap .native C credential uploads = .ok filePlaintext)
    (hsmb : readSmb C delivered credential = readSmb C uploads credential)
    (h : Stored C delivered credential token0 parts metadata padded leading)
    (haccepts : Accepts C parts metadata padded (leading.map C.sha256 ++ [C.sha256 (token0.drop 373)])
      (leading.flatten ++ token0.drop 373) plaintext) :
    plaintext.drop (padded - metadata.originalFileLength) = filePlaintext ∨
      BlocksCollide C uploads delivered credential := by
  obtain ⟨_, _, _, _, _, _, hstored, hsaccepts, rfl⟩ := receiveFromUploadMap_eq_ok.mp hsent
  rcases same_plaintext hC hstored h hsaccepts haccepts hsmb with ⟨rfl, rfl, rfl⟩ | hcollide
  · exact .inl rfl
  · exact .inr hcollide

theorem prepared_received {originalFileName : Str} {segmentCode maxWireBlockBytes : Nat}
    {tape tape' : Bytes} (hC : C.Laws) (hd : DistinctTokens C)
    (hname : (normalizeOriginalFileName originalFileName).length ≤ 120)
    (hne : segmentCode = 0 ∨ filePlaintext ≠ [])
    (h : prepareUpload .native C filePlaintext credential originalFileName segmentCode
      maxWireBlockBytes tape = .ok (uploads, tape')) :
    receiveFromUploadMap .native C credential uploads = .ok filePlaintext := by
  obtain ⟨r, t₁, t₂, t₃, t₄, hr⟩ := prepareUpload_eq_ok _ _ h
  rw [receiveFromUploadMap, hr.split, ok_bind, lookup_eq hd hr 0 r.token0 rfl, ok_bind,
    parseSmb_ok hC (fileName_fits hname) hr, ok_bind, collectBlocks_ok hd hr, ok_bind,
    decryptFile_ok hC hne hr]

end Prepared

/-- The batch receiver returns the sender's file, whatever blocks it is given, unless digests collide. -/
theorem tampered_batch (C : Primitives) (hC : C.Laws) (hd : DistinctTokens C) (filePlaintext : Bytes)
    (credential originalFileName : Str) (segmentCode maxWireBlockBytes : Nat) (tape tape' : Bytes)
    (uploads delivered : UploadMap) (file : Bytes)
    (hname : (normalizeOriginalFileName originalFileName).length ≤ 120)
    (hne : segmentCode = 0 ∨ filePlaintext ≠ [])
    (h : prepareUpload .native C filePlaintext credential originalFileName segmentCode
      maxWireBlockBytes tape = .ok (uploads, tape'))
    (hsmb : readSmb C delivered credential = readSmb C uploads credential)
    (hfile : receiveFromUploadMap .native C credential delivered = .ok file) :
    file = filePlaintext ∨ BlocksCollide C uploads delivered credential := by
  obtain ⟨_, _, _, _, _, _, hstored, haccepts, rfl⟩ := receiveFromUploadMap_eq_ok.mp hfile
  exact received_file hC (prepared_received hC hd hname hne h) hsmb hstored haccepts

open PlainCrypto

/-- A segmented file of 900 octets in two tokens. -/
def twoTokens : Except Exn (UploadMap × Bytes) :=
  prepareUpload .native plain (List.replicate 900 5) (ascii "abcdefghijkl") (ascii "a.txt") 1 700
    (List.replicate 200 7)

/-- One octet of token 1 is changed, behind the 32 that `plain` hashes. -/
def changed (uploads : UploadMap) : UploadMap :=
  uploads.map fun entry =>
    if entry.1 = makeToken plain (ascii "abcdef") 1 then (entry.1, entry.2.set 100 6) else entry

/-- An early chunk is asked for before token 1 is fed. -/
def earlyCalls : List Call := [.take 4, .feed, .take 100]

/-- The changed map has the same SMB, in two blocks of 651 octets, and both receivers take it. -/
def takesChanged (uploads : UploadMap) : Bool :=
  match readSmb plain uploads (ascii "abcdefghijkl"),
      receiveFromUploadMap .native plain (ascii "abcdefghijkl") (changed uploads),
      streamed .native plain (changed uploads) (ascii "abcdefghijkl") earlyCalls with
  | .ok metadata, .ok file, .ok _ =>
    readSmb plain (changed uploads) (ascii "abcdefghijkl") = .ok metadata ∧
      metadata.wireBlockSize = 651 ∧ metadata.numTokens = 2 ∧ metadata.segmentCode = 1 ∧
      file ≠ List.replicate 900 5
  | _, _, _ => false

theorem twoTokens_changed : ∃ uploads tape metadata file run, twoTokens = .ok (uploads, tape) ∧
    receiveFromUploadMap .native plain (ascii "abcdefghijkl") (changed uploads) = .ok file ∧
    streamed .native plain (changed uploads) (ascii "abcdefghijkl") earlyCalls = .ok run ∧
    readSmb plain uploads (ascii "abcdefghijkl") = .ok metadata ∧
    readSmb plain (changed uploads) (ascii "abcdefghijkl") = .ok metadata ∧
    metadata.wireBlockSize = 651 ∧ metadata.numTokens = 2 ∧ metadata.segmentCode = 1 ∧
    file ≠ List.replicate 900 5 := by
  have hrun : (twoTokens.map fun p => takesChanged p.1) = .ok true := by decide +kernel
  obtain ⟨⟨uploads, tape⟩, hmap, htakes⟩ := map_ok_iff.mp hrun
  rw [takesChanged] at htakes
  split at htakes
  case h_1 metadata file run hsmb hfile hstream =>
    exact ⟨uploads, tape, metadata, file, run, hmap, hfile, hstream, hsmb, of_decide_eq_true htakes⟩
  case h_2 => cases htakes

/-- Under `plain` the digests of the two blocks are the same, and the file differs. -/
theorem tampered_batch_changed : ∃ uploads tape file, twoTokens = .ok (uploads, tape) ∧
    receiveFromUploadMap .native plain (ascii "abcdefghijkl") (changed uploads) = .ok file ∧
    file ≠ List.replicate 900 5 ∧
    (file = List.replicate 900 5 ∨
      BlocksCollide plain uploads (changed uploads) (ascii "abcdefghijkl")) := by
  obtain ⟨uploads, tape, metadata, file, -, hmap, hfile, -, hsmb, hsmb', -, -, -, hne⟩ :=
    twoTokens_changed
  exact ⟨uploads, tape, file, hmap, hfile, hne,
    tampered_batch plain plain_laws plain_distinctTokens _ _ _ _ _ _ _ _ _ _ (by decide +kernel)
      (.inr (by decide)) hmap (hsmb'.trans hsmb.symm) hfile⟩

/-- Taking on, the chunks of a finished run come to the file. -/
def HandsOut (C : Primitives) (uploads : UploadMap) (run : ReceiveDecryptSession × Bytes)
    (file : Bytes) : Prop :=
  ∀ sizes : List Nat, (∀ n ∈ sizes, 0 < n) →
    ∃ last, (sizes.map Call.take).foldlM (call .native C uploads) run = .ok last ∧
      last.2 <+: file ∧ (file.length ≤ run.2.length + sizes.sum → last.2 = file)

theorem Done.handsOut {s : ReceiveDecryptSession} {taken : Bytes} (hv : ValidCode metadata.segmentCode)
    (h : Done metadata padded plaintext taken s) :
    HandsOut C uploads (s, taken) (plaintext.drop (padded - metadata.originalFileLength)) := by
  intro sizes hsizes
  obtain ⟨s', hlast⟩ := takes_spec uploads hv rfl sizes h hsizes
  exact ⟨_, hlast, List.take_prefix _ _, fun hle => List.take_of_length_le hle⟩

/-- A session that ends has handed out nothing but the sender's file, the chunks before the root was
checked included. -/
theorem tampered_stream (C : Primitives) (hC : C.Laws) (hd : DistinctTokens C) (filePlaintext : Bytes)
    (credential originalFileName : Str) (segmentCode maxWireBlockBytes : Nat) (tape tape' : Bytes)
    (uploads delivered : UploadMap) (calls : List Call) (run : ReceiveDecryptSession × Bytes)
    (hname : (normalizeOriginalFileName originalFileName).length ≤ 120)
    (hne : segmentCode = 0 ∨ filePlaintext ≠ [])
    (h : prepareUpload .native C filePlaintext credential originalFileName segmentCode
      maxWireBlockBytes tape = .ok (uploads, tape'))
    (hsmb : readSmb C delivered credential = readSmb C uploads credential)
    (hlast : ∀ metadata, readSmb C uploads credential = .ok metadata → metadata.wireBlockSize ≠ 373)
    (hcalls : ∀ s, openSession .native C delivered credential = .ok s → InOrder s.metadata calls)
    (hrun : streamed .native C delivered credential calls = .ok run) :
    HandsOut C delivered run filePlaintext ∨ BlocksCollide C uploads delivered credential := by
  obtain ⟨token0, parts, metadata, padded, leading, plaintext, hstored, haccepts, hdone⟩ :=
    streamed_done hcalls hrun
  have hblock := hlast metadata (hsmb.symm.trans hstored.readSmb)
  have hfull : token0.drop 373 ≠ [] := by
    intro hnil
    have hlen := hstored.last
    have hfloor := hstored.described.floor
    rw [hnil, List.length_nil] at hlen
    omega
  rw [lastLeaf, if_neg hfull] at haccepts
  rcases received_file hC (prepared_received hC hd hname hne h) hsmb hstored haccepts with
    rfl | hcollide
  · exact .inl (hdone.handsOut hstored.described.valid)
  · exact .inr hcollide

/-- So is what the session hands out. -/
theorem tampered_stream_changed : ∃ uploads tape run, twoTokens = .ok (uploads, tape) ∧
    streamed .native plain (changed uploads) (ascii "abcdefghijkl") earlyCalls = .ok run ∧
    (HandsOut plain (changed uploads) run (List.replicate 900 5) ∨
      BlocksCollide plain uploads (changed uploads) (ascii "abcdefghijkl")) := by
  obtain ⟨uploads, tape, metadata, -, run, hmap, -, hrun, hsmb, hsmb', hblock, htokens, hcode, -⟩ :=
    twoTokens_changed
  have hlast (metadata' : SmbMetadata)
      (hread : readSmb plain uploads (ascii "abcdefghijkl") = .ok metadata') :
      metadata'.wireBlockSize ≠ 373 := by
    obtain rfl := Except.ok.inj (hsmb.symm.trans hread)
    omega
  have hcalls : InOrder metadata earlyCalls := by
    refine ⟨?_, fun n hn => ⟨?_, ?_⟩⟩
    · rw [htokens]
      decide
    · simp only [earlyCalls, List.mem_cons, Call.take.injEq, reduceCtorEq, List.not_mem_nil,
        or_false, false_or] at hn
      omega
    · rw [hcode]
      decide
  exact ⟨uploads, tape, run, hmap, hrun,
    tampered_stream plain plain_laws plain_distinctTokens _ _ _ _ _ _ _ _ _ _ _ (by decide +kernel)
      (.inr (by decide)) hmap (hsmb'.trans hsmb.symm) hlast (inOrder_of_readSmb hsmb' hcalls) hrun⟩

end TwelveC.ReceiveSession
