import TwelveC.RoundTrip
import TwelveC.SmbNames
import TwelveC.MerkleBinding

/-!
# Objects of copying primitives

Where sealing copies, an object can be written down as the function of its file
and its tape that it is, however large the file.
-/

namespace TwelveC.PlainCrypto

open Segment WireLayout Payload Merkle Smb Crypto Sender RoundTrip SmbNames Lib.Cut

/-- Under the keys derived from a key code, all of them zero, sealing copies. -/
structure Copies (C : Primitives) : Prop where
  laws : C.Laws
  derives (password salt : Str) (iterations length : Nat) :
    C.pbkdf2HmacSha256 password salt iterations length = List.replicate length 0
  seals (nonce text : Bytes) :
    C.gcmSeal (List.replicate 32 0) nonce text = some (text, List.replicate kGcmTagBytes 0)

theorem plain_copies : Copies plain := ⟨plain_laws, fun _ _ _ _ => rfl, fun _ _ => rfl⟩

/-- The record of a text, with the nonce from the front of the tape. -/
def plainRecord (tape text : Bytes) : Bytes := tape.take 12 ++ List.replicate 16 0 ++ text

variable {C : Primitives} {tape text : Bytes}

theorem encrypt_copied {key : Bytes} (n : Nat) (hkey : key.length = 32)
    (hseal : C.gcmSeal key ((tape.drop n).take kGcmNonceBytes) text =
      some (text, List.replicate kGcmTagBytes 0))
    (htape : n + 12 ≤ tape.length) :
    encrypt C key text (tape.drop n) = .ok (plainRecord (tape.drop n) text, tape.drop (n + 12)) := by
  refine encrypt_eq_ok.mpr ⟨hkey, ?_, ?_, ?_⟩
  · rw [kGcmNonceBytes, List.length_drop]
    omega
  · rw [sealWith, hseal]
    rfl
  · rw [kGcmNonceBytes, List.drop_drop]

theorem length_plainRecord {n : Nat} (htape : n + 12 ≤ tape.length) :
    (plainRecord (tape.drop n) text).length = text.length + 28 := by
  rw [plainRecord, List.length_append, List.length_append, List.length_take, List.length_drop,
    List.length_replicate]
  omega

/-- The run that prepares an object with this ciphertext, for which the tape was read up to `used`. -/
def plainRun (C : Primitives) (filePlaintext : Bytes) (credential originalFileName : Str)
    (segmentCode maxWireBlockBytes : Nat) (layout : WireLayout) (ciphertext tape : Bytes) (used : Nat) :
    Run filePlaintext credential originalFileName segmentCode maxWireBlockBytes :=
  let leading := (layout.numTokens - 1) * layout.wireBlockSize
  let leadingBlocks := cut layout.wireBlockSize (ciphertext.take leading)
  let lastBlock := ciphertext.drop leading
  let kFek := (tape.drop 16).take 32
  let encryptedFek : EncryptedBlob :=
    { nonce := (tape.drop used).take 12, ciphertext := kFek, tag := List.replicate 16 0 }
  let metadata := uploadMetadata layout (buildMerkleTree C (leadingBlocks ++ [lastBlock])).rootHash
    encryptedFek (tape.take 16) filePlaintext.length originalFileName segmentCode
  { parts := { searchCode := credential.take 6, keyCode := (credential.drop 6).take 6 }
    layout, kFek, ciphertext, leadingBlocks, lastBlock, encryptedFek
    saltRand := tape.take 16
    packedFek := plainRecord (tape.drop used) kFek
    sEnc := plainRecord (tape.drop (used + 12)) (serializeSmb C metadata) }

section plainRun

variable {filePlaintext : Bytes} {credential originalFileName : Str}
  {segmentCode maxWireBlockBytes : Nat} {layout : WireLayout} {ciphertext : Bytes} {used : Nat}
  (hC : Copies C)
  (hlayout : computeWireLayout .native filePlaintext.length segmentCode maxWireBlockBytes = .ok layout)
  (hpayload : encryptPayloadForSegmentCode .native C ((tape.drop 16).take 32)
    (padPlaintext filePlaintext layout) segmentCode (tape.drop 48) = .ok (ciphertext, tape.drop used))
  (hcipher : ciphertext.length = layout.ciphertextLength)
  (hused : 48 ≤ used) (htape : used + 24 ≤ tape.length)

include hC hused htape in
theorem length_plainRun_smb : (serializeSmb C ((plainRun C filePlaintext credential originalFileName
    segmentCode maxWireBlockBytes layout ciphertext tape used).metadata C)).length = 345 := by
  have hroot (blocks : List Bytes) (last : Bytes) :
      (buildMerkleTree C (blocks ++ [last])).rootHash.length = 32 :=
    length_rootHash hC.laws.sha256_length
      (List.append_ne_nil_of_right_ne_nil _ (List.cons_ne_nil _ _))
  rw [length_serialize hC.laws.sha256_length]
  simp only [Run.metadata, uploadMetadata, Run.blocks, hroot, plainRun, EncryptedBlob.pack,
    List.length_append, List.length_take, List.length_drop, List.length_replicate]
  omega

include hC hlayout hpayload hcipher hused htape

variable (credential originalFileName) in
theorem plainRun_holds (hcredential : credential.length = 12) :
    (plainRun C filePlaintext credential originalFileName segmentCode maxWireBlockBytes layout ciphertext
      tape used).Holds .native C tape (tape.drop 16) (tape.drop 48) (tape.drop used)
      (tape.drop (used + 12)) (tape.drop (used + 24))
      (buildUploadMap .native C
        (plainRun C filePlaintext credential originalFileName segmentCode maxWireBlockBytes layout
          ciphertext tape used).token0
        (plainRun C filePlaintext credential originalFileName segmentCode maxWireBlockBytes layout
          ciphertext tape used).leadingBlocks
        (credential.take 6)) := by
  have hs := LayoutSound.computeWireLayout_sound hlayout
  have hsum := LayoutSound.leading_add_last hs
  have hblock := hs.last
  have hlast : (plainRun C filePlaintext credential originalFileName segmentCode maxWireBlockBytes layout
      ciphertext tape used).lastBlock.length = layout.lastBlockLength := by
    refine List.length_drop.trans (Nat.sub_eq_of_eq_add ?_)
    rw [Nat.add_comm, hsum]
    exact hcipher
  have hsmb : (serializeSmb C ((plainRun C filePlaintext credential originalFileName segmentCode
      maxWireBlockBytes layout ciphertext tape used).metadata C)).length = 345 :=
    length_plainRun_smb hC hused htape
  have hsEnc : (plainRun C filePlaintext credential originalFileName segmentCode maxWireBlockBytes layout
      ciphertext tape used).sEnc.length = 373 :=
    (length_plainRecord (by omega)).trans (congrArg (· + 28) hsmb)
  have hnonce : ((tape.drop used).take 12).length = 12 := by
    rw [List.length_take, List.length_drop]
    omega
  have hkdf (salt : Str) : slowKdf C ((credential.drop 6).take 6) salt = List.replicate 32 0 :=
    hC.derives _ _ _ _
  have hencrypt (salt : Str) (n : Nat) (text : Bytes) (hn : n + 12 ≤ tape.length) :
      encrypt C (slowKdf C ((credential.drop 6).take 6) salt) text (tape.drop n) =
        .ok (plainRecord (tape.drop n) text, tape.drop (n + 12)) := by
    rw [hkdf]
    exact encrypt_copied n List.length_replicate (hC.seals _ _) hn
  exact
    { split := by
        rw [Crypto.splitCredential, kCredentialLength, throwIf_neg (not_not.mpr hcredential), ok_bind]
        rfl
      code := (validate_ok _).mpr hs.code
      layout := hlayout
      salt := randomBytes_eq_ok.mpr ⟨by rw [kSaltRandBytes]; omega, rfl⟩
      fek := by
        refine randomBytes_eq_ok.mpr ⟨by rw [kKeyBytes_eq, List.length_drop]; omega, ?_⟩
        rw [kKeyBytes_eq, List.drop_drop]
        rfl
      payload := hpayload
      ciphertext := hcipher
      blocks := splitCiphertext_ok hs hcipher
      packedFek := hencrypt _ _ _ (by omega)
      encryptedFek := EncryptedBlob.unpack_pack (plainRun C filePlaintext credential originalFileName
        segmentCode maxWireBlockBytes layout ciphertext tape used).encryptedFek hnonce
        List.length_replicate
      smPlain := hsmb
      sEnc := hencrypt _ _ _ (by omega)
      smEnc := hsEnc
      last := hlast
      token0 := by
        rw [Run.token0, buildToken0, List.length_append, hsEnc, hlast]
        exact hblock
      uploads := rfl }

end plainRun

/-- Under one key nothing is sealed or opened but these texts, each with its nonce. -/
def ledger (kFek : Bytes) (issued : List (Bytes × Bytes)) : Primitives :=
  { plain with
    gcmSeal := fun key nonce plaintext =>
      if key = kFek → (nonce, plaintext) ∈ issued then
        some (plaintext, List.replicate kGcmTagBytes 0)
      else none
    gcmOpen := fun key nonce ciphertext tag =>
      if key = kFek → (nonce, ciphertext) ∈ issued ∧ tag = List.replicate kGcmTagBytes 0 then
        some ciphertext
      else none }

section ledger

variable {kFek : Bytes} {issued : List (Bytes × Bytes)}

theorem ledger_laws : (ledger kFek issued).Laws where
  sha256_length := length_pad32
  tag_length h := by
    obtain ⟨-, hpair⟩ := Option.ite_none_right_eq_some.mp h
    rw [← (Prod.mk.inj (Option.some.inj hpair)).2]
    exact List.length_replicate
  seal_length _ h := by
    obtain ⟨-, hpair⟩ := Option.ite_none_right_eq_some.mp h
    rw [(Prod.mk.inj (Option.some.inj hpair)).1]
  open_seal h _ := by
    obtain ⟨hissued, hpair⟩ := Option.ite_none_right_eq_some.mp h
    obtain ⟨rfl, rfl⟩ := Prod.mk.inj (Option.some.inj hpair)
    exact if_pos fun hkey => ⟨hissued hkey, rfl⟩

theorem ledger_copies (hkey : kFek ≠ List.replicate 32 0) : Copies (ledger kFek issued) :=
  ⟨ledger_laws, fun _ _ _ _ => rfl, fun _ _ => if_pos fun hsame => absurd hsame.symm hkey⟩

/-- Only what was issued opens. -/
theorem ledger_opens {record text : Bytes}
    (h : decrypt (ledger kFek issued) kFek record = .ok text) :
    ∃ sent ∈ issued, record = plainRecord sent.1 sent.2 := by
  rw [decrypt, throwIf_bind_eq_ok] at h
  obtain ⟨-, h⟩ := h
  by_cases hlength : 28 ≤ record.length
  · obtain ⟨blob, hblob, hpack, hnonce, -⟩ := EncryptedBlob.unpack_ok hlength
    rw [hblob, ok_bind] at h
    by_cases hissued : (blob.nonce, blob.ciphertext) ∈ issued ∧
        blob.tag = List.replicate kGcmTagBytes 0
    · refine ⟨_, hissued.1, ?_⟩
      rw [← hpack, plainRecord, List.take_of_length_le hnonce.le, EncryptedBlob.pack, hissued.2]
      rfl
    · have hnone : (ledger kFek issued).gcmOpen kFek blob.nonce blob.ciphertext blob.tag = none :=
        if_neg fun hopen => hissued (hopen rfl)
      rw [hnone] at h
      cases h
  · rw [EncryptedBlob.unpack, throwIf_pos (by simpa using hlength)] at h
    cases h

end ledger

/-- The nonces that a sender draws for these texts, from a place of the tape on. -/
def issuedFrom (tape : Bytes) : Nat → List Bytes → List (Bytes × Bytes)
  | _, [] => []
  | n, text :: texts => ((tape.drop n).take 12, text) :: issuedFrom tape (n + 12) texts

/-- And the records. -/
def packsFrom (tape : Bytes) (n : Nat) (texts : List Bytes) : List Bytes :=
  (issuedFrom tape n texts).map fun sent => plainRecord sent.1 sent.2

theorem packsFrom_cons (tape : Bytes) (n : Nat) (text : Bytes) (texts : List Bytes) :
    packsFrom tape n (text :: texts) = plainRecord (tape.drop n) text :: packsFrom tape (n + 12) texts := by
  rw [packsFrom, issuedFrom, List.map_cons, plainRecord, List.take_take, Nat.min_self]
  rfl

theorem packsFrom_longer {n : Nat} {texts : List Bytes} (htape : n + 12 * texts.length ≤ tape.length) :
    List.Forall₂ (fun text pack => pack.length = text.length + 28) texts (packsFrom tape n texts) := by
  induction texts generalizing n with
  | nil => exact .nil
  | cons text texts ih =>
    rw [List.length_cons] at htape
    rw [packsFrom_cons]
    exact .cons (length_plainRecord (by omega)) (ih (by omega))

theorem length_packsFrom {n : Nat} {texts : List Bytes} (htape : n + 12 * texts.length ≤ tape.length) :
    (packsFrom tape n texts).flatten.length = texts.flatten.length + 28 * texts.length := by
  induction texts generalizing n with
  | nil => rfl
  | cons text texts ih =>
    rw [List.length_cons] at htape ⊢
    rw [packsFrom_cons, List.flatten_cons, List.flatten_cons, List.length_append, List.length_append,
      length_plainRecord (by omega), ih (by omega)]
    omega

theorem mapM_encrypt_ledger {kFek : Bytes} {issued : List (Bytes × Bytes)} (hkey : kFek.length = 32)
    {n : Nat} {texts : List Bytes} (hissued : ∀ sent ∈ issuedFrom tape n texts, sent ∈ issued)
    (htape : n + 12 * texts.length ≤ tape.length) :
    texts.mapM (encrypt (ledger kFek issued) kFek) (tape.drop n) =
      .ok (packsFrom tape n texts, tape.drop (n + 12 * texts.length)) := by
  induction texts generalizing n with
  | nil => rfl
  | cons text texts ih =>
    rw [List.length_cons] at htape ⊢
    obtain ⟨hsent, hlater⟩ := List.forall_mem_cons.mp hissued
    have hseal : (ledger kFek issued).gcmSeal kFek ((tape.drop n).take kGcmNonceBytes) text =
        some (text, List.replicate kGcmTagBytes 0) := if_pos fun _ => hsent
    have hfirst := encrypt_copied n hkey hseal (by omega : n + 12 ≤ tape.length)
    have hrest := ih hlater (by omega : n + 12 + 12 * texts.length ≤ tape.length)
    rw [packsFrom_cons, show n + 12 * (texts.length + 1) = n + 12 + 12 * texts.length by omega]
    simp only [List.mapM_cons, rand_bind_eq_ok, rand_pure_eq_ok]
    exact ⟨_, _, hfirst, _, _, hrest, rfl⟩

/-- The texts of an object, one for each record. -/
def textsOf (filePlaintext : Bytes) (segmentCode : Nat) (layout : WireLayout) : List Bytes :=
  cut (segmentBytes segmentCode) (padPlaintext filePlaintext layout)

/-- Primitives under whose file key nothing opens but the records of one object. -/
def ledgerOf (filePlaintext : Bytes) (segmentCode : Nat) (layout : WireLayout) (tape : Bytes) :
    Primitives :=
  ledger ((tape.drop 16).take 32) (issuedFrom tape 48 (textsOf filePlaintext segmentCode layout))

/-- The run that prepares that object. -/
def ledgerRun (filePlaintext : Bytes) (credential originalFileName : Str)
    (segmentCode maxWireBlockBytes : Nat) (layout : WireLayout) (tape : Bytes) :
    Run filePlaintext credential originalFileName segmentCode maxWireBlockBytes :=
  plainRun (ledgerOf filePlaintext segmentCode layout tape) filePlaintext credential originalFileName
    segmentCode maxWireBlockBytes layout
    (packsFrom tape 48 (textsOf filePlaintext segmentCode layout)).flatten tape
    (48 + 12 * (textsOf filePlaintext segmentCode layout).length)

theorem ledgerRun_holds {filePlaintext : Bytes} {segmentCode maxWireBlockBytes : Nat}
    {layout : WireLayout} (credential originalFileName : Str) (hcode : segmentCode ≠ 0)
    (hlayout : computeWireLayout .native filePlaintext.length segmentCode maxWireBlockBytes = .ok layout)
    (hkey : (tape.drop 16).take 32 ≠ List.replicate 32 0)
    (htape : 72 + 12 * (textsOf filePlaintext segmentCode layout).length ≤ tape.length)
    (hcredential : credential.length = 12) :
    ∃ tape₁ tape₂ tape₃ tape₄ tape₅ uploads,
      (ledgerRun filePlaintext credential originalFileName segmentCode maxWireBlockBytes layout tape).Holds
        .native (ledgerOf filePlaintext segmentCode layout tape) tape tape₁ tape₂ tape₃ tape₄ tape₅
        uploads := by
  have hs := LayoutSound.computeWireLayout_sound hlayout
  have hsize := segmentBytes_pos segmentCode
  have hfek : ((tape.drop 16).take 32).length = 32 := by
    rw [List.length_take, List.length_drop]
    omega
  have hpad : (padPlaintext filePlaintext layout).length =
      filePlaintext.length + layout.plaintextPadding := by
    rw [padPlaintext, List.length_append, List.length_replicate, Nat.add_comm]
  have hlength : (packsFrom tape 48 (textsOf filePlaintext segmentCode layout)).flatten.length =
      cipherLength (padPlaintext filePlaintext layout).length segmentCode := by
    rw [length_packsFrom (by omega), textsOf, flatten_cut hsize, length_cut hsize, cipherLength,
      recordCount, if_neg hcode]
  refine ⟨_, _, _, _, _, _, plainRun_holds credential originalFileName (ledger_copies hkey) hlayout
    (encryptPayload_of_packs native_size hs.code hcode ?_ hlength) ?_ (by omega) (by omega) hcredential⟩
  · exact mapM_encrypt_ledger hfek (fun sent hsent => hsent) (by rw [textsOf] at htape; omega)
  · rw [hlength, hpad, hs.ciphertext]

def fives : Bytes := List.replicate (segmentBytes 1) 5

def sixes : Bytes := List.replicate (segmentBytes 1) 6

/-- Two full segments and an octet. -/
def threeTexts : Bytes := fives ++ (sixes ++ [7])

def pairLayout : WireLayout :=
  { numTokens := 2, wireBlockSize := 16777445, ciphertextLength := 33554517,
    totalWireBytes := 33554890, lastBlockLength := 16777072 }

theorem length_threeTexts : threeTexts.length = 33554433 := by
  rw [threeTexts, fives, sixes, List.length_append, List.length_append, List.length_replicate,
    List.length_replicate]
  rfl

theorem pairLayout_eq :
    computeWireLayout .native threeTexts.length 1 (32 * 1024 * 1024) = .ok pairLayout := by
  rw [length_threeTexts]
  decide +kernel

theorem textsOf_threeTexts : textsOf threeTexts 1 pairLayout = [fives, sixes, [7]] := by
  have hs := segmentBytes_pos 1
  have hnone : padPlaintext threeTexts pairLayout = threeTexts := rfl
  have hfives : fives.length = segmentBytes 1 := List.length_replicate
  have hsixes : sixes.length = segmentBytes 1 := List.length_replicate
  rw [textsOf, hnone, threeTexts, cut_append_block hs _ _ hfives, cut_append_block hs _ _ hsixes,
    cut_of_le hs (List.cons_ne_nil (7 : UInt8) []) hs]

/-- All octets of the tape differ, and so do the nonces. -/
def octets : Bytes := (List.range 108).map UInt8.ofNat

/-- Under the file key of the object below nothing opens but its three records. -/
def strict : Primitives := ledgerOf threeTexts 1 pairLayout octets

def ledgerObject : Run threeTexts (ascii "abcdefghijkl") (ascii "a.bin") 1 (32 * 1024 * 1024) :=
  ledgerRun threeTexts (ascii "abcdefghijkl") (ascii "a.bin") 1 (32 * 1024 * 1024) pairLayout octets

/-- The second record comes first, then a part of the first one. -/
def swapped : Bytes :=
  plainRecord (octets.drop 60) sixes ++ (plainRecord (octets.drop 48) fives).take 201

theorem octets_suffice : 72 + 12 * (textsOf threeTexts 1 pairLayout).length ≤ octets.length := by
  rw [textsOf_threeTexts]
  decide

theorem ledgerObject_holds : ∃ tape₁ tape₂ tape₃ tape₄ tape₅ uploads,
    ledgerObject.Holds .native strict octets tape₁ tape₂ tape₃ tape₄ tape₅ uploads :=
  ledgerRun_holds _ _ (by decide) pairLayout_eq (by decide) octets_suffice (by decide +kernel)

theorem length_swapped : swapped.length = 16777445 := by
  have hrecord : (plainRecord (octets.drop 60) sixes).length = sixes.length + 28 :=
    length_plainRecord (by decide)
  have hother : (plainRecord (octets.drop 48) fives).length = fives.length + 28 :=
    length_plainRecord (by decide)
  have hsixes : sixes.length = segmentBytes 1 := List.length_replicate
  have hfives : fives.length = segmentBytes 1 := List.length_replicate
  rw [swapped, List.length_append, List.length_take, hrecord, hother, hsixes, hfives]
  rfl

end TwelveC.PlainCrypto
