import TwelveC.Client.DownloadWindow
import TwelveC.Client.PreparedDownload

/-!
# What a streaming download feeds

The schedule of a download meets the decrypt session of its object. A whole-file
session is drained only after its end, so the drain behind its first data token
throws; a segmented one opens each record with its last octet.
-/

namespace TwelveC.Client.DownloadFeeds

open TwelveC.Segment TwelveC.Payload WireLayout Merkle Smb Crypto Sender Receiver ReceiveSession Receive32
  RoundTrip Lib Lib.Run Lib.Utf16 DownloadDecode Download

section intake

variable (M : Machine) (C : Primitives) (get : Str → Js Bytes)

/-- The block of a data token, with its size checked. -/
def checkedBlock (searchCode : Str) (wireBlockSize tokenIndex : Nat) : Js Bytes := do
  let token := makeToken C searchCode tokenIndex
  let data ← get token
  assertWireBlockSize token data wireBlockSize

/-- What `decryptDownloadedLargeFile` makes of the block of a token whose predecessors it has taken. -/
def streamIntake (credential searchCode : Str) (token0Wire : Bytes) (wireBlockSize token : Nat) : Intake :=
  if 0 < token ∧ (checkedBlock C get searchCode wireBlockSize token).isOk = false then .refused
  else if (tokenLoop M C get credential searchCode token0Wire wireBlockSize token).isOk = false then
    .thrown
  else .taken

end intake

/-- A valid object that the core opens, with the blocks that the GETs of its data tokens return. -/
structure Served (C : Primitives) (get : Str → Js Bytes) (credential : Str) (token0 : Bytes)
    (parts : TwelveC.CredentialParts) (metadata : SmbMetadata) (padded : Nat) (block : Nat → Bytes) :
    Prop where
  described : Described C credential token0 parts metadata padded
  parse : parseSmbEncrypted .wasm32 C credential token0 = .ok metadata
  addressable : Addressable metadata padded
  blocks : ∀ k, 0 < k → k < metadata.numTokens → get (makeToken C parts.searchCode k) = .ok (block k)

/-- The download goes through `decryptDownloadedLargeFile` with this object. -/
structure Streams (d : Download) (C : Primitives) (get : Str → Js Bytes) (credential : Str)
    (token0 : Bytes) (parts : TwelveC.CredentialParts) (metadata : SmbMetadata) : Prop where
  tokens : d.totalTokens = metadata.numTokens
  intake : ∀ token, d.intake token =
    streamIntake .wasm32 C get credential parts.searchCode token0 metadata.wireBlockSize token

/-- The blocks that are fed up to a token. -/
def blocksTo (block : Nat → Bytes) (last : Nat) : List Bytes := (List.range' 1 last).map block

/-- Every block has the size in the SMB; a whole-file object has one data token at most; the whole
records of a segmented one in the blocks before the last open. -/
structure Feedable (C : Primitives) (parts : TwelveC.CredentialParts) (metadata : SmbMetadata)
    (padded : Nat) (block : Nat → Bytes) : Prop where
  sizes : ∀ k, 0 < k → k < metadata.numTokens → (block k).length = metadata.wireBlockSize
  whole : metadata.segmentCode = 0 → metadata.numTokens ≤ 2
  records : metadata.segmentCode ≠ 0 → WholeRecordsOpen C parts metadata padded
    (blocksTo block (metadata.numTokens - 2)).flatten

variable {M : Machine} {C : Primitives} {get : Str → Js Bytes} {credential : Str} {token0 : Bytes}
  {parts : TwelveC.CredentialParts} {metadata : SmbMetadata} {padded k : Nat} {block : Nat → Bytes}

theorem blocksTo_succ (block : Nat → Bytes) (k : Nat) :
    blocksTo block (k + 1) = blocksTo block k ++ [block (k + 1)] := by
  rw [blocksTo, blocksTo, List.range'_1_concat, List.map_append, Nat.add_comm 1 k]
  rfl

theorem length_blocksTo : (blocksTo block k).length = k := by
  rw [blocksTo, List.length_map, List.length_range']

theorem flatten_blocksTo_succ :
    (blocksTo block (k + 1)).flatten = (blocksTo block k).flatten ++ block (k + 1) := by
  rw [blocksTo_succ, List.flatten_append, List.flatten_singleton]

theorem tokenLoop_succ (searchCode : Str) (wireBlockSize : Nat) :
    tokenLoop M C get credential searchCode token0 wireBlockSize (k + 1) =
      tokenLoop M C get credential searchCode token0 wireBlockSize k >>= fun state =>
        feedToken M C get searchCode wireBlockSize state (k + 1) := by
  rw [tokenLoop, tokenLoop, List.range'_1_concat, Nat.add_comm 1 k]
  simp only [List.foldlM_append, List.foldlM_cons, List.foldlM_nil, bind_pure, bind_assoc]

/-- What the session demands of the blocks up to a token. -/
def Accepted (C : Primitives) (parts : TwelveC.CredentialParts) (metadata : SmbMetadata) (padded : Nat)
    (block : Nat → Bytes) (last : Nat) : Prop :=
  0 < last → metadata.segmentCode ≠ 0 ∧
    (∀ k, 0 < k → k ≤ last → (block k).length = metadata.wireBlockSize) ∧
    WholeRecordsOpen C parts metadata padded (blocksTo block last).flatten

theorem Accepted.before (h : Accepted C parts metadata padded block (k + 1)) :
    Accepted C parts metadata padded block k := by
  intro _
  obtain ⟨hcode, hsizes, hrecords⟩ := h (Nat.succ_pos k)
  rw [flatten_blocksTo_succ] at hrecords
  exact ⟨hcode, fun i hpos hle => hsizes i hpos (Nat.le_succ_of_le hle), hrecords.start⟩

/-- The loop comes as far as the session accepts the blocks. -/
theorem tokenLoop_spec (h : Served C get credential token0 parts metadata padded block)
    (hk : k < metadata.numTokens) :
    (Accepted C parts metadata padded block k ∧
      ∃ s taken, tokenLoop .wasm32 C get credential parts.searchCode token0 metadata.wireBlockSize k =
          .ok (s, ⟨taken, metadata.originalFileLength⟩) ∧
        Running C parts metadata token0 padded (blocksTo block k) taken s) ∨
    (¬ Accepted C parts metadata padded block k ∧
      ∀ state, tokenLoop .wasm32 C get credential parts.searchCode token0 metadata.wireBlockSize k ≠
        .ok state) := by
  have hd := h.described
  have hword : 2 ^ 32 ≤ maxSafeInteger := by decide
  have hsafe := le_trans (file_lt hd h.addressable).le hword
  induction k with
  | zero =>
    refine .inl ⟨fun hpos => absurd hpos (Nat.lt_irrefl 0), _, [], ?_, start_running hd⟩
    rw [tokenLoop, bind_of_ok (openLargeFile_ok hd h.parse h.addressable hsafe)]
    rfl
  | succ k ih =>
    rw [tokenLoop_succ]
    rcases ih (by omega) with ⟨haccepted, s, taken, hloop, hrun⟩ | ⟨hno, hloop⟩
    · have hget := h.blocks (k + 1) (Nat.succ_pos k) hk
      have hlen : (blocksTo block k).length = k := length_blocksTo
      rw [bind_of_ok hloop]
      by_cases hsize : (block (k + 1)).length = metadata.wireBlockSize
      · by_cases hcode : metadata.segmentCode = 0
        · refine .inr ⟨fun haccepted => (haccepted (Nat.succ_pos k)).1 hcode, fun state => ?_⟩
          rw [← hlen]
          exact feedToken_whole hd hcode hrun (by omega)
        · rw [← hlen] at hget
          have hspec := feedToken_spec hd hcode hrun (by omega) hget (by rw [hlen]; exact hsize)
          rw [hlen, ← flatten_blocksTo_succ, ← blocksTo_succ] at hspec
          rcases hspec with ⟨s', taken', hfeed, hrun'⟩ | ⟨hfeed, hrefused⟩
          · refine .inl ⟨fun _ => ⟨hcode, fun i hpos hle => ?_, hrun'.wholeRecordsOpen hcode⟩, s', taken',
              hfeed, hrun'⟩
            rcases Nat.lt_or_eq_of_le hle with hlt | rfl
            · exact (haccepted (by omega)).2.1 i hpos (by omega)
            · exact hsize
          · exact .inr ⟨fun haccepted => hrefused.2 (haccepted (Nat.succ_pos k)).2.2, hfeed⟩
      · refine .inr ⟨fun haccepted => hsize ((haccepted (Nat.succ_pos k)).2.1 _ (Nat.succ_pos k) le_rfl),
          fun state hfeed => ?_⟩
        rw [feedToken, bind_of_ok hget] at hfeed
        obtain ⟨wire, hwire, -⟩ := bind_ok_iff.mp hfeed
        exact hsize (assertWireBlockSize_eq_ok.mp hwire).1
    · refine .inr ⟨fun haccepted => hno haccepted.before, fun state hstate => ?_⟩
      obtain ⟨before, hbefore, -⟩ := bind_ok_iff.mp hstate
      exact hloop before hbefore

section intake

variable (h : Served C get credential token0 parts metadata padded block)

include h

theorem checkedBlock_eq_ok (hpos : 0 < k) (hk : k < metadata.numTokens) {wire : Bytes} :
    checkedBlock C get parts.searchCode metadata.wireBlockSize k = .ok wire ↔
      (block k).length = metadata.wireBlockSize ∧ wire = block k := by
  rw [checkedBlock, bind_of_ok (h.blocks k hpos hk), assertWireBlockSize_eq_ok]

theorem checkedBlock_fails (hpos : 0 < k) (hk : k < metadata.numTokens) :
    (checkedBlock C get parts.searchCode metadata.wireBlockSize k).isOk = false ↔
      (block k).length ≠ metadata.wireBlockSize := by
  cases hchecked : checkedBlock C get parts.searchCode metadata.wireBlockSize k with
  | error e =>
    refine ⟨fun _ hsize => ?_, fun _ => rfl⟩
    rw [(checkedBlock_eq_ok h hpos hk).mpr ⟨hsize, rfl⟩] at hchecked
    cases hchecked
  | ok wire =>
    refine ⟨fun hfails => ?_, fun hne => absurd ((checkedBlock_eq_ok h hpos hk).mp hchecked).1 hne⟩
    cases hfails

theorem tokenLoop_fails (hk : k < metadata.numTokens) :
    (tokenLoop .wasm32 C get credential parts.searchCode token0 metadata.wireBlockSize k).isOk = false ↔
      ¬ Accepted C parts metadata padded block k := by
  rcases tokenLoop_spec h hk with ⟨haccepted, s, taken, hloop, -⟩ | ⟨hno, hloop⟩
  · rw [hloop]
    refine ⟨fun hfails => ?_, fun hno => absurd haccepted hno⟩
    cases hfails
  · refine ⟨fun _ => hno, fun _ => ?_⟩
    cases hstate : tokenLoop .wasm32 C get credential parts.searchCode token0 metadata.wireBlockSize k with
    | error e => rfl
    | ok state => exact absurd hstate (hloop state)

/-- A check throws for a block of another size. -/
theorem streamIntake_refused (hpos : 0 < k) (hk : k < metadata.numTokens) :
    streamIntake .wasm32 C get credential parts.searchCode token0 metadata.wireBlockSize k = .refused ↔
      (block k).length ≠ metadata.wireBlockSize := by
  rw [streamIntake]
  split
  case isTrue hchecked => exact ⟨fun _ => (checkedBlock_fails h hpos hk).mp hchecked.2, fun _ => rfl⟩
  case isFalse hchecked =>
    refine ⟨fun hrefused => ?_, fun hne => ?_⟩
    · split at hrefused <;> cases hrefused
    · exact absurd ⟨hpos, (checkedBlock_fails h hpos hk).mpr hne⟩ hchecked

theorem streamIntake_taken (hk : k < metadata.numTokens) :
    streamIntake .wasm32 C get credential parts.searchCode token0 metadata.wireBlockSize k = .taken ↔
      Accepted C parts metadata padded block k := by
  rw [streamIntake]
  split
  case isTrue hchecked =>
    obtain ⟨hpos, hfails⟩ := hchecked
    refine ⟨fun htaken => ?_, fun haccepted => ?_⟩
    · cases htaken
    · exact absurd ((haccepted hpos).2.1 k hpos le_rfl) ((checkedBlock_fails h hpos hk).mp hfails)
  case isFalse =>
    split
    case isTrue hfails =>
      refine ⟨fun htaken => ?_, fun haccepted => absurd haccepted ((tokenLoop_fails h hk).mp hfails)⟩
      cases htaken
    case isFalse hfails =>
      exact ⟨fun _ => not_not.mp (mt (tokenLoop_fails h hk).mpr hfails), fun _ => rfl⟩

end intake

theorem Accepted.mono {last : Nat} (h : Accepted C parts metadata padded block last) (hle : k ≤ last) :
    Accepted C parts metadata padded block k := by
  induction hle with
  | refl => exact h
  | step _ ih => exact ih h.before

theorem accepted_zero : Accepted C parts metadata padded block 0 :=
  fun hpos => absurd hpos (Nat.lt_irrefl 0)

/-- The blocks before the last one are accepted and the last one has its size. -/
theorem feedable_iff (hd : Described C credential token0 parts metadata padded) :
    Feedable C parts metadata padded block ↔
      Accepted C parts metadata padded block (metadata.numTokens - 2) ∧
        (1 < metadata.numTokens → (block (metadata.numTokens - 1)).length = metadata.wireBlockSize) := by
  constructor
  · rintro ⟨hsizes, hwhole, hrecords⟩
    refine ⟨fun hpos => ?_, fun hmany => hsizes _ (by omega) (by omega)⟩
    have hcode : metadata.segmentCode ≠ 0 := fun hzero => by
      have := hwhole hzero
      omega
    exact ⟨hcode, fun k hpos hle => hsizes k hpos (by omega), hrecords hcode⟩
  · rintro ⟨haccepted, hlast⟩
    refine ⟨fun k hpos hk => ?_, fun hcode => ?_, fun hcode => ?_⟩
    · rcases Nat.lt_or_ge (k + 1) metadata.numTokens with hlt | hge
      · exact (haccepted (by omega)).2.1 k hpos (by omega)
      · obtain rfl : k = metadata.numTokens - 1 := by omega
        exact hlast (by omega)
    · by_contra hmany
      exact (haccepted (by omega)).1 hcode
    · rcases Nat.eq_zero_or_pos (metadata.numTokens - 2) with hzero | hpos
      · rw [hzero]
        exact (start_running hd).wholeRecordsOpen hcode
      · exact (haccepted hpos).2.2

/-- Of the blocks before the last one none ends the download if the session accepts them. -/
theorem takesLeading_iff {d : Download} (h : Served C get credential token0 parts metadata padded block)
    (hd : Streams d C get credential token0 parts metadata) :
    TakesLeading d ↔ Accepted C parts metadata padded block (metadata.numTokens - 2) := by
  have hpos := h.described.tokens
  rw [TakesLeading, hd.tokens]
  constructor
  · intro hleading
    rcases Nat.lt_or_ge 1 metadata.numTokens with hmany | hone
    · rw [← streamIntake_taken h (by omega), ← hd.intake]
      exact hleading _ (by omega)
    · rw [show metadata.numTokens - 2 = 0 by omega]
      exact accepted_zero
  · intro haccepted token htoken
    rw [hd.intake, streamIntake_taken h (by omega)]
    exact haccepted.mono (by omega)

/-- The download of an object feeds all its blocks exactly if the object allows it. -/
theorem feedsAll_iff {d : Download} (h : Served C get credential token0 parts metadata padded block)
    (hd : Streams d C get credential token0 parts metadata) :
    FeedsAll d ↔ Feedable C parts metadata padded block := by
  have hpos := h.described.tokens
  rw [feedable_iff h.described, FeedsAll, takesLeading_iff h hd, hd.tokens]
  refine and_congr_right fun _ => forall_congr' fun hmany => ?_
  rw [hd.intake, Ne, streamIntake_refused h (by omega) (by omega), not_not]

theorem blocksTo_leading (leading : List Bytes) (hle : k ≤ leading.length) :
    blocksTo (fun i => leading.getD (i - 1) []) k = leading.take k := by
  induction k with
  | zero => rfl
  | succ k ih =>
    rw [blocksTo_succ, ih (Nat.le_of_succ_le hle), Nat.add_sub_cancel, List.take_add_one,
      List.getD_eq_getElem?_getD, List.getElem?_eq_getElem (Nat.lt_of_succ_le hle)]
    rfl

/-- All blocks of an object that opens can be fed, unless it is one record over several of them. -/
theorem feedable_stored {uploads : TwelveC.UploadMap} {leading : List Bytes} {plaintext : Bytes}
    (h : Stored C uploads credential token0 parts metadata padded leading)
    (hopens : OpensTo C parts metadata padded (leading.flatten ++ token0.drop 373) plaintext) :
    Feedable C parts metadata padded (fun k => leading.getD (k - 1) []) ↔
      metadata.segmentCode ≠ 0 ∨ metadata.numTokens ≤ 2 := by
  have hlen := h.length_leading
  constructor
  · intro hfeed
    exact or_iff_not_imp_left.mpr fun hcode => hfeed.whole (not_not.mp hcode)
  · intro hmode
    refine ⟨fun k hpos hk => ?_, fun hcode => hmode.resolve_left (not_not.mpr hcode), fun hcode => ?_⟩
    · obtain ⟨wire, hwire, hcollect⟩ := h.block_at (show k - 1 + 1 < metadata.numTokens by omega)
      rw [List.getD_eq_getElem?_getD, hwire]
      exact (collectBlock_eq_ok.mp hcollect).2
    · rw [blocksTo_leading leading (by omega)]
      rw [← List.take_append_drop (metadata.numTokens - 2) leading, List.flatten_append,
        List.append_assoc] at hopens
      by_contra hno
      exact Refused.not_opensTo ⟨hcode, hno⟩ h.described _ _ hopens

section stored

variable {uploads : TwelveC.UploadMap} {leading : List Bytes} {plaintext : Bytes}

/-- A stored object under GETs that return its blocks. -/
theorem served_stored (h : Stored C uploads credential token0 parts metadata padded leading)
    (hparse : parseSmbEncrypted .wasm32 C credential token0 = .ok metadata)
    (ha : Addressable metadata padded) (hget : Serves get uploads) :
    Served C get credential token0 parts metadata padded (fun k => leading.getD (k - 1) []) := by
  refine ⟨h.described, hparse, ha, fun k hpos hk => ?_⟩
  obtain ⟨wire, hwire, hcollect⟩ := h.block_at (show k - 1 + 1 < metadata.numTokens by omega)
  rw [Nat.sub_add_cancel hpos, collectBlock_eq_ok] at hcollect
  rw [List.getD_eq_getElem?_getD, hwire]
  exact hget _ _ hcollect.1

/-- The download of an object that opens feeds all its blocks, unless the object is one record over
several of them. -/
theorem feedsAll_stored {d : Download}
    (h : Stored C uploads credential token0 parts metadata padded leading)
    (hparse : parseSmbEncrypted .wasm32 C credential token0 = .ok metadata)
    (ha : Addressable metadata padded) (hget : Serves get uploads)
    (hopens : OpensTo C parts metadata padded (leading.flatten ++ token0.drop 373) plaintext)
    (hd : Streams d C get credential token0 parts metadata) :
    FeedsAll d ↔ metadata.segmentCode ≠ 0 ∨ metadata.numTokens ≤ 2 :=
  (feedsAll_iff (served_stored h hparse ha hget) hd).trans (feedable_stored h hopens)

end stored

/-- A streaming download keeps its window and its order. It feeds all tokens exactly if no block before
the last one ends it and the last one passes its check: the SMB and the blocks decide this, and of an
object that opens the segment code and the number of tokens do. -/
theorem streams_in_order (d : Download) (hstream : d.useStreamingDecrypt = true)
    (hest : d.estimatedM ≤ d.concurrentM) :
    InOrder d ∧ (StreamsInOrder d ↔ FeedsAll d) ∧
    (∀ C get credential token0 parts metadata padded block,
      Served C get credential token0 parts metadata padded block →
      Streams d C get credential token0 parts metadata →
      (FeedsAll d ↔ Feedable C parts metadata padded block)) ∧
    ∀ C get uploads credential token0 parts metadata padded leading plaintext,
      Stored C uploads credential token0 parts metadata padded leading →
      parseSmbEncrypted .wasm32 C credential token0 = .ok metadata → Addressable metadata padded →
      Serves get uploads →
      OpensTo C parts metadata padded (leading.flatten ++ token0.drop 373) plaintext →
      Streams d C get credential token0 parts metadata →
      (FeedsAll d ↔ metadata.segmentCode ≠ 0 ∨ metadata.numTokens ≤ 2) :=
  ⟨inOrder hstream hest, streamsInOrder_iff hstream hest,
    fun _ _ _ _ _ _ _ _ h hd => feedsAll_iff h hd,
    fun _ _ _ _ _ _ _ _ _ _ h hparse ha hget hopens hd => feedsAll_stored h hparse ha hget hopens hd⟩

open PlainCrypto

/-- The streaming download of an object under `letters`, from its own map. -/
def lettersDownload (uploads : TwelveC.UploadMap) (token0 : Bytes) (layout : WireLayout)
    (h : 0 < layout.numTokens) : Download :=
  { estimatedM := 4, concurrentM := 5, totalTokens := layout.numTokens, useStreamingDecrypt := true,
    resolveMaxAttempts := 20, getMaxAttempts := 120,
    intake := streamIntake .wasm32 plain (getFrom uploads) (toUtf8 letters)
      (toUtf8 (letters.take searchCodeLength)) token0 layout.wireBlockSize,
    estimatedM_pos := by decide, concurrentM_pos := by decide, totalTokens_pos := h }

section letters

variable {filePlaintext originalFileName tape₀ tape₁ tape₂ tape₃ tape₄ tape₅ : Bytes}
  {segmentCode maxWireBlockBytes : Nat} {uploads : TwelveC.UploadMap}
  {r : Run filePlaintext (toUtf8 letters) originalFileName segmentCode maxWireBlockBytes}

theorem streams_letters (h : r.Holds .native plain tape₀ tape₁ tape₂ tape₃ tape₄ tape₅ uploads)
    {layout : WireLayout} (hlayout : r.layout = layout) (hpos : 0 < layout.numTokens) :
    Streams (lettersDownload uploads r.token0 layout hpos) plain (getFrom uploads) (toUtf8 letters)
      r.token0 r.parts (seen plain r) := by
  subst hlayout
  refine ⟨rfl, fun token => ?_⟩
  rw [← searchCode_of_split h.split rfl]
  rfl

theorem token0_letters (h : r.Holds .native plain tape₀ tape₁ tape₂ tape₃ tape₄ tape₅ uploads) :
    getFrom uploads (makeToken plain (toUtf8 (letters.take searchCodeLength)) 0) = .ok r.token0 := by
  rw [searchCode_of_split h.split rfl]
  exact getFrom_serves _ _ _ (lookup_eq plain_distinctTokens h 0 r.token0 rfl)

end letters

/-- In blocks of at most 500 octets the segmented object has three tokens. -/
def threeLayout : WireLayout :=
  { numTokens := 3, wireBlockSize := 434, ciphertextLength := 929, totalWireBytes := 1302,
    lastBlockLength := 61, plaintextPadding := 1 }

/-- A segmented object is fed whole. -/
theorem streams_in_order_letters :
    ∃ uploads tape' token0, prepareUpload .native plain (List.replicate 900 (5 : UInt8))
        (toUtf8 letters) (ascii "a.txt") 1 500 (List.replicate 200 7) = .ok (uploads, tape') ∧
      getFrom uploads (makeToken plain (toUtf8 (letters.take searchCodeLength)) 0) = .ok token0 ∧
      StreamsInOrder (lettersDownload uploads token0 threeLayout (by decide)) := by
  have hok : (prepareUpload .native plain (List.replicate 900 (5 : UInt8)) (toUtf8 letters)
      (ascii "a.txt") 1 500 (List.replicate 200 7)).isOk = true := by decide +kernel
  have hlayout : computeWireLayout .native (List.replicate 900 (5 : UInt8)).length 1 500 =
      .ok threeLayout := by decide +kernel
  cases h : prepareUpload .native plain (List.replicate 900 (5 : UInt8)) (toUtf8 letters)
      (ascii "a.txt") 1 500 (List.replicate 200 7) with
  | error e =>
    rw [h] at hok
    cases hok
  | ok p =>
    obtain ⟨r, t₁, t₂, t₃, t₄, hr⟩ := prepareUpload_eq_ok _ _ h
    have hsame := Except.ok.inj (hr.layout.symm.trans hlayout)
    have hv : ValidCode (readCode (ascii "a.txt") 1) := by decide +kernel
    have hread : readCode (ascii "a.txt") 1 = 1 := by decide +kernel
    have hseen := parse_seen plain_laws hr hv
    have ha : Addressable (seen plain r) r.plaintext.length := by
      constructor
      · show r.layout.ciphertextLength < 2 ^ 32
        rw [hsame]
        decide
      · rw [length_plaintext, hsame, List.length_replicate]
        exact .inr (show 900 + 1 + segmentBytes (readCode (ascii "a.txt") 1) ≤ 2 ^ 32 by decide +kernel)
    obtain ⟨-, hiff, -, hstored⟩ := streams_in_order
      (lettersDownload p.1 r.token0 threeLayout (by decide)) rfl (Nat.le_succ 4)
    have hfeeds := hstored _ _ _ _ _ _ _ _ _ _
      (stored_seen plain_laws plain_distinctTokens hr (.inr (by decide +kernel)) hv (.inl rfl))
      ((parse_wasm32 hr plain_laws _).mpr hseen) ha (getFrom_serves _)
      (accepts_seen plain_laws hr hv (.inl rfl)).2 (streams_letters hr hsame _)
    have hcode : (seen plain r).segmentCode ≠ 0 := fun hzero => by
      cases hread.symm.trans hzero
    exact ⟨_, _, _, rfl, token0_letters hr, hiff.mpr (hfeeds.mpr (.inl hcode))⟩

/-- The whole-file object of 16 MiB and an octet is not: the drain behind its first block throws. -/
theorem whole_file_unfed :
    ∃ uploads tape' token0, prepareUpload .native plain largeFile (toUtf8 letters) (ascii "a.bin") 0
        (4 * 1024 * 1024) (List.replicate 84 7) = .ok (uploads, tape') ∧
      getFrom uploads (makeToken plain (toUtf8 (letters.take searchCodeLength)) 0) = .ok token0 ∧
      ∃ events, Along (lettersDownload uploads token0 largeLayout (by decide)).next
          (Succeeds (lettersDownload uploads token0 largeLayout (by decide))) Download.start events ∧
        Stuck (lettersDownload uploads token0 largeLayout (by decide))
          (exec (lettersDownload uploads token0 largeLayout (by decide)).next Download.start events) ∧
        (exec (lettersDownload uploads token0 largeLayout (by decide)).next Download.start events).fed ≠
          [1, 2, 3, 4] := by
  have hholds := wholeRun_holds (toUtf8 letters) (ascii "a.bin") (List.replicate 84 7)
    largeLayout_eq (by rw [List.length_replicate]) (by decide +kernel)
  have hread : readCode (ascii "a.bin") 0 = 0 := by decide +kernel
  have hv : ValidCode (readCode (ascii "a.bin") 0) := hread ▸ Nat.zero_le _
  have hfeeds := feedsAll_stored
    (stored_seen plain_laws plain_distinctTokens hholds (.inl rfl) hv (.inl hread))
    ((parse_wasm32 hholds plain_laws _).mpr (parse_seen plain_laws hholds hv))
    ⟨show largeLayout.ciphertextLength < 2 ^ 32 by decide, .inl hread⟩ (getFrom_serves _)
    (accepts_seen plain_laws hholds hv (.inl hread)).2
    (streams_letters hholds rfl (show 0 < largeLayout.numTokens by decide))
  refine ⟨_, _, _, prepareUpload_of_holds .native plain hholds, token0_letters hholds, ?_⟩
  refine exists_unfed rfl (Nat.le_succ 4) fun hall => ?_
  rcases hfeeds.mp hall with hcode | hfew
  · exact hcode hread
  · exact absurd hfew (by decide)

end TwelveC.Client.DownloadFeeds
