import TwelveC.TamperedBlocks

/-!
# Receiving through a transport

`receive_adaptive` prefetches a guessed number of tokens, reads the SMB, starts
the tokens that are missing or cancels those that are not needed, and gives what
the gets answered to the batch receiver. The port is a parameter; what a caller
may rely on holds for a token between its start and its cancellation or get.
-/

namespace TwelveC.AdaptiveReceive

open Smb Crypto Receiver Lib

structure ReceiveTransport (σ : Type) where
  startConcurrentGet (tokens : List Str) : σ → Except Exn σ
  cancelPending (tokens : List Str) : σ → Except Exn σ
  get (token : Str) : σ → Except Exn (Bytes × σ)

variable (C : Primitives) {σ : Type}

def deriveIndexTokens (searchCode : Str) (startInclusive endExclusive : Nat) :
    Except Exn (List Str) := do
  throwIf (endExclusive < startInclusive) (.invalidArgument "invalid token index range")
  return (List.range' startInclusive (endExclusive - startInclusive)).map
    (deriveUploadToken C searchCode kSaltFixSearch)

structure ReceiveDownloadPlan where
  numTokens : Nat
  initialPrefetch : List Str
  cancelAfterSmb : List Str := []
  fetchAfterSmb : List Str := []

def computeReceiveDownloadPlan (searchCode : Str) (initialTokens numTokens : Nat) :
    Except Exn ReceiveDownloadPlan := do
  throwIf (initialTokens = 0)
    (.invalidArgument "initial token count must be greater than zero")
  let initialPrefetch ← deriveIndexTokens C searchCode 0 initialTokens
  if initialTokens < numTokens then
    let fetchAfterSmb ← deriveIndexTokens C searchCode initialTokens numTokens
    return { numTokens, initialPrefetch, fetchAfterSmb }
  else if numTokens < initialTokens then
    let cancelAfterSmb ← deriveIndexTokens C searchCode numTokens initialTokens
    return { numTokens, initialPrefetch, cancelAfterSmb }
  else return { numTokens, initialPrefetch }

variable (T : ReceiveTransport σ)

/-- The two calls after the SMB is known. -/
def adjust (plan : ReceiveDownloadPlan) (s : σ) : Except Exn σ := do
  let s ← if plan.fetchAfterSmb.isEmpty then .ok s else T.startConcurrentGet plan.fetchAfterSmb s
  if plan.cancelAfterSmb.isEmpty then .ok s else T.cancelPending plan.cancelAfterSmb s

/-- The loop over the data tokens. -/
def fetchTokens (searchCode : Str) : List Nat → UploadMap → σ → Except Exn (UploadMap × σ)
  | [], uploads, s => .ok (uploads, s)
  | tokenIndex :: rest, uploads, s => do
    let token := deriveUploadToken C searchCode kSaltFixSearch tokenIndex
    let (wire, s) ← T.get token s
    fetchTokens searchCode rest (uploads.emplace token wire) s

def receiveAdaptive (credential : Str) (initialTokens : Nat) (s : σ) : Except Exn (Bytes × σ) := do
  throwIf (initialTokens = 0)
    (.invalidArgument "initial token count must be greater than zero")
  let parts ← splitCredential credential
  let initialPrefetch ← deriveIndexTokens C parts.searchCode 0 initialTokens
  let s ← T.startConcurrentGet initialPrefetch s
  let token0 := deriveUploadToken C parts.searchCode kSaltFixSearch 0
  let (token0Wire, s) ← T.get token0 s
  let metadata ← parseSmbEncrypted .native C credential token0Wire
  let plan ← computeReceiveDownloadPlan C parts.searchCode initialTokens metadata.numTokens
  let s ← adjust T plan s
  let (uploads, s) ← fetchTokens C T parts.searchCode (List.range' 1 (metadata.numTokens - 1))
    (UploadMap.emplace [] token0 token0Wire) s
  let file ← receiveFromUploadMap .native C credential uploads
  return (file, s)

/-- What the port promises: a token is live from its start to its cancellation or get, and the get
of a live token answers with what is stored. -/
structure Serves (uploads : UploadMap) (live : σ → Str → Prop) : Prop where
  start (tokens : List Str) (s : σ) : ∃ s', T.startConcurrentGet tokens s = .ok s' ∧
    ∀ token, live s token ∨ token ∈ tokens → live s' token
  cancel (tokens : List Str) (s : σ) : ∃ s', T.cancelPending tokens s = .ok s' ∧
    ∀ token, live s token → token ∉ tokens → live s' token
  get (token : Str) (s : σ) : live s token →
    (∃ wire s', uploads.find token = some wire ∧ T.get token s = .ok (wire, s') ∧
      ∀ other, live s other → other ≠ token → live s' other) ∨
    (uploads.find token = none ∧ ∃ e, T.get token s = .error e)

variable {C T} {uploads fetched : UploadMap} {live : σ → Str → Prop} {searchCode credential : Str}
  {s : σ} {i n m : Nat}

theorem deriveIndexTokens_eq (h : i ≤ n) : deriveIndexTokens C searchCode i n =
    .ok ((List.range' i (n - i)).map (makeToken C searchCode)) := by
  rw [deriveIndexTokens, throwIf_neg (by omega)]
  rfl

theorem mem_indexTokens {token : Str} :
    token ∈ (List.range' i (n - i)).map (makeToken C searchCode) ↔
      ∃ j, i ≤ j ∧ j < n ∧ makeToken C searchCode j = token := by
  rw [List.mem_map]
  constructor
  · rintro ⟨j, hj, rfl⟩
    rw [List.mem_range'_1] at hj
    exact ⟨j, hj.1, by omega, rfl⟩
  · rintro ⟨j, hij, hjn, rfl⟩
    exact ⟨j, List.mem_range'_1.mpr ⟨hij, by omega⟩, rfl⟩

/-- The data tokens of these indices are live. -/
def LiveFrom (C : Primitives) (live : σ → Str → Prop) (searchCode : Str) (i n : Nat) (s : σ) : Prop :=
  ∀ j, i ≤ j → j < n → live s (makeToken C searchCode j)

/-- After the adjustment every token of the object that was not got yet is live. -/
theorem adjust_live (hd : DistinctTokens C) (hT : Serves T uploads live) (hn : 0 < n)
    (hn32 : n < 2 ^ 32) (hm32 : m < 2 ^ 32) (h : LiveFrom C live searchCode 1 n s) :
    ∃ plan s', computeReceiveDownloadPlan C searchCode n m = .ok plan ∧
      adjust T plan s = .ok s' ∧ LiveFrom C live searchCode 1 m s' := by
  rw [computeReceiveDownloadPlan, throwIf_neg (by omega), ok_bind,
    deriveIndexTokens_eq (Nat.zero_le n), ok_bind]
  by_cases hmore : n < m
  · rw [if_pos hmore, deriveIndexTokens_eq hmore.le, ok_bind]
    obtain ⟨s', hstart, hlive⟩ := hT.start ((List.range' n (m - n)).map (makeToken C searchCode)) s
    refine ⟨_, s', rfl, ?_, fun j h1 hjm => hlive _ ?_⟩
    · have hsome : ((List.range' n (m - n)).map (makeToken C searchCode)).isEmpty = false := by
        rw [List.isEmpty_eq_false_iff]
        simp
        omega
      simp [adjust, hsome, hstart]
    · by_cases hjn : j < n
      · exact .inl (h j h1 hjn)
      · exact .inr (mem_indexTokens.mpr ⟨j, by omega, hjm, rfl⟩)
  · rw [if_neg hmore]
    by_cases hless : m < n
    · rw [if_pos hless, deriveIndexTokens_eq hless.le, ok_bind]
      obtain ⟨s', hcancel, hlive⟩ :=
        hT.cancel ((List.range' m (n - m)).map (makeToken C searchCode)) s
      refine ⟨_, s', rfl, ?_, fun j h1 hjm => hlive _ (h j h1 (by omega)) fun hmem => ?_⟩
      · have hsome : ((List.range' m (n - m)).map (makeToken C searchCode)).isEmpty = false := by
          rw [List.isEmpty_eq_false_iff]
          simp
          omega
        simp [adjust, hsome, hcancel]
      · obtain ⟨k, hk, hkn, heq⟩ := mem_indexTokens.mp hmem
        have := hd searchCode k j (by omega) (by omega) heq
        omega
    · rw [if_neg hless]
      obtain rfl : n = m := by omega
      exact ⟨_, s, rfl, by simp [adjust], h⟩

/-- The map holds what is stored for the tokens before index `i`, and no other token. -/
def Fetched (C : Primitives) (uploads fetched : UploadMap) (searchCode : Str) (i : Nat) : Prop :=
  ∀ j, j < 2 ^ 32 → fetched.find (makeToken C searchCode j) =
    if j < i then uploads.find (makeToken C searchCode j) else none

theorem Fetched.emplace (hd : DistinctTokens C) (h : Fetched C uploads fetched searchCode i)
    (hi : i < 2 ^ 32) {wire : Bytes} (hwire : uploads.find (makeToken C searchCode i) = some wire) :
    Fetched C uploads (fetched.emplace (makeToken C searchCode i) wire) searchCode (i + 1) := by
  have hnone : Assoc.find fetched (makeToken C searchCode i) = none := by
    have hfind := h i hi
    rwa [if_neg (by omega)] at hfind
  intro j hj
  rw [UploadMap.find, UploadMap.emplace, Assoc.emplace, hnone, Option.isSome_none,
    if_neg (by decide)]
  by_cases heq : j = i
  · rw [heq, Assoc.find_concat_self hnone, if_pos (by omega), hwire]
  · have hne : makeToken C searchCode j ≠ makeToken C searchCode i :=
      fun htoken => heq (hd searchCode j i hj hi htoken)
    rw [Assoc.find_concat_of_ne hne]
    exact (h j hj).trans (if_congr (by omega) rfl rfl)

/-- The loop gets every token, or one of them is not stored. -/
theorem fetchTokens_spec (hd : DistinctTokens C) (hT : Serves T uploads live) (k : Nat)
    (hik : i + k ≤ 2 ^ 32) (hlive : LiveFrom C live searchCode i (i + k) s)
    (h : Fetched C uploads fetched searchCode i) :
    (∃ fetched' s', fetchTokens C T searchCode (List.range' i k) fetched s = .ok (fetched', s') ∧
      Fetched C uploads fetched' searchCode (i + k)) ∨
    (∃ e, fetchTokens C T searchCode (List.range' i k) fetched s = .error e) ∧
      ∃ j, i ≤ j ∧ j < i + k ∧ uploads.find (makeToken C searchCode j) = none := by
  induction k generalizing i s fetched with
  | zero => exact .inl ⟨fetched, s, rfl, h⟩
  | succ k ih =>
    rw [List.range'_succ, fetchTokens]
    rcases hT.get _ s (hlive i le_rfl (by omega)) with ⟨wire, s', hfind, hget, hkept⟩ | ⟨hfind, e, hget⟩
    · have hlive' : LiveFrom C live searchCode (i + 1) (i + 1 + k) s' := by
        intro j hij hjk
        refine hkept _ (hlive j (by omega) (by omega)) fun heq => ?_
        have := hd searchCode j i (by omega) (by omega) heq
        omega
      have hget' : T.get (deriveUploadToken C searchCode kSaltFixSearch i) s = .ok (wire, s') := hget
      rcases ih (by omega) hlive' (h.emplace hd (by omega) hfind) with ⟨fetched', s'', hrest, hall⟩ | hmissing
      · refine .inl ⟨fetched', s'', ?_, by rwa [Nat.add_comm k 1, ← Nat.add_assoc]⟩
        simp only [hget', ok_bind]
        exact hrest
      · obtain ⟨⟨e, hrest⟩, j, hij, hjk, hnone⟩ := hmissing
        refine .inr ⟨⟨e, ?_⟩, j, by omega, by omega, hnone⟩
        simp only [hget', ok_bind]
        exact hrest
    · refine .inr ⟨⟨e, ?_⟩, i, le_rfl, by omega, hfind⟩
      have hget' : T.get (deriveUploadToken C searchCode kSaltFixSearch i) s = .error e := hget
      simp only [hget', error_bind]

theorem lookupUpload_congr {key : Str} (h : fetched.find key = uploads.find key) :
    lookupUpload fetched key = lookupUpload uploads key := by
  rw [lookupUpload, lookupUpload, h]

/-- The batch receiver reads no token behind the count in the SMB. -/
theorem receive_congr {parts : CredentialParts} {token0 : Bytes} {metadata : SmbMetadata}
    (hsplit : splitCredential credential = .ok parts)
    (hfound : lookupUpload uploads (makeToken C parts.searchCode 0) = .ok token0)
    (hparse : parseSmbEncrypted .native C credential token0 = .ok metadata)
    (h0 : fetched.find (makeToken C parts.searchCode 0) = uploads.find (makeToken C parts.searchCode 0))
    (h : ∀ j, 1 ≤ j → j < metadata.numTokens →
      fetched.find (makeToken C parts.searchCode j) = uploads.find (makeToken C parts.searchCode j)) :
    receiveFromUploadMap .native C credential fetched =
      receiveFromUploadMap .native C credential uploads := by
  have hblocks : collectBlocksFromUploads .native C fetched parts.searchCode metadata =
      collectBlocksFromUploads .native C uploads parts.searchCode metadata := by
    rw [collectBlocksFromUploads, collectBlocksFromUploads, lookupUpload_congr h0]
    have hleading : (List.range' 1 (metadata.numTokens - 1)).mapM
        (collectBlock C fetched parts.searchCode metadata.wireBlockSize) =
        (List.range' 1 (metadata.numTokens - 1)).mapM
          (collectBlock C uploads parts.searchCode metadata.wireBlockSize) := by
      refine mapM_congr fun j hj => ?_
      rw [List.mem_range'_1] at hj
      rw [collectBlock, collectBlock, lookupUpload_congr (h j hj.1 (by omega))]
    rw [hleading]
  rw [receiveFromUploadMap, receiveFromUploadMap, hsplit, ok_bind, ok_bind, lookupUpload_congr h0,
    hfound, ok_bind, ok_bind, hparse, ok_bind, ok_bind, hblocks]

/-- A stored object has all its tokens. -/
theorem stored_of_receive {file : Bytes} {parts : CredentialParts} {token0 : Bytes}
    {metadata : SmbMetadata} (hsplit : splitCredential credential = .ok parts)
    (hfound : lookupUpload uploads (makeToken C parts.searchCode 0) = .ok token0)
    (hparse : parseSmbEncrypted .native C credential token0 = .ok metadata)
    (h : receiveFromUploadMap .native C credential uploads = .ok file) {j : Nat} (h1 : 1 ≤ j)
    (hj : j < metadata.numTokens) : uploads.find (makeToken C parts.searchCode j) ≠ none := by
  obtain ⟨token0', parts', metadata', _, _, _, hstored, -, -⟩ :=
    ReceiveSession.receiveFromUploadMap_eq_ok.mp h
  obtain rfl := Except.ok.inj (hsplit.symm.trans hstored.described.split)
  obtain rfl := Except.ok.inj (hfound.symm.trans hstored.token0)
  obtain rfl := Except.ok.inj (hparse.symm.trans hstored.described.parse)
  obtain ⟨block, -, hblock⟩ := mem_mapM_ok hstored.leading
    (List.mem_range'_1.mpr ⟨h1, by omega⟩)
  obtain ⟨wire, hlookup, -⟩ := bind_eq_ok.mp hblock
  intro hnone
  rw [lookupUpload, hnone] at hlookup
  cases hlookup

/-- Through a port that keeps its promises `receive_adaptive` returns what the batch receiver makes
of the stored map, whatever number of tokens was guessed. -/
theorem adaptive_receives (C : Primitives) (hd : DistinctTokens C) (T : ReceiveTransport σ)
    (uploads : UploadMap) (live : σ → Str → Prop) (hT : Serves T uploads live) (credential : Str)
    (initialTokens : Nat) (hn : 0 < initialTokens) (hn32 : initialTokens < 2 ^ 32) (s : σ)
    (file : Bytes) :
    (∃ s', receiveAdaptive C T credential initialTokens s = .ok (file, s')) ↔
      receiveFromUploadMap .native C credential uploads = .ok file := by
  rw [receiveAdaptive, throwIf_neg (by omega), ok_bind]
  cases hsplit : splitCredential credential with
  | error e => simp [receiveFromUploadMap, hsplit]
  | ok parts =>
    obtain ⟨s₁, hstart, hlive₁⟩ :=
      hT.start ((List.range' 0 (initialTokens - 0)).map (makeToken C parts.searchCode)) s
    have hinit (j : Nat) (hj : j < initialTokens) : live s₁ (makeToken C parts.searchCode j) :=
      hlive₁ _ (.inr (mem_indexTokens.mpr ⟨j, Nat.zero_le j, hj, rfl⟩))
    rw [ok_bind, deriveIndexTokens_eq (Nat.zero_le _), ok_bind, hstart, ok_bind]
    rcases hT.get _ s₁ (hinit 0 hn) with ⟨wire, s₂, hfind, hget, hkept⟩ | ⟨hfind, e, hget⟩
    · have hlookup : lookupUpload uploads (makeToken C parts.searchCode 0) = .ok wire := by
        rw [lookupUpload, hfind]
      rw [makeToken] at hget
      cases hparse : parseSmbEncrypted .native C credential wire with
      | error e => simp [hget, hparse, receiveFromUploadMap, hsplit, hlookup]
      | ok metadata =>
        have hlive₂ : LiveFrom C live parts.searchCode 1 initialTokens s₂ := by
          intro j h1 hj
          refine hkept _ (hinit j hj) fun heq => ?_
          have := hd parts.searchCode j 0 (by omega) (by omega) heq
          omega
        have hm32 := (ReceiveSession.parse_bounds hparse).2.1
        obtain ⟨plan, s₃, hplan, hadjust, hlive₃⟩ := adjust_live hd hT hn hn32 hm32 hlive₂
        have hfirst : Fetched C uploads (UploadMap.emplace [] (makeToken C parts.searchCode 0) wire)
            parts.searchCode 1 := by
          have hnothing : Fetched C uploads [] parts.searchCode 0 := fun j _ => by
            rw [if_neg (Nat.not_lt_zero j)]
            rfl
          exact hnothing.emplace hd (by omega) hfind
        have hlive₃' : LiveFrom C live parts.searchCode 1 (1 + (metadata.numTokens - 1)) s₃ :=
          fun j h1 hj => hlive₃ j h1 (by omega)
        simp only [hget, hparse, ok_bind, hplan, hadjust]
        rcases fetchTokens_spec hd hT _ (by omega) hlive₃' hfirst with ⟨fetched, s₄, hloop, hall⟩ | hmissing
        · rw [makeToken] at hloop
          rw [hloop, ok_bind, receive_congr hsplit hlookup hparse
            ((hall 0 (by omega)).trans (if_pos (by omega)))
            fun j h1 hj => (hall j (by omega)).trans (if_pos (by omega))]
          cases receiveFromUploadMap .native C credential uploads <;> simp
        · obtain ⟨⟨e, hloop⟩, j, h1, hj, hnone⟩ := hmissing
          rw [makeToken] at hloop
          rw [hloop]
          refine ⟨by simp, fun hreceive => ?_⟩
          exact absurd hnone (stored_of_receive hsplit hlookup hparse hreceive h1 (by omega))
    · rw [makeToken] at hget
      simp [hget, receiveFromUploadMap, hsplit, lookupUpload, hfind]

open ReceiveSession PlainCrypto

/-- A port over a stored map; its state is the tokens that were cancelled or handed over. -/
def storedPort (uploads : UploadMap) : ReceiveTransport (List Str) where
  startConcurrentGet tokens gone := .ok (gone.filter fun token => token ∉ tokens)
  cancelPending tokens gone := .ok (tokens ++ gone)
  get token gone :=
    if token ∈ gone then .error (.runtimeError "get of a token that is not pending")
    else
      match uploads.find token with
      | none => .error (.runtimeError "GET failed")
      | some wire => .ok (wire, token :: gone)

theorem storedPort_serves (uploads : UploadMap) :
    Serves (storedPort uploads) uploads fun gone token => token ∉ gone where
  start tokens gone := ⟨_, rfl, fun token h hmem => by
    rw [List.mem_filter, decide_eq_true_eq] at hmem
    exact h.elim (fun hlive => hlive hmem.1) hmem.2⟩
  cancel tokens gone := ⟨_, rfl, fun token hlive hnew hmem =>
    (List.mem_append.mp hmem).elim hnew hlive⟩
  get token gone hlive := by
    cases hfind : uploads.find token with
    | none => exact .inr ⟨rfl, .runtimeError "GET failed", by simp [storedPort, hlive, hfind]⟩
    | some wire =>
      refine .inl ⟨wire, token :: gone, rfl, by simp [storedPort, hlive, hfind], ?_⟩
      intro other hother hne hmem
      exact (List.mem_cons.mp hmem).elim hne hother

theorem adaptive_receives_two : ∃ uploads tape, twoTokens = .ok (uploads, tape) ∧
    ((∃ gone, receiveAdaptive plain (storedPort uploads) (ascii "abcdefghijkl") 5 [] =
        .ok (List.replicate 900 5, gone)) ↔
      receiveFromUploadMap .native plain (ascii "abcdefghijkl") uploads =
        .ok (List.replicate 900 5)) := by
  obtain ⟨uploads, tape, -, -, -, hmap, -⟩ := twoTokens_changed
  exact ⟨uploads, tape, hmap, adaptive_receives plain plain_distinctTokens (storedPort uploads) uploads
    _ (storedPort_serves uploads) (ascii "abcdefghijkl") 5 (by decide) (by decide) [] _⟩

end TwelveC.AdaptiveReceive
