import TwelveC.Registry.Rejections
import TwelveC.Registry.ReservedRows

/-!
# Resolving download routes

A resolve classifies its tokens, purges the expired rows and then looks for
targets. Targets need a live placement, and a token that has one was classified
as ready, so the status is the classification before the purge. A token whose
placements have all expired loses them to the purge: only the first resolve
still finds them.
-/

namespace TwelveC.Registry

open Lib Lib.Run Relay.BlockAuth Scheduling

inductive ResolveStatus where
  | ready
  | expired
  | unavailable
  deriving DecidableEq, Repr

structure ResolveRouteResult where
  token : Str
  targets : List RegistryRepository.RelayTarget
  resolveStatus : ResolveStatus
  deriving DecidableEq, Repr

namespace RegistryRepository

variable (env : Env)

/-- One live holder of a token that may serve a download GET. -/
structure DownloadTargetCandidate where
  role : Role
  relayId : Str
  relayBaseUrl : Str
  storageRate : Rat
  deriving DecidableEq, Repr

/-- The key `(storage_rate, 0 if role == "primary" else 1, relay_id)`. -/
def steeredBefore (a b : DownloadTargetCandidate) : Bool :=
  if a.storageRate ≠ b.storageRate then a.storageRate < b.storageRate
  else if a.role ≠ b.role then a.role = .primary
  else strLe a.relayId b.relayId

def orderDownloadTargetsByLoad (candidates : List DownloadTargetCandidate) :
    List DownloadTargetCandidate :=
  candidates.mergeSort steeredBefore

/-- `is_placement_live` -/
def placementLive (s : Db) (row : PlacementRow) : Bool := ¬ row.expiryAt ≤ s.now

/-- The live placements on healthy relays, which the listing names once each. -/
def downloadCandidates (s : Db) (placements : List (Str × PlacementRow)) :
    List DownloadTargetCandidate :=
  placements.filterMap fun e =>
    match (healthyRelays env s).find? (·.relayId = e.1) with
    | none => none
    | some live =>
      if placementLive s e.2 then
        some { role := e.2.role, relayId := e.1, relayBaseUrl := live.relayBaseUrl,
               storageRate := live.storageRate }
      else none

def resolveTargets (s : Db) (token : Str) : Option TokenReserveResult :=
  let placements := tokenPlacements s token
  match placements.find? fun e => e.2.role = .primary with
  | none => none
  | some primary =>
    if placementLive s primary.2 then
      let candidates := downloadCandidates env s placements
      if candidates.any fun candidate => candidate.role = .primary then
        some { token, targets := (orderDownloadTargetsByLoad candidates).map fun item =>
          { role := item.role, relayId := item.relayId, relayBaseUrl := item.relayBaseUrl } }
      else none
    else none

def classifyTokenResolveStatus (s : Db) (token : Str) : ResolveStatus :=
  let placements := tokenPlacements s token
  if placements = [] then .unavailable
  else if placements.any fun e => placementLive s e.2 then .ready
  else .expired

end RegistryRepository

open RegistryRepository

variable (env : Env)

def resolvedRoute (statuses : List (Str × ResolveStatus)) (s : Db) (token : Str) :
    ResolveRouteResult :=
  match resolveTargets env s token with
  | none => { token, targets := [], resolveStatus := (Assoc.find statuses token).getD .unavailable }
  | some resolved => { token, targets := resolved.targets, resolveStatus := .ready }

/-- The event row that is written last is left out. -/
def resolveDownloadRoutes (tokens : List Str) : Py Db (List ResolveRouteResult) := do
  let statuses ← Py.read fun s => tokens.map fun token => (token, classifyTokenResolveStatus s token)
  purgeExpiredTokens
  Py.read fun s => tokens.map (resolvedRoute env statuses s)

variable {env} {s s' : Db} {token : Str} {tokens : List Str}

/-- The token has a row. -/
def Placed (s : Db) (token : Str) : Prop := ∃ relayId row, s.placements.find (token, relayId) = some row

/-- The token has a row that has not expired. -/
def PlacedLive (s : Db) (token : Str) : Prop :=
  ∃ relayId row, s.placements.find (token, relayId) = some row ∧ s.now < row.expiryAt

theorem tokenPlacements_eq_nil : tokenPlacements s token = [] ↔ ¬ Placed s token := by
  rw [List.eq_nil_iff_forall_not_mem]
  constructor
  · rintro h ⟨relayId, row, hfind⟩
    exact h _ (mem_tokenPlacements.mpr ⟨row, hfind, rfl⟩)
  · intro h e he
    obtain ⟨row, hfind, -⟩ := mem_tokenPlacements.mp he
    exact h ⟨e.1, row, hfind⟩

theorem any_live : (tokenPlacements s token).any (fun e => placementLive s e.2) = true ↔
    PlacedLive s token := by
  rw [List.any_eq_true]
  constructor
  · rintro ⟨e, he, hlive⟩
    obtain ⟨row, hfind, heq⟩ := mem_tokenPlacements.mp he
    rw [heq] at hlive
    exact ⟨e.1, row, hfind, by simpa [placementLive] using hlive⟩
  · rintro ⟨relayId, row, hfind, hlive⟩
    exact ⟨_, mem_tokenPlacements.mpr ⟨row, hfind, rfl⟩, by simpa [placementLive] using hlive⟩

theorem PlacedLive.placed (h : PlacedLive s token) : Placed s token := by
  obtain ⟨relayId, row, hfind, -⟩ := h
  exact ⟨relayId, row, hfind⟩

theorem classify_ready (h : PlacedLive s token) : classifyTokenResolveStatus s token = .ready := by
  have hne : tokenPlacements s token ≠ [] := fun hnil => tokenPlacements_eq_nil.mp hnil h.placed
  rw [classifyTokenResolveStatus, if_neg hne, if_pos (any_live.mpr h)]

theorem classify_unavailable (h : ¬ Placed s token) :
    classifyTokenResolveStatus s token = .unavailable := by
  rw [classifyTokenResolveStatus, if_pos (tokenPlacements_eq_nil.mpr h)]

theorem classify_expired (h : Placed s token) (hlive : ¬ PlacedLive s token) :
    classifyTokenResolveStatus s token = .expired := by
  have hne : tokenPlacements s token ≠ [] := fun hnil => tokenPlacements_eq_nil.mp hnil h
  rw [classifyTokenResolveStatus, if_neg hne, if_neg fun hany => hlive (any_live.mp hany)]

/-- The classification depends on which rows there are and which of them are live. -/
theorem classify_congr (hplaced : Placed s' token ↔ Placed s token)
    (hlive : PlacedLive s' token ↔ PlacedLive s token) :
    classifyTokenResolveStatus s' token = classifyTokenResolveStatus s token := by
  by_cases hl : PlacedLive s token
  · rw [classify_ready hl, classify_ready (hlive.mpr hl)]
  · by_cases hp : Placed s token
    · rw [classify_expired hp hl, classify_expired (hplaced.mpr hp) fun h => hl (hlive.mp h)]
    · rw [classify_unavailable hp, classify_unavailable fun h => hp (hplaced.mp h)]

theorem find_purgeExpired {key : Str × Str} {row : PlacementRow} :
    (purgeExpired s).placements.find key = some row ↔
      s.placements.find key = some row ∧ s.now < row.expiryAt := by
  rw [purgeExpired, Table.find_filter, Option.filter_eq_some_iff]
  simp

theorem placed_purgeExpired : Placed (purgeExpired s) token ↔ PlacedLive s token := by
  simp only [Placed, PlacedLive, find_purgeExpired]

theorem placedLive_purgeExpired : PlacedLive (purgeExpired s) token ↔ PlacedLive s token := by
  simp only [PlacedLive, find_purgeExpired]
  constructor
  · rintro ⟨relayId, row, ⟨hfind, hlive⟩, -⟩
    exact ⟨relayId, row, hfind, hlive⟩
  · rintro ⟨relayId, row, hfind, hlive⟩
    exact ⟨relayId, row, ⟨hfind, hlive⟩, hlive⟩

/-- No targets without a live placement. -/
theorem placedLive_of_targets {resolved : TokenReserveResult}
    (h : resolveTargets env s token = some resolved) : PlacedLive s token := by
  rw [resolveTargets] at h
  dsimp only at h
  split at h
  case h_1 => cases h
  case h_2 primary hprimary =>
    split at h
    case isTrue hlive =>
      rw [← any_live, List.any_eq_true]
      exact ⟨primary, List.mem_of_find?_eq_some hprimary, hlive⟩
    case isFalse => cases h

/-- The statuses that a resolve reports, token by token. -/
def reportedStatuses (env : Env) (s : Db) (tokens : List Str) : Except PyExn (List ResolveStatus) :=
  (resolveDownloadRoutes env tokens s).1.map fun results => results.map (·.resolveStatus)

/-- A resolve reports the classification before its purge. -/
theorem reportedStatuses_eq (env : Env) (s : Db) (tokens : List Str) :
    reportedStatuses env s tokens = .ok (tokens.map (classifyTokenResolveStatus s)) := by
  have hroute : ∀ token ∈ tokens, (resolvedRoute env (tokens.map fun token =>
      (token, classifyTokenResolveStatus s token)) (purgeExpired s) token).resolveStatus =
        classifyTokenResolveStatus s token := by
    intro token hm
    rw [resolvedRoute]
    split
    case h_1 => rw [Assoc.find_map_self _ hm, Option.getD_some]
    case h_2 resolved htargets =>
      exact (classify_ready (placedLive_purgeExpired.mp (placedLive_of_targets htargets))).symm
  have hpurge : purgeExpiredTokens s = (.ok (), purgeExpired s) := rfl
  rw [reportedStatuses, resolveDownloadRoutes, Py.bind_ok (Py.read_run _ s), Py.bind_ok hpurge,
    Py.read_run, Except.map, List.map_map]
  exact congrArg Except.ok (List.map_congr_left hroute)

theorem resolveDownloadRoutes_snd (env : Env) (s : Db) (tokens : List Str) :
    (resolveDownloadRoutes env tokens s).2 = purgeExpired s := rfl

/-- What may happen between two resolves. -/
inductive Between where
  | resolve (tokens : List Str)
  | reserve (entries : List (Str × Str)) (ttlSeconds : Option Int)
  deriving DecidableEq

def between (env : Env) (s : Db) : Between → Db
  | .resolve tokens => (resolveDownloadRoutes env tokens s).2
  | .reserve entries ttlSeconds => (reserveUploadBlocks env entries ttlSeconds s).2

/-- A reserve of other tokens. -/
def Spares (tokens : List Str) (_ : Db) : Between → Prop
  | .resolve _ => True
  | .reserve entries _ => ∀ e ∈ entries, e.1 ∉ tokens

/-- Of the token's rows at most expired ones are gone, and none is new. -/
structure Kept (s s' : Db) (token : Str) : Prop where
  now : s'.now = s.now
  rows : ∀ relayId row, s'.placements.find (token, relayId) = some row →
    s.placements.find (token, relayId) = some row
  live : ∀ relayId row, s.placements.find (token, relayId) = some row → s.now < row.expiryAt →
    s'.placements.find (token, relayId) = some row

theorem Kept.refl (s : Db) (token : Str) : Kept s s token :=
  ⟨rfl, fun _ _ h => h, fun _ _ h _ => h⟩

theorem Kept.trans {s'' : Db} (h : Kept s s' token) (h' : Kept s' s'' token) : Kept s s'' token where
  now := h'.now.trans h.now
  rows relayId row hfind := h.rows relayId row (h'.rows relayId row hfind)
  live relayId row hfind hlive := by
    have hfind' := h.live relayId row hfind hlive
    rw [← h.now] at hlive
    exact h'.live relayId row hfind' hlive

theorem kept_purgeExpired (s : Db) (token : Str) : Kept s (purgeExpired s) token where
  now := rfl
  rows _ _ hfind := (find_purgeExpired.mp hfind).1
  live _ _ hfind hlive := find_purgeExpired.mpr ⟨hfind, hlive⟩

theorem kept_upsert {planned : List PlannedPlacement} {granted : Int}
    (h : ∀ p ∈ planned, p.token ≠ token) : Kept s (upsertPlacements planned granted s) token := by
  rw [upsertPlacements_eq]
  refine ⟨rfl, fun relayId row hfind => ?_, fun relayId row hfind _ => ?_⟩
  · rwa [find_writeRows_other h] at hfind
  · rwa [find_writeRows_other h]

theorem kept_reserve (ttlSeconds : Option Int) {entries : List (Str × Str)}
    (h : ∀ e ∈ entries, e.1 ≠ token) :
    Kept s (reserveUploadBlocks env entries ttlSeconds s).2 token := by
  rw [reserveUploadBlocks_snd]
  rcases lock_state env entries ttlSeconds s with hpurged | ⟨resolution, -, -, -, hplan, hwritten⟩
  · rw [hpurged]
    exact kept_purgeExpired s token
  · rw [hwritten]
    apply (kept_purgeExpired s token).trans
    apply kept_upsert
    intro p hp
    obtain ⟨entry, hentry, relay, -, -, role, rfl⟩ := resolve_uses hplan hp
    exact h entry hentry

/-- One step keeps the token's live rows. -/
theorem kept_between {e : Between} (hm : token ∈ tokens) (h : Spares tokens s e) :
    Kept s (between env s e) token := by
  cases e with
  | resolve others => exact kept_purgeExpired s token
  | reserve entries ttlSeconds =>
    apply kept_reserve
    intro entry hentry heq
    exact h entry hentry (heq ▸ hm)

theorem kept_run (hm : token ∈ tokens) (events : List Between)
    (h : Along (between env) (Spares tokens) s events) :
    Kept s (exec (between env) s events) token := by
  have hstep : ∀ s' e, Kept s s' token → Spares tokens s' e → Kept s (between env s' e) token :=
    fun s' e hkept hspares => hkept.trans (kept_between hm hspares)
  exact exec_invariant hstep (Kept.refl s token) h

theorem Kept.placedLive (h : Kept s s' token) : PlacedLive s' token ↔ PlacedLive s token := by
  constructor
  · rintro ⟨relayId, row, hfind, hlive⟩
    rw [h.now] at hlive
    exact ⟨relayId, row, h.rows relayId row hfind, hlive⟩
  · rintro ⟨relayId, row, hfind, hlive⟩
    refine ⟨relayId, row, h.live relayId row hfind hlive, ?_⟩
    rwa [h.now]

/-- A token that has rows has one that is not expired. -/
def NotAllExpired (s : Db) (token : Str) : Prop := Placed s token → PlacedLive s token

theorem Kept.classify (h : Kept s s' token) (hs : NotAllExpired s token) :
    classifyTokenResolveStatus s' token = classifyTokenResolveStatus s token := by
  apply classify_congr _ h.placedLive
  constructor
  · rintro ⟨relayId, row, hfind⟩
    exact ⟨relayId, row, h.rows relayId row hfind⟩
  · exact fun hplaced => (h.placedLive.mpr (hs hplaced)).placed

/-- Resolves of the same tokens agree, whatever resolves and reserves of other tokens come in between,
exactly if no token of the list has rows that have all expired. -/
theorem resolve_repeatable_iff (env : Env) (s : Db) (tokens : List Str) :
    (∀ events, Along (between env) (Spares tokens) s events →
      reportedStatuses env (exec (between env) s events) tokens = reportedStatuses env s tokens) ↔
    ∀ token ∈ tokens, NotAllExpired s token := by
  constructor
  · intro h token hm hplaced
    by_contra hlive
    have hagain := h [.resolve tokens] ⟨trivial, trivial⟩
    rw [reportedStatuses_eq, reportedStatuses_eq] at hagain
    have hsame := List.map_inj_left.mp (Except.ok.inj hagain) token hm
    have hgone : ¬ Placed (purgeExpired s) token := fun hp => hlive (placed_purgeExpired.mp hp)
    rw [classify_expired hplaced hlive] at hsame
    exact absurd ((classify_unavailable hgone).symm.trans hsame) (by decide)
  · intro h events halong
    rw [reportedStatuses_eq, reportedStatuses_eq]
    apply congrArg Except.ok
    apply List.map_congr_left
    intro token hm
    exact (kept_run hm events halong).classify (h token hm)

/-- A token whose only placement has expired. -/
def outdated : Db :=
  { allowlist := Table.empty, relayStates := Table.empty, registryKeys := Table.empty,
    blockAuthKeys := Table.empty, now := 10,
    placements := Table.empty.insert (ascii "t", ascii "a")
      { registeredRelayBaseUrl := ascii "http://a", role := .primary, blockHash := ascii "h",
        expiryAt := 10, updatedAt := 0 } }

/-- The first resolve finds it expired, the second one does not know it. -/
theorem expired_once :
    reportedStatuses Rejections.sampleEnv outdated [ascii "t"] = .ok [.expired] ∧
    reportedStatuses Rejections.sampleEnv
        (resolveDownloadRoutes Rejections.sampleEnv [ascii "t"] outdated).2 [ascii "t"] =
      .ok [.unavailable] := by
  have hplaced : Placed outdated (ascii "t") := ⟨ascii "a", _, rfl⟩
  have hdead : ¬ PlacedLive outdated (ascii "t") := by
    rintro ⟨relayId, row, hfind, hlive⟩
    rw [Table.find_eq_some] at hfind
    cases List.mem_singleton.mp hfind
    exact absurd hlive (by decide)
  have hgone : ¬ Placed (purgeExpired outdated) (ascii "t") := fun h => hdead (placed_purgeExpired.mp h)
  rw [reportedStatuses_eq, reportedStatuses_eq, resolveDownloadRoutes_snd, List.map_singleton,
    List.map_singleton, classify_expired hplaced hdead, classify_unavailable hgone]
  exact ⟨rfl, rfl⟩

end TwelveC.Registry
