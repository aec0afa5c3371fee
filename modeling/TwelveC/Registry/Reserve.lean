import TwelveC.Registry.Service

/-!
# Reserving tokens

`reserve-tokens` and what else changes placements: the purge of expired rows,
the client's report of failed replicas and the changes of the allowlist. The
audit rows of a reservation are left out.
-/

namespace TwelveC.Registry

open Lib Relay.BlockAuth Scheduling RegistryRepository

/-- SQL's order of two texts. -/
def strLe : Str → Str → Bool
  | [], _ => true
  | _ :: _, [] => false
  | a :: x, b :: y => a < b || (a == b && strLe x y)

namespace RegistryRepository

variable (env : Env)

def staleBefore (s : Db) : Int := s.now - seconds env.relayHeartbeatStaleSeconds

/-- `relay_states` joined with the enabled allowlist rows, up to the age of the heartbeat. -/
def freshRows (s : Db) : List (Str × RelayStateRow × AllowlistRow) :=
  s.relayStates.entries.filterMap fun e =>
    match s.allowlist.find e.1 with
    | some row => if row.enabled ∧ staleBefore env s < e.2.lastHeartbeatAt then some (e.1, e.2, row)
      else none
    | none => none

/-- `storage_rate ASC, last_heartbeat_at DESC, relay_id ASC` -/
def byLoad (a b : Str × RelayStateRow × AllowlistRow) : Bool :=
  if a.2.1.storageRate ≠ b.2.1.storageRate then a.2.1.storageRate < b.2.1.storageRate
  else if a.2.1.lastHeartbeatAt ≠ b.2.1.lastHeartbeatAt then
    b.2.1.lastHeartbeatAt < a.2.1.lastHeartbeatAt
  else strLe a.1 b.1

def freshRelay (e : Str × RelayStateRow × AllowlistRow) : HealthyRelay :=
  { relayId := e.1
    relayBaseUrl := rstripSlash (e.2.2.relayBaseUrl.getD e.2.1.relayBaseUrl)
    storageRate := e.2.1.storageRate
    blockMaxAgeSeconds := e.2.1.blockMaxAgeSeconds
    blockSweepIntervalSeconds := e.2.1.blockSweepIntervalSeconds }

def freshRelays (s : Db) : List HealthyRelay := ((freshRows env s).mergeSort byLoad).map freshRelay

/-- The second query: enabled allowlist rows with a URL. -/
def listedRows (s : Db) : List (Str × Str) :=
  s.allowlist.entries.filterMap fun e =>
    if e.2.enabled then e.2.relayBaseUrl.map fun url => (e.1, url) else none

/-- A relay of the second query, with the defaults in place of its `relay_states` row. -/
def listedRelay (e : Str × Str) : HealthyRelay :=
  { relayId := e.1
    relayBaseUrl := rstripSlash e.2
    storageRate := 0
    blockMaxAgeSeconds := defaultBlockMaxAgeSeconds
    blockSweepIntervalSeconds := defaultBlockSweepIntervalSeconds }

def listedRelays (s : Db) : List HealthyRelay :=
  ((listedRows s).mergeSort fun a b => strLe a.1 b.1).map listedRelay

def healthyRelays (s : Db) : List HealthyRelay :=
  if freshRelays env s ≠ [] then freshRelays env s else listedRelays s

def listHealthyRelays : Py Db (List HealthyRelay) := Py.read (healthyRelays env)

theorem listHealthyRelays_run (s : Db) : listHealthyRelays env s = (.ok (healthyRelays env s), s) := rfl

def purgeExpired (s : Db) : Db :=
  { s with placements := s.placements.filter fun _ row => ¬ row.expiryAt ≤ s.now }

def purgeExpiredTokens : Py Db Unit := Py.modify purgeExpired

/-- The placements of a token, the primary first, then by relay id. -/
def tokenPlacements (s : Db) (token : Str) : List (Str × PlacementRow) :=
  (s.placements.entries.filterMap fun e =>
    if e.1.1 = token then
      some (e.1.2, { e.2 with registeredRelayBaseUrl := rstripSlash e.2.registeredRelayBaseUrl })
    else none).mergeSort fun a b =>
      if a.2.role ≠ b.2.role then a.2.role = .primary else strLe a.1 b.1

theorem mem_tokenPlacements {s : Db} {token relayId : Str} {row : PlacementRow} :
    (relayId, row) ∈ tokenPlacements s token ↔
      ∃ stored, s.placements.find (token, relayId) = some stored ∧
        row = { stored with registeredRelayBaseUrl := rstripSlash stored.registeredRelayBaseUrl } := by
  rw [tokenPlacements, List.mem_mergeSort, List.mem_filterMap]
  constructor
  · rintro ⟨⟨⟨token', relayId'⟩, stored⟩, hm, h⟩
    split at h
    case isTrue ht =>
      cases ht
      cases h
      exact ⟨stored, Table.find_eq_some.mpr hm, rfl⟩
    case isFalse => cases h
  · rintro ⟨stored, hfind, rfl⟩
    exact ⟨((token, relayId), stored), Table.find_eq_some.mp hfind, if_pos rfl⟩

def primaryPlacement (s : Db) (token : Str) : Option (Str × PlacementRow) :=
  (tokenPlacements s token).find? fun e => e.2.role = .primary

structure OccupiedToken where
  token : Str
  expiryAt : Int
  blockHash : Str
  deriving DecidableEq, Repr

/-- The primary of a token that another upload still holds. -/
def occupiedToken (s : Db) (token : Str) : Option OccupiedToken :=
  match primaryPlacement s token with
  | some (_, row) =>
    if row.expiryAt ≤ s.now then none else some { token, expiryAt := row.expiryAt, blockHash := row.blockHash }
  | none => none

structure RelayTarget where
  role : Role
  relayId : Str
  relayBaseUrl : Str
  deriving DecidableEq, Repr

structure TokenReserveResult where
  token : Str
  targets : List RelayTarget
  deriving DecidableEq, Repr

structure LockTokensOutcome where
  routes : List TokenReserveResult
  grantedTtlSeconds : Int
  requestedTtlSeconds : Int
  degraded : Bool
  stripeCount : Int
  replicaFactor : Int
  idealRelayCount : Int
  actualRelayCount : Int
  deriving DecidableEq, Repr

/-- `if token in seen: raise ValueError` -/
def checkDuplicates : List Str → List Str → Except PyExn Unit
  | _, [] => .ok ()
  | seen, token :: rest =>
    if token ∈ seen then
      .error (.valueError ("duplicate token in reserve request: " ++ display token))
    else checkDuplicates (token :: seen) rest

/-- The rows of a plan, written in one transaction. -/
def upsertPlacements (planned : List PlannedPlacement) (grantedTtlSeconds : Int) (s : Db) : Db :=
  { s with placements := planned.foldl (fun placements p =>
      placements.insert (p.token, p.relayId)
        { registeredRelayBaseUrl := p.relayBaseUrl, role := p.role, blockHash := p.blockHash,
          expiryAt := s.now + seconds grantedTtlSeconds, updatedAt := s.now }) s.placements }

/-- The reply for one token: a live URL, else the canonical one, else the one of the row. -/
def placementsToReserveResult (s : Db) (liveUrls : List HealthyRelay) (token : Str)
    (placements : List (Str × PlacementRow)) : TokenReserveResult where
  token := token
  targets := placements.map fun e =>
    { role := e.2.role
      relayId := e.1
      relayBaseUrl := (((liveUrls.find? (·.relayId = e.1)).map (·.relayBaseUrl)).or
        (canonicalRelayBaseUrl s e.1)).getD e.2.registeredRelayBaseUrl }

def lockedRoute (liveUrls : List HealthyRelay) (token : Str) : Py Db TokenReserveResult := do
  let placements ← Py.read fun s => tokenPlacements s token
  Py.raiseIf (placements = [])
    (.runtimeError ("failed to lock token placements: " ++ display token))
  Py.read fun s => placementsToReserveResult s liveUrls token placements

def lockedRoutes (liveUrls : List HealthyRelay) : List Str → Py Db (List TokenReserveResult)
  | [] => pure []
  | token :: rest => do
    let route ← lockedRoute liveUrls token
    let routes ← lockedRoutes liveUrls rest
    pure (route :: routes)

/-- The checks passed: the rows are written and read back. -/
def lockPlanned (entries : List (Str × Str)) (resolution : PlacementResolution) :
    Py Db LockTokensOutcome := do
  Py.modify (upsertPlacements resolution.placements resolution.grantedTtlSeconds)
  let liveUrls ← listHealthyRelays env
  let routes ← lockedRoutes liveUrls (entries.map Prod.fst)
  pure { routes, grantedTtlSeconds := resolution.grantedTtlSeconds,
         requestedTtlSeconds := resolution.requestedTtlSeconds, degraded := resolution.degraded,
         stripeCount := resolution.placementPlan.stripeCount,
         replicaFactor := resolution.placementPlan.replicaFactor,
         idealRelayCount := resolution.idealRelayCount,
         actualRelayCount := resolution.actualRelayCount }

/-- The outcome for no tokens at all. -/
def nothingLocked : LockTokensOutcome :=
  { routes := [], grantedTtlSeconds := env.tokenTtlSeconds,
    requestedTtlSeconds := env.tokenTtlSeconds, degraded := false, stripeCount := 0,
    replicaFactor := 0, idealRelayCount := 0, actualRelayCount := 0 }

/-- `TokenOccupiedError` is the inner error, with the tokens that it names. -/
def lockTokensWithBlockHashes (entries : List (Str × Str)) (ttlSeconds : Option Int) :
    Py Db (Except (List OccupiedToken) LockTokensOutcome) := do
  purgeExpiredTokens
  if entries = [] then pure (.ok (nothingLocked env))
  else
    Py.ofExcept (checkDuplicates [] (entries.map Prod.fst))
    let occupied ← Py.read fun s => entries.filterMap fun e => occupiedToken s e.1
    if occupied ≠ [] then pure (.error occupied)
    else
      let healthy ← listHealthyRelays env
      Py.raiseIf (healthy = [])
        (.runtimeError "no healthy relay available for upload assignment")
      let resolution ← Py.ofExcept (resolvePlacementWithTtl env.placementPolicy entries healthy
        (ttlSeconds.getD env.tokenTtlSeconds))
      let outcome ← lockPlanned env entries resolution
      pure (.ok outcome)

section locked

variable {env : Env} {s s' : Db} {entries : List (Str × Str)} {ttlSeconds : Option Int}
  {outcome : LockTokensOutcome}

/-- The plan of a reserve in state `s`. -/
def reservePlan (env : Env) (s : Db) (entries : List (Str × Str)) (ttlSeconds : Option Int) :
    Except PyExn PlacementResolution :=
  resolvePlacementWithTtl env.placementPolicy entries (healthyRelays env s)
    (ttlSeconds.getD env.tokenTtlSeconds)

theorem lockedRoute_run (liveUrls : List HealthyRelay) (token : Str) (s : Db) :
    lockedRoute liveUrls token s =
      if tokenPlacements s token = [] then
        (.error (.runtimeError ("failed to lock token placements: " ++ display token)), s)
      else (.ok (placementsToReserveResult s liveUrls token (tokenPlacements s token)), s) := by
  rw [lockedRoute, Py.bind_ok (Py.read_run _ s)]
  split
  case isTrue hnil => exact Py.bind_error (Py.raiseIf_pos hnil _ s)
  case isFalse hnil =>
    rw [Py.bind_ok (Py.raiseIf_neg hnil _ s)]
    rfl

/-- The routes are read only: one for each token, with all its placements. -/
theorem lockedRoutes_run (liveUrls : List HealthyRelay) (tokens : List Str) (s : Db) :
    (lockedRoutes liveUrls tokens s).2 = s ∧
    ∀ routes, (lockedRoutes liveUrls tokens s).1 = .ok routes → routes = tokens.map fun token =>
      placementsToReserveResult s liveUrls token (tokenPlacements s token) := by
  induction tokens with
  | nil => exact ⟨rfl, fun routes h => (Except.ok.inj h).symm⟩
  | cons token rest ih =>
    have hroute := lockedRoute_run liveUrls token s
    rw [lockedRoutes]
    split at hroute
    · rw [Py.bind_error hroute]
      exact ⟨rfl, fun routes h => by cases h⟩
    · rw [Py.bind_ok hroute]
      cases hrest : lockedRoutes liveUrls rest s with
      | mk result s₁ =>
        rw [hrest] at ih
        obtain ⟨rfl, hroutes⟩ := ih
        cases result with
        | error e =>
          rw [Py.bind_error hrest]
          exact ⟨rfl, fun routes h => by cases h⟩
        | ok others =>
          rw [Py.bind_ok hrest]
          refine ⟨rfl, fun routes h => ?_⟩
          cases h
          rw [List.map_cons, ← hroutes others rfl]

/-- The reply for these tokens: all their placements as they stand. -/
def routesOf (env : Env) (s : Db) (tokens : List Str) : List TokenReserveResult :=
  tokens.map fun token =>
    placementsToReserveResult s (healthyRelays env s) token (tokenPlacements s token)

/-- What it wrote, and what it granted. -/
theorem lockPlanned_ok {resolution : PlacementResolution}
    (h : lockPlanned env entries resolution s = (.ok outcome, s')) :
    s' = upsertPlacements resolution.placements resolution.grantedTtlSeconds s ∧
      outcome.grantedTtlSeconds = resolution.grantedTtlSeconds ∧
      outcome.routes = routesOf env s' (entries.map Prod.fst) := by
  rw [lockPlanned, Py.bind_ok (Py.modify_run _ s), Py.bind_ok (listHealthyRelays_run _ _)] at h
  have hrun := lockedRoutes_run (healthyRelays env (upsertPlacements resolution.placements
    resolution.grantedTtlSeconds s)) (entries.map Prod.fst) (upsertPlacements resolution.placements
    resolution.grantedTtlSeconds s)
  cases hr : lockedRoutes (healthyRelays env (upsertPlacements resolution.placements
      resolution.grantedTtlSeconds s)) (entries.map Prod.fst) (upsertPlacements resolution.placements
      resolution.grantedTtlSeconds s) with
  | mk result s₁ =>
    rw [hr] at hrun
    obtain ⟨hstate, hroutes⟩ := hrun
    cases result with
    | error e =>
      rw [Py.bind_error hr] at h
      cases h
    | ok routes =>
      rw [Py.bind_ok hr] at h
      cases h
      subst hstate
      exact ⟨rfl, rfl, hroutes routes rfl⟩

theorem healthyRelays_purge (s : Db) : healthyRelays env (purgeExpired s) = healthyRelays env s := rfl

/-- A reserve whose checks pass goes on to write its plan. -/
theorem lock_admitted {resolution : PlacementResolution} (hne : entries ≠ [])
    (hdup : checkDuplicates [] (entries.map Prod.fst) = .ok ())
    (hfree : ∀ e ∈ entries, occupiedToken (purgeExpired s) e.1 = none)
    (hhealthy : healthyRelays env s ≠ [])
    (hplan : reservePlan env s entries ttlSeconds = .ok resolution) :
    lockTokensWithBlockHashes env entries ttlSeconds s =
      (lockPlanned env entries resolution >>= fun outcome => pure (.ok outcome)) (purgeExpired s) := by
  have hpurge : purgeExpiredTokens s = (.ok (), purgeExpired s) := rfl
  have hocc : entries.filterMap (fun e => occupiedToken (purgeExpired s) e.1) = [] :=
    List.filterMap_eq_nil_iff.mpr hfree
  rw [← healthyRelays_purge] at hhealthy
  have hrun : Py.ofExcept (resolvePlacementWithTtl env.placementPolicy entries
      (healthyRelays env (purgeExpired s)) (ttlSeconds.getD env.tokenTtlSeconds)) (purgeExpired s) =
        (.ok resolution, purgeExpired s) := congrArg (·, purgeExpired s) hplan
  rw [lockTokensWithBlockHashes, Py.bind_ok hpurge, if_neg hne, hdup,
    Py.bind_ok (Py.ofExcept_run _ _), Py.bind_ok (Py.read_run _ _), if_neg (not_not.mpr hocc),
    Py.bind_ok (listHealthyRelays_run _ _), Py.bind_ok (Py.raiseIf_neg hhealthy _ _), Py.bind_ok hrun]

/-- A reserve is refused after its purge, or its checks pass and it goes on to write its plan. -/
theorem lock_cases (env : Env) (ttlSeconds : Option Int) (s : Db) (hne : entries ≠ []) :
    (∃ refusal, lockTokensWithBlockHashes env entries ttlSeconds s = (refusal, purgeExpired s) ∧
      ∀ outcome, refusal ≠ .ok (.ok outcome)) ∨
    ∃ resolution, checkDuplicates [] (entries.map Prod.fst) = .ok () ∧
      (∀ e ∈ entries, occupiedToken (purgeExpired s) e.1 = none) ∧ healthyRelays env s ≠ [] ∧
      reservePlan env s entries ttlSeconds = .ok resolution ∧
      lockTokensWithBlockHashes env entries ttlSeconds s =
        (lockPlanned env entries resolution >>= fun outcome => pure (.ok outcome)) (purgeExpired s) := by
  have hpurge : purgeExpiredTokens s = (.ok (), purgeExpired s) := rfl
  cases hdup : checkDuplicates [] (entries.map Prod.fst) with
  | error e =>
    rw [lockTokensWithBlockHashes, Py.bind_ok hpurge, if_neg hne, hdup]
    exact .inl ⟨.error e, Py.bind_error (Py.ofExcept_run _ _), fun outcome h => by cases h⟩
  | ok u =>
    by_cases hocc : entries.filterMap (fun e => occupiedToken (purgeExpired s) e.1) = []
    · have hfree := List.filterMap_eq_nil_iff.mp hocc
      by_cases hhealthy : healthyRelays env (purgeExpired s) = []
      · rw [lockTokensWithBlockHashes, Py.bind_ok hpurge, if_neg hne, hdup,
          Py.bind_ok (Py.ofExcept_run _ _), Py.bind_ok (Py.read_run _ _), if_neg (not_not.mpr hocc),
          Py.bind_ok (listHealthyRelays_run _ _)]
        exact .inl ⟨_, Py.bind_error (Py.raiseIf_pos hhealthy _ _), fun outcome h => by cases h⟩
      · cases hplan : reservePlan env s entries ttlSeconds with
        | error e =>
          have hrun : Py.ofExcept (resolvePlacementWithTtl env.placementPolicy entries
              (healthyRelays env (purgeExpired s)) (ttlSeconds.getD env.tokenTtlSeconds))
                (purgeExpired s) = (.error e, purgeExpired s) := congrArg (·, purgeExpired s) hplan
          rw [lockTokensWithBlockHashes, Py.bind_ok hpurge, if_neg hne, hdup,
            Py.bind_ok (Py.ofExcept_run _ _), Py.bind_ok (Py.read_run _ _),
            if_neg (not_not.mpr hocc), Py.bind_ok (listHealthyRelays_run _ _),
            Py.bind_ok (Py.raiseIf_neg hhealthy _ _)]
          exact .inl ⟨.error e, Py.bind_error hrun, fun outcome h => by cases h⟩
        | ok resolution =>
          exact .inr ⟨resolution, rfl, hfree, hhealthy, rfl,
            lock_admitted hne hdup hfree hhealthy hplan⟩
    · rw [lockTokensWithBlockHashes, Py.bind_ok hpurge, if_neg hne, hdup,
        Py.bind_ok (Py.ofExcept_run _ _), Py.bind_ok (Py.read_run _ _), if_pos hocc]
      exact .inl ⟨.ok (.error _), rfl, fun outcome h => by cases h⟩

/-- A reserve that succeeds found no duplicate and no live primary, and wrote its plan. -/
theorem lock_ok (hne : entries ≠ [])
    (h : lockTokensWithBlockHashes env entries ttlSeconds s = (.ok (.ok outcome), s')) :
    ∃ resolution, checkDuplicates [] (entries.map Prod.fst) = .ok () ∧
      (∀ e ∈ entries, occupiedToken (purgeExpired s) e.1 = none) ∧
      reservePlan env s entries ttlSeconds = .ok resolution ∧
      s' = upsertPlacements resolution.placements resolution.grantedTtlSeconds (purgeExpired s) ∧
      outcome.grantedTtlSeconds = resolution.grantedTtlSeconds ∧
      outcome.routes = routesOf env s' (entries.map Prod.fst) := by
  rcases lock_cases env ttlSeconds s hne with
    ⟨refusal, hrun, hrefused⟩ | ⟨resolution, hdup, hfree, -, hplan, hrun⟩
  · rw [hrun] at h
    exact absurd (congrArg Prod.fst h) (hrefused outcome)
  · rw [hrun] at h
    refine ⟨resolution, hdup, hfree, hplan, ?_⟩
    cases hlock : lockPlanned env entries resolution (purgeExpired s) with
    | mk result s₁ =>
      cases result with
      | error e =>
        rw [Py.bind_error hlock] at h
        cases h
      | ok outcome' =>
        rw [Py.bind_ok hlock] at h
        cases h
        exact lockPlanned_ok hlock

end locked

/-- Rows of failed replicas are deleted in one transaction; a primary stays. -/
def abandonRows (failures : List (Str × Str)) (s : Db) : Db :=
  { s with placements := s.placements.filter fun key row =>
      ¬ (key ∈ failures ∧ row.role = .replica) }

/-- The value lists the rows that were there to delete. -/
def abandonReplicaPlacements (failures : List (Str × Str)) : Py Db (List (Str × Str)) := fun s =>
  (.ok (failures.eraseDups.filter fun key => (s.placements.find key).any (·.role = .replica)),
    abandonRows failures s)

end RegistryRepository

variable (env : Env)

/-- The handlers of `reserve_upload_blocks`. -/
def reserveFailure : PyExn → PyExn
  | .valueError text => httpException 400 text
  | .runtimeError text => httpException 503 text
  | e => e

def reserveUploadBlocks (entries : List (Str × Str)) (ttlSeconds : Option Int) :
    Py Db (Except (List OccupiedToken) LockTokensOutcome) :=
  Py.tryExcept (lockTokensWithBlockHashes env entries ttlSeconds) fun exc =>
    Py.raise (reserveFailure exc)

def normalizeBlock (block : Str × Str) : Except PyExn (Str × Str) := do
  let token ← normalizeToken block.1
  let blockHash ← normalizeHash block.2
  return (token, blockHash)

/-- The inner error is the 409 that names the occupied tokens. -/
def reserveTokens (blocks : List (Str × Str)) (ttlSeconds : Option Int) :
    Py Db (Except (List OccupiedToken) LockTokensOutcome) := do
  Py.raiseIf (blocks = []) (httpException 400 "blocks must not be empty")
  let entries ← Py.ofExcept (blocks.mapM normalizeBlock)
  reserveUploadBlocks env entries ttlSeconds

def normalizeFailure (failure : Str × Str) : Except PyExn (Str × Str) :=
  if failure.2 = [] then .error (httpException 400 "relayId must be non-empty")
  else do
    let token ← normalizeToken failure.1
    return (token, failure.2)

def abandonReplicas (failures : List (Str × Str)) : Py Db (List (Str × Str)) := do
  Py.raiseIf (failures = []) (httpException 400 "failures must not be empty")
  let normalized ← Py.ofExcept (failures.mapM normalizeFailure)
  abandonReplicaPlacements normalized

def normalizeRelayId (relayId : Str) : Except PyExn Str :=
  if strip relayId = [] then .error (httpException 400 "relayId must be non-empty")
  else .ok (strip relayId)

/-- `_normalize_relay_base_url` of a URL that may be absent. -/
def normalizeOptionalUrl : Option Str → Except PyExn (Option Str)
  | none => .ok none
  | some url => (normalizeRelayBaseUrl url).map some

def addAllowlistEntry (relayId : Str) (relayBaseUrl : Option Str) : Py Db AllowlistRow := do
  let normalizedId ← Py.ofExcept (normalizeRelayId relayId)
  let normalizedUrl ← Py.ofExcept (normalizeOptionalUrl ((truthy relayBaseUrl).map rstripSlash))
  upsertAllowlistEntry normalizedId normalizedUrl true

/-- `relayBaseUrl` is unset, `null` or a text. -/
def changeAllowlistEntry (relayId : Str) (relayBaseUrl : Option (Option Str))
    (enabled : Option Bool) : Py Db AllowlistRow := do
  let normalizedId ← Py.ofExcept (normalizeRelayId relayId)
  let urlArg ← Py.ofExcept (match relayBaseUrl with
    | none => .ok none
    | some url => (normalizeOptionalUrl url).map some)
  let record ← patchAllowlistEntry normalizedId urlArg enabled
  match record with
  | some row => pure row
  | none => Py.raise (httpException 404 "allowlist entry not found")

def removeAllowlistEntry (relayId : Str) : Py Db Unit := do
  let normalizedId ← Py.ofExcept (normalizeRelayId relayId)
  let deleted ← deleteAllowlistEntry normalizedId
  Py.raiseIf (deleted = false) (httpException 404 "allowlist entry not found")

end TwelveC.Registry
