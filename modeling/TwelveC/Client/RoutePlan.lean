import TwelveC.Client.StreamingHashes
import TwelveC.Lib.Except
import TwelveC.Registry.Operations

/-!
# The routes of an upload

A reserve reply as the client reads it: the endpoint of each token's primary,
and one job for each replica. The registry's routes carry no headers.
-/

namespace TwelveC.Client

open Lib Registry Registry.RegistryRepository Scheduling

structure RelayEndpoint where
  url : Str
  deriving DecidableEq, Repr

abbrev RelayRegistryMap := Table Str (List RelayTarget)

/-- `replace(/\/$/, '')` -/
def stripSlash (url : Str) : Str := if url.getLast? = some 47 then url.dropLast else url

def unreserved (c : UInt8) : Bool :=
  (65 ≤ c ∧ c ≤ 90) ∨ (97 ≤ c ∧ c ≤ 122) ∨ (48 ≤ c ∧ c ≤ 57) ∨ c ∈ ascii "-_.!~*'()"

def upperHexDigit (n : Nat) : UInt8 := UInt8.ofNat (if n < 10 then 48 + n else 55 + n)

/-- On the UTF-8 octets of a text. -/
def encodeURIComponent (text : Str) : Str :=
  text.flatMap fun c =>
    if unreserved c then [c] else [37, upperHexDigit (c.toNat / 16), upperHexDigit (c.toNat % 16)]

def endpointFromBase (relayBaseUrl token : Str) : RelayEndpoint :=
  ⟨stripSlash relayBaseUrl ++ [47] ++ encodeURIComponent token⟩

/-- `targets.find((target) => target.role === 'primary')` -/
def primaryOf (targets : List RelayTarget) : Option RelayTarget := targets.find? (·.role = .primary)

/-- `normalizeRecord` of one route. A route without targets is kept as it is. -/
def normalizeRecord (route : TokenReserveResult) : Except JsExn (List RelayTarget) :=
  let targets := route.targets.map fun target =>
    { target with relayBaseUrl := stripSlash target.relayBaseUrl }
  if targets ≠ [] ∧ primaryOf targets = none then
    .error (.error (ascii "registry entry for " ++ route.token ++ ascii " missing primary target"))
  else .ok targets

/-- Tokens that the reply leaves out get an empty record. -/
def addMissing (routes : RelayRegistryMap) (tokens : List Str) : RelayRegistryMap :=
  tokens.foldl (fun routes token =>
    if (routes.find token).isSome then routes else routes.insert token []) routes

/-- `defaultParseResponse` -/
def parseRoutes (reply : List TokenReserveResult) (tokens : List Str) :
    Except JsExn RelayRegistryMap := do
  let records ← reply.mapM fun route => (normalizeRecord route).map fun targets => (route.token, targets)
  return addMissing (Table.empty.insertAll records) tokens

def endpointFromRegistryRecord (token : Str) (targets : List RelayTarget) :
    Except JsExn RelayEndpoint :=
  match primaryOf targets with
  | some primary => .ok (endpointFromBase primary.relayBaseUrl token)
  | none =>
    .error (.error (ascii "registry record for " ++ token ++ ascii " missing primary target"))

def endpointsFromRegistryMap (routes : RelayRegistryMap) : Except JsExn (Table Str RelayEndpoint) := do
  let endpoints ← routes.entries.mapM fun e =>
    (endpointFromRegistryRecord e.1 e.2).map fun endpoint => (e.1, endpoint)
  return Table.empty.insertAll endpoints

structure ReplicaUploadTarget where
  relayId : Str
  endpoint : RelayEndpoint
  deriving DecidableEq, Repr

/-- `replicaTargetsFromRegistryMap` and a lookup in it; a token without replicas has no entry. -/
def replicaTargets (routes : RelayRegistryMap) (token : Str) : List ReplicaUploadTarget :=
  (((routes.find token).getD []).filter (·.role = .replica)).map fun target =>
    ⟨target.relayId, endpointFromBase target.relayBaseUrl token⟩

structure ReplicaReplicationJob where
  token : Str
  relayId : Str
  blob : Bytes
  endpoint : RelayEndpoint
  deriving DecidableEq, Repr

def collectReplicaJobs (uploads : UploadMap) (routes : RelayRegistryMap) :
    List ReplicaReplicationJob :=
  uploads.entries.flatMap fun e => (replicaTargets routes e.1).map fun target =>
    ⟨e.1, target.relayId, e.2, target.endpoint⟩

theorem mem_collectReplicaJobs {uploads : UploadMap} {routes : RelayRegistryMap}
    {token blob : Str} {targets : List RelayTarget} {target : RelayTarget}
    (hblob : uploads.find token = some blob) (htargets : routes.find token = some targets)
    (htarget : target ∈ targets) (hrole : target.role = .replica) :
    ⟨token, target.relayId, blob, endpointFromBase target.relayBaseUrl token⟩ ∈
      collectReplicaJobs uploads routes := by
  refine List.mem_flatMap.mpr ⟨(token, blob), Table.find_eq_some.mp hblob, ?_⟩
  refine List.mem_map.mpr ⟨⟨target.relayId, endpointFromBase target.relayBaseUrl token⟩, ?_, rfl⟩
  rw [replicaTargets, htargets]
  exact List.mem_map.mpr ⟨target, List.mem_filter.mpr ⟨htarget, by simpa using hrole⟩, rfl⟩

/-- A response of the registry that is not `ok`. -/
def reserveFailed : PyExn → JsExn
  | .service _ statusCode =>
    .error (ascii ("registry reserve-tokens failed: HTTP " ++ toString statusCode))
  | _ => .error (ascii "registry reserve-tokens failed: HTTP 500")

/-- `RegistryTokenOccupiedError` -/
def registryTokenOccupiedError (occupied : List OccupiedToken) : JsExn :=
  .error (ascii "registry tokens occupied: " ++
    List.intercalate (ascii ", ") (occupied.map (·.token)))

/-- `new Map()` of the entries. -/
def uniqueBlocks (entries : List (Str × Str)) : Table Str Str := Table.empty.insertAll entries

/-- The body of a reply. `relayCount` is that of its placement plan. -/
structure ReserveReply where
  routes : List TokenReserveResult
  relayCount : Option Int
  deriving DecidableEq, Repr

structure ReserveUploadBlocksResult where
  routes : RelayRegistryMap
  relayCount : Option Int

def parseReserveUploadResponse (reply : ReserveReply) (tokens : List Str) :
    Except JsExn ReserveUploadBlocksResult :=
  (parseRoutes reply.routes tokens).map fun routes => { routes, relayCount := reply.relayCount }

/-- The reply may be anything that comes back, or what the request or its status threw. -/
def reserveUploadBlocks (entries : List (Str × Str)) (reply : Except JsExn ReserveReply) :
    Except JsExn ReserveUploadBlocksResult :=
  if entries = [] then .ok ⟨Table.empty, none⟩
  else do
    let body ← reply
    parseReserveUploadResponse body ((uniqueBlocks entries).entries.map Prod.fst)

/-- What this registry makes of the request, and replies. -/
def reserveReply (env : Env) (entries : List (Str × Str)) (ttlSeconds : Option Int) (s : Db) :
    Except JsExn ReserveReply × Db :=
  match reserveTokens env (uniqueBlocks entries).entries ttlSeconds s with
  | (.ok (.ok outcome), s') =>
    (.ok { routes := outcome.routes, relayCount := some outcome.actualRelayCount }, s')
  | (.ok (.error occupied), s') => (.error (registryTokenOccupiedError occupied), s')
  | (.error e, s') => (.error (reserveFailed e), s')

/-- The replicas of a token are read off the routes. -/
structure UploadRoutePlan where
  primary : Table Str RelayEndpoint
  routes : RelayRegistryMap
  relayCount : Option Int

/-- One hash for each block of the upload. -/
def checkBlockHashes (uploads : UploadMap) (entries : List (Str × Str)) : Except JsExn Unit :=
  if entries.length ≠ uploads.entries.length then
    .error (.error (ascii ("block hash count mismatch: expected " ++
      toString uploads.entries.length ++ ", got " ++ toString entries.length)))
  else
    match uploads.entries.find? fun e => e.1 ∉ entries.map Prod.fst with
    | some e => .error (.error (ascii "missing block hash for token: " ++ e.1))
    | none => .ok ()

def reserveAndRegisterUploadBlocks (uploads : UploadMap) (entries : List (Str × Str))
    (reply : Except JsExn ReserveReply) : Except JsExn UploadRoutePlan := do
  checkBlockHashes uploads entries
  let result ← reserveUploadBlocks entries reply
  let primary ← endpointsFromRegistryMap result.routes
  return { primary, routes := result.routes, relayCount := result.relayCount }

theorem find_addMissing {routes : RelayRegistryMap} {tokens : List Str} {token : Str}
    (h : token ∈ tokens ∨ (routes.find token).isSome) :
    (addMissing routes tokens).find token = some ((routes.find token).getD []) := by
  induction tokens generalizing routes with
  | nil =>
    obtain ⟨targets, htargets⟩ := Option.isSome_iff_exists.mp (h.resolve_left (by simp))
    rw [addMissing, List.foldl_nil, htargets, Option.getD_some]
  | cons other tokens ih =>
    rw [addMissing, List.foldl_cons]
    rw [List.mem_cons] at h
    split
    case isTrue hsome =>
      refine ih ?_
      rcases h with (rfl | hm) | hfound
      · exact .inr hsome
      · exact .inl hm
      · exact .inr hfound
    case isFalse hnone =>
      by_cases heq : token = other
      · have hnone : routes.find token = none := by simpa [heq] using hnone
        refine (ih (.inr ?_)).trans ?_
        · simp [heq]
        · simp [heq, heq ▸ hnone]
      · refine (ih ?_).trans ?_
        · rw [Table.find_insert_of_ne _ heq]
          exact h.imp_left fun hm => hm.resolve_left heq
        · rw [Table.find_insert_of_ne _ heq]

/-- A target as the client keeps it. -/
def readTarget (target : RelayTarget) : RelayTarget :=
  { target with relayBaseUrl := stripSlash target.relayBaseUrl }

theorem normalizeRecord_ok {route : TokenReserveResult} {targets : List RelayTarget}
    (h : normalizeRecord route = .ok targets) : targets = route.targets.map readTarget := by
  rw [normalizeRecord] at h
  split at h
  · cases h
  · exact (Except.ok.inj h).symm

/-- The targets that a reply has for a token: those of its last route. -/
def replyTargets (reply : Except JsExn ReserveReply) (token : Str) : List RelayTarget :=
  match reply with
  | .ok body =>
    ((Table.empty.insertAll (body.routes.map fun route =>
      (route.token, route.targets.map readTarget))).find token).getD []
  | .error _ => []

theorem parseRoutes_find {body : ReserveReply} {tokens : List Str} {routes : RelayRegistryMap}
    {token : Str} (h : parseRoutes body.routes tokens = .ok routes) (hm : token ∈ tokens) :
    routes.find token = some (replyTargets (.ok body) token) := by
  rw [parseRoutes] at h
  obtain ⟨records, hrecords, h⟩ := bind_ok_iff.mp h
  cases h
  have hread : records = body.routes.map fun route => (route.token, route.targets.map readTarget) := by
    refine mapM_ok_map hrecords fun route record hrecord => ?_
    obtain ⟨targets, htargets, rfl⟩ := map_ok_iff.mp hrecord
    rw [normalizeRecord_ok htargets]
  rw [find_addMissing (.inl hm), hread]
  rfl

/-- A `mapM` that keeps the keys of its rows. -/
theorem mapM_keys {ε κ α β : Type} {f : κ → α → Except ε β} {rows : List (κ × α)}
    {found : List (κ × β)}
    (h : rows.mapM (fun e => (f e.1 e.2).map fun value => (e.1, value)) = .ok found) :
    found.map Prod.fst = rows.map Prod.fst := by
  replace h := mapM_ok_iff.mp h
  induction h with
  | nil => rfl
  | cons hrow _ ih =>
    obtain ⟨value, -, heq⟩ := map_ok_iff.mp hrow
    cases heq
    simp [ih]

theorem endpointsFromRegistryMap_find {routes : RelayRegistryMap}
    {endpoints : Table Str RelayEndpoint} {token : Str} {targets : List RelayTarget}
    (h : endpointsFromRegistryMap routes = .ok endpoints)
    (hfind : routes.find token = some targets) :
    ∃ primary, primaryOf targets = some primary ∧
      endpoints.find token = some (endpointFromBase primary.relayBaseUrl token) := by
  rw [endpointsFromRegistryMap] at h
  obtain ⟨found, hfound, h⟩ := bind_ok_iff.mp h
  cases h
  have hkeys := mapM_keys hfound
  obtain ⟨row, hrow, hread⟩ := mem_mapM_ok hfound (Table.find_eq_some.mp hfind)
  obtain ⟨endpoint, hendpoint, heq⟩ := map_ok_iff.mp hread
  cases heq
  rw [endpointFromRegistryRecord] at hendpoint
  split at hendpoint
  case h_1 primary hprimary =>
    cases hendpoint
    refine ⟨primary, hprimary, (Table.find_insertAll_nodup ?_ _ _).mpr hrow⟩
    rw [hkeys]
    exact routes.nodup
  case h_2 => cases hendpoint

variable {uploads : UploadMap} {entries : List (Str × Str)} {reply : Except JsExn ReserveReply}
  {plan : UploadRoutePlan} {token : Str} {blob : Bytes}

theorem checkBlockHashes_ok (h : checkBlockHashes uploads entries = .ok ())
    (hblob : uploads.find token = some blob) : token ∈ entries.map Prod.fst := by
  rw [checkBlockHashes] at h
  split at h
  case isTrue => cases h
  case isFalse =>
    split at h
    case h_1 => cases h
    case h_2 hnone =>
      have hall := List.find?_eq_none.mp hnone (token, blob) (Table.find_eq_some.mp hblob)
      simpa using hall

/-- A token with a hash is asked for. -/
theorem mem_uniqueBlocks (h : token ∈ entries.map Prod.fst) :
    token ∈ (uniqueBlocks entries).entries.map Prod.fst := by
  obtain ⟨before, last, after, rfl, hafter⟩ := Table.exists_last (List.mem_map.mp h)
  exact List.mem_map.mpr ⟨_, Table.find_eq_some.mp (Table.find_insertAll_last _ hafter), rfl⟩

/-- Each block of an upload that has a plan is routed as the reply says. -/
theorem reserveAndRegister_ok (h : reserveAndRegisterUploadBlocks uploads entries reply = .ok plan)
    (hblob : uploads.find token = some blob) :
    plan.routes.find token = some (replyTargets reply token) ∧
      ∃ primary, primaryOf (replyTargets reply token) = some primary ∧
        plan.primary.find token = some (endpointFromBase primary.relayBaseUrl token) := by
  rw [reserveAndRegisterUploadBlocks] at h
  obtain ⟨u, hcheck, h⟩ := bind_ok_iff.mp h
  obtain ⟨result, hresult, h⟩ := bind_ok_iff.mp h
  obtain ⟨endpoints, hendpoints, h⟩ := bind_ok_iff.mp h
  cases h
  have hentry := checkBlockHashes_ok hcheck hblob
  have hne : entries ≠ [] := by
    rintro rfl
    cases hentry
  rw [reserveUploadBlocks, if_neg hne] at hresult
  obtain ⟨body, rfl, hparse⟩ := bind_ok_iff.mp hresult
  obtain ⟨routes, hroutes, rfl⟩ := map_ok_iff.mp hparse
  have hfind := parseRoutes_find hroutes (mem_uniqueBlocks hentry)
  exact ⟨hfind, endpointsFromRegistryMap_find hendpoints hfind⟩

variable {env : Env} {ttlSeconds : Option Int} {s s' : Db}

/-- The targets of a token in the registry, as the client keeps them. -/
def routedTargets (env : Env) (s : Db) (token : Str) : List RelayTarget :=
  (placementsToReserveResult s (healthyRelays env s) token (tokenPlacements s token)).targets.map
    readTarget

/-- The reply has the tokens of the request, as normalized, with all their placements. -/
theorem reserveTokens_routes {blocks : List (Str × Str)} {outcome : LockTokensOutcome}
    (h : reserveTokens env blocks ttlSeconds s = (.ok (.ok outcome), s'))
    {route : TokenReserveResult} (hroute : route ∈ outcome.routes) :
    normalizeToken route.token = .ok route.token ∧
      route = placementsToReserveResult s' (healthyRelays env s') route.token
        (tokenPlacements s' route.token) := by
  obtain ⟨entries, hentries, hne, hlock⟩ := reserve_ok h
  obtain ⟨resolution, -, -, -, -, -, hroutes⟩ := lock_ok hne hlock
  rw [hroutes] at hroute
  obtain ⟨token, htoken, rfl⟩ := List.mem_map.mp hroute
  obtain ⟨entry, hentry, rfl⟩ := List.mem_map.mp htoken
  refine ⟨?_, rfl⟩
  obtain ⟨block, -, hblock⟩ := mapM_ok_mem hentries hentry
  obtain ⟨normalized, hnormalized, hblock⟩ := bind_ok_iff.mp hblock
  obtain ⟨hash, -, hblock⟩ := bind_ok_iff.mp hblock
  cases hblock
  exact normalizeHex_normalized hnormalized

/-- A token that the registry's own reply routes is routed to all its placements. -/
theorem reserveReply_targets (h : reserveReply env entries ttlSeconds s = (reply, s'))
    (hne : replyTargets reply token ≠ []) :
    normalizeToken token = .ok token ∧ replyTargets reply token = routedTargets env s' token := by
  rw [reserveReply] at h
  split at h
  case h_2 =>
    cases h
    exact absurd rfl hne
  case h_3 =>
    cases h
    exact absurd rfl hne
  case h_1 outcome s₁ htokens =>
    obtain ⟨rfl, rfl⟩ := Prod.mk.inj h
    rw [replyTargets] at hne ⊢
    dsimp only at hne ⊢
    cases hfind : (Table.empty.insertAll (outcome.routes.map fun route =>
        (route.token, route.targets.map readTarget))).find token with
    | none =>
      rw [hfind] at hne
      exact absurd rfl hne
    | some targets =>
      have hm := (Table.mem_of_find_insertAll hfind).resolve_right (by simp)
      obtain ⟨route, hroute, heq⟩ := List.mem_map.mp hm
      cases heq
      obtain ⟨hnormalized, hplaced⟩ := reserveTokens_routes htokens hroute
      refine ⟨hnormalized, ?_⟩
      rw [Option.getD_some, routedTargets, ← hplaced]

/-- The client knows every placement of a token with its role. -/
theorem mem_routedTargets {relayId : Str} {row : PlacementRow}
    (h : s.placements.find (token, relayId) = some row) :
    ∃ target ∈ routedTargets env s token, target.relayId = relayId ∧ target.role = row.role := by
  refine ⟨_, List.mem_map.mpr ⟨_, List.mem_map.mpr ⟨_, mem_tokenPlacements.mpr ⟨row, h, rfl⟩, rfl⟩,
    rfl⟩, rfl, rfl⟩

end TwelveC.Client
