import TwelveC.Client.RoutePlan
import TwelveC.Registry.Resolve

/-!
# A GET by way of the registry and the relays

`FetchReceiveTransport.get` asks the registry for the routes of a batch of
tokens, tries the relays of its token in the registry's order, and begins again
after what may pass. It returns what the first relay to answer gave, and only a
relay that the registry names is asked.
-/

namespace TwelveC.Client.DownloadRoutes

open Registry Registry.RegistryRepository Lib

structure RelayRegistryRecord where
  targets : List RelayTarget
  resolveStatus : ResolveStatus
  deriving DecidableEq, Repr

/-- `serialize_route` leaves a `ready` out, which `normalizeRecord` reads as `unavailable` where there
are no targets. -/
def normalizeRoute (route : ResolveRouteResult) : Except JsExn RelayRegistryRecord :=
  (normalizeRecord ⟨route.token, route.targets⟩).map fun targets =>
    { targets
      resolveStatus := if targets = [] ∧ route.resolveStatus = .ready then .unavailable
        else route.resolveStatus }

def addMissingRecords (records : Table Str RelayRegistryRecord) (tokens : List Str) :
    Table Str RelayRegistryRecord :=
  tokens.foldl (fun records token =>
    if (records.find token).isSome then records else records.insert token ⟨[], .unavailable⟩) records

/-- `defaultParseResponse` of a resolve reply -/
def parseResolve (reply : List ResolveRouteResult) (tokens : List Str) :
    Except JsExn (Table Str RelayRegistryRecord) := do
  let records ← reply.mapM fun route => (normalizeRoute route).map fun record => (route.token, record)
  return addMissingRecords (Table.empty.insertAll records) tokens

def lookupFailed : PyExn → JsExn
  | .service message statusCode =>
    .error (ascii ("registry batch lookup failed: HTTP " ++ toString statusCode ++ ": " ++ message))
  | _ => .error (ascii "registry batch lookup failed: HTTP 500")

/-- What one attempt meets: the registry's state, if the request gets there, and what a GET of a URL
gives. -/
inductive Response where
  | failed (e : JsExn)
  | answered (status : Nat) (body : Bytes)
  deriving DecidableEq, Repr

structure Moment where
  registry : Except JsExn Db
  fetch : Str → Response

variable (env : Env)

/-- `lookupRelays`, as far as the route of the registry. -/
def lookupRelays (moment : Moment) (tokens : List Str) : Except JsExn (Table Str RelayRegistryRecord) := do
  let s ← moment.registry
  let normalized ← (tokens.mapM normalizeToken).mapError lookupFailed
  let reply ← (resolveDownloadRoutes env normalized s).1.mapError lookupFailed
  parseResolve reply tokens

/-- What a download may throw: a `TokenPlacementExpiredError`, or anything else. -/
inductive DownloadExn where
  | expired (token : Str)
  | js (e : JsExn)
  deriving DecidableEq, Repr

def isResolvableRegistryRecord (record : RelayRegistryRecord) : Bool :=
  match primaryOf record.targets with
  | none => false
  | some primary => decide (0 < primary.relayBaseUrl.length)

/-- The endpoint of the first target, and the others as its fallbacks. -/
def downloadEndpointFromRegistryRecord (token : Str) (record : RelayRegistryRecord) :
    Except JsExn (List RelayEndpoint) :=
  if record.targets = [] then
    .error (.error (ascii "registry record for " ++ token ++ ascii " has no download targets"))
  else .ok (record.targets.map fun target => endpointFromBase target.relayBaseUrl token)

/-- One round of the loop of `resolveMany`. -/
def addEndpoint (records : Table Str RelayRegistryRecord) (endpoints : Table Str (List RelayEndpoint))
    (token : Str) : Except DownloadExn (Table Str (List RelayEndpoint)) :=
  match records.find token with
  | none => .ok endpoints
  | some record =>
    if record.resolveStatus = .expired then .error (.expired token)
    else if isResolvableRegistryRecord record then
      ((downloadEndpointFromRegistryRecord token record).mapError .js).map (endpoints.insert token)
    else .ok endpoints

/-- `RegistryRelayRouter.resolveMany` -/
def resolveMany (moment : Moment) (tokens : List Str) :
    Except DownloadExn (Table Str (List RelayEndpoint)) := do
  let unique := tokens.eraseDups
  if unique = [] then return Table.empty
  else
    let records ← (lookupRelays env moment unique).mapError .js
    unique.foldlM (addEndpoint records) Table.empty

structure FetchReceiveTransportOptions where
  rejectNonOk : Bool := true
  resolveMaxAttempts : Nat := 20
  getMaxAttempts : Nat := 120
  deriving DecidableEq, Repr

variable (options : FetchReceiveTransportOptions)

/-- `response.ok`, where it is asked for. -/
def accepted (status : Nat) : Bool :=
  !options.rejectNonOk || (decide (200 ≤ status) && decide (status < 300))

/-- The loop over the candidates. -/
def getWithFallbacks (token : Str) (fetch : Str → Response) :
    Option JsExn → List RelayEndpoint → Except JsExn Bytes
  | lastError, [] =>
    match lastError with
    | some (.error message) => .error (.error message)
    | _ => .error (.error (ascii "GET " ++ token ++ ascii " failed on all targets"))
  | _, candidate :: candidates =>
    match fetch candidate.url with
    | .failed e => getWithFallbacks token fetch (some e) candidates
    | .answered status body =>
      if accepted options status then .ok body
      else
        getWithFallbacks token fetch
          (some (.error (ascii "GET " ++ token ++ ascii (" failed: HTTP " ++ toString status)))) candidates

def transientMarks : List String :=
  ["HTTP 404", "HTTP 503", "HTTP 502", "HTTP 429", "failed on all targets", "fetch failed", "network"]

def isTransientDownloadError : JsExn → Bool
  | .error message => transientMarks.any fun mark => decide (ascii mark <:+: message)
  | .other => false

/-- How one round of `get` ends. -/
inductive Trial where
  | fulfilled (data : Bytes)
  | rejected (e : JsExn)
  | unresolved
  | expired (token : Str)
  deriving DecidableEq, Repr

/-- The promise of a GET, once it is settled. -/
def settled : Except JsExn Bytes → Trial
  | .ok data => .fulfilled data
  | .error e => .rejected e

/-- `resolveAndStart` for a batch with the token, and the promise that it sets. -/
def trial (moment : Moment) (batch : List Str) (token : Str) : Trial :=
  match resolveMany env moment batch with
  | .error (.expired other) => .expired other
  | .error (.js e) => .rejected e
  | .ok endpoints =>
    match endpoints.find token with
    | none => .unresolved
    | some candidates =>
      settled (getWithFallbacks options token moment.fetch none candidates)

def notResolved (token : Str) : JsExn :=
  .error (ascii "no relay endpoint resolved for token: " ++ token ++
    ascii " (credential may be wrong, sender has not started upload, or placement expired)")

/-- The `while (true)` loop of `get`, for a token that nobody cancels. -/
def getRounds (token : Str) (trials : Nat → Trial) : Nat → Nat → Nat → Nat → Except DownloadExn Bytes
  | 0, _, _, _ => .error (.js .other)
  | rounds + 1, n, registryAttempts, relayAttempts =>
    match trials n with
    | .expired other => .error (.expired other)
    | .fulfilled data => .ok data
    | .rejected e =>
      if isTransientDownloadError e then
        if options.getMaxAttempts ≤ relayAttempts + 1 then .error (.js e)
        else getRounds token trials rounds (n + 1) registryAttempts (relayAttempts + 1)
      else .error (.js e)
    | .unresolved =>
      if options.resolveMaxAttempts ≤ registryAttempts + 1 then .error (.js (notResolved token))
      else getRounds token trials rounds (n + 1) (registryAttempts + 1) relayAttempts

/-- Every round but the last adds to one of the two counts. -/
def get (token : Str) (trials : Nat → Trial) : Except DownloadExn Bytes :=
  getRounds options token trials (options.resolveMaxAttempts + options.getMaxAttempts + 1) 0 0 0

def Trial.isUnresolved : Trial → Bool
  | .unresolved => true
  | _ => false

def Trial.isRejected : Trial → Bool
  | .rejected _ => true
  | _ => false

/-- The round is followed by another one, if the counts allow it. -/
def Trial.Again : Trial → Prop
  | .rejected e => isTransientDownloadError e = true
  | .unresolved => True
  | _ => False

/-- How many of `k` rounds from `n` on ended so. -/
def tally (p : Trial → Bool) (trials : Nat → Trial) (n k : Nat) : Nat :=
  (List.range' n k).countP fun i => p (trials i)

/-- Round `n + k` gives the data, and the counts reach no limit before it. -/
structure Gives (trials : Nat → Trial) (n registryAttempts relayAttempts k : Nat) (data : Bytes) : Prop where
  last : trials (n + k) = .fulfilled data
  again : ∀ i < k, (trials (n + i)).Again
  registry : registryAttempts + tally Trial.isUnresolved trials n k < max 1 options.resolveMaxAttempts
  relay : relayAttempts + tally Trial.isRejected trials n k < max 1 options.getMaxAttempts

section rounds

variable {options} {token : Str} {trials : Nat → Trial} {data : Bytes}
  {n registryAttempts relayAttempts k : Nat}

theorem tally_succ (p : Trial → Bool) : tally p trials n (k + 1) =
    (if p (trials n) then 1 else 0) + tally p trials (n + 1) k := by
  rw [tally, List.range'_succ, List.countP_cons, Nat.add_comm]
  rfl

/-- A round that is not the last is `again`, and counts. -/
theorem gives_succ : Gives options trials n registryAttempts relayAttempts (k + 1) data ↔
    (trials n).Again ∧ Gives options trials (n + 1)
      (registryAttempts + if (trials n).isUnresolved then 1 else 0)
      (relayAttempts + if (trials n).isRejected then 1 else 0) k data := by
  have hnext (i : Nat) : n + 1 + i = n + (i + 1) := by omega
  constructor
  · rintro ⟨hlast, hagain, hregistry, hrelay⟩
    rw [tally_succ, ← Nat.add_assoc] at hregistry hrelay
    exact ⟨hagain 0 (Nat.succ_pos k), hnext k ▸ hlast,
      fun i hi => hnext i ▸ hagain (i + 1) (Nat.succ_lt_succ hi), hregistry, hrelay⟩
  · rintro ⟨hfirst, hlast, hagain, hregistry, hrelay⟩
    refine ⟨hnext k ▸ hlast, fun i hi => ?_, ?_, ?_⟩
    · cases i with
      | zero => exact hfirst
      | succ i => exact hnext i ▸ hagain i (Nat.lt_of_succ_lt_succ hi)
    · rw [tally_succ, ← Nat.add_assoc]
      exact hregistry
    · rw [tally_succ, ← Nat.add_assoc]
      exact hrelay

/-- With a round to spare for each count that is left, the loop returns what a round gives before a
limit. -/
theorem getRounds_ok_iff (rounds : Nat) (hregistry : registryAttempts < max 1 options.resolveMaxAttempts)
    (hrelay : relayAttempts < max 1 options.getMaxAttempts)
    (hrounds : max 1 options.resolveMaxAttempts + max 1 options.getMaxAttempts <
      registryAttempts + relayAttempts + rounds + 2) :
    getRounds options token trials rounds n registryAttempts relayAttempts = .ok data ↔
      ∃ k, Gives options trials n registryAttempts relayAttempts k data := by
  induction rounds generalizing n registryAttempts relayAttempts with
  | zero => omega
  | succ rounds ih =>
    have hstop (h : ¬ (trials n).Again) :
        (∃ k, Gives options trials n registryAttempts relayAttempts k data) ↔ trials n = .fulfilled data := by
      constructor
      · rintro ⟨k, hgives⟩
        cases k with
        | zero => exact hgives.last
        | succ k => exact absurd (gives_succ.mp hgives).1 h
      · intro hdata
        exact ⟨0, hdata, fun i hi => absurd hi (Nat.not_lt_zero i), hregistry, hrelay⟩
    have hmore (hagain : (trials n).Again) :
        (∃ k, Gives options trials n registryAttempts relayAttempts k data) ↔
          ∃ k, Gives options trials (n + 1)
            (registryAttempts + if (trials n).isUnresolved then 1 else 0)
            (relayAttempts + if (trials n).isRejected then 1 else 0) k data := by
      constructor
      · rintro ⟨k, hgives⟩
        cases k with
        | zero =>
          have hlast : trials n = .fulfilled data := hgives.last
          rw [hlast] at hagain
          exact hagain.elim
        | succ k => exact ⟨k, (gives_succ.mp hgives).2⟩
      · rintro ⟨k, hgives⟩
        exact ⟨k + 1, gives_succ.mpr ⟨hagain, hgives⟩⟩
    rw [getRounds]
    cases htrial : trials n with
    | expired other =>
      rw [htrial] at hstop
      rw [hstop id]
      simp
    | fulfilled found =>
      rw [htrial] at hstop
      rw [hstop id]
      simp
    | rejected e =>
      rw [htrial] at hstop hmore
      dsimp only
      by_cases htransient : isTransientDownloadError e = true
      · rw [if_pos htransient, hmore htransient]
        by_cases hlimit : options.getMaxAttempts ≤ relayAttempts + 1
        · rw [if_pos hlimit]
          refine iff_of_false (fun h => by cases h) ?_
          rintro ⟨k, hgives⟩
          have hlt : relayAttempts + 1 + tally Trial.isRejected trials (n + 1) k <
            max 1 options.getMaxAttempts := hgives.relay
          omega
        · rw [if_neg hlimit]
          exact ih hregistry (by omega) (by omega)
      · rw [if_neg htransient, hstop htransient]
        simp
    | unresolved =>
      rw [htrial] at hmore
      dsimp only
      rw [hmore trivial]
      by_cases hlimit : options.resolveMaxAttempts ≤ registryAttempts + 1
      · rw [if_pos hlimit]
        refine iff_of_false (fun h => by cases h) ?_
        rintro ⟨k, hgives⟩
        have hlt : registryAttempts + 1 + tally Trial.isUnresolved trials (n + 1) k <
          max 1 options.resolveMaxAttempts := hgives.registry
        omega
      · rw [if_neg hlimit]
        exact ih (by omega) hrelay (by omega)

theorem get_ok_iff : get options token trials = .ok data ↔ ∃ k, Gives options trials 0 0 0 k data :=
  getRounds_ok_iff _ (by omega) (by omega) (by omega)

end rounds

/-- The relay gives the data, and the client takes it. -/
def Answers (options : FetchReceiveTransportOptions) (response : Response) (data : Bytes) : Prop :=
  ∃ status, response = .answered status data ∧ accepted options status = true

/-- The client goes on to the next relay. -/
def Silent (options : FetchReceiveTransportOptions) (response : Response) : Prop :=
  ∀ data, ¬ Answers options response data

section relays

variable {options} {token : Str} {fetch : Str → Response} {data : Bytes} {lastError : Option JsExn}
  {candidates : List RelayEndpoint}

theorem answers_answered {status : Nat} {body : Bytes} :
    Answers options (.answered status body) data ↔ body = data ∧ accepted options status = true := by
  constructor
  · rintro ⟨_, heq, hok⟩
    cases heq
    exact ⟨rfl, hok⟩
  · rintro ⟨rfl, hok⟩
    exact ⟨status, rfl, hok⟩

theorem silent_failed (e : JsExn) : Silent options (.failed e) := by
  rintro data ⟨status, heq, -⟩
  cases heq

/-- The first relay that answers decides. -/
theorem getWithFallbacks_ok_iff : getWithFallbacks options token fetch lastError candidates = .ok data ↔
    ∃ before candidate after, candidates = before ++ candidate :: after ∧
      (∀ other ∈ before, Silent options (fetch other.url)) ∧ Answers options (fetch candidate.url) data := by
  induction candidates generalizing lastError with
  | nil =>
    refine iff_of_false (fun h => ?_) (by simp)
    cases lastError with
    | none => cases h
    | some e => cases e <;> cases h
  | cons first rest ih =>
    have hgo (h : Silent options (fetch first.url)) :
        (∃ before candidate after, first :: rest = before ++ candidate :: after ∧
          (∀ other ∈ before, Silent options (fetch other.url)) ∧
          Answers options (fetch candidate.url) data) ↔
        ∃ before candidate after, rest = before ++ candidate :: after ∧
          (∀ other ∈ before, Silent options (fetch other.url)) ∧
          Answers options (fetch candidate.url) data := by
      constructor
      · rintro ⟨before, candidate, after, hsplit, hsilent, hanswers⟩
        cases before with
        | nil =>
          obtain ⟨rfl, -⟩ := List.cons.inj hsplit
          exact absurd hanswers (h data)
        | cons other before =>
          obtain ⟨rfl, hrest⟩ := List.cons.inj hsplit
          exact ⟨before, candidate, after, hrest, fun o ho => hsilent o (List.mem_cons_of_mem _ ho), hanswers⟩
      · rintro ⟨before, candidate, after, rfl, hsilent, hanswers⟩
        exact ⟨first :: before, candidate, after, rfl, List.forall_mem_cons.mpr ⟨h, hsilent⟩, hanswers⟩
    rw [getWithFallbacks]
    cases hfetch : fetch first.url with
    | failed e =>
      rw [hfetch] at hgo
      rw [hgo (silent_failed e)]
      exact ih
    | answered status body =>
      dsimp only
      by_cases hok : accepted options status = true
      · rw [if_pos hok]
        constructor
        · intro h
          obtain rfl := Except.ok.inj h
          exact ⟨[], first, rest, rfl, by simp, hfetch ▸ answers_answered.mpr ⟨rfl, hok⟩⟩
        · rintro ⟨before, candidate, after, hsplit, hsilent, hanswers⟩
          cases before with
          | nil =>
            obtain ⟨rfl, -⟩ := List.cons.inj hsplit
            rw [hfetch] at hanswers
            rw [(answers_answered.mp hanswers).1]
          | cons other before =>
            obtain ⟨rfl, -⟩ := List.cons.inj hsplit
            have hfirst := hsilent first List.mem_cons_self
            rw [hfetch] at hfirst
            exact absurd (answers_answered.mpr ⟨rfl, hok⟩) (hfirst body)
      · rw [hfetch] at hgo
        rw [if_neg hok, hgo fun other hanswers => hok (answers_answered.mp hanswers).2]
        exact ih

end relays

section registry

variable {env} {s : Db} {token : Str} {tokens : List Str} {resolved : TokenReserveResult}

/-- A token that is routed has its primary among the targets. -/
theorem primary_of_targets (h : resolveTargets env s token = some resolved) :
    ∃ target ∈ resolved.targets, target.role = .primary := by
  rw [resolveTargets] at h
  dsimp only at h
  split at h
  case h_1 => cases h
  case h_2 primary hprimary =>
    split at h
    case isFalse => cases h
    case isTrue =>
      split at h
      case isFalse => cases h
      case isTrue hany =>
        obtain ⟨candidate, hmem, hrole⟩ := List.any_eq_true.mp hany
        cases h
        refine ⟨⟨candidate.role, candidate.relayId, candidate.relayBaseUrl⟩, List.mem_map.mpr
          ⟨candidate, List.mem_mergeSort.mpr hmem, rfl⟩, of_decide_eq_true hrole⟩

/-- What the client keeps of the registry's answer. -/
def recordOf (env : Env) (s : Db) (token : Str) : RelayRegistryRecord :=
  match resolveTargets env (purgeExpired s) token with
  | none =>
    ⟨[], if classifyTokenResolveStatus s token = .ready then .unavailable
      else classifyTokenResolveStatus s token⟩
  | some resolved => ⟨resolved.targets.map readTarget, .ready⟩

theorem normalizeRoute_resolved (hm : token ∈ tokens) :
    normalizeRoute (resolvedRoute env (tokens.map fun token => (token, classifyTokenResolveStatus s token))
      (purgeExpired s) token) = .ok (recordOf env s token) := by
  rw [resolvedRoute, recordOf]
  cases hresolve : resolveTargets env (purgeExpired s) token with
  | none =>
    dsimp only
    rw [Assoc.find_map_self _ hm, Option.getD_some, normalizeRoute, normalizeRecord]
    simp [Except.map]
  | some resolved =>
    obtain ⟨target, htarget, hrole⟩ := primary_of_targets hresolve
    have hread : readTarget target ∈ resolved.targets.map readTarget :=
      List.mem_map.mpr ⟨target, htarget, rfl⟩
    have hprimary : primaryOf (resolved.targets.map readTarget) ≠ none := by
      rw [primaryOf, Ne, List.find?_eq_none]
      intro hnone
      exact hnone _ hread (decide_eq_true hrole)
    have hrecord : normalizeRecord ⟨token, resolved.targets⟩ = .ok (resolved.targets.map readTarget) :=
      if_neg fun h => hprimary h.2
    rw [normalizeRoute, hrecord, Except.map, if_neg fun h => List.ne_nil_of_mem hread h.1]

theorem find_insertAll_map {β : Type} (f : Str → β) (hm : token ∈ tokens) :
    ((Table.empty : Table Str β).insertAll (tokens.map fun token => (token, f token))).find token =
      some (f token) := by
  have hsome : ∃ row ∈ tokens.map fun token => (token, f token), row.1 = token :=
    ⟨(token, f token), List.mem_map.mpr ⟨token, hm, rfl⟩, rfl⟩
  obtain ⟨before, value, after, hrows, hafter⟩ := Table.exists_last hsome
  have hrow : (token, value) ∈ tokens.map fun token => (token, f token) := by
    rw [hrows]
    exact List.mem_append_right _ List.mem_cons_self
  obtain ⟨other, -, heq⟩ := List.mem_map.mp hrow
  obtain ⟨rfl, rfl⟩ := Prod.mk.inj heq
  rw [hrows]
  exact Table.find_insertAll_last _ hafter

theorem addMissingRecords_find {records : Table Str RelayRegistryRecord} {record : RelayRegistryRecord}
    (h : records.find token = some record) : (addMissingRecords records tokens).find token = some record := by
  induction tokens generalizing records with
  | nil => exact h
  | cons other tokens ih =>
    refine ih ?_
    dsimp only
    split
    case isTrue => exact h
    case isFalse hnone =>
      refine (Table.find_insert_of_ne _ ?_ _).trans h
      rintro rfl
      exact hnone (h ▸ rfl)

/-- Where the client asks a target for a block. -/
def urlOf (target : RelayTarget) (token : Str) : Str :=
  (endpointFromBase (readTarget target).relayBaseUrl token).url

/-- A text of 64 lowercase hex digits. -/
def Normal (token : Str) : Prop := normalizeToken token = .ok token

variable (env) in
/-- A request that arrives brings a record for each of its tokens. -/
theorem lookupRelays_ok {moment : Moment} (hstate : moment.registry = .ok s)
    (hnormal : ∀ token ∈ tokens, Normal token) :
    ∃ records, lookupRelays env moment tokens = .ok records ∧
      ∀ token ∈ tokens, records.find token = some (recordOf env s token) := by
  have hsame : tokens.mapM normalizeToken = .ok tokens :=
    mapM_ok_iff.mpr (List.forall₂_same.mpr hnormal)
  have hreply : (tokens.map (resolvedRoute env (tokens.map fun token =>
        (token, classifyTokenResolveStatus s token)) (purgeExpired s))).mapM
      (fun route => (normalizeRoute route).map fun record => (route.token, record)) =
      .ok (tokens.map fun token => (token, recordOf env s token)) := by
    refine mapM_map_ok fun token hm => ?_
    have htoken : (resolvedRoute env (tokens.map fun token => (token, classifyTokenResolveStatus s token))
        (purgeExpired s) token).token = token := by
      rw [resolvedRoute]
      split <;> rfl
    rw [normalizeRoute_resolved hm, htoken]
    rfl
  refine ⟨addMissingRecords (Table.empty.insertAll (tokens.map fun token => (token, recordOf env s token)))
    tokens, ?_, fun token hm => addMissingRecords_find (find_insertAll_map (recordOf env s) hm)⟩
  have hresolve : (resolveDownloadRoutes env tokens s).1.mapError lookupFailed =
      .ok (tokens.map (resolvedRoute env (tokens.map fun token =>
        (token, classifyTokenResolveStatus s token)) (purgeExpired s))) := rfl
  rw [lookupRelays, hstate, bind_of_ok rfl, bind_of_ok (mapError_ok_iff.mpr hsame)]
  exact (bind_of_ok hresolve _).trans (bind_of_ok hreply _)

/-- The endpoints that the router finds for a token. -/
def endpointsOf (env : Env) (s : Db) (token : Str) : Option (List RelayEndpoint) :=
  if isResolvableRegistryRecord (recordOf env s token) then
    some ((recordOf env s token).targets.map fun target => endpointFromBase target.relayBaseUrl token)
  else none

theorem recordOf_expired : (recordOf env s token).resolveStatus = .expired ↔
    classifyTokenResolveStatus s token = .expired := by
  rw [recordOf]
  cases hresolve : resolveTargets env (purgeExpired s) token with
  | none =>
    dsimp only
    split
    case isTrue h => simp [h]
    case isFalse => rfl
  | some resolved =>
    have hlive := placedLive_purgeExpired.mp (placedLive_of_targets hresolve)
    simp [classify_ready hlive]

theorem addEndpoint_expired {records : Table Str RelayRegistryRecord}
    {endpoints : Table Str (List RelayEndpoint)} (hfind : records.find token = some (recordOf env s token))
    (h : classifyTokenResolveStatus s token = .expired) :
    addEndpoint records endpoints token = .error (.expired token) := by
  rw [addEndpoint, hfind]
  exact if_pos (recordOf_expired.mpr h)

theorem addEndpoint_ok {records : Table Str RelayRegistryRecord}
    {endpoints : Table Str (List RelayEndpoint)} (hfind : records.find token = some (recordOf env s token))
    (h : classifyTokenResolveStatus s token ≠ .expired) :
    addEndpoint records endpoints token =
      .ok ((endpointsOf env s token).elim endpoints (endpoints.insert token)) := by
  rw [addEndpoint, hfind, endpointsOf]
  dsimp only
  rw [if_neg fun hexpired => h (recordOf_expired.mp hexpired)]
  split
  case isFalse => rfl
  case isTrue hresolvable =>
    have hne : (recordOf env s token).targets ≠ [] := by
      intro hnil
      rw [isResolvableRegistryRecord, hnil] at hresolvable
      cases hresolvable
    rw [downloadEndpointFromRegistryRecord, if_neg hne]
    rfl

/-- The first expired token stops the loop. -/
theorem addEndpoints_expired {records : Table Str RelayRegistryRecord}
    {endpoints : Table Str (List RelayEndpoint)}
    (hfind : ∀ token ∈ tokens, records.find token = some (recordOf env s token))
    (h : ∃ token ∈ tokens, classifyTokenResolveStatus s token = .expired) :
    ∃ token, tokens.foldlM (addEndpoint records) endpoints = .error (.expired token) := by
  induction tokens generalizing endpoints with
  | nil =>
    obtain ⟨token, hm, -⟩ := h
    cases hm
  | cons first rest ih =>
    rw [List.foldlM_cons]
    by_cases hfirst : classifyTokenResolveStatus s first = .expired
    · exact ⟨first, bind_of_error (addEndpoint_expired (hfind first List.mem_cons_self) hfirst) _⟩
    · rw [bind_of_ok (addEndpoint_ok (hfind first List.mem_cons_self) hfirst)]
      obtain ⟨token, hm, hexpired⟩ := h
      rcases List.mem_cons.mp hm with rfl | hm
      · exact absurd hexpired hfirst
      · exact ih (fun other ho => hfind other (List.mem_cons_of_mem _ ho)) ⟨token, hm, hexpired⟩

theorem find_elim_insert (endpoints : Table Str (List RelayEndpoint)) (first : Str) :
    ((endpointsOf env s first).elim endpoints (endpoints.insert first)).find token =
      if token = first ∧ (endpointsOf env s first).isSome then endpointsOf env s first
      else endpoints.find token := by
  cases endpointsOf env s first with
  | none => simp
  | some candidates =>
    simp only [Option.elim_some, Option.isSome_some, and_true]
    exact Table.find_insert _ _ _ _

/-- Without one, each token that can be resolved has its endpoints. -/
theorem addEndpoints_ok {records : Table Str RelayRegistryRecord}
    {endpoints : Table Str (List RelayEndpoint)}
    (hfind : ∀ token ∈ tokens, records.find token = some (recordOf env s token))
    (h : ∀ token ∈ tokens, classifyTokenResolveStatus s token ≠ .expired) :
    ∃ found, tokens.foldlM (addEndpoint records) endpoints = .ok found ∧ ∀ token,
      found.find token = if token ∈ tokens ∧ (endpointsOf env s token).isSome then endpointsOf env s token
        else endpoints.find token := by
  induction tokens generalizing endpoints with
  | nil => exact ⟨endpoints, rfl, fun token => (if_neg fun hm => by cases hm.1).symm⟩
  | cons first rest ih =>
    obtain ⟨hfirst, hrest⟩ := List.forall_mem_cons.mp h
    obtain ⟨found, hloop, hfound⟩ := @ih ((endpointsOf env s first).elim endpoints (endpoints.insert first))
      (fun other ho => hfind other (List.mem_cons_of_mem _ ho)) hrest
    refine ⟨found, ?_, fun token => ?_⟩
    · rw [List.foldlM_cons, bind_of_ok (addEndpoint_ok (hfind first List.mem_cons_self) hfirst)]
      exact hloop
    · rw [hfound, find_elim_insert]
      by_cases heq : token = first
      · subst heq
        by_cases hsome : (endpointsOf env s token).isSome = true
        · simp [hsome]
        · simp [hsome]
      · simp [heq]

theorem isResolvable_iff {record : RelayRegistryRecord} : isResolvableRegistryRecord record = true ↔
    ∃ primary, primaryOf record.targets = some primary ∧ 0 < primary.relayBaseUrl.length := by
  rw [isResolvableRegistryRecord]
  cases primaryOf record.targets with
  | none => simp
  | some primary => simp

/-- The registry routes the token, and its primary has an address. -/
structure RoutedTo (env : Env) (s : Db) (token : Str) (resolved : TokenReserveResult) : Prop where
  targets : resolveTargets env (purgeExpired s) token = some resolved
  primary : ∃ primary, primaryOf (resolved.targets.map readTarget) = some primary ∧
    0 < primary.relayBaseUrl.length

/-- The relays that are asked are those of the registry, in its order. -/
theorem endpointsOf_eq_some {candidates : List RelayEndpoint} : endpointsOf env s token = some candidates ↔
    ∃ resolved, RoutedTo env s token resolved ∧ candidates =
      resolved.targets.map fun target => endpointFromBase (readTarget target).relayBaseUrl token := by
  rw [endpointsOf]
  cases hresolve : resolveTargets env (purgeExpired s) token with
  | none =>
    have hnone : ¬ isResolvableRegistryRecord (recordOf env s token) = true := by
      rw [isResolvable_iff, recordOf, hresolve]
      rintro ⟨primary, hprimary, -⟩
      cases hprimary
    rw [if_neg hnone]
    refine iff_of_false (fun h => by cases h) ?_
    rintro ⟨resolved, hrouted, -⟩
    cases hresolve.symm.trans hrouted.targets
  | some resolved =>
    have hrecord : (recordOf env s token).targets = resolved.targets.map readTarget := by
      rw [recordOf, hresolve]
    have hresolvable : isResolvableRegistryRecord (recordOf env s token) = true ↔
        RoutedTo env s token resolved := by
      rw [isResolvable_iff, hrecord]
      exact ⟨fun h => ⟨hresolve, h⟩, RoutedTo.primary⟩
    rw [hrecord, List.map_map]
    constructor
    · intro h
      split at h
      case isFalse => cases h
      case isTrue hok => exact ⟨resolved, hresolvable.mp hok, (Option.some.inj h).symm⟩
    · rintro ⟨other, hrouted, rfl⟩
      obtain rfl := Option.some.inj (hresolve.symm.trans hrouted.targets)
      exact if_pos (hresolvable.mpr hrouted)

variable (env) in
/-- A batch that is resolved in a state of the registry. -/
theorem resolveMany_ok {moment : Moment} {batch : List Str} (hstate : moment.registry = .ok s)
    (hnormal : ∀ token ∈ batch, Normal token)
    (h : ∀ token ∈ batch, classifyTokenResolveStatus s token ≠ .expired) (hm : token ∈ batch) :
    ∃ endpoints, resolveMany env moment batch = .ok endpoints ∧
      endpoints.find token = endpointsOf env s token := by
  have hunique {other : Str} : other ∈ batch.eraseDups ↔ other ∈ batch := List.mem_eraseDups
  have hne : batch.eraseDups ≠ [] := List.ne_nil_of_mem (hunique.mpr hm)
  obtain ⟨records, hlookup, hfind⟩ := lookupRelays_ok env hstate
    fun other ho => hnormal other (hunique.mp ho)
  obtain ⟨endpoints, hloop, hendpoints⟩ := @addEndpoints_ok _ _ _ records Table.empty hfind
    fun other ho => h other (hunique.mp ho)
  refine ⟨endpoints, ?_, ?_⟩
  · rw [resolveMany, if_neg hne, bind_of_ok (mapError_ok_iff.mpr hlookup)]
    exact hloop
  · rw [hendpoints]
    cases endpointsOf env s token with
    | none => simp
    | some candidates => simp [hm]

variable (env) in
theorem resolveMany_expired {moment : Moment} {batch : List Str} (hstate : moment.registry = .ok s)
    (hnormal : ∀ token ∈ batch, Normal token)
    (h : ∃ token ∈ batch, classifyTokenResolveStatus s token = .expired) :
    ∃ other, resolveMany env moment batch = .error (.expired other) := by
  have hunique {other : Str} : other ∈ batch.eraseDups ↔ other ∈ batch := List.mem_eraseDups
  obtain ⟨expired, hm, hexpired⟩ := h
  obtain ⟨records, hlookup, hfind⟩ := lookupRelays_ok env hstate
    fun other ho => hnormal other (hunique.mp ho)
  obtain ⟨other, hloop⟩ := @addEndpoints_expired _ _ _ records Table.empty hfind
    ⟨expired, hunique.mpr hm, hexpired⟩
  refine ⟨other, ?_⟩
  rw [resolveMany, if_neg (List.ne_nil_of_mem (hunique.mpr hm)), bind_of_ok (mapError_ok_iff.mpr hlookup)]
  exact hloop

end registry

/-- The registry routes the token, and the first of its relays to answer gives the data. -/
structure Served (env : Env) (options : FetchReceiveTransportOptions) (moment : Moment) (batch : List Str)
    (token : Str) (data : Bytes) (s : Db) (resolved : TokenReserveResult)
    (before after : List RelayTarget) (target : RelayTarget) : Prop where
  reached : moment.registry = .ok s
  current : ∀ other ∈ batch, classifyTokenResolveStatus s other ≠ .expired
  routed : RoutedTo env s token resolved
  order : resolved.targets = before ++ target :: after
  silent : ∀ other ∈ before, Silent options (moment.fetch (urlOf other token))
  answers : Answers options (moment.fetch (urlOf target token)) data

section round

variable {env} {options} {moment : Moment} {batch : List Str} {token : Str} {data : Bytes} {s : Db}

theorem getWithFallbacks_targets {fetch : Str → Response} {lastError : Option JsExn}
    {targets : List RelayTarget} :
    getWithFallbacks options token fetch lastError
        (targets.map fun target => endpointFromBase (readTarget target).relayBaseUrl token) = .ok data ↔
      ∃ before target after, targets = before ++ target :: after ∧
        (∀ other ∈ before, Silent options (fetch (urlOf other token))) ∧
        Answers options (fetch (urlOf target token)) data := by
  rw [getWithFallbacks_ok_iff]
  constructor
  · rintro ⟨before, candidate, after, hsplit, hsilent, hanswers⟩
    obtain ⟨first, rest, rfl, rfl, hrest⟩ := List.map_eq_append_iff.mp hsplit
    obtain ⟨target, last, rfl, rfl, rfl⟩ := List.map_eq_cons_iff.mp hrest
    exact ⟨first, target, last, rfl, fun other ho => hsilent _ (List.mem_map_of_mem ho), hanswers⟩
  · rintro ⟨before, target, after, rfl, hsilent, hanswers⟩
    refine ⟨_, _, _, List.map_append, ?_, hanswers⟩
    intro candidate hm
    obtain ⟨other, ho, rfl⟩ := List.mem_map.mp hm
    exact hsilent other ho

theorem settled_fulfilled {x : Except JsExn Bytes} :
    settled x = .fulfilled data ↔ x = .ok data := by
  cases x with
  | error e => simp [settled]
  | ok found => simp [settled]

theorem trial_unreached {e : JsExn} (h : moment.registry = .error e) (hm : token ∈ batch) :
    trial env options moment batch token = .rejected e := by
  have hlookup : (lookupRelays env moment batch.eraseDups).mapError DownloadExn.js = .error (.js e) := by
    rw [lookupRelays, h]
    rfl
  rw [trial, resolveMany, if_neg (List.ne_nil_of_mem (List.mem_eraseDups.mpr hm)), bind_of_error hlookup]

theorem trial_fulfilled_iff (hnormal : ∀ other ∈ batch, Normal other) (hm : token ∈ batch) :
    trial env options moment batch token = .fulfilled data ↔
      ∃ s resolved before after target,
        Served env options moment batch token data s resolved before after target := by
  cases hstate : moment.registry with
  | error e =>
    refine iff_of_false ?_ ?_
    · rw [trial_unreached hstate hm]
      simp
    · rintro ⟨s, resolved, before, after, target, hserved⟩
      cases hstate.symm.trans hserved.reached
  | ok s =>
    by_cases hexpired : ∃ other ∈ batch, classifyTokenResolveStatus s other = .expired
    · obtain ⟨other, hmany⟩ := resolveMany_expired env hstate hnormal hexpired
      refine iff_of_false ?_ ?_
      · rw [trial, hmany]
        simp
      · rintro ⟨s', resolved, before, after, target, hserved⟩
        obtain rfl := Except.ok.inj (hstate.symm.trans hserved.reached)
        obtain ⟨stale, hstale, hstatus⟩ := hexpired
        exact hserved.current stale hstale hstatus
    · have hcurrent : ∀ other ∈ batch, classifyTokenResolveStatus s other ≠ .expired :=
        fun other ho he => hexpired ⟨other, ho, he⟩
      obtain ⟨endpoints, hmany, hfind⟩ := resolveMany_ok env hstate hnormal hcurrent hm
      rw [trial, hmany]
      dsimp only
      rw [hfind]
      cases hendpoints : endpointsOf env s token with
      | none =>
        refine iff_of_false (by simp) ?_
        rintro ⟨s', resolved, before, after, target, hserved⟩
        obtain rfl := Except.ok.inj (hstate.symm.trans hserved.reached)
        have hsome := endpointsOf_eq_some.mpr ⟨resolved, hserved.routed, rfl⟩
        rw [hendpoints] at hsome
        cases hsome
      | some candidates =>
        obtain ⟨resolved, hrouted, rfl⟩ := endpointsOf_eq_some.mp hendpoints
        dsimp only
        rw [settled_fulfilled, getWithFallbacks_targets]
        constructor
        · rintro ⟨before, target, after, horder, hsilent, hanswers⟩
          exact ⟨s, resolved, before, after, target, hstate, hcurrent, hrouted, horder, hsilent, hanswers⟩
        · rintro ⟨s', resolved', before, after, target, hserved⟩
          obtain rfl := Except.ok.inj (hstate.symm.trans hserved.reached)
          obtain rfl := Option.some.inj (hrouted.targets.symm.trans hserved.routed.targets)
          exact ⟨before, target, after, hserved.order, hserved.silent, hserved.answers⟩

end round

/-- A round of `get`, with the batch that its token was resolved in. -/
def roundOf (env : Env) (options : FetchReceiveTransportOptions) (moments : Nat → Moment)
    (batches : Nat → List Str) (token : Str) (n : Nat) : Trial :=
  trial env options (moments n) (batches n) token

/-- The rounds before `k` are followed by another one, and use up neither count. -/
structure Patient (options : FetchReceiveTransportOptions) (round : Nat → Trial) (k : Nat) : Prop where
  again : ∀ i < k, (round i).Again
  registry : tally Trial.isUnresolved round 0 k < max 1 options.resolveMaxAttempts
  relay : tally Trial.isRejected round 0 k < max 1 options.getMaxAttempts

theorem gives_iff {options : FetchReceiveTransportOptions} {round : Nat → Trial} {k : Nat} {data : Bytes} :
    Gives options round 0 0 0 k data ↔ round k = .fulfilled data ∧ Patient options round k := by
  constructor
  · rintro ⟨hlast, hagain, hregistry, hrelay⟩
    simp only [Nat.zero_add] at hlast hagain hregistry hrelay
    exact ⟨hlast, hagain, hregistry, hrelay⟩
  · rintro ⟨hlast, hagain, hregistry, hrelay⟩
    refine ⟨?_, ?_, ?_, ?_⟩ <;> simp only [Nat.zero_add] <;> assumption

/-- A GET returns what the first relay to answer gives, in the registry's order, and it does so exactly if
a round gets that far while there are attempts left. -/
theorem got_iff_served (env : Env) (options : FetchReceiveTransportOptions) (moments : Nat → Moment)
    (batches : Nat → List Str) (token : Str) (data : Bytes)
    (hnormal : ∀ n, ∀ other ∈ batches n, Normal other) (hm : ∀ n, token ∈ batches n) :
    get options token (roundOf env options moments batches token) = .ok data ↔
      ∃ k, Patient options (roundOf env options moments batches token) k ∧
        ∃ s resolved before after target,
          Served env options (moments k) (batches k) token data s resolved before after target := by
  simp only [get_ok_iff, gives_iff]
  constructor
  · rintro ⟨k, hlast, hpatient⟩
    exact ⟨k, hpatient, (trial_fulfilled_iff (hnormal k) (hm k)).mp hlast⟩
  · rintro ⟨k, hpatient, hserved⟩
    exact ⟨k, (trial_fulfilled_iff (hnormal k) (hm k)).mpr hserved, hpatient⟩

def sampleToken : Str := List.replicate 64 97

/-- The only relay has the token. -/
def placedDb : Db :=
  { Rejections.sampleDb with
    placements := Table.empty.insert (sampleToken, Rejections.sampleRelay)
      { registeredRelayBaseUrl := Rejections.sampleUrl, role := .primary, blockHash := ascii "h",
        expiryAt := 3000, updatedAt := 0 } }

/-- The first request to the registry fails. -/
def sampleMoment (n : Nat) : Moment where
  registry := if n = 0 then .error (.error (ascii "fetch failed")) else .ok placedDb
  fetch _ := .answered 200 [1, 2, 3]

theorem got_iff_served_second :
    get {} sampleToken (roundOf Rejections.sampleEnv {} sampleMoment (fun _ => [sampleToken]) sampleToken) =
      .ok [1, 2, 3] ∧
    ∃ k, Patient {} (roundOf Rejections.sampleEnv {} sampleMoment (fun _ => [sampleToken]) sampleToken) k ∧
      ∃ s resolved before after target, Served Rejections.sampleEnv {} (sampleMoment k) [sampleToken]
        sampleToken [1, 2, 3] s resolved before after target := by
  have hgot : get {} sampleToken
      (roundOf Rejections.sampleEnv {} sampleMoment (fun _ => [sampleToken]) sampleToken) =
        .ok [1, 2, 3] := by decide +kernel
  have hnormal : Normal sampleToken := by
    rw [Normal]
    decide +kernel
  refine ⟨hgot, (got_iff_served Rejections.sampleEnv {} sampleMoment (fun _ => [sampleToken]) sampleToken
    [1, 2, 3] ?_ fun _ => List.mem_singleton_self _).mp hgot⟩
  intro _ other ho
  rw [List.mem_singleton.mp ho]
  exact hnormal

end TwelveC.Client.DownloadRoutes
