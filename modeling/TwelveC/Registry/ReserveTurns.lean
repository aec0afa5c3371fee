import TwelveC.Registry.ReservedRows
import TwelveC.PyTurns

/-!
# Reserves that take turns

The purge, the check of each token, the listing of relays, the transaction and
each look back at the written rows are awaits at which other reserves may take
over. Left alone, the turns of a reserve amount to `lock_tokens_with_block_hashes`.
A listing counts as one turn and so does a look back with the URLs that it needs:
what they read of relays no reserve writes.
-/

namespace TwelveC.Registry.ReserveTurns

open Lib Relay.BlockAuth Scheduling RegistryRepository PyTurns

/-- What the transaction of a reserve has written. -/
structure Written where
  resolution : PlacementResolution
  expiryAt : Int
  updatedAt : Int
  deriving DecidableEq, Repr

abbrev Outcome := Except PyExn (Except (List OccupiedToken) LockTokensOutcome)

/-- The await that a reserve is at. `check` has the entries that are still to be checked and the
occupied tokens found so far, `lookBack` the tokens that are still to be read back. `done` keeps what
was written beside the outcome. -/
inductive Position where
  | start
  | check (remaining : List (Str × Str)) (occupied : List OccupiedToken)
  | list
  | commit (w : Written)
  | relist (w : Written)
  | lookBack (w : Written) (liveUrls : List HealthyRelay) (remaining : List Str)
      (locked : List TokenReserveResult)
  | done (w : Option Written) (outcome : Outcome)
  deriving DecidableEq

def Position.outcome : Position → Option Outcome
  | .done _ outcome => some outcome
  | _ => none

def failed (w : Option Written) (e : PyExn) : Position := .done w (.error e)

@[simp] theorem outcome_done (w : Option Written) (outcome : Outcome) :
    (Position.done w outcome).outcome = some outcome := rfl
@[simp] theorem outcome_failed (w : Option Written) (e : PyExn) :
    (failed w e).outcome = some (.error e) := rfl

variable (env : Env) (entries : List (Str × Str)) (ttlSeconds : Option Int)

/-- Between checks nothing is awaited. -/
def afterCheck (remaining : List (Str × Str)) (occupied : List OccupiedToken) : Position :=
  if remaining ≠ [] then .check remaining occupied
  else if occupied ≠ [] then .done none (.ok (.error occupied))
  else .list

def afterPurge : Position :=
  if entries = [] then .done none (.ok (.ok (nothingLocked env)))
  else
    match checkDuplicates [] (entries.map Prod.fst) with
    | .error e => failed none e
    | .ok _ => afterCheck entries []

/-- From the relays to the rows; the clock is read before the transaction begins. -/
def planWrite : Py Db Written := do
  let healthy ← listHealthyRelays env
  Py.raiseIf (healthy = []) (.runtimeError "no healthy relay available for upload assignment")
  let resolution ← Py.ofExcept (resolvePlacementWithTtl env.placementPolicy entries healthy
    (ttlSeconds.getD env.tokenTtlSeconds))
  let now ← Py.read (·.now)
  pure ⟨resolution, now + seconds resolution.grantedTtlSeconds, now⟩

def lockedOutcome (resolution : PlacementResolution) (routes : List TokenReserveResult) :
    LockTokensOutcome :=
  { routes, grantedTtlSeconds := resolution.grantedTtlSeconds,
    requestedTtlSeconds := resolution.requestedTtlSeconds, degraded := resolution.degraded,
    stripeCount := resolution.placementPlan.stripeCount,
    replicaFactor := resolution.placementPlan.replicaFactor,
    idealRelayCount := resolution.idealRelayCount, actualRelayCount := resolution.actualRelayCount }

def afterLookBack (w : Written) (liveUrls : List HealthyRelay) (remaining : List Str)
    (locked : List TokenReserveResult) : Position :=
  if remaining ≠ [] then .lookBack w liveUrls remaining locked
  else .done (some w) (.ok (.ok (lockedOutcome w.resolution locked)))

def advance : Position → Db → Position × Db
  | .start, s => goto (purgeExpiredTokens s) (fun _ => afterPurge env entries) (failed none)
  | .check (e :: remaining) occupied, s => goto (Py.read (occupiedToken · e.1) s)
      (fun found => afterCheck remaining (occupied ++ found.toList)) (failed none)
  | .list, s => goto (planWrite env entries ttlSeconds s) .commit (failed none)
  | .commit w, s =>
    goto (Py.modify (writeRows w.resolution.placements w.expiryAt w.updatedAt) s)
      (fun _ => .relist w) (failed (some w))
  | .relist w, s => goto (listHealthyRelays env s)
      (fun liveUrls => afterLookBack w liveUrls (entries.map Prod.fst) []) (failed (some w))
  | .lookBack w liveUrls (token :: remaining) locked, s => goto (lockedRoute liveUrls token s)
      (fun route => afterLookBack w liveUrls remaining (locked ++ [route])) (failed (some w))
  | position, s => (position, s)

section alone

variable {env entries ttlSeconds}

abbrev Does (env : Env) (entries : List (Str × Str)) (ttlSeconds : Option Int) :
    Position → Py Db (Except (List OccupiedToken) LockTokensOutcome) → Prop :=
  Implements (advance env entries ttlSeconds) Position.outcome

theorem does_error (w : Option Written) (e : PyExn) :
    Does env entries ttlSeconds (failed w e) (Py.raise e) := implements_done rfl

/-- The rows are read back one token after the other. -/
theorem does_lookBack (w : Written) (liveUrls : List HealthyRelay) (remaining : List Str)
    (locked : List TokenReserveResult) :
    Does env entries ttlSeconds (afterLookBack w liveUrls remaining locked)
      (lockedRoutes liveUrls remaining >>= fun routes =>
        pure (.ok (lockedOutcome w.resolution (locked ++ routes)))) := by
  induction remaining generalizing locked with
  | nil =>
    rw [afterLookBack, if_neg (not_not.mpr rfl), lockedRoutes, Py.bind_pure_left, List.append_nil]
    exact implements_done rfl
  | cons token remaining ih =>
    rw [afterLookBack, if_pos (List.cons_ne_nil _ _), lockedRoutes, Py.bind_assoc]
    have hturn : ∀ s, advance env entries ttlSeconds (.lookBack w liveUrls (token :: remaining) locked) s =
        goto (lockedRoute liveUrls token s)
          (fun route => afterLookBack w liveUrls remaining (locked ++ [route])) (failed (some w)) :=
      fun _ => rfl
    refine implements_bind hturn (fun route => ?_) fun _ => rfl
    have hrest := ih (locked ++ [route])
    simp only [List.append_assoc, List.singleton_append] at hrest
    rw [Py.bind_assoc]
    exact hrest

theorem does_commit {w : Written} :
    Does env entries ttlSeconds (.commit w) (Py.modify (writeRows w.resolution.placements w.expiryAt
      w.updatedAt) >>= fun _ => listHealthyRelays env >>= fun liveUrls =>
        lockedRoutes liveUrls (entries.map Prod.fst) >>= fun routes =>
          pure (.ok (lockedOutcome w.resolution routes))) := by
  have hcommit : ∀ s, advance env entries ttlSeconds (.commit w) s =
      goto (Py.modify (writeRows w.resolution.placements w.expiryAt w.updatedAt) s)
        (fun _ => .relist w) (failed (some w)) := fun _ => rfl
  have hrelist : ∀ s, advance env entries ttlSeconds (.relist w) s =
      goto (listHealthyRelays env s)
        (fun liveUrls => afterLookBack w liveUrls (entries.map Prod.fst) []) (failed (some w)) :=
    fun _ => rfl
  refine implements_bind hcommit (fun _ => ?_) fun _ => rfl
  refine implements_bind hrelist (fun liveUrls => ?_) fun _ => rfl
  exact does_lookBack w liveUrls (entries.map Prod.fst) []

/-- What follows the checks. -/
def plannedLock (env : Env) (entries : List (Str × Str)) (ttlSeconds : Option Int) :
    Py Db (Except (List OccupiedToken) LockTokensOutcome) := do
  let healthy ← listHealthyRelays env
  Py.raiseIf (healthy = []) (.runtimeError "no healthy relay available for upload assignment")
  let resolution ← Py.ofExcept (resolvePlacementWithTtl env.placementPolicy entries healthy
    (ttlSeconds.getD env.tokenTtlSeconds))
  let outcome ← lockPlanned env entries resolution
  pure (.ok outcome)

theorem does_list :
    Does env entries ttlSeconds .list (plannedLock env entries ttlSeconds) := by
  have hplan : plannedLock env entries ttlSeconds = planWrite env entries ttlSeconds >>= fun w =>
      Py.modify (writeRows w.resolution.placements w.expiryAt w.updatedAt) >>= fun _ =>
        listHealthyRelays env >>= fun liveUrls =>
          lockedRoutes liveUrls (entries.map Prod.fst) >>= fun routes =>
            pure (.ok (lockedOutcome w.resolution routes)) := by
    funext s
    rw [plannedLock, Py.bind_ok (listHealthyRelays_run _ s)]
    by_cases hhealthy : healthyRelays env s = []
    · have hwrite : planWrite env entries ttlSeconds s = (.error (.runtimeError
          "no healthy relay available for upload assignment"), s) := by
        rw [planWrite, Py.bind_ok (listHealthyRelays_run _ s),
          Py.bind_error (Py.raiseIf_pos hhealthy _ s)]
      rw [Py.bind_error (Py.raiseIf_pos hhealthy _ s), Py.bind_error hwrite]
    · rw [Py.bind_ok (Py.raiseIf_neg hhealthy _ s)]
      cases hplan : resolvePlacementWithTtl env.placementPolicy entries (healthyRelays env s)
          (ttlSeconds.getD env.tokenTtlSeconds) with
      | error e =>
        have hwrite : planWrite env entries ttlSeconds s = (.error e, s) := by
          rw [planWrite, Py.bind_ok (listHealthyRelays_run _ s),
            Py.bind_ok (Py.raiseIf_neg hhealthy _ s), hplan, Py.bind_error (Py.ofExcept_run _ s)]
        rw [Py.bind_error (Py.ofExcept_run _ s), Py.bind_error hwrite]
      | ok resolution =>
        have hwrite : planWrite env entries ttlSeconds s =
            (.ok ⟨resolution, s.now + seconds resolution.grantedTtlSeconds, s.now⟩, s) := by
          rw [planWrite, Py.bind_ok (listHealthyRelays_run _ s),
            Py.bind_ok (Py.raiseIf_neg hhealthy _ s), hplan, Py.bind_ok (Py.ofExcept_run _ s)]
          rfl
        rw [Py.bind_ok (Py.ofExcept_run _ s), Py.bind_ok hwrite, lockPlanned]
        simp only [Py.bind_assoc, Py.bind_pure_left]
        rw [Py.bind_ok (Py.modify_run _ s), Py.bind_ok (Py.modify_run _ s), upsertPlacements_eq]
        rfl
  rw [hplan]
  have hturn : ∀ s, advance env entries ttlSeconds .list s =
      goto (planWrite env entries ttlSeconds s) .commit (failed none) := fun _ => rfl
  exact implements_bind hturn (fun w => does_commit) fun _ => rfl

/-- What the checked tokens lead to. -/
def checkedLock (env : Env) (entries : List (Str × Str)) (ttlSeconds : Option Int)
    (occupied : List OccupiedToken) : Py Db (Except (List OccupiedToken) LockTokensOutcome) :=
  if occupied ≠ [] then pure (.error occupied) else plannedLock env entries ttlSeconds

/-- The tokens are checked one after the other. -/
theorem does_afterCheck (env : Env) (entries : List (Str × Str)) (ttlSeconds : Option Int)
    (remaining : List (Str × Str)) (occupied : List OccupiedToken) :
    Does env entries ttlSeconds (afterCheck remaining occupied)
      (Py.read (fun s => occupied ++ remaining.filterMap fun e => occupiedToken s e.1) >>=
        checkedLock env entries ttlSeconds) := by
  induction remaining generalizing occupied with
  | nil =>
    have hread : (Py.read (fun s : Db => occupied ++ ([] : List (Str × Str)).filterMap fun e =>
        occupiedToken s e.1) >>= checkedLock env entries ttlSeconds) =
          checkedLock env entries ttlSeconds occupied := by
      funext s
      rw [Py.bind_ok (Py.read_run _ s), List.filterMap_nil, List.append_nil]
    rw [hread, afterCheck, if_neg (not_not.mpr rfl), checkedLock]
    by_cases hocc : occupied ≠ []
    · rw [if_pos hocc, if_pos hocc]
      exact implements_done rfl
    · rw [if_neg hocc, if_neg hocc]
      exact does_list
  | cons e remaining ih =>
    have hread : (Py.read (fun s : Db => occupied ++ (e :: remaining).filterMap fun e =>
        occupiedToken s e.1) >>= checkedLock env entries ttlSeconds) =
          Py.read (occupiedToken · e.1) >>= fun found =>
            Py.read (fun s => occupied ++ found.toList ++ remaining.filterMap fun e =>
              occupiedToken s e.1) >>= checkedLock env entries ttlSeconds := by
      funext s
      rw [Py.bind_ok (Py.read_run _ s), Py.bind_ok (Py.read_run _ s), Py.bind_ok (Py.read_run _ s)]
      have hcons : (e :: remaining).filterMap (fun e => occupiedToken s e.1) =
          (occupiedToken s e.1).toList ++ remaining.filterMap fun e => occupiedToken s e.1 := by
        rw [List.filterMap_cons]
        cases occupiedToken s e.1 <;> rfl
      rw [hcons, List.append_assoc]
    have hturn : ∀ s, advance env entries ttlSeconds (.check (e :: remaining) occupied) s =
        goto (Py.read (occupiedToken · e.1) s)
          (fun found => afterCheck remaining (occupied ++ found.toList)) (failed none) := fun _ => rfl
    rw [hread, afterCheck, if_pos (List.cons_ne_nil _ _)]
    exact implements_bind hturn (fun found => ih (occupied ++ found.toList)) fun _ => rfl

theorem does_afterPurge :
    Does env entries ttlSeconds (afterPurge env entries) (if entries = [] then
        pure (.ok (nothingLocked env))
      else
        Py.ofExcept (checkDuplicates [] (entries.map Prod.fst)) >>= fun _ =>
          Py.read (fun s => entries.filterMap fun e => occupiedToken s e.1) >>=
            checkedLock env entries ttlSeconds) := by
  rw [afterPurge]
  by_cases hne : entries = []
  · rw [if_pos hne, if_pos hne]
    exact implements_done rfl
  · rw [if_neg hne, if_neg hne]
    cases checkDuplicates [] (entries.map Prod.fst) with
    | error e => exact does_error none e
    | ok u =>
      have hchecks := does_afterCheck env entries ttlSeconds entries []
      simp only [List.nil_append] at hchecks
      exact hchecks

/-- A reserve that is left alone does what the sequential call does. -/
theorem does_lock :
    Does env entries ttlSeconds .start (lockTokensWithBlockHashes env entries ttlSeconds) := by
  have hturn : ∀ s, advance env entries ttlSeconds .start s =
      goto (purgeExpiredTokens s) (fun _ => afterPurge env entries) (failed none) := fun _ => rfl
  exact implements_bind hturn (fun _ => does_afterPurge) fun _ => rfl

end alone

end TwelveC.Registry.ReserveTurns
