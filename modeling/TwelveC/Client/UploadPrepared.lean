import TwelveC.Client.PutPool
import TwelveC.Client.RoutePlan
import TwelveC.Registry.Rejections

/-!
# An upload, from the reservation to the last replica

`uploadPrepared` resolves once every block is at its primary; the replicas
follow in a second pool, and those that fail are reported to the registry, which
forgets them. What the registry replied to the reservation is arbitrary, and in
between any other request may reach it.
-/

namespace TwelveC.Client

open Lib Lib.Run Registry Registry.RegistryRepository Scheduling

structure UploadSessionOptions where
  concurrency : Option Nat
  putMaxAttempts : Option Int
  putTransientMaxAttempts : Option Int
  replicaPutMaxAttempts : Option Int
  replicaAsyncConcurrency : Option Nat
  ttlSeconds : Option Int
  stripeRampConcurrency : Option Bool
  wireBlockBytes : Option Nat
  deriving DecidableEq, Repr

inductive RelayHopProtocol where
  | h2
  | http11
  | unknown
  deriving DecidableEq, Repr

/-- What the client runs on, and what its probe of the first relay saw. -/
structure Probe where
  isBrowser : Bool
  hopProtocol : RelayHopProtocol
  deriving DecidableEq, Repr

def resolvePrimaryPutConcurrency (probe : Probe) (total : Nat) (explicit : Option Nat) : Nat :=
  match explicit with
  | some concurrency => concurrency
  | none =>
    if probe.isBrowser then min total (if probe.hopProtocol = .h2 then 12 else 6) else total

def resolveUploadUses32MiBWireBlocks (uploads : UploadMap) (wireBlockBytes : Option Nat) : Bool :=
  match wireBlockBytes with
  | some bytes => wireBlockBytes16MiB < bytes
  | none => uploads.entries.any fun e => wireBlockBytes16MiB < e.2.length

def resolveStripeRampConcurrency (probe : Probe) (explicit : Option Bool) (relayCount : Option Int)
    (uses32MiBWireBlocks : Bool) : Bool :=
  match explicit with
  | some ramp => ramp
  | none =>
    if ¬ uses32MiBWireBlocks then false
    else if relayCount.any (1 < ·) then false
    else if ¬ probe.isBrowser then false
    else probe.hopProtocol ≠ .h2

def defaultPutMaxAttempts : Int := 3
def defaultPutTransientMaxAttempts : Int := 8
def defaultReplicaPutMaxAttempts : Int := 5
def defaultReplicaAsyncConcurrency : Nat := 4

variable (o : UploadSessionOptions)

def UploadSessionOptions.primaryPolicy : PutRetryPolicy :=
  ⟨o.putMaxAttempts.getD defaultPutMaxAttempts,
    o.putTransientMaxAttempts.getD defaultPutTransientMaxAttempts⟩

def UploadSessionOptions.replicaPolicy : PutRetryPolicy :=
  ⟨o.replicaPutMaxAttempts.getD defaultReplicaPutMaxAttempts, defaultPutTransientMaxAttempts⟩

def UploadSessionOptions.replicaConcurrency : Nat :=
  o.replicaAsyncConcurrency.getD defaultReplicaAsyncConcurrency

/-- The endpoint is the one that the worker will look up. -/
structure PrimaryJob where
  token : Str
  blob : Bytes
  endpoint : Option RelayEndpoint
  deriving DecidableEq, Repr

def primaryJobs (uploads : UploadMap) (plan : UploadRoutePlan) : List PrimaryJob :=
  uploads.entries.map fun e => ⟨e.1, e.2, plan.primary.find e.1⟩

/-- `resolved` is without a `replicaSync`; from `replicating` on there is one, which ends in `synced`
or in `syncFailed`. -/
inductive Phase where
  | uploading
  | rejected
  | resolved
  | replicating
  | abandoning
  | synced
  | syncFailed
  deriving DecidableEq, Repr

/-- `uploadPrepared` has returned. -/
def Phase.hasResolved : Phase → Bool
  | .uploading => false
  | .rejected => false
  | _ => true

/-- The registry is beside the session, since the two change in turns. -/
structure UploadState where
  phase : Phase
  plan : UploadRoutePlan
  primary : Pool PrimaryJob
  replica : Option (Pool ReplicaReplicationJob)
  registry : Db

def noPlan : UploadRoutePlan := ⟨Table.empty, Table.empty, none⟩

/-- The call ends before the first block. -/
def endedEarly (phase : Phase) (registry : Db) : UploadState :=
  { phase, plan := noPlan, primary := .new [] 0 .polling, replica := none, registry }

variable (probe : Probe) (uploads : UploadMap)

def primaryConcurrency : Nat :=
  resolvePrimaryPutConcurrency probe uploads.entries.length o.concurrency

/-- Up to `Promise.all` of the workers. `registry` is as the reservation has left it. -/
def uploadPrepared (hashes : List (Str × Str)) (reply : Except JsExn ReserveReply) (registry : Db) :
    UploadState :=
  if uploads.entries = [] then endedEarly .resolved registry
  else if o.primaryPolicy.maxAttempts ≤ 0 then endedEarly .rejected registry
  else
    match reserveAndRegisterUploadBlocks uploads hashes reply with
    | .error _ => endedEarly .rejected registry
    | .ok plan =>
      { phase := .uploading
        plan
        primary := .new (primaryJobs uploads plan) (primaryConcurrency o probe uploads) .polling
        replica := none
        registry }

inductive Event where
  | slot (i : Nat)
  | take (i : Nat)
  | put (i : Nat) (outcome : Except PutError Unit)
  | primaryEnded
  | takeReplica (i : Nat)
  | putReplica (i : Nat) (outcome : Except PutError Unit)
  | replicaEnded
  | abandon (answered : Bool)
  | abandonLost
  | others (registry : Db)

/-- `Promise.all` of the primary workers: it rejects with the first of them that fails. -/
def primaryEnded (st : UploadState) : UploadState :=
  if st.phase ≠ .uploading then st
  else if st.primary.someFailed then { st with phase := .rejected }
  else if st.primary.allReturned then
    if collectReplicaJobs uploads st.plan.routes = [] then { st with phase := .resolved }
    else
      let pool := Pool.new (collectReplicaJobs uploads st.plan.routes) o.replicaConcurrency .ready
      { st with phase := .replicating, replica := some pool }
  else st

def failures (pool : Pool ReplicaReplicationJob) : List (Str × Str) :=
  pool.gaveUp.map fun job => (job.token, job.relayId)

/-- `Promise.all` of the replica workers, none of which fails. -/
def replicaEnded (st : UploadState) : UploadState :=
  match st.replica with
  | some pool =>
    if st.phase = .replicating ∧ pool.allReturned then
      { st with phase := if failures pool = [] then .synced else .abandoning }
    else st
  | none => st

/-- The registry handles the report; its answer may get lost. -/
def abandonHandled (answered : Bool) (st : UploadState) : UploadState :=
  match st.replica with
  | some pool =>
    if st.phase = .abandoning then
      match abandonReplicas (failures pool) st.registry with
      | (.ok _, registry) =>
        { st with phase := if answered then .synced else .syncFailed, registry }
      | (.error _, registry) => { st with phase := .syncFailed, registry }
    else st
  | none => st

def stripeRamp (st : UploadState) : Bool :=
  resolveStripeRampConcurrency probe o.stripeRampConcurrency st.plan.relayCount
    (resolveUploadUses32MiBWireBlocks uploads o.wireBlockBytes)

def next (st : UploadState) : Event → UploadState
  | .slot i =>
    let rampConcurrency := stripeRamp o probe uploads st
    { st with primary := st.primary.slot (primaryConcurrency o probe uploads) rampConcurrency i }
  | .take i => { st with primary := st.primary.take (fun job => job.endpoint.isSome) i }
  | .put i outcome =>
    { st with primary := st.primary.put o.primaryPolicy .polling .failed i outcome }
  | .primaryEnded => primaryEnded o uploads st
  | .takeReplica i => { st with replica := st.replica.map fun pool => pool.take (fun _ => true) i }
  | .putReplica i outcome =>
    { st with
      replica := st.replica.map fun pool => pool.put o.replicaPolicy .ready .ready i outcome }
  | .replicaEnded => replicaEnded st
  | .abandon answered => abandonHandled answered st
  | .abandonLost => if st.phase = .abandoning then { st with phase := .syncFailed } else st
  | .others registry => { st with registry }

/-- The workers of the second pool have all returned. -/
def Phase.replicasEnded : Phase → Bool
  | .abandoning => true
  | .synced => true
  | .syncFailed => true
  | _ => false

/-- Every block is routed as the reply says. -/
def Routed (plan : UploadRoutePlan) (reply : Except JsExn ReserveReply) : Prop :=
  ∀ token blob, uploads.find token = some blob →
    plan.routes.find token = some (replyTargets reply token) ∧
    ∃ primary, primaryOf (replyTargets reply token) = some primary ∧
      plan.primary.find token = some (endpointFromBase primary.relayBaseUrl token)

/-- The client's side of the upload. -/
structure Consistent (reply : Except JsExn ReserveReply) (st : UploadState) : Prop where
  sound : st.primary.Sound
  stops : st.primary.Stops
  staffed : st.primary.jobs ≠ [] → st.primary.workers ≠ []
  planned : st.phase ≠ .rejected →
    st.primary.jobs = primaryJobs uploads st.plan ∧ Routed uploads st.plan reply
  uploaded : st.phase.hasResolved → st.primary.nextIndex = st.primary.jobs.length ∧
    ∀ job ∈ st.primary.jobs, job ∈ st.primary.acknowledged
  started : st.replica ≠ none → st.phase.hasResolved
  replica : ∀ pool, st.replica = some pool → pool.Sound ∧
    pool.jobs = collectReplicaJobs uploads st.plan.routes ∧ (pool.jobs ≠ [] → pool.workers ≠ [])
  replicated : st.phase.replicasEnded → ∀ pool, st.replica = some pool →
    pool.nextIndex = pool.jobs.length ∧ ∀ job ∈ pool.jobs, job ∈ pool.acknowledged ∨ job ∈ pool.gaveUp

variable {o probe uploads} {reply : Except JsExn ReserveReply} {reserved : Db} {st : UploadState}

theorem hasResolved_of_replicasEnded {phase : Phase} (h : phase.replicasEnded) : phase.hasResolved := by
  cases phase <;> first | rfl | cases h

theorem ne_rejected_of_hasResolved {phase : Phase} (h : phase.hasResolved) : phase ≠ .rejected := by
  rintro rfl
  cases h

theorem consistent_early {phase : Phase} (h : phase = .rejected ∨ phase = .resolved ∧ uploads.entries = [])
    (registry : Db) : Consistent uploads reply (endedEarly phase registry) where
  sound := Pool.sound_new [] 0 (.inl rfl)
  stops h := absurd rfl h
  staffed h := absurd rfl h
  planned hphase := by
    obtain ⟨-, hnil⟩ := h.resolve_left hphase
    refine ⟨?_, fun token blob hblob => ?_⟩
    · rw [primaryJobs, hnil]
      rfl
    · have hm := Table.find_eq_some.mp hblob
      rw [hnil] at hm
      cases hm
  uploaded _ := ⟨rfl, fun job hjob => by cases hjob⟩
  started h := absurd rfl h
  replica pool h := by cases h
  replicated _ pool h := by cases h

theorem primaryConcurrency_pos (hconcurrency : o.concurrency ≠ some 0) (hne : uploads.entries ≠ []) :
    0 < primaryConcurrency o probe uploads := by
  have hlength := List.length_pos_of_ne_nil hne
  rw [primaryConcurrency]
  cases hc : o.concurrency with
  | some concurrency =>
    rw [hc] at hconcurrency
    exact Nat.pos_of_ne_zero fun h0 => hconcurrency (congrArg some h0)
  | none =>
    simp only [resolvePrimaryPutConcurrency]
    split
    · refine Nat.lt_min.mpr ⟨hlength, ?_⟩
      split <;> decide
    · exact hlength

theorem staffed_new {α : Type} {jobs : List α} {concurrency : Nat} {first : Worker}
    (hconcurrency : 0 < concurrency) (hjobs : jobs ≠ []) :
    (Pool.new jobs concurrency first).workers ≠ [] := by
  apply List.ne_nil_of_length_pos
  rw [Pool.new, List.length_replicate]
  exact Nat.lt_min.mpr ⟨hconcurrency, List.length_pos_of_ne_nil hjobs⟩

theorem consistent_uploadPrepared (hconcurrency : o.concurrency ≠ some 0) (hashes : List (Str × Str))
    (reply : Except JsExn ReserveReply) (registry : Db) :
    Consistent uploads reply (uploadPrepared o probe uploads hashes reply registry) := by
  rw [uploadPrepared]
  split
  case isTrue hnil => exact consistent_early (.inr ⟨rfl, hnil⟩) registry
  case isFalse hne =>
    split
    case isTrue => exact consistent_early (.inl rfl) registry
    case isFalse =>
      split
      case h_1 => exact consistent_early (.inl rfl) registry
      case h_2 plan hplan =>
        refine ⟨Pool.sound_new _ _ (.inl rfl), fun h => absurd rfl h, fun hjobs => ?_, fun _ => ?_,
          (fun h => by cases h), fun h => absurd rfl h, (fun _ h => by cases h), fun h => by cases h⟩
        · exact staffed_new (primaryConcurrency_pos hconcurrency hne) hjobs
        · exact ⟨rfl, fun token blob hblob => reserveAndRegister_ok hplan hblob⟩

/-- What the client has when it begins is the registry that the reservation left. -/
theorem uploadPrepared_registry (hashes : List (Str × Str)) (registry : Db) :
    (uploadPrepared o probe uploads hashes reply registry).registry = registry := by
  rw [uploadPrepared]
  repeat' split
  all_goals rfl

/-- No call begins in the second pool. -/
theorem uploadPrepared_replicasEnded (hashes : List (Str × Str)) (registry : Db) :
    (uploadPrepared o probe uploads hashes reply registry).phase.replicasEnded = false := by
  rw [uploadPrepared]
  repeat' split
  all_goals rfl

theorem Pool.Extends.staffed {α : Type} {pool later : Pool α} (h : Pool.Extends pool later)
    (hstaffed : pool.jobs ≠ [] → pool.workers ≠ []) : later.jobs ≠ [] → later.workers ≠ [] := by
  rw [h.jobs]
  intro hjobs hnil
  have hlength := h.workers
  rw [hnil] at hlength
  exact hstaffed hjobs (List.length_eq_zero_iff.mp hlength.symm)

/-- All jobs have been taken, and will have been. -/
theorem Pool.Extends.allTaken {α : Type} {pool later : Pool α} (h : Pool.Extends pool later)
    (hsound : later.Sound) (hall : pool.nextIndex = pool.jobs.length) :
    later.nextIndex = later.jobs.length := by
  refine Nat.le_antisymm hsound.bound ?_
  rw [h.jobs, ← hall]
  exact h.nextIndex

theorem consistent_primary (h : Consistent uploads reply st) {later : Pool PrimaryJob}
    (hsound : later.Sound) (hstops : later.Stops) (hextends : Pool.Extends st.primary later) :
    Consistent uploads reply { st with primary := later } where
  sound := hsound
  stops := hstops
  staffed := hextends.staffed h.staffed
  planned hphase := by
    rw [hextends.jobs]
    exact h.planned hphase
  uploaded hphase := by
    obtain ⟨hall, hacked⟩ := h.uploaded hphase
    refine ⟨hextends.allTaken hsound hall, fun job hjob => hextends.acknowledged ?_⟩
    rw [hextends.jobs] at hjob
    exact hacked job hjob
  started := h.started
  replica := h.replica
  replicated := h.replicated

theorem consistent_replica (h : Consistent uploads reply st)
    {f : Pool ReplicaReplicationJob → Pool ReplicaReplicationJob}
    (hsound : ∀ pool, pool.Sound → (f pool).Sound) (hextends : ∀ pool, Pool.Extends pool (f pool)) :
    Consistent uploads reply { st with replica := st.replica.map f } where
  sound := h.sound
  stops := h.stops
  staffed := h.staffed
  planned := h.planned
  uploaded := h.uploaded
  started hne := by
    apply h.started
    rintro hnone
    simp [hnone] at hne
  replica later hlater := by
    obtain ⟨pool, hpool, rfl⟩ := Option.map_eq_some_iff.mp hlater
    obtain ⟨hs, hjobs, hstaffed⟩ := h.replica pool hpool
    exact ⟨hsound pool hs, (hextends pool).jobs.trans hjobs, (hextends pool).staffed hstaffed⟩
  replicated hphase later hlater := by
    obtain ⟨pool, hpool, rfl⟩ := Option.map_eq_some_iff.mp hlater
    obtain ⟨hall, hdone⟩ := h.replicated hphase pool hpool
    refine ⟨(hextends pool).allTaken (hsound pool (h.replica pool hpool).1) hall, fun job hjob => ?_⟩
    rw [(hextends pool).jobs] at hjob
    exact (hdone job hjob).imp (fun hm => (hextends pool).acknowledged hm)
      fun hm => (hextends pool).gaveUp hm

theorem consistent_rejected (h : Consistent uploads reply st) (hphase : st.phase = .uploading) :
    Consistent uploads reply { st with phase := .rejected } where
  sound := h.sound
  stops := h.stops
  staffed := h.staffed
  planned hne := absurd rfl hne
  uploaded hresolved := by cases hresolved
  started hne := by
    have hresolved := h.started hne
    rw [hphase] at hresolved
    cases hresolved
  replica := h.replica
  replicated hended := by cases hended

theorem consistent_primaryEnded (hconcurrency : o.replicaAsyncConcurrency ≠ some 0)
    (h : Consistent uploads reply st) : Consistent uploads reply (primaryEnded o uploads st) := by
  rw [primaryEnded]
  split
  case isTrue => exact h
  case isFalse hphase =>
    have hphase := not_not.mp hphase
    split
    case isTrue => exact consistent_rejected h hphase
    case isFalse hnone =>
      split
      case isFalse => exact h
      case isTrue hreturned =>
        -- No worker failed, so none gave a block up.
        have hgave : st.primary.gaveUp = [] := by
          by_contra hne
          obtain ⟨i, hi⟩ := h.stops hne
          apply hnone
          rw [Pool.someFailed, List.any_eq_true]
          exact ⟨.failed, List.mem_of_getElem? hi, by simp⟩
        obtain ⟨hall, hdone⟩ := h.sound.finished hreturned h.staffed
        have hacked : ∀ job ∈ st.primary.jobs, job ∈ st.primary.acknowledged := by
          intro job hjob
          have hd := hdone job hjob
          rw [hgave] at hd
          simpa using hd
        have hplanned := h.planned (by rw [hphase]; exact Phase.noConfusion)
        split
        · exact ⟨h.sound, h.stops, h.staffed, fun _ => hplanned, fun _ => ⟨hall, hacked⟩,
            fun _ => rfl, h.replica, fun hended => by cases hended⟩
        · refine ⟨h.sound, h.stops, h.staffed, fun _ => hplanned, fun _ => ⟨hall, hacked⟩,
            fun _ => rfl, fun pool hpool => ?_, fun hended => by cases hended⟩
          cases hpool
          refine ⟨Pool.sound_new _ _ (.inr rfl), rfl, fun hjobs => staffed_new ?_ hjobs⟩
          rw [UploadSessionOptions.replicaConcurrency]
          cases hc : o.replicaAsyncConcurrency with
          | none => decide
          | some concurrency =>
            rw [hc] at hconcurrency
            exact Nat.pos_of_ne_zero fun h0 => hconcurrency (congrArg some h0)

/-- The phase in which the replica workers have ended may be any of the three. -/
theorem Consistent.ended (h : Consistent uploads reply st) (hresolved : st.phase.hasResolved)
    {phase : Phase} (hended : phase.replicasEnded)
    (hdone : ∀ pool, st.replica = some pool → pool.nextIndex = pool.jobs.length ∧
      ∀ job ∈ pool.jobs, job ∈ pool.acknowledged ∨ job ∈ pool.gaveUp) (registry : Db) :
    Consistent uploads reply { st with phase, registry } where
  sound := h.sound
  stops := h.stops
  staffed := h.staffed
  planned _ := h.planned (ne_rejected_of_hasResolved hresolved)
  uploaded _ := h.uploaded hresolved
  started _ := hasResolved_of_replicasEnded hended
  replica := h.replica
  replicated _ := hdone

theorem consistent_replicaEnded (h : Consistent uploads reply st) :
    Consistent uploads reply (replicaEnded st) := by
  rw [replicaEnded]
  split
  case h_2 => exact h
  case h_1 pool hpool =>
    split
    case isFalse => exact h
    case isTrue hended =>
      obtain ⟨hphase, hreturned⟩ := hended
      obtain ⟨hsound, hjobs, hstaffed⟩ := h.replica pool hpool
      refine h.ended (by rw [hphase]; rfl) ?_ (fun later hlater => ?_) st.registry
      · split <;> rfl
      · rw [hpool] at hlater
        cases hlater
        exact hsound.finished hreturned hstaffed

theorem consistent_abandonHandled (h : Consistent uploads reply st) (answered : Bool) :
    Consistent uploads reply (abandonHandled answered st) := by
  rw [abandonHandled]
  split
  case h_2 => exact h
  case h_1 pool hpool =>
    split
    case isFalse => exact h
    case isTrue hphase =>
      have hended : st.phase.replicasEnded := by rw [hphase]; rfl
      have hresolved := hasResolved_of_replicasEnded hended
      split
      · refine h.ended hresolved ?_ (h.replicated hended) _
        split <;> rfl
      · exact h.ended hresolved rfl (h.replicated hended) _

theorem consistent_next (hconcurrency : o.replicaAsyncConcurrency ≠ some 0) (e : Event)
    (h : Consistent uploads reply st) : Consistent uploads reply (next o probe uploads st e) := by
  cases e with
  | slot i =>
    exact consistent_primary h (Pool.sound_slot _ _ h.sound i) (Pool.stops_slot _ _ h.stops i)
      (Pool.extends_slot ..)
  | take i =>
    exact consistent_primary h (Pool.sound_take _ h.sound i) (Pool.stops_take _ h.stops i)
      (Pool.extends_take ..)
  | put i outcome =>
    exact consistent_primary h (Pool.sound_put h.sound i (.inl rfl) (.inl rfl) outcome)
      (Pool.stops_put h.stops i outcome) (Pool.extends_put ..)
  | primaryEnded => exact consistent_primaryEnded hconcurrency h
  | takeReplica i =>
    exact consistent_replica h (fun pool hs => Pool.sound_take _ hs i) fun pool => Pool.extends_take ..
  | putReplica i outcome =>
    exact consistent_replica h (fun pool hs => Pool.sound_put hs i (.inr rfl) (.inr rfl) outcome)
      fun pool => Pool.extends_put ..
  | replicaEnded => exact consistent_replicaEnded h
  | abandon answered => exact consistent_abandonHandled h answered
  | abandonLost =>
    rw [next]
    split
    case isTrue hphase =>
      have hended : st.phase.replicasEnded := by rw [hphase]; rfl
      exact h.ended (hasResolved_of_replicasEnded hended) rfl (h.replicated hended) st.registry
    case isFalse => exact h
  | others registry =>
    exact ⟨h.sound, h.stops, h.staffed, h.planned, h.uploaded, h.started, h.replica, h.replicated⟩

/-- No other client touches the rows of these tokens. -/
def Untouched (uploads : UploadMap) (st : UploadState) : Event → Prop
  | .others registry => ∀ token, (uploads.find token).isSome → ∀ relayId,
      registry.placements.find (token, relayId) = st.registry.placements.find (token, relayId)
  | _ => True

/-- The reply names every replica that the registry has for these tokens, which it keeps normalized. -/
def NamesReplicas (uploads : UploadMap) (reply : Except JsExn ReserveReply) (registry : Db) : Prop :=
  ∀ token, (uploads.find token).isSome → ∀ relayId row,
    registry.placements.find (token, relayId) = some row → row.role = .replica →
      normalizeToken token = .ok token ∧
      ∃ target ∈ replyTargets reply token, target.relayId = relayId ∧ target.role = .replica

/-- The block's `PUT` to this replica, at the address that the reply has for it, was acknowledged. -/
def ReplicaAcknowledged (reply : Except JsExn ReserveReply) (st : UploadState) (token : Str)
    (blob : Bytes) (relayId : Str) : Prop :=
  ∃ pool, st.replica = some pool ∧ ∃ target ∈ replyTargets reply token,
    target.relayId = relayId ∧ target.role = .replica ∧
    ⟨token, relayId, blob, endpointFromBase target.relayBaseUrl token⟩ ∈ pool.acknowledged

/-- The replicas that the registry still has are at their relays. -/
def ReplicasStored (uploads : UploadMap) (reply : Except JsExn ReserveReply) (st : UploadState) : Prop :=
  ∀ token blob, uploads.find token = some blob → ∀ relayId row,
    st.registry.placements.find (token, relayId) = some row → row.role = .replica →
      ReplicaAcknowledged reply st token blob relayId

/-- The registry's side: no row comes up, and no primary goes. -/
structure Kept (uploads : UploadMap) (reserved registry : Db) : Prop where
  rows : ∀ token, (uploads.find token).isSome → ∀ relayId row,
    registry.placements.find (token, relayId) = some row →
      reserved.placements.find (token, relayId) = some row
  primaries : ∀ token, (uploads.find token).isSome → ∀ relayId row,
    reserved.placements.find (token, relayId) = some row → row.role = .primary →
      registry.placements.find (token, relayId) = some row

structure Recorded (uploads : UploadMap) (reply : Except JsExn ReserveReply) (reserved : Db)
    (st : UploadState) : Prop where
  kept : Kept uploads reserved st.registry
  synced : NamesReplicas uploads reply reserved → st.phase = .synced → ReplicasStored uploads reply st

theorem kept_abandonRows {registry : Db} (h : Kept uploads reserved registry)
    (keys : List (Str × Str)) : Kept uploads reserved (abandonRows keys registry) where
  rows token htoken relayId row hrow :=
    h.rows token htoken relayId row (find_abandonRows.mp hrow).1
  primaries token htoken relayId row hrow hrole := by
    refine find_abandonRows.mpr ⟨h.primaries token htoken relayId row hrow hrole, fun hgone => ?_⟩
    rw [hrole] at hgone
    cases hgone.2

/-- A replica that the registry has is one of the jobs. -/
theorem replica_job (h : Consistent uploads reply st) (hkept : Kept uploads reserved st.registry)
    (hnames : NamesReplicas uploads reply reserved) (hphase : st.phase ≠ .rejected)
    {token relayId : Str} {blob : Bytes} {row : PlacementRow} (hblob : uploads.find token = some blob)
    (hrow : st.registry.placements.find (token, relayId) = some row) (hrole : row.role = .replica) :
    normalizeToken token = .ok token ∧ ∃ target ∈ replyTargets reply token,
      target.relayId = relayId ∧ target.role = .replica ∧
      ⟨token, relayId, blob, endpointFromBase target.relayBaseUrl token⟩ ∈
        collectReplicaJobs uploads st.plan.routes := by
  have htoken : (uploads.find token).isSome := by rw [hblob]; rfl
  obtain ⟨hnormalized, target, htarget, rfl, htargetRole⟩ :=
    hnames token htoken relayId row (hkept.rows token htoken relayId row hrow) hrole
  obtain ⟨hroutes, -⟩ := (h.planned hphase).2 token blob hblob
  exact ⟨hnormalized, target, htarget, rfl, htargetRole,
    mem_collectReplicaJobs hblob hroutes htarget htargetRole⟩

theorem mem_failures {pool : Pool ReplicaReplicationJob} {job : ReplicaReplicationJob}
    (h : job ∈ pool.gaveUp) : (job.token, job.relayId) ∈ failures pool :=
  List.mem_map.mpr ⟨job, h, rfl⟩

/-- The keys of the report are those that the client means. -/
theorem normalized_failures {pool : Pool ReplicaReplicationJob} {keys : List (Str × Str)}
    {job : ReplicaReplicationJob} (hkeys : (failures pool).mapM normalizeFailure = .ok keys)
    (hjob : job ∈ pool.gaveUp) (hnormalized : normalizeToken job.token = .ok job.token) :
    (job.token, job.relayId) ∈ keys := by
  obtain ⟨key, hkey, hf⟩ := mem_mapM_ok hkeys (mem_failures hjob)
  rw [normalizeFailure] at hf
  split at hf
  case isTrue => cases hf
  case isFalse =>
    rw [hnormalized] at hf
    cases hf
    exact hkey

/-- A step that leaves the registry and comes to no `synced` of its own. -/
theorem Recorded.unsynced (h : Recorded uploads reply reserved st) {later : UploadState}
    (hregistry : later.registry = st.registry) (hphase : later.phase ≠ .synced) :
    Recorded uploads reply reserved later :=
  ⟨by rw [hregistry]; exact h.kept, fun _ hsynced => absurd hsynced hphase⟩

theorem recorded_replica (h : Recorded uploads reply reserved st)
    {f : Pool ReplicaReplicationJob → Pool ReplicaReplicationJob}
    (hextends : ∀ pool, Pool.Extends pool (f pool)) :
    Recorded uploads reply reserved { st with replica := st.replica.map f } where
  kept := h.kept
  synced hnames hphase token blob hblob relayId row hrow hrole := by
    obtain ⟨pool, hpool, target, htarget, hid, htargetRole, hacked⟩ :=
      h.synced hnames hphase token blob hblob relayId row hrow hrole
    have hmap : st.replica.map f = some (f pool) := by rw [hpool, Option.map_some]
    exact ⟨f pool, hmap, target, htarget, hid, htargetRole, (hextends pool).acknowledged hacked⟩

theorem recorded_primaryEnded (h : Recorded uploads reply reserved st) :
    Recorded uploads reply reserved (primaryEnded o uploads st) := by
  rw [primaryEnded]
  split
  case isTrue => exact h
  case isFalse =>
    split
    case isTrue => exact h.unsynced rfl Phase.noConfusion
    case isFalse =>
      split
      case isFalse => exact h
      case isTrue =>
        split
        · exact h.unsynced rfl Phase.noConfusion
        · exact h.unsynced rfl Phase.noConfusion

theorem recorded_replicaEnded (hclient : Consistent uploads reply st)
    (h : Recorded uploads reply reserved st) : Recorded uploads reply reserved (replicaEnded st) := by
  rw [replicaEnded]
  split
  case h_2 => exact h
  case h_1 pool hpool =>
    split
    case isFalse => exact h
    case isTrue hended =>
      obtain ⟨hphase, hreturned⟩ := hended
      obtain ⟨hsound, hjobs, hstaffed⟩ := hclient.replica pool hpool
      obtain ⟨-, hdone⟩ := hsound.finished hreturned hstaffed
      refine ⟨h.kept, fun hnames hsynced token blob hblob relayId row hrow hrole => ?_⟩
      obtain ⟨-, target, htarget, hid, htargetRole, hjob⟩ := replica_job hclient h.kept hnames
        (by rw [hphase]; exact Phase.noConfusion) hblob hrow hrole
      rw [← hjobs] at hjob
      refine ⟨pool, hpool, target, htarget, hid, htargetRole, ?_⟩
      refine (hdone _ hjob).resolve_right fun hgave => ?_
      -- One that was given up would have been reported.
      dsimp only at hsynced
      split at hsynced
      case isTrue hnil =>
        have hm := mem_failures hgave
        rw [hnil] at hm
        cases hm
      case isFalse => cases hsynced

theorem recorded_abandonHandled (hclient : Consistent uploads reply st)
    (h : Recorded uploads reply reserved st) (answered : Bool) :
    Recorded uploads reply reserved (abandonHandled answered st) := by
  rw [abandonHandled]
  split
  case h_2 => exact h
  case h_1 pool hpool =>
    split
    case isFalse => exact h
    case isTrue hphase =>
      have hended : st.phase.replicasEnded := by rw [hphase]; rfl
      obtain ⟨-, hjobs, -⟩ := hclient.replica pool hpool
      obtain ⟨-, hdone⟩ := hclient.replicated hended pool hpool
      rcases abandonReplicas_cases (failures pool) st.registry with
        ⟨e, hrun⟩ | ⟨keys, removed, hkeys, hrun⟩
      · rw [hrun]
        exact h.unsynced rfl Phase.noConfusion
      · rw [hrun]
        refine ⟨kept_abandonRows h.kept keys, fun hnames _ token blob hblob relayId row hrow hrole => ?_⟩
        obtain ⟨hbefore, hleft⟩ := find_abandonRows.mp hrow
        obtain ⟨hnormalized, target, htarget, hid, htargetRole, hjob⟩ := replica_job hclient h.kept
          hnames (ne_rejected_of_hasResolved (hasResolved_of_replicasEnded hended)) hblob hbefore hrole
        rw [← hjobs] at hjob
        refine ⟨pool, hpool, target, htarget, hid, htargetRole, ?_⟩
        refine (hdone _ hjob).resolve_right fun hgave => ?_
        exact hleft ⟨normalized_failures hkeys hgave hnormalized, hrole⟩

theorem recorded_others (h : Recorded uploads reply reserved st) {registry : Db}
    (huntouched : Untouched uploads st (.others registry)) :
    Recorded uploads reply reserved { st with registry } where
  kept :=
    { rows := fun token htoken relayId row hrow =>
        h.kept.rows token htoken relayId row ((huntouched token htoken relayId).symm.trans hrow)
      primaries := fun token htoken relayId row hrow hrole =>
        (huntouched token htoken relayId).trans (h.kept.primaries token htoken relayId row hrow hrole) }
  synced hnames hphase token blob hblob relayId row hrow hrole := by
    have htoken : (uploads.find token).isSome := by rw [hblob]; rfl
    exact h.synced hnames hphase token blob hblob relayId row
      ((huntouched token htoken relayId).symm.trans hrow) hrole

theorem recorded_next (e : Event) (hclient : Consistent uploads reply st)
    (h : Recorded uploads reply reserved st) (huntouched : Untouched uploads st e) :
    Recorded uploads reply reserved (next o probe uploads st e) := by
  cases e with
  | slot i => exact ⟨h.kept, h.synced⟩
  | take i => exact ⟨h.kept, h.synced⟩
  | put i outcome => exact ⟨h.kept, h.synced⟩
  | primaryEnded => exact recorded_primaryEnded h
  | takeReplica i => exact recorded_replica h fun pool => Pool.extends_take ..
  | putReplica i outcome => exact recorded_replica h fun pool => Pool.extends_put ..
  | replicaEnded => exact recorded_replicaEnded hclient h
  | abandon answered => exact recorded_abandonHandled hclient h answered
  | abandonLost =>
    rw [next]
    split
    case isTrue => exact h.unsynced rfl Phase.noConfusion
    case isFalse => exact h
  | others registry => exact recorded_others h huntouched

/-- The block's `PUT` to the primary that the reply named was acknowledged. -/
def PrimaryAcknowledged (reply : Except JsExn ReserveReply) (st : UploadState) (token : Str)
    (blob : Bytes) : Prop :=
  ∃ target, primaryOf (replyTargets reply token) = some target ∧
    ⟨token, blob, some (endpointFromBase target.relayBaseUrl token)⟩ ∈ st.primary.acknowledged

/-- A replica `PUT` has been started when there is a pool for them. -/
structure Truthful (uploads : UploadMap) (reply : Except JsExn ReserveReply) (st : UploadState) :
    Prop where
  resolved : st.phase.hasResolved → ∀ token blob, uploads.find token = some blob →
    PrimaryAcknowledged reply st token blob
  replicaAfter : st.replica ≠ none → ∀ token blob, uploads.find token = some blob →
    PrimaryAcknowledged reply st token blob
  primaryOnce : ∀ index, st.primary.takes index ≤ 1
  primaryTaken : st.phase.hasResolved → ∀ index < uploads.entries.length, st.primary.takes index = 1
  replicaOnce : ∀ pool, st.replica = some pool → ∀ index, pool.takes index ≤ 1
  replicaTaken : st.phase.replicasEnded → ∀ pool, st.replica = some pool →
    pool.jobs = collectReplicaJobs uploads st.plan.routes ∧
    ∀ index < pool.jobs.length, pool.takes index = 1

theorem Consistent.acknowledged (h : Consistent uploads reply st)
    (hresolved : st.phase.hasResolved) {token : Str} {blob : Bytes}
    (hblob : uploads.find token = some blob) : PrimaryAcknowledged reply st token blob := by
  obtain ⟨hjobs, hrouted⟩ := h.planned (ne_rejected_of_hasResolved hresolved)
  obtain ⟨-, primary, hprimary, hendpoint⟩ := hrouted token blob hblob
  refine ⟨primary, hprimary, (h.uploaded hresolved).2 _ ?_⟩
  rw [hjobs, ← hendpoint]
  exact List.mem_map.mpr ⟨(token, blob), Table.find_eq_some.mp hblob, rfl⟩

theorem Consistent.truthful (h : Consistent uploads reply st) : Truthful uploads reply st where
  resolved hresolved token blob hblob := h.acknowledged hresolved hblob
  replicaAfter hreplica token blob hblob := h.acknowledged (h.started hreplica) hblob
  primaryOnce := h.sound.takes_le
  primaryTaken hresolved index hindex := by
    rw [h.sound.takes_eq, if_pos]
    rw [(h.uploaded hresolved).1, (h.planned (ne_rejected_of_hasResolved hresolved)).1, primaryJobs,
      List.length_map]
    exact hindex
  replicaOnce pool hpool := (h.replica pool hpool).1.takes_le
  replicaTaken hended pool hpool := by
    obtain ⟨hsound, hjobs, -⟩ := h.replica pool hpool
    refine ⟨hjobs, fun index hindex => ?_⟩
    rw [hsound.takes_eq, if_pos]
    rw [(h.replicated hended pool hpool).1]
    exact hindex

/-- What `replicaSync` promises of the registry. -/
structure RegistryTruthful (uploads : UploadMap) (reply : Except JsExn ReserveReply) (reserved : Db)
    (st : UploadState) : Prop where
  replicasStored : NamesReplicas uploads reply reserved → st.phase = .synced →
    ReplicasStored uploads reply st
  primariesKept : ∀ token, (uploads.find token).isSome → ∀ relayId row,
    reserved.placements.find (token, relayId) = some row → row.role = .primary →
      st.registry.placements.find (token, relayId) = some row

/-- What the registry replies itself names all it has. -/
theorem namesReplicas_reserveReply {env : Env} {s : Db} {ttlSeconds : Option Int}
    {hashes : List (Str × Str)} (hreply : reserveReply env hashes ttlSeconds s = (reply, reserved))
    (h : (uploadPrepared o probe uploads hashes reply reserved).phase ≠ .rejected) :
    NamesReplicas uploads reply reserved := by
  intro token htoken relayId row hrow hrole
  obtain ⟨blob, hblob⟩ := Option.isSome_iff_exists.mp htoken
  rw [uploadPrepared] at h
  split at h
  case isTrue hnil =>
    have hm := Table.find_eq_some.mp hblob
    rw [hnil] at hm
    cases hm
  case isFalse =>
    split at h
    case isTrue => exact absurd rfl h
    case isFalse =>
      split at h
      case h_1 => exact absurd rfl h
      case h_2 plan hplan =>
        obtain ⟨-, primary, hprimary, -⟩ := reserveAndRegister_ok hplan hblob
        have hne : replyTargets reply token ≠ [] := by
          intro hnil
          rw [hnil] at hprimary
          cases hprimary
        obtain ⟨hnormalized, htargets⟩ := reserveReply_targets hreply hne
        obtain ⟨target, htarget, hid, htargetRole⟩ := mem_routedTargets hrow
        rw [htargets]
        exact ⟨hnormalized, target, htarget, hid, htargetRole.trans hrole⟩

/-- However the workers are scheduled, whatever becomes of each `PUT` and whatever the registry has
replied; the reply of the registry itself names the replicas that it has. -/
theorem upload_truthful (o : UploadSessionOptions) (probe : Probe) (uploads : UploadMap)
    (hashes : List (Str × Str)) (reply : Except JsExn ReserveReply) (registry : Db)
    (hprimary : o.concurrency ≠ some 0) (hreplica : o.replicaAsyncConcurrency ≠ some 0)
    (events : List Event) :
    Truthful uploads reply
      (exec (next o probe uploads) (uploadPrepared o probe uploads hashes reply registry) events) ∧
    (Along (next o probe uploads) (Untouched uploads)
        (uploadPrepared o probe uploads hashes reply registry) events →
      RegistryTruthful uploads reply registry
        (exec (next o probe uploads) (uploadPrepared o probe uploads hashes reply registry) events)) ∧
    ∀ env s, reserveReply env hashes o.ttlSeconds s = (reply, registry) →
      (uploadPrepared o probe uploads hashes reply registry).phase ≠ .rejected →
        NamesReplicas uploads reply registry := by
  have hbegin : Consistent uploads reply (uploadPrepared o probe uploads hashes reply registry) :=
    consistent_uploadPrepared hprimary hashes reply registry
  refine ⟨?_, fun huntouched => ?_, fun env s hreply h => namesReplicas_reserveReply hreply h⟩
  · have hstep : ∀ st e, Consistent uploads reply st → True →
        Consistent uploads reply (next o probe uploads st e) := fun st e h _ =>
      consistent_next hreplica e h
    exact (exec_invariant hstep hbegin (along_of_forall (fun _ _ => trivial) _ events)).truthful
  · have hstep : ∀ st e, Consistent uploads reply st ∧ Recorded uploads reply registry st →
        Untouched uploads st e → Consistent uploads reply (next o probe uploads st e) ∧
          Recorded uploads reply registry (next o probe uploads st e) := fun st e h hu =>
      ⟨consistent_next hreplica e h.1, recorded_next e h.1 h.2 hu⟩
    have hstart : Recorded uploads reply registry
        (uploadPrepared o probe uploads hashes reply registry) := by
      refine ⟨?_, fun _ hsynced => ?_⟩
      · rw [uploadPrepared_registry]
        exact ⟨fun _ _ _ _ h => h, fun _ _ _ _ h _ => h⟩
      · have hended : (uploadPrepared o probe uploads hashes reply registry).phase.replicasEnded = false :=
          uploadPrepared_replicasEnded hashes registry
        rw [hsynced] at hended
        cases hended
    have hend := (exec_invariant hstep ⟨hbegin, hstart⟩ huntouched).2
    exact ⟨hend.synced, hend.kept.primaries⟩

def firstUpload : Str := List.replicate 64 97
def secondUpload : Str := List.replicate 64 98

def sampleUploads : UploadMap := ⟨[(firstUpload, [1]), (secondUpload, [2])], by decide⟩

def sampleHashes : List (Str × Str) :=
  [(firstUpload, List.replicate 64 48), (secondUpload, List.replicate 64 49)]

/-- One worker of each kind, and one attempt at each block. -/
def sampleOptions : UploadSessionOptions :=
  { concurrency := some 1, putMaxAttempts := some 1, putTransientMaxAttempts := some 1,
    replicaPutMaxAttempts := some 1, replicaAsyncConcurrency := some 1, ttlSeconds := none,
    stripeRampConcurrency := none, wireBlockBytes := none }

def sampleProbe : Probe := ⟨false, .unknown⟩

def otherRelay : Str := ascii "relay-b"
def otherUrl : Str := ascii "http://b.test"

/-- Each block has its primary on one relay and a replica on the other. -/
def sampleTargets : List RelayTarget :=
  [⟨.primary, Rejections.sampleRelay, Rejections.sampleUrl⟩, ⟨.replica, otherRelay, otherUrl⟩]

def sampleReply : Except JsExn ReserveReply :=
  .ok ⟨[⟨firstUpload, sampleTargets⟩, ⟨secondUpload, sampleTargets⟩], some 2⟩

def sampleRow (role : Role) (relayBaseUrl : Str) : PlacementRow :=
  { registeredRelayBaseUrl := relayBaseUrl, role, blockHash := List.replicate 64 48, expiryAt := 9000,
    updatedAt := 2000 }

def sampleRegistry : Db :=
  { Rejections.sampleDb with
    placements := ⟨[((firstUpload, Rejections.sampleRelay), sampleRow .primary Rejections.sampleUrl),
      ((firstUpload, otherRelay), sampleRow .replica otherUrl),
      ((secondUpload, Rejections.sampleRelay), sampleRow .primary Rejections.sampleUrl),
      ((secondUpload, otherRelay), sampleRow .replica otherUrl)], by decide⟩ }

def sampleStart : UploadState :=
  uploadPrepared sampleOptions sampleProbe sampleUploads sampleHashes sampleReply sampleRegistry

/-- The only worker fails on the first block. -/
def firstFails : UploadState :=
  exec (next sampleOptions sampleProbe sampleUploads) sampleStart
    [.slot 0, .take 0, .put 0 (.error .other), .primaryEnded]

/-- Workers that have failed do nothing any more. -/
theorem Pool.failed_stays {α : Type} {pool : Pool α} (h : pool.workers = [.failed]) (i : Nat) :
    (∀ concurrency ramp, pool.slot concurrency ramp i = pool) ∧
    (∀ hasEndpoint, pool.take hasEndpoint i = pool) ∧
    ∀ policy resume exhausted outcome, pool.put policy resume exhausted i outcome = pool := by
  have hworker : ∀ worker, pool.workers[i]? = some worker → worker = .failed := by
    intro worker hw
    have hm := List.mem_of_getElem? hw
    rw [h] at hm
    exact List.mem_singleton.mp hm
  refine ⟨fun concurrency ramp => ?_, fun hasEndpoint => ?_, fun policy resume exhausted outcome => ?_⟩
  · rw [Pool.slot, if_neg]
    rintro ⟨hpolling, -⟩
    cases hworker _ hpolling
  · rw [Pool.take, if_neg]
    intro hready
    cases hworker _ hready
  · rw [Pool.put]
    split
    case h_1 index attempt hputting => cases hworker _ hputting
    case h_2 => rfl

theorem next_of_failed {o : UploadSessionOptions} {probe : Probe} {uploads : UploadMap}
    {st : UploadState} (h : st.primary.workers = [.failed]) (e : Event) :
    (next o probe uploads st e).primary = st.primary := by
  cases e with
  | slot i => exact (Pool.failed_stays h i).1 _ _
  | take i => exact (Pool.failed_stays h i).2.1 _
  | put i outcome => exact (Pool.failed_stays h i).2.2 _ _ _ outcome
  | primaryEnded =>
    simp only [next, primaryEnded]
    repeat' split
    all_goals rfl
  | replicaEnded =>
    simp only [next, replicaEnded]
    repeat' split
    all_goals rfl
  | abandon answered =>
    simp only [next, abandonHandled]
    repeat' split
    all_goals rfl
  | abandonLost =>
    simp only [next]
    split <;> rfl
  | takeReplica i => rfl
  | putReplica i outcome => rfl
  | others registry => rfl

/-- The second block is never taken. -/
theorem firstFails_untaken (events : List Event) :
    (exec (next sampleOptions sampleProbe sampleUploads) firstFails events).primary.takes 1 = 0 := by
  have hworkers : firstFails.primary.workers = [.failed] := by decide +kernel
  have huntaken : firstFails.primary.takes 1 = 0 := by decide +kernel
  have hstep : ∀ (st : UploadState) (e : Event), st.primary = firstFails.primary → True →
      (next sampleOptions sampleProbe sampleUploads st e).primary = firstFails.primary := by
    intro st e hst _
    rw [next_of_failed (by rw [hst, hworkers]) e, hst]
  have hend := exec_invariant hstep rfl (along_of_forall (fun _ _ => trivial) firstFails events)
  rw [hend, huntaken]

/-- A reply that leaves the replica of the second block out. -/
def shortReply : Except JsExn ReserveReply :=
  .ok ⟨[⟨firstUpload, sampleTargets⟩,
    ⟨secondUpload, [⟨.primary, Rejections.sampleRelay, Rejections.sampleUrl⟩]⟩], some 2⟩

/-- Every `PUT` succeeds, and the replicas that the reply names are done. -/
def shortEnd : UploadState :=
  exec (next sampleOptions sampleProbe sampleUploads)
    (uploadPrepared sampleOptions sampleProbe sampleUploads sampleHashes shortReply sampleRegistry)
    [.slot 0, .take 0, .put 0 (.ok ()), .slot 0, .take 0, .put 0 (.ok ()), .slot 0, .take 0,
      .primaryEnded, .takeReplica 0, .putReplica 0 (.ok ()), .takeReplica 0, .replicaEnded]

/-- A block that no worker takes any more, and a replica that the registry has and no worker knows of. -/
theorem untaken_and_unnamed :
    (firstFails.phase = .rejected ∧ firstFails.primary.jobs.length = 2 ∧
      ¬ ∃ events, (exec (next sampleOptions sampleProbe sampleUploads) firstFails events).primary.takes 1 =
        1) ∧
    (shortEnd.phase = .synced ∧
      shortEnd.registry.placements.find (secondUpload, otherRelay) = some (sampleRow .replica otherUrl) ∧
      (shortEnd.replica.map fun pool => pool.acknowledged.map fun job => job.token) =
        some [firstUpload]) := by
  refine ⟨⟨by decide +kernel, by decide +kernel, ?_⟩, by decide +kernel, by decide +kernel,
    by decide +kernel⟩
  rintro ⟨events, htaken⟩
  rw [firstFails_untaken events] at htaken
  cases htaken

/-- The worker comes back for the second block; one replica fails, and the registry forgets it. -/
def oneByOne : List Event :=
  [.slot 0, .others { sampleRegistry with now := 2001 }, .take 0, .put 0 (.ok ()), .slot 0, .take 0,
    .put 0 (.ok ()), .slot 0, .take 0, .primaryEnded, .takeReplica 0, .putReplica 0 (.ok ()),
    .takeReplica 0, .putReplica 0 (.error .other), .takeReplica 0, .replicaEnded, .abandon true]

def sampleEnd : UploadState := exec (next sampleOptions sampleProbe sampleUploads) sampleStart oneByOne

theorem namesReplicas_sample : NamesReplicas sampleUploads sampleReply sampleRegistry := by
  intro token htoken relayId row hrow hrole
  have hm := Table.find_eq_some.mp hrow
  simp only [sampleRegistry, List.mem_cons, List.not_mem_nil, or_false, Prod.mk.injEq] at hm
  rcases hm with ⟨⟨rfl, rfl⟩, rfl⟩ | ⟨⟨rfl, rfl⟩, rfl⟩ | ⟨⟨rfl, rfl⟩, rfl⟩ | ⟨⟨rfl, rfl⟩, rfl⟩
  · cases hrole
  · exact ⟨by decide +kernel, ⟨.replica, otherRelay, otherUrl⟩, by decide +kernel, rfl, rfl⟩
  · cases hrole
  · exact ⟨by decide +kernel, ⟨.replica, otherRelay, otherUrl⟩, by decide +kernel, rfl, rfl⟩

theorem upload_truthful_one_by_one :
    sampleEnd.phase = .synced ∧
    (sampleEnd.registry.placements.find (firstUpload, otherRelay)).isSome ∧
    sampleEnd.registry.placements.find (secondUpload, otherRelay) = none ∧
    Truthful sampleUploads sampleReply sampleEnd ∧
    RegistryTruthful sampleUploads sampleReply sampleRegistry sampleEnd ∧
    ReplicasStored sampleUploads sampleReply sampleEnd := by
  have hsynced : sampleEnd.phase = .synced := by decide +kernel
  have hrun := upload_truthful sampleOptions sampleProbe sampleUploads sampleHashes sampleReply
    sampleRegistry (by decide) (by decide) oneByOne
  have huntouched : Along (next sampleOptions sampleProbe sampleUploads) (Untouched sampleUploads)
      sampleStart oneByOne :=
    ⟨trivial, fun _ _ _ => rfl, trivial, trivial, trivial, trivial, trivial, trivial, trivial, trivial,
      trivial, trivial, trivial, trivial, trivial, trivial, trivial, trivial⟩
  have hkept := hrun.2.1 huntouched
  exact ⟨hsynced, by decide +kernel, by decide +kernel, hrun.1, hkept,
    hkept.replicasStored namesReplicas_sample hsynced⟩

end TwelveC.Client
