import TwelveC.Python
import TwelveC.Relay.BlockAuth
import Mathlib.Data.List.Dedup

/-!
# Placement planning

`placement.py` chooses how many relays an upload is striped over and assigns its
blocks to them; `placement_ttl.py` decides before that how long they may live.
-/

namespace TwelveC.Registry.Scheduling

open Relay.BlockAuth

/-- A candidate relay for upload placement. -/
structure HealthyRelay where
  relayId : Str
  relayBaseUrl : Str
  storageRate : Rat
  blockMaxAgeSeconds : Int
  blockSweepIntervalSeconds : Int
  deriving DecidableEq, Repr

structure PlacementPolicy where
  stripeTargetRelays : Int
  maxFileReplicaCount : Int
  maxReplicasPerBlock : Int
  minGrantTtlSeconds : Int
  clockSkewSeconds : Int
  maxRequestedTtlSeconds : Int
  ttlDegradeStepDivisor : Int
  deriving DecidableEq, Repr

/-- Stripe width S and file-level replica factor R. -/
structure StripeReplicaChoice where
  stripeCount : Int
  replicaFactor : Int
  deriving DecidableEq, Repr

/-- `range(n, 0, -1)` -/
def countdown : Nat → List Int
  | 0 => []
  | n + 1 => ((n + 1 : Nat) : Int) :: countdown n

/-- The variables of the loop of `choose_stripe_replica`. -/
structure Best where
  s : Int
  r : Int
  score : Int
  deriving DecidableEq, Repr

/-- One stripe width; the divisor is positive. -/
def consider (healthyCount maxFileReplicaCount : Int) (best : Best) (s : Int) : Best :=
  if healthyCount < s then best
  else
    let r := min maxFileReplicaCount (max 0 ((healthyCount - s) / s))
    let score := s * (1 + r)
    if best.score < score ∨ (score = best.score ∧ best.s < s) then ⟨s, r, score⟩ else best

def chooseStripeReplica (blockCount healthyCount stripeTargetRelays maxFileReplicaCount : Int) :
    StripeReplicaChoice :=
  let sMax := min (min stripeTargetRelays blockCount) healthyCount
  if sMax < 1 then ⟨1, 0⟩
  else
    let best := (countdown sMax.toNat).foldl (consider healthyCount maxFileReplicaCount) ⟨1, 0, 1⟩
    ⟨best.s, best.r⟩

/-- How many replicas a block gets besides its primary. -/
def replicaCountPerBlock (replicaFactor maxReplicasPerBlock : Int) : Int :=
  if replicaFactor ≤ 0 then 0 else min replicaFactor (maxReplicasPerBlock - 1)

/-- `a % b` -/
def pyMod (a b : Int) : Except PyExn Int :=
  if b = 0 then .error .zeroDivisionError else .ok (a.fmod b)

/-- `values[index]`, a negative index counting from the end. -/
def pyIndex {α : Type} (values : List α) (index : Int) : Except PyExn α :=
  match values[(if index < 0 then index + values.length else index).toNat]? with
  | some value => if index < -values.length then .error .indexError else .ok value
  | none => .error .indexError

inductive Role where
  | primary
  | replica
  deriving DecidableEq, Repr

/-- One token on one relay. -/
structure PlannedPlacement where
  token : Str
  blockHash : Str
  relayId : Str
  relayBaseUrl : Str
  role : Role
  deriving DecidableEq, Repr

def planned (entry : Str × Str) (relay : HealthyRelay) (role : Role) : PlannedPlacement :=
  { token := entry.1, blockHash := entry.2, relayId := relay.relayId,
    relayBaseUrl := rstripSlash relay.relayBaseUrl, role }

def primaryPool (choice : StripeReplicaChoice) (healthy : List HealthyRelay) : List HealthyRelay :=
  healthy.take choice.stripeCount.toNat

def replicaPool (choice : StripeReplicaChoice) (healthy : List HealthyRelay) : List HealthyRelay :=
  if 0 < choice.replicaFactor then
    (healthy.drop choice.stripeCount.toNat).take (choice.stripeCount * choice.replicaFactor).toNat
  else []

/-- The replica pool is rotated from token to token. -/
def planReplicas (pool : List HealthyRelay) (replicasPerBlock : Int) (index : Nat) :
    Except PyExn (List HealthyRelay) :=
  if 0 < replicasPerBlock ∧ pool ≠ [] then
    (List.range replicasPerBlock.toNat).mapM fun replicaIndex => do
      let position ← pyMod ((index + replicaIndex : Nat) : Int) pool.length
      pyIndex pool position
  else .ok []

/-- The rows of token `index`. -/
def planToken (choice : StripeReplicaChoice) (healthy : List HealthyRelay) (replicasPerBlock : Int)
    (index : Nat) (entry : Str × Str) : Except PyExn (List PlannedPlacement) := do
  let position ← pyMod index choice.stripeCount
  let primary ← pyIndex (primaryPool choice healthy) position
  let replicas ← planReplicas (replicaPool choice healthy) replicasPerBlock index
  return planned entry primary .primary :: replicas.map fun replica => planned entry replica .replica

/-- The first S relays form the primary pool, the next S·R the replica pool. -/
def planTokenPlacements (entries : List (Str × Str)) (healthy : List HealthyRelay)
    (stripeTargetRelays maxFileReplicaCount maxReplicasPerBlock : Int) :
    Except PyExn (StripeReplicaChoice × List PlannedPlacement) :=
  if entries = [] then .ok (⟨1, 0⟩, [])
  else if healthy = [] then .error (.valueError "no healthy relay available for placement")
  else do
    let choice := chooseStripeReplica entries.length healthy.length stripeTargetRelays
      maxFileReplicaCount
    let replicasPerBlock := replicaCountPerBlock choice.replicaFactor maxReplicasPerBlock
    let rows ← (entries.zipIdx).mapM fun e => planToken choice healthy replicasPerBlock e.2 e.1
    return (choice, rows.flatten)

theorem pyIndex_mem {α : Type} {values : List α} {index : Int} {value : α}
    (h : pyIndex values index = .ok value) : value ∈ values := by
  rw [pyIndex] at h
  split at h
  case h_1 found hget =>
    split at h
    · cases h
    · cases h
      exact List.mem_of_getElem? hget
  case h_2 => cases h

theorem primaryPool_subset (choice : StripeReplicaChoice) (healthy : List HealthyRelay) :
    primaryPool choice healthy ⊆ healthy := List.take_subset _ _

theorem replicaPool_subset (choice : StripeReplicaChoice) (healthy : List HealthyRelay) :
    replicaPool choice healthy ⊆ healthy := by
  rw [replicaPool]
  split
  · exact List.Subset.trans (List.take_subset _ _) (List.drop_subset _ _)
  · exact List.nil_subset _

theorem planReplicas_mem {pool : List HealthyRelay} {replicasPerBlock : Int} {index : Nat}
    {replicas : List HealthyRelay} (h : planReplicas pool replicasPerBlock index = .ok replicas)
    {replica : HealthyRelay} (hr : replica ∈ replicas) : replica ∈ pool := by
  rw [planReplicas] at h
  split at h
  · obtain ⟨replicaIndex, -, hget⟩ := except_mapM_mem h hr
    obtain ⟨position, -, hget⟩ := except_bind_eq_ok.mp hget
    exact pyIndex_mem hget
  · cases h
    cases hr

theorem planToken_uses {choice : StripeReplicaChoice} {healthy : List HealthyRelay}
    {replicasPerBlock : Int} {index : Nat} {entry : Str × Str} {rows : List PlannedPlacement}
    (h : planToken choice healthy replicasPerBlock index entry = .ok rows) {p : PlannedPlacement}
    (hp : p ∈ rows) : ∃ relay ∈ healthy, ∃ role, p = planned entry relay role := by
  rw [planToken] at h
  obtain ⟨position, -, h⟩ := except_bind_eq_ok.mp h
  obtain ⟨primary, hprimary, h⟩ := except_bind_eq_ok.mp h
  obtain ⟨replicas, hreplicas, h⟩ := except_bind_eq_ok.mp h
  cases h
  rcases List.mem_cons.mp hp with rfl | hp
  · exact ⟨primary, primaryPool_subset _ _ (pyIndex_mem hprimary), .primary, rfl⟩
  · obtain ⟨replica, hreplica, rfl⟩ := List.mem_map.mp hp
    exact ⟨replica, replicaPool_subset choice healthy (planReplicas_mem hreplicas hreplica),
      .replica, rfl⟩

/-- Every row of a plan puts a token of the request on a relay of the pool. -/
theorem plan_uses {entries : List (Str × Str)} {healthy : List HealthyRelay}
    {stripeTargetRelays maxFileReplicaCount maxReplicasPerBlock : Int}
    {plan : StripeReplicaChoice × List PlannedPlacement}
    (h : planTokenPlacements entries healthy stripeTargetRelays maxFileReplicaCount
      maxReplicasPerBlock = .ok plan) {p : PlannedPlacement} (hp : p ∈ plan.2) :
    ∃ entry ∈ entries, ∃ relay ∈ healthy, ∃ role, p = planned entry relay role := by
  rw [planTokenPlacements] at h
  split at h
  · cases h
    cases hp
  · split at h
    · cases h
    · obtain ⟨rows, hrows, h⟩ := except_bind_eq_ok.mp h
      cases h
      obtain ⟨tokenRows, htoken, hp⟩ := List.mem_flatten.mp hp
      obtain ⟨e, he, hplan⟩ := except_mapM_mem hrows htoken
      obtain ⟨relay, hrelay, role, rfl⟩ := planToken_uses hplan hp
      exact ⟨e.1, (List.mem_zipIdx' he).2 ▸ List.getElem_mem _, relay, hrelay, role, rfl⟩

def defaultBlockMaxAgeSeconds : Int := 86400
def defaultBlockSweepIntervalSeconds : Int := 3600

/-- The longest TTL that may be promised for a relay with this block max age. -/
def effectiveCapSeconds (blockMaxAgeSeconds clockSkewSeconds : Int) : Int :=
  max 1 (blockMaxAgeSeconds - clockSkewSeconds)

def relayEffectiveCap (policy : PlacementPolicy) (relay : HealthyRelay) : Int :=
  effectiveCapSeconds relay.blockMaxAgeSeconds policy.clockSkewSeconds

variable (policy : PlacementPolicy)

/-- The relays whose cap is at least `threshold`. -/
def eligible (threshold : Int) (pool : List HealthyRelay) : List HealthyRelay :=
  pool.filter fun relay => threshold ≤ relayEffectiveCap policy relay

def countEligible (pool : List HealthyRelay) (threshold : Int) : Int :=
  (eligible policy threshold pool).length

/-- The distinct caps from high to low, up to the first that leaves `need` relays. -/
def maxThresholdForCount (pool : List HealthyRelay) (need : Int) : Option Int :=
  let caps := (pool.map (relayEffectiveCap policy)).dedup.mergeSort fun a b => b ≤ a
  caps.find? fun cap => need ≤ countEligible policy pool cap

def idealRelayCount (blockCount healthyCount : Int) : Int :=
  let choice := chooseStripeReplica blockCount healthyCount policy.stripeTargetRelays
    policy.maxFileReplicaCount
  let idealN := choice.stripeCount * (1 + choice.replicaFactor)
  max 1 (min idealN (blockCount * policy.maxReplicasPerBlock))

/-- `max(…)` of a non-empty list of caps; none is below 1. -/
def clusterMax (pool : List HealthyRelay) : Int :=
  (pool.map (relayEffectiveCap policy)).foldl max 1

/-- The floor below which the search does not keep relays. -/
def gradeFloor (pool : List HealthyRelay) : Int :=
  let top := clusterMax policy pool
  let decrement := top / max 1 policy.ttlDegradeStepDivisor
  let low :=
    if policy.minGrantTtlSeconds < decrement then policy.minGrantTtlSeconds else top - decrement
  max 1 (min low top)

/-- The loop of `find_granted_ttl_with_topology`, from `n` downwards. -/
def searchGrant (pool : List HealthyRelay) (tLow : Int) : Nat → Except PyExn Int
  | 0 => .error (.runtimeError "no relay placement even with n=1")
  | n + 1 =>
    if countEligible policy pool tLow < ((n + 1 : Nat) : Int) then searchGrant pool tLow n
    else
      match maxThresholdForCount policy pool ((n + 1 : Nat) : Int) with
      | some tStar => .ok tStar
      | none => searchGrant pool tLow n

def findGrantedTtlWithTopology (pool : List HealthyRelay) (blockCount : Int) : Except PyExn Int :=
  if pool = [] then .error (.runtimeError "no healthy relay available")
  else
    searchGrant policy pool (gradeFloor policy pool)
      (idealRelayCount policy blockCount pool.length).toNat

structure PlacementResolution where
  grantedTtlSeconds : Int
  requestedTtlSeconds : Int
  degraded : Bool
  placementPlan : StripeReplicaChoice
  placements : List PlannedPlacement
  idealRelayCount : Int
  actualRelayCount : Int
  deriving DecidableEq, Repr

/-- The request within the bounds of the policy. -/
def clampTtl (requestedTtl : Int) : Int := max 1 (min policy.maxRequestedTtlSeconds requestedTtl)

/-- The pool that the plan uses, with its grant: all relays that carry the request, or those that
carry the degraded grant. -/
def grantPool (healthy : List HealthyRelay) (blockCount requestedTtl : Int) :
    Except PyExn (Int × List HealthyRelay) :=
  let strictPool := eligible policy requestedTtl healthy
  if strictPool ≠ [] then .ok (requestedTtl, strictPool)
  else do
    let grantedTtl ← findGrantedTtlWithTopology policy healthy blockCount
    let pool := eligible policy grantedTtl healthy
    if pool = [] then .error (.runtimeError "no relay satisfies granted ttl after filtering")
    else .ok (grantedTtl, pool)

def resolvePlacementWithTtl (entries : List (Str × Str)) (healthy : List HealthyRelay)
    (requestedTtl : Int) : Except PyExn PlacementResolution :=
  if healthy = [] then .error (.runtimeError "no healthy relay available")
  else do
    let requestedTtl := clampTtl policy requestedTtl
    let idealN := idealRelayCount policy entries.length healthy.length
    let grant ← grantPool policy healthy entries.length requestedTtl
    let plan ← planTokenPlacements entries grant.2 policy.stripeTargetRelays
      policy.maxFileReplicaCount policy.maxReplicasPerBlock
    let actualN := plan.1.stripeCount * (1 + plan.1.replicaFactor)
    return { grantedTtlSeconds := grant.1, requestedTtlSeconds := requestedTtl,
             degraded := grant.1 < requestedTtl ∨ actualN < idealN, placementPlan := plan.1,
             placements := plan.2, idealRelayCount := idealN, actualRelayCount := actualN }

variable {policy} {pool healthy : List HealthyRelay}

theorem mem_eligible {threshold : Int} {relay : HealthyRelay} :
    relay ∈ eligible policy threshold pool ↔
      relay ∈ pool ∧ threshold ≤ relayEffectiveCap policy relay := by
  simp [eligible]

theorem maxThreshold_mem {need t : Int} (h : maxThresholdForCount policy pool need = some t) :
    ∃ relay ∈ pool, relayEffectiveCap policy relay = t := by
  have hm := List.mem_of_find?_eq_some h
  rw [List.mem_mergeSort, List.mem_dedup] at hm
  exact List.mem_map.mp hm

/-- A degraded grant is the cap of some relay. -/
theorem searchGrant_mem {tLow t : Int} {n : Nat} (h : searchGrant policy pool tLow n = .ok t) :
    ∃ relay ∈ pool, relayEffectiveCap policy relay = t := by
  induction n with
  | zero => cases h
  | succ n ih =>
    rw [searchGrant] at h
    split at h
    · exact ih h
    · split at h
      case h_1 tStar hmax =>
        cases h
        exact maxThreshold_mem hmax
      case h_2 => exact ih h

theorem findGranted_mem {blockCount t : Int}
    (h : findGrantedTtlWithTopology policy pool blockCount = .ok t) :
    ∃ relay ∈ pool, relayEffectiveCap policy relay = t := by
  rw [findGrantedTtlWithTopology] at h
  split at h
  · cases h
  · exact searchGrant_mem h

/-- The pool of a grant holds the relays whose cap carries it. -/
theorem grantPool_eligible {blockCount requestedTtl : Int} {grant : Int × List HealthyRelay}
    (h : grantPool policy healthy blockCount requestedTtl = .ok grant) :
    grant.2 = eligible policy grant.1 healthy := by
  rw [grantPool] at h
  split at h
  · cases h
    rfl
  · obtain ⟨grantedTtl, -, h⟩ := except_bind_eq_ok.mp h
    dsimp only at h
    split at h
    · cases h
    · cases h
      rfl

/-- Either the whole request is granted, or no relay carries it and the grant is some relay's cap. -/
theorem grantPool_granted {blockCount requestedTtl : Int} {grant : Int × List HealthyRelay}
    (h : grantPool policy healthy blockCount requestedTtl = .ok grant) :
    (grant.1 = requestedTtl ∧ ∃ relay ∈ healthy, requestedTtl ≤ relayEffectiveCap policy relay) ∨
      ((∀ relay ∈ healthy, relayEffectiveCap policy relay < requestedTtl) ∧
        ∃ relay ∈ healthy, relayEffectiveCap policy relay = grant.1) := by
  rw [grantPool] at h
  split at h
  case isTrue hstrict =>
    cases h
    obtain ⟨relay, hrelay⟩ := List.exists_mem_of_ne_nil _ hstrict
    exact .inl ⟨rfl, relay, mem_eligible.mp hrelay⟩
  case isFalse hstrict =>
    obtain ⟨grantedTtl, hgranted, h⟩ := except_bind_eq_ok.mp h
    have hlow : ∀ relay ∈ healthy, relayEffectiveCap policy relay < requestedTtl := by
      intro relay hrelay
      by_contra hle
      exact hstrict (List.ne_nil_of_mem (mem_eligible.mpr ⟨hrelay, Int.not_lt.mp hle⟩))
    dsimp only at h
    split at h
    · cases h
    · cases h
      exact .inr ⟨hlow, findGranted_mem hgranted⟩

/-- What a resolution is made of. -/
theorem resolve_ok {entries : List (Str × Str)} {requestedTtl : Int}
    {resolution : PlacementResolution}
    (h : resolvePlacementWithTtl policy entries healthy requestedTtl = .ok resolution) :
    ∃ plan, grantPool policy healthy entries.length (clampTtl policy requestedTtl) =
        .ok (resolution.grantedTtlSeconds,
          eligible policy resolution.grantedTtlSeconds healthy) ∧
      planTokenPlacements entries (eligible policy resolution.grantedTtlSeconds healthy)
        policy.stripeTargetRelays policy.maxFileReplicaCount policy.maxReplicasPerBlock = .ok plan ∧
      resolution.placements = plan.2 := by
  rw [resolvePlacementWithTtl] at h
  split at h
  · cases h
  · obtain ⟨grant, hgrant, h⟩ := except_bind_eq_ok.mp h
    obtain ⟨plan, hplan, h⟩ := except_bind_eq_ok.mp h
    cases h
    have hpool := grantPool_eligible hgrant
    refine ⟨plan, ?_, ?_, rfl⟩
    · rw [hgrant, ← hpool]
    · rw [← hpool]
      exact hplan

/-- Every relay that is used carries the grant. -/
theorem resolve_uses {entries : List (Str × Str)} {requestedTtl : Int}
    {resolution : PlacementResolution}
    (h : resolvePlacementWithTtl policy entries healthy requestedTtl = .ok resolution)
    {p : PlannedPlacement} (hp : p ∈ resolution.placements) :
    ∃ entry ∈ entries, ∃ relay ∈ healthy,
      resolution.grantedTtlSeconds ≤ relayEffectiveCap policy relay ∧
        ∃ role, p = planned entry relay role := by
  obtain ⟨plan, -, hplan, hplacements⟩ := resolve_ok h
  rw [hplacements] at hp
  obtain ⟨entry, hentry, relay, hrelay, role, rfl⟩ := plan_uses hplan hp
  obtain ⟨hmem, hcap⟩ := mem_eligible.mp hrelay
  exact ⟨entry, hentry, relay, hmem, hcap, role, rfl⟩

end TwelveC.Registry.Scheduling
