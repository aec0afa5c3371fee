import TwelveC.Registry.PlacementPlan
import TwelveC.Lib.Ranking

/-!
# What a degraded grant is

A request that no relay carries is granted the cap of a rank: that of the ideal
number of relays, or of the last relay above the floor if there are fewer.
-/

namespace TwelveC.Registry.Scheduling

open Lib

variable {policy : PlacementPolicy} {pool healthy : List HealthyRelay} {n : Nat} {cap : Int}

def caps (policy : PlacementPolicy) (pool : List HealthyRelay) : List Int :=
  pool.map (relayEffectiveCap policy)

/-- The caps in descending order; place `n - 1` holds the `n`-th largest. -/
def rankedCaps (policy : PlacementPolicy) (pool : List HealthyRelay) : List Int :=
  descending (caps policy pool)

theorem one_le_cap (policy : PlacementPolicy) (relay : HealthyRelay) : 1 ≤ relayEffectiveCap policy relay :=
  Int.le_max_left _ _

theorem mem_caps : cap ∈ caps policy pool ↔ ∃ relay ∈ pool, relayEffectiveCap policy relay = cap :=
  List.mem_map

theorem mem_rankedCaps : cap ∈ rankedCaps policy pool ↔ cap ∈ caps policy pool :=
  (descending_perm _).mem_iff

theorem countEligible_eq (policy : PlacementPolicy) (pool : List HealthyRelay) (threshold : Int) :
    countEligible policy pool threshold = atLeast (caps policy pool) threshold := by
  rw [countEligible, eligible, atLeast, caps, List.countP_map, List.countP_eq_length_filter]
  rfl

theorem rankedCaps_length (policy : PlacementPolicy) (pool : List HealthyRelay) :
    (rankedCaps policy pool).length = pool.length := by
  rw [rankedCaps, (descending_perm _).length_eq, caps, List.length_map]

/-- The highest threshold that leaves `n + 1` relays is the cap at place `n`. -/
theorem maxThreshold_eq (h : (rankedCaps policy pool)[n]? = some cap) :
    maxThresholdForCount policy pool ((n + 1 : Nat) : Int) = some cap := by
  have hcount : ∀ t, ((n + 1 : Nat) : Int) ≤ countEligible policy pool t ↔ t ≤ cap := by
    intro t
    rw [countEligible_eq, ← lt_atLeast_iff h]
    omega
  have hcap : cap ∈ caps policy pool := mem_rankedCaps.mp (List.mem_of_getElem? h)
  rw [maxThresholdForCount]
  apply find?_descending (descending_pairwise _)
  · rw [(descending_perm _).mem_iff, List.mem_dedup]
    exact hcap
  · simpa using (hcount cap).mpr (Int.le_refl cap)
  · intro t _ ht
    exact (hcount t).mp (by simpa using ht)

/-- The loop comes down to the number of relays above the floor and takes the cap of that rank. -/
theorem searchGrant_eq {tLow : Int} {ideal : Nat} (hideal : 1 ≤ ideal)
    (hfloor : 1 ≤ atLeast (caps policy pool) tLow)
    (h : (rankedCaps policy pool)[min ideal (atLeast (caps policy pool) tLow) - 1]? = some cap) :
    searchGrant policy pool tLow ideal = .ok cap := by
  induction ideal with
  | zero => omega
  | succ m ih =>
    rw [searchGrant]
    split
    case isTrue hfew =>
      rw [countEligible_eq] at hfew
      have hmin : min (m + 1) (atLeast (caps policy pool) tLow) =
          min m (atLeast (caps policy pool) tLow) := by omega
      rw [hmin] at h
      exact ih (by omega) h
    case isFalse henough =>
      rw [countEligible_eq] at henough
      have hmin : min (m + 1) (atLeast (caps policy pool) tLow) - 1 = m := by omega
      rw [hmin] at h
      rw [maxThreshold_eq h]

theorem foldl_max_mem (l : List Int) (start : Int) : l.foldl max start = start ∨ l.foldl max start ∈ l := by
  induction l generalizing start with
  | nil => exact .inl rfl
  | cons a l ih =>
    rw [List.foldl_cons]
    rcases ih (max start a) with heq | hm
    · rw [heq]
      rcases Int.le_total start a with hle | hle
      · rw [Int.max_eq_right hle]
        exact .inr List.mem_cons_self
      · exact .inl (Int.max_eq_left hle)
    · exact .inr (List.mem_cons_of_mem _ hm)

theorem le_foldl_max (l : List Int) (start : Int) : start ≤ l.foldl max start ∧ ∀ a ∈ l, a ≤ l.foldl max start := by
  induction l generalizing start with
  | nil => exact ⟨Int.le_refl start, fun a ha => by cases ha⟩
  | cons b l ih =>
    obtain ⟨hstart, hall⟩ := ih (max start b)
    rw [List.foldl_cons]
    refine ⟨Int.le_trans (Int.le_max_left _ _) hstart, fun a ha => ?_⟩
    rcases List.mem_cons.mp ha with rfl | ha
    · exact Int.le_trans (Int.le_max_right _ _) hstart
    · exact hall a ha

/-- The highest cap is that of a relay. -/
theorem clusterMax_mem (hpool : pool ≠ []) : clusterMax policy pool ∈ caps policy pool := by
  rcases foldl_max_mem (caps policy pool) 1 with heq | hm
  · obtain ⟨relay, rest, rfl⟩ := List.exists_cons_of_ne_nil hpool
    have hm : relayEffectiveCap policy relay ∈ caps policy (relay :: rest) := by simp [caps]
    have hle := (le_foldl_max (caps policy (relay :: rest)) 1).2 _ hm
    have hone := one_le_cap policy relay
    have hcap : relayEffectiveCap policy relay = clusterMax policy (relay :: rest) := by
      rw [clusterMax, ← caps]
      omega
    rw [← hcap]
    exact hm
  · exact hm

theorem gradeFloor_le (policy : PlacementPolicy) (pool : List HealthyRelay) :
    gradeFloor policy pool ≤ clusterMax policy pool := by
  have hone := (le_foldl_max (caps policy pool) 1).1
  rw [gradeFloor]
  apply Int.max_le.mpr
  exact ⟨hone, Int.min_le_right _ _⟩

/-- Some relay is above the floor. -/
theorem one_le_aboveFloor (policy : PlacementPolicy) (hpool : pool ≠ []) :
    1 ≤ atLeast (caps policy pool) (gradeFloor policy pool) := by
  apply List.countP_pos_iff.mpr
  exact ⟨_, clusterMax_mem hpool, by simpa using gradeFloor_le policy pool⟩

theorem one_le_idealRelayCount (policy : PlacementPolicy) (blockCount healthyCount : Int) :
    1 ≤ idealRelayCount policy blockCount healthyCount := Int.le_max_left _ _

/-- The rank whose cap is granted: `n*`. -/
def grantedRank (policy : PlacementPolicy) (blockCount : Int) (healthy : List HealthyRelay) : Nat :=
  min (idealRelayCount policy blockCount healthy.length).toNat
    (atLeast (caps policy healthy) (gradeFloor policy healthy))

theorem grantedRank_pos (policy : PlacementPolicy) (hhealthy : healthy ≠ []) (blockCount : Int) :
    1 ≤ grantedRank policy blockCount healthy := by
  have hideal := one_le_idealRelayCount policy blockCount healthy.length
  have hfloor := one_le_aboveFloor policy hhealthy
  rw [grantedRank]
  omega

/-- There is a cap of that rank. -/
theorem exists_grantedCap (policy : PlacementPolicy) (hhealthy : healthy ≠ []) (blockCount : Int) :
    ∃ cap, (rankedCaps policy healthy)[grantedRank policy blockCount healthy - 1]? = some cap := by
  have hrank := grantedRank_pos policy hhealthy blockCount
  have hle : atLeast (caps policy healthy) (gradeFloor policy healthy) ≤ healthy.length := by
    refine Nat.le_trans List.countP_le_length ?_
    rw [caps, List.length_map]
  have hlt : grantedRank policy blockCount healthy - 1 < (rankedCaps policy healthy).length := by
    rw [rankedCaps_length, grantedRank] at *
    omega
  exact ⟨_, List.getElem?_eq_getElem hlt⟩

theorem findGranted_eq (hhealthy : healthy ≠ []) {blockCount : Int}
    (h : (rankedCaps policy healthy)[grantedRank policy blockCount healthy - 1]? = some cap) :
    findGrantedTtlWithTopology policy healthy blockCount = .ok cap := by
  have hideal := one_le_idealRelayCount policy blockCount healthy.length
  rw [findGrantedTtlWithTopology, if_neg hhealthy]
  exact searchGrant_eq (by omega) (one_le_aboveFloor policy hhealthy) h

/-- The cap of that rank is above the floor. -/
theorem floor_le_granted (hhealthy : healthy ≠ []) {blockCount : Int}
    (h : (rankedCaps policy healthy)[grantedRank policy blockCount healthy - 1]? = some cap) :
    gradeFloor policy healthy ≤ cap := by
  have hrank := grantedRank_pos policy hhealthy blockCount
  rw [← lt_atLeast_iff h, grantedRank] at *
  omega

/-- The whole request where some relay carries it, else the cap of the granted rank. -/
theorem grantPool_eq (policy : PlacementPolicy) (hhealthy : healthy ≠ []) (blockCount requestedTtl : Int) :
    ∃ granted, grantPool policy healthy blockCount requestedTtl =
        .ok (granted, eligible policy granted healthy) ∧ eligible policy granted healthy ≠ [] ∧
      (granted = requestedTtl ∨
        (∀ relay ∈ healthy, relayEffectiveCap policy relay < requestedTtl) ∧
          (rankedCaps policy healthy)[grantedRank policy blockCount healthy - 1]? = some granted) := by
  rw [grantPool]
  by_cases hstrict : eligible policy requestedTtl healthy = []
  · obtain ⟨granted, hrank⟩ := exists_grantedCap policy hhealthy blockCount
    have hcap : granted ∈ caps policy healthy := mem_rankedCaps.mp (List.mem_of_getElem? hrank)
    obtain ⟨relay, hrelay, heq⟩ := mem_caps.mp hcap
    have hne : eligible policy granted healthy ≠ [] :=
      List.ne_nil_of_mem (mem_eligible.mpr ⟨hrelay, Int.le_of_eq heq.symm⟩)
    refine ⟨granted, ?_, hne, .inr ⟨fun other hother => ?_, hrank⟩⟩
    · rw [if_neg (not_not.mpr hstrict), findGranted_eq hhealthy hrank, okBind, if_neg hne]
    · by_contra hle
      have hm := mem_eligible.mpr ⟨hother, Int.not_lt.mp hle⟩
      rw [hstrict] at hm
      cases hm
  · exact ⟨requestedTtl, if_pos hstrict, hstrict, .inl rfl⟩

/-- What `resolve_placement_with_ttl` grants. -/
structure GrantCharacterised (policy : PlacementPolicy) (entries : List (Str × Str))
    (healthy : List HealthyRelay) (requestedTtl : Int) (resolution : PlacementResolution) : Prop where
  positive : 1 ≤ resolution.grantedTtlSeconds
  clamped : resolution.grantedTtlSeconds ≤ clampTtl policy requestedTtl
  carried : ∀ p ∈ resolution.placements, ∃ entry ∈ entries, ∃ relay ∈ healthy,
    resolution.grantedTtlSeconds ≤ relayEffectiveCap policy relay ∧
      ∃ role, p = planned entry relay role
  ranked : (∀ relay ∈ healthy, relayEffectiveCap policy relay < clampTtl policy requestedTtl) →
    (rankedCaps policy healthy)[grantedRank policy entries.length healthy - 1]? =
      some resolution.grantedTtlSeconds ∧
    gradeFloor policy healthy ≤ resolution.grantedTtlSeconds

theorem grant_characterised {entries : List (Str × Str)} {requestedTtl : Int}
    {resolution : PlacementResolution} (hhealthy : healthy ≠ [])
    (h : resolvePlacementWithTtl policy entries healthy requestedTtl = .ok resolution) :
    GrantCharacterised policy entries healthy requestedTtl resolution := by
  obtain ⟨plan, hgrant, -, -⟩ := resolve_ok h
  obtain ⟨granted, heq, hne, hcases⟩ := grantPool_eq policy hhealthy entries.length
    (clampTtl policy requestedTtl)
  rw [hgrant] at heq
  obtain ⟨rfl, -⟩ := Prod.mk.inj (Except.ok.inj heq)
  obtain ⟨relay, hrelay⟩ := List.exists_mem_of_ne_nil _ hne
  obtain ⟨hmem, hcap⟩ := mem_eligible.mp hrelay
  refine ⟨?_, ?_, fun p hp => resolve_uses h hp, fun hlow => ?_⟩
  · rcases hcases with hall | ⟨-, hrank⟩
    · rw [hall]
      exact Int.le_max_left _ _
    · obtain ⟨other, -, hother⟩ := mem_caps.mp (mem_rankedCaps.mp (List.mem_of_getElem? hrank))
      rw [← hother]
      exact one_le_cap policy other
  · rcases hcases with hall | ⟨hlow, -⟩
    · exact Int.le_of_eq hall
    · exact Int.le_trans hcap (Int.le_of_lt (hlow relay hmem))
  · rcases hcases with hall | ⟨-, hrank⟩
    · have hlt := hlow relay hmem
      omega
    · exact ⟨hrank, floor_le_granted hhealthy hrank⟩

theorem resolve_never_raises {entries : List (Str × Str)} (hentries : entries ≠ [])
    (hhealthy : healthy ≠ []) (requestedTtl : Int) :
    ∃ resolution, resolvePlacementWithTtl policy entries healthy requestedTtl = .ok resolution := by
  obtain ⟨granted, hgrant, hpool, -⟩ := grantPool_eq policy hhealthy entries.length
    (clampTtl policy requestedTtl)
  have hf := choose_fits entries.length policy.stripeTargetRelays policy.maxFileReplicaCount hpool
  have hprimary : 0 < (primaryPool (chooseStripeReplica entries.length
      (eligible policy granted healthy).length policy.stripeTargetRelays policy.maxFileReplicaCount)
      (eligible policy granted healthy)).length := by
    have hlength := primaryPool_length hf
    have hwidth := hf.width
    omega
  have hplan := planTokenPlacements_eq hentries hpool policy.stripeTargetRelays
    policy.maxFileReplicaCount policy.maxReplicasPerBlock rfl hprimary
  rw [resolvePlacementWithTtl, if_neg hhealthy]
  dsimp only
  rw [hgrant, okBind, hplan]
  exact ⟨_, rfl⟩

/-- For every pool, every request and every policy. -/
theorem resolvePlacementWithTtl_characterised (policy : PlacementPolicy)
    (entries : List (Str × Str)) (healthy : List HealthyRelay) (requestedTtl : Int)
    (hentries : entries ≠ []) (hhealthy : healthy ≠ []) :
    ∃ resolution, resolvePlacementWithTtl policy entries healthy requestedTtl = .ok resolution ∧
      GrantCharacterised policy entries healthy requestedTtl resolution := by
  obtain ⟨resolution, h⟩ := resolve_never_raises hentries hhealthy requestedTtl
  exact ⟨resolution, h, grant_characterised hhealthy h⟩

def samplePolicy : PlacementPolicy :=
  { stripeTargetRelays := 3, maxFileReplicaCount := 1, maxReplicasPerBlock := 2,
    minGrantTtlSeconds := 3600, clockSkewSeconds := 60, maxRequestedTtlSeconds := 604800,
    ttlDegradeStepDivisor := 4 }

/-- A week is more than any of the four relays carries. -/
theorem resolvePlacementWithTtl_characterised_week :
    ∃ resolution, resolvePlacementWithTtl samplePolicy [([1], []), ([2], [])] sampleRelays 604800 =
        .ok resolution ∧
      GrantCharacterised samplePolicy [([1], []), ([2], [])] sampleRelays 604800 resolution :=
  resolvePlacementWithTtl_characterised samplePolicy [([1], []), ([2], [])] sampleRelays 604800
    (by decide) (by decide)

end TwelveC.Registry.Scheduling
