import TwelveC.Registry.TtlDegradation
import Mathlib.Data.Finset.Card

/-!
# How many relays a placement uses

The count that is reported is that of the pools, `S×(1+R)`. Every primary gets a
token. The replicas of neighbouring tokens overlap, so `b` tokens with `k`
replicas each reach `b + k - 1` relays of the replica pool.
-/

namespace TwelveC.Registry.Scheduling

open Lib

variable {choice : StripeReplicaChoice} {healthy : List HealthyRelay} {entries : List (Str × Str)}

/-- The distinct relays of the returned rows. -/
def relaysUsed (placements : List PlannedPlacement) : Nat :=
  (placements.map (·.relayId)).dedup.length

/-- The ids that `steps` steps of a rotation visit. -/
def visitedIds (pool : List HealthyRelay) (h : 0 < pool.length) (steps : Nat) : Finset Str :=
  ((List.range steps).map fun i => (rotated pool h i).relayId).toFinset

theorem mem_visitedIds {pool : List HealthyRelay} {h : 0 < pool.length} {steps : Nat} {id : Str} :
    id ∈ visitedIds pool h steps ↔ ∃ i < steps, (rotated pool h i).relayId = id := by
  simp [visitedIds]

theorem card_visitedIds {pool : List HealthyRelay} (hids : (pool.map (·.relayId)).Nodup)
    (h : 0 < pool.length) (steps : Nat) : (visitedIds pool h steps).card = min steps pool.length := by
  have hshort : ∀ n ≤ pool.length, (visitedIds pool h n).card = n := by
    intro n hn
    have hnodup := rotated_nodup hids h 0 hn
    simp only [Nat.zero_add] at hnodup
    rw [visitedIds, List.toFinset_card_of_nodup hnodup]
    simp
  rcases Nat.le_total steps pool.length with hle | hge
  · rw [hshort steps hle, Nat.min_eq_left hle]
  · -- one round visits the whole pool, and no step leaves it
    have hlower : visitedIds pool h pool.length ⊆ visitedIds pool h steps := by
      intro id hm
      obtain ⟨i, hi, hid⟩ := mem_visitedIds.mp hm
      exact mem_visitedIds.mpr ⟨i, by omega, hid⟩
    have hupper : visitedIds pool h steps ⊆ (pool.map (·.relayId)).toFinset := by
      intro id hm
      obtain ⟨i, -, rfl⟩ := mem_visitedIds.mp hm
      rw [List.mem_toFinset]
      exact List.mem_map_of_mem (rotated_mem pool h i)
    have hpool : (pool.map (·.relayId)).toFinset.card = pool.length := by
      rw [List.toFinset_card_of_nodup hids, List.length_map]
    have hcard := Finset.card_le_card hlower
    have hcard' := Finset.card_le_card hupper
    rw [hshort _ le_rfl] at hcard
    omega

/-- The tokens' turns at the replica pool, `count` from each, are consecutive. -/
theorem exists_replicaTurn {tokens count i : Nat} (htokens : 0 < tokens) (hcount : 0 < count) :
    (∃ t < tokens, ∃ j < count, t + j = i) ↔ i < tokens + count - 1 := by
  constructor
  · rintro ⟨t, ht, j, hj, rfl⟩
    omega
  · intro hi
    by_cases hlt : i < tokens
    · exact ⟨i, hlt, 0, hcount, Nat.add_zero i⟩
    · exact ⟨tokens - 1, by omega, i - (tokens - 1), by omega, by omega⟩

theorem mem_replicasAt {pool : List HealthyRelay} (hpool : 0 < pool.length) {count index : Nat}
    {relay : HealthyRelay} :
    relay ∈ replicasAt pool count index ↔ ∃ j < count, rotated pool hpool (index + j) = relay := by
  simp [replicasAt, hpool]

section rows

variable {h : 0 < (primaryPool choice healthy).length} {count : Nat}

theorem mem_relayIds {id : Str} :
    id ∈ (planRows choice healthy h count entries).map (·.relayId) ↔
      ∃ t < entries.length, (rotated (primaryPool choice healthy) h t).relayId = id ∨
        ∃ relay ∈ replicasAt (replicaPool choice healthy) count t, relay.relayId = id := by
  have hrow : ∀ e : (Str × Str) × Nat, id ∈ (tokenRows choice healthy h count e).map (·.relayId) ↔
      (rotated (primaryPool choice healthy) h e.2).relayId = id ∨
        ∃ relay ∈ replicasAt (replicaPool choice healthy) count e.2, relay.relayId = id := by
    intro e
    simp [tokenRows, planned, eq_comm]
  rw [planRows, List.map_flatMap, List.mem_flatMap]
  constructor
  · rintro ⟨e, he, hm⟩
    have hlt := List.snd_lt_of_mem_zipIdx he
    exact ⟨e.2, by omega, (hrow e).mp hm⟩
  · rintro ⟨t, ht, hm⟩
    have he : (entries[t], t) ∈ entries.zipIdx :=
      List.mem_zipIdx_iff_getElem?.mpr (List.getElem?_eq_getElem ht)
    exact ⟨_, he, (hrow (entries[t], t)).mpr hm⟩

/-- No replica slot, no replica. -/
theorem relaysUsed_primaries (hids : (healthy.map (·.relayId)).Nodup)
    (hnone : count = 0 ∨ (replicaPool choice healthy).length = 0) :
    relaysUsed (planRows choice healthy h count entries) =
      min entries.length (primaryPool choice healthy).length := by
  have hempty : ∀ t, replicasAt (replicaPool choice healthy) count t = [] := by
    intro t
    rw [replicasAt]
    split
    case isTrue hpool =>
      have hcount : count = 0 := by omega
      rw [hcount]
      rfl
    case isFalse => rfl
  have hset : ((planRows choice healthy h count entries).map (·.relayId)).toFinset =
      visitedIds (primaryPool choice healthy) h entries.length := by
    ext id
    rw [List.mem_toFinset, mem_relayIds, mem_visitedIds]
    simp [hempty]
  rw [relaysUsed, ← List.card_toFinset, hset, card_visitedIds (primaryPool_nodup hids)]

theorem relaysUsed_both (hids : (healthy.map (·.relayId)).Nodup) (hentries : 0 < entries.length)
    (hcount : 0 < count) (hpool : 0 < (replicaPool choice healthy).length) :
    relaysUsed (planRows choice healthy h count entries) =
      min entries.length (primaryPool choice healthy).length +
        min (entries.length + count - 1) (replicaPool choice healthy).length := by
  have hset : ((planRows choice healthy h count entries).map (·.relayId)).toFinset =
      visitedIds (primaryPool choice healthy) h entries.length ∪
        visitedIds (replicaPool choice healthy) hpool (entries.length + count - 1) := by
    ext id
    rw [List.mem_toFinset, mem_relayIds, Finset.mem_union, mem_visitedIds, mem_visitedIds]
    simp only [mem_replicasAt hpool, ← exists_replicaTurn hentries hcount]
    constructor
    · rintro ⟨t, ht, hprimary | ⟨relay, ⟨j, hj, rfl⟩, hid⟩⟩
      · exact .inl ⟨t, ht, hprimary⟩
      · exact .inr ⟨t + j, ⟨t, ht, j, hj, rfl⟩, hid⟩
    · rintro (⟨t, ht, hprimary⟩ | ⟨i, ⟨t, ht, j, hj, rfl⟩, hid⟩)
      · exact ⟨t, ht, .inl hprimary⟩
      · exact ⟨t, ht, .inr ⟨_, ⟨j, hj, rfl⟩, hid⟩⟩
  have hdisjoint : Disjoint (visitedIds (primaryPool choice healthy) h entries.length)
      (visitedIds (replicaPool choice healthy) hpool (entries.length + count - 1)) := by
    rw [Finset.disjoint_left]
    intro id hp hq
    obtain ⟨i, -, hi⟩ := mem_visitedIds.mp hp
    obtain ⟨j, -, hj⟩ := mem_visitedIds.mp hq
    exact pools_disjoint hids (rotated_mem _ h i) (rotated_mem _ hpool j) (hi.trans hj.symm)
  rw [relaysUsed, ← List.card_toFinset, hset, Finset.card_union_of_disjoint hdisjoint,
    card_visitedIds (primaryPool_nodup hids), card_visitedIds (replicaPool_nodup hids)]

end rows

/-- The choice has replicas and the tokens reach all of them, or it has none. -/
def SlotsFilled (blockCount maxReplicasPerBlock : Int) (choice : StripeReplicaChoice) : Prop :=
  choice.replicaFactor = 0 ∨ (2 ≤ maxReplicasPerBlock ∧
    choice.stripeCount * choice.replicaFactor <
      blockCount + min choice.replicaFactor (maxReplicasPerBlock - 1))

instance (blockCount maxReplicasPerBlock : Int) (choice : StripeReplicaChoice) :
    Decidable (SlotsFilled blockCount maxReplicasPerBlock choice) :=
  inferInstanceAs (Decidable (_ ∨ (_ ∧ _)))

/-- Every primary has a token: no stripe is wider than the upload has blocks. -/
theorem choose_width_le {blockCount : Int} (hblocks : 1 ≤ blockCount)
    (stripeTargetRelays maxFileReplicaCount : Int) (hhealthy : healthy ≠ []) :
    (chooseStripeReplica blockCount healthy.length stripeTargetRelays maxFileReplicaCount).stripeCount ≤
      blockCount := by
  have hpos := List.length_pos_of_ne_nil hhealthy
  obtain ⟨best, hbest, hl⟩ := choose_leads (h := healthy.length) blockCount stripeTargetRelays
    maxFileReplicaCount (by omega)
  rw [hbest]
  rcases hl.origin with hstart | ⟨hm, -⟩
  · rw [hstart]
    exact hblocks
  · obtain ⟨-, hle⟩ := mem_countdown.mp hm
    rw [widestStripe] at hle
    show best.s ≤ blockCount
    omega

theorem relaysUsed_iff (maxReplicasPerBlock : Int) (hids : (healthy.map (·.relayId)).Nodup)
    (hf : Fits choice healthy) (hentries : entries ≠ []) (hwidth : choice.stripeCount ≤ entries.length)
    (h : 0 < (primaryPool choice healthy).length) :
    choice.stripeCount * (1 + choice.replicaFactor) = relaysUsed (planRows choice healthy h
        (replicaCountPerBlock choice.replicaFactor maxReplicasPerBlock).toNat entries) ↔
      SlotsFilled entries.length maxReplicasPerBlock choice := by
  have hprimaries := primaryPool_length hf
  have hreplicas := replicaPool_length hf
  have hpositive := hf.width
  have hfactor := hf.factor
  have hlength := List.length_pos_of_ne_nil hentries
  have hmul : choice.replicaFactor ≤ choice.stripeCount * choice.replicaFactor := by nlinarith
  rw [SlotsFilled, Int.mul_add, Int.mul_one]
  by_cases hzero : choice.replicaFactor = 0
  · rw [hzero, Int.mul_zero] at hreplicas
    rw [relaysUsed_primaries hids (.inr (by omega)), hzero]
    omega
  · have hcount : replicaCountPerBlock choice.replicaFactor maxReplicasPerBlock =
        min choice.replicaFactor (maxReplicasPerBlock - 1) := if_neg (by omega)
    rw [hcount]
    by_cases hcap : 2 ≤ maxReplicasPerBlock
    · rw [relaysUsed_both hids hlength (by omega) (by omega)]
      omega
    · rw [relaysUsed_primaries hids (.inl (by omega))]
      omega

variable {policy : PlacementPolicy}

/-- The relays that carry the request, or, where none does, those that carry the cap of the granted
rank. -/
def carriers (policy : PlacementPolicy) (healthy : List HealthyRelay)
    (blockCount requestedTtl : Int) : List HealthyRelay :=
  if eligible policy (clampTtl policy requestedTtl) healthy ≠ [] then
    eligible policy (clampTtl policy requestedTtl) healthy
  else
    match (rankedCaps policy healthy)[grantedRank policy blockCount healthy - 1]? with
    | some cap => eligible policy cap healthy
    | none => []

theorem grantPool_carriers (policy : PlacementPolicy) (hhealthy : healthy ≠ []) (blockCount requestedTtl : Int) :
    ∃ granted, grantPool policy healthy blockCount (clampTtl policy requestedTtl) =
        .ok (granted, carriers policy healthy blockCount requestedTtl) ∧
      carriers policy healthy blockCount requestedTtl ≠ [] := by
  obtain ⟨granted, hgrant, hne, hcases⟩ := grantPool_eq policy hhealthy blockCount
    (clampTtl policy requestedTtl)
  have hpool : carriers policy healthy blockCount requestedTtl = eligible policy granted healthy := by
    rw [carriers]
    rcases hcases with rfl | ⟨hlow, hrank⟩
    · rw [if_pos hne]
    · have hempty : eligible policy (clampTtl policy requestedTtl) healthy = [] := by
        apply List.eq_nil_iff_forall_not_mem.mpr
        intro relay hm
        obtain ⟨hrelay, hcap⟩ := mem_eligible.mp hm
        have hlt := hlow relay hrelay
        omega
      rw [if_neg (not_not.mpr hempty), hrank]
  rw [hpool]
  exact ⟨granted, hgrant, hne⟩

/-- The reported count is the number of relays used exactly if the tokens reach the whole replica
pool. -/
theorem actualRelayCount_iff (policy : PlacementPolicy) (entries : List (Str × Str))
    (healthy : List HealthyRelay) (requestedTtl : Int) (hentries : entries ≠ [])
    (hhealthy : healthy ≠ []) (hids : (healthy.map (·.relayId)).Nodup) :
    ∃ resolution, resolvePlacementWithTtl policy entries healthy requestedTtl = .ok resolution ∧
      (resolution.actualRelayCount = relaysUsed resolution.placements ↔
        SlotsFilled entries.length policy.maxReplicasPerBlock
          (chooseStripeReplica entries.length
            (carriers policy healthy entries.length requestedTtl).length policy.stripeTargetRelays
            policy.maxFileReplicaCount)) := by
  obtain ⟨granted, hgrant, hne⟩ := grantPool_carriers policy hhealthy entries.length
    requestedTtl
  have hcarriers : ((carriers policy healthy entries.length requestedTtl).map (·.relayId)).Nodup := by
    have heligible := grantPool_eligible hgrant
    dsimp only at heligible
    rw [heligible, eligible]
    exact hids.sublist (List.filter_sublist.map _)
  generalize carriers policy healthy entries.length requestedTtl = pool at *
  have hf := choose_fits entries.length policy.stripeTargetRelays policy.maxFileReplicaCount hne
  have hlength := List.length_pos_of_ne_nil hentries
  have hwidth : (chooseStripeReplica entries.length pool.length policy.stripeTargetRelays
      policy.maxFileReplicaCount).stripeCount ≤ entries.length :=
    choose_width_le (by omega) policy.stripeTargetRelays policy.maxFileReplicaCount hne
  generalize hchoice : chooseStripeReplica entries.length pool.length policy.stripeTargetRelays
    policy.maxFileReplicaCount = choice at *
  have hprimary : 0 < (primaryPool choice pool).length := by
    have hprimaries := primaryPool_length hf
    have hpositive := hf.width
    omega
  have hplan := planTokenPlacements_eq hentries hne policy.stripeTargetRelays
    policy.maxFileReplicaCount policy.maxReplicasPerBlock hchoice.symm hprimary
  have hused := relaysUsed_iff policy.maxReplicasPerBlock hcarriers hf
    hentries hwidth hprimary
  rw [resolvePlacementWithTtl, if_neg hhealthy]
  dsimp only
  rw [hgrant, okBind, hplan]
  exact ⟨_, rfl, hused⟩

/-- Three tokens on four relays. -/
theorem actualRelayCount_iff_four :
    ∃ resolution, resolvePlacementWithTtl samplePolicy [([1], []), ([2], []), ([3], [])] sampleRelays
        3600 = .ok resolution ∧
      (resolution.actualRelayCount = relaysUsed resolution.placements ↔
        SlotsFilled 3 2 (chooseStripeReplica 3 (carriers samplePolicy sampleRelays 3 3600).length 3 1)) :=
  actualRelayCount_iff samplePolicy [([1], []), ([2], []), ([3], [])] sampleRelays 3600 (by decide)
    (by decide) (by decide)

/-- One token on three relays, with up to two replica pools but one replica for each block. -/
theorem actualRelayCount_differs :
    ∃ resolution, resolvePlacementWithTtl { samplePolicy with maxFileReplicaCount := 2 }
        [([1], [])] (sampleRelays.take 3) 3600 = .ok resolution ∧
      resolution.actualRelayCount = 3 ∧ relaysUsed resolution.placements = 2 :=
  ⟨_, rfl, by decide, by decide⟩

end TwelveC.Registry.Scheduling
