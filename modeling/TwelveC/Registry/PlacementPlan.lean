import TwelveC.Registry.StripeChoice
import TwelveC.Lib.Rotation

/-!
# What a plan looks like

A choice that fits the healthy relays cuts two disjoint pools out of them, and
every token goes round robin through both.
-/

namespace TwelveC.Registry.Scheduling

open Lib

variable {choice : StripeReplicaChoice} {healthy : List HealthyRelay} {entries : List (Str × Str)}

/-- The choice has room on the healthy relays. -/
structure Fits (choice : StripeReplicaChoice) (healthy : List HealthyRelay) : Prop where
  width : 1 ≤ choice.stripeCount
  factor : 0 ≤ choice.replicaFactor
  room : choice.stripeCount * (1 + choice.replicaFactor) ≤ healthy.length

theorem choose_fits (blockCount stripeTargetRelays maxFileReplicaCount : Int)
    (hhealthy : healthy ≠ []) :
    Fits (chooseStripeReplica blockCount healthy.length stripeTargetRelays maxFileReplicaCount)
      healthy := by
  have hpos := List.length_pos_of_ne_nil hhealthy
  obtain ⟨best, hbest, hl⟩ := choose_leads (h := healthy.length) blockCount stripeTargetRelays
    maxFileReplicaCount (by omega)
  rw [hbest]
  refine ⟨hl.width, hl.factor, ?_⟩
  rw [← hl.score]
  exact hl.room

theorem primaryPool_length (hf : Fits choice healthy) :
    ((primaryPool choice healthy).length : Int) = choice.stripeCount := by
  have hwidth := hf.width
  have hle : choice.stripeCount ≤ healthy.length := by nlinarith [hf.factor, hf.room]
  rw [primaryPool, List.length_take]
  omega

theorem replicaPool_length (hf : Fits choice healthy) :
    ((replicaPool choice healthy).length : Int) = choice.stripeCount * choice.replicaFactor := by
  have hwidth := hf.width
  have hroom := hf.room
  have hfactor := hf.factor
  rw [Int.mul_add, Int.mul_one] at hroom
  rw [replicaPool]
  split
  case isTrue hpos =>
    have hmul : 0 ≤ choice.stripeCount * choice.replicaFactor := Int.mul_nonneg (by omega) (by omega)
    rw [List.length_take, List.length_drop]
    omega
  case isFalse hzero =>
    have hr : choice.replicaFactor = 0 := by omega
    simp [hr]

theorem pools_disjoint {p q : HealthyRelay} (hids : (healthy.map (·.relayId)).Nodup)
    (hp : p ∈ primaryPool choice healthy) (hq : q ∈ replicaPool choice healthy) :
    p.relayId ≠ q.relayId := by
  have hdrop : q ∈ healthy.drop choice.stripeCount.toNat := by
    rw [replicaPool] at hq
    split at hq
    · exact List.mem_of_mem_take hq
    · cases hq
  rw [← List.take_append_drop choice.stripeCount.toNat healthy, List.map_append,
    List.nodup_append] at hids
  exact hids.2.2 p.relayId (List.mem_map.mpr ⟨p, hp, rfl⟩) q.relayId (List.mem_map.mpr ⟨q, hdrop, rfl⟩)

theorem primaryPool_nodup (hids : (healthy.map (·.relayId)).Nodup) :
    ((primaryPool choice healthy).map (·.relayId)).Nodup :=
  hids.sublist ((List.take_sublist _ _).map _)

theorem replicaPool_nodup (hids : (healthy.map (·.relayId)).Nodup) :
    ((replicaPool choice healthy).map (·.relayId)).Nodup := by
  rw [replicaPool]
  split
  · exact hids.sublist (((List.take_sublist _ _).trans (List.drop_sublist _ _)).map _)
  · exact List.nodup_nil

theorem pyIndex_rotated {α : Type} {pool : List α} (h : 0 < pool.length) (i : Nat) :
    (do
      let position ← pyMod (i : Int) pool.length
      pyIndex pool position) = .ok (rotated pool h i) := by
  have hmod : pyMod (i : Int) pool.length = .ok ((i % pool.length : Nat) : Int) := by
    rw [pyMod, if_neg (by omega), Int.fmod_eq_emod_of_nonneg _ (by omega)]
    rfl
  rw [hmod, okBind, pyIndex, if_neg (by omega), Int.toNat_natCast, rotated_getElem? pool h i]
  dsimp only
  rw [if_neg (by omega)]

/-- The replicas of a token, `count` of them. -/
def replicasAt (pool : List HealthyRelay) (count index : Nat) : List HealthyRelay :=
  if h : 0 < pool.length then (List.range count).map fun j => rotated pool h (index + j) else []

theorem mapM_ok_map {α β : Type} {f : α → Except PyExn β} {g : α → β} {l : List α}
    (h : ∀ a ∈ l, f a = .ok (g a)) : l.mapM f = .ok (l.map g) := by
  induction l with
  | nil => rfl
  | cons a l ih =>
    rw [List.mapM_cons, h a List.mem_cons_self, okBind, ih fun b hb => h b (List.mem_cons_of_mem _ hb)]
    rfl

theorem planReplicas_eq {pool : List HealthyRelay} {count : Int} (index : Nat) :
    planReplicas pool count index = .ok (replicasAt pool count.toNat index) := by
  rw [planReplicas, replicasAt]
  split
  case isTrue hc =>
    have hpool : 0 < pool.length := List.length_pos_of_ne_nil hc.2
    rw [dif_pos hpool]
    exact mapM_ok_map fun j _ => pyIndex_rotated hpool (index + j)
  case isFalse hc =>
    split
    case isTrue hpool =>
      have hcount : count.toNat = 0 := by
        have hne : pool ≠ [] := List.ne_nil_of_length_pos hpool
        have hle : ¬ 0 < count := fun h => hc ⟨h, hne⟩
        omega
      rw [hcount]
      rfl
    case isFalse => rfl

/-- The rows of the token at `index`. -/
def tokenRows (choice : StripeReplicaChoice) (healthy : List HealthyRelay)
    (h : 0 < (primaryPool choice healthy).length) (count : Nat) (e : (Str × Str) × Nat) :
    List PlannedPlacement :=
  planned e.1 (rotated (primaryPool choice healthy) h e.2) .primary ::
    (replicasAt (replicaPool choice healthy) count e.2).map fun relay => planned e.1 relay .replica

theorem planToken_eq (hf : Fits choice healthy) (h : 0 < (primaryPool choice healthy).length)
    (count : Int) (e : (Str × Str) × Nat) :
    planToken choice healthy count e.2 e.1 = .ok (tokenRows choice healthy h count.toNat e) := by
  have hprimary := pyIndex_rotated h e.2
  rw [primaryPool_length hf] at hprimary
  obtain ⟨position, hposition, hindex⟩ := except_bind_eq_ok.mp hprimary
  rw [planToken, hposition, okBind, hindex, okBind, planReplicas_eq, okBind]
  rfl

def planRows (choice : StripeReplicaChoice) (healthy : List HealthyRelay)
    (h : 0 < (primaryPool choice healthy).length) (count : Nat) (entries : List (Str × Str)) :
    List PlannedPlacement :=
  entries.zipIdx.flatMap (tokenRows choice healthy h count)

/-- A plan is made for every pool and all parameters. -/
theorem planTokenPlacements_eq (hentries : entries ≠ []) (hhealthy : healthy ≠ [])
    (stripeTargetRelays maxFileReplicaCount maxReplicasPerBlock : Int)
    (hchoice : choice = chooseStripeReplica entries.length healthy.length stripeTargetRelays
      maxFileReplicaCount) (h : 0 < (primaryPool choice healthy).length) :
    planTokenPlacements entries healthy stripeTargetRelays maxFileReplicaCount maxReplicasPerBlock =
      .ok (choice, planRows choice healthy h
        (replicaCountPerBlock choice.replicaFactor maxReplicasPerBlock).toNat entries) := by
  have hf : Fits choice healthy := by
    rw [hchoice]
    exact choose_fits _ _ _ hhealthy
  rw [planTokenPlacements, if_neg hentries, if_neg hhealthy, ← hchoice]
  dsimp only
  rw [mapM_ok_map fun e _ => planToken_eq hf h
    (replicaCountPerBlock choice.replicaFactor maxReplicasPerBlock) e, okBind, planRows,
    List.flatMap_def]
  rfl

/-- The rows of one token. -/
def rowsOf (placements : List PlannedPlacement) (token : Str) : List PlannedPlacement :=
  placements.filter fun p => decide (p.token = token)

/-- How many tokens have their primary on a relay. -/
def primariesOn (placements : List PlannedPlacement) (relayId : Str) : Nat :=
  placements.countP fun p => decide (p.role = .primary ∧ p.relayId = relayId)

structure CorrectPlan (entries : List (Str × Str)) (healthy : List HealthyRelay)
    (maxReplicasPerBlock : Int) (plan : StripeReplicaChoice × List PlannedPlacement) : Prop where
  primaries : ∀ e ∈ entries, ((rowsOf plan.2 e.1).filter fun p => decide (p.role = .primary)).length = 1
  replicas : ∀ e ∈ entries,
    (((rowsOf plan.2 e.1).filter fun p => decide (p.role = .replica)).length : Int) =
      max 0 (min plan.1.replicaFactor (maxReplicasPerBlock - 1))
  distinct : ∀ e ∈ entries, ((rowsOf plan.2 e.1).map (·.relayId)).Nodup
  pools : ∀ p ∈ plan.2, ∀ q ∈ plan.2, p.role = .primary → q.role = .replica → p.relayId ≠ q.relayId
  room : plan.1.stripeCount * (1 + plan.1.replicaFactor) ≤ healthy.length
  balanced : ∀ a ∈ healthy.take plan.1.stripeCount.toNat, ∀ b ∈ healthy.take plan.1.stripeCount.toNat,
    primariesOn plan.2 a.relayId ≤ primariesOn plan.2 b.relayId + 1
  uses : ∀ p ∈ plan.2, ∃ entry ∈ entries, ∃ relay ∈ healthy, ∃ role, p = planned entry relay role

section rows

variable {h : 0 < (primaryPool choice healthy).length} {count : Nat}

theorem tokenRows_token {e : (Str × Str) × Nat} {p : PlannedPlacement}
    (hp : p ∈ tokenRows choice healthy h count e) : p.token = e.1.1 := by
  rcases List.mem_cons.mp hp with rfl | hp
  · rfl
  · obtain ⟨relay, -, rfl⟩ := List.mem_map.mp hp
    rfl

theorem rowsOf_planRows (htokens : (entries.map Prod.fst).Nodup) {e : (Str × Str) × Nat}
    (he : e ∈ entries.zipIdx) :
    rowsOf (planRows choice healthy h count entries) e.1.1 = tokenRows choice healthy h count e := by
  have hkeys : (entries.zipIdx.map fun e => e.1.1).Nodup := by
    have hmap : (entries.zipIdx.map fun e => e.1.1) = entries.map Prod.fst := by
      have hfst := List.zipIdx_map_fst 0 entries
      conv_rhs => rw [← hfst]
      rw [List.map_map]
      rfl
    rw [hmap]
    exact htokens
  exact filter_flatMap_tag hkeys (fun a _ p hp => tokenRows_token hp) he

theorem replicasAt_length {pool : List HealthyRelay} {index : Nat} (hcount : count ≤ pool.length) :
    (replicasAt pool count index).length = count := by
  rw [replicasAt]
  split
  · simp
  · simp only [List.length_nil]
    omega

theorem replicasAt_subset {pool : List HealthyRelay} {index : Nat} :
    replicasAt pool count index ⊆ pool := by
  rw [replicasAt]
  split
  case isTrue hpool =>
    intro relay hm
    obtain ⟨j, -, rfl⟩ := List.mem_map.mp hm
    exact rotated_mem pool hpool _
  case isFalse => exact List.nil_subset _

theorem replicasAt_nodup {pool : List HealthyRelay} {index : Nat}
    (hids : (pool.map (·.relayId)).Nodup) (hcount : count ≤ pool.length) :
    ((replicasAt pool count index).map (·.relayId)).Nodup := by
  rw [replicasAt]
  split
  case isTrue hpool =>
    rw [List.map_map]
    exact rotated_nodup hids hpool index hcount
  case isFalse => exact List.nodup_nil

theorem filter_role_planned (role other : Role) (entry : Str × Str) (relays : List HealthyRelay) :
    ((relays.map fun relay => planned entry relay role).filter fun p => decide (p.role = other)).length =
      if role = other then relays.length else 0 := by
  induction relays with
  | nil => split <;> rfl
  | cons relay relays ih =>
    rw [List.map_cons, List.filter_cons]
    have hrole : (planned entry relay role).role = role := rfl
    rw [hrole]
    by_cases hr : role = other
    · rw [if_pos (by simpa using hr), List.length_cons, ih, if_pos hr, if_pos hr, List.length_cons]
    · rw [if_neg (by simpa using hr), ih, if_neg hr, if_neg hr]

theorem tokenRows_nodup (hids : (healthy.map (·.relayId)).Nodup)
    (hcount : count ≤ (replicaPool choice healthy).length) (e : (Str × Str) × Nat) :
    ((tokenRows choice healthy h count e).map (·.relayId)).Nodup := by
  rw [tokenRows, List.map_cons, List.map_map, List.nodup_cons]
  refine ⟨?_, replicasAt_nodup (replicaPool_nodup hids) hcount⟩
  intro hm
  obtain ⟨relay, hrelay, heq⟩ := List.mem_map.mp hm
  exact pools_disjoint hids (rotated_mem _ h e.2) (replicasAt_subset hrelay) heq.symm

theorem tokenRows_pool {e : (Str × Str) × Nat} {p : PlannedPlacement}
    (hp : p ∈ tokenRows choice healthy h count e) :
    (p.role = .primary → ∃ relay ∈ primaryPool choice healthy, p.relayId = relay.relayId) ∧
      (p.role = .replica → ∃ relay ∈ replicaPool choice healthy, p.relayId = relay.relayId) := by
  rcases List.mem_cons.mp hp with rfl | hp
  · exact ⟨fun _ => ⟨_, rotated_mem _ h e.2, rfl⟩, fun hrole => by cases hrole⟩
  · obtain ⟨relay, hrelay, rfl⟩ := List.mem_map.mp hp
    exact ⟨(fun hrole => by cases hrole), fun _ => ⟨relay, replicasAt_subset hrelay, rfl⟩⟩

/-- The primaries on the relay at a place are the tokens whose turn it is. -/
theorem primariesOn_planRows (hids : (healthy.map (·.relayId)).Nodup) {relay : HealthyRelay}
    {place : Nat} (hplace : (primaryPool choice healthy)[place]? = some relay) :
    primariesOn (planRows choice healthy h count entries) relay.relayId =
      (List.range entries.length).countP fun i =>
        decide (i % (primaryPool choice healthy).length = place) := by
  have hrow : ∀ e : (Str × Str) × Nat, (tokenRows choice healthy h count e).countP
      (fun p => decide (p.role = .primary ∧ p.relayId = relay.relayId)) =
      if decide (e.2 % (primaryPool choice healthy).length = place) then 1 else 0 := by
    intro e
    have hnone : ((replicasAt (replicaPool choice healthy) count e.2).map fun relay =>
        planned e.1 relay .replica).countP
        (fun p => decide (p.role = .primary ∧ p.relayId = relay.relayId)) = 0 := by
      apply List.countP_eq_zero.mpr
      intro p hp
      obtain ⟨other, -, rfl⟩ := List.mem_map.mp hp
      simp [planned]
    rw [tokenRows, List.countP_cons, hnone, Nat.zero_add]
    have hturn := rotated_key_eq (i := e.2) (primaryPool_nodup hids) h hplace
    simp only [planned, true_and, decide_eq_true_eq, hturn]
  rw [primariesOn, planRows, countP_flatMap_one hrow, List.range_eq_range',
    ← List.zipIdx_map_snd 0 entries, List.countP_map]
  rfl

theorem mem_planRows {p : PlannedPlacement} (hp : p ∈ planRows choice healthy h count entries) :
    ∃ e, p ∈ tokenRows choice healthy h count e := by
  obtain ⟨e, -, hp⟩ := List.mem_flatMap.mp hp
  exact ⟨e, hp⟩

theorem correct_planRows {maxReplicasPerBlock : Int} (hf : Fits choice healthy)
    (htokens : (entries.map Prod.fst).Nodup) (hids : (healthy.map (·.relayId)).Nodup)
    (hcount : count = (replicaCountPerBlock choice.replicaFactor maxReplicasPerBlock).toNat)
    (huses : ∀ p ∈ planRows choice healthy h count entries,
      ∃ entry ∈ entries, ∃ relay ∈ healthy, ∃ role, p = planned entry relay role) :
    CorrectPlan entries healthy maxReplicasPerBlock
      (choice, planRows choice healthy h count entries) := by
  have hwidth := hf.width
  have hfactor := hf.factor
  have hcountInt : (count : Int) = max 0 (min choice.replicaFactor (maxReplicasPerBlock - 1)) := by
    rw [hcount, replicaCountPerBlock]
    split <;> omega
  have hpool := replicaPool_length hf
  have hle : count ≤ (replicaPool choice healthy).length := by
    have hmul : choice.replicaFactor ≤ choice.stripeCount * choice.replicaFactor := by nlinarith
    omega
  have hrows : ∀ entry ∈ entries, ∃ e : (Str × Str) × Nat,
      rowsOf (planRows choice healthy h count entries) entry.1 = tokenRows choice healthy h count e := by
    intro entry hentry
    obtain ⟨i, hi⟩ := List.getElem?_of_mem hentry
    have hm : (entry, i) ∈ entries.zipIdx := List.mem_zipIdx_iff_getElem?.mpr hi
    exact ⟨(entry, i), rowsOf_planRows htokens hm⟩
  refine ⟨fun entry hentry => ?_, fun entry hentry => ?_, fun entry hentry => ?_, ?_, hf.room, ?_, huses⟩
  · obtain ⟨e, he⟩ := hrows entry hentry
    have hnone := filter_role_planned .replica .primary e.1
      (replicasAt (replicaPool choice healthy) count e.2)
    rw [if_neg (by decide)] at hnone
    rw [he, tokenRows, List.filter_cons, if_pos (by simp [planned]), List.length_cons, hnone]
  · obtain ⟨e, he⟩ := hrows entry hentry
    have hall := filter_role_planned .replica .replica e.1
      (replicasAt (replicaPool choice healthy) count e.2)
    rw [if_pos rfl, replicasAt_length hle] at hall
    rw [he, tokenRows, List.filter_cons, if_neg (by simp [planned]), hall]
    exact hcountInt
  · obtain ⟨e, he⟩ := hrows entry hentry
    rw [he]
    exact tokenRows_nodup hids hle e
  · intro p hp q hq hprimary hreplica
    obtain ⟨e, hpe⟩ := mem_planRows hp
    obtain ⟨f, hqf⟩ := mem_planRows hq
    obtain ⟨a, ha, hpa⟩ := (tokenRows_pool hpe).1 hprimary
    obtain ⟨b, hb, hqb⟩ := (tokenRows_pool hqf).2 hreplica
    rw [hpa, hqb]
    exact pools_disjoint hids ha hb
  · intro a ha b hb
    obtain ⟨x, hx⟩ := List.getElem?_of_mem ha
    obtain ⟨y, hy⟩ := List.getElem?_of_mem hb
    have hxlt := (List.getElem?_eq_some_iff.mp hx).1
    have hylt := (List.getElem?_eq_some_iff.mp hy).1
    show primariesOn (planRows choice healthy h count entries) a.relayId ≤ _
    rw [primariesOn_planRows hids hx, primariesOn_planRows hids hy]
    exact visits_le entries.length hxlt hylt

end rows

/-- For every pool of distinct relays, all parameters and distinct tokens. -/
theorem planTokenPlacements_correct (entries : List (Str × Str)) (healthy : List HealthyRelay)
    (stripeTargetRelays maxFileReplicaCount maxReplicasPerBlock : Int) (hentries : entries ≠ [])
    (hhealthy : healthy ≠ []) (htokens : (entries.map Prod.fst).Nodup)
    (hids : (healthy.map (·.relayId)).Nodup) :
    ∃ plan, planTokenPlacements entries healthy stripeTargetRelays maxFileReplicaCount
        maxReplicasPerBlock = .ok plan ∧
      plan.1 = chooseStripeReplica entries.length healthy.length stripeTargetRelays
        maxFileReplicaCount ∧
      CorrectPlan entries healthy maxReplicasPerBlock plan := by
  have hf := choose_fits entries.length stripeTargetRelays maxFileReplicaCount hhealthy
  have hpool : 0 < (primaryPool (chooseStripeReplica entries.length healthy.length
      stripeTargetRelays maxFileReplicaCount) healthy).length := by
    have hlength := primaryPool_length hf
    have hwidth := hf.width
    omega
  have hplan := planTokenPlacements_eq hentries hhealthy stripeTargetRelays maxFileReplicaCount
    maxReplicasPerBlock rfl hpool
  refine ⟨_, hplan, rfl, correct_planRows hf htokens hids rfl fun p hp => ?_⟩
  exact plan_uses hplan hp

def sampleRelays : List HealthyRelay :=
  [⟨ascii "a", ascii "http://a", 0, 86400, 3600⟩, ⟨ascii "b", ascii "http://b", 0, 86400, 3600⟩,
    ⟨ascii "c", ascii "http://c", 0, 86400, 3600⟩, ⟨ascii "d", ascii "http://d", 0, 86400, 3600⟩]

/-- Three tokens on four relays. -/
theorem planTokenPlacements_correct_four :
    ∃ plan, planTokenPlacements [([1], []), ([2], []), ([3], [])] sampleRelays 2 1 3 = .ok plan ∧
      plan.1 = chooseStripeReplica 3 4 2 1 ∧
      CorrectPlan [([1], []), ([2], []), ([3], [])] sampleRelays 3 plan :=
  planTokenPlacements_correct [([1], []), ([2], []), ([3], [])] sampleRelays 2 1 3 (by decide)
    (by decide) (by decide) (by decide)

end TwelveC.Registry.Scheduling
