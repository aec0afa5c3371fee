import TwelveC.Registry.Operations
import TwelveC.Registry.PlacementPlan

/-!
# The rows that a reserve leaves

The transaction of a reserve, row by row, and the state of the tables after a
reserve however it ends.
-/

namespace TwelveC.Registry

open Lib Relay.BlockAuth Scheduling

namespace RegistryRepository

/-- The row that a plan writes for one of its placements. -/
def plannedRow (p : PlannedPlacement) (expiryAt updatedAt : Int) : PlacementRow :=
  { registeredRelayBaseUrl := p.relayBaseUrl, role := p.role, blockHash := p.blockHash, expiryAt,
    updatedAt }

/-- The rows of a plan, under their keys. -/
def plannedRows (planned : List PlannedPlacement) (expiryAt updatedAt : Int) :
    List ((Str × Str) × PlacementRow) :=
  planned.map fun p => ((p.token, p.relayId), plannedRow p expiryAt updatedAt)

/-- The transaction of a reserve. -/
def writeRows (planned : List PlannedPlacement) (expiryAt updatedAt : Int) (s : Db) : Db :=
  { s with placements := s.placements.insertAll (plannedRows planned expiryAt updatedAt) }

section written

variable {planned : List PlannedPlacement} {expiryAt updatedAt : Int} {s : Db} {token relayId : Str}
  {row : PlacementRow} {p : PlannedPlacement}

@[simp] theorem writeRows_now : (writeRows planned expiryAt updatedAt s).now = s.now := rfl

theorem upsertPlacements_eq (grantedTtlSeconds : Int) :
    upsertPlacements planned grantedTtlSeconds s =
      writeRows planned (s.now + seconds grantedTtlSeconds) s.now s := by
  rw [upsertPlacements, writeRows, Table.insertAll, plannedRows, List.foldl_map]
  rfl

/-- A row after the transaction is a planned one, or it was there before. -/
theorem find_writeRows
    (h : (writeRows planned expiryAt updatedAt s).placements.find (token, relayId) = some row) :
    (∃ p ∈ planned, p.token = token ∧ p.relayId = relayId ∧ row = plannedRow p expiryAt updatedAt) ∨
      s.placements.find (token, relayId) = some row := by
  rcases Table.mem_of_find_insertAll h with hm | hfind
  · obtain ⟨p, hp, heq⟩ := List.mem_map.mp hm
    simp only [Prod.mk.injEq] at heq
    obtain ⟨⟨htoken, hrelay⟩, hrow⟩ := heq
    exact .inl ⟨p, hp, htoken, hrelay, hrow.symm⟩
  · exact .inr hfind

/-- The tokens of other uploads keep their rows. -/
theorem find_writeRows_other (h : ∀ p ∈ planned, p.token ≠ token) :
    (writeRows planned expiryAt updatedAt s).placements.find (token, relayId) =
      s.placements.find (token, relayId) := by
  apply Table.find_insertAll_of_not_mem
  intro row hrow hkey
  obtain ⟨p, hp, rfl⟩ := List.mem_map.mp hrow
  exact h p hp (congrArg Prod.fst hkey)

/-- Where a placement was planned a planned row is found. -/
theorem find_writeRows_planned (expiryAt updatedAt : Int) (s : Db) (hp : p ∈ planned) :
    ∃ q ∈ planned, q.token = p.token ∧ q.relayId = p.relayId ∧
      (writeRows planned expiryAt updatedAt s).placements.find (p.token, p.relayId) =
        some (plannedRow q expiryAt updatedAt) := by
  have hkey : ∃ row ∈ plannedRows planned expiryAt updatedAt, row.1 = (p.token, p.relayId) :=
    ⟨_, List.mem_map.mpr ⟨p, hp, rfl⟩, rfl⟩
  obtain ⟨before, value, after, hrows, hafter⟩ := Table.exists_last hkey
  have hm : ((p.token, p.relayId), value) ∈ plannedRows planned expiryAt updatedAt := by
    rw [hrows]
    exact List.mem_append_right _ List.mem_cons_self
  obtain ⟨q, hq, heq⟩ := List.mem_map.mp hm
  simp only [Prod.mk.injEq] at heq
  obtain ⟨⟨htoken, hrelay⟩, hvalue⟩ := heq
  refine ⟨q, hq, htoken, hrelay, ?_⟩
  have hfind : (s.placements.insertAll (before ++ ((p.token, p.relayId), value) :: after)).find
      (p.token, p.relayId) = some value := Table.find_insertAll_last s.placements hafter
  rw [← hrows] at hfind
  rw [hvalue]
  exact hfind

end written

theorem checkDuplicates_ok {seen tokens : List Str} (h : checkDuplicates seen tokens = .ok ()) :
    tokens.Nodup ∧ ∀ token ∈ tokens, token ∉ seen := by
  induction tokens generalizing seen with
  | nil => exact ⟨List.nodup_nil, fun token hm => by cases hm⟩
  | cons token rest ih =>
    rw [checkDuplicates] at h
    split at h
    · cases h
    · rename_i hseen
      obtain ⟨hnodup, hrest⟩ := ih h
      refine ⟨List.nodup_cons.mpr ⟨fun hm => hrest token hm List.mem_cons_self, hnodup⟩, ?_⟩
      intro other hm
      rcases List.mem_cons.mp hm with rfl | hm
      · exact hseen
      · exact fun hs => hrest other hm (List.mem_cons_of_mem _ hs)

variable {env : Env} {s : Db} {entries : List (Str × Str)} {ttlSeconds : Option Int}
  {resolution : PlacementResolution}

/-- A selection of rows of a table that keeps their keys. -/
theorem filterMap_keys_nodup {β γ : Type} {l : List (Str × β)} {f : Str × β → Option (Str × γ)}
    (hkey : ∀ e e', f e = some e' → e'.1 = e.1) (h : (l.map Prod.fst).Nodup) :
    ((l.filterMap f).map Prod.fst).Nodup := by
  have hsub : ((l.filterMap f).map Prod.fst).Sublist (l.map Prod.fst) := by
    induction l with
    | nil => exact List.Sublist.refl _
    | cons e l ih =>
      have hrest := ih (List.nodup_cons.mp h).2
      cases he : f e with
      | none =>
        rw [List.filterMap_cons_none he]
        exact hrest.cons _
      | some e' =>
        rw [List.filterMap_cons_some he, List.map_cons, List.map_cons, hkey e e' he]
        exact hrest.cons_cons _
  exact h.sublist hsub

/-- The listing names a relay once. -/
theorem healthyRelays_nodup (env : Env) (s : Db) :
    ((healthyRelays env s).map (·.relayId)).Nodup := by
  rw [healthyRelays]
  split
  · rw [freshRelays, List.map_map]
    have hrows : ((freshRows env s).map Prod.fst).Nodup := by
      apply filterMap_keys_nodup _ s.relayStates.nodup
      intro e e' he
      split at he
      · split at he
        · cases he
          rfl
        · cases he
      · cases he
    exact ((List.mergeSort_perm _ _).map _).nodup_iff.mpr hrows
  · rw [listedRelays, List.map_map]
    have hrows : ((listedRows s).map Prod.fst).Nodup := by
      apply filterMap_keys_nodup _ s.allowlist.nodup
      intro e e' he
      split at he
      · obtain ⟨url, -, rfl⟩ := Option.map_eq_some_iff.mp he
        rfl
      · cases he
    exact ((List.mergeSort_perm _ _).map _).nodup_iff.mpr hrows

/-- The plan of a reserve of distinct tokens is a correct one. -/
theorem resolve_correct {policy : PlacementPolicy} {healthy : List HealthyRelay} {requestedTtl : Int}
    (hne : entries ≠ []) (htokens : (entries.map Prod.fst).Nodup)
    (hids : (healthy.map (·.relayId)).Nodup)
    (h : resolvePlacementWithTtl policy entries healthy requestedTtl = .ok resolution) :
    ∃ pool choice, CorrectPlan entries pool policy.maxReplicasPerBlock
      (choice, resolution.placements) := by
  obtain ⟨plan, -, hplan, hplacements⟩ := resolve_ok h
  have hpool : eligible policy resolution.grantedTtlSeconds healthy ≠ [] := by
    intro hnil
    rw [planTokenPlacements, if_neg hne, if_pos hnil] at hplan
    cases hplan
  have hids' : ((eligible policy resolution.grantedTtlSeconds healthy).map (·.relayId)).Nodup :=
    hids.sublist (List.filter_sublist.map _)
  have hfits := choose_fits entries.length policy.stripeTargetRelays policy.maxFileReplicaCount hpool
  have hprimary := primaryPool_length hfits
  have hwidth := hfits.width
  have hrows := planTokenPlacements_eq hne hpool policy.stripeTargetRelays policy.maxFileReplicaCount
    policy.maxReplicasPerBlock rfl (by omega)
  rw [hplan] at hrows
  cases hrows
  rw [hplacements]
  exact ⟨_, _, correct_planRows hfits htokens hids' rfl fun p hp => plan_uses hplan hp⟩

theorem lockPlanned_snd (s : Db) : (lockPlanned env entries resolution s).2 =
    upsertPlacements resolution.placements resolution.grantedTtlSeconds s := by
  rw [lockPlanned, Py.bind_ok (Py.modify_run _ s), Py.bind_ok (listHealthyRelays_run _ _)]
  have hroutes := fun liveUrls => (lockedRoutes_run liveUrls (entries.map Prod.fst) (upsertPlacements
    resolution.placements resolution.grantedTtlSeconds s)).1
  rw [Py.bind_snd fun routes t => rfl, hroutes]

/-- Nothing but expired rows changes, or the plan was written for tokens that no live primary
holds. -/
theorem lock_state (env : Env) (entries : List (Str × Str)) (ttlSeconds : Option Int) (s : Db) :
    (lockTokensWithBlockHashes env entries ttlSeconds s).2 = purgeExpired s ∨
    ∃ resolution, entries ≠ [] ∧ checkDuplicates [] (entries.map Prod.fst) = .ok () ∧
      (∀ e ∈ entries, occupiedToken (purgeExpired s) e.1 = none) ∧
      reservePlan env s entries ttlSeconds = .ok resolution ∧
      (lockTokensWithBlockHashes env entries ttlSeconds s).2 =
        upsertPlacements resolution.placements resolution.grantedTtlSeconds (purgeExpired s) := by
  by_cases hne : entries = []
  · left
    rw [lockTokensWithBlockHashes, hne]
    rfl
  · rcases lock_cases env ttlSeconds s hne with
      ⟨refusal, hrun, -⟩ | ⟨resolution, hdup, hfree, -, hplan, hrun⟩
    · left
      rw [hrun]
    · right
      refine ⟨resolution, hne, hdup, hfree, hplan, ?_⟩
      rw [hrun, Py.bind_snd fun outcome t => rfl, lockPlanned_snd]

end RegistryRepository

open RegistryRepository

variable {env : Env}

theorem reserveUploadBlocks_snd (env : Env) (entries : List (Str × Str)) (ttlSeconds : Option Int)
    (s : Db) : (reserveUploadBlocks env entries ttlSeconds s).2 =
      (lockTokensWithBlockHashes env entries ttlSeconds s).2 := by
  rw [reserveUploadBlocks, Py.tryExcept]
  split
  · rename_i heq
    rw [heq]
  · rename_i heq
    rw [heq]
    rfl

theorem reserve_snd {blocks entries : List (Str × Str)} (hne : blocks ≠ [])
    (h : blocks.mapM normalizeBlock = .ok entries) (ttlSeconds : Option Int) (s : Db) :
    (reserveTokens env blocks ttlSeconds s).2 =
      (lockTokensWithBlockHashes env entries ttlSeconds s).2 := by
  rw [reserveTokens, Py.bind_ok (Py.raiseIf_neg hne _ s), h, Py.bind_ok (Py.ofExcept_run _ s),
    reserveUploadBlocks_snd]

/-- A request is malformed, or its normalized blocks are locked. -/
theorem reserve_state (env : Env) (blocks : List (Str × Str)) (ttlSeconds : Option Int) (s : Db) :
    (reserveTokens env blocks ttlSeconds s).2 = s ∨
    ∃ entries, blocks.mapM normalizeBlock = .ok entries ∧
      (reserveTokens env blocks ttlSeconds s).2 =
        (lockTokensWithBlockHashes env entries ttlSeconds s).2 := by
  by_cases hnil : blocks = []
  · left
    rw [reserveTokens, Py.bind_error (Py.raiseIf_pos hnil _ s)]
  · cases hentries : blocks.mapM normalizeBlock with
    | error e =>
      left
      rw [reserveTokens, Py.bind_ok (Py.raiseIf_neg hnil _ s), hentries,
        Py.bind_error (Py.ofExcept_run _ s)]
    | ok entries =>
      right
      exact ⟨entries, rfl, reserve_snd hnil hentries ttlSeconds s⟩

end TwelveC.Registry
