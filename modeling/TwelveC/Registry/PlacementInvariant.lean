import TwelveC.Registry.ReservedRows
import TwelveC.Registry.Rejections

/-!
# The placements of a token belong together

A token with live placements has one primary among them, and all of them carry
one block hash and one expiry. Every operation keeps this, with one exception:
the removal of a relay deletes the rows of that relay alone, which may be the
primary of a token whose replicas stay.
-/

namespace TwelveC.Registry.PlacementInvariant

open Lib Lib.Run Relay.BlockAuth Scheduling RegistryRepository

/-- A placement of the token that has not expired. -/
def Live (s : Db) (token relayId : Str) (row : PlacementRow) : Prop :=
  s.placements.find (token, relayId) = some row ∧ s.now < row.expiryAt

structure Together (s : Db) (token : Str) : Prop where
  primary : ∃! relayId, ∃ row, Live s token relayId row ∧ row.role = .primary
  agree : ∀ relayId row other row', Live s token relayId row → Live s token other row' →
    row.blockHash = row'.blockHash ∧ row.expiryAt = row'.expiryAt

def Consistent (s : Db) : Prop :=
  ∀ token, (∃ relayId row, Live s token relayId row) → Together s token

/-- The relay holds the primary of a token that has other placements as well. -/
def Carries (s : Db) (relayId : Str) : Prop :=
  ∃ token row other row', Live s token relayId row ∧ row.role = .primary ∧ other ≠ relayId ∧
    Live s token other row'

/-- No relay is removed while it carries a token. -/
def RemovalSafe (s : Db) : Operation → Prop
  | .removeAllowlist relayId => ∀ normalized, normalizeRelayId relayId = .ok normalized →
      (s.allowlist.find normalized).isSome → ¬ Carries s normalized
  | _ => True

variable {s s' : Db}

/-- Rows may go as long as the primary of a token is the last to go. -/
theorem Consistent.shrink (h : Consistent s)
    (hsub : ∀ token relayId row, Live s' token relayId row → Live s token relayId row)
    (hprimary : ∀ token relayId row other row', Live s token relayId row → row.role = .primary →
      Live s' token other row' → Live s' token relayId row) : Consistent s' := by
  intro token hlive
  obtain ⟨other, row', hother⟩ := hlive
  obtain ⟨⟨relayId, ⟨row, hrow, hrole⟩, hunique⟩, hagree⟩ := h token ⟨other, row', hsub _ _ _ hother⟩
  constructor
  · refine ⟨relayId, ⟨row, hprimary _ _ _ _ _ hrow hrole hother, hrole⟩, ?_⟩
    rintro another ⟨row'', hlive, hrole'⟩
    exact hunique another ⟨row'', hsub _ _ _ hlive, hrole'⟩
  · intro relayId row other row' hl hl'
    exact hagree _ _ _ _ (hsub _ _ _ hl) (hsub _ _ _ hl')

theorem live_congr (hplacements : s'.placements = s.placements) (hnow : s'.now = s.now) :
    Live s' = Live s := by
  funext token relayId row
  rw [Live, Live, hplacements, hnow]

theorem Consistent.congr (h : Consistent s) (hplacements : s'.placements = s.placements)
    (hnow : s'.now = s.now) : Consistent s' := by
  apply h.shrink
  · intro token relayId row hlive
    rwa [live_congr hplacements hnow] at hlive
  · intro token relayId row other row' hlive _ _
    rwa [live_congr hplacements hnow]

theorem live_tickBy {elapsed : Nat} {token relayId : Str} {row : PlacementRow} :
    Live (tickBy elapsed s) token relayId row ↔
      s.placements.find (token, relayId) = some row ∧ s.now + elapsed < row.expiryAt := Iff.rfl

/-- All placements of a token expire together. -/
theorem consistent_tickBy (h : Consistent s) (elapsed : Nat) : Consistent (tickBy elapsed s) := by
  have hsub : ∀ token relayId row, Live (tickBy elapsed s) token relayId row →
      Live s token relayId row := by
    intro token relayId row hlive
    obtain ⟨hfind, hlater⟩ := live_tickBy.mp hlive
    exact ⟨hfind, by omega⟩
  apply h.shrink hsub
  intro token relayId row other row' hrow _ hother
  obtain ⟨-, hexpiry⟩ := (h token ⟨relayId, row, hrow⟩).agree _ _ _ _ hrow (hsub _ _ _ hother)
  obtain ⟨-, hlater⟩ := live_tickBy.mp hother
  exact live_tickBy.mpr ⟨hrow.1, by omega⟩

theorem live_purgeExpired {token relayId : Str} {row : PlacementRow} :
    Live (purgeExpired s) token relayId row ↔ Live s token relayId row := by
  have hnow : (purgeExpired s).now = s.now := rfl
  rw [Live, Live, hnow, purgeExpired, Table.find_filter, Option.filter_eq_some_iff, decide_eq_true_iff]
  constructor
  · rintro ⟨⟨hfind, -⟩, hlive⟩
    exact ⟨hfind, hlive⟩
  · rintro ⟨hfind, hlive⟩
    exact ⟨⟨hfind, by omega⟩, hlive⟩

theorem consistent_purgeExpired (h : Consistent s) : Consistent (purgeExpired s) := by
  apply h.shrink
  · intro token relayId row hlive
    exact live_purgeExpired.mp hlive
  · intro token relayId row other row' hlive _ _
    exact live_purgeExpired.mpr hlive

/-- Only replicas are deleted. -/
theorem consistent_abandonRows (h : Consistent s) (failures : List (Str × Str)) :
    Consistent (abandonRows failures s) := by
  apply h.shrink
  · rintro token relayId row ⟨hfind, hlive⟩
    exact ⟨(find_abandonRows.mp hfind).1, hlive⟩
  · intro token relayId row other row' hlive hrole _
    refine ⟨find_abandonRows.mpr ⟨hlive.1, ?_⟩, hlive.2⟩
    rintro ⟨-, hreplica⟩
    rw [hrole] at hreplica
    cases hreplica

theorem live_deleteRelayRows {token relayId removed : Str} {row : PlacementRow} :
    Live (deleteRelayRows removed s) token relayId row ↔
      relayId ≠ removed ∧ Live s token relayId row := by
  have hnow : (deleteRelayRows removed s).now = s.now := rfl
  rw [Live, Live, hnow, deleteRelayRows]
  simp only [Table.find_filter, Option.filter_eq_some_iff, decide_eq_true_iff]
  tauto

/-- The removal leaves a token without its primary exactly if the relay carries one. -/
theorem consistent_deleteRelayRows_iff (h : Consistent s) (removed : Str) :
    Consistent (deleteRelayRows removed s) ↔ ¬ Carries s removed := by
  constructor
  · rintro hafter ⟨token, row, other, row', hrow, hrole, hne, hother⟩
    have hleft := live_deleteRelayRows.mpr ⟨hne, hother⟩
    obtain ⟨⟨relayId, ⟨row'', hlive, hrole'⟩, -⟩, -⟩ := hafter token ⟨other, row', hleft⟩
    obtain ⟨hkept, hlive⟩ := live_deleteRelayRows.mp hlive
    exact hkept ((h token ⟨removed, row, hrow⟩).primary.unique ⟨row'', hlive, hrole'⟩
      ⟨row, hrow, hrole⟩)
  · intro hcarries
    apply h.shrink
    · intro token relayId row hlive
      exact (live_deleteRelayRows.mp hlive).2
    · intro token relayId row other row' hrow hrole hother
      obtain ⟨hne, hleft⟩ := live_deleteRelayRows.mp hother
      refine live_deleteRelayRows.mpr ⟨?_, hrow⟩
      intro hsame
      rw [hsame] at hrow
      exact hcarries ⟨token, row, other, row', hrow, hrole, hne, hleft⟩

/-- The relay is unknown, or its rows are deleted. -/
theorem removeAllowlistEntry_cases (relayId : Str) (s : Db) :
    ((removeAllowlistEntry relayId s).2 = s ∧ ∀ normalized, normalizeRelayId relayId = .ok normalized →
      s.allowlist.find normalized = none) ∨
    ∃ normalized, normalizeRelayId relayId = .ok normalized ∧
      (s.allowlist.find normalized).isSome ∧
      (removeAllowlistEntry relayId s).2 = deleteRelayRows normalized s := by
  rw [removeAllowlistEntry]
  cases hid : normalizeRelayId relayId with
  | error e =>
    rw [Py.bind_error (Py.ofExcept_run _ s)]
    exact .inl ⟨rfl, fun normalized h => by cases h⟩
  | ok normalized =>
    rw [Py.bind_ok (Py.ofExcept_run _ s)]
    have hread : getAllowlistRecord normalized s =
        (.ok ((s.allowlist.find normalized).map rowToAllowlistRecord), s) := rfl
    cases hfind : s.allowlist.find normalized with
    | none =>
      rw [hfind] at hread
      have hdelete : deleteAllowlistEntry normalized s = (.ok false, s) := by
        rw [deleteAllowlistEntry, Py.bind_ok hread]
        rfl
      rw [Py.bind_ok hdelete, Py.raiseIf_pos rfl]
      refine .inl ⟨rfl, fun other h => ?_⟩
      cases h
      exact hfind
    | some row =>
      rw [hfind] at hread
      have hdelete : deleteAllowlistEntry normalized s = (.ok true, deleteRelayRows normalized s) := by
        rw [deleteAllowlistEntry, Py.bind_ok hread]
        rfl
      rw [Py.bind_ok hdelete, Py.raiseIf_neg (by decide)]
      exact .inr ⟨normalized, rfl, by rw [hfind]; rfl, rfl⟩

theorem consistent_remove_iff (h : Consistent s) (relayId : Str) :
    Consistent (removeAllowlistEntry relayId s).2 ↔ RemovalSafe s (.removeAllowlist relayId) := by
  rw [RemovalSafe]
  rcases removeAllowlistEntry_cases relayId s with
    ⟨hstate, hunknown⟩ | ⟨normalized, hid, hknown, hstate⟩
  · rw [hstate]
    constructor
    · intro _ normalized hid hknown
      rw [hunknown normalized hid] at hknown
      cases hknown
    · intro _
      exact h
  · rw [hstate, consistent_deleteRelayRows_iff h]
    constructor
    · intro hsafe other hother _
      rw [hid] at hother
      cases hother
      exact hsafe
    · intro hsafe
      exact hsafe normalized hid hknown

section reserved

variable {entries : List (Str × Str)} {healthy : List HealthyRelay} {choice : StripeReplicaChoice}
  {planned : List PlannedPlacement} {maxReplicasPerBlock expiryAt updatedAt : Int} {token relayId : Str}

/-- The primary of a token in a correct plan. -/
theorem exists_primary (h : CorrectPlan entries healthy maxReplicasPerBlock (choice, planned))
    {e : Str × Str} (he : e ∈ entries) :
    ∃ p ∈ planned, p.token = e.1 ∧ p.role = .primary ∧
      ∀ q ∈ planned, q.token = e.1 → q.role = .primary → q = p := by
  obtain ⟨p, hp⟩ := List.length_eq_one_iff.mp (h.primaries e he)
  have hiff : ∀ q, q ∈ planned ∧ q.token = e.1 ∧ q.role = .primary ↔ q = p := by
    intro q
    rw [← List.mem_singleton (b := p), ← hp, rowsOf, List.mem_filter, List.mem_filter]
    simp [and_assoc]
  obtain ⟨hmem, htoken, hrole⟩ := (hiff p).mpr rfl
  exact ⟨p, hmem, htoken, hrole, fun q hq ht hr => (hiff q).mp ⟨hq, ht, hr⟩⟩

/-- A plan names its tokens with the block hashes of the request. -/
theorem planned_entry (h : CorrectPlan entries healthy maxReplicasPerBlock (choice, planned))
    {p : PlannedPlacement} (hp : p ∈ planned) : (p.token, p.blockHash) ∈ entries := by
  obtain ⟨entry, hentry, relay, -, role, rfl⟩ := h.uses p hp
  exact hentry

/-- The tokens of the request had no live placement, so their live rows are those of the plan. -/
theorem live_writeRows (h : CorrectPlan entries healthy maxReplicasPerBlock (choice, planned))
    (hfree : ∀ e ∈ entries, ∀ relayId row, ¬ Live s e.1 relayId row) {row : PlacementRow}
    (hlive : Live (writeRows planned expiryAt updatedAt s) token relayId row) :
    (Live s token relayId row ∧ ∀ p ∈ planned, p.token ≠ token) ∨
      ∃ p ∈ planned, p.token = token ∧ p.relayId = relayId ∧ row = plannedRow p expiryAt updatedAt := by
  obtain ⟨hfind, hexpiry⟩ := hlive
  rw [writeRows_now] at hexpiry
  by_cases hother : ∀ p ∈ planned, p.token ≠ token
  · rw [find_writeRows_other hother] at hfind
    exact .inl ⟨⟨hfind, hexpiry⟩, hother⟩
  · right
    rcases find_writeRows hfind with hplanned | hold
    · exact hplanned
    · simp only [not_forall, not_not] at hother
      obtain ⟨p, hp, rfl⟩ := hother
      exact absurd ⟨hold, hexpiry⟩ (hfree _ (planned_entry h hp) relayId row)

theorem consistent_writeRows (hs : Consistent s)
    (h : CorrectPlan entries healthy maxReplicasPerBlock (choice, planned))
    (htokens : (entries.map Prod.fst).Nodup)
    (hfree : ∀ e ∈ entries, ∀ relayId row, ¬ Live s e.1 relayId row) :
    Consistent (writeRows planned expiryAt updatedAt s) := by
  intro token hlive
  obtain ⟨relayId, row, hrow⟩ := hlive
  rcases live_writeRows h hfree hrow with ⟨hold, hother⟩ | ⟨p, hp, rfl, rfl, rfl⟩
  · -- the rows of the token are those from before
    have hsame : ∀ relayId row, Live (writeRows planned expiryAt updatedAt s) token relayId row ↔
        Live s token relayId row := by
      intro relayId row
      rw [Live, Live, find_writeRows_other hother, writeRows_now]
    obtain ⟨hprimary, hagree⟩ := hs token ⟨relayId, row, hold⟩
    constructor
    · simp only [hsame]
      exact hprimary
    · simp only [hsame]
      exact hagree
  · -- the token is one of the request: its live rows are planned ones, all of one expiry
    have hexpiry : s.now < expiryAt := hrow.2
    have hentry := planned_entry h hp
    have hrows : ∀ relayId row, Live (writeRows planned expiryAt updatedAt s) p.token relayId row →
        ∃ q ∈ planned, q.token = p.token ∧ q.relayId = relayId ∧
          row = plannedRow q expiryAt updatedAt := by
      intro relayId row hlive
      rcases live_writeRows h hfree hlive with ⟨-, hother⟩ | hplanned
      · exact absurd rfl (hother p hp)
      · exact hplanned
    obtain ⟨first, hfirst, htoken, hrole, hunique⟩ := exists_primary h hentry
    constructor
    · refine ⟨first.relayId, ?_, ?_⟩
      · obtain ⟨q, hq, hqtoken, hqrelay, hfind⟩ :=
          find_writeRows_planned expiryAt updatedAt s hfirst
        have hqrole : q.role = .primary := by
          cases hqr : q.role with
          | primary => rfl
          | replica => exact absurd hqrelay.symm (h.pools first hfirst q hq hrole hqr)
        rw [htoken] at hfind
        exact ⟨plannedRow q expiryAt updatedAt, ⟨hfind, hexpiry⟩, hqrole⟩
      · rintro other ⟨row, hlive, hprimary⟩
        obtain ⟨q, hq, hqtoken, rfl, rfl⟩ := hrows other row hlive
        rw [hunique q hq hqtoken hprimary]
    · intro relayId row other row' hlive hlive'
      obtain ⟨q, hq, hqtoken, -, rfl⟩ := hrows _ _ hlive
      obtain ⟨q', hq', hqtoken', -, rfl⟩ := hrows _ _ hlive'
      have hhash : q.blockHash = q'.blockHash := by
        have hq := planned_entry h hq
        have hq' := planned_entry h hq'
        rw [hqtoken] at hq
        rw [hqtoken'] at hq'
        exact congrArg Prod.snd (List.inj_on_of_nodup_map htokens hq hq' rfl)
      exact ⟨hhash, rfl⟩

end reserved

/-- After the purge a token without a live primary has no placement at all. -/
theorem not_live_of_not_occupied (h : Consistent s) {token : Str}
    (hfree : occupiedToken (purgeExpired s) token = none) (relayId : Str) (row : PlacementRow) :
    ¬ Live (purgeExpired s) token relayId row := by
  intro hlive
  obtain ⟨⟨primary, ⟨row', hrow', hrole⟩, -⟩, -⟩ :=
    consistent_purgeExpired h token ⟨relayId, row, hlive⟩
  have hsome : (primaryPlacement (purgeExpired s) token).isSome := by
    rw [primaryPlacement, List.find?_isSome]
    exact ⟨_, mem_tokenPlacements.mpr ⟨row', hrow'.1, rfl⟩, by simpa using hrole⟩
  obtain ⟨⟨other, found⟩, hfound⟩ := Option.isSome_iff_exists.mp hsome
  obtain ⟨stored, hstored, rfl⟩ := mem_tokenPlacements.mp (List.mem_of_find?_eq_some hfound)
  rw [purgeExpired, Table.find_filter, Option.filter_eq_some_iff, decide_eq_true_iff] at hstored
  have hnow : (purgeExpired s).now = s.now := rfl
  rw [occupiedToken, hfound] at hfree
  dsimp only at hfree
  rw [hnow, if_neg hstored.2] at hfree
  cases hfree

theorem consistent_lock (h : Consistent s) (env : Env) (entries : List (Str × Str))
    (ttlSeconds : Option Int) :
    Consistent (lockTokensWithBlockHashes env entries ttlSeconds s).2 := by
  rcases lock_state env entries ttlSeconds s with
    hstate | ⟨resolution, hne, hdup, hfree, hplan, hstate⟩
  · rw [hstate]
    exact consistent_purgeExpired h
  · have htokens := (checkDuplicates_ok hdup).1
    obtain ⟨pool, choice, hcorrect⟩ :=
      resolve_correct hne htokens (healthyRelays_nodup env s) hplan
    rw [hstate, upsertPlacements_eq]
    exact consistent_writeRows (consistent_purgeExpired h) hcorrect htokens
      fun e he => not_live_of_not_occupied h (hfree e he)

theorem consistent_reserve (h : Consistent s) (env : Env) (blocks : List (Str × Str))
    (ttlSeconds : Option Int) : Consistent (reserveTokens env blocks ttlSeconds s).2 := by
  rcases reserve_state env blocks ttlSeconds s with hstate | ⟨entries, -, hstate⟩
  · rw [hstate]
    exact h
  · rw [hstate]
    exact consistent_lock h env entries ttlSeconds

section elsewhere

open Py

/-- The placements and the clock are those of a given state. -/
def SamePlacements (s₀ s : Db) : Prop := s.placements = s₀.placements ∧ s.now = s₀.now

variable {s₀ : Db} {env : Env} {gen : Generated}

theorem lasting_placements (s₀ : Db) : Rejections.Lasting (SamePlacements s₀) where
  registryKey _ _ _ _ _ hs := hs
  blockAuthKey _ _ hs := hs

theorem patchAllowlistEntry_preserves (relayId : Str) (relayBaseUrl : Option (Option Str))
    (enabled : Option Bool) :
    Preserves (SamePlacements s₀) (patchAllowlistEntry relayId relayBaseUrl enabled) := by
  refine preserves_bind (preserves_read _) ?_
  intro existing
  cases existing with
  | none => exact preserves_pure _
  | some record =>
    refine preserves_bind (preserves_modify fun s hs => hs) ?_
    intro _
    exact preserves_read _

theorem resolveUrl_preserves (relayId relayBaseUrl : Str) :
    Preserves (SamePlacements s₀) (resolveReportedRelayBaseUrl env relayId relayBaseUrl) := by
  refine preserves_bind (preserves_ofExcept _) ?_
  intro normalized
  refine preserves_bind (preserves_read _) ?_
  intro record
  cases record with
  | none => exact preserves_raise _
  | some record =>
    refine preserves_bind (preserves_raiseIf _ _) ?_
    intro _
    cases record.relayBaseUrl with
    | none =>
      refine preserves_bind (preserves_raiseIf _ _) ?_
      intro _
      refine preserves_bind (patchAllowlistEntry_preserves _ _ _) ?_
      intro updated
      cases updated with
      | none => exact preserves_raise _
      | some row => exact preserves_pure _
    | some url => exact preserves_bind (preserves_raiseIf _ _) fun _ => preserves_pure _

theorem authenticateRelay_preserves (relayId keyId key : Str) (consume : Bool) :
    Preserves (SamePlacements s₀) (authenticateRelay env relayId keyId key consume) := by
  refine preserves_bind (preserves_read _) ?_
  intro allowed
  refine preserves_bind (preserves_raiseIf _ _) ?_
  intro _
  refine preserves_bind (preserves_read _) ?_
  intro record
  cases record with
  | none => exact preserves_raise _
  | some record =>
    cases consume with
    | false => exact preserves_pure _
    | true =>
      have hspend : Preserves (SamePlacements s₀) (consumeRegistryApiKeyUse relayId keyId) := by
        refine preserves_bind (fun s hs => hs) ?_
        intro rowcount
        split
        · exact preserves_pure _
        · exact preserves_read _
      exact preserves_bind hspend fun remaining => preserves_bind (preserves_raiseIf _ _)
        fun _ => preserves_pure _

theorem heartbeat_preserves (r : HeartbeatRequest) :
    Preserves (SamePlacements s₀) (processHeartbeat env gen r) := by
  have hsave : Preserves (SamePlacements s₀) (savePublicKey r.relayId r.relayPublicKeyPem) := by
    rw [savePublicKey]
    split
    · exact preserves_modify fun s hs => hs
    · exact preserves_pure _
  have hrecord : Preserves (SamePlacements s₀) (recordHeartbeat env r) :=
    preserves_bind (resolveUrl_preserves _ _) fun _ => preserves_bind hsave
      fun _ => preserves_modify fun s hs => hs
  apply preserves_bind hrecord
  intro _
  rw [respond]
  split
  · refine preserves_bind (authenticateRelay_preserves _ _ _ _) ?_
    intro record
    exact Rejections.answer_preserves (lasting_placements s₀) _ record
  · exact Rejections.bootstrap_preserves (lasting_placements s₀) _

theorem checkBlock_preserves (r : BlockRequest) (token blockHash : Str) :
    Preserves (SamePlacements s₀) (checkBlock env r token blockHash) := by
  refine preserves_bind (resolveUrl_preserves _ _) ?_
  intro canonicalUrl
  refine preserves_bind (authenticateRelay_preserves _ _ _ _) ?_
  intro _
  exact preserves_bind (Rejections.validate_preserves _ _) fun _ => preserves_pure _

theorem register_preserves (r : BlockRequest) :
    Preserves (SamePlacements s₀) (registerBlockFromRelay env r) := by
  refine preserves_bind (preserves_ofExcept _) fun token => ?_
  refine preserves_bind (preserves_ofExcept _) fun blockHash => ?_
  exact preserves_bind (checkBlock_preserves _ _ _) fun _ => preserves_pure _

theorem verifyOverwrite_preserves (r : BlockRequest) :
    Preserves (SamePlacements s₀) (verifyOverwrite env r) := by
  refine preserves_bind (preserves_ofExcept _) fun token => ?_
  refine preserves_bind (preserves_ofExcept _) fun blockHash => ?_
  refine preserves_bind (checkBlock_preserves _ _ _) fun checked s hs => ?_
  rw [Rejections.verifyOverwrite_reads]
  exact hs

theorem addAllowlistEntry_preserves (relayId : Str) (relayBaseUrl : Option Str) :
    Preserves (SamePlacements s₀) (addAllowlistEntry relayId relayBaseUrl) := by
  refine preserves_bind (preserves_ofExcept _) fun normalizedId => ?_
  refine preserves_bind (preserves_ofExcept _) fun normalizedUrl => ?_
  refine preserves_bind (preserves_modify fun s hs => hs) fun _ => ?_
  refine preserves_bind (preserves_read _) fun record => ?_
  cases record with
  | none => exact preserves_raise _
  | some row => exact preserves_pure _

theorem changeAllowlistEntry_preserves (relayId : Str) (relayBaseUrl : Option (Option Str))
    (enabled : Option Bool) :
    Preserves (SamePlacements s₀) (changeAllowlistEntry relayId relayBaseUrl enabled) := by
  refine preserves_bind (preserves_ofExcept _) fun normalizedId => ?_
  refine preserves_bind (preserves_ofExcept _) fun urlArg => ?_
  refine preserves_bind (patchAllowlistEntry_preserves _ _ _) fun record => ?_
  cases record with
  | none => exact preserves_raise _
  | some row => exact preserves_pure _

theorem consistent_of_preserves {α : Type} {x : Py Db α} (h : Consistent s)
    (hx : Preserves (SamePlacements s) x) : Consistent (x s).2 := by
  obtain ⟨hplacements, hnow⟩ := hx s ⟨rfl, rfl⟩
  exact h.congr hplacements hnow

end elsewhere

/-- An operation keeps the placements consistent exactly if it is no unsafe removal. -/
theorem consistent_perform_iff (env : Env) (s : Db) (op : Operation) (h : Consistent s) :
    Consistent (perform env s op) ↔ RemovalSafe s op := by
  cases op with
  | removeAllowlist relayId => exact consistent_remove_iff h relayId
  | heartbeat r gen =>
    exact iff_of_true (consistent_of_preserves h (heartbeat_preserves r)) trivial
  | register r => exact iff_of_true (consistent_of_preserves h (register_preserves r)) trivial
  | verifyOverwrite r =>
    exact iff_of_true (consistent_of_preserves h (verifyOverwrite_preserves r)) trivial
  | addAllowlist relayId relayBaseUrl =>
    exact iff_of_true (consistent_of_preserves h (addAllowlistEntry_preserves _ _)) trivial
  | changeAllowlist relayId relayBaseUrl enabled =>
    exact iff_of_true (consistent_of_preserves h (changeAllowlistEntry_preserves _ _ _)) trivial
  | reserve blocks ttlSeconds => exact iff_of_true (consistent_reserve h env _ _) trivial
  | abandon failures =>
    refine iff_of_true ?_ trivial
    rcases abandonReplicas_cases failures s with ⟨e, hrun⟩ | ⟨normalized, removed, -, hrun⟩
    · rw [perform, hrun]
      exact h
    · rw [perform, hrun]
      exact consistent_abandonRows h normalized
  | purge => exact iff_of_true (consistent_purgeExpired h) trivial
  | tick elapsed => exact iff_of_true (consistent_tickBy h elapsed) trivial

/-- A registry without any rows. -/
def emptyDb (now : Int) : Db :=
  { allowlist := Table.empty, relayStates := Table.empty, registryKeys := Table.empty,
    blockAuthKeys := Table.empty, placements := Table.empty, now }

theorem consistent_emptyDb (now : Int) : Consistent (emptyDb now) := by
  rintro token ⟨relayId, row, hfind, -⟩
  cases hfind

/-- The placements stay consistent throughout a run exactly when no relay is removed while it carries
a token. -/
theorem placements_consistent_iff (env : Env) (now : Int) (ops : List Operation) :
    Throughout (perform env) Consistent (emptyDb now) ops ↔
      Along (perform env) RemovalSafe (emptyDb now) ops :=
  throughout_iff (consistent_perform_iff env) (consistent_emptyDb now) ops

theorem mergeSort_pair {α : Type} (le : α → α → Bool) (a b : α) :
    [a, b].mergeSort le = if le a b then [a, b] else [b, a] := by
  rw [List.mergeSort]
  simp [List.MergeSort.Internal.splitInTwo, List.merge]

def sharedBlocks : List (Str × Str) := [(List.replicate 64 97, List.replicate 64 98)]

def twoRelays : List Operation :=
  [.addAllowlist (ascii "a") (some (ascii "http://a.test")),
    .addAllowlist (ascii "b") (some (ascii "http://b.test"))]

def twoRelaysDb : Db := exec (perform Rejections.sampleEnv) (emptyDb 0) twoRelays

def relayA : HealthyRelay := listedRelay (ascii "a", ascii "http://a.test")
def relayB : HealthyRelay := listedRelay (ascii "b", ascii "http://b.test")

theorem twoRelays_healthy : healthyRelays Rejections.sampleEnv twoRelaysDb = [relayA, relayB] := by
  have hrows : listedRows twoRelaysDb =
      [(ascii "a", ascii "http://a.test"), (ascii "b", ascii "http://b.test")] := by
    decide +kernel
  have hfresh : freshRelays Rejections.sampleEnv twoRelaysDb = [] := by decide +kernel
  rw [healthyRelays, hfresh, if_neg (by simp), listedRelays, hrows, mergeSort_pair]
  rfl

/-- The primary goes to relay `a`, a replica to `b`. -/
def sharedResolution : PlacementResolution :=
  { grantedTtlSeconds := 3600, requestedTtlSeconds := 3600, degraded := false,
    placementPlan := ⟨1, 1⟩,
    placements := sharedBlocks.flatMap fun e => [planned e relayA .primary, planned e relayB .replica],
    idealRelayCount := 2, actualRelayCount := 2 }

theorem shared_reserved :
    (reserveTokens Rejections.sampleEnv sharedBlocks none twoRelaysDb).2 =
      upsertPlacements sharedResolution.placements 3600 (purgeExpired twoRelaysDb) := by
  have hplan : reservePlan Rejections.sampleEnv twoRelaysDb sharedBlocks none =
      .ok sharedResolution := by
    rw [reservePlan, twoRelays_healthy]
    decide +kernel
  have hlock := lock_admitted (s := twoRelaysDb) (by decide) (by decide +kernel) (by decide +kernel)
    (by rw [twoRelays_healthy]; exact List.cons_ne_nil _ _) hplan
  rw [reserve_snd (by decide) (by decide +kernel : sharedBlocks.mapM normalizeBlock = .ok sharedBlocks),
    hlock, Py.bind_snd fun outcome t => rfl, lockPlanned_snd]
  rfl

/-- After relay `a` is removed the replica on `b` is left without a primary. -/
theorem orphaned_replica :
    ¬ Throughout (perform Rejections.sampleEnv) Consistent (emptyDb 0)
      (twoRelays ++ [.reserve sharedBlocks none, .removeAllowlist (ascii "a")]) := by
  intro h
  have hafter := h _ [] (List.append_nil _).symm
  have hstate : exec (perform Rejections.sampleEnv) (emptyDb 0)
      (twoRelays ++ [.reserve sharedBlocks none, .removeAllowlist (ascii "a")]) =
      (removeAllowlistEntry (ascii "a") (upsertPlacements sharedResolution.placements 3600
        (purgeExpired twoRelaysDb))).2 := by
    rw [exec_append, ← shared_reserved]
    rfl
  rw [hstate] at hafter
  have hrows : (removeAllowlistEntry (ascii "a") (upsertPlacements sharedResolution.placements 3600
      (purgeExpired twoRelaysDb))).2.placements.entries = [((List.replicate 64 97, ascii "b"),
        plannedRow (planned (List.replicate 64 97, List.replicate 64 98) relayB .replica)
          (seconds 3600) 0)] := by
    decide +kernel
  obtain ⟨⟨relayId, ⟨row, ⟨hfind, -⟩, hrole⟩, -⟩, -⟩ := hafter (List.replicate 64 97)
    ⟨ascii "b", _, Table.find_eq_some.mpr (by rw [hrows]; exact List.mem_singleton_self _), by decide +kernel⟩
  have hrow := Table.find_eq_some.mp hfind
  rw [hrows, List.mem_singleton] at hrow
  cases hrow
  cases hrole

end TwelveC.Registry.PlacementInvariant
