import TwelveC.Registry.Operations
import TwelveC.Registry.Rejections

/-!
# Granted TTLs and the relays that carry them

A grant keeps to the caps that the listing of healthy relays supplies. While
some heartbeat is fresh these are the reported ones. Without a fresh heartbeat
the listing falls back on the allowlist, with a default in place of the age that
the relay last reported.
-/

namespace TwelveC.Registry.GrantedTtl

open Lib Lib.Run Relay.BlockAuth Scheduling RegistryRepository

variable (env : Env)

/-- The reserve puts a block on this relay. -/
def Placed (s : Db) (blocks : List (Str × Str)) (ttlSeconds : Option Int) (relayId : Str) : Prop :=
  ∃ entries resolution, blocks.mapM normalizeBlock = .ok entries ∧
    reservePlan env s entries ttlSeconds = .ok resolution ∧
      ∃ p ∈ resolution.placements, p.relayId = relayId

/-- The cap that a relay's last report stands for. -/
def reportedCap (row : RelayStateRow) : Int :=
  effectiveCapSeconds row.blockMaxAgeSeconds env.placementPolicy.clockSkewSeconds

/-- The grant is within the reported cap of every relay that is used. -/
def WithinCaps (s : Db) (blocks : List (Str × Str)) (ttlSeconds : Option Int)
    (grantedTtlSeconds : Int) : Prop :=
  ∀ relayId row, Placed env s blocks ttlSeconds relayId → s.relayStates.find relayId = some row →
    grantedTtlSeconds ≤ reportedCap env row

/-- What is granted when no heartbeat is fresh. -/
def fallbackGrant (ttlSeconds : Option Int) : Int :=
  min (clampTtl env.placementPolicy (ttlSeconds.getD env.tokenTtlSeconds))
    (effectiveCapSeconds defaultBlockMaxAgeSeconds env.placementPolicy.clockSkewSeconds)

/-- Some heartbeat is fresh, or the reports of the used relays happen to carry the fallback grant. -/
def CapsKnown (s : Db) (blocks : List (Str × Str)) (ttlSeconds : Option Int) : Prop :=
  freshRelays env s ≠ [] ∨ WithinCaps env s blocks ttlSeconds (fallbackGrant env ttlSeconds)

variable {env} {s s' : Db} {blocks entries : List (Str × Str)} {ttlSeconds : Option Int}
  {resolution : PlacementResolution} {outcome : LockTokensOutcome}

/-- A fresh relay carries the age of its row. -/
theorem fresh_cap {relay : HealthyRelay} (h : relay ∈ freshRelays env s) {row : RelayStateRow}
    (hrow : s.relayStates.find relay.relayId = some row) :
    relayEffectiveCap env.placementPolicy relay = reportedCap env row := by
  obtain ⟨e, he, rfl⟩ := List.mem_map.mp h
  rw [List.mem_mergeSort, freshRows, List.mem_filterMap] at he
  obtain ⟨entry, hentry, hjoin⟩ := he
  have hrow' : entry.2 = row := by
    have hfind := Table.find_eq_some.mpr hentry
    have hid : e.1 = entry.1 := by
      split at hjoin
      · split at hjoin
        · cases hjoin
          rfl
        · cases hjoin
      · cases hjoin
    rw [← hid] at hfind
    exact Option.some.inj (hfind.symm.trans hrow)
  have hstate : e.2.1 = entry.2 := by
    split at hjoin
    · split at hjoin
      · cases hjoin
        rfl
      · cases hjoin
    · cases hjoin
  rw [relayEffectiveCap, freshRelay, hstate, hrow', reportedCap]

theorem listed_cap {relay : HealthyRelay} (h : relay ∈ listedRelays s) :
    relayEffectiveCap env.placementPolicy relay =
      effectiveCapSeconds defaultBlockMaxAgeSeconds env.placementPolicy.clockSkewSeconds := by
  obtain ⟨e, -, rfl⟩ := List.mem_map.mp h
  rfl

/-- All caps are the default, so the grant is the request or that default. -/
theorem fallback_granted (hfresh : freshRelays env s = [])
    (h : reservePlan env s entries ttlSeconds = .ok resolution) :
    resolution.grantedTtlSeconds = fallbackGrant env ttlSeconds := by
  obtain ⟨plan, hgrant, -, -⟩ := resolve_ok h
  rw [healthyRelays, if_neg (not_not.mpr hfresh)] at hgrant
  rw [fallbackGrant]
  rcases grantPool_granted hgrant with ⟨hall, relay, hrelay, hcap⟩ | ⟨hlow, relay, hrelay, hcap⟩
  · rw [listed_cap hrelay] at hcap
    exact hall.trans (Int.min_eq_left hcap).symm
  · have hlt := hlow relay hrelay
    rw [listed_cap hrelay] at hlt hcap
    exact hcap.symm.trans (Int.min_eq_right (Int.le_of_lt hlt)).symm

/-- The plan of a successful reserve, which is what `Placed` speaks of. -/
theorem reserved (h : reserveTokens env blocks ttlSeconds s = (.ok (.ok outcome), s')) :
    ∃ entries resolution, blocks.mapM normalizeBlock = .ok entries ∧
      reservePlan env s entries ttlSeconds = .ok resolution ∧
      outcome.grantedTtlSeconds = resolution.grantedTtlSeconds ∧ s'.relayStates = s.relayStates := by
  obtain ⟨entries, hentries, hne, hlock⟩ := reserve_ok h
  obtain ⟨resolution, -, -, hplan, hs, hgranted, -⟩ := lock_ok hne hlock
  exact ⟨entries, resolution, hentries, hplan, hgranted, by rw [hs]; rfl⟩

theorem withinCaps_iff (h : reserveTokens env blocks ttlSeconds s = (.ok (.ok outcome), s')) :
    WithinCaps env s blocks ttlSeconds outcome.grantedTtlSeconds ↔ CapsKnown env s blocks ttlSeconds := by
  obtain ⟨entries, resolution, hentries, hplan, hgranted, -⟩ := reserved h
  rw [CapsKnown, hgranted]
  by_cases hfresh : freshRelays env s = []
  · rw [fallback_granted hfresh hplan]
    simp [hfresh]
  · simp only [ne_eq, hfresh, not_false_eq_true, true_or, iff_true]
    rintro relayId row ⟨entries', resolution', hentries', hplan', p, hp, rfl⟩ hrow
    rw [hentries] at hentries'
    cases hentries'
    rw [hplan] at hplan'
    cases hplan'
    obtain ⟨entry, -, relay, hrelay, hcap, role, rfl⟩ := resolve_uses hplan hp
    rw [healthyRelays, if_pos hfresh] at hrelay
    exact Int.le_trans hcap (Int.le_of_eq (fresh_cap hrelay hrow))

/-- A successful reserve grants no more than the last reports of the relays it uses. -/
def GrantHonoured (env : Env) (s : Db) : Operation → Prop
  | .reserve blocks ttlSeconds => ∀ outcome s',
      reserveTokens env blocks ttlSeconds s = (.ok (.ok outcome), s') →
        WithinCaps env s blocks ttlSeconds outcome.grantedTtlSeconds
  | _ => True

/-- The caps of a reserve that succeeds are known when it is made. -/
def CapsKnownAt (env : Env) (s : Db) : Operation → Prop
  | .reserve blocks ttlSeconds =>
      (∃ outcome s', reserveTokens env blocks ttlSeconds s = (.ok (.ok outcome), s')) →
        CapsKnown env s blocks ttlSeconds
  | _ => True

theorem grantHonoured_iff (s : Db) (op : Operation) :
    GrantHonoured env s op ↔ CapsKnownAt env s op := by
  cases op with
  | reserve blocks ttlSeconds =>
    constructor
    · rintro h ⟨outcome, s', hr⟩
      exact (withinCaps_iff hr).mp (h outcome s' hr)
    · intro h outcome s' hr
      exact (withinCaps_iff hr).mpr (h ⟨outcome, s', hr⟩)
  | _ => exact Iff.rfl

/-- The grants of a run are honoured exactly when every successful reserve of it knew the caps. -/
theorem grants_honoured_iff (env : Env) (s : Db) (ops : List Operation) :
    Along (perform env) (GrantHonoured env) s ops ↔ Along (perform env) (CapsKnownAt env) s ops :=
  along_congr grantHonoured_iff s ops

def sampleToken : Str := List.replicate 64 97
def sampleHash : Str := List.replicate 64 98

def sampleBlocks : List (Str × Str) := [(sampleToken, sampleHash)]

/-- The relay keeps blocks for 120 seconds. -/
def shortLived : Operation :=
  .heartbeat { relayId := Rejections.sampleRelay, relayBaseUrl := Rejections.sampleUrl,
               report := { Rejections.sampleReport with blockMaxAgeSeconds := 120 },
               registryApiKeyId := some (ascii "key-1"), registryApiKey := some (ascii "secret"),
               relayPublicKeyPem := some (ascii "PEM A") } Rejections.sampleGenerated

/-- Ten minutes after that heartbeat. -/
def lateDb : Db :=
  exec (perform Rejections.sampleEnv) Rejections.sampleDb [shortLived, .tick 600000000]

def lateOutcome : LockTokensOutcome :=
  { routes := [⟨sampleToken, [⟨.primary, Rejections.sampleRelay, Rejections.sampleUrl⟩]⟩],
    grantedTtlSeconds := 3600, requestedTtlSeconds := 3600, degraded := false, stripeCount := 1,
    replicaFactor := 0, idealRelayCount := 1, actualRelayCount := 1 }

def lateResolution : PlacementResolution :=
  { grantedTtlSeconds := 3600, requestedTtlSeconds := 3600, degraded := false,
    placementPlan := ⟨1, 0⟩,
    placements := [⟨sampleToken, sampleHash, Rejections.sampleRelay, Rejections.sampleUrl, .primary⟩],
    idealRelayCount := 1, actualRelayCount := 1 }

/-- The relay drops blocks after two minutes; ten minutes after its last heartbeat an upload is
granted an hour on it. -/
theorem stale_relay_outlived :
    ¬ Along (perform Rejections.sampleEnv) (GrantHonoured Rejections.sampleEnv) Rejections.sampleDb
      [shortLived, .tick 600000000, .reserve sampleBlocks (some 3600)] := by
  rintro ⟨-, -, hreserve, -⟩
  have hok : (reserveTokens Rejections.sampleEnv sampleBlocks (some 3600) lateDb).1 =
      .ok (.ok lateOutcome) := by
    decide +kernel
  have hplaced : Placed Rejections.sampleEnv lateDb sampleBlocks (some 3600) Rejections.sampleRelay :=
    ⟨sampleBlocks, lateResolution, by decide +kernel, by decide +kernel, _, List.mem_singleton_self _,
      rfl⟩
  have hrow : (lateDb.relayStates.find Rejections.sampleRelay).map (·.blockMaxAgeSeconds) = some 120 := by
    decide +kernel
  obtain ⟨row, hfind, hage⟩ := Option.map_eq_some_iff.mp hrow
  have hrun : reserveTokens Rejections.sampleEnv sampleBlocks (some 3600) lateDb =
      (.ok (.ok lateOutcome), (reserveTokens Rejections.sampleEnv sampleBlocks (some 3600) lateDb).2) := by
    rw [← hok]
  have hle := hreserve lateOutcome _ hrun Rejections.sampleRelay row hplaced hfind
  rw [reportedCap, hage] at hle
  revert hle
  decide

end TwelveC.Registry.GrantedTtl
