import TwelveC.Registry.Reserve
import TwelveC.Lib.Run

/-!
# Runs of the registry

One operation after another, with time passing in between. A resolve deletes
expired rows and changes nothing else, so `purge` stands for it.
-/

namespace TwelveC.Registry

open Lib RegistryRepository

inductive Operation where
  | heartbeat (r : HeartbeatRequest) (gen : Generated)
  | register (r : BlockRequest)
  | verifyOverwrite (r : BlockRequest)
  | reserve (blocks : List (Str × Str)) (ttlSeconds : Option Int)
  | abandon (failures : List (Str × Str))
  | purge
  | addAllowlist (relayId : Str) (relayBaseUrl : Option Str)
  | changeAllowlist (relayId : Str) (relayBaseUrl : Option (Option Str)) (enabled : Option Bool)
  | removeAllowlist (relayId : Str)
  | tick (elapsed : Nat)
  deriving DecidableEq

def tickBy (elapsed : Nat) (s : Db) : Db := { s with now := s.now + elapsed }

variable (env : Env)

/-- The tables after an operation, whether it returned or raised. -/
def perform (s : Db) : Operation → Db
  | .heartbeat r gen => (processHeartbeat env gen r s).2
  | .register r => (registerBlockFromRelay env r s).2
  | .verifyOverwrite r => (verifyOverwrite env r s).2
  | .reserve blocks ttlSeconds => (reserveTokens env blocks ttlSeconds s).2
  | .abandon failures => (abandonReplicas failures s).2
  | .purge => purgeExpired s
  | .addAllowlist relayId relayBaseUrl => (addAllowlistEntry relayId relayBaseUrl s).2
  | .changeAllowlist relayId relayBaseUrl enabled =>
    (changeAllowlistEntry relayId relayBaseUrl enabled s).2
  | .removeAllowlist relayId => (removeAllowlistEntry relayId s).2
  | .tick elapsed => tickBy elapsed s

variable {env} {s s' : Db} {blocks : List (Str × Str)} {ttlSeconds : Option Int}

/-- A successful reserve locked the normalized blocks. -/
theorem reserve_ok {outcome : LockTokensOutcome}
    (h : reserveTokens env blocks ttlSeconds s = (.ok (.ok outcome), s')) :
    ∃ entries, blocks.mapM normalizeBlock = .ok entries ∧ entries ≠ [] ∧
      lockTokensWithBlockHashes env entries ttlSeconds s = (.ok (.ok outcome), s') := by
  rw [reserveTokens] at h
  by_cases hnil : blocks = []
  · rw [Py.bind_error (Py.raiseIf_pos hnil _ s)] at h
    cases h
  · rw [Py.bind_ok (Py.raiseIf_neg hnil _ s)] at h
    cases hentries : blocks.mapM normalizeBlock with
    | error e =>
      rw [hentries, Py.bind_error (Py.ofExcept_run _ s)] at h
      cases h
    | ok entries =>
      rw [hentries, Py.bind_ok (Py.ofExcept_run _ s), reserveUploadBlocks] at h
      refine ⟨entries, rfl, ?_, ?_⟩
      · rintro rfl
        obtain ⟨block, rest, rfl⟩ := List.exists_cons_of_ne_nil hnil
        rw [List.mapM_cons] at hentries
        obtain ⟨entry, -, hentries⟩ := except_bind_eq_ok.mp hentries
        obtain ⟨entries, -, hentries⟩ := except_bind_eq_ok.mp hentries
        cases hentries
      · cases hlock : lockTokensWithBlockHashes env entries ttlSeconds s with
        | mk result s₁ =>
          cases result with
          | ok value =>
            rw [Py.tryExcept_ok hlock] at h
            exact h
          | error e =>
            rw [Py.tryExcept_error hlock] at h
            cases h

/-- A report of failed replicas is refused as a whole, or the rows that it names are deleted. -/
theorem abandonReplicas_cases (failures : List (Str × Str)) (s : Db) :
    (∃ e, abandonReplicas failures s = (.error e, s)) ∨
    ∃ normalized removed, failures.mapM normalizeFailure = .ok normalized ∧
      abandonReplicas failures s = (.ok removed, abandonRows normalized s) := by
  rw [abandonReplicas]
  by_cases hnil : failures = []
  · exact .inl ⟨_, Py.bind_error (Py.raiseIf_pos hnil _ s)⟩
  · rw [Py.bind_ok (Py.raiseIf_neg hnil _ s)]
    cases hnormalized : failures.mapM normalizeFailure with
    | error e => exact .inl ⟨e, Py.bind_error (Py.ofExcept_run _ s)⟩
    | ok normalized =>
      rw [Py.bind_ok (Py.ofExcept_run _ s)]
      exact .inr ⟨normalized, _, rfl, rfl⟩

theorem find_abandonRows {failures : List (Str × Str)} {s : Db} {key : Str × Str} {row : PlacementRow} :
    (abandonRows failures s).placements.find key = some row ↔
      s.placements.find key = some row ∧ ¬ (key ∈ failures ∧ row.role = .replica) := by
  rw [abandonRows, Table.find_filter, Option.filter_eq_some_iff, decide_eq_true_iff]

end TwelveC.Registry
