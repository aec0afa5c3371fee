import TwelveC.Registry.Registration

/-!
# When an approval is atomic

The allowlist entry is committed before the request is marked. Marking fails if
another request still carries the relay id, from an earlier approval whose
allowlist entry was removed since; then the relay is admitted and its request
stays pending.
-/

namespace TwelveC.Registry.ApprovalAtomic

open Lib Lib.Run Relay.BlockAuth RegistryRepository RegistrationRepository

variable {s : RegistrationDb} {installId : Str} {relayId : Option Str} {draws : Nat → Bytes}

def allowlistKeys (s : RegistrationDb) : List Str := s.db.allowlist.entries.map Prod.fst

/-- The checks before the first write pass: the request `install` is pending, `assigned` is a relay id
that is not on the allowlist, and the request's URL can go there. -/
structure Approves (s : RegistrationDb) (installId : Str) (relayId : Option Str) (draws : Nat → Bytes)
    (install assigned : Str) (request : RequestRow) (url : Str) : Prop where
  normalized : normalizeInstallId installId = .ok install
  found : (s.requests.find install).map rowToRegistrationRequest = some request
  pending : request.status = .pending
  chosen : assignedId relayId draws (allowlistKeys s) = .ok assigned
  fresh : assigned ∉ allowlistKeys s
  listable : normalizeRelayBaseUrl request.relayBaseUrl = .ok url

/-- No other request carries the relay id that the approval is about to assign. -/
def IdUnused (s : RegistrationDb) (installId : Str) (relayId : Option Str) (draws : Nat → Bytes) : Prop :=
  ∀ install assigned request url, Approves s installId relayId draws install assigned request url →
    ∀ other row, other ≠ install → s.requests.find other = some row → row.relayId ≠ some assigned

/-- All done, or an exception and nothing done. -/
def Atomic (s : RegistrationDb) (installId : Str) (relayId : Option Str) (draws : Nat → Bytes) : Prop :=
  match approveRegistrationRequest installId relayId draws s with
  | (.ok entry, s') =>
    (s'.db.allowlist.find entry.1).map rowToAllowlistRecord = some entry.2 ∧
      ∃ request, s'.requests.find (strip installId) = some request ∧ request.status = .approved ∧
        request.relayId = some entry.1
  | (.error _, s') => s'.db.allowlist = s.db.allowlist ∧ s'.requests = s.requests

theorem normalizeRelayId_normalized {id normalized : Str} (h : normalizeRelayId id = .ok normalized) :
    normalizeRelayId normalized = .ok normalized := by
  rw [normalizeRelayId] at h
  split at h
  case isTrue => cases h
  case isFalse hne =>
    cases h
    rw [normalizeRelayId, strip_strip, if_neg hne]

theorem strip_candidate (data : Bytes) :
    strip (ascii "relay-" ++ Crypto.toHex data) = ascii "relay-" ++ Crypto.toHex data := by
  have hdigit : ∀ n < 16, 33 ≤ Crypto.hexDigit n ∧ Crypto.hexDigit n ≤ 126 := by decide
  apply strip_printable
  intro b hb
  rcases List.mem_append.mp hb with hb | hb
  · have hfirst : ∀ b ∈ ascii "relay-", 33 ≤ b ∧ b ≤ 126 := by decide +kernel
    exact hfirst b hb
  · obtain ⟨byte, -, hbyte⟩ := List.mem_flatMap.mp hb
    have hlt := byte.toNat_lt
    simp only [List.mem_cons, List.not_mem_nil, or_false] at hbyte
    rcases hbyte with rfl | rfl
    · exact hdigit _ (by omega)
    · exact hdigit _ (by omega)

/-- An assigned id is normalized. -/
theorem assignedId_normalized {reserved : List Str} {assigned : Str}
    (h : assignedId relayId draws reserved = .ok assigned) :
    normalizeRelayId assigned = .ok assigned := by
  rw [assignedId] at h
  split at h
  · exact normalizeRelayId_normalized h
  · rw [generateRelayId] at h
    split at h
    case h_1 candidate hfind =>
      cases h
      obtain ⟨i, -, rfl⟩ := List.mem_map.mp (List.mem_of_find?_eq_some hfind)
      rw [normalizeRelayId, strip_candidate, if_neg (by simp [ascii])]
    case h_2 => cases h

/-- The allowlist row of an approval, and its request's public key. -/
def admitted (assigned url : Str) (request : RequestRow) (s : RegistrationDb) : RegistrationDb :=
  let listed := insertAllowlistRow assigned (some url) true s.db
  { s with db := match request.relayPublicKeyPem with
      | some pem => setRelayPublicKey assigned pem listed
      | none => listed }

theorem admitted_allowlist (assigned url : Str) (request : RequestRow) (s : RegistrationDb) :
    (admitted assigned url request s).db.allowlist =
      (insertAllowlistRow assigned (some url) true s.db).allowlist := by
  rw [admitted]
  cases request.relayPublicKeyPem <;> rfl

theorem rstripSlash_normalized {text url : Str} (h : normalizeRelayBaseUrl text = .ok url) :
    truthy (some url) = some url ∧ rstripSlash url = url := by
  rw [normalizeRelayBaseUrl] at h
  split at h
  case isTrue => cases h
  case isFalse hne =>
    cases h
    refine ⟨by simp [truthy, hne], ?_⟩
    rw [rstripSlash, rstripSlash, List.rdropWhile_idempotent]

theorem admitRelay_run {assigned url text : Str} {t : Db} (hid : normalizeRelayId assigned = .ok assigned)
    (hurl : normalizeRelayBaseUrl text = .ok url) :
    ∃ row, admitRelay assigned text t =
        (.ok (assigned, rowToAllowlistRecord row), insertAllowlistRow assigned (some url) true t) ∧
      (insertAllowlistRow assigned (some url) true t).allowlist.find assigned = some row := by
  obtain ⟨htruthy, hslash⟩ := rstripSlash_normalized hurl
  have hrow : ∃ row, (insertAllowlistRow assigned (some url) true t).allowlist.find assigned = some row :=
    ⟨_, Table.find_insert_self _ _ _⟩
  obtain ⟨row, hrow⟩ := hrow
  have hget : getAllowlistRecord assigned (insertAllowlistRow assigned (some url) true t) =
      (.ok (some (rowToAllowlistRecord row)), insertAllowlistRow assigned (some url) true t) := by
    rw [getAllowlistRecord, Py.read_run, hrow]
    rfl
  have hupsert : upsertAllowlistEntry assigned (some url) true t =
      (.ok (rowToAllowlistRecord row), insertAllowlistRow assigned (some url) true t) := by
    rw [upsertAllowlistEntry, htruthy, Option.map_some, hslash, Py.bind_ok (Py.modify_run _ t),
      Py.bind_ok hget]
    rfl
  refine ⟨row, ?_, hrow⟩
  rw [admitRelay, hid, Py.bind_ok (Py.ofExcept_run _ t), hurl, Py.bind_ok (Py.ofExcept_run _ t),
    Py.bind_ok hupsert]
  rfl

theorem savePem_run (assigned url : Str) (request : RequestRow) (s : RegistrationDb) :
    onDb (savePem assigned request.relayPublicKeyPem)
      { s with db := insertAllowlistRow assigned (some url) true s.db } =
        (.ok (), admitted assigned url request s) := by
  rw [onDb, admitted]
  cases request.relayPublicKeyPem <;> rfl

/-- The writes of an approval: the allowlist first, then the request, unless its relay id is taken. -/
theorem grantRequest_run {install assigned url : Str} {request : RequestRow}
    (h : Approves s installId relayId draws install assigned request url) :
    ∃ row, (admitted assigned url request s).db.allowlist.find assigned = some row ∧
      grantRequest install assigned request s =
        if takenByOther s install assigned then (.error .integrityError, admitted assigned url request s)
        else (.ok (assigned, rowToAllowlistRecord row),
          assignRelay install assigned (admitted assigned url request s)) := by
  obtain ⟨row, hadmit, hrow⟩ := admitRelay_run (t := s.db) (assignedId_normalized h.chosen) h.listable
  have hentry : onDb (admitRelay assigned request.relayBaseUrl) s =
      (.ok (assigned, rowToAllowlistRecord row),
        { s with db := insertAllowlistRow assigned (some url) true s.db }) := by
    rw [onDb, hadmit]
  have hfound : ((admitted assigned url request s).requests.find install).isSome = true := by
    obtain ⟨stored, hstored, -⟩ := Option.map_eq_some_iff.mp h.found
    exact Option.isSome_iff_exists.mpr ⟨stored, hstored⟩
  refine ⟨row, by rw [admitted_allowlist]; exact hrow, ?_⟩
  rw [grantRequest, Py.bind_ok hentry, Py.bind_ok (savePem_run assigned url request s)]
  by_cases htaken : takenByOther s install assigned = true
  · have hfail : assignRegistrationRequest install assigned (admitted assigned url request s) =
        (.error .integrityError, admitted assigned url request s) := if_pos ⟨hfound, htaken⟩
    rw [Py.bind_error hfail, if_pos htaken]
  · have hdone : assignRegistrationRequest install assigned (admitted assigned url request s) =
        (.ok (), assignRelay install assigned (admitted assigned url request s)) :=
      if_neg fun hboth => htaken hboth.2
    rw [Py.bind_ok hdone, if_neg htaken]
    rfl

theorem pendingRequest_cases (install : Str) (s : RegistrationDb) :
    (∃ request, (s.requests.find install).map rowToRegistrationRequest = some request ∧
      request.status = .pending ∧ pendingRequest install s = (.ok request, s)) ∨
    (∃ e, pendingRequest install s = (.error e, s)) ∧
      ∀ request, (s.requests.find install).map rowToRegistrationRequest = some request →
        request.status ≠ .pending := by
  have hget : getRegistrationRequestByInstallId install s =
      (.ok ((s.requests.find install).map rowToRegistrationRequest), s) := rfl
  rw [pendingRequest, Py.bind_ok hget]
  cases hfound : (s.requests.find install).map rowToRegistrationRequest with
  | none => exact .inr ⟨⟨_, rfl⟩, fun request h => by cases h⟩
  | some request =>
    by_cases hpending : request.status = .pending
    · refine .inl ⟨request, rfl, hpending, ?_⟩
      exact Py.bind_ok (Py.raiseIf_neg (not_not.mpr hpending) _ s)
    · refine .inr ⟨⟨_, Py.bind_error (Py.raiseIf_pos hpending _ s)⟩, fun other h => ?_⟩
      cases h
      exact hpending

/-- A URL that is not listable is found out before the first write. -/
theorem grantRequest_refused {install assigned : Str} {request : RequestRow} {e : PyExn}
    (hid : normalizeRelayId assigned = .ok assigned)
    (hurl : normalizeRelayBaseUrl request.relayBaseUrl = .error e) :
    grantRequest install assigned request s = (.error e, s) := by
  have hadmit : admitRelay assigned request.relayBaseUrl s.db = (.error e, s.db) := by
    rw [admitRelay, hid, Py.bind_ok (Py.ofExcept_run _ _), hurl]
    exact Py.bind_error (Py.ofExcept_run _ _)
  have hentry : onDb (admitRelay assigned request.relayBaseUrl) s = (.error e, s) := by
    rw [onDb, hadmit]
  rw [grantRequest, Py.bind_error hentry]

/-- An approval is refused before it writes, or its checks pass and it comes to the writes. -/
theorem approve_cases (s : RegistrationDb) (installId : Str) (relayId : Option Str)
    (draws : Nat → Bytes) :
    ((∀ install assigned request url,
        ¬ Approves s installId relayId draws install assigned request url) ∧
      ∃ e, approveRegistrationRequest installId relayId draws s = (.error e, s)) ∨
    ∃ install assigned request url, Approves s installId relayId draws install assigned request url ∧
      approveRegistrationRequest installId relayId draws s = grantRequest install assigned request s := by
  have hkeys : (Py.read fun s : RegistrationDb => s.db.allowlist.entries.map Prod.fst) s =
      (.ok (allowlistKeys s), s) := rfl
  rw [approveRegistrationRequest]
  cases hinstall : normalizeInstallId installId with
  | error e =>
    refine .inl ⟨fun install assigned request url h => ?_, e, Py.bind_error (Py.ofExcept_run _ s)⟩
    cases hinstall.symm.trans h.normalized
  | ok install =>
    rw [Py.bind_ok (Py.ofExcept_run _ s)]
    rcases pendingRequest_cases install s with ⟨request, hfound, hpending, hrun⟩ | ⟨⟨e, hrun⟩, hnone⟩
    · rw [Py.bind_ok hrun, Py.bind_ok hkeys]
      cases hchosen : assignedId relayId draws (allowlistKeys s) with
      | error e =>
        refine .inl ⟨fun install assigned request url h => ?_, e, Py.bind_error (Py.ofExcept_run _ s)⟩
        cases hchosen.symm.trans h.chosen
      | ok assigned =>
        rw [Py.bind_ok (Py.ofExcept_run _ s)]
        by_cases hlisted : assigned ∈ allowlistKeys s
        · refine .inl ⟨fun install' assigned' request' url h => ?_, _,
            Py.bind_error (Py.raiseIf_pos hlisted _ s)⟩
          cases hchosen.symm.trans h.chosen
          exact h.fresh hlisted
        · rw [Py.bind_ok (Py.raiseIf_neg hlisted _ s)]
          cases hurl : normalizeRelayBaseUrl request.relayBaseUrl with
          | error e =>
            refine .inl ⟨fun install' assigned' request' url h => ?_, e,
              grantRequest_refused (assignedId_normalized hchosen) hurl⟩
            cases hinstall.symm.trans h.normalized
            cases hfound.symm.trans h.found
            cases hurl.symm.trans h.listable
          | ok url =>
            exact .inr ⟨install, assigned, request, url,
              ⟨hinstall, hfound, hpending, hchosen, hlisted, hurl⟩, rfl⟩
    · refine .inl ⟨fun install' assigned request url h => ?_, e, Py.bind_error hrun⟩
      cases hinstall.symm.trans h.normalized
      exact hnone request h.found h.pending

theorem takenByOther_iff {install assigned : Str} :
    takenByOther s install assigned = true ↔
      ∃ other row, other ≠ install ∧ s.requests.find other = some row ∧ row.relayId = some assigned := by
  rw [takenByOther, List.any_eq_true]
  constructor
  · rintro ⟨e, he, hboth⟩
    simp only [ne_eq, decide_not, Bool.and_eq_true, decide_eq_true_eq, Bool.decide_and,
      Bool.not_eq_true', decide_eq_false_iff_not] at hboth
    exact ⟨e.1, e.2, hboth.1, Table.find_eq_some.mpr he, hboth.2⟩
  · rintro ⟨other, row, hne, hfind, hid⟩
    exact ⟨(other, row), Table.find_eq_some.mp hfind, by simp [hne, hid]⟩

theorem normalizeInstallId_ok {install : Str} (h : normalizeInstallId installId = .ok install) :
    strip installId = install := by
  rw [normalizeInstallId] at h
  split at h
  · cases h
  · exact Except.ok.inj h

/-- An approval is atomic exactly if no other request carries the relay id that it assigns. -/
theorem atomic_iff (s : RegistrationDb) (installId : Str) (relayId : Option Str) (draws : Nat → Bytes) :
    Atomic s installId relayId draws ↔ IdUnused s installId relayId draws := by
  rw [Atomic]
  rcases approve_cases s installId relayId draws with
    ⟨hnone, e, hrun⟩ | ⟨install, assigned, request, url, happroves, hrun⟩
  · rw [hrun]
    refine iff_of_true ⟨rfl, rfl⟩ fun install assigned request url h => ?_
    exact absurd h (hnone install assigned request url)
  · obtain ⟨row, hrow, hgrant⟩ := grantRequest_run happroves
    rw [hrun, hgrant]
    by_cases htaken : takenByOther s install assigned = true
    · rw [if_pos htaken]
      refine iff_of_false (fun hsame => ?_) fun hunused => ?_
      · -- the new entry stays
        rw [hsame.1] at hrow
        have hkey : assigned ∈ allowlistKeys s :=
          List.mem_map.mpr ⟨(assigned, row), Table.find_eq_some.mp hrow, rfl⟩
        exact happroves.fresh hkey
      · obtain ⟨other, taken, hne, hfind, hid⟩ := takenByOther_iff.mp htaken
        exact hunused install assigned request url happroves other taken hne hfind hid
    · rw [if_neg htaken]
      refine iff_of_true ⟨?_, ?_⟩ fun install' assigned' request' url' h other row hne hfind hid => ?_
      · show ((admitted assigned url request s).db.allowlist.find assigned).map _ = _
        rw [hrow]
        rfl
      · obtain ⟨stored, hstored, -⟩ := Option.map_eq_some_iff.mp happroves.found
        rw [normalizeInstallId_ok happroves.normalized]
        refine ⟨{ stored with status := .approved, relayId := some assigned }, ?_, rfl, rfl⟩
        show (s.requests.mapValues _).find install = _
        rw [Table.find_mapValues, hstored, Option.map_some, if_pos rfl]
      · cases happroves.normalized.symm.trans h.normalized
        cases happroves.chosen.symm.trans h.chosen
        exact htaken (takenByOther_iff.mpr ⟨other, row, hne, hfind, hid⟩)

/-- The call of a step is atomic, if it is an approval. -/
def AtomicStep (s : RegistrationDb) : AdminStep → Prop
  | .approve installId relayId draws => Atomic s installId relayId draws
  | _ => True

def UnusedStep (s : RegistrationDb) : AdminStep → Prop
  | .approve installId relayId draws => IdUnused s installId relayId draws
  | _ => True

/-- In every run of requests, approvals, ignores and allowlist changes, from any tables. -/
theorem approvals_atomic_iff (s : RegistrationDb) (steps : List AdminStep) :
    Along administer AtomicStep s steps ↔ Along administer UnusedStep s steps := by
  apply along_congr
  intro s step
  cases step with
  | approve installId relayId draws => exact atomic_iff s installId relayId draws
  | submit installId relayBaseUrl pem => exact Iff.rfl
  | ignore installId => exact Iff.rfl
  | addAllowlist relayId relayBaseUrl => exact Iff.rfl
  | changeAllowlist relayId relayBaseUrl enabled => exact Iff.rfl
  | removeAllowlist relayId => exact Iff.rfl

def emptyRegistry : RegistrationDb :=
  { db := { allowlist := Table.empty, relayStates := Table.empty, registryKeys := Table.empty,
            blockAuthKeys := Table.empty, placements := Table.empty, now := 0 }
    requests := Table.empty }

/-- Relay x is approved for install a and removed from the allowlist; then install b asks. -/
def removedAndAsked : List AdminStep :=
  [.submit (ascii "a") (ascii "http://a") none, .approve (ascii "a") (some (ascii "x")) fun _ => [],
    .removeAllowlist (ascii "x"), .submit (ascii "b") (ascii "http://b") none]

/-- Install b is to become relay x as well: the call raises, x is on the allowlist again and b's request
is still pending. -/
theorem approval_half_done :
    (approveRegistrationRequest (ascii "b") (some (ascii "x")) (fun _ => [])
      (exec administer emptyRegistry removedAndAsked)).1 = .error .integrityError ∧
    ¬ Along administer AtomicStep emptyRegistry
      (removedAndAsked ++ [.approve (ascii "b") (some (ascii "x")) fun _ => []]) := by
  have hraised : (approveRegistrationRequest (ascii "b") (some (ascii "x")) (fun _ => [])
      (exec administer emptyRegistry removedAndAsked)).1 = .error .integrityError := by decide +kernel
  have hadmitted : (approveRegistrationRequest (ascii "b") (some (ascii "x")) (fun _ => [])
      (exec administer emptyRegistry removedAndAsked)).2.db.allowlist ≠
      (exec administer emptyRegistry removedAndAsked).db.allowlist := by decide +kernel
  refine ⟨hraised, fun h => ?_⟩
  have hstep : Atomic (exec administer emptyRegistry removedAndAsked) (ascii "b") (some (ascii "x"))
      fun _ => [] := (along_append.mp h).2.1
  rw [Atomic, show approveRegistrationRequest (ascii "b") (some (ascii "x")) (fun _ => [])
    (exec administer emptyRegistry removedAndAsked) = (.error .integrityError, _) from
      Prod.ext hraised rfl] at hstep
  exact hadmitted hstep.1

end TwelveC.Registry.ApprovalAtomic
