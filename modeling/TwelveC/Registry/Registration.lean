import TwelveC.Registry.Operations

/-!
# Registration requests

A relay asks to be admitted under an install id. An approval puts a relay id on
the allowlist and then marks the request with it; the two writes are commits of
their own, and the relay ids of the requests are unique. The audit rows are left
out.
-/

namespace TwelveC.Registry

open Lib Lib.Run Relay.BlockAuth RegistryRepository

inductive RequestStatus where
  | pending
  | approved
  | ignored
  deriving DecidableEq, Repr

/-- A row of `relay_registration_requests`, under its `install_id`. -/
structure RequestRow where
  relayId : Option Str
  relayBaseUrl : Str
  relayPublicKeyPem : Option Str
  status : RequestStatus
  requestedAt : Int
  lastSeenAt : Int
  deriving DecidableEq, Repr

/-- The registry with its registration requests. -/
structure RegistrationDb where
  db : Db
  requests : Table Str RequestRow
  deriving DecidableEq, Repr

/-- A call that does not touch the requests. -/
def onDb {α : Type} (x : Py Db α) : Py RegistrationDb α := fun s =>
  ((x s.db).1, { s with db := (x s.db).2 })

namespace RegistrationRepository

/-- `_row_to_registration_request` -/
def rowToRegistrationRequest (row : RequestRow) : RequestRow :=
  { row with
    relayId := truthy row.relayId
    relayBaseUrl := rstripSlash row.relayBaseUrl
    relayPublicKeyPem := truthy row.relayPublicKeyPem }

def getRegistrationRequestByInstallId (installId : Str) : Py RegistrationDb (Option RequestRow) :=
  Py.read fun s => (s.requests.find installId).map rowToRegistrationRequest

/-- The row of the upsert: the relay id is taken away and `requested_at` is kept. -/
def requestedRow (existing : Option RequestRow) (relayBaseUrl : Str) (relayPublicKeyPem : Option Str)
    (now : Int) : RequestRow :=
  { relayId := none
    relayBaseUrl := relayBaseUrl
    relayPublicKeyPem := relayPublicKeyPem.or (existing.bind (·.relayPublicKeyPem))
    status := .pending
    requestedAt := (existing.map (·.requestedAt)).getD now
    lastSeenAt := now }

def writeRequest (installId relayBaseUrl : Str) (relayPublicKeyPem : Option Str) (s : RegistrationDb) :
    RegistrationDb :=
  let row := requestedRow (s.requests.find installId) relayBaseUrl relayPublicKeyPem s.db.now
  { s with requests := s.requests.insert installId row }

/-- The request is approved and its relay is on the allowlist. -/
def settled (s : RegistrationDb) (request : RequestRow) : Bool :=
  request.status = .approved ∧
    (request.relayId.any fun relayId => (s.db.allowlist.find relayId).any (·.enabled))

def upsertRegistrationRequest (installId relayBaseUrl : Str) (relayPublicKeyPem : Option Str) :
    Py RegistrationDb RequestRow := do
  let existing ← getRegistrationRequestByInstallId installId
  let done ← Py.read fun s => existing.filter (settled s)
  match done with
  | some request => pure request
  | none =>
    Py.modify (writeRequest installId (rstripSlash relayBaseUrl) relayPublicKeyPem)
    let record ← getRegistrationRequestByInstallId installId
    match record with
    | some request => pure request
    | none => Py.raise (.runtimeError ("failed to upsert registration request: " ++ display installId))

def setStatus (installId : Str) (status : RequestStatus) (s : RegistrationDb) : RegistrationDb :=
  { s with requests := s.requests.mapValues fun key row =>
      if key = installId then { row with status } else row }

def assignRelay (installId relayId : Str) (s : RegistrationDb) : RegistrationDb :=
  { s with requests := s.requests.mapValues fun key row =>
      if key = installId then { row with status := .approved, relayId := some relayId } else row }

/-- Another request has the relay id. -/
def takenByOther (s : RegistrationDb) (installId relayId : Str) : Bool :=
  s.requests.entries.any fun e => e.1 ≠ installId ∧ e.2.relayId = some relayId

/-- The `UPDATE` breaks the uniqueness of `relay_id` if another row has it. -/
def assignRegistrationRequest (installId relayId : Str) : Py RegistrationDb Unit := fun s =>
  if (s.requests.find installId).isSome ∧ takenByOther s installId relayId then
    (.error .integrityError, s)
  else (.ok (), assignRelay installId relayId s)

end RegistrationRepository

open RegistrationRepository

def normalizeInstallId (installId : Str) : Except PyExn Str :=
  if strip installId = [] then .error (httpException 400 "installId must be non-empty")
  else .ok (strip installId)

/-- The `status` of a reply: that of the request, or `already_allowlisted`. -/
inductive ReplyStatus where
  | alreadyAllowlisted
  | request (status : RequestStatus)
  deriving DecidableEq, Repr

structure RegistrationReply where
  status : ReplyStatus
  installId : Str
  relayId : Option Str
  deriving DecidableEq, Repr

def submitRegistrationRequest (installId relayBaseUrl : Str) (relayPublicKeyPem : Option Str) :
    Py RegistrationDb RegistrationReply := do
  let normalizedInstall ← Py.ofExcept (normalizeInstallId installId)
  let normalizedUrl ← Py.ofExcept (normalizeRelayBaseUrl (rstripSlash relayBaseUrl))
  let existing ← getRegistrationRequestByInstallId normalizedInstall
  let done ← Py.read fun s => existing.filter (settled s)
  match done with
  | some request =>
    pure { status := .alreadyAllowlisted, installId := normalizedInstall, relayId := request.relayId }
  | none =>
    let record ← upsertRegistrationRequest normalizedInstall normalizedUrl relayPublicKeyPem
    pure { status := .request record.status, installId := normalizedInstall, relayId := record.relayId }

/-- `generate_relay_id`, with the random octets of its 32 tries. -/
def generateRelayId (draws : Nat → Bytes) (reserved : List Str) : Except PyExn Str :=
  match ((List.range 32).map fun i => ascii "relay-" ++ Crypto.toHex (draws i)).find?
      fun candidate => decide (candidate ∉ reserved) with
  | some candidate => .ok candidate
  | none => .error (.runtimeError "failed to generate unique relay id")

/-- The relay id of an approval: the one that is asked for, or a generated one. -/
def assignedId (relayId : Option Str) (draws : Nat → Bytes) (reserved : List Str) : Except PyExn Str :=
  match truthy relayId with
  | some relayId => normalizeRelayId relayId
  | none => generateRelayId draws reserved

def pendingRequest (installId : Str) : Py RegistrationDb RequestRow := do
  let request ← getRegistrationRequestByInstallId installId
  match request with
  | none => Py.raise (httpException 404 "pending registration request not found")
  | some request =>
    Py.raiseIf (request.status ≠ .pending) (httpException 404 "pending registration request not found")
    pure request

/-- `add_allowlist_entry` of the service, with the id of the entry. -/
def admitRelay (relayId relayBaseUrl : Str) : Py Db (Str × AllowlistRow) := do
  let normalizedId ← Py.ofExcept (normalizeRelayId relayId)
  let normalizedUrl ← Py.ofExcept (normalizeRelayBaseUrl relayBaseUrl)
  let record ← upsertAllowlistEntry normalizedId (some normalizedUrl) true
  pure (normalizedId, record)

def savePem (relayId : Str) : Option Str → Py Db Unit
  | some pem => updateRelayPublicKey relayId pem
  | none => pure ()

/-- The writes of an approval. -/
def grantRequest (installId relayId : Str) (request : RequestRow) :
    Py RegistrationDb (Str × AllowlistRow) := do
  let entry ← onDb (admitRelay relayId request.relayBaseUrl)
  onDb (savePem relayId request.relayPublicKeyPem)
  assignRegistrationRequest installId relayId
  pure entry

def approveRegistrationRequest (installId : Str) (relayId : Option Str) (draws : Nat → Bytes) :
    Py RegistrationDb (Str × AllowlistRow) := do
  let normalizedInstall ← Py.ofExcept (normalizeInstallId installId)
  let request ← pendingRequest normalizedInstall
  let reserved ← Py.read fun s => s.db.allowlist.entries.map Prod.fst
  let assigned ← Py.ofExcept (assignedId relayId draws reserved)
  Py.raiseIf (assigned ∈ reserved)
    (httpException 409 ("relayId already in allowlist: " ++ display assigned))
  grantRequest normalizedInstall assigned request

def ignoreRegistrationRequest (installId : Str) : Py RegistrationDb Unit := do
  let normalizedInstall ← Py.ofExcept (normalizeInstallId installId)
  let _ ← pendingRequest normalizedInstall
  Py.modify (setStatus normalizedInstall .ignored)

inductive AdminStep where
  | submit (installId relayBaseUrl : Str) (relayPublicKeyPem : Option Str)
  | approve (installId : Str) (relayId : Option Str) (draws : Nat → Bytes)
  | ignore (installId : Str)
  | addAllowlist (relayId : Str) (relayBaseUrl : Option Str)
  | changeAllowlist (relayId : Str) (relayBaseUrl : Option (Option Str)) (enabled : Option Bool)
  | removeAllowlist (relayId : Str)

/-- The tables after a call, whether it returned or raised. -/
def administer (s : RegistrationDb) : AdminStep → RegistrationDb
  | .submit installId relayBaseUrl pem => (submitRegistrationRequest installId relayBaseUrl pem s).2
  | .approve installId relayId draws => (approveRegistrationRequest installId relayId draws s).2
  | .ignore installId => (ignoreRegistrationRequest installId s).2
  | .addAllowlist relayId relayBaseUrl => (onDb (addAllowlistEntry relayId relayBaseUrl) s).2
  | .changeAllowlist relayId relayBaseUrl enabled =>
    (onDb (changeAllowlistEntry relayId relayBaseUrl enabled) s).2
  | .removeAllowlist relayId => (onDb (removeAllowlistEntry relayId) s).2

theorem stripFront_fixed {stripped : List Str} {text : Str} (h : ∀ c ∈ stripped, ¬ c <+: text)
    (fuel : Nat) : stripFront stripped fuel text = text := by
  cases fuel with
  | zero => rfl
  | succ fuel =>
    have hnone : (stripped.find? fun c => text.take c.length == c) = none := by
      rw [List.find?_eq_none]
      intro c hc heq
      exact h c hc (List.prefix_iff_eq_take.mpr (beq_iff_eq.mp heq).symm)
    rw [stripFront, hnone]

theorem stripFront_suffix (stripped : List Str) (fuel : Nat) (text : Str) :
    stripFront stripped fuel text <:+ text := by
  induction fuel generalizing text with
  | zero => exact List.suffix_refl _
  | succ fuel ih =>
    rw [stripFront]
    split
    · exact (ih _).trans (List.drop_suffix _ _)
    · exact List.suffix_refl _

/-- Nothing is left to strip. -/
theorem stripFront_done {stripped : List Str} (hne : ∀ c ∈ stripped, c ≠ []) {fuel : Nat} {text : Str}
    (hfuel : text.length ≤ fuel) : ∀ c ∈ stripped, ¬ c <+: stripFront stripped fuel text := by
  induction fuel generalizing text with
  | zero =>
    obtain rfl : text = [] := List.eq_nil_of_length_eq_zero (by omega)
    intro c hc hprefix
    exact hne c hc (List.prefix_nil.mp hprefix)
  | succ fuel ih =>
    rw [stripFront]
    split
    case h_1 found hfound =>
      have hpos := List.length_pos_of_ne_nil (hne found (List.mem_of_find?_eq_some hfound))
      apply ih
      rw [List.length_drop]
      omega
    case h_2 hnone =>
      intro c hc hprefix
      rw [List.find?_eq_none] at hnone
      exact hnone c hc (beq_iff_eq.mpr (List.prefix_iff_eq_take.mp hprefix).symm)

theorem strip_strip (text : Str) : strip (strip text) = strip text := by
  have hspaces : ∀ c ∈ spaces, c ≠ [] := by decide
  have hreversed : ∀ c ∈ spaces.map List.reverse, c ≠ [] := by decide
  have hfront := stripFront_done hspaces (Nat.le_refl text.length)
  have hback := stripFront_done hreversed
    (Nat.le_refl (stripFront spaces text.length text).reverse.length)
  rw [List.length_reverse] at hback
  have hprefix : strip text <+: stripFront spaces text.length text := by
    have hsuffix := stripFront_suffix (spaces.map List.reverse)
      (stripFront spaces text.length text).length (stripFront spaces text.length text).reverse
    rw [← List.reverse_prefix, List.reverse_reverse] at hsuffix
    exact hsuffix
  have hfixed : ∀ c ∈ spaces, ¬ c <+: strip text := fun c hc h => hfront c hc (h.trans hprefix)
  rw [strip.eq_def (strip text)]
  dsimp only
  rw [stripFront_fixed hfixed]
  have hreverse : (strip text).reverse = stripFront (spaces.map List.reverse)
      (stripFront spaces text.length text).length (stripFront spaces text.length text).reverse := by
    rw [strip]
    exact List.reverse_reverse _
  rw [hreverse, stripFront_fixed hback, ← hreverse, List.reverse_reverse]

/-- No octet of white space is printable ASCII. -/
theorem strip_printable {text : Str} (h : ∀ b ∈ text, 33 ≤ b ∧ b ≤ 126) : strip text = text := by
  have hspaces : ∀ c ∈ spaces, c ≠ [] ∧ ∀ b ∈ c, ¬ (33 ≤ b ∧ b ≤ 126) := by decide +kernel
  have hfree : ∀ c ∈ spaces, ¬ c ⊆ text := by
    intro c hc hsub
    obtain ⟨hne, hoctets⟩ := hspaces c hc
    obtain ⟨b, hb⟩ := List.exists_mem_of_ne_nil c hne
    exact hoctets b hb (h b (hsub hb))
  have hfront : ∀ c ∈ spaces, ¬ c <+: text := fun c hc hprefix => hfree c hc hprefix.subset
  have hback : ∀ c ∈ spaces.map List.reverse, ¬ c <+: text.reverse := by
    intro c hc hprefix
    obtain ⟨d, hd, rfl⟩ := List.mem_map.mp hc
    exact hfree d hd (List.reverse_prefix.mp hprefix).subset
  rw [strip, stripFront_fixed hfront, stripFront_fixed hback, List.reverse_reverse]

end TwelveC.Registry
