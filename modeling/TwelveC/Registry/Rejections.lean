import TwelveC.Registry.Service
import TwelveC.PlainCrypto

/-!
# Rejected relay calls

The writes of a relay call come before the checks that can still reject it: a
reported URL is adopted before the key is looked at, and a heartbeat replaces
the relay's public keys and its state first. A rejected call leaves the tables
alone exactly when it had nothing to write there.
-/

namespace TwelveC.Registry.Rejections

open Lib Relay.BlockAuth Scheduling RegistryRepository

inductive RelayRequest where
  | heartbeat (r : HeartbeatRequest) (gen : Generated)
  | register (r : BlockRequest)
  | verifyOverwrite (r : BlockRequest)
  deriving DecidableEq

variable (env : Env)

def serve : RelayRequest → Py Db Unit
  | .heartbeat r gen => do
    let _ ← processHeartbeat env gen r
    pure ()
  | .register r => registerBlockFromRelay env r
  | .verifyOverwrite r => do
    let _ ← Registry.verifyOverwrite env r
    pure ()

def isRejection : PyExn → Bool
  | .service _ statusCode => statusCode ∈ [400, 401, 403, 404, 409]
  | _ => false

/-- The normalized report and the enabled allowlist record that it meets. -/
def Meets (s : Db) (relayId relayBaseUrl url : Str) (record : AllowlistRow) : Prop :=
  normalizeRelayBaseUrl (rstripSlash relayBaseUrl) = .ok url ∧
    (s.allowlist.find relayId).map rowToAllowlistRecord = some record ∧ record.enabled = true

/-- The allowlist has no URL and takes over the reported one. -/
def Adopts (s : Db) (relayId relayBaseUrl : Str) : Prop :=
  ∃ url record, Meets s relayId relayBaseUrl url record ∧ record.relayBaseUrl = none ∧
    env.heartbeatUrlPolicy = .syncIfUnset

/-- The allowlist has the URL that is reported. -/
def Admitted (s : Db) (relayId relayBaseUrl url : Str) : Prop :=
  ∃ record, Meets s relayId relayBaseUrl url record ∧ record.relayBaseUrl.map rstripSlash = some url

variable {env} {s s' : Db} {relayId relayBaseUrl url : Str} {record : AllowlistRow}

theorem Meets.unique {url' : Str} {record' : AllowlistRow}
    (h : Meets s relayId relayBaseUrl url record) (h' : Meets s relayId relayBaseUrl url' record') :
    url = url' ∧ record = record' := by
  obtain ⟨hu, hr, -⟩ := h
  obtain ⟨hu', hr', -⟩ := h'
  rw [hu] at hu'
  rw [hr] at hr'
  exact ⟨Except.ok.inj hu', Option.some.inj hr'⟩

theorem Admitted.unique {url' : Str} (h : Admitted s relayId relayBaseUrl url)
    (h' : Admitted s relayId relayBaseUrl url') : url = url' := by
  obtain ⟨record, hm, -⟩ := h
  obtain ⟨record', hm', -⟩ := h'
  exact (hm.unique hm').1

theorem Admitted.not_adopts (h : Admitted s relayId relayBaseUrl url) :
    ¬ Adopts env s relayId relayBaseUrl := by
  rintro ⟨url', record', hm', hnone, -⟩
  obtain ⟨record, hm, hsome⟩ := h
  rw [(hm.unique hm').2, hnone] at hsome
  cases hsome

/-- The ways out of the URL check. -/
inductive Resolution (env : Env) (s : Db) (relayId relayBaseUrl : Str) :
    Except PyExn Str × Db → Prop
  | refused (e : PyExn) (ha : ¬ Adopts env s relayId relayBaseUrl)
      (hn : ∀ url, ¬ Admitted s relayId relayBaseUrl url) :
      Resolution env s relayId relayBaseUrl (.error e, s)
  | adopted (url : Str) (record : AllowlistRow) (ha : Adopts env s relayId relayBaseUrl)
      (hm : Meets s relayId relayBaseUrl url record) (hnone : record.relayBaseUrl = none) :
      Resolution env s relayId relayBaseUrl
        (.ok url, setAllowlistRow relayId (some (rstripSlash url)) true s)
  | admitted (url : Str) (h : Admitted s relayId relayBaseUrl url) :
      Resolution env s relayId relayBaseUrl (.ok url, s)

theorem getAllowlistRecord_run (relayId : Str) (s : Db) :
    getAllowlistRecord relayId s =
      (.ok ((s.allowlist.find relayId).map rowToAllowlistRecord), s) := rfl

theorem patch_adopts (hrecord : (s.allowlist.find relayId).map rowToAllowlistRecord = some record)
    (henabled : record.enabled = true) :
    ∃ updated, patchAllowlistEntry relayId (some (some url)) none s =
      (.ok (some updated), setAllowlistRow relayId (some (rstripSlash url)) true s) := by
  obtain ⟨row, hrow, -⟩ := Option.map_eq_some_iff.mp hrecord
  have hget := getAllowlistRecord_run relayId s
  rw [hrecord] at hget
  rw [patchAllowlistEntry, Py.bind_ok hget]
  show ∃ updated, (Py.modify (setAllowlistRow relayId (some (rstripSlash url)) record.enabled) >>=
    fun _ => getAllowlistRecord relayId) s = _
  rw [henabled, Py.bind_ok (Py.modify_run _ s), getAllowlistRecord_run]
  simp [setAllowlistRow, hrow]

theorem refused_of_not_meets (e : PyExn)
    (h : ∀ url record, ¬ Meets s relayId relayBaseUrl url record) :
    Resolution env s relayId relayBaseUrl (.error e, s) :=
  .refused e (fun ⟨url, record, hm, _⟩ => h url record hm) fun url ⟨record, hm, _⟩ => h url record hm

theorem adopt_cases (hm : Meets s relayId relayBaseUrl url record)
    (hurl : record.relayBaseUrl = none) :
    Resolution env s relayId relayBaseUrl (adoptRelayBaseUrl env relayId url s) := by
  rw [adoptRelayBaseUrl]
  cases hpolicy : env.heartbeatUrlPolicy with
  | strict =>
    rw [Py.bind_error (Py.raiseIf_pos rfl _ s)]
    refine .refused _ ?_ ?_
    · rintro ⟨url', record', -, -, hsync⟩
      rw [hpolicy] at hsync
      cases hsync
    · rintro url' ⟨record', hm', hsome⟩
      rw [← (hm.unique hm').2, hurl] at hsome
      cases hsome
  | syncIfUnset =>
    obtain ⟨updated, hpatch⟩ : ∃ updated, patchAllowlistEntry relayId (some (some url)) none s =
        (.ok (some updated), setAllowlistRow relayId (some (rstripSlash url)) true s) :=
      patch_adopts hm.2.1 hm.2.2
    rw [Py.bind_ok (Py.raiseIf_neg (by decide) _ s), storeRelayBaseUrl, Py.bind_ok hpatch]
    exact .adopted url record ⟨url, record, hm, hurl, hpolicy⟩ hm hurl

theorem match_cases {listed : Str} (hm : Meets s relayId relayBaseUrl url record)
    (hurl : record.relayBaseUrl = some listed) :
    Resolution env s relayId relayBaseUrl (matchRelayBaseUrl relayId listed url s) := by
  rw [matchRelayBaseUrl]
  by_cases hsame : rstripSlash listed = url
  · rw [Py.bind_ok (Py.raiseIf_neg (not_not.mpr hsame) _ s)]
    exact .admitted url ⟨record, hm, by rw [hurl, Option.map_some, hsame]⟩
  · rw [Py.bind_error (Py.raiseIf_pos hsame _ s)]
    refine .refused _ ?_ ?_
    · rintro ⟨url', record', hm', hnone, -⟩
      rw [← (hm.unique hm').2, hurl] at hnone
      cases hnone
    · rintro url' ⟨record', hm', hsome⟩
      rw [← (hm.unique hm').2, hurl, Option.map_some, ← (hm.unique hm').1] at hsome
      exact hsame (Option.some.inj hsome)

theorem resolve_cases (env : Env) (s : Db) (relayId relayBaseUrl : Str) :
    Resolution env s relayId relayBaseUrl
      (resolveReportedRelayBaseUrl env relayId (rstripSlash relayBaseUrl) s) := by
  rw [resolveReportedRelayBaseUrl]
  cases hu : normalizeRelayBaseUrl (rstripSlash relayBaseUrl) with
  | error e =>
    rw [Py.bind_error (Py.ofExcept_run _ s)]
    exact refused_of_not_meets e fun url record hm => by simp [hm.1] at hu
  | ok url =>
    rw [Py.bind_ok (Py.ofExcept_run _ s), Py.bind_ok (getAllowlistRecord_run relayId s)]
    cases hrecord : (s.allowlist.find relayId).map rowToAllowlistRecord with
    | none => exact refused_of_not_meets _ fun url record hm => by simp [hm.2.1] at hrecord
    | some record =>
      show Resolution env s relayId relayBaseUrl ((Py.raiseIf _ _ >>= fun _ => _) s)
      by_cases henabled : record.enabled = true
      · have hm : Meets s relayId relayBaseUrl url record := ⟨hu, hrecord, henabled⟩
        rw [Py.bind_ok (Py.raiseIf_neg (by simp [henabled]) _ s)]
        cases hurl : record.relayBaseUrl with
        | none => exact adopt_cases hm hurl
        | some listed => exact match_cases hm hurl
      · rw [Py.bind_error (Py.raiseIf_pos (by simpa using henabled) _ s)]
        refine refused_of_not_meets _ fun url' record' hm => henabled ?_
        rw [hm.2.1] at hrecord
        exact Option.some.inj hrecord ▸ hm.2.2

section preserved

/-- Not touched by a new key of either kind. -/
structure Lasting (P : Db → Prop) : Prop where
  registryKey : ∀ s key row registryKeys, s.registryKeys.add key row = some registryKeys → P s →
    P { s with registryKeys }
  blockAuthKey : ∀ s blockAuthKeys, P s → P { s with blockAuthKeys }

variable {P : Db → Prop} {gen : Generated} {publicKey : Option Str}

open Py

theorem createRegistryApiKey_preserves (hP : Lasting P) (C : Primitives) (pem : Option Str)
    (uses : Int) (keyId key : Str) :
    Preserves P (createRegistryApiKey C relayId pem uses keyId key) := by
  intro s hs
  rw [createRegistryApiKey]
  split
  case h_1 registryKeys hadd => exact hP.registryKey s _ _ registryKeys hadd hs
  case h_2 => exact hs

theorem createBlockAuthKey_preserves (hP : Lasting P) (keyId : Str) :
    Preserves P (createBlockAuthKey env relayId keyId) := by
  have hinsert : ∀ createdAt, Preserves P (insertBlockAuthKey relayId keyId createdAt) := by
    intro createdAt s hs
    rw [insertBlockAuthKey]
    split
    case h_1 blockAuthKeys _ => exact hP.blockAuthKey s blockAuthKeys hs
    case h_2 => exact hs
  exact preserves_bind (preserves_ofExcept _) fun _ => preserves_bind (preserves_read _)
    fun now => preserves_bind (hinsert now) fun _ => preserves_pure _

theorem rotate_preserves (hP : Lasting P) : Preserves P (rotate env gen relayId publicKey) := by
  cases publicKey with
  | none => exact preserves_raise _
  | some pem =>
    have hkey : Preserves P (rotateRegistryApiKey env relayId pem gen.keyId gen.key) :=
      preserves_bind (createRegistryApiKey_preserves hP _ _ _ _ _)
        fun _ => preserves_bind (preserves_ofExcept _) fun _ => preserves_pure _
    have hclear : Preserves P (Py.modify (clearBlockAuthKeys relayId)) :=
      preserves_modify fun s => hP.blockAuthKey s _
    have hauth : Preserves P (rotateBlockAuthKey env relayId pem gen.nextAuthKeyId) :=
      preserves_bind hclear fun _ => preserves_bind (createBlockAuthKey_preserves hP _)
        fun _ => preserves_bind (preserves_ofExcept _) fun _ => preserves_pure _
    exact preserves_bind hkey fun _ => preserves_bind hauth fun _ => preserves_pure _

theorem provideBlockAuthKey_preserves (hP : Lasting P) :
    Preserves P (provideBlockAuthKey env gen relayId publicKey) := by
  refine preserves_bind (preserves_read _) fun active => ?_
  cases active with
  | some _ => exact preserves_pure _
  | none =>
    exact preserves_bind (preserves_raiseIf _ _) fun _ =>
      preserves_bind (createBlockAuthKey_preserves hP _) fun _ => preserves_pure _

theorem answer_preserves (hP : Lasting P) (pem : Option Str) (record : RegistryApiKeyRecord) :
    Preserves P (answer env gen relayId pem record) := by
  refine preserves_bind (provideBlockAuthKey_preserves hP) fun authKey => ?_
  rw [conclude]
  split
  · exact preserves_bind (rotate_preserves hP) fun _ => preserves_pure _
  · exact preserves_pure _

theorem bootstrap_preserves (hP : Lasting P) (pem : Option Str) :
    Preserves P (bootstrap env gen relayId pem) :=
  preserves_bind (preserves_raiseIf _ _) fun _ =>
    preserves_bind (createRegistryApiKey_preserves hP _ _ _ _ _) fun _ =>
      preserves_bind (createBlockAuthKey_preserves hP _) fun _ => preserves_pure _

theorem lasting_allowlist (allowlist : Table Str AllowlistRow) :
    Lasting (·.allowlist = allowlist) where
  registryKey _ _ _ _ _ hs := hs
  blockAuthKey _ _ hs := hs

/-- The uses left of a key. -/
def usesOf (key : Str × Str) (s : Db) : Option Int := (s.registryKeys.find key).map (·.remainingUses)

theorem lasting_uses (key : Str × Str) (uses : Int) : Lasting (usesOf key · = some uses) where
  registryKey s other row registryKeys hadd hs := by
    obtain ⟨hnone, rfl⟩ := Table.add_eq_some.mp hadd
    have hne : key ≠ other := by
      rintro rfl
      rw [usesOf, hnone] at hs
      cases hs
    rw [usesOf, Table.find_insert_of_ne _ hne]
    exact hs
  blockAuthKey _ _ hs := hs

theorem authenticate_keeps_allowlist (allowlist : Table Str AllowlistRow) (keyId key : Str)
    (consume : Bool) :
    Preserves (·.allowlist = allowlist) (authenticateRelay env relayId keyId key consume) := by
  have hspend : Preserves (·.allowlist = allowlist) (consumeRegistryApiKeyUse relayId keyId) := by
    refine preserves_bind (fun s hs => hs) fun rowcount => ?_
    split
    · exact preserves_pure _
    · exact preserves_read _
  refine preserves_bind (preserves_read _) fun allowed => ?_
  refine preserves_bind (preserves_raiseIf _ _) fun _ => preserves_bind (preserves_read _) ?_
  intro record
  cases record with
  | none => exact preserves_raise _
  | some record =>
    cases consume with
    | false => exact preserves_pure _
    | true =>
      exact preserves_bind hspend fun _ => preserves_bind (preserves_raiseIf _ _)
        fun _ => preserves_pure _

/-- Without `consume`, and in the placement check, nothing is written. -/
theorem authenticate_preserves (keyId key : Str) :
    Preserves P (authenticateRelay env relayId keyId key false) := by
  refine preserves_bind (preserves_read _) fun allowed => ?_
  refine preserves_bind (preserves_raiseIf _ _) fun _ => preserves_bind (preserves_read _) ?_
  intro record
  cases record with
  | none => exact preserves_raise _
  | some record => exact preserves_pure _

theorem validate_preserves (token blockHash : Str) :
    Preserves P (validateRelayPlacement token relayId url blockHash) := by
  refine preserves_bind (preserves_read _) fun placement => ?_
  cases placement with
  | none => exact preserves_raise _
  | some placement =>
    exact preserves_bind (preserves_read _) fun _ => preserves_bind (preserves_raiseIf _ _)
      fun _ => preserves_bind (preserves_read _) fun _ => preserves_bind (preserves_raiseIf _ _)
        fun _ => preserves_bind (preserves_raiseIf _ _) fun _ => preserves_pure _

end preserved

theorem rstripSlash_idem (text : Str) : rstripSlash (rstripSlash text) = rstripSlash text :=
  List.rdropWhile_idempotent _ _

theorem normalizeRelayBaseUrl_ok (h : normalizeRelayBaseUrl relayBaseUrl = .ok url) :
    url ≠ [] ∧ rstripSlash url = url := by
  rw [normalizeRelayBaseUrl] at h
  by_cases hnil : rstripSlash (strip relayBaseUrl) = []
  · simp [hnil] at h
  · simp only [hnil, if_false, Except.ok.injEq] at h
    rw [← h]
    exact ⟨hnil, rstripSlash_idem _⟩

theorem adopted_ne (hm : Meets s relayId relayBaseUrl url record)
    (hnone : record.relayBaseUrl = none) :
    (setAllowlistRow relayId (some (rstripSlash url)) true s).allowlist ≠ s.allowlist := by
  obtain ⟨hurl, hstrip⟩ := normalizeRelayBaseUrl_ok hm.1
  obtain ⟨row, hrow, rfl⟩ := Option.map_eq_some_iff.mp hm.2.1
  intro heq
  have hself : s.allowlist.mapValues (fun key row =>
      if key = relayId then { row with relayBaseUrl := some (rstripSlash url), enabled := true }
      else row) = s.allowlist := heq
  have h := Table.mapValues_eq_self.mp hself relayId row hrow
  rw [if_pos rfl, hstrip] at h
  rw [← h] at hnone
  simp [rowToAllowlistRecord, truthy, hurl] at hnone

section blocks

variable (env) (r : BlockRequest) (token blockHash : Str)

/-- A block request writes nothing but an adopted URL. -/
theorem checkBlock_unchanged (s : Db) :
    (checkBlock env r token blockHash s).2 = s ↔ ¬ Adopts env s r.relayId r.relayBaseUrl := by
  have hrest : ∀ (url : Str) (s₁ : Db), ((authenticateRelay env r.relayId r.registryApiKeyId
      r.registryApiKey false >>= fun _ => validateRelayPlacement token r.relayId url blockHash >>=
        fun placement => pure (url, placement)) s₁).2 = s₁ := by
    intro url s₁
    have hp : Py.Preserves (· = s₁) (authenticateRelay env r.relayId r.registryApiKeyId
        r.registryApiKey false >>= fun _ => validateRelayPlacement token r.relayId url blockHash >>=
          fun placement => pure (url, placement)) :=
      Py.preserves_bind (authenticate_preserves _ _) fun _ =>
        Py.preserves_bind (validate_preserves _ _) fun _ => Py.preserves_pure _
    exact hp s₁ rfl
  have hcases := resolve_cases env s r.relayId r.relayBaseUrl
  rw [checkBlock]
  cases hr : resolveReportedRelayBaseUrl env r.relayId (rstripSlash r.relayBaseUrl) s with
  | mk result s₁ =>
    rw [hr] at hcases
    cases hcases with
    | refused e ha hn =>
      rw [Py.bind_error hr]
      exact ⟨fun _ => ha, fun _ => rfl⟩
    | adopted url record ha hm hnone =>
      rw [Py.bind_ok hr, hrest]
      exact ⟨fun h => absurd (congrArg Db.allowlist h) (adopted_ne hm hnone), fun h => absurd ha h⟩
    | admitted url h =>
      rw [Py.bind_ok hr, hrest]
      exact ⟨fun _ => h.not_adopts, fun _ => rfl⟩

end blocks

/-- The tables after `recordHeartbeat` of an admitted report. -/
def recorded (r : HeartbeatRequest) (url : Str) (s : Db) : Db :=
  setRelayState r.relayId url r.report
    (match truthy r.relayPublicKeyPem with
    | some pem => setRelayPublicKey r.relayId pem s
    | none => s)

/-- A key that authenticates: its row has the secret's hash and uses left. -/
def Accepts (env : Env) (s : Db) (relayId keyId key : Str) : Prop :=
  ∃ row, s.registryKeys.find (relayId, keyId) = some row ∧
    row.keySecretHash = hashRegistryApiKey env.C key ∧ 0 < row.remainingUses

section heartbeat

variable {r : HeartbeatRequest} {gen : Generated} {keyId key : Str}

theorem record_cases (hcases : Resolution env s r.relayId r.relayBaseUrl
    (resolveReportedRelayBaseUrl env r.relayId (rstripSlash r.relayBaseUrl) s)) :
    (∃ e, recordHeartbeat env r s = (.error e, s) ∧ ¬ Adopts env s r.relayId r.relayBaseUrl ∧
      ∀ url, ¬ Admitted s r.relayId r.relayBaseUrl url) ∨
    (∃ s₁, recordHeartbeat env r s = (.ok (), s₁) ∧ Adopts env s r.relayId r.relayBaseUrl ∧
      s₁.allowlist ≠ s.allowlist) ∨
    ∃ url, recordHeartbeat env r s = (.ok (), recorded r url s) ∧
      Admitted s r.relayId r.relayBaseUrl url := by
  have hrest : ∀ (url : Str) (s₁ : Db), (savePublicKey r.relayId r.relayPublicKeyPem >>=
      fun _ => upsertRelayState r.relayId url r.report) s₁ = (.ok (), recorded r url s₁) := by
    intro url s₁
    rw [savePublicKey, recorded]
    cases truthy r.relayPublicKeyPem with
    | none => rfl
    | some pem => rfl
  rw [recordHeartbeat]
  cases hr : resolveReportedRelayBaseUrl env r.relayId (rstripSlash r.relayBaseUrl) s with
  | mk result s₁ =>
    rw [hr] at hcases
    cases hcases with
    | refused e ha hn => exact .inl ⟨e, Py.bind_error hr, ha, hn⟩
    | adopted url record ha hm hnone =>
      refine .inr (.inl ⟨_, (Py.bind_ok hr).trans (hrest url _), ha, ?_⟩)
      have hkept : ∀ s₁, (recorded r url s₁).allowlist = s₁.allowlist := by
        intro s₁
        rw [recorded]
        cases truthy r.relayPublicKeyPem <;> rfl
      rw [hkept]
      exact adopted_ne hm hnone
    | admitted url h => exact .inr (.inr ⟨url, (Py.bind_ok hr).trans (hrest url _), h⟩)

/-- The report is the stored one already. -/
def Recorded (r : HeartbeatRequest) (url : Str) (s : Db) : Prop :=
  (∀ pem keyId row, truthy r.relayPublicKeyPem = some pem →
    s.registryKeys.find (r.relayId, keyId) = some row → row.relayPublicKeyPem = some pem) ∧
  s.relayStates.find r.relayId = some (reportedRow url r.report s.now)

theorem recorded_eq_self : recorded r url s = s ↔ Recorded r url s := by
  have hset : ∀ s₁ : Db, s₁.relayStates = s.relayStates → s₁.now = s.now →
      ((setRelayState r.relayId url r.report s₁).relayStates = s.relayStates ↔
        s.relayStates.find r.relayId = some (reportedRow url r.report s.now)) := by
    intro s₁ hstates hnow
    rw [setRelayState, hstates, hnow]
    exact Table.insert_eq_self
  rw [recorded, Recorded]
  cases hpem : truthy r.relayPublicKeyPem with
  | none =>
    constructor
    · intro h
      refine ⟨?_, (hset s rfl rfl).mp (congrArg Db.relayStates h)⟩
      intro pem keyId row hp
      cases hp
    · rintro ⟨-, h⟩
      have hstates := (hset s rfl rfl).mpr h
      show { s with relayStates := (setRelayState r.relayId url r.report s).relayStates } = s
      rw [hstates]
  | some pem =>
    have hkeys : (setRelayPublicKey r.relayId pem s).registryKeys = s.registryKeys ↔
        ∀ keyId row, s.registryKeys.find (r.relayId, keyId) = some row →
          row.relayPublicKeyPem = some pem := by
      rw [setRelayPublicKey, Table.mapValues_eq_self]
      constructor
      · intro h keyId row hrow
        have hmap := h _ row hrow
        rw [if_pos rfl] at hmap
        rw [← hmap]
      · rintro h ⟨relayId, keyId⟩ row hrow
        by_cases hr : relayId = r.relayId
        · rw [if_pos hr, ← h keyId row (hr ▸ hrow)]
        · rw [if_neg hr]
    constructor
    · intro h
      have hrows := congrArg Db.registryKeys h
      refine ⟨?_, (hset (setRelayPublicKey r.relayId pem s) rfl rfl).mp (congrArg Db.relayStates h)⟩
      intro pem' keyId row hp hrow
      cases hp
      exact hkeys.mp hrows keyId row hrow
    · rintro ⟨hpems, h⟩
      have hstates := (hset (setRelayPublicKey r.relayId pem s) rfl rfl).mpr h
      have hrows := hkeys.mpr fun keyId row hrow => hpems pem keyId row rfl hrow
      show { s with
        relayStates := (setRelayState r.relayId url r.report
          (setRelayPublicKey r.relayId pem s)).relayStates
        registryKeys := (setRelayPublicKey r.relayId pem s).registryKeys } = s
      rw [hstates, hrows]

theorem recorded_allowlist (url : Str) (s : Db) : (recorded r url s).allowlist = s.allowlist := by
  rw [recorded]
  cases truthy r.relayPublicKeyPem <;> rfl

theorem find_recorded_keys (url : Str) (s : Db) (k : Str × Str) :
    ∃ f : RegistryKeyRow → Option Str, (recorded r url s).registryKeys.find k =
      (s.registryKeys.find k).map fun row => { row with relayPublicKeyPem := f row } := by
  rw [recorded]
  cases truthy r.relayPublicKeyPem with
  | none => exact ⟨(·.relayPublicKeyPem), Option.map_id'.symm⟩
  | some pem =>
    refine ⟨fun row => if k.1 = r.relayId then some pem else row.relayPublicKeyPem, ?_⟩
    refine (Table.find_mapValues ..).trans (congrArg (Option.map · _) ?_)
    funext row
    by_cases hk : k.1 = r.relayId
    · simp [hk]
    · simp [hk]

theorem accepts_recorded (url : Str) (s : Db) :
    Accepts env (recorded r url s) relayId keyId key ↔ Accepts env s relayId keyId key := by
  obtain ⟨f, hf⟩ := find_recorded_keys (r := r) url s (relayId, keyId)
  rw [Accepts, hf, Accepts]
  cases s.registryKeys.find (relayId, keyId) <;> simp

theorem usesOf_recorded (url : Str) (s : Db) (k : Str × Str) :
    usesOf k (recorded r url s) = usesOf k s := by
  obtain ⟨f, hf⟩ := find_recorded_keys (r := r) url s k
  rw [usesOf, hf, usesOf, Option.map_map]
  rfl

theorem usesOf_spendUse {row : RegistryKeyRow}
    (hrow : s.registryKeys.find (relayId, keyId) = some row) (huses : 0 < row.remainingUses) :
    usesOf (relayId, keyId) (spendUse relayId keyId s) = some (row.remainingUses - 1) := by
  rw [usesOf, spendUse]
  show ((Table.mapValues _ _).find _).map _ = _
  rw [Table.find_mapValues, hrow, Option.map_some, if_pos ⟨rfl, huses⟩]
  rfl

theorem verify_accepts {row : RegistryKeyRow}
    (hrow : s.registryKeys.find (relayId, keyId) = some row)
    (hhash : row.keySecretHash = hashRegistryApiKey env.C key) (huses : 0 < row.remainingUses) :
    verifyRegistryApiKey env.C relayId keyId key s = (.ok (some (apiKeyRecord keyId row)), s) := by
  rw [verifyRegistryApiKey, Py.read_run, selectRegistryKey, hrow,
    Option.filter_some_pos (by simp [hhash]), Option.filter_some_pos (by simp [huses])]
  rfl

theorem verify_rejects (h : ¬ Accepts env s relayId keyId key) :
    verifyRegistryApiKey env.C relayId keyId key s = (.ok none, s) := by
  rw [verifyRegistryApiKey, Py.read_run, selectRegistryKey]
  cases hrow : s.registryKeys.find (relayId, keyId) with
  | none => rfl
  | some row =>
    by_cases hhash : row.keySecretHash = hashRegistryApiKey env.C key
    · have huses : ¬ 0 < row.remainingUses := fun huses => h ⟨row, hrow, hhash, huses⟩
      rw [Option.filter_some_pos (by simp [hhash]), Option.filter_some_neg (by simp [huses])]
      rfl
    · rw [Option.filter_some_neg (by simp [hhash])]
      rfl

theorem consume_accepts {row : RegistryKeyRow}
    (hrow : s.registryKeys.find (relayId, keyId) = some row) (huses : 0 < row.remainingUses) :
    consumeRegistryApiKeyUse relayId keyId s =
      (.ok (row.remainingUses - 1), spendUse relayId keyId s) := by
  have hdec : decrementUses relayId keyId s = (.ok 1, spendUse relayId keyId s) := by
    rw [decrementUses, hrow, Option.any_some, if_pos (by simp [huses])]
  have hleft := usesOf_spendUse hrow huses
  rw [usesOf] at hleft
  rw [consumeRegistryApiKeyUse, Py.bind_ok hdec, if_neg (by decide), selectRemainingUses, Py.read_run,
    hleft]
  rfl

section authenticate

variable (hallowed : (s.allowlist.find relayId).any (·.enabled) = true)

include hallowed

theorem authenticate_accepts {row : RegistryKeyRow}
    (hrow : s.registryKeys.find (relayId, keyId) = some row)
    (hhash : row.keySecretHash = hashRegistryApiKey env.C key) (huses : 0 < row.remainingUses) :
    authenticateRelay env relayId keyId key true s =
      (.ok { apiKeyRecord keyId row with remainingUses := row.remainingUses - 1 },
        spendUse relayId keyId s) := by
  have hlisted : isAllowlisted relayId s = (.ok true, s) := by
    rw [isAllowlisted, Py.read_run, hallowed]
  have hcheck : ¬ row.remainingUses - 1 < 0 := by omega
  rw [authenticateRelay, Py.bind_ok hlisted, Py.bind_ok (Py.raiseIf_neg (by decide) _ s),
    Py.bind_ok (verify_accepts hrow hhash huses)]
  show (consumeRegistryApiKeyUse relayId keyId >>= fun _ => _) s = _
  rw [Py.bind_ok (consume_accepts hrow huses), Py.bind_ok (Py.raiseIf_neg hcheck _ _)]
  rfl

theorem authenticate_rejects (h : ¬ Accepts env s relayId keyId key) (consume : Bool) :
    authenticateRelay env relayId keyId key consume s =
      (.error (httpException 401 "invalid registryApiKey"), s) := by
  have hlisted : isAllowlisted relayId s = (.ok true, s) := by
    rw [isAllowlisted, Py.read_run, hallowed]
  rw [authenticateRelay, Py.bind_ok hlisted, Py.bind_ok (Py.raiseIf_neg (by decide) _ s),
    Py.bind_ok (verify_rejects h)]
  rfl

end authenticate

/-- Both parts of a key are given and it authenticates. -/
def KeyAccepted (env : Env) (s : Db) (r : HeartbeatRequest) : Prop :=
  ∃ keyId key, r.registryApiKeyId = some keyId ∧ r.registryApiKey = some key ∧
    Accepts env s r.relayId keyId key

theorem insertBlockAuthKey_error {createdAt : Int} {e : PyExn}
    (h : (insertBlockAuthKey relayId keyId createdAt s).1 = .error e) : isRejection e = false := by
  rw [insertBlockAuthKey] at h
  split at h
  · cases h
  · cases h
    rfl

theorem createBlockAuthKey_error {e : PyExn}
    (h : (createBlockAuthKey env relayId keyId s).1 = .error e) : isRejection e = false := by
  rw [createBlockAuthKey] at h
  cases hd : deriveBlockAuthKey env relayId keyId with
  | error e' =>
    rw [hd, Py.bind_error (Py.ofExcept_run _ s)] at h
    cases h
    rw [deriveBlockAuthKey] at hd
    split at hd
    · cases hd
      rfl
    · cases hd
  | ok keyBytes =>
    rw [hd, Py.bind_ok (Py.ofExcept_run _ s), Py.bind_ok (Py.read_run _ s)] at h
    cases hi : insertBlockAuthKey relayId keyId s.now s with
    | mk result s₁ =>
      cases result with
      | ok _ =>
        rw [Py.bind_ok hi] at h
        cases h
      | error e' =>
        rw [Py.bind_error hi] at h
        cases h
        exact insertBlockAuthKey_error (congrArg Prod.fst hi)

theorem createRegistryApiKey_error {C : Primitives} {pem : Option Str} {uses : Int} {e : PyExn}
    (h : (createRegistryApiKey C relayId pem uses keyId key s).1 = .error e) :
    isRejection e = false := by
  rw [createRegistryApiKey] at h
  split at h
  · cases h
  · cases h
    rfl

/-- The only rejection of a bootstrap comes before its first write. -/
theorem bootstrap_rejected {pem : Option Str} {e : PyExn}
    (h : bootstrap env gen relayId pem s = (.error e, s')) (he : isRejection e = true) : s' = s := by
  rw [bootstrap] at h
  by_cases hpem : pem = none
  · rw [Py.bind_error (Py.raiseIf_pos hpem _ s)] at h
    cases h
    rfl
  · rw [Py.bind_ok (Py.raiseIf_neg hpem _ s)] at h
    exfalso
    have hfalse : isRejection e = false := by
      cases hc : createRegistryApiKey env.C relayId pem env.registryApiKeyInitialUses gen.keyId
        gen.key s with
      | mk result s₁ =>
        cases result with
        | error e' =>
          rw [Py.bind_error hc] at h
          cases h
          exact createRegistryApiKey_error (congrArg Prod.fst hc)
        | ok _ =>
          rw [Py.bind_ok hc] at h
          cases ha : createBlockAuthKey env relayId gen.authKeyId s₁ with
          | mk result s₂ =>
            cases result with
            | error e' =>
              rw [Py.bind_error ha] at h
              cases h
              exact createBlockAuthKey_error (congrArg Prod.fst ha)
            | ok _ =>
              rw [Py.bind_ok ha] at h
              cases h
    rw [hfalse] at he
    cases he

theorem respond_keyed (hid : r.registryApiKeyId = some keyId) (hkey : r.registryApiKey = some key) :
    respond env gen r = (authenticateRelay env r.relayId keyId key true >>= fun record =>
      answer env gen r.relayId r.relayPublicKeyPem record) := by
  rw [respond, hid, hkey]

theorem respond_allowlist (s : Db) : (respond env gen r s).2.allowlist = s.allowlist := by
  have hp : Py.Preserves (·.allowlist = s.allowlist) (respond env gen r) := by
    rw [respond]
    split
    · exact Py.preserves_bind (authenticate_keeps_allowlist _ _ _ _)
        fun _ => answer_preserves (lasting_allowlist _) _ _
    · exact bootstrap_preserves (lasting_allowlist _) _
  exact hp s rfl

/-- An accepted key has lost a use, whatever comes after. -/
theorem respond_accepted (hallowed : (s.allowlist.find r.relayId).any (·.enabled) = true)
    (h : KeyAccepted env s r) : ∃ k, usesOf k (respond env gen r s).2 ≠ usesOf k s := by
  obtain ⟨keyId, key, hid, hkey, row, hrow, hhash, huses⟩ := h
  refine ⟨(r.relayId, keyId), ?_⟩
  have hspent := usesOf_spendUse hrow huses
  have hlasting : Py.Preserves (usesOf (r.relayId, keyId) · = some (row.remainingUses - 1))
      (answer env gen r.relayId r.relayPublicKeyPem
        { apiKeyRecord keyId row with remainingUses := row.remainingUses - 1 }) :=
    answer_preserves (lasting_uses _ _) _ _
  have hkept := hlasting (spendUse r.relayId keyId s) hspent
  rw [respond_keyed hid hkey, Py.bind_ok (authenticate_accepts hallowed hrow hhash huses), hkept, usesOf, hrow,
    Option.map_some, ne_eq, Option.some.injEq]
  omega

theorem respond_not_accepted (hallowed : (s.allowlist.find r.relayId).any (·.enabled) = true)
    (hno : ¬ KeyAccepted env s r) {e : PyExn} (h : respond env gen r s = (.error e, s'))
    (he : isRejection e = true) : s' = s := by
  cases hid : r.registryApiKeyId with
  | none =>
    rw [respond, hid] at h
    exact bootstrap_rejected h he
  | some keyId =>
    cases hkey : r.registryApiKey with
    | none =>
      rw [respond, hid, hkey] at h
      exact bootstrap_rejected h he
    | some key =>
      have hrejects : ¬ Accepts env s r.relayId keyId key := fun ha => hno ⟨keyId, key, hid, hkey, ha⟩
      rw [respond_keyed hid hkey, Py.bind_error (authenticate_rejects hallowed hrejects true)] at h
      cases h
      rfl

end heartbeat

/-- Nothing to adopt; and for a heartbeat that is admitted, nothing new to record and no use to
take. -/
def NothingToWrite (env : Env) (s : Db) : RelayRequest → Prop
  | .heartbeat r _ => ¬ Adopts env s r.relayId r.relayBaseUrl ∧
      ∀ url, Admitted s r.relayId r.relayBaseUrl url → Recorded r url s ∧ ¬ KeyAccepted env s r
  | .register r => isHex64 (lower r.token) = true → isHex64 (lower r.blockHash) = true →
      ¬ Adopts env s r.relayId r.relayBaseUrl
  | .verifyOverwrite r => isHex64 (lower r.token) = true → isHex64 (lower r.blockHash) = true →
      ¬ Adopts env s r.relayId r.relayBaseUrl

theorem keyAccepted_recorded {r : HeartbeatRequest} (url : Str) (s : Db) :
    KeyAccepted env (recorded r url s) r ↔ KeyAccepted env s r := by
  rw [KeyAccepted, KeyAccepted]
  simp only [accepts_recorded]

theorem heartbeat_unchanged_iff {r : HeartbeatRequest} {gen : Generated} {e : PyExn}
    (h : processHeartbeat env gen r s = (.error e, s')) (he : isRejection e = true) :
    s' = s ↔ NothingToWrite env s (.heartbeat r gen) := by
  rw [processHeartbeat] at h
  rcases record_cases (resolve_cases env s r.relayId r.relayBaseUrl) with
    ⟨e', hrec, ha, hn⟩ | ⟨s₁, hrec, ha, hlist⟩ | ⟨url, hrec, hadm⟩
  · rw [Py.bind_error hrec] at h
    cases h
    exact ⟨fun _ => ⟨ha, fun url hadm => absurd hadm (hn url)⟩, fun _ => rfl⟩
  · rw [Py.bind_ok hrec] at h
    have hlist' : s'.allowlist = s₁.allowlist := by
      rw [← (respond_allowlist s₁ : (respond env gen r s₁).2.allowlist = _), h]
    constructor
    · rintro rfl
      exact absurd hlist'.symm hlist
    · intro hnothing
      exact absurd ha hnothing.1
  · rw [Py.bind_ok hrec] at h
    have hallowed : ((recorded r url s).allowlist.find r.relayId).any (·.enabled) = true := by
      obtain ⟨record, ⟨-, hrecord, henabled⟩, -⟩ := hadm
      obtain ⟨row, hrow, rfl⟩ := Option.map_eq_some_iff.mp hrecord
      rw [recorded_allowlist, hrow]
      exact henabled
    by_cases hkey : KeyAccepted env s r
    · obtain ⟨k, hk⟩ : ∃ k, usesOf k (respond env gen r (recorded r url s)).2 ≠
          usesOf k (recorded r url s) :=
        respond_accepted hallowed ((keyAccepted_recorded url s).mpr hkey)
      rw [h, usesOf_recorded] at hk
      constructor
      · rintro rfl
        exact absurd rfl hk
      · intro hnothing
        exact absurd hkey (hnothing.2 url hadm).2
    · have hs' : s' = recorded r url s :=
        respond_not_accepted hallowed (fun hk => hkey ((keyAccepted_recorded url s).mp hk)) h he
      rw [hs', recorded_eq_self]
      constructor
      · intro hrecorded
        exact ⟨hadm.not_adopts, fun url' hadm' => hadm.unique hadm' ▸ ⟨hrecorded, hkey⟩⟩
      · intro hnothing
        exact (hnothing.2 url hadm).1

/-- What the two block calls have in common: malformed texts are refused first. -/
theorem block_unchanged_iff {α : Type} (r : BlockRequest) (x : Str → Str → Py Db α)
    (hx : ∀ token blockHash, (x token blockHash s).2 = s ↔ ¬ Adopts env s r.relayId r.relayBaseUrl) :
    ((Py.ofExcept (normalizeToken r.token) >>= fun token =>
        Py.ofExcept (normalizeHash r.blockHash) >>= fun blockHash => x token blockHash) s).2 = s ↔
      (isHex64 (lower r.token) = true → isHex64 (lower r.blockHash) = true →
        ¬ Adopts env s r.relayId r.relayBaseUrl) := by
  by_cases ht : isHex64 (lower r.token) = true
  · by_cases hh : isHex64 (lower r.blockHash) = true
    · have htoken : normalizeToken r.token = .ok (lower r.token) := if_pos ht
      have hhash : normalizeHash r.blockHash = .ok (lower r.blockHash) := if_pos hh
      rw [htoken, hhash, Py.bind_ok (Py.ofExcept_run _ s), Py.bind_ok (Py.ofExcept_run _ s), hx]
      simp [ht, hh]
    · have htoken : normalizeToken r.token = .ok (lower r.token) := if_pos ht
      have hhash : normalizeHash r.blockHash = .error _ := if_neg hh
      rw [htoken, hhash, Py.bind_ok (Py.ofExcept_run _ s), Py.bind_error (Py.ofExcept_run _ s)]
      simp [hh]
  · have htoken : normalizeToken r.token = .error _ := if_neg ht
    rw [htoken, Py.bind_error (Py.ofExcept_run _ s)]
    simp [ht]

theorem verifyOverwrite_reads (r : BlockRequest) (token blockHash : Str)
    (checked : Str × PlacementRow) (s : Db) :
    ((getActiveBlockAuthKey r.relayId >>= fun authKeyId =>
      overwriteReply env r token blockHash checked authKeyId) s).2 = s := by
  have hp : Py.Preserves (· = s) (getActiveBlockAuthKey r.relayId >>= fun authKeyId =>
      overwriteReply env r token blockHash checked authKeyId) := by
    refine Py.preserves_bind (Py.preserves_read _) fun authKeyId => ?_
    cases authKeyId with
    | none => exact Py.preserves_raise _
    | some keyId => exact Py.preserves_bind (Py.preserves_ofExcept _) fun _ => Py.preserves_pure _
  exact hp s rfl

/-- A rejected call leaves the tables as they were exactly when it found nothing to write. -/
theorem rejected_unchanged_iff (env : Env) (s s' : Db) (request : RelayRequest) (e : PyExn)
    (h : serve env request s = (.error e, s')) (he : isRejection e = true) :
    s' = s ↔ NothingToWrite env s request := by
  cases request with
  | heartbeat r gen =>
    refine heartbeat_unchanged_iff ?_ he
    rw [serve] at h
    cases hr : processHeartbeat env gen r s with
    | mk result s₁ =>
      cases result with
      | ok value =>
        rw [Py.bind_ok hr] at h
        cases h
      | error e' =>
        rw [Py.bind_error hr] at h
        cases h
        rfl
  | register r =>
    have hs' : s' = (serve env (.register r) s).2 := by rw [h]
    rw [hs']
    exact block_unchanged_iff r _ fun token blockHash => by
      rw [Py.bind_snd fun _ _ => rfl, checkBlock_unchanged]
  | verifyOverwrite r =>
    have hs' : s' = (Registry.verifyOverwrite env r s).2 := by
      rw [← Py.bind_snd (f := fun _ => pure ()) fun _ _ => rfl]
      exact (congrArg Prod.snd h).symm
    rw [hs']
    exact block_unchanged_iff r _ fun token blockHash => by
      rw [Py.bind_snd (verifyOverwrite_reads r token blockHash), checkBlock_unchanged]

def samplePolicy : PlacementPolicy :=
  { stripeTargetRelays := 3, maxFileReplicaCount := 1, maxReplicasPerBlock := 2,
    minGrantTtlSeconds := 3600, clockSkewSeconds := 60, maxRequestedTtlSeconds := 86400,
    ttlDegradeStepDivisor := 4 }

def sampleEnv : Env :=
  { C := PlainCrypto.plain,
    hkdfSha256 := fun _ salt info keyMaterial => PlainCrypto.plain.hmacSha256
      (PlainCrypto.plain.hmacSha256 salt keyMaterial) (info ++ [1]),
    encryptForRelay := fun _ secret => .ok secret,
    isoformat := fun _ => ascii "2030-01-01T00:00:00+00:00", tokenTtlSeconds := 3600,
    registryApiKeyInitialUses := 100, blockAuthMasterKey := List.replicate 32 5,
    relayHeartbeatStaleSeconds := 90, heartbeatUrlPolicy := .syncIfUnset,
    placementPolicy := samplePolicy, initialUses_pos := by decide, masterKey_length := by decide }

def sampleReport : RelayReport :=
  { status := ascii "ok", storedBlocks := 10, maxBlocks := 100, storageRate := 1 / 10,
    blockMaxAgeSeconds := 86400, blockSweepIntervalSeconds := 3600 }

def sampleRelay : Str := ascii "relay-a"
def sampleUrl : Str := ascii "http://a.test"

/-- An allowlisted relay that has bootstrapped its keys. -/
def sampleDb : Db :=
  { allowlist := ⟨[(sampleRelay, ⟨some sampleUrl, 0, true⟩)], by decide⟩
    relayStates := ⟨[(sampleRelay, reportedRow sampleUrl sampleReport 1000)], by decide⟩
    registryKeys := ⟨[((sampleRelay, ascii "key-1"),
      ⟨hashRegistryApiKey PlainCrypto.plain (ascii "secret"), 5, some (ascii "PEM A"), 0⟩)], by decide⟩
    blockAuthKeys := ⟨[((sampleRelay, ascii "auth-1"), ⟨activeStatus, 0⟩)], by decide⟩
    placements := Table.empty
    now := 2000 }

def sampleGenerated : Generated :=
  { keyId := ascii "key-2", key := ascii "secret-2", authKeyId := ascii "auth-2",
    nextAuthKeyId := ascii "auth-3" }

/-- Anyone who knows a relay id and its URL can send this. -/
def forgedHeartbeat : RelayRequest :=
  .heartbeat { relayId := sampleRelay, relayBaseUrl := sampleUrl,
               report := { sampleReport with storageRate := 1 }, registryApiKeyId := some (ascii "key-1"),
               registryApiKey := some (ascii "guess"), relayPublicKeyPem := some (ascii "PEM B") }
    sampleGenerated

theorem rejected_unchanged_iff_forged :
    (serve sampleEnv forgedHeartbeat sampleDb).1 =
      .error (httpException 401 "invalid registryApiKey") ∧
    ((serve sampleEnv forgedHeartbeat sampleDb).2 = sampleDb ↔
      NothingToWrite sampleEnv sampleDb forgedHeartbeat) :=
  have h : (serve sampleEnv forgedHeartbeat sampleDb).1 =
      .error (httpException 401 "invalid registryApiKey") := by decide +kernel
  ⟨h, rejected_unchanged_iff sampleEnv sampleDb _ forgedHeartbeat _ (Prod.ext h rfl) (by decide)⟩

/-- It is answered with 401, and the relay's public key and state are replaced. -/
theorem forged_heartbeat_writes :
    (serve sampleEnv forgedHeartbeat sampleDb).1 =
      .error (httpException 401 "invalid registryApiKey") ∧
    isRejection (httpException 401 "invalid registryApiKey") = true ∧
    ((serve sampleEnv forgedHeartbeat sampleDb).2.registryKeys.find (sampleRelay, ascii "key-1")).map
      (·.relayPublicKeyPem) = some (some (ascii "PEM B")) ∧
    (serve sampleEnv forgedHeartbeat sampleDb).2 ≠ sampleDb := by
  decide +kernel

end TwelveC.Registry.Rejections
