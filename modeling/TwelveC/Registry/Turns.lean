import TwelveC.Registry.Service
import TwelveC.PyTurns

/-!
# Heartbeats that take turns

Every statement of a heartbeat is an await at which other heartbeats may take
over. Left alone, the turns of a heartbeat amount to `process_heartbeat`.
-/

namespace TwelveC.Registry.Turns

open Lib Relay.BlockAuth Scheduling RegistryRepository PyTurns

/-- What a new block auth key is made for. -/
inductive Purpose where
  | bootstrap
  | provide (record : RegistryApiKeyRecord)
  | next (record : RegistryApiKeyRecord) (pem : Str) (authKey : Option (Str × Bytes))
      (nextKey : Str × Bytes)
  deriving DecidableEq, Repr

/-- The await that a heartbeat is at. The record is what the key's authentication returned, with the
uses left after this one; `done` keeps it beside the outcome. -/
inductive Position where
  | start
  | adoptRead (url : Str)
  | adoptWrite (url : Str) (enabled : Bool)
  | adoptReturn (url : Str)
  | savePem (url : Str)
  | saveState (url : Str)
  | bootstrapKey
  | allowed (keyId key : Str)
  | verify (keyId key : Str)
  | consume (keyId : Str) (record : RegistryApiKeyRecord)
  | selectUses (keyId : Str) (record : RegistryApiKeyRecord)
  | activeKey (record : RegistryApiKeyRecord)
  | mint (purpose : Purpose)
  | insert (purpose : Purpose) (keyBytes : Bytes) (createdAt : Int)
  | rotateKey (record : RegistryApiKeyRecord) (pem : Str) (authKey : Option (Str × Bytes))
  | clearKeys (record : RegistryApiKeyRecord) (pem : Str) (authKey : Option (Str × Bytes))
      (nextKey : Str × Bytes)
  | done (record : Option RegistryApiKeyRecord) (outcome : Except PyExn HeartbeatResult)
  deriving DecidableEq

def Position.outcome : Position → Option (Except PyExn HeartbeatResult)
  | .done _ outcome => some outcome
  | _ => none

def failed (record : Option RegistryApiKeyRecord) (e : PyExn) : Position := .done record (.error e)

@[simp] theorem outcome_done (record : Option RegistryApiKeyRecord)
    (outcome : Except PyExn HeartbeatResult) :
    (Position.done record outcome).outcome = some outcome := rfl
@[simp] theorem outcome_failed (record : Option RegistryApiKeyRecord) (e : PyExn) :
    (failed record e).outcome = some (.error e) := rfl

variable (env : Env) (r : HeartbeatRequest) (gen : Generated)

/-- The first turn: the normalized URL, and whether it is to be adopted. -/
def checkUrl : Py Db (Str × Bool) := do
  let normalized ← Py.ofExcept (normalizeRelayBaseUrl (rstripSlash r.relayBaseUrl))
  let record ← getAllowlistRecord r.relayId
  match record with
  | none => Py.raise notAllowlisted
  | some record =>
    Py.raiseIf (record.enabled = false) notAllowlisted
    match record.relayBaseUrl with
    | none => do
      Py.raiseIf (env.heartbeatUrlPolicy = .strict) (httpException 409
        ("relayBaseUrl not configured in allowlist for relay " ++ display r.relayId))
      pure (normalized, true)
    | some url => do
      let _ ← matchRelayBaseUrl r.relayId url normalized
      pure (normalized, false)

/-- After the state is written. -/
def afterRecord : Position :=
  match r.registryApiKeyId, r.registryApiKey with
  | some keyId, some key => .allowed keyId key
  | _, _ =>
    if r.relayPublicKeyPem = none then
      failed none (httpException 400
        "relayPublicKeyPem required for initial registryApiKey bootstrap")
    else .bootstrapKey

def checkAllowed : Py Db Unit := do
  let allowed ← isAllowlisted r.relayId
  Py.raiseIf (allowed = false) notAllowlisted

/-- After the consuming statements. -/
def afterConsume (record : RegistryApiKeyRecord) (remaining : Int) : Position :=
  if remaining < 0 then failed none (httpException 401 "registryApiKey exhausted")
  else .activeKey { record with remainingUses := remaining }

def publicKeyOf (record : RegistryApiKeyRecord) : Option Str :=
  (truthy r.relayPublicKeyPem).or record.relayPublicKeyPem

/-- Once the relay has an active block auth key. -/
def afterProvide (record : RegistryApiKeyRecord) (authKey : Option (Str × Bytes)) : Position :=
  if record.remainingUses = 0 then
    match publicKeyOf r record with
    | none => failed (some record)
        (httpException 400 "relayPublicKeyPem required for registryApiKey rotation")
    | some pem => .rotateKey record pem authKey
  else
    .done (some record)
      (.ok { keyRemainingUses := record.remainingUses, bootstrapBlockAuthKey := authKey })

def afterActive (record : RegistryApiKeyRecord) : Option Str → Position
  | some _ => afterProvide r record none
  | none =>
    if publicKeyOf r record = none then
      failed (some record)
        (httpException 400 "relayPublicKeyPem required for blockAuthKey bootstrap")
    else .mint (.provide record)

def Purpose.record : Purpose → Option RegistryApiKeyRecord
  | .bootstrap => none
  | .provide record => some record
  | .next record _ _ _ => some record

def Purpose.keyId : Purpose → Str
  | .bootstrap => gen.authKeyId
  | .provide _ => gen.authKeyId
  | .next _ _ _ _ => gen.nextAuthKeyId

/-- The key and the clock, before the row is inserted. -/
def mintKey (keyId : Str) : Py Db (Bytes × Int) := do
  let keyBytes ← Py.ofExcept (deriveBlockAuthKey env r.relayId keyId)
  let now ← Py.read (·.now)
  pure (keyBytes, now)

def rotated (record : RegistryApiKeyRecord) (authKey : Option (Str × Bytes))
    (nextKey nextAuthKey : Str × Bytes) : HeartbeatResult :=
  { keyRemainingUses := record.remainingUses, nextRegistryApiKey := some nextKey,
    bootstrapBlockAuthKey := authKey, nextBlockAuthKey := some nextAuthKey }

def afterInsert (keyBytes : Bytes) : Purpose → Position
  | .bootstrap => .done none (.ok
      { keyRemainingUses := env.registryApiKeyInitialUses,
        bootstrapRegistryApiKey := some (gen.keyId, gen.key),
        bootstrapBlockAuthKey := some (gen.authKeyId, keyBytes) })
  | .provide record => afterProvide r record (some (gen.authKeyId, keyBytes))
  | .next record pem authKey nextKey =>
    .done (some record) ((env.encryptForRelay pem keyBytes).map fun encrypted =>
      rotated record authKey nextKey (gen.nextAuthKeyId, encrypted))

def advance : Position → Db → Position × Db
  | .start, s => goto (checkUrl env r s)
      (fun p => if p.2 then .adoptRead p.1 else .savePem p.1) (failed none)
  | .adoptRead url, s => goto (getAllowlistRecord r.relayId s)
      (fun record => match record with
        | some record => .adoptWrite url record.enabled
        | none => failed none notAllowlisted) (failed none)
  | .adoptWrite url enabled, s =>
    goto (Py.modify (setAllowlistRow r.relayId (some (rstripSlash url)) enabled) s)
      (fun _ => .adoptReturn url) (failed none)
  | .adoptReturn url, s => goto (getAllowlistRecord r.relayId s)
      (fun record => match record with
        | some _ => .savePem url
        | none => failed none notAllowlisted) (failed none)
  | .savePem url, s => goto (savePublicKey r.relayId r.relayPublicKeyPem s)
      (fun _ => .saveState url) (failed none)
  | .saveState url, s => goto (upsertRelayState r.relayId url r.report s)
      (fun _ => afterRecord r) (failed none)
  | .bootstrapKey, s =>
    goto (createRegistryApiKey env.C r.relayId r.relayPublicKeyPem env.registryApiKeyInitialUses
      gen.keyId gen.key s) (fun _ => .mint .bootstrap) (failed none)
  | .allowed keyId key, s => goto (checkAllowed r s) (fun _ => .verify keyId key) (failed none)
  | .verify keyId key, s => goto (verifyRegistryApiKey env.C r.relayId keyId key s)
      (fun record => match record with
        | some record => .consume keyId record
        | none => failed none (httpException 401 "invalid registryApiKey")) (failed none)
  | .consume keyId record, s => goto (decrementUses r.relayId keyId s)
      (fun rowcount => if rowcount = 0 then afterConsume record 0 else .selectUses keyId record)
      (failed none)
  | .selectUses keyId record, s => goto (selectRemainingUses r.relayId keyId s)
      (afterConsume record) (failed none)
  | .activeKey record, s => goto (getActiveBlockAuthKey r.relayId s) (afterActive r record)
      (failed (some record))
  | .mint purpose, s => goto (mintKey env r (purpose.keyId gen) s)
      (fun p => .insert purpose p.1 p.2) (failed purpose.record)
  | .insert purpose keyBytes createdAt, s =>
    goto (insertBlockAuthKey r.relayId (purpose.keyId gen) createdAt s)
      (fun _ => afterInsert env r gen keyBytes purpose) (failed purpose.record)
  | .rotateKey record pem authKey, s =>
    goto (rotateRegistryApiKey env r.relayId pem gen.keyId gen.key s)
      (.clearKeys record pem authKey) (failed (some record))
  | .clearKeys record pem authKey nextKey, s => goto (Py.modify (clearBlockAuthKeys r.relayId) s)
      (fun _ => .mint (.next record pem authKey nextKey)) (failed (some record))
  | position, s => (position, s)

section frame

variable {env r gen} {p : Position} {s : Db} {Q : Db → Prop}

open Py

theorem checkUrl_preserves : Preserves Q (checkUrl env r) := by
  refine preserves_bind (preserves_ofExcept _) fun url =>
    preserves_bind (preserves_read _) fun record => ?_
  cases record with
  | none => exact preserves_raise _
  | some record =>
    refine preserves_bind (preserves_raiseIf _ _) fun _ => ?_
    cases record.relayBaseUrl with
    | none => exact preserves_bind (preserves_raiseIf _ _) fun _ => preserves_pure _
    | some listed =>
      have hmatch : Preserves Q (matchRelayBaseUrl r.relayId listed url) :=
        preserves_bind (preserves_raiseIf _ _) fun _ => preserves_pure _
      exact preserves_bind hmatch fun _ => preserves_pure _

/-- A turn keeps what each statement of its kind keeps. -/
theorem advance_preserves
    (hrecord : ∀ s allowlist relayStates, Q s → Q { s with allowlist, relayStates })
    (hpem : ∀ pem, Preserves Q (updateRelayPublicKey r.relayId pem))
    (hcreate : ∀ pem uses keyId key,
      Preserves Q (createRegistryApiKey env.C r.relayId pem uses keyId key))
    (hconsume : ∀ keyId record, p = .consume keyId record →
      Preserves Q (decrementUses r.relayId keyId))
    (hinsert : ∀ purpose keyBytes createdAt, p = .insert purpose keyBytes createdAt →
      Preserves Q (insertBlockAuthKey r.relayId (purpose.keyId gen) createdAt))
    (hclear : ∀ record pem authKey nextKey, p = .clearKeys record pem authKey nextKey →
      Preserves Q (Py.modify (clearBlockAuthKeys r.relayId)))
    (h : Q s) : Q (advance env r gen p s).2 := by
  have hkeep : ∀ {α : Type} {x : Py Db α} {ok : α → Position} {error : PyExn → Position},
      Preserves Q x → Q (goto (x s) ok error).2 := by
    intro α x ok error hx
    rw [goto_snd]
    exact hx s h
  cases p with
  | start => exact hkeep checkUrl_preserves
  | adoptWrite url enabled => exact hrecord s _ s.relayStates h
  | savePem url =>
    refine hkeep ?_
    rw [savePublicKey]
    cases truthy r.relayPublicKeyPem with
    | none => exact preserves_pure _
    | some pem => exact hpem pem
  | saveState url => exact hrecord s s.allowlist _ h
  | bootstrapKey => exact hkeep (hcreate _ _ _ _)
  | allowed keyId key =>
    exact hkeep (preserves_bind (preserves_read _) fun _ => preserves_raiseIf _ _)
  | consume keyId record => exact hkeep (hconsume keyId record rfl)
  | mint purpose =>
    exact hkeep (preserves_bind (preserves_ofExcept _) fun _ =>
      preserves_bind (preserves_read _) fun _ => preserves_pure _)
  | insert purpose keyBytes createdAt => exact hkeep (hinsert purpose keyBytes createdAt rfl)
  | rotateKey record pem authKey =>
    exact hkeep (preserves_bind (hcreate _ _ _ _) fun _ =>
      preserves_bind (preserves_ofExcept _) fun _ => preserves_pure _)
  | clearKeys record pem authKey nextKey =>
    exact hkeep (hclear record pem authKey nextKey rfl)
  | _ => exact h

end frame

section alone

variable {env r gen}

abbrev Does (env : Env) (r : HeartbeatRequest) (gen : Generated) :
    Position → Py Db HeartbeatResult → Prop :=
  Implements (advance env r gen) Position.outcome

theorem does_error (record : Option RegistryApiKeyRecord) (e : PyExn) :
    Does env r gen (failed record e) (Py.raise e) := implements_done rfl

/-- Both turns of a new key, with what the heartbeat goes on with. -/
theorem does_mint {purpose : Purpose} {f : Bytes → Py Db HeartbeatResult}
    (h : ∀ keyBytes, Does env r gen (afterInsert env r gen keyBytes purpose) (f keyBytes)) :
    Does env r gen (.mint purpose) (createBlockAuthKey env r.relayId (purpose.keyId gen) >>= f) := by
  have hmint : createBlockAuthKey env r.relayId (purpose.keyId gen) >>= f =
      mintKey env r (purpose.keyId gen) >>= fun p =>
        insertBlockAuthKey r.relayId (purpose.keyId gen) p.2 >>= fun _ => f p.1 := by
    rw [createBlockAuthKey, mintKey]
    simp only [Py.bind_assoc, Py.bind_pure_left]
  rw [hmint]
  exact implements_bind (fun _ => rfl)
    (fun p => implements_bind (fun _ => rfl) (fun _ => h p.1) fun _ => rfl) fun _ => rfl

theorem does_bootstrapKey (hpem : r.relayPublicKeyPem ≠ none) :
    Does env r gen .bootstrapKey (bootstrap env gen r.relayId r.relayPublicKeyPem) := by
  have hskip : bootstrap env gen r.relayId r.relayPublicKeyPem =
      createRegistryApiKey env.C r.relayId r.relayPublicKeyPem env.registryApiKeyInitialUses
        gen.keyId gen.key >>= fun _ => createBlockAuthKey env r.relayId gen.authKeyId >>=
          fun authKey => pure
            { keyRemainingUses := env.registryApiKeyInitialUses,
              bootstrapRegistryApiKey := some (gen.keyId, gen.key),
              bootstrapBlockAuthKey := some (gen.authKeyId, authKey) } := by
    funext s
    rw [bootstrap, Py.bind_ok (Py.raiseIf_neg hpem _ s)]
  rw [hskip]
  exact implements_bind (fun _ => rfl) (fun _ => does_mint fun _ => implements_done rfl) fun _ => rfl

/-- The rotation of both keys, after the answer so far. -/
theorem does_rotateKey (record : RegistryApiKeyRecord) (pem : Str) (authKey : Option (Str × Bytes)) :
    Does env r gen (.rotateKey record pem authKey) (rotate env gen r.relayId (some pem) >>= fun next =>
      pure (rotated record authKey next.1 next.2)) := by
  have hrotate : rotate env gen r.relayId (some pem) >>= (fun next =>
      pure (rotated record authKey next.1 next.2)) =
      rotateRegistryApiKey env r.relayId pem gen.keyId gen.key >>= fun nextKey =>
        Py.modify (clearBlockAuthKeys r.relayId) >>= fun _ =>
          createBlockAuthKey env r.relayId gen.nextAuthKeyId >>= fun keyBytes =>
            Py.ofExcept ((env.encryptForRelay pem keyBytes).map fun encrypted =>
              rotated record authKey nextKey (gen.nextAuthKeyId, encrypted)) := by
    rw [rotate]
    simp only [rotateBlockAuthKey, Py.bind_assoc, Py.bind_pure_left]
    refine congrArg _ (funext fun nextKey => congrArg _ (funext fun _ => congrArg _ (funext fun keyBytes =>
      ?_)))
    funext s
    cases env.encryptForRelay pem keyBytes <;> rfl
  rw [hrotate]
  have hclear : ∀ nextKey s, advance env r gen (.clearKeys record pem authKey nextKey) s =
      goto (Py.modify (clearBlockAuthKeys r.relayId) s)
        (fun _ => .mint (.next record pem authKey nextKey)) (failed (some record)) :=
    fun _ _ => rfl
  refine implements_bind (fun _ => rfl) (fun nextKey => ?_) fun _ => rfl
  refine implements_bind (hclear nextKey) (fun _ => ?_) fun _ => rfl
  exact does_mint fun keyBytes => implements_done rfl

theorem does_afterProvide (record : RegistryApiKeyRecord) (authKey : Option (Str × Bytes)) :
    Does env r gen (afterProvide r record authKey)
      (conclude env gen r.relayId (publicKeyOf r record) record authKey) := by
  rw [afterProvide, conclude]
  by_cases hzero : record.remainingUses = 0
  · rw [if_pos hzero, if_pos hzero]
    cases publicKeyOf r record with
    | none => exact does_error _ _
    | some pem => exact does_rotateKey record pem authKey
  · rw [if_neg hzero, if_neg hzero]
    exact implements_done rfl

theorem does_activeKey (record : RegistryApiKeyRecord) :
    Does env r gen (.activeKey record) (answer env gen r.relayId r.relayPublicKeyPem record) := by
  have hanswer : answer env gen r.relayId r.relayPublicKeyPem record =
      getActiveBlockAuthKey r.relayId >>= fun active =>
        providedFor env gen r.relayId (publicKeyOf r record) active >>= fun authKey =>
          conclude env gen r.relayId (publicKeyOf r record) record authKey := by
    rw [answer, provideBlockAuthKey, Py.bind_assoc]
    rfl
  rw [hanswer]
  refine implements_total (fun _ => rfl) (fun _ => rfl) fun active => ?_
  cases active with
  | some keyId => exact does_afterProvide record none
  | none =>
    by_cases hkey : publicKeyOf r record = none
    · have herror : (providedFor env gen r.relayId (publicKeyOf r record) none >>= fun authKey =>
          conclude env gen r.relayId (publicKeyOf r record) record authKey) =
            Py.raise (httpException 400 "relayPublicKeyPem required for blockAuthKey bootstrap") := by
        funext s
        exact Py.bind_error (Py.bind_error (Py.raiseIf_pos hkey _ s))
      rw [herror, afterActive, if_pos hkey]
      exact does_error _ _
    · have hmint : (providedFor env gen r.relayId (publicKeyOf r record) none >>= fun authKey =>
          conclude env gen r.relayId (publicKeyOf r record) record authKey) =
            createBlockAuthKey env r.relayId gen.authKeyId >>= fun keyBytes =>
              conclude env gen r.relayId (publicKeyOf r record) record
                (some (gen.authKeyId, keyBytes)) := by
        rw [providedFor, Py.bind_assoc]
        funext s
        rw [Py.bind_ok (Py.raiseIf_neg hkey _ s), Py.bind_assoc]
        rfl
      rw [hmint, afterActive, if_neg hkey]
      exact does_mint fun keyBytes => does_afterProvide record (some (gen.authKeyId, keyBytes))

/-- The end of the authentication: the uses that the consuming statements report. -/
theorem does_afterConsume (record : RegistryApiKeyRecord) (remaining : Int) :
    Does env r gen (afterConsume record remaining)
      (Py.raiseIf (remaining < 0) (httpException 401 "registryApiKey exhausted") >>= fun _ =>
        answer env gen r.relayId r.relayPublicKeyPem { record with remainingUses := remaining }) := by
  rw [afterConsume]
  by_cases hneg : remaining < 0
  · have herror : (Py.raiseIf (remaining < 0) (httpException 401 "registryApiKey exhausted") >>= fun _ =>
        answer env gen r.relayId r.relayPublicKeyPem { record with remainingUses := remaining }) =
          Py.raise (httpException 401 "registryApiKey exhausted") := by
      funext s
      exact Py.bind_error (Py.raiseIf_pos hneg _ s)
    rw [if_pos hneg, herror]
    exact does_error _ _
  · have hskip : (Py.raiseIf (remaining < 0) (httpException 401 "registryApiKey exhausted") >>= fun _ =>
        answer env gen r.relayId r.relayPublicKeyPem { record with remainingUses := remaining }) =
          answer env gen r.relayId r.relayPublicKeyPem { record with remainingUses := remaining } := by
      funext s
      exact Py.bind_ok (Py.raiseIf_neg hneg _ s)
    rw [if_neg hneg, hskip]
    exact does_activeKey _

theorem does_consume (keyId : Str) (record : RegistryApiKeyRecord) :
    Does env r gen (.consume keyId record) (consumeRegistryApiKeyUse r.relayId keyId >>= fun remaining =>
      Py.raiseIf (remaining < 0) (httpException 401 "registryApiKey exhausted") >>= fun _ =>
        answer env gen r.relayId r.relayPublicKeyPem { record with remainingUses := remaining }) := by
  have hturn : ∀ s, advance env r gen (.consume keyId record) s = goto (decrementUses r.relayId keyId s)
      (fun rowcount => if rowcount = 0 then afterConsume record 0 else .selectUses keyId record)
      (failed none) := fun _ => rfl
  rw [consumeRegistryApiKeyUse, Py.bind_assoc]
  refine implements_bind hturn (fun rowcount => ?_) fun _ => rfl
  by_cases hzero : rowcount = 0
  · rw [if_pos hzero, if_pos hzero]
    exact does_afterConsume record 0
  · rw [if_neg hzero, if_neg hzero]
    exact implements_total (fun _ => rfl) (fun _ => rfl) (does_afterConsume record)

theorem does_allowed (keyId key : Str) :
    Does env r gen (.allowed keyId key) (authenticateRelay env r.relayId keyId key true >>= fun record =>
      answer env gen r.relayId r.relayPublicKeyPem record) := by
  have hauth : (authenticateRelay env r.relayId keyId key true >>= fun record =>
      answer env gen r.relayId r.relayPublicKeyPem record) =
      checkAllowed r >>= fun _ => verifyRegistryApiKey env.C r.relayId keyId key >>= fun record =>
        authenticated r.relayId keyId true record >>= fun record =>
          answer env gen r.relayId r.relayPublicKeyPem record := by
    rw [authenticateRelay, checkAllowed]
    simp only [Py.bind_assoc]
  have hverify : ∀ s, advance env r gen (.verify keyId key) s =
      goto (verifyRegistryApiKey env.C r.relayId keyId key s)
        (fun record => match record with
          | some record => .consume keyId record
          | none => failed none (httpException 401 "invalid registryApiKey")) (failed none) :=
    fun _ => rfl
  rw [hauth]
  refine implements_bind (fun _ => rfl) (fun _ => ?_) fun _ => rfl
  refine implements_bind hverify (fun record => ?_) fun _ => rfl
  cases record with
  | none => exact does_error _ _
  | some record =>
    have hsome : (authenticated r.relayId keyId true (some record) >>= fun record =>
        answer env gen r.relayId r.relayPublicKeyPem record) =
        consumeRegistryApiKeyUse r.relayId keyId >>= fun remaining =>
          Py.raiseIf (remaining < 0) (httpException 401 "registryApiKey exhausted") >>= fun _ =>
            answer env gen r.relayId r.relayPublicKeyPem { record with remainingUses := remaining } := by
      rw [authenticated, if_pos rfl]
      simp only [Py.bind_assoc, Py.bind_pure_left]
    rw [hsome]
    exact does_consume keyId record

theorem does_afterRecord : Does env r gen (afterRecord r) (respond env gen r) := by
  rw [afterRecord, respond]
  have hbare : Does env r gen
      (if r.relayPublicKeyPem = none then
        failed none (httpException 400
          "relayPublicKeyPem required for initial registryApiKey bootstrap")
      else .bootstrapKey) (bootstrap env gen r.relayId r.relayPublicKeyPem) := by
    by_cases hpem : r.relayPublicKeyPem = none
    · have herror : bootstrap env gen r.relayId r.relayPublicKeyPem =
          Py.raise (httpException 400
            "relayPublicKeyPem required for initial registryApiKey bootstrap") := by
        funext s
        exact Py.bind_error (Py.raiseIf_pos hpem _ s)
      rw [if_pos hpem, herror]
      exact does_error _ _
    · rw [if_neg hpem]
      exact does_bootstrapKey hpem
  cases r.registryApiKeyId with
  | none => exact hbare
  | some keyId =>
    cases r.registryApiKey with
    | none => exact hbare
    | some key => exact does_allowed keyId key

theorem does_savePem (url : Str) :
    Does env r gen (.savePem url) ((savePublicKey r.relayId r.relayPublicKeyPem >>= fun _ =>
      upsertRelayState r.relayId url r.report) >>= fun _ => respond env gen r) := by
  rw [Py.bind_assoc]
  refine implements_bind (fun _ => rfl) (fun _ => ?_) fun _ => rfl
  exact implements_total (fun _ => rfl) (fun _ => rfl) fun _ => does_afterRecord

theorem does_adoptRead (url : Str) {f : Str → Py Db HeartbeatResult}
    (h : Does env r gen (.savePem url) (f url)) :
    Does env r gen (.adoptRead url) (storeRelayBaseUrl r.relayId url >>= f) := by
  have hread : ∀ s, advance env r gen (.adoptRead url) s = goto (getAllowlistRecord r.relayId s)
      (fun record => match record with
        | some record => .adoptWrite url record.enabled
        | none => failed none notAllowlisted) (failed none) := fun _ => rfl
  have hwrite : ∀ enabled s, advance env r gen (.adoptWrite url enabled) s =
      goto (Py.modify (setAllowlistRow r.relayId (some (rstripSlash url)) enabled) s)
        (fun _ => .adoptReturn url) (failed none) := fun _ _ => rfl
  have hreturn : ∀ s, advance env r gen (.adoptReturn url) s = goto (getAllowlistRecord r.relayId s)
      (fun record => match record with
        | some _ => .savePem url
        | none => failed none notAllowlisted) (failed none) := fun _ => rfl
  rw [storeRelayBaseUrl, patchAllowlistEntry, Py.bind_assoc, Py.bind_assoc]
  refine implements_bind hread (fun record => ?_) fun _ => rfl
  cases record with
  | none => exact does_error _ _
  | some record =>
    show Does env r gen (.adoptWrite url record.enabled) ((Py.modify _ >>= fun _ => _) >>= fun _ => _)
    rw [Py.bind_assoc]
    refine implements_bind (hwrite record.enabled) (fun _ => ?_) fun _ => rfl
    refine implements_bind hreturn (fun updated => ?_) fun _ => rfl
    cases updated with
    | none => exact does_error _ _
    | some updated => exact h

/-- The first turn, and what is left of the URL check after it. -/
theorem resolve_eq : resolveReportedRelayBaseUrl env r.relayId (rstripSlash r.relayBaseUrl) =
    checkUrl env r >>= fun p => if p.2 then storeRelayBaseUrl r.relayId p.1 else pure p.1 := by
  rw [resolveReportedRelayBaseUrl, checkUrl, Py.bind_assoc]
  refine congrArg _ (funext fun normalized => ?_)
  rw [Py.bind_assoc]
  refine congrArg _ (funext fun record => ?_)
  cases record with
  | none => rfl
  | some record =>
    show (Py.raiseIf _ _ >>= fun _ => _) = (Py.raiseIf _ _ >>= fun _ => _) >>= fun _ => _
    rw [Py.bind_assoc]
    refine congrArg _ (funext fun _ => ?_)
    cases record.relayBaseUrl with
    | none =>
      show adoptRelayBaseUrl env r.relayId normalized = (Py.raiseIf _ _ >>= fun _ => _) >>= fun _ => _
      rw [Py.bind_assoc]
      rfl
    | some url =>
      show matchRelayBaseUrl r.relayId url normalized =
        (matchRelayBaseUrl r.relayId url normalized >>= fun _ => _) >>= fun _ => _
      rw [Py.bind_assoc, matchRelayBaseUrl, Py.bind_assoc]
      rfl

/-- Left alone, a heartbeat's turns are `process_heartbeat`. -/
theorem does_heartbeat : Does env r gen .start (processHeartbeat env gen r) := by
  rw [processHeartbeat, recordHeartbeat, resolve_eq, Py.bind_assoc, Py.bind_assoc]
  refine implements_bind (fun _ => rfl) (fun p => ?_) fun _ => rfl
  obtain ⟨url, adopts⟩ := p
  cases adopts with
  | true => exact does_adoptRead url (does_savePem url)
  | false => exact does_savePem url

end alone

end TwelveC.Registry.Turns
