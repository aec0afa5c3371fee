import TwelveC.Registry.Turns
import TwelveC.Registry.Rejections
import TwelveC.Lib.Threads
import Mathlib.Data.Fintype.Card

/-!
# How often a registry API key is accepted

A heartbeat verifies its key, takes a use in a second statement and reads the
uses left in a third. A use that is taken from an exhausted key takes nothing
and is accepted all the same, and two heartbeats can both read that none is
left.
-/

namespace TwelveC.Registry.ApiKeyUses

open Lib Lib.Run RegistryRepository PyTurns Turns Rejections

/-- The record of an accepted key, from its acceptance on. -/
def accepted : Position → Option RegistryApiKeyRecord
  | .activeKey record => some record
  | .mint purpose => purpose.record
  | .insert purpose _ _ => purpose.record
  | .rotateKey record _ _ => some record
  | .clearKeys record _ _ _ => some record
  | .done record _ => record
  | _ => none

/-- The key is verified, and no use is taken yet. -/
def consuming : Position → Bool
  | .consume _ _ => true
  | _ => false

/-- A use is taken, and how many are left is not read yet. -/
def between : Position → Bool
  | .selectUses _ _ => true
  | _ => false

def verifying : Position → Bool
  | .verify _ _ => true
  | _ => false

/-- The key id that the statement at a position works on. -/
def worksOn : Position → Option Str
  | .allowed keyId _ => some keyId
  | .verify keyId _ => some keyId
  | .consume keyId _ => some keyId
  | .selectUses keyId _ => some keyId
  | _ => none

/-- The heartbeat presents this key. -/
def Presents (k : Str × Str) (r : HeartbeatRequest) : Prop :=
  r.relayId = k.1 ∧ r.registryApiKeyId = some k.2

instance (k : Str × Str) (r : HeartbeatRequest) : Decidable (Presents k r) :=
  inferInstanceAs (Decidable (_ ∧ _))

/-- A position works on the key id of its request. -/
def WellPlaced (r : HeartbeatRequest) (p : Position) : Prop :=
  ∀ keyId, worksOn p = some keyId → r.registryApiKeyId = some keyId

section turn

variable {env : Env} {r : HeartbeatRequest} {gen : Generated} {p : Position} {s : Db}
  {k : Str × Str} {keyId : Str} {record : RegistryApiKeyRecord} {u : Int}

/-- A position with this accepted record from which no use is about to be taken or was just taken. -/
structure Quiet (r : HeartbeatRequest) (record : Option RegistryApiKeyRecord) (p : Position) :
    Prop where
  wellPlaced : WellPlaced r p
  accepted : accepted p = record
  notConsuming : consuming p = false
  notBetween : between p = false

/-- Most positions work on no key. -/
theorem Quiet.of_none {record : Option RegistryApiKeyRecord} (hw : worksOn p = none)
    (ha : ApiKeyUses.accepted p = record) : Quiet r record p where
  wellPlaced keyId hk := by
    rw [hw] at hk
    cases hk
  accepted := ha
  notConsuming := by
    cases p with
    | consume => cases hw
    | _ => rfl
  notBetween := by
    cases p with
    | selectUses => cases hw
    | _ => rfl

theorem quiet_failed (record : Option RegistryApiKeyRecord) (e : PyExn) :
    Quiet r record (failed record e) := .of_none rfl rfl

theorem Quiet.goto {α : Type} (record : Option RegistryApiKeyRecord) {ok : α → Position}
    (hok : ∀ a, Quiet r record (ok a)) (x : Except PyExn α × Db) :
    Quiet r record (goto x ok (failed record)).1 := goto_fst hok (quiet_failed record) x

theorem quiet_afterProvide (record : RegistryApiKeyRecord) (authKey : Option (Str × Bytes)) :
    Quiet r (some record) (afterProvide r record authKey) := by
  rw [afterProvide]
  split
  · cases publicKeyOf r record <;> exact .of_none rfl rfl
  · exact .of_none rfl rfl

theorem quiet_afterActive (record : RegistryApiKeyRecord) (active : Option Str) :
    Quiet r (some record) (afterActive r record active) := by
  cases active with
  | some keyId => exact quiet_afterProvide record none
  | none =>
    rw [afterActive]
    split <;> exact .of_none rfl rfl

theorem quiet_afterInsert (keyBytes : Bytes) (purpose : Purpose) :
    Quiet r purpose.record (afterInsert env r gen keyBytes purpose) := by
  cases purpose with
  | bootstrap => exact .of_none rfl rfl
  | provide record => exact quiet_afterProvide record _
  | next record pem authKey nextKey => exact .of_none rfl rfl

theorem quiet_afterRecord : Quiet r none (afterRecord r) := by
  rw [afterRecord]
  split
  case h_1 keyId key hid hkey =>
    refine ⟨fun other h => ?_, rfl, rfl, rfl⟩
    cases h
    exact hid
  case h_2 => split <;> exact .of_none rfl rfl

/-- Away from the statements on a verified key a turn neither accepts a key nor forgets that it was. -/
theorem advance_quiet (hverify : verifying p = false) (hconsume : consuming p = false)
    (hselect : between p = false) (h : WellPlaced r p) (s : Db) :
    Quiet r (accepted p) (advance env r gen p s).1 := by
  cases p with
  | start =>
    refine Quiet.goto none (fun a => ?_) _
    split <;> exact .of_none rfl rfl
  | adoptRead url =>
    refine Quiet.goto none (fun found => ?_) _
    cases found <;> exact .of_none rfl rfl
  | adoptWrite url enabled => exact .of_none rfl rfl
  | adoptReturn url =>
    refine Quiet.goto none (fun found => ?_) _
    cases found <;> exact .of_none rfl rfl
  | savePem url => exact Quiet.goto none (fun _ => .of_none rfl rfl) _
  | saveState url => exact quiet_afterRecord
  | bootstrapKey => exact Quiet.goto none (fun _ => .of_none rfl rfl) _
  | allowed keyId key =>
    refine Quiet.goto none (fun _ => ⟨fun other ho => ?_, rfl, rfl, rfl⟩) _
    cases ho
    exact h keyId rfl
  | verify keyId key => cases hverify
  | consume keyId record => cases hconsume
  | selectUses keyId record => cases hselect
  | activeKey record => exact Quiet.goto (some record) (quiet_afterActive record) _
  | mint purpose => exact Quiet.goto purpose.record (fun _ => .of_none rfl rfl) _
  | insert purpose keyBytes createdAt =>
    exact Quiet.goto purpose.record (fun _ => quiet_afterInsert keyBytes purpose) _
  | rotateKey record pem authKey =>
    exact Quiet.goto (some record) (fun _ => .of_none rfl rfl) _
  | clearKeys record pem authKey nextKey => exact .of_none rfl rfl
  | done record outcome => exact .of_none rfl rfl

theorem afterConsume_placed (record : RegistryApiKeyRecord) (remaining : Int) :
    WellPlaced r (afterConsume record remaining) := by
  rw [afterConsume]
  split <;> exact fun _ hk => by cases hk

theorem advance_placed (h : WellPlaced r p) (s : Db) : WellPlaced r (advance env r gen p s).1 := by
  cases p with
  | consume keyId record =>
    refine goto_fst (fun rowcount => ?_) (fun _ => (quiet_failed none _).wellPlaced) _
    split
    · exact afterConsume_placed record 0
    · exact h
  | selectUses keyId record =>
    exact goto_fst (afterConsume_placed record) (fun _ => (quiet_failed none _).wellPlaced) _
  | verify keyId key =>
    refine goto_fst (fun found => ?_) (fun _ => (quiet_failed none _).wellPlaced) _
    cases found with
    | none => exact (quiet_failed none _).wellPlaced
    | some record =>
      intro other ho
      cases ho
      exact h keyId rfl
  | _ => exact (advance_quiet rfl rfl rfl h s).wellPlaced

/-- A key is verified while it has a use left. -/
theorem advance_verify (key : Str) (s : Db) :
    (∃ e, (advance env r gen (.verify keyId key) s).1 = failed none e) ∨
    ∃ record u, (advance env r gen (.verify keyId key) s).1 = .consume keyId record ∧
      usesOf (r.relayId, keyId) s = some u ∧ 0 < u := by
  rw [advance, verifyRegistryApiKey, Py.read_run, goto_ok]
  cases hrow : (selectRegistryKey env.C s r.relayId keyId key).filter (0 < ·.remainingUses) with
  | none => exact .inl ⟨_, rfl⟩
  | some row =>
    obtain ⟨hselect, hpos⟩ := Option.filter_eq_some_iff.mp hrow
    have hfind := (Option.filter_eq_some_iff.mp hselect).1
    exact .inr ⟨_, row.remainingUses, rfl, by rw [usesOf, hfind, Option.map_some], of_decide_eq_true hpos⟩

open Py in
/-- Only the `UPDATE` of a heartbeat that presents the key takes one of its uses. -/
theorem advance_uses (h : ∀ keyId record, p = .consume keyId record → (r.relayId, keyId) ≠ k)
    (hu : usesOf k s = some u) : usesOf k (advance env r gen p s).2 = some u := by
  refine advance_preserves (fun _ _ _ hs => hs)
    (fun pem => preserves_modify fun s hs => ?_)
    (fun pem uses keyId key => createRegistryApiKey_preserves (lasting_uses k u) _ _ _ _ _)
    (fun keyId record hp s hs => ?_)
    (fun purpose keyBytes createdAt _ s hs => ?_)
    (fun _ _ _ _ _ => preserves_modify fun s hs => hs) hu
  · rw [usesOf, setRelayPublicKey, Table.find_mapValues, Option.map_map]
    refine Eq.trans (congrArg (Option.map · _) (funext fun row => ?_)) hs
    show (if k.1 = r.relayId then { row with relayPublicKeyPem := some pem } else row).remainingUses = _
    split <;> rfl
  · have hne := h keyId record hp
    show usesOf k _ = some u
    rw [usesOf, decrementUses, spendUse, Table.find_mapValues, Option.map_map]
    refine Eq.trans (congrArg (Option.map · _) (funext fun row => ?_)) hs
    show (if k = (r.relayId, keyId) ∧ 0 < row.remainingUses then
      { row with remainingUses := row.remainingUses - 1 } else row).remainingUses = _
    rw [if_neg fun hk => hne hk.1.symm]
  · rw [insertBlockAuthKey]
    split <;> exact hs

/-- A use is taken while one is left. -/
theorem advance_consume (hu : usesOf (r.relayId, keyId) s = some u) (hpos : 0 < u) :
    (advance env r gen (.consume keyId record) s).1 = .selectUses keyId record ∧
    usesOf (r.relayId, keyId) (advance env r gen (.consume keyId record) s).2 = some (u - 1) := by
  obtain ⟨row, hrow, rfl⟩ := Option.map_eq_some_iff.mp hu
  have hdec : decrementUses r.relayId keyId s = (.ok 1, spendUse r.relayId keyId s) := by
    rw [decrementUses, hrow, Option.any_some, if_pos (by simp [hpos])]
  have hturn : advance env r gen (.consume keyId record) s =
      (.selectUses keyId record, spendUse r.relayId keyId s) := by
    rw [advance, hdec, goto_ok, if_neg (by decide)]
  rw [hturn]
  exact ⟨rfl, usesOf_spendUse hrow hpos⟩

/-- The count that is read is the one of the moment, not the one that this heartbeat left. -/
theorem advance_selectUses (hu : usesOf (r.relayId, keyId) s = some u) (hpos : 0 ≤ u) :
    advance env r gen (.selectUses keyId record) s =
      (.activeKey { record with remainingUses := u }, s) := by
  rw [usesOf] at hu
  rw [advance, selectRemainingUses, Py.read_run, hu, goto_ok, Option.getD_some, afterConsume,
    if_neg (Int.not_lt.mpr hpos)]

end turn

/-- Some use is taken or was. -/
def taken (p : Position) : Bool := between p || (accepted p).isSome

/-- No use was left when the heartbeat asked. This is what starts a rotation. -/
def startsRotation (p : Position) : Bool := (accepted p).any (·.remainingUses = 0)

abbrev Heartbeats (ι : Type) := Threads.Conf ι Db Position

variable {ι : Type} [DecidableEq ι] (env : Env) (request : ι → HeartbeatRequest)
  (gen : ι → Generated)

def turn : Heartbeats ι → ι → Heartbeats ι :=
  Threads.next fun i => advance env (request i) (gen i)

section moved

variable {env request gen} {c : Heartbeats ι} {i : ι}

theorem turn_pos (c : Heartbeats ι) (i j : ι) :
    (turn env request gen c i).pos j =
      if j = i then (turn env request gen c i).pos i else c.pos j := by
  by_cases hj : j = i
  · rw [if_pos hj, hj]
  · rw [if_neg hj, turn, Threads.next_pos_of_ne _ hj]

/-- What a turn does to its heartbeat it does to no other. -/
theorem forall_turn {P : ι → Position → Prop} (h : ∀ j, j ≠ i → P j (c.pos j))
    (hi : P i ((turn env request gen c i).pos i)) (j : ι) : P j ((turn env request gen c i).pos j) := by
  by_cases hj : j = i
  · subst hj
    exact hi
  · rw [turn_pos, if_neg hj]
    exact h j hj

end moved

variable [Fintype ι] (k : Str × Str)

def acceptedCount (c : Heartbeats ι) : Nat :=
  Threads.count (fun i p => decide (Presents k (request i)) && (accepted p).isSome) c

/-- At most `n` heartbeats are accepted, and at most one of them starts a rotation. -/
structure WithinUses (n : Nat) (c : Heartbeats ι) : Prop where
  accepted : acceptedCount request k c ≤ n
  rotation : ∀ i j, Presents k (request i) → Presents k (request j) →
    startsRotation (c.pos i) = true → startsRotation (c.pos j) = true → i = j

/-- The heartbeats that have verified the key and not run the `UPDATE`. -/
def pendingCount (c : Heartbeats ι) : Nat :=
  Threads.count (fun i p => decide (Presents k (request i)) && consuming p) c

/-- The key is verified with `u` uses left only while fewer than `u` others have verified it and not
run the `UPDATE`. The last use is taken only when no other heartbeat is between its two statements. -/
def Careful (c : Heartbeats ι) (i : ι) : Prop :=
  Presents k (request i) →
    (verifying (c.pos i) = true → ∀ u ∈ usesOf k c.store, 0 < u → (pendingCount request k c : Int) < u) ∧
    (consuming (c.pos i) = true → usesOf k c.store = some 1 →
      ∀ j, Presents k (request j) → between (c.pos j) = false)

instance (c : Heartbeats ι) (i : ι) : Decidable (Careful request k c i) :=
  inferInstanceAs (Decidable (_ → _))

section invariant

variable {env request gen k} {n u : Nat} {c : Heartbeats ι} {i : ι}

/-- The heartbeat has seen that no use is left, or it will if none is. -/
def finishing (p : Position) : Bool := between p || startsRotation p

/-- Every use is left or taken, and one is left for each heartbeat that has verified the key. While
some are left no heartbeat has seen the last one taken, and then a single one has or will. -/
structure Spent (request : ι → HeartbeatRequest) (k : Str × Str) (n u : Nat) (c : Heartbeats ι) :
    Prop where
  placed : ∀ i, WellPlaced (request i) (c.pos i)
  uses : usesOf k c.store = some (u : Int)
  count : Threads.count (fun i p => decide (Presents k (request i)) && taken p) c + u = n
  pending : pendingCount request k c ≤ u
  early : 0 < u → ∀ i, Presents k (request i) → startsRotation (c.pos i) = false
  single : u = 0 → ∀ i j, Presents k (request i) → Presents k (request j) →
    finishing (c.pos i) = true → finishing (c.pos j) = true → i = j

/-- A turn that takes no use. -/
theorem spent_same (h : Spent request k n u c)
    (hplaced : WellPlaced (request i) ((turn env request gen c i).pos i))
    (huses : usesOf k (turn env request gen c i).store = some (u : Int))
    (htaken : Presents k (request i) → taken ((turn env request gen c i).pos i) = taken (c.pos i))
    (hpending : pendingCount request k (turn env request gen c i) ≤ u)
    (hfinish : Presents k (request i) → finishing ((turn env request gen c i).pos i) = true →
      finishing (c.pos i) = true)
    (hstarts : Presents k (request i) → 0 < u → startsRotation (c.pos i) = false →
      startsRotation ((turn env request gen c i).pos i) = false) :
    Spent request k n u (turn env request gen c i) where
  placed := forall_turn (P := fun j p => WellPlaced (request j) p) (fun j _ => h.placed j) hplaced
  uses := huses
  count := by
    have hsame : (decide (Presents k (request i)) && taken ((turn env request gen c i).pos i)) =
        (decide (Presents k (request i)) && taken (c.pos i)) := by
      by_cases hk : Presents k (request i)
      · rw [htaken hk]
      · simp [hk]
    rw [turn, Threads.next_pos_self] at hsame
    rw [← h.count]
    exact congrArg (· + u) (Threads.count_next_same hsame)
  pending := hpending
  early hu := by
    refine forall_turn (P := fun j p => Presents k (request j) → startsRotation p = false)
      (fun j _ => h.early hu j) fun hk => ?_
    exact hstarts hk hu (h.early hu i hk)
  single hu i' j' hi' hj' hfi hfj := by
    have hbefore : ∀ j, Presents k (request j) →
        finishing ((turn env request gen c i).pos j) = true → finishing (c.pos j) = true :=
      forall_turn
        (P := fun j p => Presents k (request j) → finishing p = true → finishing (c.pos j) = true)
        (fun _ _ _ hf => hf) hfinish
    exact h.single hu i' j' hi' hj' (hbefore i' hi' hfi) (hbefore j' hj' hfj)

theorem pending_le (h : Presents k (request i) →
    consuming ((turn env request gen c i).pos i) = true → consuming (c.pos i) = true) :
    pendingCount request k (turn env request gen c i) ≤ pendingCount request k c := by
  apply Threads.count_next_le
  intro hafter
  rw [turn, Threads.next_pos_self] at h
  rw [Bool.and_eq_true, decide_eq_true_eq] at hafter ⊢
  exact ⟨hafter.1, h hafter.1 hafter.2⟩

omit [DecidableEq ι] in
theorem key_of_presents {keyId : Str} (h : Spent request k n u c) (hk : Presents k (request i))
    (hworks : worksOn (c.pos i) = some keyId) : ((request i).relayId, keyId) = k :=
  Prod.ext hk.1 (Option.some.inj ((h.placed i keyId hworks).symm.trans hk.2))

/-- The turn that verifies the key. -/
theorem spent_verify {keyId key : Str} (h : Spent request k n u c)
    (hpos : c.pos i = .verify keyId key) (hk : Presents k (request i))
    (hcareful : Careful request k c i) : Spent request k n u (turn env request gen c i) := by
  have hkey := key_of_presents h hk (by rw [hpos]; rfl)
  have hplaced : WellPlaced (request i) ((turn env request gen c i).pos i) := by
    rw [turn, Threads.next_pos_self]
    exact advance_placed (h.placed i) c.store
  have huses : usesOf k (turn env request gen c i).store = some (u : Int) :=
    advance_uses (fun _ _ hother => by rw [hpos] at hother; cases hother) h.uses
  have hafter : (turn env request gen c i).pos i =
      (advance env (request i) (gen i) (.verify keyId key) c.store).1 := by
    rw [turn, Threads.next_pos_self, hpos]
  rcases @advance_verify env (request i) (gen i) keyId key c.store with
    ⟨e, hfail⟩ | ⟨record, left, hverified, hleft, hpositive⟩
  · rw [hfail] at hafter
    refine spent_same h hplaced huses (fun _ => ?_) ?_ (fun _ => ?_) (fun _ _ _ => ?_)
    · rw [hafter, hpos]
      rfl
    · refine (pending_le fun _ => ?_).trans h.pending
      rw [hafter]
      exact fun hfalse => by cases hfalse
    · rw [hafter]
      exact fun hfalse => by cases hfalse
    · rw [hafter]
      rfl
  · rw [hverified] at hafter
    rw [hkey] at hleft
    have hfew := (hcareful hk).1 (by rw [hpos]; rfl) left hleft hpositive
    rw [h.uses] at hleft
    obtain rfl := Option.some.inj hleft
    have hmore : pendingCount request k (turn env request gen c i) = pendingCount request k c + 1 := by
      apply Threads.count_next_more
      · rw [hpos]
        simp [consuming]
      · rw [turn, Threads.next_pos_self] at hafter
        rw [hafter]
        simp [hk, consuming]
    refine spent_same h hplaced huses (fun _ => ?_) (by omega) (fun _ => ?_) (fun _ _ _ => ?_)
    · rw [hafter, hpos]
      rfl
    · rw [hafter]
      exact fun hfalse => by cases hfalse
    · rw [hafter]
      rfl

/-- The turn that takes a use of the key. One is left for this heartbeat. -/
theorem spent_consume {keyId : Str} {record : RegistryApiKeyRecord} (h : Spent request k n u c)
    (hpos : c.pos i = .consume keyId record) (hk : Presents k (request i))
    (hcareful : Careful request k c i) :
    ∃ v, Spent request k n v (turn env request gen c i) := by
  have hkey := key_of_presents h hk (by rw [hpos]; rfl)
  have hone := (hcareful hk).2 (by rw [hpos]; rfl)
  rw [h.uses] at hone
  have hpresent : 0 < pendingCount request k c :=
    Threads.count_pos (i := i) (by rw [hpos]; simp [hk, consuming])
  obtain ⟨v, rfl⟩ : ∃ v, u = v + 1 := Nat.exists_eq_add_of_lt (hpresent.trans_le h.pending) |>.imp
    fun v hv => by omega
  have huses : usesOf ((request i).relayId, keyId) c.store = some ((v + 1 : Nat) : Int) := by
    rw [hkey, h.uses]
  have hadvance : (advance env (request i) (gen i) (.consume keyId record) c.store).1 =
        .selectUses keyId record ∧
      usesOf ((request i).relayId, keyId)
        (advance env (request i) (gen i) (.consume keyId record) c.store).2 = some (v + 1 - 1 : Int) :=
    advance_consume huses (by omega)
  obtain ⟨hafter, hleft⟩ := hadvance
  have hafter' : (turn env request gen c i).pos i = .selectUses keyId record := by
    rw [turn, Threads.next_pos_self, hpos, hafter]
  refine ⟨v, ?_, ?_, ?_, ?_, fun hv => ?_, fun hv => ?_⟩
  · refine forall_turn (P := fun j p => WellPlaced (request j) p) (fun j _ => h.placed j) ?_
    rw [hafter']
    intro other hother
    cases hother
    exact h.placed i keyId (by rw [hpos]; rfl)
  · rw [turn, Threads.next_store, hpos, ← hkey, hleft]
    simp
  · have hmore : Threads.count (fun i p => decide (Presents k (request i)) && taken p)
        (turn env request gen c i) =
        Threads.count (fun i p => decide (Presents k (request i)) && taken p) c + 1 := by
      apply Threads.count_next_more
      · rw [hpos]
        simp [taken, between, accepted]
      · rw [hpos, hafter]
        simp [hk, taken, between]
    have hcount := h.count
    omega
  · have hless : pendingCount request k (turn env request gen c i) + 1 = pendingCount request k c := by
      apply Threads.count_next_less
      · rw [hpos]
        simp [hk, consuming]
      · rw [hpos, hafter]
        simp [consuming]
    have hpending := h.pending
    omega
  · refine forall_turn (P := fun j p => Presents k (request j) → startsRotation p = false)
      (fun j _ => h.early (by omega) j) fun _ => ?_
    rw [hafter']
    rfl
  · -- The last use: no other heartbeat is between its statements, and none has seen the end.
    have honly : ∀ j, Presents k (request j) →
        finishing ((turn env request gen c i).pos j) = true → j = i := by
      refine forall_turn (P := fun j p => Presents k (request j) → finishing p = true → j = i)
        (fun j hj hpres hfin => ?_) fun _ _ => rfl
      rw [finishing, hone (by rw [hv]; rfl) j hpres, h.early (by omega) j hpres] at hfin
      cases hfin
    intro i' j' hi' hj' hfi hfj
    rw [honly i' hi' hfi, honly j' hj' hfj]

/-- The turn that reads how many uses are left. -/
theorem spent_selectUses {keyId : Str} {record : RegistryApiKeyRecord} (h : Spent request k n u c)
    (hpos : c.pos i = .selectUses keyId record) (hk : Presents k (request i)) :
    Spent request k n u (turn env request gen c i) := by
  have hkey := key_of_presents h hk (by rw [hpos]; rfl)
  have huses : usesOf ((request i).relayId, keyId) c.store = some (u : Int) := by rw [hkey, h.uses]
  have hread : turn env request gen c i =
      { store := c.store, pos := Function.update c.pos i (.activeKey { record with remainingUses := u }) } := by
    rw [turn, Threads.next, hpos, advance_selectUses huses (by omega)]
  have hafter : (turn env request gen c i).pos i = .activeKey { record with remainingUses := u } := by
    rw [hread]
    exact Function.update_self ..
  refine spent_same h ?_ ?_ (fun _ => ?_) ?_ (fun _ _ => ?_) fun _ hu _ => ?_
  · rw [hafter]
    exact fun _ hother => by cases hother
  · rw [hread]
    exact h.uses
  · rw [hafter, hpos]
    rfl
  · refine (pending_le fun _ => ?_).trans h.pending
    rw [hafter]
    exact fun hfalse => by cases hfalse
  · rw [hpos]
    rfl
  · rw [hafter]
    simp [startsRotation, accepted]
    omega

/-- A turn of a heartbeat that presents the key, away from the statements on a verified key. -/
theorem spent_quiet (h : Spent request k n u c) (hverify : verifying (c.pos i) = false)
    (hconsume : consuming (c.pos i) = false) (hselect : between (c.pos i) = false) :
    Spent request k n u (turn env request gen c i) := by
  have hquiet : Quiet (request i) (accepted (c.pos i)) ((turn env request gen c i).pos i) := by
    rw [turn, Threads.next_pos_self]
    exact advance_quiet hverify hconsume hselect (h.placed i) c.store
  have hstarts : startsRotation ((turn env request gen c i).pos i) = startsRotation (c.pos i) := by
    rw [startsRotation, hquiet.accepted, startsRotation]
  refine spent_same h hquiet.wellPlaced (advance_uses (fun keyId record hpos => ?_) h.uses) (fun _ => ?_)
    ?_ (fun _ => ?_) fun _ _ => ?_
  · rw [hpos] at hconsume
    cases hconsume
  · rw [taken, taken, hquiet.accepted, hquiet.notBetween, hselect]
  · refine (pending_le fun _ => ?_).trans h.pending
    rw [hquiet.notConsuming]
    exact fun hfalse => by cases hfalse
  · rw [finishing, finishing, hstarts, hquiet.notBetween, hselect]
    exact id
  · rw [hstarts]
    exact id

/-- A turn of a heartbeat with another key. -/
theorem spent_foreign (h : Spent request k n u c) (hk : ¬ Presents k (request i)) :
    Spent request k n u (turn env request gen c i) := by
  have hplaced : WellPlaced (request i) ((turn env request gen c i).pos i) := by
    rw [turn, Threads.next_pos_self]
    exact advance_placed (h.placed i) c.store
  refine spent_same h hplaced (advance_uses (fun keyId record hpos hkey => hk ?_) h.uses) (absurd · hk)
    ((pending_le (absurd · hk)).trans h.pending) (absurd · hk) (absurd · hk)
  subst hkey
  exact ⟨rfl, h.placed i keyId (by rw [hpos]; rfl)⟩

theorem spent_turn (h : Spent request k n u c) (hcareful : Careful request k c i) :
    ∃ v, Spent request k n v (turn env request gen c i) := by
  by_cases hk : Presents k (request i)
  · cases hpos : c.pos i with
    | verify keyId key => exact ⟨u, spent_verify h hpos hk hcareful⟩
    | consume keyId record => exact spent_consume h hpos hk hcareful
    | selectUses keyId record => exact ⟨u, spent_selectUses h hpos hk⟩
    | _ => exact ⟨u, spent_quiet h (by rw [hpos]; rfl) (by rw [hpos]; rfl) (by rw [hpos]; rfl)⟩
  · exact ⟨u, spent_foreign h hk⟩

omit [DecidableEq ι] in
/-- A predicate that no heartbeat meets at its start counts none. -/
theorem count_start {P : ι → Position → Bool} (hstart : ∀ i, c.pos i = .start)
    (hnone : ∀ i, P i .start = false) : Threads.count P c = 0 := by
  rw [Threads.count, Finset.card_eq_zero, Finset.filter_eq_empty_iff]
  intro i _
  rw [hstart i, hnone i]
  exact Bool.false_ne_true

omit [DecidableEq ι] in
theorem spent_start (huses : usesOf k c.store = some (n : Int)) (hstart : ∀ i, c.pos i = .start) :
    Spent request k n n c where
  placed i := by
    rw [hstart i]
    exact fun _ hother => by cases hother
  uses := huses
  count := by
    rw [count_start hstart fun i => by simp [taken, between, accepted], Nat.zero_add]
  pending := by
    rw [pendingCount, count_start hstart fun i => by simp [consuming]]
    exact Nat.zero_le n
  early _ i _ := by
    rw [hstart i]
    rfl
  single _ i j _ _ hi := by
    rw [hstart i] at hi
    cases hi

omit [DecidableEq ι] in
theorem Spent.withinUses (h : Spent request k n u c) : WithinUses request k n c where
  accepted := by
    have hle : acceptedCount request k c ≤
        Threads.count (fun i p => decide (Presents k (request i)) && taken p) c := by
      refine Finset.card_le_card fun i hi => ?_
      simp only [Finset.mem_filter, Bool.and_eq_true] at hi ⊢
      exact ⟨hi.1, hi.2.1, by rw [taken, hi.2.2, Bool.or_true]⟩
    have hcount := h.count
    omega
  rotation i j hi hj hsi hsj := by
    have hfinishing : ∀ p, startsRotation p = true → finishing p = true := by
      intro p hp
      rw [finishing, hp, Bool.or_true]
    rcases Nat.eq_zero_or_pos u with hu | hu
    · exact h.single hu i j hi hj (hfinishing _ hsi) (hfinishing _ hsj)
    · rw [h.early hu i hi] at hsi
      cases hsi

end invariant

/-- A heartbeat verifies the key only while no other is between its verification and its `SELECT`. -/
def OneAtATime (c : Heartbeats ι) (i : ι) : Prop :=
  Presents k (request i) → verifying (c.pos i) = true →
    ∀ j, Presents k (request j) → (consuming (c.pos j) || between (c.pos j)) = false

section alone

variable {env request gen k} {c : Heartbeats ι} {i : ι}

/-- One heartbeat at most is between its verification and its `SELECT`. -/
structure Alone (request : ι → HeartbeatRequest) (k : Str × Str) (c : Heartbeats ι) : Prop where
  placed : ∀ i, WellPlaced (request i) (c.pos i)
  single : ∀ i j, Presents k (request i) → Presents k (request j) →
    (consuming (c.pos i) || between (c.pos i)) = true →
    (consuming (c.pos j) || between (c.pos j)) = true → i = j

omit [Fintype ι] in
theorem alone_turn (h : Alone request k c) (halone : OneAtATime request k c i) :
    Alone request k (turn env request gen c i) where
  placed := by
    refine forall_turn (P := fun j p => WellPlaced (request j) p) (fun j _ => h.placed j) ?_
    rw [turn, Threads.next_pos_self]
    exact advance_placed (h.placed i) c.store
  single := by
    -- Whoever is there after the turn was there before or has just verified the key, alone.
    have hbefore : ∀ j, Presents k (request j) →
        (consuming ((turn env request gen c i).pos j) || between ((turn env request gen c i).pos j)) = true →
        (consuming (c.pos j) || between (c.pos j)) = true ∨ (j = i ∧ verifying (c.pos i) = true) := by
      refine forall_turn (P := fun j p => Presents k (request j) → (consuming p || between p) = true →
        (consuming (c.pos j) || between (c.pos j)) = true ∨ (j = i ∧ verifying (c.pos i) = true))
        (fun _ _ _ hj => .inl hj) fun _ hi => ?_
      by_cases hverify : verifying (c.pos i) = true
      · exact .inr ⟨rfl, hverify⟩
      · left
        by_contra hneither
        simp only [Bool.or_eq_true, not_or, Bool.not_eq_true] at hneither hverify
        have hquiet := @advance_quiet env (request i) (gen i) (c.pos i) hverify hneither.1 hneither.2
          (h.placed i) c.store
        rw [turn, Threads.next_pos_self, hquiet.notConsuming, hquiet.notBetween] at hi
        cases hi
    intro j j' hj hj' hcj hcj'
    rcases hbefore j hj hcj with hthere | ⟨rfl, hverify⟩ <;>
      rcases hbefore j' hj' hcj' with hthere' | ⟨rfl, hverify'⟩
    · exact h.single j j' hj hj' hthere hthere'
    · rw [halone hj' hverify' j hj] at hthere
      cases hthere
    · rw [halone hj hverify j' hj'] at hthere'
      cases hthere'
    · rfl

omit [DecidableEq ι] in
theorem Alone.careful (h : Alone request k c) (halone : OneAtATime request k c i) :
    Careful request k c i := by
  intro hk
  refine ⟨fun hverify u _ hu => ?_, fun hconsume _ j hj => ?_⟩
  · have hnone : pendingCount request k c = 0 := by
      rw [pendingCount, Threads.count, Finset.card_eq_zero, Finset.filter_eq_empty_iff]
      intro j _ hpending
      rw [Bool.and_eq_true, decide_eq_true_eq] at hpending
      have hapart := halone hk hverify j hpending.1
      rw [hpending.2] at hapart
      cases hapart
    rw [hnone]
    exact hu
  · by_contra hbetween
    rw [Bool.not_eq_false] at hbetween
    obtain rfl := h.single i j hk hj (by rw [hconsume]; rfl) (by rw [hbetween, Bool.or_true])
    cases hpos : c.pos i with
    | consume keyId record =>
      rw [hpos] at hbetween
      cases hbetween
    | _ =>
      rw [hpos] at hconsume
      cases hconsume

/-- Heartbeats that authenticate one after the other take the uses with care, whatever is left. -/
theorem careful_of_oneAtATime {schedule : List ι} (hstart : ∀ i, c.pos i = .start)
    (halone : Along (turn env request gen) (OneAtATime request k) c schedule) :
    Along (turn env request gen) (Careful request k) c schedule := by
  have halone₀ : Alone request k c := by
    refine ⟨fun i => ?_, fun i j _ _ hi => ?_⟩
    · rw [hstart i]
      exact fun _ hother => by cases hother
    · rw [hstart i] at hi
      cases hi
  have hstep : ∀ c i, Alone request k c → OneAtATime request k c i →
      Alone request k (turn env request gen c i) ∧ Careful request k c i :=
    fun c i h hi => ⟨alone_turn h hi, h.careful hi⟩
  exact along_of_invariant hstep halone₀ halone

end alone

variable {k}

/-- Along a run with such overlaps at most, a key of `n` uses is accepted at most `n` times and rotated
at most once. -/
theorem uses_bounded {n : Nat} {c : Heartbeats ι} {schedule : List ι}
    (huses : usesOf k c.store = some (n : Int)) (hstart : ∀ i, c.pos i = .start)
    (hcareful : Along (turn env request gen) (Careful request k) c schedule) :
    WithinUses request k n (exec (turn env request gen) c schedule) := by
  have hstep (c : Heartbeats ι) (i : ι) (h : ∃ u, Spent request k n u c)
      (hi : Careful request k c i) : ∃ u, Spent request k n u (turn env request gen c i) := by
    obtain ⟨u, h⟩ := h
    exact spent_turn h hi
  obtain ⟨u, h⟩ := exec_invariant hstep ⟨n, spent_start huses hstart⟩ hcareful
  exact h.withinUses

def lastKey : Str × Str := (sampleRelay, ascii "key-1")

/-- A relay whose key has one use left. -/
def lastUseDb : Db :=
  { sampleDb with registryKeys := ⟨[(lastKey,
      ⟨hashRegistryApiKey PlainCrypto.plain (ascii "secret"), 1, some (ascii "PEM A"), 0⟩)], by decide⟩ }

def lastUseRequest : HeartbeatRequest :=
  { relayId := sampleRelay, relayBaseUrl := sampleUrl, report := sampleReport,
    registryApiKeyId := some (ascii "key-1"), registryApiKey := some (ascii "secret"),
    relayPublicKeyPem := some (ascii "PEM A") }

def secondGenerated : Generated :=
  { keyId := ascii "key-3", key := ascii "secret-3", authKeyId := ascii "auth-4",
    nextAuthKeyId := ascii "auth-5" }

def twoHeartbeats (first : Bool) : Generated := if first then sampleGenerated else secondGenerated

def twoStart : Heartbeats Bool := { store := lastUseDb, pos := fun _ => .start }

def inTurns : Heartbeats Bool :=
  exec (turn sampleEnv (fun _ => lastUseRequest) twoHeartbeats) twoStart
    (List.replicate 12 [true, false]).flatten

/-- The same relay with a key of two uses. -/
def twoUsesStart : Heartbeats Bool :=
  { store := { lastUseDb with registryKeys := lastUseDb.registryKeys.mapValues fun _ row =>
      { row with remainingUses := 2 } }
    pos := fun _ => .start }

/-- Both heartbeats verify the key before either takes a use. -/
def overlapping : List Bool :=
  (List.replicate 5 [true, false]).flatten ++ List.replicate 7 true ++ List.replicate 7 false

theorem uses_bounded_two :
    usesOf lastKey twoUsesStart.store = some ((2 : Nat) : Int) ∧
    WithinUses (fun _ => lastUseRequest) lastKey 2
      (exec (turn sampleEnv (fun _ => lastUseRequest) twoHeartbeats) twoUsesStart overlapping) ∧
    acceptedCount (fun _ => lastUseRequest) lastKey
      (exec (turn sampleEnv (fun _ => lastUseRequest) twoHeartbeats) twoUsesStart overlapping) = 2 ∧
    pendingCount (fun _ => lastUseRequest) lastKey
      (exec (turn sampleEnv (fun _ => lastUseRequest) twoHeartbeats) twoUsesStart
        (overlapping.take 10)) = 2 :=
  ⟨by decide +kernel, uses_bounded sampleEnv (fun _ => lastUseRequest) twoHeartbeats
    (by decide +kernel) (fun _ => rfl) (by decide +kernel), by decide +kernel, by decide +kernel⟩

/-- Both heartbeats have verified the key before either takes its use: both are accepted, and both
rotate the keys. -/
theorem last_use_taken_twice :
    usesOf lastKey twoStart.store = some 1 ∧
    acceptedCount (fun _ => lastUseRequest) lastKey inTurns = 2 ∧
    (∀ i, (inTurns.pos i).outcome.any fun outcome =>
      outcome.toOption.any (·.nextRegistryApiKey.isSome)) ∧
    ¬ WithinUses (fun _ => lastUseRequest) lastKey 1 inTurns := by
  have htwice : acceptedCount (fun _ => lastUseRequest) lastKey inTurns = 2 := by decide +kernel
  refine ⟨by decide +kernel, htwice, by decide +kernel, fun h => ?_⟩
  have hle := h.accepted
  rw [htwice] at hle
  exact absurd hle (by decide)

end TwelveC.Registry.ApiKeyUses
