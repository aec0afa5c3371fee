import TwelveC.Registry.PlacementInvariant
import TwelveC.Registry.ReserveTurns
import TwelveC.Lib.Threads

/-!
# A token has one holder

Reserves that take turns check their tokens first and write them later. While no
other reserve writes a token in between, and no old primary of it expires there,
a token that is held by one reserve is not written by another.
-/

namespace TwelveC.Registry.ReserveExclusive

open Lib Lib.Run Relay.BlockAuth Scheduling RegistryRepository PyTurns ReserveTurns

inductive Event (ι : Type) where
  | turn (i : ι)
  | tick (elapsed : Nat)
  deriving DecidableEq, Repr

abbrev Reserves (ι : Type) := Threads.Conf ι Db Position

/-- What a reserve has written, whether it has returned or not. -/
def written : Position → Option Written
  | .relist w => some w
  | .lookBack w _ _ _ => some w
  | .done w _ => w
  | _ => none

/-- What a reserve that returned its routes has written. -/
def succeeded : Position → Option Written
  | .done w (.ok (.ok _)) => w
  | _ => none

def commits : Position → Bool
  | .commit _ => true
  | _ => false

/-- The reserve has found the token free, and has not written it yet. -/
def awaits (entries : List (Str × Str)) (token : Str) : Position → Bool
  | .check remaining occupied =>
    occupied = [] ∧ token ∈ entries.map Prod.fst ∧ token ∉ remaining.map Prod.fst
  | .list => token ∈ entries.map Prod.fst
  | .commit _ => token ∈ entries.map Prod.fst
  | _ => false

section system

variable {ι : Type} [DecidableEq ι] (env : Env) (entries : ι → List (Str × Str))
  (ttlSeconds : ι → Option Int)

def next (c : Reserves ι) : Event ι → Reserves ι
  | .turn i => Threads.next (fun i => advance env (entries i) (ttlSeconds i)) c i
  | .tick elapsed => { c with store := tickBy elapsed c.store }

def start (s : Db) : Reserves ι := { store := s, pos := fun _ => .start }

/-- A reserve of the token that succeeded, and whose grant has not run out. -/
def Reserved (c : Reserves ι) (i : ι) (token : Str) (w : Written) : Prop :=
  succeeded (c.pos i) = some w ∧ token ∈ (entries i).map Prod.fst ∧ c.store.now < w.expiryAt

/-- A token has been reserved by one request at most, whose primary is the stored one. -/
structure Exclusive (c : Reserves ι) : Prop where
  single : ∀ token i j w w', Reserved entries c i token w → Reserved entries c j token w' → i = j
  stored : ∀ token i w, Reserved entries c i token w →
    ∃ p ∈ w.resolution.placements, p.token = token ∧ p.role = .primary ∧
      (token, p.blockHash) ∈ entries i ∧
      ∃ row, primaryPlacement c.store token = some (p.relayId, row) ∧ row.blockHash = p.blockHash

/-- A token is written only when no other reserve still holds it. -/
def CommitsAlone (c : Reserves ι) : Event ι → Prop
  | .turn i => commits (c.pos i) = true → ∀ j, j ≠ i → ∀ w, written (c.pos j) = some w →
      ∀ token ∈ (entries i).map Prod.fst, token ∈ (entries j).map Prod.fst → w.expiryAt ≤ c.store.now
  | .tick _ => True

/-- When a reserve writes its tokens, no other has found one of them free and still to write it, and
none of their old primaries has outlived its expiry in the table. -/
def Undisturbed (c : Reserves ι) : Event ι → Prop
  | .turn i => commits (c.pos i) = true →
      (∀ j, j ≠ i → ∀ e ∈ entries i, awaits (entries j) e.1 (c.pos j) = false) ∧
      ∀ e ∈ entries i, ∀ row ∈ c.store.placements.entries, row.1.1 = e.1 → row.2.role = .primary →
        c.store.now < row.2.expiryAt
  | .tick _ => True

instance [Fintype ι] (c : Reserves ι) : ∀ e, Decidable (Undisturbed entries c e)
  | .turn _ => inferInstanceAs (Decidable (_ → _))
  | .tick _ => .isTrue trivial

end system

/-- No token has two primaries, expired ones included. -/
def OnePrimary (s : Db) : Prop :=
  ∀ token relayId other row row', s.placements.find (token, relayId) = some row →
    s.placements.find (token, other) = some row' → row.role = .primary → row'.role = .primary →
      relayId = other

/-- No placement of the token is a primary. -/
def NoPrimary (s : Db) (token : Str) : Prop :=
  ∀ relayId row, s.placements.find (token, relayId) = some row → row.role ≠ .primary

section onePrimary

variable {s s' : Db} {entries : List (Str × Str)} {healthy : List HealthyRelay}
  {choice : StripeReplicaChoice} {planned : List PlannedPlacement}
  {maxReplicasPerBlock expiryAt updatedAt : Int} {token : Str}

theorem OnePrimary.shrink (h : OnePrimary s)
    (hsub : ∀ key row, s'.placements.find key = some row → s.placements.find key = some row) :
    OnePrimary s' := fun token relayId other row row' hrow hrow' =>
  h token relayId other row row' (hsub _ _ hrow) (hsub _ _ hrow')

/-- The primary that is found first is the only one. -/
theorem OnePrimary.primaryPlacement_eq (h : OnePrimary s) {relayId : Str} {row : PlacementRow}
    (hfind : s.placements.find (token, relayId) = some row) (hrole : row.role = .primary) :
    primaryPlacement s token = some (relayId,
      { row with registeredRelayBaseUrl := rstripSlash row.registeredRelayBaseUrl }) := by
  have hsome : (primaryPlacement s token).isSome := by
    rw [primaryPlacement, List.find?_isSome]
    exact ⟨_, mem_tokenPlacements.mpr ⟨row, hfind, rfl⟩, by simpa using hrole⟩
  obtain ⟨⟨other, found⟩, hfound⟩ := Option.isSome_iff_exists.mp hsome
  obtain ⟨stored, hstored, rfl⟩ := mem_tokenPlacements.mp (List.mem_of_find?_eq_some hfound)
  have hprimary : stored.role = .primary := by simpa using List.find?_some hfound
  have hsame := h token relayId other row stored hfind hstored hrole hprimary
  subst hsame
  rw [hfind] at hstored
  cases hstored
  exact hfound

/-- A token that is checked and not occupied has no live primary. -/
theorem OnePrimary.expired_of_not_occupied (h : OnePrimary s) (hfree : occupiedToken s token = none)
    {relayId : Str} {row : PlacementRow} (hfind : s.placements.find (token, relayId) = some row)
    (hrole : row.role = .primary) : row.expiryAt ≤ s.now := by
  rw [occupiedToken, h.primaryPlacement_eq hfind hrole] at hfree
  dsimp only at hfree
  split at hfree
  · assumption
  · cases hfree

/-- A plan is written over tokens that have no primary. -/
theorem OnePrimary.writeRows (h : OnePrimary s)
    (hplan : CorrectPlan entries healthy maxReplicasPerBlock (choice, planned))
    (hfree : ∀ e ∈ entries, NoPrimary s e.1) : OnePrimary (writeRows planned expiryAt updatedAt s) := by
  intro token relayId other row row' hrow hrow' hrole hrole'
  by_cases hother : ∀ p ∈ planned, p.token ≠ token
  · rw [find_writeRows_other hother] at hrow hrow'
    exact h token relayId other row row' hrow hrow' hrole hrole'
  · simp only [not_forall, not_not] at hother
    obtain ⟨p, hp, rfl⟩ := hother
    have hentry := PlacementInvariant.planned_entry hplan hp
    have hplanned : ∀ relayId row, (RegistryRepository.writeRows planned expiryAt updatedAt
        s).placements.find (p.token, relayId) = some row → row.role = .primary →
          ∃ q ∈ planned, q.token = p.token ∧ q.relayId = relayId ∧ q.role = .primary := by
      intro relayId row hrow hrole
      rcases find_writeRows hrow with ⟨q, hq, htoken, hrelay, rfl⟩ | hold
      · exact ⟨q, hq, htoken, hrelay, hrole⟩
      · exact absurd hrole (hfree _ hentry relayId row hold)
    obtain ⟨first, -, -, -, hunique⟩ := PlacementInvariant.exists_primary hplan hentry
    obtain ⟨q, hq, htoken, rfl, hqrole⟩ := hplanned relayId row hrow hrole
    obtain ⟨q', hq', htoken', rfl, hqrole'⟩ := hplanned other row' hrow' hrole'
    rw [hunique q hq htoken hqrole, hunique q' hq' htoken' hqrole']

theorem onePrimary_lock (h : OnePrimary s) (env : Env) (entries : List (Str × Str))
    (ttlSeconds : Option Int) :
    OnePrimary (lockTokensWithBlockHashes env entries ttlSeconds s).2 := by
  have hpurged : OnePrimary (purgeExpired s) := h.shrink fun key row hrow => by
    rw [purgeExpired, Table.find_filter, Option.filter_eq_some_iff] at hrow
    exact hrow.1
  rcases lock_state env entries ttlSeconds s with
    hstate | ⟨resolution, hne, hdup, hfree, hplan, hstate⟩
  · rw [hstate]
    exact hpurged
  · obtain ⟨pool, choice, hcorrect⟩ :=
      resolve_correct hne (checkDuplicates_ok hdup).1 (healthyRelays_nodup env s) hplan
    rw [hstate, upsertPlacements_eq]
    refine hpurged.writeRows hcorrect fun e he relayId row hrow hrole => ?_
    have hexpired := hpurged.expired_of_not_occupied (hfree e he) hrow hrole
    rw [purgeExpired, Table.find_filter, Option.filter_eq_some_iff, decide_eq_true_iff] at hrow
    exact hrow.2 hexpired

theorem onePrimary_of_preserves {α : Type} {x : Py Db α} (h : OnePrimary s)
    (hx : Py.Preserves (PlacementInvariant.SamePlacements s) x) : OnePrimary (x s).2 := by
  obtain ⟨hplacements, -⟩ := hx s ⟨rfl, rfl⟩
  apply h.shrink
  intro key row hrow
  rwa [hplacements] at hrow

theorem onePrimary_perform (env : Env) (s : Db) (op : Operation) (h : OnePrimary s) :
    OnePrimary (perform env s op) := by
  cases op with
  | heartbeat r gen => exact onePrimary_of_preserves h (PlacementInvariant.heartbeat_preserves r)
  | register r => exact onePrimary_of_preserves h (PlacementInvariant.register_preserves r)
  | verifyOverwrite r =>
    exact onePrimary_of_preserves h (PlacementInvariant.verifyOverwrite_preserves r)
  | addAllowlist relayId relayBaseUrl =>
    exact onePrimary_of_preserves h (PlacementInvariant.addAllowlistEntry_preserves _ _)
  | changeAllowlist relayId relayBaseUrl enabled =>
    exact onePrimary_of_preserves h (PlacementInvariant.changeAllowlistEntry_preserves _ _ _)
  | reserve blocks ttlSeconds =>
    rcases reserve_state env blocks ttlSeconds s with hstate | ⟨entries, -, hstate⟩
    · rw [perform, hstate]
      exact h
    · rw [perform, hstate]
      exact onePrimary_lock h env entries ttlSeconds
  | abandon failures =>
    rcases abandonReplicas_cases failures s with ⟨e, hrun⟩ | ⟨normalized, removed, -, hrun⟩
    · rw [perform, hrun]
      exact h
    · rw [perform, hrun]
      exact h.shrink fun key row hrow => (find_abandonRows.mp hrow).1
  | purge =>
    apply h.shrink
    intro key row hrow
    rw [perform, purgeExpired, Table.find_filter, Option.filter_eq_some_iff] at hrow
    exact hrow.1
  | removeAllowlist relayId =>
    rcases PlacementInvariant.removeAllowlistEntry_cases relayId s with
      ⟨hstate, -⟩ | ⟨normalized, -, -, hstate⟩
    · rw [perform, hstate]
      exact h
    · apply h.shrink
      intro key row hrow
      rw [perform, hstate, deleteRelayRows] at hrow
      simp only [Table.find_filter, Option.filter_eq_some_iff] at hrow
      exact hrow.1
  | tick elapsed => exact h

/-- No operation gives a token a second primary. -/
theorem onePrimary_exec (env : Env) (now : Int) (ops : List Operation) :
    OnePrimary (exec (perform env) (PlacementInvariant.emptyDb now) ops) := by
  have hempty : OnePrimary (PlacementInvariant.emptyDb now) := by
    intro token relayId other row row' hrow
    cases hrow
  exact exec_invariant (P := fun _ _ => True) (fun s op h _ => onePrimary_perform env s op h) hempty
    (along_of_forall (fun _ _ => trivial) _ _)

end onePrimary

/-- The plan of a reserve of distinct tokens. -/
def PlannedFor (entries : List (Str × Str)) (resolution : PlacementResolution) : Prop :=
  ∃ healthy choice maxReplicasPerBlock,
    CorrectPlan entries healthy maxReplicasPerBlock (choice, resolution.placements)

/-- The reserve is past its purge, and has tokens that are all distinct. -/
def Admitted (entries : List (Str × Str)) : Position → Prop
  | .check _ _ => entries ≠ [] ∧ (entries.map Prod.fst).Nodup
  | .list => entries ≠ [] ∧ (entries.map Prod.fst).Nodup
  | .commit w => PlannedFor entries w.resolution
  | _ => True

section invariant

variable {ι : Type} {env : Env} {entries : ι → List (Str × Str)} {ttlSeconds : ι → Option Int}
  {c : Reserves ι} {i : ι}

structure Held (entries : List (Str × Str)) (w : Written) (s : Db) : Prop where
  planned : PlannedFor entries w.resolution
  stored : s.now < w.expiryAt → ∀ p ∈ w.resolution.placements, p.role = .primary →
    s.placements.find (p.token, p.relayId) = some (plannedRow p w.expiryAt w.updatedAt)

/-- Each of its tokens has its primary in the table. -/
theorem Held.primary {entries : List (Str × Str)} {w : Written} {s : Db} (h : Held entries w s)
    (hexpiry : s.now < w.expiryAt) {token : Str} (htoken : token ∈ entries.map Prod.fst) :
    ∃ p ∈ w.resolution.placements, p.token = token ∧ p.role = .primary ∧
      (token, p.blockHash) ∈ entries ∧
      s.placements.find (token, p.relayId) = some (plannedRow p w.expiryAt w.updatedAt) := by
  obtain ⟨healthy, choice, maxReplicasPerBlock, hplan⟩ := h.planned
  obtain ⟨e, he, rfl⟩ := List.mem_map.mp htoken
  obtain ⟨p, hp, hptoken, hrole, -⟩ := PlacementInvariant.exists_primary hplan he
  have hfind := h.stored hexpiry p hp hrole
  have hentry := PlacementInvariant.planned_entry hplan hp
  rw [hptoken] at hfind hentry
  exact ⟨p, hp, hptoken, hrole, hentry, hfind⟩

structure Invariant (entries : ι → List (Str × Str)) (c : Reserves ι) : Prop where
  onePrimary : OnePrimary c.store
  free : ∀ i token, awaits (entries i) token (c.pos i) = true → ∀ relayId row,
    c.store.placements.find (token, relayId) = some row → row.role = .primary →
      row.expiryAt ≤ c.store.now
  admitted : ∀ i, Admitted (entries i) (c.pos i)
  held : ∀ i w, written (c.pos i) = some w → Held (entries i) w c.store
  single : ∀ i j token w w', written (c.pos i) = some w → written (c.pos j) = some w' →
    token ∈ (entries i).map Prod.fst → token ∈ (entries j).map Prod.fst →
      c.store.now < w.expiryAt → c.store.now < w'.expiryAt → i = j

/-- Time passes and expired rows go, whatever the positions are. -/
theorem Invariant.lapse (h : Invariant entries c) {s : Db} (hnow : c.store.now ≤ s.now)
    (hsub : ∀ key row, s.placements.find key = some row → c.store.placements.find key = some row)
    (hlive : ∀ key row, c.store.placements.find key = some row → s.now < row.expiryAt →
      s.placements.find key = some row) : Invariant entries { c with store := s } where
  onePrimary := h.onePrimary.shrink hsub
  free i token hawaits relayId row hrow hrole :=
    Int.le_trans (h.free i token hawaits relayId row (hsub _ _ hrow) hrole) hnow
  admitted := h.admitted
  held i w hw := by
    obtain ⟨hplanned, hstored⟩ := h.held i w hw
    refine ⟨hplanned, fun hexpiry p hp hrole => ?_⟩
    exact hlive _ _ (hstored (Int.lt_of_le_of_lt hnow hexpiry) p hp hrole) hexpiry
  single i j token w w' hw hw' ht ht' hexpiry hexpiry' :=
    h.single i j token w w' hw hw' ht ht' (Int.lt_of_le_of_lt hnow hexpiry)
      (Int.lt_of_le_of_lt hnow hexpiry')

/-- At its transaction none of the tokens of a reserve has a primary. -/
theorem noPrimary_of_undisturbed {w : Written} (h : Invariant entries c) (hp : c.pos i = .commit w)
    (hcond : Undisturbed entries c (.turn i)) : ∀ e ∈ entries i, NoPrimary c.store e.1 := by
  intro e he relayId row hrow hrole
  have hawaits : awaits (entries i) e.1 (c.pos i) = true := by
    rw [hp]
    simp only [awaits, decide_eq_true_iff]
    exact List.mem_map_of_mem he
  have hexpired := h.free i e.1 hawaits relayId row hrow hrole
  have hlive := (hcond (by rw [hp]; rfl)).2 e he _ (Table.find_eq_some.mp hrow) rfl hrole
  exact absurd hexpired (Int.not_le.mpr hlive)

/-- So no other reserve holds one of them. -/
theorem not_held_of_noPrimary {w : Written} {j : ι} (h : Invariant entries c)
    (hno : ∀ e ∈ entries i, NoPrimary c.store e.1) (hw : written (c.pos j) = some w) {token : Str}
    (hi : token ∈ (entries i).map Prod.fst) (hj : token ∈ (entries j).map Prod.fst) :
    w.expiryAt ≤ c.store.now := by
  by_contra hexpiry
  obtain ⟨p, -, -, hrole, -, hfind⟩ := (h.held j w hw).primary (Int.not_le.mp hexpiry) hj
  obtain ⟨e, he, rfl⟩ := List.mem_map.mp hi
  exact hno e he p.relayId _ hfind hrole

theorem written_of_succeeded {p : Position} {w : Written} (h : succeeded p = some w) :
    written p = some w := by
  cases p with
  | done w' outcome =>
    cases outcome with
    | error e => cases h
    | ok result =>
      cases result with
      | error occupied => cases h
      | ok outcome => exact h
  | _ => cases h

theorem Invariant.exclusive (h : Invariant entries c) : Exclusive entries c where
  single := by
    rintro token i j w w' ⟨hw, htoken, hexpiry⟩ ⟨hw', htoken', hexpiry'⟩
    exact h.single i j token w w' (written_of_succeeded hw) (written_of_succeeded hw') htoken htoken'
      hexpiry hexpiry'
  stored := by
    rintro token i w ⟨hw, htoken, hexpiry⟩
    obtain ⟨p, hp, hptoken, hrole, hentry, hfind⟩ :=
      (h.held i w (written_of_succeeded hw)).primary hexpiry htoken
    exact ⟨p, hp, hptoken, hrole, hentry, _, h.onePrimary.primaryPlacement_eq hfind hrole, rfl⟩

theorem Invariant.commitsAlone (h : Invariant entries c) {e : Event ι}
    (hcond : Undisturbed entries c e) : CommitsAlone entries c e := by
  cases e with
  | tick elapsed => trivial
  | turn i =>
    intro hcommits j _ w hw token hi hj
    cases hp : c.pos i with
    | commit w' =>
      exact not_held_of_noPrimary h (noPrimary_of_undisturbed h hp hcond) hw hi hj
    | _ =>
      rw [hp] at hcommits
      cases hcommits

theorem invariant_start_of_onePrimary {s : Db} (h : OnePrimary s) :
    Invariant entries (start (ι := ι) s) := by
  constructor
  · exact h
  · intro i token hawaits
    cases hawaits
  · intro i
    trivial
  · intro i w hw
    cases hw
  · intro i j token w w' hw
    cases hw

variable [DecidableEq ι]

/-- A turn that writes nothing. -/
theorem Invariant.move (h : Invariant entries c) {p : Position}
    (hfree : ∀ token, awaits (entries i) token p = true → ∀ relayId row,
      c.store.placements.find (token, relayId) = some row → row.role = .primary →
        row.expiryAt ≤ c.store.now)
    (hadmitted : Admitted (entries i) p) (hwritten : written p = written (c.pos i)) :
    Invariant entries { c with pos := Function.update c.pos i p } := by
  have hpos : ∀ j, written (Function.update c.pos i p j) = written (c.pos j) := by
    intro j
    by_cases hj : j = i
    · subst hj
      rw [Function.update_self, hwritten]
    · rw [Function.update_of_ne hj]
  constructor
  · exact h.onePrimary
  · intro j token hawaits
    by_cases hj : j = i
    · subst hj
      simp only [Function.update_self] at hawaits
      exact hfree token hawaits
    · simp only [Function.update_of_ne hj] at hawaits
      exact h.free j token hawaits
  · intro j
    by_cases hj : j = i
    · subst hj
      simp only [Function.update_self]
      exact hadmitted
    · simp only [Function.update_of_ne hj]
      exact h.admitted j
  · intro j w hw
    rw [hpos] at hw
    exact h.held j w hw
  · intro j k token w w' hw hw'
    rw [hpos] at hw hw'
    exact h.single j k token w w' hw hw'

theorem next_turn (c : Reserves ι) (i : ι) : next env entries ttlSeconds c (.turn i) =
    { store := (advance env (entries i) (ttlSeconds i) (c.pos i) c.store).2,
      pos := Function.update c.pos i (advance env (entries i) (ttlSeconds i) (c.pos i) c.store).1 } :=
  rfl

/-- A position that cannot go on. -/
theorem next_idle (h : advance env (entries i) (ttlSeconds i) (c.pos i) c.store = (c.pos i, c.store)) :
    next env entries ttlSeconds c (.turn i) = c := by
  rw [next_turn, h, Function.update_eq_self]

theorem invariant_start (h : Invariant entries c) (hp : c.pos i = .start) :
    Invariant entries (next env entries ttlSeconds c (.turn i)) := by
  rw [next_turn, hp]
  have hpurged : Invariant entries { c with store := purgeExpired c.store } := by
    refine h.lapse (s := purgeExpired c.store) (Int.le_refl _) ?_ ?_
    · intro key row hrow
      rw [purgeExpired, Table.find_filter, Option.filter_eq_some_iff] at hrow
      exact hrow.1
    · intro key row hrow hlive
      rw [purgeExpired, Table.find_filter, Option.filter_eq_some_iff, decide_eq_true_iff]
      exact ⟨hrow, Int.not_le.mpr hlive⟩
  have hafter : (∀ token, awaits (entries i) token (afterPurge env (entries i)) = false) ∧
      Admitted (entries i) (afterPurge env (entries i)) ∧
      written (afterPurge env (entries i)) = none := by
    rw [afterPurge]
    by_cases hne : entries i = []
    · rw [if_pos hne]
      exact ⟨fun _ => rfl, trivial, rfl⟩
    · rw [if_neg hne]
      cases hdup : checkDuplicates [] ((entries i).map Prod.fst) with
      | error e => exact ⟨fun _ => rfl, trivial, rfl⟩
      | ok u =>
        dsimp only
        rw [afterCheck, if_pos hne]
        refine ⟨fun token => ?_, ⟨hne, (checkDuplicates_ok hdup).1⟩, rfl⟩
        simp [awaits]
  obtain ⟨hawaits, hadmitted, hwritten⟩ := hafter
  apply hpurged.move _ hadmitted
  · rw [hwritten, hp]
    rfl
  · intro token htoken
    rw [hawaits] at htoken
    cases htoken

theorem invariant_check {e : Str × Str} {remaining : List (Str × Str)} {occupied : List OccupiedToken}
    (h : Invariant entries c) (hp : c.pos i = .check (e :: remaining) occupied) :
    Invariant entries (next env entries ttlSeconds c (.turn i)) := by
  rw [next_turn, hp]
  have hadmitted := h.admitted i
  rw [hp] at hadmitted
  -- a token is awaited now if it was before, or it is the one that was found free
  have hawaits : ∀ token, awaits (entries i) token (afterCheck remaining
      (occupied ++ (occupiedToken c.store e.1).toList)) = true →
      awaits (entries i) token (.check (e :: remaining) occupied) = true ∨
        (token = e.1 ∧ occupiedToken c.store e.1 = none) := by
    intro token htoken
    rw [afterCheck] at htoken
    have hkey : occupied = [] ∧ occupiedToken c.store e.1 = none ∧
        token ∈ (entries i).map Prod.fst ∧ token ∉ remaining.map Prod.fst := by
      split at htoken
      · simpa [awaits, and_assoc] using htoken
      · rename_i hnil
        split at htoken
        · cases htoken
        · rename_i hfree
          simp only [ne_eq, not_not] at hnil hfree
          obtain ⟨hocc, hfound⟩ := List.append_eq_nil_iff.mp hfree
          have hmem : token ∈ (entries i).map Prod.fst := by simpa [awaits] using htoken
          refine ⟨hocc, Option.toList_eq_nil_iff.mp hfound, hmem, ?_⟩
          rw [hnil]
          exact List.not_mem_nil
    obtain ⟨hocc, hfound, hmem, hremaining⟩ := hkey
    by_cases htoken : token = e.1
    · exact .inr ⟨htoken, hfound⟩
    · left
      simp only [awaits, decide_eq_true_iff]
      refine ⟨hocc, hmem, ?_⟩
      rw [List.map_cons, List.mem_cons, not_or]
      exact ⟨htoken, hremaining⟩
  apply h.move
  · intro token htoken relayId row hrow hrole
    rcases hawaits token htoken with hbefore | ⟨rfl, hfound⟩
    · rw [← hp] at hbefore
      exact h.free i token hbefore relayId row hrow hrole
    · exact h.onePrimary.expired_of_not_occupied hfound hrow hrole
  · show Admitted (entries i) (afterCheck remaining _)
    rw [afterCheck]
    split
    · exact hadmitted
    · split
      · trivial
      · exact hadmitted
  · show written (afterCheck remaining _) = _
    rw [hp, afterCheck]
    split
    · rfl
    · split <;> rfl

theorem planWrite_ok {entries : List (Str × Str)} {ttlSeconds : Option Int} {s s' : Db} {w : Written}
    (h : planWrite env entries ttlSeconds s = (.ok w, s')) :
    resolvePlacementWithTtl env.placementPolicy entries (healthyRelays env s)
      (ttlSeconds.getD env.tokenTtlSeconds) = .ok w.resolution := by
  rw [planWrite, Py.bind_ok (listHealthyRelays_run _ s)] at h
  by_cases hhealthy : healthyRelays env s = []
  · rw [Py.bind_error (Py.raiseIf_pos hhealthy _ s)] at h
    cases h
  · rw [Py.bind_ok (Py.raiseIf_neg hhealthy _ s)] at h
    cases hplan : resolvePlacementWithTtl env.placementPolicy entries (healthyRelays env s)
        (ttlSeconds.getD env.tokenTtlSeconds) with
    | error e =>
      rw [hplan, Py.bind_error (Py.ofExcept_run _ s)] at h
      cases h
    | ok resolution =>
      rw [hplan, Py.bind_ok (Py.ofExcept_run _ s)] at h
      cases h
      rfl

theorem planWrite_reads (env : Env) (entries : List (Str × Str)) (ttlSeconds : Option Int) (s : Db) :
    (planWrite env entries ttlSeconds s).2 = s := by
  have hp : Py.Preserves (· = s) (planWrite env entries ttlSeconds) :=
    Py.preserves_bind (Py.preserves_read _) fun _ => Py.preserves_bind (Py.preserves_raiseIf _ _)
      fun _ => Py.preserves_bind (Py.preserves_ofExcept _) fun _ =>
        Py.preserves_bind (Py.preserves_read _) fun _ => Py.preserves_pure _
  exact hp s rfl

theorem invariant_list (h : Invariant entries c) (hp : c.pos i = .list) :
    Invariant entries (next env entries ttlSeconds c (.turn i)) := by
  rw [next_turn, hp]
  have hadmitted := h.admitted i
  rw [hp] at hadmitted
  have hturn : advance env (entries i) (ttlSeconds i) .list c.store =
      goto (planWrite env (entries i) (ttlSeconds i) c.store) .commit (failed none) := rfl
  rw [hturn]
  cases hplan : planWrite env (entries i) (ttlSeconds i) c.store with
  | mk r s =>
    have hs := planWrite_reads env (entries i) (ttlSeconds i) c.store
    rw [hplan] at hs
    dsimp only at hs
    subst hs
    cases r with
    | error e =>
      apply h.move
      · intro token htoken
        cases htoken
      · trivial
      · rw [hp]
        rfl
    | ok w =>
      apply h.move
      · intro token htoken relayId row hrow hrole
        have hbefore : awaits (entries i) token (c.pos i) = true := by
          rw [hp]
          exact htoken
        exact h.free i token hbefore relayId row hrow hrole
      · exact (resolve_correct hadmitted.1 hadmitted.2 (healthyRelays_nodup env c.store)
          (planWrite_ok hplan)).imp fun _ => Exists.imp fun _ hcorrect => ⟨_, hcorrect⟩
      · rw [hp]
        rfl

/-- The rows that were just written, as the plan has them. -/
theorem held_writeRows {entries : List (Str × Str)} {w : Written} (s : Db)
    (h : PlannedFor entries w.resolution) :
    Held entries w (writeRows w.resolution.placements w.expiryAt w.updatedAt s) where
  planned := h
  stored _ p hp hrole := by
    obtain ⟨healthy, choice, maxReplicasPerBlock, hplan⟩ := h
    obtain ⟨q, hq, htoken, hrelay, hfind⟩ := find_writeRows_planned _ _ s hp
    have hqrole : q.role = .primary := by
      cases hqr : q.role with
      | primary => rfl
      | replica => exact absurd hrelay.symm (hplan.pools p hp q hq hrole hqr)
    obtain ⟨first, -, -, -, hunique⟩ :=
      PlacementInvariant.exists_primary hplan (PlacementInvariant.planned_entry hplan hp)
    rw [hunique q hq htoken hqrole, ← hunique p hp rfl hrole] at hfind
    exact hfind

theorem invariant_commit {w : Written} (h : Invariant entries c) (hp : c.pos i = .commit w)
    (hcond : Undisturbed entries c (.turn i)) :
    Invariant entries (next env entries ttlSeconds c (.turn i)) := by
  have hno := noPrimary_of_undisturbed h hp hcond
  have hplanned := h.admitted i
  rw [hp] at hplanned
  have hheld := held_writeRows c.store hplanned
  obtain ⟨healthy, choice, maxReplicasPerBlock, hplan⟩ := hplanned
  have hother : ∀ token, token ∉ (entries i).map Prod.fst → ∀ relayId,
      (writeRows w.resolution.placements w.expiryAt w.updatedAt c.store).placements.find
        (token, relayId) = c.store.placements.find (token, relayId) := by
    intro token htoken relayId
    apply find_writeRows_other
    rintro p hp rfl
    exact htoken (List.mem_map.mpr ⟨_, PlacementInvariant.planned_entry hplan hp, rfl⟩)
  rw [next_turn, hp]
  show Invariant entries { store := writeRows w.resolution.placements w.expiryAt w.updatedAt c.store,
                           pos := Function.update c.pos i (.relist w) }
  constructor
  · exact h.onePrimary.writeRows hplan hno
  · intro j token hawaits relayId row hrow hrole
    by_cases hj : j = i
    · subst hj
      simp only [Function.update_self] at hawaits
      cases hawaits
    · simp only [Function.update_of_ne hj] at hawaits
      have htoken : token ∉ (entries i).map Prod.fst := by
        intro htoken
        obtain ⟨e, he, rfl⟩ := List.mem_map.mp htoken
        rw [(hcond (by rw [hp]; rfl)).1 j hj e he] at hawaits
        cases hawaits
      rw [hother token htoken] at hrow
      exact h.free j token hawaits relayId row hrow hrole
  · intro j
    by_cases hj : j = i
    · subst hj
      simp only [Function.update_self]
      trivial
    · simp only [Function.update_of_ne hj]
      exact h.admitted j
  · intro j w' hw'
    by_cases hj : j = i
    · subst hj
      simp only [Function.update_self, written, Option.some.injEq] at hw'
      subst hw'
      exact hheld
    · simp only [Function.update_of_ne hj] at hw'
      obtain ⟨hplanned', hstored⟩ := h.held j w' hw'
      refine ⟨hplanned', fun hexpiry p hp' hrole => ?_⟩
      have hold := hstored hexpiry p hp' hrole
      have htoken : p.token ∉ (entries i).map Prod.fst := by
        intro htoken
        obtain ⟨e, he, heq⟩ := List.mem_map.mp htoken
        rw [← heq] at hold
        exact hno e he p.relayId _ hold hrole
      rw [hother p.token htoken]
      exact hold
  · intro j k token w₁ w₂ hw₁ hw₂ hj hk hexpiry₁ hexpiry₂
    rw [writeRows_now] at hexpiry₁ hexpiry₂
    by_cases hji : j = i
    · by_cases hki : k = i
      · rw [hji, hki]
      · subst hji
        simp only [Function.update_of_ne hki] at hw₂
        exact absurd (not_held_of_noPrimary h hno hw₂ hj hk) (Int.not_le.mpr hexpiry₂)
    · simp only [Function.update_of_ne hji] at hw₁
      by_cases hki : k = i
      · subst hki
        exact absurd (not_held_of_noPrimary h hno hw₁ hk hj) (Int.not_le.mpr hexpiry₁)
      · simp only [Function.update_of_ne hki] at hw₂
        exact h.single j k token w₁ w₂ hw₁ hw₂ hj hk hexpiry₁ hexpiry₂

/-- After the transaction a reserve only reads. -/
theorem invariant_reads {p : Position} {w : Written} (h : Invariant entries c)
    (hp : written (c.pos i) = some w) (hnext : written p = some w)
    (hawaits : ∀ token, awaits (entries i) token p = false) (hadmitted : Admitted (entries i) p) :
    Invariant entries { c with pos := Function.update c.pos i p } := by
  refine h.move (fun token htoken => ?_) hadmitted (hnext.trans hp.symm)
  rw [hawaits] at htoken
  cases htoken

theorem afterLookBack_written (w : Written) (liveUrls : List HealthyRelay) (remaining : List Str)
    (locked : List TokenReserveResult) (entries : List (Str × Str)) :
    written (afterLookBack w liveUrls remaining locked) = some w ∧
      (∀ token, awaits entries token (afterLookBack w liveUrls remaining locked) = false) ∧
      Admitted entries (afterLookBack w liveUrls remaining locked) := by
  rw [afterLookBack]
  split
  · exact ⟨rfl, fun _ => rfl, trivial⟩
  · exact ⟨rfl, fun _ => rfl, trivial⟩

theorem invariant_next (h : Invariant entries c) (e : Event ι) (hcond : Undisturbed entries c e) :
    Invariant entries (next env entries ttlSeconds c e) := by
  cases e with
  | tick elapsed =>
    refine h.lapse (s := tickBy elapsed c.store) ?_ (fun _ _ hrow => hrow) fun _ _ hrow _ => hrow
    exact Int.le_add_of_nonneg_right (Int.natCast_nonneg elapsed)
  | turn i =>
    cases hp : c.pos i with
    | start => exact invariant_start h hp
    | check remaining occupied =>
      cases remaining with
      | nil =>
        rw [next_idle (by rw [hp]; rfl)]
        exact h
      | cons e remaining => exact invariant_check h hp
    | list => exact invariant_list h hp
    | commit w => exact invariant_commit h hp hcond
    | relist w =>
      rw [next_turn, hp]
      obtain ⟨hwritten, hawaits, hadmitted⟩ := afterLookBack_written w (healthyRelays env c.store)
        ((entries i).map Prod.fst) [] (entries i)
      exact invariant_reads h (by rw [hp]; rfl) hwritten hawaits hadmitted
    | lookBack w liveUrls remaining locked =>
      cases remaining with
      | nil =>
        rw [next_idle (by rw [hp]; rfl)]
        exact h
      | cons token remaining =>
        have hturn : advance env (entries i) (ttlSeconds i)
            (.lookBack w liveUrls (token :: remaining) locked) c.store =
            goto (lockedRoute liveUrls token c.store)
              (fun route => afterLookBack w liveUrls remaining (locked ++ [route]))
              (failed (some w)) := rfl
        rw [next_turn, hp, hturn, lockedRoute_run]
        split
        · exact invariant_reads h (by rw [hp]; rfl) rfl (fun _ => rfl) trivial
        · obtain ⟨hwritten, hawaits, hadmitted⟩ := afterLookBack_written w liveUrls remaining
            (locked ++ [placementsToReserveResult c.store liveUrls token
              (tokenPlacements c.store token)]) (entries i)
          exact invariant_reads h (by rw [hp]; rfl) hwritten hawaits hadmitted
    | done w outcome =>
      rw [next_idle (by rw [hp]; rfl)]
      exact h

/-- Reserves on any registry that has been in use: over a run whose transactions are undisturbed a
token has one holder at a time, and its primary is the stored one. -/
theorem reserves_exclusive (env : Env) (now : Int) (before : List Operation)
    (entries : ι → List (Str × Str)) (ttlSeconds : ι → Option Int) (events : List (Event ι))
    (h : Along (next env entries ttlSeconds) (Undisturbed entries)
      (start (exec (perform env) (PlacementInvariant.emptyDb now) before)) events) :
    Throughout (next env entries ttlSeconds) (Exclusive entries)
        (start (exec (perform env) (PlacementInvariant.emptyDb now) before)) events ∧
      Along (next env entries ttlSeconds) (CommitsAlone entries)
        (start (exec (perform env) (PlacementInvariant.emptyDb now) before)) events := by
  have hstart : Invariant entries (start (ι := ι)
      (exec (perform env) (PlacementInvariant.emptyDb now) before)) :=
    invariant_start_of_onePrimary (onePrimary_exec env now before)
  revert h hstart
  generalize start (ι := ι) (exec (perform env) (PlacementInvariant.emptyDb now) before) = c
  intro h hstart
  induction events generalizing c with
  | nil =>
    refine ⟨fun first rest hevents => ?_, trivial⟩
    rw [(List.append_eq_nil_iff.mp hevents.symm).1]
    exact hstart.exclusive
  | cons e events ih =>
    obtain ⟨hcond, hrest⟩ := h
    obtain ⟨hexclusive, halone⟩ := ih _ hrest (invariant_next hstart e hcond)
    exact ⟨throughout_cons.mpr ⟨hstart.exclusive, hexclusive⟩, hstart.commitsAlone hcond, halone⟩

end invariant

/-- One token with two block hashes. -/
def twoEntries (first : Bool) : List (Str × Str) :=
  [(List.replicate 64 97, List.replicate 64 (if first then 98 else 99))]

def oneRelay : List Operation := [.addAllowlist (ascii "a") (some (ascii "http://a.test"))]

def twoStart : Reserves Bool :=
  start (exec (perform Rejections.sampleEnv) (PlacementInvariant.emptyDb 0) oneRelay)

/-- The second reserve begins first. It looks at the token when the first has written it and not returned
yet. -/
def overlapping : List (Event Bool) :=
  [.turn false, .turn true, .turn true, .turn true, .turn true, .turn false, .turn true, .turn true]

/-- The first succeeds, and the second is refused. -/
theorem reserves_exclusive_two :
    Throughout (next Rejections.sampleEnv twoEntries fun _ => none) (Exclusive twoEntries) twoStart
        overlapping ∧
      Along (next Rejections.sampleEnv twoEntries fun _ => none) (CommitsAlone twoEntries) twoStart
        overlapping ∧
      ∀ i, (succeeded ((exec (next Rejections.sampleEnv twoEntries fun _ => none) twoStart
        overlapping).pos i)).isSome = i := by
  obtain ⟨hexclusive, halone⟩ := reserves_exclusive Rejections.sampleEnv 0 oneRelay twoEntries
    (fun _ => none) overlapping (by decide +kernel)
  exact ⟨hexclusive, halone, fun i => by cases i <;> decide +kernel⟩

/-- Turn by turn, both find the token free, and both succeed. -/
def inTurns : List (Event Bool) :=
  (List.replicate 6 [Event.turn true, Event.turn false]).flatten

theorem reserved_twice :
    ¬ Throughout (next Rejections.sampleEnv twoEntries fun _ => none) (Exclusive twoEntries) twoStart
      inTurns := by
  intro h
  have hfinal := h inTurns [] (List.append_nil _).symm
  have hboth : ∀ i, ∃ w, Reserved twoEntries
      (exec (next Rejections.sampleEnv twoEntries fun _ => none) twoStart inTurns) i
        (List.replicate 64 97) w := by
    intro i
    have hsome : ((succeeded ((exec (next Rejections.sampleEnv twoEntries fun _ => none) twoStart
        inTurns).pos i)).any fun w => decide ((exec (next Rejections.sampleEnv twoEntries fun _ => none)
          twoStart inTurns).store.now < w.expiryAt)) = true := by
      cases i <;> decide +kernel
    obtain ⟨w, hw, hexpiry⟩ := (Option.any_eq_true _ _).mp hsome
    exact ⟨w, hw, by cases i <;> decide, of_decide_eq_true hexpiry⟩
  obtain ⟨w, hw⟩ := hboth true
  obtain ⟨w', hw'⟩ := hboth false
  cases hfinal.single _ _ _ _ _ hw hw'

end TwelveC.Registry.ReserveExclusive
