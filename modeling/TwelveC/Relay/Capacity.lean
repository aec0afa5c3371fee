import TwelveC.Relay.Sweep
import TwelveC.Relay.StoreEffects
import TwelveC.Relay.Durability

/-!
# The relay's capacity

A creation counts the rows before it writes its file and inserts its row after
it. What other creations insert in between is not counted.
-/

namespace TwelveC.Relay.Capacity

open Lib Lib.Run BlockAuth BlockService DiskBlockStore BlockRepository Interleaving Sweep StoreEffects

section steps

variable {C : Primitives} {config : Config} {verify : Str → Str → Except PyExn Unit} {calls : Calls}
variable {call : Call} {p : Position} {s : Store} {maxAge : Nat}

/-- An insert that goes through adds one row, and the registration is next. -/
theorem advance_inserts (C : Primitives) (config : Config) (verify : Str → Str → Except PyExn Unit)
    (h : Inserts call calls p s) :
    ∃ data, advance C config verify calls call p s =
      (.createRegister, insertRow call.token (relativeDiskPath call.token) (computeBlockHash C data)
        data.length s) := by
  obtain ⟨⟨data, hcall⟩, rfl, hrow, hdup⟩ := h
  cases call with
  | get token => cases hcall
  | put token data =>
    rw [Call.token] at hdup
    exact ⟨data, by simp [advance, advancePut, BlockRepository.insert, hrow, hdup, goto, Call.token]⟩

theorem advance_rows_insert (h : Inserts call calls p s) :
    (advance C config verify calls call p s).2.rows.length = s.rows.length + 1 := by
  obtain ⟨data, hadvance⟩ := advance_inserts C config verify h
  rw [hadvance]
  simp [insertRow]

theorem length_erase_le (rows : List (Str × BlockRow)) (token : Str) :
    (Assoc.erase rows token).length ≤ rows.length := List.length_filter_le ..

theorem advance_rows_le (h : ¬ Inserts call calls p s) :
    (advance C config verify calls call p s).2.rows.length ≤ s.rows.length := by
  have heff : Effect C verify call calls p s (advance C config verify calls call p s).1
      (advance C config verify calls call p s).2 := advance_effect call p s
  generalize (advance C config verify calls call p s).2 = s' at heff ⊢
  generalize (advance C config verify calls call p s).1 = p' at heff
  cases heff with
  | insert _ _ hins => exact absurd hins h
  | update => simp [updateRow, Assoc.modify]
  | deleteRow => exact length_erase_le ..
  | _ => exact Nat.le_refl _

theorem advanceSweep_rows_le (p : SweepPosition) (d : Disk) :
    (advanceSweep maxAge p d).2.rows.length ≤ d.rows.length := by
  cases p with
  | delete token rest expiredCount => exact length_erase_le ..
  | orphanFiles activePaths expiredCount =>
    rw [advanceSweep]
    exact Nat.le_of_eq (congrArg List.length (sweepOrphanFiles_rows activePaths maxAge d))
  | _ => exact Nat.le_refl _

end steps

section

variable {ι : Type} [DecidableEq ι] (C : Primitives) (config : Config) (maxAge : Nat)
variable (task : ι → Task)

/-- The insert that a task is about to make. -/
def insertsAt (t : Task) (p : TaskPosition) (s : Store) : Bool :=
  match t, p with
  | .block b, .block p => Inserts b.call b.calls p s
  | _, _ => false

/-- What a creation's own check found still holds when it inserts its row. -/
def RoomAtInsert (c : State ι) : Event ι → Prop
  | .turn i => insertsAt (task i) (c.pos i).position c.store.toStore = true →
      c.store.rows.length < config.maxBlocks
  | .tick _ => True

instance (c : State ι) : ∀ e, Decidable (RoomAtInsert config task c e)
  | .turn _ => inferInstanceAs (Decidable (_ → _))
  | .tick _ => inferInstanceAs (Decidable True)

def WithinCapacity (c : State ι) : Prop := c.store.rows.length ≤ config.maxBlocks

instance (c : State ι) : Decidable (WithinCapacity config c) := inferInstanceAs (Decidable (_ ≤ _))

variable {C config maxAge task}

theorem turn_rows_insert {c : State ι} {i : ι}
    (h : insertsAt (task i) (c.pos i).position c.store.toStore = true) :
    (next C config maxAge task c (.turn i)).store.rows.length = c.store.rows.length + 1 := by
  rw [next, Threads.next_store, turnTask]
  generalize (c.pos i).position = p at h ⊢
  generalize task i = t at h ⊢
  cases t with
  | sweep => cases h
  | block b =>
    cases p with
    | sweep p => cases h
    | block p => exact advance_rows_insert (of_decide_eq_true h)

theorem turn_rows_le {c : State ι} {i : ι}
    (h : insertsAt (task i) (c.pos i).position c.store.toStore = false) :
    (next C config maxAge task c (.turn i)).store.rows.length ≤ c.store.rows.length := by
  rw [next, Threads.next_store, turnTask]
  generalize (c.pos i).position = p at h ⊢
  generalize task i = t at h ⊢
  cases t with
  | sweep =>
    cases p with
    | sweep p => exact advanceSweep_rows_le p c.store
    | block p => exact Nat.le_refl _
  | block b =>
    cases p with
    | sweep p => exact Nat.le_refl _
    | block p => exact advance_rows_le (of_decide_eq_false h)

theorem next_withinCapacity (c : State ι) (e : Event ι) (h : WithinCapacity config c) :
    WithinCapacity config (next C config maxAge task c e) ↔ RoomAtInsert config task c e := by
  cases e with
  | tick elapsed => exact iff_of_true h trivial
  | turn i =>
    rw [WithinCapacity, RoomAtInsert]
    cases hins : insertsAt (task i) (c.pos i).position c.store.toStore with
    | true =>
      rw [turn_rows_insert hins]
      simp only [true_imp_iff]
      omega
    | false =>
      have hle : (next C config maxAge task c (.turn i)).store.rows.length ≤ c.store.rows.length :=
        turn_rows_le hins
      exact iff_of_true (Nat.le_trans hle h) (by simp)

/-- Past the capacity check, the row not yet inserted. -/
def admitted : TaskPosition → Bool
  | .block .createWrite => true
  | .block .createInsert => true
  | _ => false

/-- No creation counts the rows while another is between its check and its insert. -/
def OneAtATime (c : State ι) : Event ι → Prop
  | .turn i => (c.pos i).position = .block .count → ∀ j, admitted (c.pos j).position = false
  | .tick _ => True

instance {n : Nat} (c : State (Fin n)) : ∀ e, Decidable (OneAtATime c e)
  | .turn _ => inferInstanceAs (Decidable (_ → _))
  | .tick _ => inferInstanceAs (Decidable True)

/-- An await whose failure admits nothing and whose result leads to an admission. -/
theorem goto_admitted {α : Type} {r : Except PyExn α × Store} {ok : α → Position}
    {error : PyExn → Position} (herror : ∀ e, admitted (.block (error e)) = false)
    (h : admitted (.block (goto r ok error).1) = true) :
    ∃ a s', r = (.ok a, s') ∧ admitted (.block (ok a)) = true := by
  obtain ⟨r, s'⟩ := r
  cases r with
  | ok a => exact ⟨a, s', rfl, h⟩
  | error e => rw [goto, herror] at h; cases h

theorem checkCapacity_ok {s s' : Store} (h : checkCapacity config s = (.ok (), s')) :
    s.rows.length < config.maxBlocks := by
  have hcount : BlockRepository.count s = (.ok s.rows.length, s) := rfl
  rw [checkCapacity, Py.bind_ok hcount] at h
  by_cases hfull : config.maxBlocks ≤ s.rows.length
  · rw [Py.raiseIf_pos hfull] at h
    cases h
  · omega

theorem advance_admitted {call : Call} {calls : Calls} {verify : Str → Str → Except PyExn Unit}
    {p : Position} {s : Store}
    (h : admitted (.block (advance C config verify calls call p s).1) = true) :
    admitted (.block p) = true ∨ p = .count ∧ s.rows.length < config.maxBlocks := by
  cases call with
  | get token =>
    cases p with
    | start =>
      obtain ⟨record, -, -, hrecord⟩ := goto_admitted (fun _ => rfl) h
      cases record <;> cases hrecord
    | readFile row =>
      obtain ⟨data, -, -, hdata⟩ := goto_admitted (fun _ => rfl) h
      cases data <;> cases hdata
    | deleteRow => cases h
    | _ => exact .inl h
  | put token data =>
    cases p with
    | start =>
      obtain ⟨existing, -, -, hexisting⟩ := goto_admitted (fun _ => rfl) h
      cases existing <;> cases hexisting
    | count =>
      obtain ⟨_, s', hcheck, -⟩ := goto_admitted (fun _ => rfl) h
      exact .inr ⟨rfl, checkCapacity_ok hcheck⟩
    | createWrite => exact .inl rfl
    | createInsert => exact .inl rfl
    | restoreRead row exc =>
      rw [advance, advancePut] at h
      split at h
      · cases h
      · obtain ⟨previous, -, -, hprevious⟩ := goto_admitted (fun _ => rfl) h
        cases previous <;> cases hprevious
    | readFile row => exact .inl h
    | deleteRow => exact .inl h
    | done result => exact .inl h
    | _ =>
      obtain ⟨-, -, -, hnext⟩ := goto_admitted (fun _ => rfl) h
      cases hnext

theorem turn_admitted {c : State ι} {i : ι}
    (h : admitted ((next C config maxAge task c (.turn i)).pos i).position = true) :
    admitted (c.pos i).position = true ∨
      (c.pos i).position = .block .count ∧ c.store.rows.length < config.maxBlocks := by
  rw [next, Threads.next_pos_self, turnTask, arrive_position] at h
  generalize (c.pos i).position = p at h ⊢
  generalize task i = t at h
  cases t with
  | sweep => cases p <;> exact .inl h
  | block b =>
    cases p with
    | sweep p => exact .inl h
    | block p =>
      rcases advance_admitted h with hp | ⟨rfl, hroom⟩
      · exact .inl hp
      · exact .inr ⟨rfl, hroom⟩

theorem insertsAt_admitted {t : Task} {p : TaskPosition} {s : Store} (h : insertsAt t p s = true) :
    admitted p = true := by
  cases t with
  | sweep => cases h
  | block b =>
    cases p with
    | sweep p => cases h
    | block p =>
      obtain ⟨-, rfl, -⟩ : Inserts b.call b.calls p s := of_decide_eq_true h
      rfl

theorem turn_insert_position {c : State ι} {i : ι}
    (h : insertsAt (task i) (c.pos i).position c.store.toStore = true) :
    admitted ((next C config maxAge task c (.turn i)).pos i).position = false := by
  rw [next, Threads.next_pos_self, turnTask, arrive_position]
  generalize (c.pos i).position = p at h ⊢
  generalize task i = t at h ⊢
  cases t with
  | sweep => cases h
  | block b =>
    cases p with
    | sweep p => cases h
    | block p =>
      obtain ⟨data, hadvance⟩ := advance_inserts C config b.verify (of_decide_eq_true h)
      rw [advanceTask, advanceBlock, hadvance]
      rfl

variable (config) in
/-- Every admitted creation has its place, and no two are admitted at once. -/
structure Reserved (c : State ι) : Prop where
  room : ∀ j, admitted (c.pos j).position = true → c.store.rows.length < config.maxBlocks
  alone : ∀ j k, admitted (c.pos j).position = true → admitted (c.pos k).position = true → j = k

theorem next_reserved (c : State ι) (e : Event ι) (h : Reserved config c) (halone : OneAtATime c e) :
    Reserved config (next C config maxAge task c e) := by
  cases e with
  | tick elapsed => exact ⟨h.room, h.alone⟩
  | turn i =>
    have hother : ∀ j, j ≠ i → (next C config maxAge task c (.turn i)).pos j = c.pos j :=
      fun j hj => Threads.next_pos_of_ne _ hj c
    cases hins : insertsAt (task i) (c.pos i).position c.store.toStore with
    | true =>
      -- The one admitted creation has inserted its row; nobody is admitted now.
      have hnone : ∀ j, admitted ((next C config maxAge task c (.turn i)).pos j).position = false := by
        intro j
        by_cases hj : j = i
        · subst hj
          exact turn_insert_position hins
        · rw [hother j hj]
          by_contra hadm
          exact hj (h.alone j i (by simpa using hadm) (insertsAt_admitted hins))
      refine ⟨fun j hj => ?_, fun j k hj => ?_⟩ <;> rw [hnone j] at hj <;> cases hj
    | false =>
      have hle : (next C config maxAge task c (.turn i)).store.rows.length ≤ c.store.rows.length :=
        turn_rows_le hins
      -- Whoever is admitted now was before, or was the only one to pass the check.
      have hnow : ∀ j, admitted ((next C config maxAge task c (.turn i)).pos j).position = true →
          admitted (c.pos j).position = true ∨ j = i ∧ (c.pos i).position = .block .count ∧
            c.store.rows.length < config.maxBlocks := by
        intro j hj
        by_cases hji : j = i
        · subst hji
          exact (turn_admitted hj).imp_right fun h => ⟨rfl, h⟩
        · rw [hother j hji] at hj
          exact .inl hj
      have hcheck : (c.pos i).position = .block .count → ∀ j, admitted (c.pos j).position ≠ true :=
        fun hcount j => by simp [halone hcount j]
      constructor
      · intro j hj
        rcases hnow j hj with hbefore | ⟨-, -, hroom⟩
        · exact Nat.lt_of_le_of_lt hle (h.room j hbefore)
        · exact Nat.lt_of_le_of_lt hle hroom
      · intro j k hj hk
        rcases hnow j hj with hj' | ⟨rfl, hcount, -⟩ <;> rcases hnow k hk with hk' | ⟨rfl, hcount', -⟩
        · exact h.alone j k hj' hk'
        · exact absurd hj' (hcheck hcount' j)
        · exact absurd hk' (hcheck hcount k)
        · rfl

/-- With the creations admitted one at a time, every insert finds its place. -/
theorem roomAtInsert_of_oneAtATime {c : State ι} {events : List (Event ι)} (h : Reserved config c)
    (halone : Along (next C config maxAge task) OneAtATime c events) :
    Along (next C config maxAge task) (RoomAtInsert config task) c events := by
  induction events generalizing c with
  | nil => trivial
  | cons e rest ih =>
    refine ⟨?_, ih (next_reserved c e h halone.1) halone.2⟩
    cases e with
    | tick elapsed => trivial
    | turn i => exact fun hins => h.room i (insertsAt_admitted hins)

omit [DecidableEq ι] in
theorem initial_reserved (d : Disk) : Reserved config (initial task d) := by
  have hnone : ∀ j, admitted ((initial task d).pos j).position = false := by
    intro j
    simp only [initial]
    cases task j <;> rfl
  refine ⟨fun j hj => ?_, fun j k hj => ?_⟩ <;> rw [hnone j] at hj <;> cases hj

/-- The stored rows stay within `max_blocks` when the creations are admitted one at a time. Exactly,
they do as long as every insert that goes through finds fewer of them, which is then so. -/
theorem capacity_kept_iff (C : Primitives) (config : Config) (maxAge : Nat) (task : ι → Task)
    (d : Disk) (h : d.rows.length ≤ config.maxBlocks) (events : List (Event ι)) :
    (Along (next C config maxAge task) OneAtATime (initial task d) events →
      Throughout (next C config maxAge task) (WithinCapacity config) (initial task d) events) ∧
    (Throughout (next C config maxAge task) (WithinCapacity config) (initial task d) events ↔
      Along (next C config maxAge task) (RoomAtInsert config task) (initial task d) events) ∧
    (Along (next C config maxAge task) OneAtATime (initial task d) events →
      Along (next C config maxAge task) (RoomAtInsert config task) (initial task d) events) := by
  have h₀ : WithinCapacity config (initial task d) := h
  have hiff : Throughout (next C config maxAge task) (WithinCapacity config) (initial task d) events ↔
      Along (next C config maxAge task) (RoomAtInsert config task) (initial task d) events :=
    throughout_iff (fun c e => next_withinCapacity c e) h₀ events
  have hroom : Along (next C config maxAge task) OneAtATime (initial task d) events →
      Along (next C config maxAge task) (RoomAtInsert config task) (initial task d) events :=
    roomAtInsert_of_oneAtATime (initial_reserved d)
  exact ⟨fun halone => hiff.mpr (hroom halone), hiff, hroom⟩

end

def otherToken : Str := List.replicate 64 98

def onePlace : Config := { Overwrite.sampleConfig with maxBlocks := 1 }

def creation (token : Str) : Task :=
  .block { call := .put token [1], calls := Overwrite.sampleCalls
           verify := verifyOverwrite moduleNames PlainCrypto.plain Overwrite.sampleClock onePlace
             Overwrite.sampleCalls }

def twoCreations : Fin 2 → Task
  | 0 => creation Overwrite.sampleToken
  | 1 => creation otherToken

def emptyDisk : Disk := { Durability.emptyStore with mtimes := [] }

/-- Both creations have found no row when the first counts. The second counts after the first has
inserted its row, and is refused. -/
theorem capacity_kept_iff_apart :
    emptyDisk.rows.length ≤ onePlace.maxBlocks ∧
    Along (next PlainCrypto.plain onePlace 60 twoCreations) OneAtATime (initial twoCreations emptyDisk)
      (([0, 1, 0, 0, 0, 1, 0] : List (Fin 2)).map .turn) ∧
    Throughout (next PlainCrypto.plain onePlace 60 twoCreations) (WithinCapacity onePlace)
      (initial twoCreations emptyDisk) (([0, 1, 0, 0, 0, 1, 0] : List (Fin 2)).map .turn) :=
  have halone : Along (next PlainCrypto.plain onePlace 60 twoCreations) OneAtATime
      (initial twoCreations emptyDisk) (([0, 1, 0, 0, 0, 1, 0] : List (Fin 2)).map .turn) := by
    decide +kernel
  ⟨by decide, halone, (capacity_kept_iff PlainCrypto.plain onePlace 60 twoCreations emptyDisk (by decide)
    (([0, 1, 0, 0, 0, 1, 0] : List (Fin 2)).map .turn)).1 halone⟩

/-- Both count no row, and both insert theirs. -/
theorem capacity_exceeded :
    emptyDisk.rows.length ≤ onePlace.maxBlocks ∧
    ¬ Throughout (next PlainCrypto.plain onePlace 60 twoCreations) (WithinCapacity onePlace)
      (initial twoCreations emptyDisk) (([0, 0, 1, 1, 0, 0, 1, 1] : List (Fin 2)).map .turn) := by
  refine ⟨by decide, fun h => ?_⟩
  have hlast := h _ [] (List.append_nil _).symm
  have htwo : ¬ WithinCapacity onePlace (exec (next PlainCrypto.plain onePlace 60 twoCreations)
      (initial twoCreations emptyDisk) (([0, 0, 1, 1, 0, 0, 1, 1] : List (Fin 2)).map .turn)) := by
    decide +kernel
  exact htwo hlast

end TwelveC.Relay.Capacity
