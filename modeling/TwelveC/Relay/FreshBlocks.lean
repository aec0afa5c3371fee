import TwelveC.Relay.Sweep
import TwelveC.Relay.StoreEffects
import TwelveC.Relay.Durability
import Mathlib.Tactic.MkIffOfInductiveProp

/-!
# Whether a sweep spares a fresh block

A sweep removes what it listed without looking again. A `put_block` that writes
its row between the listing and the removal loses its block, however fresh. The
age of a block counts from that write, not from the acknowledgement.
-/

namespace TwelveC.Relay.FreshBlocks

open Lib Lib.Run BlockAuth BlockService DiskBlockStore BlockRepository Interleaving Sweep StoreEffects

/-- The tokens that a sweep still has to remove. -/
def listed : TaskPosition → List Str
  | .sweep (.remove token _ rest _) => token :: rest.map Prod.fst
  | .sweep (.delete token rest _) => token :: rest.map Prod.fst
  | _ => []

/-- The listed rows whose files are still to be removed. -/
def pending : TaskPosition → List (Str × Str)
  | .sweep (.remove token diskPath rest _) => (token, diskPath) :: rest
  | .sweep (.delete _ rest _) => rest
  | _ => []

/-- The tokens that the step puts on its list. -/
def lists : TaskPosition → Disk → List Str
  | .sweep (.listStale cutoff), d => (listStaleBlocks cutoff d.toStore).map Prod.fst
  | _, _ => []

/-- The token of the file that the step removes. -/
def removes : Task → TaskPosition → Option Str
  | .sweep, .sweep (.remove token _ _ _) => some token
  | .block b, .block p => if removesFile p then some b.call.token else none
  | _, _ => none

/-- The token of the row that the step deletes. -/
def deletes : Task → TaskPosition → Option Str
  | .sweep, .sweep (.delete token _ _) => some token
  | .block b, .block p => if deletesRow p then some b.call.token else none
  | _, _ => none

/-- The paths that a sweep about to scan for orphans has found in the rows. -/
def scans : TaskPosition → Option (List Str)
  | .sweep (.orphanFiles activePaths _) => some activePaths
  | _ => none

/-- The files that the step unlinks as orphans. -/
def orphans (maxAge : Nat) : TaskPosition → Disk → List Str
  | .sweep (.orphanFiles activePaths _), d =>
    (d.mtimes.filter fun e => e.1 ∉ activePaths ∧ (e.2 : Int) ≤ d.now - maxAge).map Prod.fst
  | _, _ => []

section sweep

variable {maxAge : Nat} {token : Str}

@[simp] theorem unlink_toStore (path : Str) (d : Disk) :
    (unlink path d).toStore = setFile path none d.toStore := rfl

/-- What the scan does not unlink stays. -/
theorem sweepOrphanFiles_keeps {activePaths : List Str} {d : Disk} {path : Str} {expiredCount : Nat}
    (h : path ∉ orphans maxAge (.sweep (.orphanFiles activePaths expiredCount)) d) :
    (sweepOrphanFiles activePaths maxAge d).2.files path = d.files path := by
  have hfold : ∀ (files : List (Str × Nat)) (cutoff : Int) (acc : Nat × Disk),
      path ∉ (files.filter fun e => e.1 ∉ activePaths ∧ (e.2 : Int) ≤ cutoff).map Prod.fst →
      (files.foldl (sweepOrphanFile activePaths cutoff) acc).2.files path = acc.2.files path := by
    intro files cutoff acc
    induction files generalizing acc with
    | nil => exact fun _ => rfl
    | cons file rest ih =>
      intro hpath
      have hrest : path ∉
          (rest.filter fun e => e.1 ∉ activePaths ∧ (e.2 : Int) ≤ cutoff).map Prod.fst := by
        intro hmem
        refine hpath ?_
        rw [List.filter_cons]
        split
        · exact List.mem_cons_of_mem _ hmem
        · exact hmem
      rw [List.foldl_cons, ih _ hrest, sweepOrphanFile]
      split
      · rfl
      split
      · rfl
      split
      · rfl
      rename_i hactive hold
      have hne : path ≠ file.1 := by
        rintro rfl
        refine hpath ?_
        rw [List.filter_cons_of_pos (by simpa using ⟨hactive, Int.not_lt.mp hold⟩)]
        exact List.mem_cons_self
      exact setFile_files_of_ne hne none acc.2.toStore
  exact hfold d.mtimes (d.now - maxAge) (0, d) h

theorem listed_nextStale (rest : List (Str × Str)) (expiredCount : Nat) :
    listed (.sweep (nextStale rest expiredCount)) = rest.map Prod.fst := by
  cases rest <;> rfl

theorem pending_nextStale (rest : List (Str × Str)) (expiredCount : Nat) :
    pending (.sweep (nextStale rest expiredCount)) = rest := by
  cases rest <;> rfl

/-- A step of a sweep spares a file that it neither removes nor finds among the orphans. -/
theorem advanceSweep_file {p : SweepPosition} {d : Disk}
    (hpending : ∀ e ∈ pending (.sweep p), e.2 = relativeDiskPath e.1)
    (hremoves : removes .sweep (.sweep p) ≠ some token)
    (horphans : relativeDiskPath token ∉ orphans maxAge (.sweep p) d)
    (hfile : (d.files (relativeDiskPath token)).isSome) :
    ((advanceSweep maxAge p d).2.files (relativeDiskPath token)).isSome := by
  cases p with
  | remove other diskPath rest expiredCount =>
    have hpath : diskPath = relativeDiskPath other := hpending (other, diskPath) List.mem_cons_self
    refine spares_setFile (fun heq => absurd ?_ hremoves) hfile
    rw [hpath] at heq
    rw [removes, relativeDiskPath_inj heq]
  | orphanFiles activePaths expiredCount =>
    rw [advanceSweep]
    rwa [sweepOrphanFiles_keeps horphans]
  | _ => exact hfile

theorem advanceSweep_row {p : SweepPosition} {d : Disk}
    (hdeletes : deletes .sweep (.sweep p) ≠ some token) (hrow : (Assoc.find d.rows token).isSome) :
    (Assoc.find (advanceSweep maxAge p d).2.rows token).isSome := by
  cases p with
  | delete other rest expiredCount =>
    have hne : token ≠ other := fun heq => hdeletes (by rw [deletes, heq])
    rw [advanceSweep]
    show (Assoc.find (Assoc.erase d.rows other) token).isSome
    rwa [Assoc.find_erase_of_ne _ hne]
  | orphanFiles activePaths expiredCount =>
    rw [advanceSweep]
    rwa [sweepOrphanFiles_rows]
  | _ => exact hrow

theorem advanceSweep_rows {p : SweepPosition} {d : Disk} {e : Str × BlockRow}
    (he : e ∈ (advanceSweep maxAge p d).2.rows) : e ∈ d.rows := by
  cases p with
  | delete other rest expiredCount => exact List.mem_of_mem_filter he
  | orphanFiles activePaths expiredCount =>
    rw [advanceSweep] at he
    rwa [sweepOrphanFiles_rows] at he
  | _ => exact he

/-- Its list only shrinks, but for the listing itself. -/
theorem listed_advanceSweep {p : SweepPosition} {d : Disk}
    (h : token ∈ listed (.sweep (advanceSweep maxAge p d).1)) :
    token ∈ listed (.sweep p) ∨ token ∈ lists (.sweep p) d := by
  cases p with
  | listStale cutoff =>
    rw [advanceSweep, listed_nextStale] at h
    exact .inr h
  | remove other diskPath rest expiredCount => exact .inl h
  | delete other rest expiredCount =>
    rw [advanceSweep, listed_nextStale] at h
    exact .inl (List.mem_cons_of_mem _ h)
  | _ => cases h

theorem pending_advanceSweep {p : SweepPosition} {d : Disk} (hd : Named d.toStore)
    (hpending : ∀ e ∈ pending (.sweep p), e.2 = relativeDiskPath e.1) :
    ∀ e ∈ pending (.sweep (advanceSweep maxAge p d).1), e.2 = relativeDiskPath e.1 := by
  cases p with
  | listStale cutoff =>
    rw [advanceSweep, pending_nextStale]
    intro e he
    obtain ⟨row, hrow, rfl⟩ := List.mem_map.mp he
    exact hd row (List.mem_of_mem_filter hrow)
  | remove other diskPath rest expiredCount =>
    exact fun e he => hpending e (List.mem_cons_of_mem _ he)
  | delete other rest expiredCount =>
    rw [advanceSweep, pending_nextStale]
    exact hpending
  | _ => exact fun e he => nomatch he

/-- The cutoff is taken at the start. -/
theorem cutoff_advanceSweep {p : SweepPosition} {d : Disk} {cutoff : Int}
    (h : (advanceSweep maxAge p d).1 = .listStale cutoff) : p = .start ∧ cutoff = d.now - maxAge := by
  have hnext : ∀ rest expiredCount, nextStale rest expiredCount ≠ .listStale cutoff := by
    intro rest expiredCount
    cases rest <;> exact fun heq => by cases heq
  cases p with
  | start =>
    cases h
    exact ⟨rfl, rfl⟩
  | listStale before => exact absurd h (hnext _ _)
  | delete other rest expiredCount => exact absurd h (hnext _ _)
  | _ => cases h

theorem advanceSweep_named {p : SweepPosition} {d : Disk} (h : Named d.toStore) :
    Named (advanceSweep maxAge p d).2.toStore := by
  cases p with
  | delete token rest expiredCount => exact named_erase h token
  | orphanFiles activePaths expiredCount =>
    rw [advanceSweep, Named, sweepOrphanFiles_rows]
    exact h
  | _ => exact h

end sweep

/-- What a call owns where it is. -/
def ownsAt (own : Call → Position → Bool) : Task → TaskPosition → Bool
  | .block b, .block p => own b.call p
  | _, _ => false

/-- Between the write of the file and the write of the row. -/
def halfway (call : Call) (p : Position) : Bool := ownsFile call p && !ownsRow call p

/-- An overwrite that `_verify_overwrite` accepts, from the lookup of its row to the `UPDATE`. -/
def awaits (C : Primitives) (verify : Str → Str → Except PyExn Unit) : Call → Position → Bool
  | .put token data, .verify _ => accepts C verify (.put token data)
  | .put _ _, .overwriteWrite _ => true
  | .put _ _, .overwriteUpdate _ => true
  | _, _ => false

def awaitsRow (C : Primitives) : Task → TaskPosition → Bool
  | .block b, .block p => awaits C b.verify b.call p
  | _, _ => false

/-- The step writes a row. -/
def recordsRow (t : Task) (p : TaskPosition) (s : Store) : Bool :=
  match t, p with
  | .block b, .block (.overwriteUpdate _) => b.calls.rowWrite = none
  | .block b, .block p => Inserts b.call b.calls p s
  | _, _ => false

def isBlock : Task → Bool
  | .block _ => true
  | .sweep => false

def returned : TaskPosition → Bool
  | .block (.done _) => true
  | _ => false

/-- The step of a task from `p` and `d` to `p'` and `d'`. -/
structure Moves (C : Primitives) (maxAge : Nat) (t : Task) (p : TaskPosition) (d : Disk)
    (p' : TaskPosition) (d' : Disk) : Prop where
  now : d'.now = d.now
  named : Named d.toStore → Named d'.toStore
  pending : Named d.toStore → (∀ e ∈ pending p, e.2 = relativeDiskPath e.1) →
    ∀ e ∈ pending p', e.2 = relativeDiskPath e.1
  file : ∀ token, (∀ e ∈ FreshBlocks.pending p, e.2 = relativeDiskPath e.1) → removes t p ≠ some token →
    relativeDiskPath token ∉ orphans maxAge p d → (d.files (relativeDiskPath token)).isSome →
    (d'.files (relativeDiskPath token)).isSome
  row : ∀ token, deletes t p ≠ some token → (Assoc.find d.rows token).isSome →
    (Assoc.find d'.rows token).isSome
  rows : ∀ e ∈ d'.rows, e ∈ d.rows ∨ e.2.updatedAt = d.now
  listed : ∀ token ∈ listed p', token ∈ FreshBlocks.listed p ∨ token ∈ lists p d
  cutoff : ∀ cutoff, p' = .sweep (.listStale cutoff) →
    p = .sweep (.listStale cutoff) ∨ p = .sweep .start ∧ cutoff = d.now - maxAge
  ownFile : ownsAt ownsFile t p' = true →
    (ownsAt ownsFile t p = true → (d.files (relativeDiskPath t.token)).isSome) →
    (d'.files (relativeDiskPath t.token)).isSome
  ownRow : ownsAt ownsRow t p' = true →
    (ownsAt ownsRow t p = true ∨ awaitsRow C t p = true → (Assoc.find d.rows t.token).isSome) →
    (Assoc.find d'.rows t.token).isSome ∧ (ownsAt ownsRow t p = true ∨
      recordsRow t p d.toStore = true ∧ ∀ e ∈ d'.rows, e.1 = t.token → e.2.updatedAt = d.now)
  found : awaitsRow C t p' = true → (awaitsRow C t p = true → (Assoc.find d.rows t.token).isSome) →
    (Assoc.find d'.rows t.token).isSome
  returned : returned p = true → p' = p

variable {C : Primitives} {config : Config} {maxAge : Nat}

/-- What owns a row, awaits one or writes one is no sweep. -/
theorem lists_of_block {t : Task} {p : TaskPosition} {d : Disk}
    (h : ownsAt ownsRow t p = true ∨ recordsRow t p d.toStore = true) : lists p d = [] := by
  cases t with
  | sweep => simp [ownsAt, recordsRow] at h
  | block b =>
    cases p with
    | sweep p => simp [ownsAt, recordsRow] at h
    | block p => rfl

theorem moves_self {t : Task} {p : TaskPosition} {d : Disk} : Moves C maxAge t p d p d where
  now := rfl
  named := id
  pending _ := id
  file _ _ _ _ := id
  row _ _ := id
  rows _ := .inl
  listed _ := .inl
  cutoff _ := .inl
  ownFile h hbefore := hbefore h
  ownRow h hbefore := ⟨hbefore (.inl h), .inl h⟩
  found h hbefore := hbefore h
  returned _ := rfl

theorem not_awaits_of_idle {verify : Str → Str → Except PyExn Unit} {call : Call} {p : Position}
    (h : idle call p = true) : awaits C verify call p = false := by
  cases call with
  | get token => rfl
  | put token data =>
    cases p with
    | verify row => cases h
    | overwriteWrite row => cases h
    | overwriteUpdate row => cases h
    | _ => rfl

/-- The row that an accepted overwrite has found. -/
theorem effect_awaits {verify : Str → Str → Except PyExn Unit} {call : Call} {calls : Calls}
    {p p' : Position} {s s' : Store} (heff : Effect C verify call calls p s p' s')
    (hawaits : awaits C verify call p' = true)
    (hbefore : awaits C verify call p = true → (Assoc.find s.rows call.token).isSome) :
    (Assoc.find s'.rows call.token).isSome := by
  cases heff with
  | look hlook =>
    cases hlook with
    | stays => exact hbefore hawaits
    | leaves hidle =>
      rw [not_awaits_of_idle hidle] at hawaits
      cases hawaits
    | found row hrow =>
      rw [hrow]
      rfl
    | accepted row haccepts =>
      cases call with
      | get token => cases hawaits
      | put token data => exact hbefore haccepts
    | _ => cases call <;> cases hawaits
  | write data hcall hwrite =>
    rcases hwrite with ⟨-, rfl⟩ | ⟨row, rfl, rfl⟩
    · cases call <;> cases hawaits
    · exact hbefore (by rw [hcall]; rfl)
  | spoil content _ hidle =>
    rw [not_awaits_of_idle hidle] at hawaits
    cases hawaits
  | _ => cases call <;> cases hawaits

theorem advanceBlock_moves (b : BlockCall) (p : Position) (d : Disk) :
    Moves C maxAge (.block b) (.block p) d (.block (advanceBlock C config b p d).1)
      (advanceBlock C config b p d).2 := by
  have heff : Effect C b.verify b.call b.calls p d.toStore (advanceBlock C config b p d).1
      (advanceBlock C config b p d).2.toStore := advance_effect b.call p d.toStore
  have hdone : ∀ result, p = .done result → (advanceBlock C config b p d).1 = p := by
    rintro result rfl
    rw [advanceBlock]
    cases b.call <;> rfl
  generalize (advanceBlock C config b p d).1 = p' at heff hdone ⊢
  generalize (advanceBlock C config b p d).2 = d' at heff ⊢
  constructor
  case now => exact heff.now
  case named => exact heff.named
  case pending => exact fun _ _ e he => by cases he
  case file =>
    intro token _ hremoves _ hfile
    refine heff.file_kept (fun hp heq => hremoves ?_) hfile
    rw [removes, if_pos hp, heq]
  case row =>
    intro token hdeletes hrow
    refine heff.row_kept (fun hp heq => hdeletes ?_) hrow
    rw [deletes, if_pos hp, heq]
  case rows => exact fun e he => heff.rows he
  case listed => exact fun token htoken => by cases htoken
  case cutoff => exact fun cutoff hp' => by cases hp'
  case ownFile =>
    intro howns hbefore
    rcases heff.own_file howns with ⟨hp, hsame⟩ | ⟨data, -, hwritten⟩
    · exact (congrArg Option.isSome hsame).trans (hbefore hp)
    · exact congrArg Option.isSome hwritten
  case ownRow =>
    intro howns hbefore
    rcases heff.own_row howns with ⟨hp, hsame⟩ | ⟨data, hcall, hins, hs'⟩ |
      ⟨row, data, hcall, hp, hwrite, hs'⟩
    · rw [hsame]
      exact ⟨hbefore (.inl hp), .inl hp⟩
    · have hnone : Assoc.find d.rows b.call.token = none := by
        have hdup := hins.2.2.2
        rw [Duplicate, not_or] at hdup
        simpa using hdup.1
      rw [hs']
      refine ⟨?_, .inr ⟨?_, fun e he htoken => ?_⟩⟩
      · rw [insertRow, setRows_rows, Task.token, Assoc.find_concat_self hnone]
        rfl
      · obtain ⟨-, rfl, -⟩ := id hins
        exact decide_eq_true hins
      · rw [insertRow, setRows_rows, List.mem_append, List.mem_singleton] at he
        rcases he with he | rfl
        · exact absurd htoken (Assoc.not_mem_of_find_none hnone he)
        · rfl
    · subst hp
      rw [hs']
      have hfound := hbefore (.inr (by rw [awaitsRow, hcall]; rfl))
      refine ⟨isSome_find_update hfound, .inr ⟨decide_eq_true hwrite, fun e he htoken => ?_⟩⟩
      rw [updateRow, setRows_rows, Assoc.modify, List.mem_map] at he
      obtain ⟨e, he, rfl⟩ := he
      split at htoken
      · rw [if_pos (by assumption)]
      · exact absurd htoken (by assumption)
  case found => exact effect_awaits heff
  case returned =>
    intro h
    cases p with
    | done result => rw [hdone result rfl]
    | _ => cases h

theorem advanceSweep_moves (p : SweepPosition) (d : Disk) :
    Moves C maxAge .sweep (.sweep p) d (.sweep (advanceSweep maxAge p d).1)
      (advanceSweep maxAge p d).2 where
  now := advanceSweep_now maxAge p d
  named := advanceSweep_named
  pending := pending_advanceSweep
  file _ := advanceSweep_file
  row _ := advanceSweep_row
  rows _ he := .inl (advanceSweep_rows he)
  listed _ := listed_advanceSweep
  cutoff cutoff h := by
    obtain ⟨rfl, hcutoff⟩ := cutoff_advanceSweep (TaskPosition.sweep.inj h)
    exact .inr ⟨rfl, hcutoff⟩
  ownFile h := by cases h
  ownRow h := by cases h
  found h := by cases h
  returned h := by cases h

theorem advanceTask_moves (t : Task) (p : TaskPosition) (d : Disk) :
    Moves C maxAge t p d (advanceTask C config maxAge t p d).1
      (advanceTask C config maxAge t p d).2 := by
  cases t with
  | sweep =>
    cases p with
    | sweep p => exact advanceSweep_moves p d
    | block p => exact moves_self
  | block b =>
    cases p with
    | sweep p => exact moves_self
    | block p => exact advanceBlock_moves b p d

section

variable {ι : Type} (C config maxAge) (task : ι → Task)

/-- A `put_block` that owns what `own` says. What it has returned with counts for
`block_max_age_seconds`. -/
def holding (own : Call → Position → Bool) (now : Nat) (t : Task) (w : Await) : Bool :=
  ownsAt own t w.position && (!returned w.position || decide (now < w.since + maxAge))

/-- What the schedule and the latencies leave to the step of task `i`. -/
@[mk_iff] structure Calm (c : State ι) (i : ι) : Prop where
  /-- A `put_block` writes its row while no sweep has the token on its list. -/
  recorded : recordsRow (task i) (c.pos i).position c.store.toStore = true →
    ∀ k, (task i).token ∉ listed (c.pos k).position
  /-- A sweep starts less than `block_max_age_seconds` after the row of a held block was written. -/
  started : (c.pos i).position = .sweep .start →
    ∀ j, holding maxAge ownsRow c.store.now (task j) (c.pos j) = true →
      ∀ e ∈ c.store.rows, e.1 = (task j).token → c.store.now < e.2.updatedAt + maxAge
  /-- It scans for orphans less than `block_max_age_seconds` after the write of a held file whose row
  it has not seen. -/
  scanned : ∀ activePaths ∈ scans (c.pos i).position,
    ∀ j, holding maxAge ownsFile c.store.now (task j) (c.pos j) = true →
      relativeDiskPath (task j).token ∉ activePaths →
      ∀ e ∈ c.store.mtimes, e.1 = relativeDiskPath (task j).token → c.store.now < e.2 + maxAge
  /-- No file is removed while a `put_block` has written it and not yet its row. -/
  removed : ∀ token ∈ removes (task i) (c.pos i).position,
    ∀ j, (task j).token = token → ownsAt halfway (task j) (c.pos j).position = false
  /-- No row is deleted while an accepted overwrite is between its lookup and its `UPDATE`. -/
  deleted : ∀ token ∈ deletes (task i) (c.pos i).position,
    ∀ j, (task j).token = token → awaitsRow C (task j) (c.pos j).position = false
  /-- No roll-back and no clean-up meets a held block. -/
  undone : isBlock (task i) = true → ∀ j,
    (removes (task i) (c.pos i).position = some (task j).token →
      holding maxAge ownsFile c.store.now (task j) (c.pos j) = false) ∧
    (deletes (task i) (c.pos i).position = some (task j).token →
      holding maxAge ownsRow c.store.now (task j) (c.pos j) = false)

set_option synthInstance.maxSize 1024 in
instance {n : Nat} (task : Fin n → Task) (c : State (Fin n)) (i : Fin n) :
    Decidable (Calm C maxAge task c i) :=
  decidable_of_iff _ (calm_iff C maxAge task c i).symm

def Undisturbed (c : State ι) : Event ι → Prop
  | .turn i => Calm C maxAge task c i
  | .tick _ => True

instance {n : Nat} (task : Fin n → Task) (c : State (Fin n)) :
    ∀ e, Decidable (Undisturbed C maxAge task c e)
  | .turn _ => inferInstanceAs (Decidable (Calm ..))
  | .tick _ => inferInstanceAs (Decidable True)

/-- A `put_block` of the token was acknowledged less than `block_max_age_seconds` ago. -/
def Fresh (c : State ι) (token : Str) : Prop :=
  ∃ i b data result, task i = .block b ∧ b.call = .put token data ∧
    (c.pos i).position = .block (.done (.ok result)) ∧ c.store.now < (c.pos i).since + maxAge

/-- Every fresh block has its row and its file. -/
def FreshKept (c : State ι) : Prop :=
  ∀ token, Fresh maxAge task c token →
    (Assoc.find c.store.rows token).isSome ∧ (c.store.files (relativeDiskPath token)).isSome

/-- Every held block has what its holder owns, and no sweep lists it or will: its row is younger than
the cutoff of a sweep that has not listed yet. -/
structure Intact (c : State ι) : Prop where
  file : ∀ j, holding maxAge ownsFile c.store.now (task j) (c.pos j) = true →
    (c.store.files (relativeDiskPath (task j).token)).isSome
  row : ∀ j, holding maxAge ownsRow c.store.now (task j) (c.pos j) = true →
    (Assoc.find c.store.rows (task j).token).isSome
  found : ∀ j, awaitsRow C (task j) (c.pos j).position = true →
    (Assoc.find c.store.rows (task j).token).isSome
  unlisted : ∀ j k, holding maxAge ownsRow c.store.now (task j) (c.pos j) = true →
    (task j).token ∉ listed (c.pos k).position
  young : ∀ j k cutoff, holding maxAge ownsRow c.store.now (task j) (c.pos j) = true →
    (c.pos k).position = .sweep (.listStale cutoff) →
    ∀ e ∈ c.store.rows, e.1 = (task j).token → cutoff < e.2.updatedAt
  cutoff : ∀ k cutoff, (c.pos k).position = .sweep (.listStale cutoff) →
    cutoff + maxAge ≤ c.store.now
  named : Named c.store.toStore
  pending : ∀ k, ∀ e ∈ pending (c.pos k).position, e.2 = relativeDiskPath e.1

variable {C config maxAge task} {c : State ι}

theorem Intact.freshKept (h : Intact C maxAge task c) : FreshKept maxAge task c := by
  rintro token ⟨i, b, data, result, htask, hcall, hpos, hfresh⟩
  have hheld : ∀ own : Call → Position → Bool, own (.put token data) (.done (.ok result)) = true →
      holding maxAge own c.store.now (task i) (c.pos i) = true := by
    intro own hown
    rw [holding, hpos, htask, ownsAt, hcall, hown]
    simp [hfresh]
  have htoken : (task i).token = token := by rw [htask, Task.token, hcall, Call.token]
  have hrow := h.row i (hheld ownsRow rfl)
  have hfile := h.file i (hheld ownsFile rfl)
  rw [htoken] at hrow hfile
  exact ⟨hrow, hfile⟩

/-- Whoever holds the block later holds it now. -/
theorem holding_tick {own : Call → Position → Bool} {now elapsed : Nat} {t : Task} {w : Await}
    (h : holding maxAge own (now + elapsed) t w = true) : holding maxAge own now t w = true := by
  simp only [holding, Bool.and_eq_true, Bool.or_eq_true, decide_eq_true_eq] at h ⊢
  exact ⟨h.1, h.2.imp_right (by omega)⟩

theorem holding_owns {own : Call → Position → Bool} {now : Nat} {t : Task} {w : Await}
    (h : holding maxAge own now t w = true) : ownsAt own t w.position = true := by
  rw [holding, Bool.and_eq_true] at h
  exact h.1

/-- Whoever holds a file holds the row too, or has not written it yet. -/
theorem holding_row {now : Nat} {t : Task} {w : Await} (h : holding maxAge ownsFile now t w = true)
    (hhalfway : ownsAt halfway t w.position = false) : holding maxAge ownsRow now t w = true := by
  rw [holding, Bool.and_eq_true] at h ⊢
  refine ⟨?_, h.2⟩
  have howns := h.1
  generalize w.position = p at howns hhalfway
  cases t with
  | sweep => cases howns
  | block b =>
    cases p with
    | sweep p => cases howns
    | block p =>
      rw [ownsAt] at howns hhalfway ⊢
      rw [halfway, howns, Bool.true_and, Bool.not_eq_false'] at hhalfway
      exact hhalfway

/-- A moving task that holds the block afterwards, and owned something before, held it before. -/
theorem holding_arrive {own own' : Call → Position → Bool} {now : Nat} {t : Task} {w : Await}
    {p' : TaskPosition} (hstay : returned w.position = true → p' = w.position)
    (hafter : holding maxAge own now t (arrive w p' now) = true)
    (hbefore : ownsAt own' t w.position = true) : holding maxAge own' now t w = true := by
  rw [holding, Bool.and_eq_true]
  refine ⟨hbefore, ?_⟩
  cases hr : returned w.position with
  | false => rfl
  | true =>
    rw [arrive, if_pos (hstay hr), holding, Bool.and_eq_true, hr] at hafter
    exact hafter.2

/-- The orphans of a scan are old files that no row names. -/
theorem not_mem_orphans {p : TaskPosition} {d : Disk} {path : Str}
    (h : ∀ activePaths ∈ scans p, path ∉ activePaths →
      ∀ e ∈ d.mtimes, e.1 = path → d.now < e.2 + maxAge) : path ∉ orphans maxAge p d := by
  cases p with
  | block p => exact List.not_mem_nil
  | sweep p =>
    cases p with
    | orphanFiles activePaths expiredCount =>
      intro hmem
      obtain ⟨e, he, rfl⟩ := List.mem_map.mp hmem
      obtain ⟨he, hold⟩ := List.mem_filter.mp he
      simp only [decide_eq_true_eq] at hold
      have hyoung := h activePaths rfl hold.1 e he rfl
      omega
    | _ => exact List.not_mem_nil

/-- The turn of task `i`, with what it does to the stores. -/
structure Turn (C : Primitives) (maxAge : Nat) (task : ι → Task) (c : State ι) (i : ι)
    (p' : TaskPosition) (c' : State ι) : Prop where
  moves : Moves C maxAge (task i) (c.pos i).position c.store p' c'.store
  self : c'.pos i = arrive (c.pos i) p' c.store.now
  other : ∀ j, j ≠ i → c'.pos j = c.pos j

section turn

variable {i : ι} {p' : TaskPosition} {c' : State ι}

/-- A held block of another task keeps its file. -/
theorem Intact.file_other (h : Intact C maxAge task c) (hcalm : Calm C maxAge task c i)
    (hturn : Turn C maxAge task c i p' c') {j : ι}
    (hj : holding maxAge ownsFile c.store.now (task j) (c.pos j) = true) :
    (c'.store.files (relativeDiskPath (task j).token)).isSome := by
  refine hturn.moves.file _ (h.pending i) (fun hremoves => ?_) (not_mem_orphans ?_) (h.file j hj)
  · have hrow := holding_row hj (hcalm.removed _ hremoves j rfl)
    cases htask : task i with
    | block b =>
      have hnot := ((hcalm.undone (by rw [htask]; rfl) j).1 hremoves)
      rw [hj] at hnot
      cases hnot
    | sweep =>
      -- The file that a sweep removes is of a token that it lists.
      refine h.unlisted j i hrow ?_
      rw [htask] at hremoves
      generalize (c.pos i).position = p at hremoves
      cases p with
      | block p => cases hremoves
      | sweep p =>
        cases p with
        | remove token diskPath rest expiredCount =>
          rw [← Option.some.inj hremoves]
          exact List.mem_cons_self
        | _ => cases hremoves
  · intro activePaths hscans hactive
    exact hcalm.scanned activePaths hscans j hj hactive

/-- A held block of another task keeps its row. -/
theorem Intact.row_other (h : Intact C maxAge task c) (hcalm : Calm C maxAge task c i)
    (hturn : Turn C maxAge task c i p' c') {j : ι}
    (hj : holding maxAge ownsRow c.store.now (task j) (c.pos j) = true) :
    (Assoc.find c'.store.rows (task j).token).isSome := by
  refine hturn.moves.row _ (fun hdeletes => ?_) (h.row j hj)
  cases htask : task i with
  | block b =>
    have hnot := ((hcalm.undone (by rw [htask]; rfl) j).2 hdeletes)
    rw [hj] at hnot
    cases hnot
  | sweep =>
    refine h.unlisted j i hj ?_
    rw [htask] at hdeletes
    generalize (c.pos i).position = p at hdeletes
    cases p with
    | block p => cases hdeletes
    | sweep p =>
      cases p with
      | delete token rest expiredCount =>
        rw [← Option.some.inj hdeletes]
        exact List.mem_cons_self
      | _ => cases hdeletes

/-- The row that the overwrite of another task has found stays. -/
theorem Intact.found_other (h : Intact C maxAge task c) (hcalm : Calm C maxAge task c i)
    (hturn : Turn C maxAge task c i p' c') {j : ι}
    (hj : awaitsRow C (task j) (c.pos j).position = true) :
    (Assoc.find c'.store.rows (task j).token).isSome := by
  refine hturn.moves.row _ (fun hdeletes => ?_) (h.found j hj)
  rw [hcalm.deleted _ hdeletes j rfl] at hj
  cases hj

/-- The row that the mover owns or is about to own. -/
theorem Intact.row_mover (h : Intact C maxAge task c) (hturn : Turn C maxAge task c i p' c')
    (hi : holding maxAge ownsRow c'.store.now (task i) (c'.pos i) = true) :
    ownsAt ownsRow (task i) (c.pos i).position = true ∨ awaitsRow C (task i) (c.pos i).position = true →
      (Assoc.find c.store.rows (task i).token).isSome := by
  rw [hturn.moves.now, hturn.self] at hi
  rintro (hbefore | hawaits)
  · exact h.row i (holding_arrive hturn.moves.returned hi hbefore)
  · exact h.found i hawaits

theorem Intact.row_self (h : Intact C maxAge task c) (hturn : Turn C maxAge task c i p' c')
    (hi : holding maxAge ownsRow c'.store.now (task i) (c'.pos i) = true) :
    (Assoc.find c'.store.rows (task i).token).isSome := by
  have howns := holding_owns hi
  rw [hturn.self, arrive_position] at howns
  exact (hturn.moves.ownRow howns (h.row_mover hturn hi)).1

/-- Whoever holds a row after the turn held it before, or it is the mover, which writes it now. -/
theorem Intact.holder_before (h : Intact C maxAge task c) (hturn : Turn C maxAge task c i p' c') {j : ι}
    (hj : holding maxAge ownsRow c'.store.now (task j) (c'.pos j) = true) :
    holding maxAge ownsRow c.store.now (task j) (c.pos j) = true ∨
    j = i ∧ recordsRow (task j) (c.pos j).position c.store.toStore = true ∧
      ∀ e ∈ c'.store.rows, e.1 = (task j).token → e.2.updatedAt = c.store.now := by
  by_cases hji : j = i
  · subst hji
    have howns := holding_owns hj
    have hrow := h.row_mover hturn hj
    rw [hturn.moves.now, hturn.self] at hj
    rw [hturn.self, arrive_position] at howns
    rcases (hturn.moves.ownRow howns hrow).2 with hbefore | hrecords
    · exact .inl (holding_arrive hturn.moves.returned hj hbefore)
    · exact .inr ⟨rfl, hrecords⟩
  · rw [hturn.moves.now, hturn.other j hji] at hj
    exact .inl hj

theorem Intact.cutoff_after (h : Intact C maxAge task c) (hturn : Turn C maxAge task c i p' c') {k : ι}
    {cutoff : Int} (hk : (c'.pos k).position = .sweep (.listStale cutoff)) :
    cutoff + maxAge ≤ c.store.now := by
  by_cases hki : k = i
  · subst hki
    rw [hturn.self, arrive_position] at hk
    rcases hturn.moves.cutoff cutoff hk with hbefore | ⟨-, rfl⟩
    · exact h.cutoff k cutoff hbefore
    · omega
  · rw [hturn.other k hki] at hk
    exact h.cutoff k cutoff hk

/-- No row of a block held so far is as old as the cutoff of a sweep. -/
theorem Intact.young_before (h : Intact C maxAge task c) (hcalm : Calm C maxAge task c i)
    (hturn : Turn C maxAge task c i p' c') (hage : 0 < maxAge) {j k : ι} {cutoff : Int}
    (hj : holding maxAge ownsRow c.store.now (task j) (c.pos j) = true)
    (hk : (c'.pos k).position = .sweep (.listStale cutoff)) {e : Str × BlockRow}
    (he : e ∈ c'.store.rows) (htoken : e.1 = (task j).token) : cutoff < e.2.updatedAt := by
  have hcutoff := h.cutoff_after hturn hk
  rcases hturn.moves.rows e he with hbefore | hnow
  · -- A sweep that has its cutoff had it before, or it is the mover, which takes it now.
    by_cases hki : k = i
    · subst hki
      rw [hturn.self, arrive_position] at hk
      rcases hturn.moves.cutoff cutoff hk with hpos | ⟨hstart, rfl⟩
      · exact h.young j k cutoff hj hpos e hbefore htoken
      · have hyoung := hcalm.started hstart j hj e hbefore htoken
        omega
    · rw [hturn.other k hki] at hk
      exact h.young j k cutoff hj hk e hbefore htoken
  · rw [hnow]
    omega

/-- What a sweep lists is older than every held row. -/
theorem Intact.not_listed (h : Intact C maxAge task c) {j k : ι}
    (hj : holding maxAge ownsRow c.store.now (task j) (c.pos j) = true) :
    (task j).token ∉ lists (c.pos k).position c.store := by
  intro hmem
  cases hpos : (c.pos k).position with
  | block p =>
    rw [hpos] at hmem
    cases hmem
  | sweep p =>
    rw [hpos] at hmem
    cases p with
    | listStale cutoff =>
      rw [lists, listStaleBlocks, List.map_map] at hmem
      obtain ⟨e, he, htoken⟩ := List.mem_map.mp hmem
      obtain ⟨he, hstale⟩ := List.mem_filter.mp he
      have hyoung := h.young j k cutoff hj hpos e he htoken
      simp only [decide_eq_true_eq] at hstale
      omega
    | _ => cases hmem

/-- Whoever holds a row is on no list: it was on none when the row was written, and is listed by no
sweep since. -/
theorem Intact.unlisted_after (h : Intact C maxAge task c) (hcalm : Calm C maxAge task c i)
    (hturn : Turn C maxAge task c i p' c') {j k : ι}
    (hj : holding maxAge ownsRow c'.store.now (task j) (c'.pos j) = true) :
    (task j).token ∉ listed (c'.pos k).position := by
  have hbefore : (task j).token ∉ listed (c.pos k).position ∧
      (task j).token ∉ lists (c.pos i).position c.store := by
    rcases h.holder_before hturn hj with hheld | ⟨rfl, hrecords, -⟩
    · exact ⟨h.unlisted j k hheld, h.not_listed hheld⟩
    · rw [lists_of_block (.inr hrecords)]
      exact ⟨hcalm.recorded hrecords k, List.not_mem_nil⟩
  by_cases hki : k = i
  · subst hki
    rw [hturn.self, arrive_position]
    exact fun hmem => (hturn.moves.listed _ hmem).elim hbefore.1 hbefore.2
  · rw [hturn.other k hki]
    exact hbefore.1

end turn

variable [DecidableEq ι]

theorem tick_intact (h : Intact C maxAge task c) (elapsed : Nat) :
    Intact C maxAge task (next C config maxAge task c (.tick elapsed)) where
  file j hj := h.file j (holding_tick hj)
  row j hj := h.row j (holding_tick hj)
  found := h.found
  unlisted j k hj := h.unlisted j k (holding_tick hj)
  young j k cutoff hj := h.young j k cutoff (holding_tick hj)
  cutoff k cutoff hk := by
    have hbefore := h.cutoff k cutoff hk
    show cutoff + maxAge ≤ ((c.store.now + elapsed : Nat) : Int)
    omega
  named := h.named
  pending := h.pending

theorem turn_next (i : ι) : Turn C maxAge task c i
    (advanceTask C config maxAge (task i) (c.pos i).position c.store).1
    (next C config maxAge task c (.turn i)) where
  moves := advanceTask_moves ..
  self := Threads.next_pos_self ..
  other _ hj := Threads.next_pos_of_ne _ hj c

theorem turn_intact (hage : 0 < maxAge) (i : ι) (h : Intact C maxAge task c)
    (hcalm : Calm C maxAge task c i) :
    Intact C maxAge task (next C config maxAge task c (.turn i)) := by
  have hturn : Turn C maxAge task c i _ (next C config maxAge task c (.turn i)) := turn_next i
  generalize next C config maxAge task c (.turn i) = c' at hturn ⊢
  generalize (advanceTask C config maxAge (task i) (c.pos i).position c.store).1 = p' at hturn
  constructor
  case file =>
    intro j hj
    rw [hturn.moves.now] at hj
    by_cases hji : j = i
    · subst hji
      rw [hturn.self] at hj
      refine hturn.moves.ownFile (by simpa using holding_owns hj) fun hbefore => ?_
      exact h.file j (holding_arrive hturn.moves.returned hj hbefore)
    · rw [hturn.other j hji] at hj
      exact h.file_other hcalm hturn hj
  case row =>
    intro j hj
    by_cases hji : j = i
    · subst hji
      exact h.row_self hturn hj
    · rw [hturn.moves.now, hturn.other j hji] at hj
      exact h.row_other hcalm hturn hj
  case found =>
    intro j hj
    by_cases hji : j = i
    · subst hji
      rw [hturn.self, arrive_position] at hj
      exact hturn.moves.found hj fun hbefore => h.found j hbefore
    · rw [hturn.other j hji] at hj
      exact h.found_other hcalm hturn hj
  case unlisted => exact fun j k hj => h.unlisted_after hcalm hturn hj
  case young =>
    intro j k cutoff hj hk e he htoken
    rcases h.holder_before hturn hj with hheld | ⟨rfl, -, hnow⟩
    · exact h.young_before hcalm hturn hage hheld hk he htoken
    · have hcutoff := h.cutoff_after hturn hk
      rw [hnow e he htoken]
      omega
  case cutoff =>
    intro k cutoff hk
    rw [hturn.moves.now]
    exact h.cutoff_after hturn hk
  case named => exact hturn.moves.named h.named
  case pending =>
    intro k
    by_cases hki : k = i
    · subst hki
      rw [hturn.self, arrive_position]
      exact hturn.moves.pending h.named (h.pending k)
    · rw [hturn.other k hki]
      exact h.pending k

omit [DecidableEq ι] in
theorem initial_intact {d : Disk} (h : Named d.toStore) : Intact C maxAge task (initial task d) := by
  have hstart : ∀ own : Call → Position → Bool, (∀ call, own call .start = false) →
      ∀ j, holding maxAge own d.now (task j) ⟨(task j).start, d.now⟩ = false := by
    intro own hown j
    rw [holding]
    cases task j with
    | sweep => rfl
    | block b => rw [Task.start, ownsAt, hown, Bool.false_and]
  have hrow : ∀ j, holding maxAge ownsRow d.now (task j) ⟨(task j).start, d.now⟩ = false :=
    hstart ownsRow fun call => by cases call <;> rfl
  have hsweeps : ∀ j, (task j).start = .block .start ∨ (task j).start = .sweep .start := by
    intro j
    cases task j with
    | sweep => exact .inr rfl
    | block b => exact .inl rfl
  constructor
  case file =>
    intro j hj
    rw [initial, hstart ownsFile (fun call => by cases call <;> rfl)] at hj
    cases hj
  case row =>
    intro j hj
    rw [initial, hrow] at hj
    cases hj
  case found =>
    intro j hj
    change awaitsRow C (task j) (task j).start = true at hj
    rcases hsweeps j with hp | hp <;> rw [hp] at hj <;> cases htask : task j <;> rw [htask] at hj
    · rename_i b
      rw [awaitsRow] at hj
      cases hcall : b.call <;> rw [hcall] at hj <;> cases hj
    · cases hj
    · cases hj
    · cases hj
  case unlisted =>
    intro j k hj
    rw [initial, hrow] at hj
    cases hj
  case young =>
    intro j k cutoff hj
    rw [initial, hrow] at hj
    cases hj
  case cutoff =>
    intro k cutoff hk
    change (task k).start = .sweep (.listStale cutoff) at hk
    rcases hsweeps k with hp | hp <;> rw [hp] at hk <;> cases hk
  case named => exact h
  case pending =>
    intro k e he
    change e ∈ pending (task k).start at he
    rcases hsweeps k with hp | hp <;> rw [hp] at he <;> cases he

/-- Nothing was acknowledged in the future. -/
theorem since_le_next (h : ∀ i, (c.pos i).since ≤ c.store.now) (e : Event ι) (i : ι) :
    ((next C config maxAge task c e).pos i).since ≤ (next C config maxAge task c e).store.now := by
  cases e with
  | tick elapsed => exact (h i).trans (Nat.le_add_right ..)
  | turn k =>
    have hturn : Turn C maxAge task c k _ (next C config maxAge task c (.turn k)) := turn_next k
    rw [hturn.moves.now]
    by_cases hik : i = k
    · subst hik
      rw [hturn.self, arrive]
      split
      · exact h i
      · exact Nat.le_refl _
    · rw [hturn.other i hik]
      exact h i

/-- In every run whose schedule and latencies are calm, every fresh block keeps its row and its
file. -/
theorem fresh_kept (C : Primitives) (config : Config) (maxAge : Nat) (task : ι → Task) (d : Disk)
    (hnamed : Named d.toStore) (events : List (Event ι))
    (hu : Along (next C config maxAge task) (Undisturbed C maxAge task) (initial task d) events) :
    Throughout (next C config maxAge task) (FreshKept maxAge task) (initial task d) events := by
  intro before after hevents
  rw [hevents, along_append] at hu
  rcases Nat.eq_zero_or_pos maxAge with hzero | hage
  · -- With no age allowed no block is fresh.
    have hsince : ∀ i, ((exec (next C config maxAge task) (initial task d) before).pos i).since ≤
        (exec (next C config maxAge task) (initial task d) before).store.now := by
      have hstep : ∀ (c : State ι) e, (∀ i, (c.pos i).since ≤ c.store.now) → True →
          ∀ i, ((next C config maxAge task c e).pos i).since ≤ (next C config maxAge task c e).store.now :=
        fun c e h _ => since_le_next h e
      exact exec_invariant hstep (fun i => Nat.le_refl _)
        (along_of_forall (fun _ _ => trivial) _ before)
    rintro token ⟨i, b, data, result, -, -, -, hfresh⟩
    have hle := hsince i
    omega
  · have hstep : ∀ c e, Intact C maxAge task c → Undisturbed C maxAge task c e →
        Intact C maxAge task (next C config maxAge task c e) := by
      intro c e h hu
      cases e with
      | turn i => exact turn_intact hage i h hu
      | tick elapsed => exact tick_intact h elapsed
    exact (exec_invariant hstep (initial_intact hnamed) hu.1).freshKept

end

/-- A block that was written long ago. -/
def oldDisk : Disk :=
  { Overwrite.sampleStore with
    now := 100
    mtimes := [(relativeDiskPath Overwrite.sampleToken, 0)] }

/-- A sweep, and an overwrite that the registry lets through. -/
def sweepAndPut : Fin 2 → Task
  | 0 => .sweep
  | 1 => .block ⟨.put Overwrite.sampleToken [3], fun _ _ => .ok (), Overwrite.sampleCalls⟩

abbrev sweepAndPutNext : State (Fin 2) → Event (Fin 2) → State (Fin 2) :=
  next PlainCrypto.plain Overwrite.sampleConfig 50 sweepAndPut

/-- A sweep, an overwrite that the registry refuses, and a later `put_block`. -/
def sweepAndPuts : Fin 3 → Task
  | 0 => .sweep
  | 1 => .block ⟨.put Overwrite.sampleToken [3],
      fun _ _ => .error (.service "overwrite verification rejected by registry" 409),
      Overwrite.sampleCalls⟩
  | 2 => .block ⟨.put Overwrite.sampleToken [4], fun _ _ => .ok (), Overwrite.sampleCalls⟩

abbrev sweepAndPutsNext : State (Fin 3) → Event (Fin 3) → State (Fin 3) :=
  next PlainCrypto.plain Overwrite.sampleConfig 50 sweepAndPuts

theorem oldDisk_named : Named oldDisk.toStore := by
  intro e he
  obtain rfl := List.mem_singleton.mp he
  rfl

/-- The sweep removes the old block while the overwrite waits to be refused. The `put_block` after it
creates the block anew, in the middle of the sweep, and the block stays. -/
def refusedAndCreated : List (Event (Fin 3)) :=
  ([1, 0, 0, 0, 0, 1, 2, 2, 2, 2, 2, 0, 0, 0] : List (Fin 3)).map .turn

theorem fresh_kept_apart :
    Along sweepAndPutsNext (Undisturbed PlainCrypto.plain 50 sweepAndPuts)
      (initial sweepAndPuts oldDisk) refusedAndCreated ∧
    Fresh 50 sweepAndPuts (exec sweepAndPutsNext (initial sweepAndPuts oldDisk) refusedAndCreated)
      Overwrite.sampleToken ∧
    Throughout sweepAndPutsNext (FreshKept 50 sweepAndPuts) (initial sweepAndPuts oldDisk)
      refusedAndCreated := by
  have hu : Along sweepAndPutsNext (Undisturbed PlainCrypto.plain 50 sweepAndPuts)
      (initial sweepAndPuts oldDisk) refusedAndCreated := by
    decide +kernel
  have hpos : (exec sweepAndPutsNext (initial sweepAndPuts oldDisk) refusedAndCreated).pos 2 =
      ⟨.block (.done (.ok [])), 100⟩ := by
    decide +kernel
  have hnow : (exec sweepAndPutsNext (initial sweepAndPuts oldDisk) refusedAndCreated).store.now =
      100 := by
    decide +kernel
  refine ⟨hu, ⟨2, _, [4], [], rfl, rfl, by rw [hpos], by rw [hpos, hnow]; decide⟩, ?_⟩
  exact fresh_kept PlainCrypto.plain Overwrite.sampleConfig 50 sweepAndPuts oldDisk oldDisk_named _ hu

/-- The sweep lists the old block, the overwrite is acknowledged, and the sweep removes what it
listed. -/
theorem fresh_block_swept :
    ¬ Throughout sweepAndPutNext (FreshKept 50 sweepAndPut) (initial sweepAndPut oldDisk)
      (([0, 0, 1, 1, 1, 1, 1, 0, 0] : List (Fin 2)).map .turn) := by
  intro h
  have hlast := h _ [] (List.append_nil _).symm
  generalize hend : exec sweepAndPutNext (initial sweepAndPut oldDisk)
    (([0, 0, 1, 1, 1, 1, 1, 0, 0] : List (Fin 2)).map .turn) = c at hlast
  have hpos : c.pos 1 = ⟨.block (.done (.ok [])), 100⟩ := by
    rw [← hend]
    decide +kernel
  have hnow : c.store.now = 100 := by
    rw [← hend]
    decide +kernel
  have hrow : Assoc.find c.store.rows Overwrite.sampleToken = none := by
    rw [← hend]
    decide +kernel
  have hfresh : Fresh 50 sweepAndPut c Overwrite.sampleToken :=
    ⟨1, _, [3], [], rfl, rfl, by rw [hpos], by rw [hpos, hnow]; decide⟩
  have hkept := (hlast _ hfresh).1
  rw [hrow] at hkept
  cases hkept

end TwelveC.Relay.FreshBlocks
