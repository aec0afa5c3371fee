import TwelveC.Relay.Overwrite
import TwelveC.Lib.Threads
import Mathlib.Logic.Relation

/-!
# Concurrent calls of the block service

Every await of `put_block` and `get_block` is a position at which other calls
may take over. Two creations of one token both find no row; the one whose
insert fails then removes the file and the row of the other.
-/

namespace TwelveC.Relay.Interleaving

open Lib Lib.Run BlockAuth BlockService DiskBlockStore BlockRepository

inductive Call where
  | put (token : Str) (data : Bytes)
  | get (token : Str)
  deriving DecidableEq, Repr

def Call.token : Call → Str
  | .put token _ => token
  | .get token => token

/-- The await that a call is at. `done` holds what it returned or raised; a `put_block` returns
nothing. -/
inductive Position where
  | start
  | verify (existing : BlockRow)
  | overwriteWrite (existing : BlockRow)
  | overwriteUpdate (existing : BlockRow)
  | overwriteRegister (existing : BlockRow)
  | restoreRead (existing : BlockRow) (exc : PyExn)
  | restoreWrite (previous : Bytes) (exc : PyExn)
  | count
  | createWrite
  | createInsert
  | createRegister
  | rollbackRemove (exc : PyExn)
  | rollbackDelete (exc : PyExn)
  | readFile (record : BlockRow)
  | deleteRow
  | done (result : Except PyExn Bytes)
  deriving DecidableEq

def failed (exc : PyExn) : Position := .done (.error exc)

/-- Where an await leads, by its result. -/
def goto {α : Type} (r : Except PyExn α × Store) (ok : α → Position) (error : PyExn → Position) :
    Position × Store :=
  match r with
  | (.ok a, s) => (ok a, s)
  | (.error e, s) => (error e, s)

variable (C : Primitives) (config : Config) (verify : Str → Str → Except PyExn Unit) (calls : Calls)

/-- The sizes are checked before the first await, the lookup of the row. -/
def lookup (token : Str) (data : Bytes) : Py Store (Option BlockRow) := do
  Py.raiseIf (data.length = 0) (.service "empty body" 400)
  Py.raiseIf (config.maxBodyBytes < data.length)
    (.service ("body exceeds maxBodyBytes (" ++ toString config.maxBodyBytes ++ ")") 413)
  BlockRepository.get token

def checkCapacity : Py Store Unit := do
  let stored ← BlockRepository.count
  Py.raiseIf (config.maxBlocks ≤ stored) (.service "relay storage capacity reached" 507)

def advancePut (token : Str) (data : Bytes) : Position → Store → Position × Store
  | .start, s => goto (lookup config token data s)
      (fun existing => match existing with
        | some row => .verify row
        | none => .count) failed
  | .verify row, s => goto (Py.ofExcept (verify token (computeBlockHash C data)) s)
      (fun _ => .overwriteWrite row) failed
  | .overwriteWrite row, s => goto (DiskBlockStore.write token data calls.write s)
      (fun _ => .overwriteUpdate row) (.restoreRead row)
  | .overwriteUpdate row, s =>
    goto (BlockRepository.update token (computeBlockHash C data) data.length calls.rowWrite s)
      (fun _ => .overwriteRegister row) (.restoreRead row)
  | .overwriteRegister row, s => goto (Py.ofExcept calls.register s)
      (fun _ => .done (.ok [])) (.restoreRead row)
  | .restoreRead row exc, s =>
    if row.diskPath = [] then (failed (reraise exc), s)
    else goto (DiskBlockStore.read row.diskPath s)
      (fun previous => match previous with
        | some bytes => .restoreWrite bytes exc
        | none => failed (reraise exc)) failed
  | .restoreWrite previous exc, s => goto (DiskBlockStore.write token previous calls.rollbackWrite s)
      (fun _ => failed (reraise exc)) failed
  | .count, s => goto (checkCapacity config s) (fun _ => .createWrite) failed
  | .createWrite, s => goto (DiskBlockStore.write token data calls.write s)
      (fun _ => .createInsert) .rollbackRemove
  | .createInsert, s =>
    goto (BlockRepository.insert token (relativeDiskPath token) (computeBlockHash C data) data.length
      calls.rowWrite s) (fun _ => .createRegister) .rollbackRemove
  | .createRegister, s => goto (Py.ofExcept calls.register s)
      (fun _ => .done (.ok [])) .rollbackRemove
  | .rollbackRemove exc, s => goto (DiskBlockStore.remove (relativeDiskPath token) s)
      (fun _ => .rollbackDelete exc) failed
  | .rollbackDelete exc, s => goto (BlockRepository.delete token s)
      (fun _ => failed (reraise exc)) failed
  | position, s => (position, s)

def advanceGet (token : Str) : Position → Store → Position × Store
  | .start, s => goto (BlockRepository.get token s)
      (fun record => match record with
        | some row => .readFile row
        | none => failed (.service "block not found" 404)) failed
  | .readFile row, s => goto (DiskBlockStore.read row.diskPath s)
      (fun data => match data with
        | some bytes => .done (.ok bytes)
        | none => .deleteRow) failed
  | .deleteRow, s => goto (BlockRepository.delete token s)
      (fun _ => failed (.service "block not found" 404)) failed
  | position, s => (position, s)

def advance : Call → Position → Store → Position × Store
  | .put token data => advancePut C config verify calls token data
  | .get token => advanceGet token

section looks

variable {config}

theorem lookup_store (token : Str) (data : Bytes) (s : Store) :
    (lookup config token data s).2 = s := by
  rw [lookup]
  by_cases h₁ : data.length = 0
  · rw [Py.bind_error (Py.raiseIf_pos h₁ _ s)]
  · rw [Py.bind_ok (Py.raiseIf_neg h₁ _ s)]
    by_cases h₂ : config.maxBodyBytes < data.length
    · rw [Py.bind_error (Py.raiseIf_pos h₂ _ s)]
    · rw [Py.bind_ok (Py.raiseIf_neg h₂ _ s)]
      rfl

theorem lookup_found {token : Str} {data : Bytes} {s s' : Store} {existing : Option BlockRow}
    (h : lookup config token data s = (.ok existing, s')) : Assoc.find s.rows token = existing := by
  rw [lookup] at h
  by_cases h₁ : data.length = 0
  · rw [Py.bind_error (Py.raiseIf_pos h₁ _ s)] at h
    cases h
  rw [Py.bind_ok (Py.raiseIf_neg h₁ _ s)] at h
  by_cases h₂ : config.maxBodyBytes < data.length
  · rw [Py.bind_error (Py.raiseIf_pos h₂ _ s)] at h
    cases h
  rw [Py.bind_ok (Py.raiseIf_neg h₂ _ s)] at h
  exact Except.ok.inj (Prod.mk.inj h).1

theorem checkCapacity_store (s : Store) : (checkCapacity config s).2 = s := by
  have hcount : BlockRepository.count s = (.ok s.rows.length, s) := rfl
  rw [checkCapacity, Py.bind_ok hcount, Py.raiseIf]
  split <;> rfl

end looks

/-- Where a call ends whose sequential result is `r`. -/
def finish (r : Except PyExn Unit × Store) : Position × Store := (.done (r.1.map fun _ => []), r.2)

/-- One await after the other, nothing in between. -/
def Reaches (call : Call) : Position × Store → Position × Store → Prop :=
  Relation.ReflTransGen fun p q => advance C config verify calls call p.1 p.2 = q

section alone

variable {C config verify calls} {s : Store} {token : Str} {data : Bytes}

/-- The handler of a failed creation. -/
def rollback (token : Str) (exc : PyExn) : Py Store Unit := do
  DiskBlockStore.remove (relativeDiskPath token)
  BlockRepository.delete token
  Py.raise (reraise exc)

theorem reaches_rollback (exc : PyExn) :
    Reaches C config verify calls (.put token data) (.rollbackRemove exc, s)
      (finish (rollback token exc s)) :=
  .head rfl (.head rfl .refl)

/-- The handler of a failed overwrite. -/
def undo (calls : Calls) (token : Str) (row : BlockRow) (exc : PyExn) : Py Store Unit := do
  restore calls token row.diskPath
  Py.raise (reraise exc)

theorem reaches_undo (row : BlockRow) (exc : PyExn) :
    Reaches C config verify calls (.put token data) (.restoreRead row exc, s)
      (finish (undo calls token row exc s)) := by
  rw [undo, restore]
  by_cases hpath : row.diskPath = []
  · rw [if_neg (by simp [hpath])]
    exact .single (by rw [advance, advancePut, if_pos hpath]; rfl)
  · rw [if_pos hpath]
    have hread : DiskBlockStore.read row.diskPath s = (.ok (s.files row.diskPath), s) := rfl
    cases hfile : s.files row.diskPath with
    | none =>
      rw [hfile] at hread
      refine .single ?_
      rw [advance, advancePut, if_neg hpath, hread, finish,
        Py.bind_ok ((Py.bind_ok hread).trans (Py.pure_run () s))]
      rfl
    | some previous =>
      rw [hfile] at hread
      refine .head (b := (.restoreWrite previous exc, s)) ?_ (.single ?_)
      · rw [advance, advancePut, if_neg hpath, hread]
        rfl
      · cases hw : DiskBlockStore.write token previous calls.rollbackWrite s with
        | mk r s' =>
          rw [advance, advancePut, hw]
          cases r with
          | ok u =>
            rw [finish, Py.bind_ok ((Py.bind_ok hread).trans hw)]
            rfl
          | error e =>
            rw [finish, Py.bind_error ((Py.bind_ok hread).trans hw)]
            rfl

theorem reaches_createRegister :
    Reaches C config verify calls (.put token data) (.createRegister, s)
      (finish (Py.tryExcept (Py.ofExcept calls.register) (rollback token) s)) := by
  cases h : calls.register with
  | ok u =>
    refine .single ?_
    rw [advance, advancePut, h]
    rfl
  | error e =>
    refine .head ?_ (reaches_rollback e)
    rw [advance, advancePut, h]
    rfl

theorem reaches_createInsert :
    Reaches C config verify calls (.put token data) (.createInsert, s)
      (finish (Py.tryExcept (do
        BlockRepository.insert token (relativeDiskPath token) (computeBlockHash C data) data.length
          calls.rowWrite
        Py.ofExcept calls.register) (rollback token) s)) := by
  cases h : BlockRepository.insert token (relativeDiskPath token) (computeBlockHash C data) data.length
    calls.rowWrite s with
  | mk r s' =>
    cases r with
    | ok u =>
      rw [Py.tryExcept_bind_ok h]
      exact .head (by rw [advance, advancePut, h]; rfl) reaches_createRegister
    | error e =>
      rw [Py.tryExcept_bind_error h]
      exact .head (by rw [advance, advancePut, h]; rfl) (reaches_rollback e)

theorem reaches_create :
    Reaches C config verify calls (.put token data) (.count, s)
      (finish (create config calls token data (computeBlockHash C data) s)) := by
  have hcount : BlockRepository.count s = (.ok s.rows.length, s) := rfl
  rw [create, Py.bind_ok hcount]
  by_cases hfull : config.maxBlocks ≤ s.rows.length
  · rw [Py.bind_error (Py.raiseIf_pos hfull _ s)]
    refine .single ?_
    rw [advance, advancePut, checkCapacity, Py.bind_ok hcount, Py.raiseIf_pos hfull]
    rfl
  · rw [Py.bind_ok (Py.raiseIf_neg hfull _ s)]
    refine .head (b := (.createWrite, s)) ?_ ?_
    · rw [advance, advancePut, checkCapacity, Py.bind_ok hcount, Py.raiseIf_neg hfull]
      rfl
    · cases h : DiskBlockStore.write token data calls.write s with
      | mk r s' =>
        cases r with
        | ok u =>
          refine .head (by rw [advance, advancePut, h]) ?_
          rw [Py.tryExcept_bind_ok h]
          exact reaches_createInsert
        | error e =>
          refine .head (by rw [advance, advancePut, h]) ?_
          rw [Py.tryExcept_bind_error h]
          exact reaches_rollback e

theorem reaches_overwriteRegister (row : BlockRow) :
    Reaches C config verify calls (.put token data) (.overwriteRegister row, s)
      (finish (Py.tryExcept (Py.ofExcept calls.register) (undo calls token row) s)) := by
  cases h : calls.register with
  | ok u =>
    refine .single ?_
    rw [advance, advancePut, h]
    rfl
  | error e =>
    refine .head ?_ (reaches_undo row e)
    rw [advance, advancePut, h]
    rfl

theorem reaches_overwrite (row : BlockRow) :
    Reaches C config verify calls (.put token data) (.overwriteWrite row, s)
      (finish (overwrite calls token data (computeBlockHash C data) row s)) := by
  rw [overwrite]
  cases h : DiskBlockStore.write token data calls.write s with
  | mk r s' =>
    cases r with
    | error e =>
      rw [Py.tryExcept_bind_error h]
      exact .head (by rw [advance, advancePut, h]; rfl) (reaches_undo row e)
    | ok u =>
      rw [Py.tryExcept_bind_ok h]
      refine .head (b := (.overwriteUpdate row, s')) (by rw [advance, advancePut, h]; rfl) ?_
      cases h' : BlockRepository.update token (computeBlockHash C data) data.length calls.rowWrite s' with
      | mk r s'' =>
        cases r with
        | error e =>
          rw [Py.tryExcept_bind_error h']
          exact .head (by rw [advance, advancePut, h']; rfl) (reaches_undo row e)
        | ok u =>
          rw [Py.tryExcept_bind_ok h']
          exact .head (by rw [advance, advancePut, h']; rfl) (reaches_overwriteRegister row)

/-- Left alone, the awaits of a `put_block` amount to its sequential run. -/
theorem reaches_put :
    Reaches C config verify calls (.put token data) (.start, s)
      (finish (putBlockWith C config calls verify token data s)) := by
  rw [putBlockWith]
  by_cases hempty : data.length = 0
  · rw [Py.bind_error (Py.raiseIf_pos hempty _ s)]
    refine .single ?_
    rw [advance, advancePut, lookup, Py.bind_error (Py.raiseIf_pos hempty _ s)]
    rfl
  by_cases hlarge : config.maxBodyBytes < data.length
  · rw [Py.bind_ok (Py.raiseIf_neg hempty _ s), Py.bind_error (Py.raiseIf_pos hlarge _ s)]
    refine .single ?_
    rw [advance, advancePut, lookup, Py.bind_ok (Py.raiseIf_neg hempty _ s),
      Py.bind_error (Py.raiseIf_pos hlarge _ s)]
    rfl
  have hlookup : lookup config token data s = (.ok (Assoc.find s.rows token), s) := by
    rw [lookup, Py.bind_ok (Py.raiseIf_neg hempty _ s), Py.bind_ok (Py.raiseIf_neg hlarge _ s)]
    rfl
  have hget : BlockRepository.get token s = (.ok (Assoc.find s.rows token), s) := rfl
  rw [Py.bind_ok (Py.raiseIf_neg hempty _ s), Py.bind_ok (Py.raiseIf_neg hlarge _ s), Py.bind_ok hget]
  cases hrow : Assoc.find s.rows token with
  | none =>
    refine .head (b := (.count, s)) ?_ ?_
    · rw [advance, advancePut, hlookup, hrow]
      rfl
    · show Reaches C config verify calls _ _ (finish (create config calls token data _ s))
      exact reaches_create
  | some row =>
    refine .head (b := (.verify row, s)) ?_ ?_
    · rw [advance, advancePut, hlookup, hrow]
      rfl
    · cases hv : verify token (computeBlockHash C data) with
      | error e => exact .single (by rw [advance, advancePut, hv]; rfl)
      | ok u => exact .head (by rw [advance, advancePut, hv]; rfl) (reaches_overwrite row)

end alone

end TwelveC.Relay.Interleaving
