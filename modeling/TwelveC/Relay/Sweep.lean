import TwelveC.Relay.Interleaving

/-!
# The sweep of expired blocks among the other calls

`sweep_expired_blocks` lists the rows whose last write is too old, removes file
and row of each, and then unlinks the old files that no row names. Each await is
a position at which other calls take over. Times are in microseconds; a row's
text of its time is compared as the time, which orders the same way.
-/

namespace TwelveC.Relay.Sweep

open Lib Lib.Run BlockAuth BlockService DiskBlockStore BlockRepository Interleaving

/-- The stores, and the `.bin` files below the data directory with their modification times. -/
structure Disk extends Store where
  mtimes : List (Str × Nat)

structure BlockSweepResult where
  expiredFromDb : Nat
  orphanFiles : Nat
  deriving DecidableEq, Repr

/-- The await that a sweep is at. `remove` and `delete` hold what is left of the listed rows. -/
inductive SweepPosition where
  | start
  | listStale (cutoff : Int)
  | remove (token diskPath : Str) (rest : List (Str × Str)) (expiredCount : Nat)
  | delete (token : Str) (rest : List (Str × Str)) (expiredCount : Nat)
  | listDiskPaths (expiredCount : Nat)
  | orphanFiles (activePaths : List Str) (expiredCount : Nat)
  | recordRun (result : BlockSweepResult)
  | done (result : BlockSweepResult)
  deriving DecidableEq

def listStaleBlocks (updatedBefore : Int) (s : Store) : List (Str × Str) :=
  (s.rows.filter fun e => (e.2.updatedAt : Int) ≤ updatedBefore).map fun e => (e.1, e.2.diskPath)

def listDiskPaths (s : Store) : List Str := s.rows.map fun e => e.2.diskPath

/-- `path.unlink()` -/
def unlink (path : Str) (d : Disk) : Disk :=
  { setFile path none d.toStore with mtimes := Assoc.erase d.mtimes path }

/-- One file of the snapshot, with the files removed so far. -/
def sweepOrphanFile (activePaths : List Str) (cutoff : Int) (acc : Nat × Disk) (file : Str × Nat) :
    Nat × Disk :=
  if acc.2.files file.1 = none then acc
  else if file.1 ∈ activePaths then acc
  else if cutoff < file.2 then acc
  else (acc.1 + 1, unlink file.1 acc.2)

def sweepOrphanFiles (activePaths : List Str) (maxAge : Nat) (d : Disk) : Nat × Disk :=
  d.mtimes.foldl (sweepOrphanFile activePaths (d.now - maxAge)) (0, d)

theorem sweepOrphanFile_rows (activePaths : List Str) (cutoff : Int) (acc : Nat × Disk)
    (file : Str × Nat) : (sweepOrphanFile activePaths cutoff acc file).2.rows = acc.2.rows ∧
      (sweepOrphanFile activePaths cutoff acc file).2.now = acc.2.now := by
  rw [sweepOrphanFile]
  split
  · exact ⟨rfl, rfl⟩
  split
  · exact ⟨rfl, rfl⟩
  split <;> exact ⟨rfl, rfl⟩

/-- The scan touches files only. -/
theorem foldl_sweepOrphanFile (activePaths : List Str) (cutoff : Int) (files : List (Str × Nat))
    (acc : Nat × Disk) :
    (files.foldl (sweepOrphanFile activePaths cutoff) acc).2.rows = acc.2.rows ∧
      (files.foldl (sweepOrphanFile activePaths cutoff) acc).2.now = acc.2.now := by
  induction files generalizing acc with
  | nil => exact ⟨rfl, rfl⟩
  | cons file rest ih =>
    obtain ⟨hrows, hnow⟩ := sweepOrphanFile_rows activePaths cutoff acc file
    rw [List.foldl_cons, (ih _).1, (ih _).2]
    exact ⟨hrows, hnow⟩

theorem sweepOrphanFiles_rows (activePaths : List Str) (maxAge : Nat) (d : Disk) :
    (sweepOrphanFiles activePaths maxAge d).2.rows = d.rows :=
  (foldl_sweepOrphanFile ..).1

/-- The head of the loop over the listed rows. -/
def nextStale : List (Str × Str) → Nat → SweepPosition
  | [], expiredCount => .listDiskPaths expiredCount
  | (token, diskPath) :: rest, expiredCount => .remove token diskPath rest expiredCount

def advanceSweep (maxAge : Nat) : SweepPosition → Disk → SweepPosition × Disk
  | .start, d => (.listStale (d.now - maxAge), d)
  | .listStale cutoff, d => (nextStale (listStaleBlocks cutoff d.toStore) 0, d)
  | .remove token diskPath rest expiredCount, d => (.delete token rest expiredCount, unlink diskPath d)
  | .delete token rest expiredCount, d =>
    (nextStale rest (expiredCount + 1), { d with toStore := setRows (Assoc.erase d.rows token) d.toStore })
  | .listDiskPaths expiredCount, d => (.orphanFiles (listDiskPaths d.toStore) expiredCount, d)
  | .orphanFiles activePaths expiredCount, d =>
    let r := sweepOrphanFiles activePaths maxAge d
    (.recordRun ⟨expiredCount, r.1⟩, r.2)
  | .recordRun result, d => (.done result, d)
  | .done result, d => (.done result, d)

theorem advanceSweep_now (maxAge : Nat) (p : SweepPosition) (d : Disk) :
    (advanceSweep maxAge p d).2.now = d.now := by
  cases p with
  | orphanFiles activePaths expiredCount => exact (foldl_sweepOrphanFile ..).2
  | _ => rfl

/-- A write that opens the file sets its time. -/
def touch (path : Str) (outcome : WriteOutcome) (d : Disk) : List (Str × Nat) :=
  match outcome with
  | .failed none => d.mtimes
  | _ => Assoc.erase d.mtimes path ++ [(path, d.now)]

def stamped (calls : Calls) : Call → Position → Disk → List (Str × Nat)
  | .put token _, .createWrite, d => touch (relativeDiskPath token) calls.write d
  | .put token _, .overwriteWrite _, d => touch (relativeDiskPath token) calls.write d
  | .put token _, .restoreWrite _ _, d => touch (relativeDiskPath token) calls.rollbackWrite d
  | .put token _, .rollbackRemove _, d => Assoc.erase d.mtimes (relativeDiskPath token)
  | _, _, d => d.mtimes

/-- A call of the block service, with how its `_verify_overwrite` ends and what it meets outside. -/
structure BlockCall where
  call : Call
  verify : Str → Str → Except PyExn Unit
  calls : Calls

inductive Task where
  | block (b : BlockCall)
  | sweep

def Task.token : Task → Str
  | .block b => b.call.token
  | .sweep => []

inductive TaskPosition where
  | block (p : Position)
  | sweep (p : SweepPosition)
  deriving DecidableEq

/-- Where a task is, and since when. -/
structure Await where
  position : TaskPosition
  since : Nat
  deriving DecidableEq

variable (C : Primitives) (config : Config) (maxAge : Nat)

def advanceBlock (b : BlockCall) (p : Position) (d : Disk) : Position × Disk :=
  let r := advance C config b.verify b.calls b.call p d.toStore
  (r.1, { toStore := r.2, mtimes := stamped b.calls b.call p d })

def advanceTask (task : Task) (p : TaskPosition) (d : Disk) : TaskPosition × Disk :=
  match task, p with
  | .block b, .block p => let r := advanceBlock C config b p d; (.block r.1, r.2)
  | .sweep, .sweep p => let r := advanceSweep maxAge p d; (.sweep r.1, r.2)
  | _, p => (p, d)

/-- The time stays with a task that has returned. -/
def arrive (w : Await) (position : TaskPosition) (now : Nat) : Await :=
  if position = w.position then w else ⟨position, now⟩

@[simp] theorem arrive_position (w : Await) (position : TaskPosition) (now : Nat) :
    (arrive w position now).position = position := by
  rw [arrive]
  split
  case isTrue h => exact h.symm
  case isFalse => rfl

inductive Event (ι : Type) where
  | turn (i : ι)
  | tick (elapsed : Nat)

section system

variable {ι : Type} [DecidableEq ι] (task : ι → Task)

abbrev State (ι : Type) : Type := Threads.Conf ι Disk Await

def turnTask (i : ι) (w : Await) (d : Disk) : Await × Disk :=
  let r := advanceTask C config maxAge (task i) w.position d
  (arrive w r.1 d.now, r.2)

def next (c : State ι) : Event ι → State ι
  | .turn i => Threads.next (turnTask C config maxAge task) c i
  | .tick elapsed => { c with store := { c.store with now := c.store.now + elapsed } }

def Task.start : Task → TaskPosition
  | .block _ => .block .start
  | .sweep => .sweep .start

def initial (d : Disk) : State ι := ⟨d, fun i => ⟨(task i).start, d.now⟩⟩

end system

end TwelveC.Relay.Sweep
