import TwelveC.Python
import TwelveC.Crypto

/-!
# The relay's disk files and block rows

A block is a file under a path made of its token and a row that names the path,
the hash and the size. Files and rows are changed by separate awaits. The access
events that the relay appends for its operators are left out: nothing here
reads them.
-/

namespace TwelveC.Relay

open Lib

/-- A row of the table `blocks`. -/
structure BlockRow where
  diskPath : Str
  blockHash : Str
  sizeBytes : Nat
  createdAt : Nat
  updatedAt : Nat
  deriving DecidableEq, Repr

/-- `now` is what `utc_now_iso` reads. -/
structure Store where
  files : Str → Option Bytes
  rows : List (Str × BlockRow)
  now : Nat

/-- How a `write_bytes` ends. A failed one leaves the file alone, or cut to the octets it has
written. -/
inductive WriteOutcome where
  | done
  | failed (kept : Option Nat)
  deriving DecidableEq, Repr

/-- The file after a write of `data` over `old`. -/
def WriteOutcome.left (outcome : WriteOutcome) (old : Option Bytes) (data : Bytes) : Option Bytes :=
  match outcome with
  | .done => some data
  | .failed none => old
  | .failed (some kept) => some (data.take kept)

def WriteOutcome.result : WriteOutcome → Except PyExn Unit
  | .done => .ok ()
  | .failed _ => .error .osError

namespace DiskBlockStore

/-- `<shard>/<token>.bin`, the shard being the first two characters. -/
def relativeDiskPath (token : Str) : Str := token.take 2 ++ [47] ++ token ++ ascii ".bin"

/-- One file per token. -/
theorem relativeDiskPath_inj {token other : Str}
    (h : relativeDiskPath token = relativeDiskPath other) : token = other := by
  have hlen := congrArg List.length h
  simp only [relativeDiskPath, List.length_append, List.length_take, List.length_singleton] at hlen
  have hl : token.length = other.length := by omega
  have h₁ := List.append_cancel_right h
  exact List.append_inj_right h₁ (by simp [hl])

def setFile (path : Str) (content : Option Bytes) (s : Store) : Store :=
  { s with files := Function.update s.files path content }

def write (token : Str) (data : Bytes) (outcome : WriteOutcome) : Py Store Unit := fun s =>
  let path := relativeDiskPath token
  (outcome.result, setFile path (outcome.left (s.files path) data) s)

def read (diskPath : Str) : Py Store (Option Bytes) := Py.read fun s => s.files diskPath

def remove (diskPath : Str) : Py Store Unit := Py.modify (setFile diskPath none)

@[simp] theorem setFile_files_self (path : Str) (content : Option Bytes) (s : Store) :
    (setFile path content s).files path = content := Function.update_self ..

theorem setFile_files_of_ne {path other : Str} (h : other ≠ path) (content : Option Bytes)
    (s : Store) : (setFile path content s).files other = s.files other :=
  Function.update_of_ne h ..

@[simp] theorem setFile_rows (path : Str) (content : Option Bytes) (s : Store) :
    (setFile path content s).rows = s.rows := rfl
@[simp] theorem setFile_now (path : Str) (content : Option Bytes) (s : Store) :
    (setFile path content s).now = s.now := rfl

/-- The last content stands. -/
@[simp] theorem setFile_setFile (path : Str) (content content' : Option Bytes) (s : Store) :
    setFile path content (setFile path content' s) = setFile path content s := by
  simp [setFile]

end DiskBlockStore

namespace BlockRepository

/-- `hashlib.sha256(data).hexdigest()` -/
def computeBlockHash (C : Primitives) (data : Bytes) : Str := Crypto.toHex (C.sha256 data)

def get (token : Str) : Py Store (Option BlockRow) := Py.read fun s => Assoc.find s.rows token

def count : Py Store Nat := Py.read fun s => s.rows.length

def setRows (rows : List (Str × BlockRow)) (s : Store) : Store := { s with rows }

/-- The token and the path are unique columns. -/
def Duplicate (s : Store) (token diskPath : Str) : Prop :=
  (Assoc.find s.rows token).isSome ∨ ∃ row ∈ s.rows, row.2.diskPath = diskPath

instance (s : Store) (token diskPath : Str) : Decidable (Duplicate s token diskPath) :=
  inferInstanceAs (Decidable (_ ∨ _))

def insertRow (token diskPath blockHash : Str) (sizeBytes : Nat) (s : Store) : Store :=
  setRows (s.rows ++ [(token, ⟨diskPath, blockHash, sizeBytes, s.now, s.now⟩)]) s

def updateRow (token blockHash : Str) (sizeBytes : Nat) (s : Store) : Store :=
  setRows (Assoc.modify s.rows token fun row =>
    { row with blockHash, sizeBytes, updatedAt := s.now }) s

/-- `failure` is a database failure other than a duplicate. -/
def insert (token diskPath blockHash : Str) (sizeBytes : Nat) (failure : Option PyExn) :
    Py Store Unit := fun s =>
  match failure with
  | some e => (.error e, s)
  | none =>
    if Duplicate s token diskPath then (.error .integrityError, s)
    else (.ok (), insertRow token diskPath blockHash sizeBytes s)

def update (token blockHash : Str) (sizeBytes : Nat) (failure : Option PyExn) : Py Store Unit :=
  fun s =>
    match failure with
    | some e => (.error e, s)
    | none => (.ok (), updateRow token blockHash sizeBytes s)

def delete (token : Str) : Py Store Unit := Py.modify fun s => setRows (Assoc.erase s.rows token) s

@[simp] theorem setRows_files (rows : List (Str × BlockRow)) (s : Store) :
    (setRows rows s).files = s.files := rfl
@[simp] theorem setRows_rows (rows : List (Str × BlockRow)) (s : Store) :
    (setRows rows s).rows = rows := rfl
@[simp] theorem updateRow_files (token blockHash : Str) (sizeBytes : Nat) (s : Store) :
    (updateRow token blockHash sizeBytes s).files = s.files := rfl
@[simp] theorem insertRow_files (token diskPath blockHash : Str) (sizeBytes : Nat) (s : Store) :
    (insertRow token diskPath blockHash sizeBytes s).files = s.files := rfl

theorem find_updateRow {s : Store} {token : Str} {row : BlockRow}
    (h : Assoc.find s.rows token = some row) (blockHash : Str) (sizeBytes : Nat) :
    Assoc.find (updateRow token blockHash sizeBytes s).rows token =
      some { row with blockHash, sizeBytes, updatedAt := s.now } := by
  rw [updateRow, setRows_rows, Assoc.find_modify, if_pos rfl, h]
  rfl

end BlockRepository
end TwelveC.Relay
