import TwelveC.Lib.Except
import Mathlib.Algebra.Group.Nat.Defs

/-!
# Constants, byte strings and exceptions of the transfer scheme

The C++ core reports failures by three exception classes. `compute_wire_layout`
catches `std::logic_error` only, so the class of an exception is kept beside its
text. `stuck` stands for a run that returns nothing at all: a division by zero,
or a loop whose fuel in the model is used up; `outOfBounds` for a slice or an
indexed read outside its buffer. That no accepted input gets there is proved
beside each loop and each reader.
-/

namespace TwelveC

abbrev Bytes := List UInt8

/-- `std::string` values are byte strings as well. -/
abbrev Str := List UInt8

instance : LawfulBEq Str := inferInstance

inductive Exn where
  | logicError (what : String)
  | invalidArgument (what : String)
  | runtimeError (what : String)
  | outOfBounds
  | stuck
  deriving DecidableEq, Repr

/-- `ex.what()`, for the three exception classes. -/
def Exn.what : Exn → Option String
  | .logicError what => some what
  | .invalidArgument what => some what
  | .runtimeError what => some what
  | _ => none

/-- `catch (const std::logic_error&)`: `std::invalid_argument` derives from it. -/
def Exn.isLogicError : Exn → Bool
  | .logicError _ => true
  | .invalidArgument _ => true
  | _ => false

variable {α β : Type}

@[simp] theorem ok_bind (a : α) (f : α → Except Exn β) : (Except.ok a >>= f) = f a := rfl
@[simp] theorem error_bind (e : Exn) (f : α → Except Exn β) :
    ((Except.error e : Except Exn α) >>= f) = .error e := rfl
@[simp] theorem pure_eq_ok (a : α) : (pure a : Except Exn α) = .ok a := rfl
@[simp] theorem throw_eq_error (e : Exn) : (throw e : Except Exn α) = .error e := rfl

/-- Inversion of a successful `>>=`. -/
theorem bind_eq_ok {x : Except Exn α} {f : α → Except Exn β} {b : β} :
    (x >>= f) = .ok b ↔ ∃ a, x = .ok a ∧ f a = .ok b :=
  Lib.bind_ok_iff

theorem mapM_eq_ok {f : α → Except Exn β} {l : List α} {bs : List β} :
    l.mapM f = .ok bs ↔ List.Forall₂ (fun a b => f a = .ok b) l bs :=
  Lib.mapM_ok_iff

/-- `if (c) { throw e; }` -/
def throwIf (c : Prop) [Decidable c] (e : Exn) : Except Exn Unit :=
  if c then .error e else .ok ()

@[simp] theorem throwIf_eq_ok (c : Prop) [Decidable c] (e : Exn) (u : Unit) :
    throwIf c e = .ok u ↔ ¬ c := by
  by_cases h : c <;> simp [throwIf, h]

@[simp] theorem throwIf_bind_eq_ok {β : Type} (c : Prop) [Decidable c] (e : Exn)
    (f : Unit → Except Exn β) (b : β) :
    (throwIf c e >>= f) = .ok b ↔ ¬ c ∧ f () = .ok b := by
  by_cases h : c <;> simp [throwIf, h]

theorem throwIf_pos {c : Prop} [Decidable c] (h : c) (e : Exn) : throwIf c e = .error e := if_pos h

theorem throwIf_neg {c : Prop} [Decidable c] (h : ¬ c) (e : Exn) : throwIf c e = .ok () := if_neg h

def kCredentialLength : Nat := 12
def kSearchCodeLength : Nat := 6
def kKeyCodeLength : Nat := 6
def kKeyBytes : Nat := 32
def kHashBytes : Nat := 32
def kSaltRandBytes : Nat := 16
def kGcmNonceBytes : Nat := 12
def kGcmTagBytes : Nat := 16
def kGcmEnvelopeBytes : Nat := kGcmNonceBytes + kGcmTagBytes
def kRelayMaxBodyBytesCap : Nat := 32 * 1024 * 1024
def kMinBlockSizeDivisor : Nat := 8
def kWireBlockRef : Nat := 4 * 1024 * 1024
def kMaxTokenAdjust : Nat := 256
def kMaxPlaintextPaddingForWireLayout : Nat := 16 * 1024 * 1024
def kSmbMagic : Nat := 0x31433232
def kSmbVersion : UInt8 := 2
def kMaxOriginalFileNameBytes : Nat := 128
def kSmPlainBytes : Nat := 345
def kSmEncBytes : Nat := kSmPlainBytes + kGcmEnvelopeBytes
def kV2SegmentCodeWholeFile : Nat := 0
def kV21SegmentCodeMin : Nat := 1
def kV21SegmentCodeMax : Nat := 5
def kV21FileNamePayloadBytes : Nat := 120
def kV21SegmentCodeFieldOffset : Nat := 120

@[simp] theorem kGcmNonceBytes_eq : kGcmNonceBytes = 12 := rfl
@[simp] theorem kGcmTagBytes_eq : kGcmTagBytes = 16 := rfl
@[simp] theorem kKeyBytes_eq : kKeyBytes = 32 := rfl
@[simp] theorem kHashBytes_eq : kHashBytes = 32 := rfl
@[simp] theorem kGcmEnvelopeBytes_eq : kGcmEnvelopeBytes = 28 := rfl
@[simp] theorem kSmEncBytes_eq : kSmEncBytes = 373 := rfl

def kSlowKdfIterations : Nat := 100000

/-- The octets of an ASCII text. -/
def ascii (text : String) : Str := text.toList.map fun c => UInt8.ofNat c.toNat

def kSaltFixKey : Str := ascii "12C-v2-KEY-SALT"
def kSaltFixSearch : Str := ascii "12C-v2-SEARCH-SALT"

/-- Arithmetic of the build: a `size_t` value, a `size_t` difference and a cast
to `std::uint32_t`, each from its exact integer value. -/
structure Machine where
  size : Nat → Nat
  sizeSub : Nat → Nat → Nat
  u32 : Nat → Nat

/-- Integers without bounds. -/
def Machine.exact : Machine := ⟨id, (· - ·), id⟩

/-- The native 64-bit build. No buffer reaches `2 ^ 64` octets, so only a difference below zero
and the casts to 32 bits can leave the exact value. -/
def Machine.native : Machine :=
  ⟨id, fun a b => if b ≤ a then a - b else 2 ^ 64 - (b - a), (· % 2 ^ 32)⟩

/-- The WebAssembly build: `std::size_t` has 32 bits. -/
def Machine.wasm32 : Machine :=
  ⟨(· % 2 ^ 32), fun a b => (a + (2 ^ 32 - b)) % 2 ^ 32, (· % 2 ^ 32)⟩

@[simp] theorem exact_size (n : Nat) : Machine.exact.size n = n := by simp [Machine.exact]
@[simp] theorem exact_sizeSub (a b : Nat) : Machine.exact.sizeSub a b = a - b := by
  simp [Machine.exact]
@[simp] theorem exact_u32 (n : Nat) : Machine.exact.u32 n = n := by simp [Machine.exact]
@[simp] theorem native_size (n : Nat) : Machine.native.size n = n := by simp [Machine.native]
@[simp] theorem native_u32 (n : Nat) : Machine.native.u32 n = n % 2 ^ 32 := by
  simp [Machine.native]

theorem native_sizeSub_le {a b : Nat} (h : b ≤ a) : Machine.native.sizeSub a b = a - b := by
  simp [Machine.native, h]

theorem native_sizeSub_gt {a b : Nat} (h : a < b) :
    Machine.native.sizeSub a b = 2 ^ 64 - (b - a) := by
  simp [Machine.native, show ¬ b ≤ a by omega]

theorem wasm32_size_eq (n : Nat) : Machine.wasm32.size n = n % 2 ^ 32 := rfl

theorem wasm32_size {n : Nat} (h : n < 2 ^ 32) : Machine.wasm32.size n = n := Nat.mod_eq_of_lt h

/-- The octets `[first, last)` of a buffer. -/
def slice (buffer : Bytes) (first last : Nat) : Except Exn Bytes :=
  if first ≤ last ∧ last ≤ buffer.length then .ok ((buffer.drop first).take (last - first))
  else .error .outOfBounds

/-- `buffer[index]` -/
def byteAt (buffer : Bytes) (index : Nat) : Except Exn UInt8 :=
  match buffer[index]? with
  | some byte => .ok byte
  | none => .error .outOfBounds

end TwelveC
