import TwelveC.Types
import TwelveC.Lib.Assoc
import Mathlib.Data.List.Basic

/-!
# Cryptographic functions

OpenSSL is a parameter: `Primitives` holds the functions the core calls, and
`Primitives.Laws` what their documentation promises. Random octets come from a
tape that `random_bytes` consumes from the front.
-/

namespace TwelveC

structure CredentialParts where
  searchCode : Str
  keyCode : Str
  deriving DecidableEq, Repr

structure EncryptedBlob where
  nonce : Bytes
  ciphertext : Bytes
  tag : Bytes
  deriving DecidableEq, Repr

def EncryptedBlob.pack (blob : EncryptedBlob) : Bytes := blob.nonce ++ blob.tag ++ blob.ciphertext

def EncryptedBlob.unpack (packed : Bytes) : Except Exn EncryptedBlob := do
  throwIf (packed.length < kGcmNonceBytes + kGcmTagBytes)
    (.runtimeError "encrypted blob too short")
  return { nonce := packed.take kGcmNonceBytes,
           tag := (packed.drop kGcmNonceBytes).take kGcmTagBytes,
           ciphertext := packed.drop (kGcmNonceBytes + kGcmTagBytes) }

theorem EncryptedBlob.unpack_pack (blob : EncryptedBlob) (hn : blob.nonce.length = 12)
    (ht : blob.tag.length = 16) : EncryptedBlob.unpack blob.pack = .ok blob := by
  have h₁ : (blob.nonce ++ blob.tag).length = 28 := by simp [hn, ht]
  have hp : blob.pack = blob.nonce ++ (blob.tag ++ blob.ciphertext) := by simp [pack]
  have h₂ : blob.pack.take 12 = blob.nonce := by
    rw [hp, ← hn, List.take_left]
  have h₃ : (blob.pack.drop 12).take 16 = blob.tag := by
    rw [hp, ← hn, List.drop_left, ← ht, List.take_left]
  have h₄ : blob.pack.drop 28 = blob.ciphertext := by
    rw [pack, ← h₁, List.drop_left]
  rw [unpack, throwIf_neg (by simp [pack, hn, ht]; omega), ok_bind]
  simp [h₂, h₃, h₄]

theorem EncryptedBlob.unpack_ok {packed : Bytes} (h : 28 ≤ packed.length) :
    ∃ blob, EncryptedBlob.unpack packed = .ok blob ∧ blob.pack = packed ∧
      blob.nonce.length = 12 ∧ blob.tag.length = 16 := by
  refine ⟨⟨packed.take 12, packed.drop 28, (packed.drop 12).take 16⟩, ?_, ?_, ?_, ?_⟩
  · rw [unpack, throwIf_neg (by simpa using h), ok_bind]
    simp
  · have h₁ : packed.drop 28 = (packed.drop 12).drop 16 := by simp
    simp only [pack]
    rw [List.append_assoc, h₁, List.take_append_drop, List.take_append_drop]
  · simp
    omega
  · simp
    omega

/-- `std::map`: at most one entry for a key, an `emplace` of a present key does nothing. -/
abbrev UploadMap := List (Str × Bytes)

def UploadMap.emplace (uploads : UploadMap) (key : Str) (value : Bytes) : UploadMap :=
  Lib.Assoc.emplace uploads key value

def UploadMap.find (uploads : UploadMap) (key : Str) : Option Bytes :=
  Lib.Assoc.find uploads key

/-- `gcmSeal` yields the ciphertext and the tag. -/
structure Primitives where
  sha256 : Bytes → Bytes
  hmacSha256 (key message : Bytes) : Bytes
  pbkdf2HmacSha256 (password salt : Bytes) (iterations length : Nat) : Bytes
  gcmSeal (key nonce plaintext : Bytes) : Option (Bytes × Bytes)
  gcmOpen (key nonce ciphertext tag : Bytes) : Option Bytes

/-- AES-GCM is a stream mode with a 16-octet tag, and opening inverts sealing. The `int` lengths of
the interface confine the length law to inputs below `2 ^ 31` octets. -/
structure Primitives.Laws (C : Primitives) : Prop where
  sha256_length (data : Bytes) : (C.sha256 data).length = kHashBytes
  tag_length {key nonce plaintext ciphertext tag : Bytes} :
    C.gcmSeal key nonce plaintext = some (ciphertext, tag) → tag.length = kGcmTagBytes
  seal_length {key nonce plaintext ciphertext tag : Bytes} : plaintext.length < 2 ^ 31 →
    C.gcmSeal key nonce plaintext = some (ciphertext, tag) → ciphertext.length = plaintext.length
  open_seal {key nonce plaintext ciphertext tag : Bytes} :
    C.gcmSeal key nonce plaintext = some (ciphertext, tag) → ciphertext.length = plaintext.length →
      C.gcmOpen key nonce ciphertext tag = some plaintext

namespace Crypto

/-- A computation that consumes random octets. -/
abbrev RandM := StateT Bytes (Except Exn)

section RandM

variable {α β : Type}

@[simp] theorem rand_bind_eq_ok {x : RandM α} {f : α → RandM β} {tape : Bytes} {r : β × Bytes} :
    (x >>= f) tape = .ok r ↔ ∃ a tape', x tape = .ok (a, tape') ∧ f a tape' = .ok r := by
  rw [show (x >>= f) tape = x tape >>= fun p => f p.1 p.2 from rfl, bind_eq_ok]
  simp

@[simp] theorem rand_pure_eq_ok {a : α} {tape : Bytes} {r : α × Bytes} :
    (pure a : RandM α) tape = .ok r ↔ r = (a, tape) := by
  rw [show (pure a : RandM α) tape = .ok (a, tape) from rfl]
  simp [eq_comm]

@[simp] theorem rand_throw (e : Exn) (tape : Bytes) :
    (throw e : RandM α) tape = .error e := rfl

@[simp] theorem rand_lift_eq_ok {x : Except Exn α} {tape : Bytes} {r : α × Bytes} :
    (liftM x : RandM α) tape = .ok r ↔ x = .ok r.1 ∧ tape = r.2 := by
  cases x with
  | error e => simp [liftM, monadLift, MonadLift.monadLift, StateT.lift]
  | ok a =>
    rw [show (liftM (Except.ok a : Except Exn α) : RandM α) tape = .ok (a, tape) from rfl]
    simp [Prod.ext_iff]

end RandM

variable (C : Primitives)

def splitCredential (credential : Str) : Except Exn CredentialParts := do
  throwIf (credential.length ≠ kCredentialLength)
    (.invalidArgument "credential must be exactly 12 characters")
  return { searchCode := credential.take kSearchCodeLength,
           keyCode := (credential.drop kSearchCodeLength).take kKeyCodeLength }

def slowKdf (keyCode salt : Str) : Bytes :=
  C.pbkdf2HmacSha256 keyCode salt kSlowKdfIterations kKeyBytes

def randomBytes (length : Nat) : RandM Bytes := fun tape =>
  if tape.length < length then .error (.runtimeError "random bytes generation failed")
  else .ok (tape.take length, tape.drop length)

def generateFek : RandM Bytes := randomBytes kKeyBytes

/-- `encrypt` after its nonce is drawn. -/
def sealWith (key plaintext nonce : Bytes) : Except Exn Bytes :=
  match C.gcmSeal key nonce plaintext with
  | none => .error (.runtimeError "GCM encrypt update failed")
  | some (ciphertext, tag) => .ok (EncryptedBlob.pack { nonce, ciphertext, tag })

def encrypt (key plaintext : Bytes) : RandM Bytes := do
  throwIf (key.length ≠ kKeyBytes) (.invalidArgument "encryption key must be 32 bytes")
  let nonce ← randomBytes kGcmNonceBytes
  sealWith C key plaintext nonce

def decrypt (key packedCiphertext : Bytes) : Except Exn Bytes := do
  throwIf (key.length ≠ kKeyBytes) (.invalidArgument "decryption key must be 32 bytes")
  let blob ← EncryptedBlob.unpack packedCiphertext
  match C.gcmOpen key blob.nonce blob.ciphertext blob.tag with
  | none => throw (.runtimeError "GCM authentication failed")
  | some plaintext => return plaintext

/-- The `while (output.size() < length)` loop of `derive_hkdf`; a round yields at least one octet. -/
def hkdfExpand (prk : Bytes) (info : Str) (length : Nat) : Nat → Bytes → Bytes → UInt8 → Bytes
  | 0, output, _, _ => output
  | fuel + 1, output, previous, counter =>
    if output.length < length then
      let block := C.hmacSha256 prk (previous ++ info ++ [counter])
      hkdfExpand prk info length fuel (output ++ block.take (length - output.length)) block
        (counter + 1)
    else output

def deriveHkdf (ikm : Bytes) (salt info : Str) (length : Nat) : Bytes :=
  let prk :=
    if salt.isEmpty then C.hmacSha256 (List.replicate kHashBytes 0) ikm
    else C.hmacSha256 salt ikm
  hkdfExpand C prk info length length [] [] 1

def hexDigit (n : Nat) : UInt8 := UInt8.ofNat (if n < 10 then 48 + n else 87 + n)

/-- `std::hex` with `setw(2)` and fill `'0'`, octet by octet. -/
def toHex (data : Bytes) : Str :=
  data.flatMap fun byte => [hexDigit (byte.toNat / 16), hexDigit (byte.toNat % 16)]

/-- `"Index-" + std::to_string(index) + "-12C"` -/
def tokenInfo (index : Nat) : Str :=
  ascii "Index-" ++ (Nat.toDigits 10 index).map (fun c => UInt8.ofNat c.toNat) ++ ascii "-12C"

def deriveUploadToken (searchCode saltFixSearch : Str) (index : Nat) : Str :=
  toHex (deriveHkdf C searchCode saltFixSearch (tokenInfo index) kHashBytes)

/-- Tokens of one object never collide. -/
def DistinctTokens : Prop := ∀ searchCode i j, i < 2 ^ 32 → j < 2 ^ 32 →
  deriveUploadToken C searchCode kSaltFixSearch i = deriveUploadToken C searchCode kSaltFixSearch j →
    i = j

variable {C : Primitives} {key plaintext packed tape tape' : Bytes}

theorem randomBytes_eq_ok {n : Nat} {r : Bytes × Bytes} :
    randomBytes n tape = .ok r ↔ n ≤ tape.length ∧ r = (tape.take n, tape.drop n) := by
  rw [randomBytes]
  by_cases h : tape.length < n
  · have hn : ¬ n ≤ tape.length := by omega
    simp [h, hn]
  · have hn : n ≤ tape.length := by omega
    simp [h, hn, eq_comm]

/-- `packed` is `encrypt`'s output for some nonce. -/
def Sealed (C : Primitives) (key plaintext packed : Bytes) : Prop :=
  key.length = kKeyBytes ∧
    ∃ nonce, nonce.length = kGcmNonceBytes ∧ sealWith C key plaintext nonce = .ok packed

theorem encrypt_eq_ok : encrypt C key plaintext tape = .ok (packed, tape') ↔
    key.length = kKeyBytes ∧ kGcmNonceBytes ≤ tape.length ∧
      sealWith C key plaintext (tape.take kGcmNonceBytes) = .ok packed ∧
      tape' = tape.drop kGcmNonceBytes := by
  simp only [encrypt, rand_bind_eq_ok, rand_lift_eq_ok, throwIf_eq_ok, not_not, randomBytes_eq_ok]
  constructor
  · rintro ⟨-, t₁, ⟨hk, rfl⟩, nonce, t₂, ⟨hn, hr⟩, hs, rfl⟩
    obtain ⟨rfl, rfl⟩ := Prod.mk.inj hr
    exact ⟨hk, hn, hs, rfl⟩
  · rintro ⟨hk, hn, hs, rfl⟩
    exact ⟨(), tape, ⟨hk, rfl⟩, _, _, ⟨hn, rfl⟩, hs, rfl⟩

theorem sealed_of_encrypt (h : encrypt C key plaintext tape = .ok (packed, tape')) :
    Sealed C key plaintext packed := by
  obtain ⟨hk, hn, hs, -⟩ := encrypt_eq_ok.mp h
  exact ⟨hk, _, List.length_take_of_le hn, hs⟩

theorem sealed_iff : Sealed C key plaintext packed ↔ key.length = kKeyBytes ∧
    ∃ nonce ciphertext tag, nonce.length = kGcmNonceBytes ∧
      C.gcmSeal key nonce plaintext = some (ciphertext, tag) ∧
      packed = EncryptedBlob.pack { nonce, ciphertext, tag } := by
  refine and_congr_right fun _ => ⟨?_, ?_⟩
  · rintro ⟨nonce, hn, hs⟩
    rw [sealWith] at hs
    cases hseal : C.gcmSeal key nonce plaintext with
    | none => simp [hseal] at hs
    | some p =>
      rw [hseal] at hs
      exact ⟨nonce, p.1, p.2, hn, hseal, (Except.ok.inj hs).symm⟩
  · rintro ⟨nonce, ciphertext, tag, hn, hseal, rfl⟩
    exact ⟨nonce, hn, by rw [sealWith, hseal]⟩

theorem Sealed.length (h : Sealed C key plaintext packed) (hC : C.Laws)
    (hp : plaintext.length < 2 ^ 31) : packed.length = plaintext.length + 28 := by
  obtain ⟨-, nonce, ciphertext, tag, hn, hseal, rfl⟩ := sealed_iff.mp h
  have ht := hC.tag_length hseal
  have hc := hC.seal_length hp hseal
  simp only [EncryptedBlob.pack, List.length_append, hn, ht, hc, kGcmNonceBytes, kGcmTagBytes]
  omega

/-- A record 28 octets longer than its plaintext opens to it. -/
theorem Sealed.decrypt (h : Sealed C key plaintext packed) (hC : C.Laws)
    (hl : packed.length = plaintext.length + 28) :
    Crypto.decrypt C key packed = .ok plaintext := by
  obtain ⟨hk, nonce, ciphertext, tag, hn, hseal, rfl⟩ := sealed_iff.mp h
  have ht := hC.tag_length hseal
  have hc : ciphertext.length = plaintext.length := by
    simp only [EncryptedBlob.pack, List.length_append, hn, ht, kGcmNonceBytes, kGcmTagBytes] at hl
    omega
  have hu := EncryptedBlob.unpack_pack { nonce, ciphertext, tag } hn ht
  rw [Crypto.decrypt, throwIf_neg (by simpa using hk), ok_bind, hu, ok_bind]
  simp only [hC.open_seal hseal hc]
  rfl

end Crypto
end TwelveC
