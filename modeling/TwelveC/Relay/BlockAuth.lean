import TwelveC.Python
import TwelveC.Crypto
import Mathlib.Data.List.DropRight

/-!
# Block authentication codes

The registry issues a code over key id, token, relay, URL, hash and expiry; the
relay checks it before it overwrites a block.
-/

namespace TwelveC.Relay.BlockAuth

open Crypto

def blockAuthCanonicalPrefix : Str := ascii "12C-BLOCK-AUTH-v1"
def blockAuthAlgorithm : Str := ascii "HMAC-SHA256-v1"

/-- `str.lower()` on ASCII text. -/
def lower (text : Str) : Str := text.map fun c => if 65 ≤ c ∧ c ≤ 90 then c + 32 else c

theorem lower_lower (text : Str) : lower (lower text) = lower text := by
  rw [lower, lower, List.map_map]
  apply List.map_congr_left
  intro c _
  simp only [Function.comp_apply]
  split
  case isTrue h =>
    rw [if_neg]
    rintro ⟨-, hle⟩
    simp only [UInt8.le_iff_toNat_le, UInt8.toNat_add] at h hle
    simp at h hle
    omega
  case isFalse h => rfl

/-- `str.rstrip("/")` -/
def rstripSlash (text : Str) : Str := text.rdropWhile (· == 47)

structure BlockAuthFields where
  blockAuthKeyId : Str
  token : Str
  relayId : Str
  relayBaseUrl : Str
  blockHash : Str
  expiryAt : Str
  deriving DecidableEq, Repr

def buildBlockAuthCanonical (fields : BlockAuthFields) : Str :=
  List.intercalate [124] [blockAuthCanonicalPrefix, fields.blockAuthKeyId, lower fields.token,
    fields.relayId, rstripSlash fields.relayBaseUrl, lower fields.blockHash, fields.expiryAt]

def computeBlockAuthMac (C : Primitives) (keyBytes canonical : Bytes) : Str :=
  toHex (C.hmacSha256 keyBytes canonical)

/-- A digest in hexadecimal is lower case already. -/
theorem lower_toHex (data : Bytes) : lower (toHex data) = toHex data := by
  have hdigit : ∀ n < 16, (if 65 ≤ hexDigit n ∧ hexDigit n ≤ 90 then hexDigit n + 32 else hexDigit n) =
      hexDigit n := by decide
  induction data with
  | nil => rfl
  | cons byte data ih =>
    have hlt : byte.toNat < 256 := byte.toNat_lt
    rw [lower] at ih ⊢
    rw [toHex] at ih ⊢
    rw [List.flatMap_cons, List.map_append, ih, List.map_cons, List.map_cons, List.map_nil,
      hdigit _ (by omega), hdigit _ (by omega)]

/-- `parseIso` reads a text as an instant, `now` is the current one. -/
structure Clock where
  parseIso : Str → Except PyExn Int
  now : Int

def verifyBlockAuthMac (C : Primitives) (clock : Clock) (blockAuthKey : Bytes)
    (fields : BlockAuthFields) (macHex : Str) : Except PyExn Bool := do
  let expiry ← clock.parseIso fields.expiryAt
  if expiry ≤ clock.now then return false
  else
    let expected := computeBlockAuthMac C blockAuthKey (buildBlockAuthCanonical fields)
    return expected == lower macHex

end TwelveC.Relay.BlockAuth
