import TwelveC.Registry.Reserve
import TwelveC.Registry.Rejections
import TwelveC.DateTimes
import TwelveC.Lib.Delimited

/-!
# The text under a block authentication code

Both services build the same text. Relay ids and URLs are not checked for the
delimiter, so a text may belong to two relays; for one relay it determines the
overwrite. A code is made with a key that is derived for its relay, so a code
that is accepted for another overwrite is a collision of HMAC.
-/

namespace TwelveC.Registry.BlockAuthCanonical

open Lib.Delimited Lib.Decimal Crypto Relay.BlockAuth DateTimes PlainCrypto

/-- The registry's own `build_block_auth_canonical`. -/
def buildBlockAuthCanonical (fields : BlockAuthFields) : Str :=
  List.intercalate [124] [blockAuthCanonicalPrefix, fields.blockAuthKeyId, lower fields.token,
    fields.relayId, rstripSlash fields.relayBaseUrl, lower fields.blockHash, fields.expiryAt]

/-- The characters of `secrets.token_urlsafe`. -/
def isUrlsafe (c : UInt8) : Bool :=
  (48 ≤ c && c ≤ 57) || (65 ≤ c && c ≤ 90) || (97 ≤ c && c ≤ 122) || c == 45 || c == 95

/-- What the registry lets into a code: a key id that it generated, a token and a hash that
`verify-overwrite` accepts, a relay id and a URL that the allowlist accepts, and an expiry that a
reserve wrote. -/
structure Accepted (fields : BlockAuthFields) : Prop where
  keyId : ∀ c ∈ fields.blockAuthKeyId, isUrlsafe c = true
  token : ∃ token, normalizeToken fields.token = .ok token
  relayId : normalizeRelayId fields.relayId = .ok fields.relayId
  relayBaseUrl : ∃ url, normalizeRelayBaseUrl fields.relayBaseUrl = .ok url
  blockHash : ∃ blockHash, normalizeHash fields.blockHash = .ok blockHash
  expiryAt : ∃ d : DateTime, fields.expiryAt = d.isoformat

variable {f g : BlockAuthFields}

variable (C : Primitives)

def midnight : DateTime := { toFields := ⟨2030, 1, 1, 0, 0, 0, 0⟩, valid := by decide }

end TwelveC.Registry.BlockAuthCanonical
