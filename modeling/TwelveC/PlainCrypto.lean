import TwelveC.Crypto
import Mathlib.Data.List.DropRight

/-!
# A model of the cryptographic laws

`plain` seals by copying and hashes by padding to 32 octets. It is of no use
against anyone, but it satisfies the laws and derives distinct tokens, so the
assumptions of the development hold together and runs can be evaluated.
-/

namespace TwelveC.PlainCrypto

open Crypto

def pad32 (data : Bytes) : Bytes := (data ++ List.replicate 32 0).take 32

theorem length_pad32 (data : Bytes) : (pad32 data).length = 32 := by
  simp [pad32]

def plain : Primitives where
  sha256 := pad32
  hmacSha256 _ message := pad32 message
  pbkdf2HmacSha256 _ _ _ length := List.replicate length 0
  gcmSeal _ _ plaintext := some (plaintext, List.replicate kGcmTagBytes 0)
  gcmOpen _ _ ciphertext _ := some ciphertext

theorem plain_laws : plain.Laws where
  sha256_length := length_pad32
  tag_length h := by
    simp only [plain, Option.some.injEq, Prod.mk.injEq] at h
    simp [← h.2]
  seal_length _ h := by
    simp only [plain, Option.some.injEq, Prod.mk.injEq] at h
    rw [h.1]
  open_seal h _ := by
    simp only [plain, Option.some.injEq, Prod.mk.injEq] at h
    simp [plain, h.1]

/-- Padding keeps apart messages that end in an octet other than zero. -/
theorem pad32_inj {a b : Bytes} (ha : a.length ≤ 31) (hb : b.length ≤ 31)
    (h : pad32 (a ++ [1]) = pad32 (b ++ [1])) : a = b := by
  have hpad : ∀ c : Bytes, c.length ≤ 31 →
      pad32 (c ++ [1]) = c ++ [1] ++ List.replicate (31 - c.length) 0 := by
    intro c hc
    rw [pad32, List.take_append, List.take_of_length_le (by simp; omega), List.take_replicate]
    congr 2
    simp
    omega
  have hdrop : ∀ (c : Bytes) (n : Nat),
      (c ++ [1] ++ List.replicate n 0).rdropWhile (· == 0) = c ++ [1] := by
    intro c n
    induction n with
    | zero => simp
    | succ n ih =>
      rw [List.replicate_succ', ← List.append_assoc, List.rdropWhile_concat_pos _ _ _ (by simp), ih]
  rw [hpad a ha, hpad b hb] at h
  have h' := congrArg (List.rdropWhile (· == 0)) h
  rw [hdrop, hdrop] at h'
  exact List.append_cancel_right h'

theorem hexDigit_inj {m n : Nat} (hm : m < 16) (hn : n < 16) (h : hexDigit m = hexDigit n) :
    m = n := by
  have h' := congrArg UInt8.toNat h
  simp only [hexDigit, UInt8.toNat_ofNat'] at h'
  split at h' <;> split at h' <;> omega

theorem toHex_inj {a b : Bytes} (h : toHex a = toHex b) : a = b := by
  induction a generalizing b with
  | nil =>
    cases b with
    | nil => rfl
    | cons y b => simp [toHex] at h
  | cons x a ih =>
    cases b with
    | nil => simp [toHex] at h
    | cons y b =>
      simp only [toHex, List.flatMap_cons, List.cons_append, List.nil_append, List.cons.injEq] at h
      have hx := x.toNat_lt
      have hy := y.toNat_lt
      have h₁ := hexDigit_inj (by omega) (by omega) h.1
      have h₂ := hexDigit_inj (by omega) (by omega) h.2.1
      have hxy : x = y := UInt8.toNat_inj.mp (by omega)
      rw [hxy, ih h.2.2]

theorem tokenInfo_inj {i j : Nat} (h : tokenInfo i = tokenInfo j) : i = j := by
  have hd := List.append_cancel_left (List.append_cancel_right h)
  have hback : ∀ n, ((Nat.toDigits 10 n).map (fun c => UInt8.ofNat c.toNat)).map
      (fun b => Char.ofNat b.toNat) = Nat.toDigits 10 n := by
    intro n
    rw [List.map_map]
    conv_rhs => rw [← List.map_id (Nat.toDigits 10 n)]
    refine List.map_congr_left fun c hc => ?_
    have hdigit := Nat.isDigit_of_mem_toDigits (by decide) (by decide) hc
    have hle : c.toNat ≤ 57 := by
      simp only [Char.isDigit, Bool.and_eq_true, decide_eq_true_eq] at hdigit
      exact hdigit.2
    simp [Nat.mod_eq_of_lt (show c.toNat < 256 by omega)]
  have hdigits := congrArg (List.map fun b : UInt8 => Char.ofNat b.toNat) hd
  rw [hback, hback] at hdigits
  have h10 := congrArg (fun l => Nat.ofDigitChars 10 l 0) hdigits
  simpa [Nat.ofDigitChars_ten_toDigits] using h10

theorem length_tokenInfo {i : Nat} (h : i < 2 ^ 32) : (tokenInfo i).length ≤ 20 := by
  have hd : (Nat.toDigits 10 i).length ≤ 10 :=
    (Nat.length_toDigits_le_iff (by decide) (by decide)).mpr (by omega)
  have h₁ : (ascii "Index-").length = 6 := by decide
  have h₂ : (ascii "-12C").length = 4 := by decide
  simp only [tokenInfo, List.length_append, List.length_map, h₁, h₂]
  omega

theorem deriveUploadToken_plain (searchCode saltFixSearch : Str) (i : Nat) :
    deriveUploadToken plain searchCode saltFixSearch i = toHex (pad32 (tokenInfo i ++ [1])) := by
  have hl := length_pad32 (tokenInfo i ++ [1])
  simp [deriveUploadToken, deriveHkdf, hkdfExpand, plain, hl, List.take_of_length_le]

theorem plain_distinctTokens : DistinctTokens plain := by
  intro searchCode i j hi hj h
  rw [deriveUploadToken_plain, deriveUploadToken_plain] at h
  have h₁ := length_tokenInfo hi
  have h₂ := length_tokenInfo hj
  exact tokenInfo_inj (pad32_inj (by omega) (by omega) (toHex_inj h))

end TwelveC.PlainCrypto
