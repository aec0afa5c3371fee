import Mathlib.Data.List.Basic
import Mathlib.Algebra.Group.Nat.Defs

/-!
# Decimal numerals of fixed width

`decimal width value` are the last digits of a number, as ASCII octets. Numerals
of one width are ordered by octets as their values are, also in front of other
text, and are read back.
-/

namespace TwelveC.Lib.Decimal

/-- The order of `memcmp`, a proper initial part being less. -/
def lexLe : List UInt8 → List UInt8 → Bool
  | [], _ => true
  | _ :: _, [] => false
  | a :: x, b :: y => a < b || (a == b && lexLe x y)

@[simp] theorem lexLe_self_cons (a : UInt8) (x y : List UInt8) :
    lexLe (a :: x) (a :: y) = lexLe x y := by
  simp [lexLe]

theorem lexLe_cons {a b : UInt8} {x y : List UInt8} :
    lexLe (a :: x) (b :: y) = true ↔ a < b ∨ (a = b ∧ lexLe x y = true) := by
  simp [lexLe]

theorem lexLe_refl (x : List UInt8) : lexLe x x = true := by
  induction x with
  | nil => rfl
  | cons a x ih => rw [lexLe_self_cons, ih]

def digit (value : Nat) : UInt8 := UInt8.ofNat (48 + value % 10)

def decimal : Nat → Nat → List UInt8
  | 0, _ => []
  | width + 1, value => decimal width (value / 10) ++ [digit value]

theorem digit_toNat (value : Nat) : (digit value).toNat = 48 + value % 10 := by
  rw [digit, UInt8.toNat_ofNat']
  omega

theorem digit_lt {a b : Nat} : digit a < digit b ↔ a % 10 < b % 10 := by
  rw [UInt8.lt_iff_toNat_lt, digit_toNat, digit_toNat]
  omega

theorem digit_eq {a b : Nat} : digit a = digit b ↔ a % 10 = b % 10 := by
  rw [← UInt8.toNat_inj, digit_toNat, digit_toNat]
  omega

@[simp] theorem length_decimal (width value : Nat) : (decimal width value).length = width := by
  induction width generalizing value with
  | zero => rfl
  | succ width ih => simp [decimal, ih]

theorem mem_decimal {width value : Nat} {c : UInt8} (h : c ∈ decimal width value) :
    48 ≤ c.toNat ∧ c.toNat ≤ 57 := by
  induction width generalizing value with
  | zero => cases h
  | succ width ih =>
    rw [decimal, List.mem_append, List.mem_singleton] at h
    rcases h with h | rfl
    · exact ih h
    · rw [digit_toNat]
      omega

/-- Values first, then what follows them. -/
theorem lexLe_decimal {w a b : Nat} (ha : a < 10 ^ w) (hb : b < 10 ^ w)
    (x y : List UInt8) : lexLe (decimal w a ++ x) (decimal w b ++ y) = true ↔
      a < b ∨ (a = b ∧ lexLe x y = true) := by
  induction w generalizing a b x y with
  | zero =>
    obtain rfl : a = 0 := by simpa using ha
    obtain rfl : b = 0 := by simpa using hb
    simp [decimal]
  | succ w ih =>
    rw [Nat.pow_succ] at ha hb
    rw [decimal, decimal, List.append_assoc, List.append_assoc, List.singleton_append,
      List.singleton_append, ih (by omega) (by omega), lexLe_cons, digit_lt, digit_eq]
    constructor
    · rintro (hlt | ⟨hq, hlt | ⟨hr, hle⟩⟩)
      · exact .inl (by omega)
      · exact .inl (by omega)
      · exact .inr ⟨by omega, hle⟩
    · rintro (hlt | ⟨rfl, hle⟩)
      · by_cases hq : a / 10 < b / 10
        · exact .inl hq
        · exact .inr ⟨by omega, .inl (by omega)⟩
      · exact .inr ⟨rfl, .inr ⟨rfl, hle⟩⟩

/-- The value of a text of digits. -/
def value (text : List UInt8) : Nat := text.foldl (fun n c => n * 10 + (c.toNat - 48)) 0

def isDigit (c : UInt8) : Bool := 48 ≤ c && c ≤ 57

/-- The number in the first `width` octets, and what follows. -/
def readDecimal (width : Nat) (text : List UInt8) : Option (Nat × List UInt8) :=
  if width ≤ text.length ∧ (text.take width).all isDigit then
    some (value (text.take width), text.drop width)
  else none

/-- One expected octet. -/
def expect (c : UInt8) : List UInt8 → Option (List UInt8)
  | [] => none
  | head :: rest => if head = c then some rest else none

@[simp] theorem expect_cons (c : UInt8) (rest : List UInt8) : expect c (c :: rest) = some rest :=
  if_pos rfl

theorem value_decimal (width n : Nat) : value (decimal width n) = n % 10 ^ width := by
  induction width generalizing n with
  | zero => simp [decimal, value, Nat.mod_one]
  | succ width ih =>
    have hstep : value (decimal width (n / 10) ++ [digit n]) =
        value (decimal width (n / 10)) * 10 + ((digit n).toNat - 48) := by
      simp [value, List.foldl_append]
    rw [decimal, hstep, ih, digit_toNat, Nat.pow_succ, Nat.mul_comm (10 ^ width) 10, Nat.mod_mul]
    omega

theorem readDecimal_decimal {w n : Nat} (h : n < 10 ^ w) (rest : List UInt8) :
    readDecimal w (decimal w n ++ rest) = some (n, rest) := by
  have htake : (decimal w n ++ rest).take w = decimal w n :=
    List.take_left' (length_decimal w n)
  have hdrop : (decimal w n ++ rest).drop w = rest := List.drop_left' (length_decimal w n)
  have hdigits : (decimal w n).all isDigit = true := by
    rw [List.all_eq_true]
    intro c hc
    have hbounds := mem_decimal hc
    simpa [isDigit, UInt8.le_iff_toNat_le] using hbounds
  rw [readDecimal, htake, hdrop, if_pos ⟨by simp, hdigits⟩, value_decimal, Nat.mod_eq_of_lt h]

end TwelveC.Lib.Decimal
