import Mathlib.Data.List.Basic

/-!
# Text as UTF-16 code units

A string that is held as UTF-16 code units has its length counted in units. In
UTF-8 it has at least as many octets, and as many only if every unit is an ASCII
character, which is then one octet.
-/

namespace TwelveC.Lib.Utf16

def isHigh (u : UInt16) : Bool := 0xD800 ≤ u.toNat && u.toNat < 0xDC00

def isLow (u : UInt16) : Bool := 0xDC00 ≤ u.toNat && u.toNat < 0xE000

/-- A surrogate pair is one code point, any other unit stands for itself. -/
def codePoints : List UInt16 → List Nat
  | [] => []
  | [u] => [u.toNat]
  | u :: v :: rest =>
    if isHigh u && isLow v then
      (0x10000 + (u.toNat - 0xD800) * 0x400 + (v.toNat - 0xDC00)) :: codePoints rest
    else u.toNat :: codePoints (v :: rest)

def encodePoint (p : Nat) : List UInt8 :=
  if p < 0x80 then [UInt8.ofNat p]
  else if p < 0x800 then [UInt8.ofNat (0xC0 + p / 0x40), UInt8.ofNat (0x80 + p % 0x40)]
  else if p < 0x10000 then
    [UInt8.ofNat (0xE0 + p / 0x1000), UInt8.ofNat (0x80 + p / 0x40 % 0x40),
      UInt8.ofNat (0x80 + p % 0x40)]
  else
    [UInt8.ofNat (0xF0 + p / 0x40000), UInt8.ofNat (0x80 + p / 0x1000 % 0x40),
      UInt8.ofNat (0x80 + p / 0x40 % 0x40), UInt8.ofNat (0x80 + p % 0x40)]

def toUtf8 (units : List UInt16) : List UInt8 := (codePoints units).flatMap encodePoint

theorem encodePoint_ascii {p : Nat} (h : p < 0x80) : encodePoint p = [UInt8.ofNat p] := if_pos h

theorem two_le_length_encodePoint {p : Nat} (h : 0x80 ≤ p) : 2 ≤ (encodePoint p).length := by
  rw [encodePoint, if_neg (Nat.not_lt.mpr h)]
  split
  · exact Nat.le_refl 2
  · split
    · exact Nat.le_succ 2
    · exact Nat.le_add_right 2 2

theorem length_encodePoint_pair {p : Nat} (h : 0x10000 ≤ p) : (encodePoint p).length = 4 := by
  rw [encodePoint, if_neg (by omega), if_neg (by omega), if_neg (by omega)]
  rfl

/-- One octet or more for a unit that stands for itself, two or more if it is not ASCII. -/
theorem length_encodePoint_unit (u : UInt16) :
    1 ≤ (encodePoint u.toNat).length ∧
      ((encodePoint u.toNat).length ≤ 1 → u.toNat < 0x80) := by
  by_cases h : u.toNat < 0x80
  · rw [encodePoint_ascii h]
    exact ⟨Nat.le_refl _, fun _ => h⟩
  · have htwo := two_le_length_encodePoint (Nat.not_lt.mp h)
    exact ⟨by omega, fun hone => by omega⟩

theorem length_toUtf8 (units : List UInt16) :
    units.length ≤ (toUtf8 units).length ∧
      ((toUtf8 units).length ≤ units.length → ∀ u ∈ units, u.toNat < 0x80) := by
  induction units using codePoints.induct with
  | case1 => simp [toUtf8, codePoints]
  | case2 u => simpa [toUtf8, codePoints] using length_encodePoint_unit u
  | case3 u v rest hpair ih =>
    have hfour : (toUtf8 (u :: v :: rest)).length = 4 + (toUtf8 rest).length := by
      rw [toUtf8, codePoints, if_pos hpair, List.flatMap_cons, List.length_append,
        length_encodePoint_pair (by omega), toUtf8]
    rw [hfour, List.length_cons, List.length_cons]
    exact ⟨by omega, fun hle => by omega⟩
  | case4 u v rest hpair ih =>
    have hunit : (toUtf8 (u :: v :: rest)).length =
        (encodePoint u.toNat).length + (toUtf8 (v :: rest)).length := by
      rw [toUtf8, codePoints, if_neg hpair, List.flatMap_cons, List.length_append, toUtf8]
    obtain ⟨hone, hascii⟩ := length_encodePoint_unit u
    rw [hunit, List.length_cons]
    refine ⟨by omega, fun hle => List.forall_mem_cons.mpr ⟨hascii (by omega), ih.2 (by omega)⟩⟩

theorem toUtf8_ascii {units : List UInt16} (h : ∀ u ∈ units, u.toNat < 0x80) :
    toUtf8 units = units.map fun u => UInt8.ofNat u.toNat := by
  induction units using codePoints.induct with
  | case1 => rfl
  | case2 u =>
    rw [toUtf8, codePoints, List.flatMap_singleton, encodePoint_ascii (h u List.mem_cons_self)]
    rfl
  | case3 u v rest hpair =>
    have hu := h u List.mem_cons_self
    have hhigh : 0xD800 ≤ u.toNat := by simp [isHigh] at hpair; omega
    omega
  | case4 u v rest hpair ih =>
    obtain ⟨hu, hrest⟩ := List.forall_mem_cons.mp h
    rw [toUtf8, codePoints, if_neg hpair, List.flatMap_cons, encodePoint_ascii hu, ← toUtf8, ih hrest]
    rfl

/-- Text of as many octets as units is cut in octets as it is in units. -/
theorem toUtf8_take {units : List UInt16} (h : (toUtf8 units).length ≤ units.length) (n : Nat) :
    toUtf8 (units.take n) = (toUtf8 units).take n := by
  have hascii := (length_toUtf8 units).2 h
  rw [toUtf8_ascii hascii, toUtf8_ascii fun u hu => hascii u (List.mem_of_mem_take hu), List.map_take]

end TwelveC.Lib.Utf16
