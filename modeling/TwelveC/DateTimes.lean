import TwelveC.Python
import TwelveC.Types
import TwelveC.Lib.Decimal

/-!
# UTC datetimes and their texts

`datetime` values of the UTC zone with `isoformat` and `fromisoformat`. The text
omits the microseconds when they are zero; the sign of the offset then stands
where the point would be, and it is less than a point.
-/

namespace TwelveC

open Lib.Decimal

namespace DateTimes

/-- `_is_leap` -/
def isLeap (year : Nat) : Bool := year % 4 = 0 ∧ (year % 100 ≠ 0 ∨ year % 400 = 0)

def daysInMonth (year month : Nat) : Nat :=
  if month = 2 then (if isLeap year then 29 else 28)
  else if month = 4 ∨ month = 6 ∨ month = 9 ∨ month = 11 then 30
  else 31

def daysBeforeYear (year : Nat) : Nat :=
  (year - 1) * 365 + (year - 1) / 4 - (year - 1) / 100 + (year - 1) / 400

/-- The days of the months before this one. -/
def daysBeforeMonth (year : Nat) : Nat → Nat
  | 0 => 0
  | 1 => 0
  | month + 1 => daysBeforeMonth year month + daysInMonth year month

structure Fields where
  year : Nat
  month : Nat
  day : Nat
  hour : Nat
  minute : Nat
  second : Nat
  microsecond : Nat
  deriving DecidableEq, Repr

/-- The checks of the constructor. -/
structure Fields.Valid (f : Fields) : Prop where
  year : 1 ≤ f.year ∧ f.year ≤ 9999
  month : 1 ≤ f.month ∧ f.month ≤ 12
  day : 1 ≤ f.day ∧ f.day ≤ daysInMonth f.year f.month
  hour : f.hour < 24
  minute : f.minute < 60
  second : f.second < 60
  microsecond : f.microsecond < 1000000

instance (f : Fields) : Decidable f.Valid :=
  decidable_of_iff ((1 ≤ f.year ∧ f.year ≤ 9999) ∧ (1 ≤ f.month ∧ f.month ≤ 12) ∧
    (1 ≤ f.day ∧ f.day ≤ daysInMonth f.year f.month) ∧ f.hour < 24 ∧ f.minute < 60 ∧ f.second < 60 ∧
    f.microsecond < 1000000)
    ⟨fun ⟨h₁, h₂, h₃, h₄, h₅, h₆, h₇⟩ => ⟨h₁, h₂, h₃, h₄, h₅, h₆, h₇⟩,
      fun h => ⟨h.year, h.month, h.day, h.hour, h.minute, h.second, h.microsecond⟩⟩

/-- `toordinal` -/
def Fields.ordinal (f : Fields) : Nat :=
  daysBeforeYear f.year + daysBeforeMonth f.year f.month + f.day

/-- Microseconds on the time line. -/
def Fields.instant (f : Fields) : Nat :=
  (((f.ordinal * 24 + f.hour) * 60 + f.minute) * 60 + f.second) * 1000000 + f.microsecond

end DateTimes

open DateTimes

/-- A `datetime` of the UTC zone. -/
structure DateTime extends Fields where
  valid : toFields.Valid
  deriving DecidableEq, Repr

namespace DateTimes

def utcOffset : Str := ascii "+00:00"

def fraction (microsecond : Nat) : Str :=
  if microsecond = 0 then [] else 46 :: decimal 6 microsecond

/-- `YYYY-MM-DDTHH:MM:SS`, the microseconds unless they are zero, and the offset. -/
def Fields.isoformat (f : Fields) : Str :=
  decimal 4 f.year ++ 45 :: (decimal 2 f.month ++ 45 :: (decimal 2 f.day ++ 84 ::
    (decimal 2 f.hour ++ 58 :: (decimal 2 f.minute ++ 58 :: (decimal 2 f.second ++
      (fraction f.microsecond ++ utcOffset))))))

def readFraction (text : Str) : Option (Nat × Str) :=
  match text with
  | 46 :: rest => readDecimal 6 rest
  | _ => some (0, text)

def readFields (text : Str) : Option Fields := do
  let (year, text) ← readDecimal 4 text
  let text ← expect 45 text
  let (month, text) ← readDecimal 2 text
  let text ← expect 45 text
  let (day, text) ← readDecimal 2 text
  let text ← expect 84 text
  let (hour, text) ← readDecimal 2 text
  let text ← expect 58 text
  let (minute, text) ← readDecimal 2 text
  let text ← expect 58 text
  let (second, text) ← readDecimal 2 text
  let (microsecond, text) ← readFraction text
  if text = utcOffset then some { year, month, day, hour, minute, second, microsecond } else none

/-- `datetime.fromisoformat`, on the texts that `isoformat` writes. -/
def parseIso (text : Str) : Except PyExn DateTime :=
  match readFields text with
  | none => .error (.valueError "Invalid isoformat string")
  | some f =>
    if h : f.Valid then .ok { toFields := f, valid := h }
    else .error (.valueError "field out of range")

example : Fields.isoformat ⟨2026, 2, 28, 7, 5, 9, 40⟩ = ascii "2026-02-28T07:05:09.000040+00:00" := by
  decide

theorem readFraction_fraction {microsecond : Nat} (h : microsecond < 1000000) :
    readFraction (fraction microsecond ++ utcOffset) = some (microsecond, utcOffset) := by
  rw [fraction]
  split
  case isTrue hzero =>
    rw [hzero]
    rfl
  case isFalse => exact readDecimal_decimal (w := 6) h utcOffset

theorem daysInMonth_le (year month : Nat) : 28 ≤ daysInMonth year month ∧ daysInMonth year month ≤ 31 := by
  rw [daysInMonth]
  split
  · split <;> omega
  · split <;> omega

theorem readFields_isoformat {f : Fields} (h : f.Valid) : readFields f.isoformat = some f := by
  have hyear := h.year
  have hmonth := h.month
  have hday := h.day
  have hdays := daysInMonth_le f.year f.month
  have hhour := h.hour
  have hminute := h.minute
  have hsecond := h.second
  simp only [readFields, Fields.isoformat, readDecimal_decimal (w := 4) (show f.year < 10 ^ 4 by omega),
    readDecimal_decimal (w := 2) (show f.month < 10 ^ 2 by omega),
    readDecimal_decimal (w := 2) (show f.day < 10 ^ 2 by omega),
    readDecimal_decimal (w := 2) (show f.hour < 10 ^ 2 by omega),
    readDecimal_decimal (w := 2) (show f.minute < 10 ^ 2 by omega),
    readDecimal_decimal (w := 2) (show f.second < 10 ^ 2 by omega),
    readFraction_fraction h.microsecond, expect_cons, Option.bind_eq_bind, Option.bind_some, if_true]

/-- `fromisoformat` inverts `isoformat`. -/
theorem parseIso_isoformat (d : DateTime) : parseIso d.isoformat = .ok d := by
  rw [parseIso, readFields_isoformat d.valid]
  exact dif_pos d.valid

theorem daysBeforeMonth_le (year : Nat) {a b : Nat} (ha : 1 ≤ a) (h : a < b) :
    daysBeforeMonth year a + daysInMonth year a ≤ daysBeforeMonth year b := by
  induction b with
  | zero => omega
  | succ b ih =>
    obtain ⟨b, rfl⟩ : ∃ c, b = c + 1 := ⟨b - 1, by omega⟩
    rw [daysBeforeMonth]
    · by_cases hlast : a = b + 1
      · subst hlast
        exact Nat.le_refl _
      · have hrest := ih (by omega)
        omega
    · omega

/-- The days of a year. -/
theorem daysBeforeMonth_year (year : Nat) :
    daysBeforeMonth year 12 + daysInMonth year 12 = if isLeap year then 366 else 365 := by
  cases hleap : isLeap year <;> simp [daysBeforeMonth, daysInMonth, hleap]

theorem daysBeforeYear_succ {year : Nat} (h : 1 ≤ year) :
    daysBeforeYear (year + 1) = daysBeforeYear year + if isLeap year then 366 else 365 := by
  have h4 : year / 4 = (year - 1) / 4 + if year % 4 = 0 then 1 else 0 := by split <;> omega
  have h100 : year / 100 = (year - 1) / 100 + if year % 100 = 0 then 1 else 0 := by split <;> omega
  have h400 : year / 400 = (year - 1) / 400 + if year % 400 = 0 then 1 else 0 := by split <;> omega
  have hle : (year - 1) / 100 ≤ (year - 1) / 4 := Nat.div_le_div_left (by decide) (by decide)
  have hleap : isLeap year = true ↔ year % 4 = 0 ∧ (year % 100 ≠ 0 ∨ year % 400 = 0) := by
    simp [isLeap]
  rw [daysBeforeYear, daysBeforeYear, Nat.add_sub_cancel, h4, h100, h400]
  generalize (year - 1) / 4 = fours at hle ⊢
  generalize (year - 1) / 100 = hundreds at hle ⊢
  generalize (year - 1) / 400 = cycles
  simp only [hleap]
  clear h4 h100 h400 hleap
  split <;> split <;> split <;> split <;> omega

theorem daysBeforeYear_le {a b : Nat} (ha : 1 ≤ a) (h : a < b) :
    daysBeforeYear a + (if isLeap a then 366 else 365) ≤ daysBeforeYear b := by
  induction b with
  | zero => omega
  | succ b ih =>
    rw [daysBeforeYear_succ (by omega)]
    by_cases hlast : a = b
    · subst hlast
      exact Nat.le_refl _
    · have hrest := ih (by omega)
      omega

variable {f g : Fields}

theorem ordinal_lt_of_month (hf : f.Valid) (hg : g.Valid) (hyear : f.year = g.year)
    (hmonth : f.month < g.month) : f.ordinal < g.ordinal := by
  have hday := hf.day
  have hday' := hg.day
  have hle := daysBeforeMonth_le f.year hf.month.1 hmonth
  rw [Fields.ordinal, Fields.ordinal, ← hyear]
  omega

theorem ordinal_lt_of_year (hf : f.Valid) (hg : g.Valid) (hyear : f.year < g.year) :
    f.ordinal < g.ordinal := by
  have hday := hf.day
  have hday' := hg.day
  have hyears := daysBeforeYear_le hf.year.1 hyear
  -- no day of a year comes after its last one
  have hend : daysBeforeMonth f.year f.month + daysInMonth f.year f.month ≤
      daysBeforeMonth f.year 12 + daysInMonth f.year 12 := by
    by_cases hlast : f.month = 12
    · exact hlast ▸ Nat.le_refl _
    · have hmonth := hf.month
      have hle := daysBeforeMonth_le f.year hmonth.1 (show f.month < 12 by omega)
      omega
  rw [daysBeforeMonth_year] at hend
  rw [Fields.ordinal, Fields.ordinal]
  omega

/-- Microseconds compare with the offset that stands in their place. -/
theorem lexLe_fraction {a b : Nat} (ha : a < 1000000) (hb : b < 1000000) :
    lexLe (fraction a ++ utcOffset) (fraction b ++ utcOffset) = true ↔ a ≤ b := by
  have hplus : utcOffset = 43 :: ascii "00:00" := rfl
  by_cases hzero : a = 0 <;> by_cases hzero' : b = 0
  · rw [hzero, hzero', lexLe_refl]
    simp
  · rw [fraction, if_pos hzero, fraction, if_neg hzero', List.nil_append, List.cons_append, hplus,
      lexLe_cons]
    simp [hzero]
  · rw [fraction, if_neg hzero, fraction, if_pos hzero', List.nil_append, List.cons_append, hplus,
      lexLe_cons]
    simp [hzero, hzero']
  · rw [fraction, if_neg hzero, fraction, if_neg hzero', List.cons_append, List.cons_append,
      lexLe_self_cons, lexLe_decimal (w := 6) ha hb, lexLe_refl]
    simp only [and_true]
    omega

theorem lexLe_isoformat (hf : f.Valid) (hg : g.Valid) :
    lexLe f.isoformat g.isoformat = true ↔
      f.year < g.year ∨ f.year = g.year ∧ (f.month < g.month ∨ f.month = g.month ∧
        (f.day < g.day ∨ f.day = g.day ∧ (f.hour < g.hour ∨ f.hour = g.hour ∧
          (f.minute < g.minute ∨ f.minute = g.minute ∧ (f.second < g.second ∨ f.second = g.second ∧
            f.microsecond ≤ g.microsecond))))) := by
  have hyear := hf.year
  have hyear' := hg.year
  have hmonth := hf.month
  have hmonth' := hg.month
  have hday := hf.day
  have hday' := hg.day
  have hdays := daysInMonth_le f.year f.month
  have hdays' := daysInMonth_le g.year g.month
  have hhour := hf.hour
  have hhour' := hg.hour
  have hminute := hf.minute
  have hminute' := hg.minute
  have hsecond := hf.second
  have hsecond' := hg.second
  rw [Fields.isoformat, Fields.isoformat, lexLe_decimal (w := 4) (by omega) (by omega),
    lexLe_self_cons, lexLe_decimal (w := 2) (by omega) (by omega), lexLe_self_cons,
    lexLe_decimal (w := 2) (by omega) (by omega), lexLe_self_cons,
    lexLe_decimal (w := 2) (by omega) (by omega), lexLe_self_cons,
    lexLe_decimal (w := 2) (by omega) (by omega), lexLe_self_cons,
    lexLe_decimal (w := 2) (by omega) (by omega), lexLe_fraction hf.microsecond hg.microsecond]

theorem instant_lt_of_ordinal (hf : f.Valid) (h : f.ordinal < g.ordinal) :
    f.instant < g.instant := by
  have hhour := hf.hour
  have hminute := hf.minute
  have hsecond := hf.second
  have hmicrosecond := hf.microsecond
  rw [Fields.instant, Fields.instant]
  omega

/-- The order of the texts is that of time. -/
theorem lexLe_isoformat_iff (a b : DateTime) :
    lexLe a.isoformat b.isoformat = true ↔ a.instant ≤ b.instant := by
  rw [lexLe_isoformat a.valid b.valid]
  rcases Nat.lt_trichotomy a.year b.year with hyear | hyear | hyear
  · have hle := instant_lt_of_ordinal a.valid (ordinal_lt_of_year a.valid b.valid hyear)
    omega
  · rcases Nat.lt_trichotomy a.month b.month with hmonth | hmonth | hmonth
    · have hle := instant_lt_of_ordinal a.valid (ordinal_lt_of_month a.valid b.valid hyear hmonth)
      omega
    · -- within a month the days and the parts of a day count
      have hhour := a.valid.hour
      have hhour' := b.valid.hour
      have hminute := a.valid.minute
      have hminute' := b.valid.minute
      have hsecond := a.valid.second
      have hsecond' := b.valid.second
      have hmicrosecond := a.valid.microsecond
      have hmicrosecond' := b.valid.microsecond
      simp only [Fields.instant, Fields.ordinal, hyear, hmonth, Nat.lt_irrefl, true_and, false_or]
      omega
    · have hle := instant_lt_of_ordinal b.valid
        (ordinal_lt_of_month b.valid a.valid hyear.symm hmonth)
      omega
  · have hle := instant_lt_of_ordinal b.valid (ordinal_lt_of_year b.valid a.valid hyear)
    omega

end DateTimes
end TwelveC
