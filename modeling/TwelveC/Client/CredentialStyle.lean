import Mathlib.Data.List.ReduceOption

/-!
# Credentials in a style

`generateStyledCredential` with both of its generators. What
`crypto.getRandomValues` puts into an array is a parameter.
-/

namespace TwelveC.Client.CredentialStyle

structure CredentialStyleOptions where
  includeUppercase : Bool
  includeLowercase : Bool
  allowAtMostOneHyphen : Bool
  lettersOnlyLastSix : Bool
  lettersOnlyFirstSix : Bool
  wordStyle : Bool
  deriving DecidableEq, Repr

def credentialLength : Nat := 12

def defaultCredentialStyle : CredentialStyleOptions :=
  { includeUppercase := true, includeLowercase := true, allowAtMostOneHyphen := false,
    lettersOnlyLastSix := false, lettersOnlyFirstSix := false, wordStyle := false }

def uppercase : List Char := "ABCDEFGHIJKLMNOPQRSTUVWXYZ".toList
def lowercase : List Char := "abcdefghijklmnopqrstuvwxyz".toList
def digits : List Char := "0123456789".toList
def vowelsLower : List Char := "aeiou".toList
def vowelsUpper : List Char := "AEIOU".toList
def consonantsLower : List Char := "bcdfghjklmnpqrstvwxyz".toList
def consonantsUpper : List Char := "BCDFGHJKLMNPQRSTVWXYZ".toList
def forbiddenTrailingConsonants : List Char := ['h', 'z', 'q', 'j', 'k', 'l', 'm']
def wordStyleUppercaseLeadingPositions : List Nat := [0, 6]
def wordStyleHyphenPositions : List Nat := [5, 6]
def syllableLength : Nat := 3

def isFirstHalf (index : Nat) : Bool := index < credentialLength / 2

def isLetterOnlyPosition (index : Nat) (options : CredentialStyleOptions) : Bool :=
  if options.lettersOnlyLastSix && !isFirstHalf index then true
  else if options.lettersOnlyFirstSix && isFirstHalf index then true
  else false

def isDigitOnlyPosition (index : Nat) (options : CredentialStyleOptions) : Bool :=
  if options.lettersOnlyLastSix && isFirstHalf index then true
  else if options.lettersOnlyFirstSix && !isFirstHalf index then true
  else false

def letterCharset (options : CredentialStyleOptions) : List Char :=
  (if options.includeUppercase then uppercase else []) ++
    (if options.includeLowercase then lowercase else [])

def charsetForPosition (index : Nat) (options : CredentialStyleOptions) : List Char :=
  let letters := letterCharset options
  if isLetterOnlyPosition index options then letters
  else if isDigitOnlyPosition index options then digits
  else letters ++ digits

/-- `undefined` for an empty charset. -/
def pickRandomChar (charset : List Char) (randomByte : UInt8) : Option Char :=
  charset[randomByte.toNat % charset.length]?

def canUseWordStyle (options : CredentialStyleOptions) : Bool :=
  options.includeUppercase || options.includeLowercase

def bothHalves : String := "「字母仅在前6位」与「字母仅在后6位」不能同时启用"
def wordWithoutLetters : String := "启用单词风格时，请至少勾选一种英文字母"
def noValidCredential : String := "当前凭证风格无法生成有效凭证，请至少启用一种字母并检查位置限制"

def validateCredentialStyle (options : CredentialStyleOptions) : Option String :=
  if options.lettersOnlyFirstSix && options.lettersOnlyLastSix then some bothHalves
  else if options.wordStyle && !canUseWordStyle options then some wordWithoutLetters
  else if (List.range credentialLength).any fun index =>
      (charsetForPosition index options).length == 0 then some noValidCredential
  else if (letterCharset options).length == 0 && !options.allowAtMostOneHyphen &&
      (List.range credentialLength).any fun index => isLetterOnlyPosition index options then
    some noValidCredential
  else none

structure WordStyleLayout where
  wordStart : Nat
  syllableCount : Nat
  digitPrefixLength : Nat
  digitSuffixLength : Nat
  deriving DecidableEq, Repr

def resolveWordStyleLayout (options : CredentialStyleOptions) : WordStyleLayout :=
  if options.lettersOnlyFirstSix then
    { wordStart := 0, syllableCount := 2, digitPrefixLength := 0,
      digitSuffixLength := credentialLength / 2 }
  else if options.lettersOnlyLastSix then
    { wordStart := credentialLength / 2, syllableCount := 2,
      digitPrefixLength := credentialLength / 2, digitSuffixLength := 0 }
  else
    { wordStart := 0, syllableCount := credentialLength / syllableLength, digitPrefixLength := 0,
      digitSuffixLength := 0 }

def syllableBase (layout : WordStyleLayout) (syllableIndex : Nat) : Nat :=
  layout.wordStart + syllableIndex * syllableLength

def listConsonantSlots (layout : WordStyleLayout) : List Nat :=
  (List.range layout.syllableCount).flatMap fun syllableIndex =>
    [syllableBase layout syllableIndex, syllableBase layout syllableIndex + 2]

def canLeadingConsonantBeUppercase (baseIndex : Nat) : Bool :=
  baseIndex ∈ wordStyleUppercaseLeadingPositions

def shouldUseLeadingUppercase (options : CredentialStyleOptions) (randomByte : UInt8) : Bool :=
  if options.includeUppercase && options.includeLowercase then randomByte % 2 == 1
  else options.includeUppercase

def pickConsonant (options : CredentialStyleOptions) (uppercase : Bool) (randomByte : UInt8) :
    Option Char :=
  if uppercase && options.includeUppercase then pickRandomChar consonantsUpper randomByte
  else if options.includeLowercase then pickRandomChar consonantsLower randomByte
  else pickRandomChar consonantsUpper randomByte

def buildTrailingConsonantCharset (vowel : Char) : List Char :=
  consonantsLower.filter fun char =>
    !(char ∈ forbiddenTrailingConsonants) && !(char == 'y' && !(vowel.toLower == 'a')) &&
      !(char == 'w' && !(vowel.toLower == 'o'))

def pickTrailingConsonant (vowel : Char) (randomByte : UInt8) : Except String (Option Char) :=
  let charset := buildTrailingConsonantCharset vowel
  if charset.length = 0 then .error ("no valid trailing consonant for vowel " ++ vowel.toString)
  else .ok (pickRandomChar charset randomByte)

def pickVowel (options : CredentialStyleOptions) (uppercase : Bool) (randomByte : UInt8) :
    Option Char :=
  if uppercase && options.includeUppercase then pickRandomChar vowelsUpper randomByte
  else if options.includeLowercase then pickRandomChar vowelsLower randomByte
  else pickRandomChar vowelsUpper randomByte

/-- `randomBytes[offset++] ?? 0`, without the increment. -/
def nextByte (randomBytes : List UInt8) (offset : Nat) : UInt8 := randomBytes.getD offset 0

/-- A character in a template or behind `+=`. -/
def text : Option Char → List Char
  | some c => [c]
  | none => "undefined".toList

def leadingWouldUpper (options : CredentialStyleOptions) (baseIndex : Nat)
    (randomBytes : List UInt8) (offset : Nat) : Bool × Nat :=
  if canLeadingConsonantBeUppercase baseIndex then
    (shouldUseLeadingUppercase options (nextByte randomBytes offset), offset + 1)
  else (false, offset)

/-- The syllable's text and the offset behind the octets that it used. -/
def generateCvcSyllable (options : CredentialStyleOptions) (baseIndex : Nat)
    (hyphenIndex : Option Nat) (randomBytes : List UInt8) (randomOffset : Nat) :
    Except String (List Char × Nat) :=
  let (wouldUpper, offset) := leadingWouldUpper options baseIndex randomBytes randomOffset
  let useHyphenAtLeading := hyphenIndex == some baseIndex
  let useHyphenAtTrailing := hyphenIndex == some (baseIndex + 2)
  let (leading, offset) :=
    if useHyphenAtLeading then (some '-', offset)
    else (pickConsonant options wouldUpper (nextByte randomBytes offset), offset + 1)
  match pickVowel options (useHyphenAtLeading && wouldUpper) (nextByte randomBytes offset) with
  | none => .error "vowel is undefined"
  | some vowel =>
    let offset := offset + 1
    if useHyphenAtTrailing then .ok (text leading ++ [vowel] ++ ['-'], offset)
    else do
      let trailing ← pickTrailingConsonant vowel (nextByte randomBytes offset)
      return (text leading ++ [vowel] ++ text trailing, offset + 1)

def listWordStyleHyphenSlots (layout : WordStyleLayout) : List Nat :=
  wordStyleHyphenPositions.filter (· ∈ listConsonantSlots layout)

/-- Either of the two loops that put digits; the first octet is the one at `offset`. -/
def putDigits (randomBytes : List UInt8) : List Nat → List (Option Char) × Nat →
    List (Option Char) × Nat
  | [], state => state
  | index :: rest, (chars, offset) =>
    putDigits randomBytes rest
      (chars.set index (pickRandomChar digits (nextByte randomBytes offset)), offset + 1)

def pickWordHyphen (options : CredentialStyleOptions) (hyphenSlots : List Nat)
    (randomBytes : List UInt8) (offset : Nat) : Option Nat × Nat :=
  if options.allowAtMostOneHyphen && hyphenSlots.length != 0 then
    if nextByte randomBytes offset % 2 == 1 then
      (hyphenSlots[(nextByte randomBytes (offset + 1)).toNat % hyphenSlots.length]?, offset + 2)
    else (none, offset + 1)
  else (none, offset)

def putSyllables (options : CredentialStyleOptions) (layout : WordStyleLayout)
    (hyphenIndex : Option Nat) (randomBytes : List UInt8) :
    List Nat → List (Option Char) × Nat → Except String (List (Option Char))
  | [], (chars, _) => .ok chars
  | syllableIndex :: rest, (chars, offset) => do
    let base := syllableBase layout syllableIndex
    let (syllable, offset) ← generateCvcSyllable options base hyphenIndex randomBytes offset
    putSyllables options layout hyphenIndex randomBytes rest
      ((List.range syllableLength).foldl
        (fun chars index => chars.set (base + index) syllable[index]?) chars, offset)

/-- A position that holds `''` is `none`; it adds nothing to `chars.join('')`. -/
def generateWordStyleCredential (options : CredentialStyleOptions) (randomBytes : List UInt8) :
    Except String (List Char) := do
  let layout := resolveWordStyleLayout options
  let chars := List.replicate credentialLength none
  let digitSuffixStart := credentialLength - layout.digitSuffixLength
  let (chars, offset) := putDigits randomBytes (List.range layout.digitPrefixLength) (chars, 0)
  let (chars, offset) := putDigits randomBytes
    (List.range' digitSuffixStart (credentialLength - digitSuffixStart)) (chars, offset)
  let (hyphenIndex, offset) := pickWordHyphen options (listWordStyleHyphenSlots layout) randomBytes
    offset
  let chars ← putSyllables options layout hyphenIndex randomBytes (List.range layout.syllableCount)
    (chars, offset)
  return chars.reduceOption

def pickHyphenIndex (options : CredentialStyleOptions) (randomByte : UInt8) : Option Nat :=
  if !options.allowAtMostOneHyphen then none
  else if randomByte % 2 == 0 then none
  else
    let validPositions := (List.range credentialLength).filter fun index =>
      !isLetterOnlyPosition index options
    if validPositions.length = 0 then none
    else validPositions[randomByte.toNat % validPositions.length]?

def generateRandomCredential (options : CredentialStyleOptions) (randomBytes : List UInt8) :
    List Char :=
  let hyphenIndex := pickHyphenIndex options (nextByte randomBytes 0)
  (List.range credentialLength).flatMap fun index =>
    if some index = hyphenIndex then ['-']
    else text (pickRandomChar (charsetForPosition index options) (nextByte randomBytes (index + 1)))

/-- `random n` is what `crypto.getRandomValues` fills an array of `n` octets with. -/
def generateStyledCredential (options : CredentialStyleOptions) (random : Nat → List UInt8) :
    Except String (List Char) :=
  match validateCredentialStyle options with
  | some validationError => .error validationError
  | none =>
    if options.wordStyle then generateWordStyleCredential options (random (credentialLength * 4))
    else .ok (generateRandomCredential options (random (credentialLength + 1)))

variable {options : CredentialStyleOptions} {charset : List Char} {c : Char} {i : Nat}

theorem pickRandomChar_mem (h : charset ≠ []) (randomByte : UInt8) :
    ∃ c ∈ charset, pickRandomChar charset randomByte = some c := by
  have hlt : randomByte.toNat % charset.length < charset.length :=
    Nat.mod_lt _ (List.length_pos_of_ne_nil h)
  exact ⟨_, List.getElem_mem hlt, List.getElem?_eq_getElem hlt⟩

theorem mem_letterCharset : c ∈ letterCharset options ↔
    (options.includeUppercase = true ∧ c ∈ uppercase) ∨
      (options.includeLowercase = true ∧ c ∈ lowercase) := by
  rw [letterCharset, List.mem_append]
  cases options.includeUppercase <;> cases options.includeLowercase <;> simp

theorem mem_charsetForPosition (h : c ∈ charsetForPosition i options) :
    c ∈ letterCharset options ∨ c ∈ digits := by
  rw [charsetForPosition] at h
  split_ifs at h
  · exact .inl h
  · exact .inr h
  · exact List.mem_append.mp h

theorem forall_of_all {p : Char → Prop} [DecidablePred p] {l : List Char}
    (h : (l.all fun c => p c) = true) : ∀ c ∈ l, p c := fun c hc =>
  of_decide_eq_true (List.all_eq_true.mp h c hc)

theorem consonants_upper : ∀ c ∈ consonantsUpper, c ∈ uppercase := forall_of_all (by decide +kernel)
theorem consonants_lower : ∀ c ∈ consonantsLower, c ∈ lowercase := forall_of_all (by decide +kernel)
theorem vowels_upper : ∀ c ∈ vowelsUpper, c ∈ uppercase := forall_of_all (by decide +kernel)
theorem vowels_lower : ∀ c ∈ vowelsLower, c ∈ lowercase := forall_of_all (by decide +kernel)
theorem upper_isUpper : ∀ c ∈ uppercase, c ≠ '-' ∧ c.isUpper = true ∧ c.isLower = false :=
  forall_of_all (by decide +kernel)
theorem lower_isLower : ∀ c ∈ lowercase, c ≠ '-' ∧ c.isUpper = false ∧ c.isLower = true :=
  forall_of_all (by decide +kernel)
theorem digits_isDigit : ∀ c ∈ digits, c ≠ '-' ∧ c.isUpper = false ∧ c.isLower = false :=
  forall_of_all (by decide +kernel)

theorem ne_hyphen (h : c ∈ charsetForPosition i options) : c ≠ '-' := by
  rcases mem_charsetForPosition h with hletter | hdigit
  · rcases mem_letterCharset.mp hletter with ⟨-, hc⟩ | ⟨-, hc⟩
    · exact (upper_isUpper c hc).1
    · exact (lower_isLower c hc).1
  · exact (digits_isDigit c hdigit).1

theorem upper_enabled (h : c ∈ charsetForPosition i options) (hc : c.isUpper = true) :
    options.includeUppercase = true := by
  rcases mem_charsetForPosition h with hletter | hdigit
  · rcases mem_letterCharset.mp hletter with ⟨henabled, -⟩ | ⟨-, hm⟩
    · exact henabled
    · rw [(lower_isLower c hm).2.1] at hc
      cases hc
  · rw [(digits_isDigit c hdigit).2.1] at hc
    cases hc

theorem lower_enabled (h : c ∈ charsetForPosition i options) (hc : c.isLower = true) :
    options.includeLowercase = true := by
  rcases mem_charsetForPosition h with hletter | hdigit
  · rcases mem_letterCharset.mp hletter with ⟨-, hm⟩ | ⟨henabled, -⟩
    · rw [(upper_isUpper c hm).2.2] at hc
      cases hc
    · exact henabled
  · rw [(digits_isDigit c hdigit).2.2] at hc
    cases hc

/-- The credential keeps to its style. -/
structure Respects (options : CredentialStyleOptions) (credential : List Char) : Prop where
  length : credential.length = 12
  hyphens : credential.count '-' ≤ 1
  allowed : '-' ∈ credential → options.allowAtMostOneHyphen = true
  positions : ∀ i c, credential[i]? = some c → c ≠ '-' → c ∈ charsetForPosition i options
  cases : ∀ c ∈ credential, (c.isUpper = true → options.includeUppercase = true) ∧
    (c.isLower = true → options.includeLowercase = true)

/-- An element that stands at one position only. -/
theorem count_le_one {α : Type} [DecidableEq α] {l : List α} {a : α} (place : Option Nat)
    (h : ∀ i, l[i]? = some a → place = some i) : l.count a ≤ 1 := by
  induction l generalizing place with
  | nil => exact Nat.zero_le _
  | cons b rest ih =>
    by_cases hb : b = a
    · subst hb
      have hplace := h 0 rfl
      have hrest : rest.count b = 0 := by
        refine List.count_eq_zero.mpr fun hm => ?_
        obtain ⟨i, hi⟩ := List.getElem?_of_mem hm
        have hother := h (i + 1) hi
        rw [hplace] at hother
        cases hother
      have hcount : (b :: rest).count b = 1 := by rw [List.count_cons_self, hrest]
      exact Nat.le_of_eq hcount
    · rw [List.count_cons_of_ne hb]
      refine ih (place.map (· - 1)) fun i hi => ?_
      rw [h (i + 1) hi]
      rfl

/-- A hyphen at one place at most, and at the others what the position allows. -/
theorem respects_of_placed {credential : List Char} (place : Option Nat)
    (hlength : credential.length = 12)
    (hallowed : place ≠ none → options.allowAtMostOneHyphen = true)
    (hplaced : ∀ i c, credential[i]? = some c →
      (place = some i ∧ c = '-') ∨ c ∈ charsetForPosition i options) :
    Respects options credential where
  length := hlength
  hyphens := by
    refine count_le_one place fun i hi => ?_
    rcases hplaced i _ hi with ⟨hplace, -⟩ | hm
    · exact hplace
    · exact absurd rfl (ne_hyphen hm)
  allowed hm := by
    obtain ⟨i, hi⟩ := List.getElem?_of_mem hm
    rcases hplaced i _ hi with ⟨hplace, -⟩ | hm
    · exact hallowed (by rw [hplace]; exact Option.some_ne_none i)
    · exact absurd rfl (ne_hyphen hm)
  positions i c hi hc := (hplaced i c hi).resolve_left fun h => hc h.2
  cases c hm := by
    obtain ⟨i, hi⟩ := List.getElem?_of_mem hm
    rcases hplaced i c hi with ⟨-, rfl⟩ | hm
    · exact ⟨fun h => absurd h (by decide), fun h => absurd h (by decide)⟩
    · exact ⟨upper_enabled hm, lower_enabled hm⟩

/-- What `validateCredentialStyle` leaves. -/
structure Accepted (options : CredentialStyleOptions) : Prop where
  halves : options.lettersOnlyFirstSix = false ∨ options.lettersOnlyLastSix = false
  word : options.wordStyle = true →
    options.includeUppercase = true ∨ options.includeLowercase = true
  charsets : ∀ i < 12, charsetForPosition i options ≠ []

theorem accepted_of_validate (h : validateCredentialStyle options = none) : Accepted options := by
  rw [validateCredentialStyle] at h
  split_ifs at h with hhalves hword hcharsets hlast
  refine ⟨?_, fun hw => ?_, fun i hi hempty => hcharsets ?_⟩
  · cases hf : options.lettersOnlyFirstSix <;> cases hl : options.lettersOnlyLastSix <;> simp_all
  · cases hu : options.includeUppercase <;> cases hl : options.includeLowercase <;>
      simp_all [canUseWordStyle]
  · rw [List.any_eq_true]
    refine ⟨i, List.mem_range.mpr hi, ?_⟩
    rw [hempty]
    rfl

theorem flatMap_singletons {α : Type} {n : Nat} {f : Nat → List α} {Q : Nat → α → Prop}
    (h : ∀ i < n, ∃ a, f i = [a] ∧ Q i a) :
    ((List.range n).flatMap f).length = n ∧
      ∀ i a, ((List.range n).flatMap f)[i]? = some a → Q i a := by
  induction n with
  | zero => exact ⟨rfl, fun i a hi => by cases hi⟩
  | succ n ih =>
    obtain ⟨hlength, hall⟩ := ih fun i hi => h i (Nat.lt_succ_of_lt hi)
    obtain ⟨a, hf, ha⟩ := h n (Nat.lt_succ_self n)
    rw [List.range_succ, List.flatMap_append, List.flatMap_singleton, hf]
    refine ⟨by rw [List.length_append, hlength]; rfl, fun i b hi => ?_⟩
    rcases Nat.lt_or_ge i n with hlt | hge
    · rw [List.getElem?_append_left (by omega)] at hi
      exact hall i b hi
    · rw [List.getElem?_append_right (by omega), hlength] at hi
      obtain ⟨hin, hb⟩ := List.getElem?_eq_some_iff.mp hi
      rw [List.length_singleton] at hin
      obtain rfl : i = n := by omega
      rw [← hb]
      simpa using ha

theorem pickHyphenIndex_allowed {randomByte : UInt8} (h : pickHyphenIndex options randomByte ≠ none) :
    options.allowAtMostOneHyphen = true := by
  rw [pickHyphenIndex] at h
  cases hallow : options.allowAtMostOneHyphen with
  | true => rfl
  | false =>
    rw [hallow] at h
    exact absurd rfl h

theorem random_respects (h : Accepted options) (randomBytes : List UInt8) :
    Respects options (generateRandomCredential options randomBytes) := by
  rw [generateRandomCredential]
  obtain ⟨hlength, hplaced⟩ := flatMap_singletons (n := credentialLength)
    (Q := fun i c => (pickHyphenIndex options (nextByte randomBytes 0) = some i ∧ c = '-') ∨
      c ∈ charsetForPosition i options)
    (f := fun index => if some index = pickHyphenIndex options (nextByte randomBytes 0) then ['-']
      else text (pickRandomChar (charsetForPosition index options)
        (nextByte randomBytes (index + 1)))) (fun i hi => by
      by_cases hhere : some i = pickHyphenIndex options (nextByte randomBytes 0)
      · exact ⟨'-', if_pos hhere, .inl ⟨hhere.symm, rfl⟩⟩
      · obtain ⟨c, hc, hpick⟩ := pickRandomChar_mem (h.charsets i hi)
          (nextByte randomBytes (i + 1))
        exact ⟨c, (if_neg hhere).trans (by rw [hpick]; rfl), .inr hc⟩)
  exact respects_of_placed _ hlength pickHyphenIndex_allowed hplaced

theorem pickConsonant_mem (h : options.includeUppercase = true ∨ options.includeLowercase = true)
    (uppercase : Bool) (randomByte : UInt8) :
    ∃ c ∈ letterCharset options, pickConsonant options uppercase randomByte = some c := by
  rw [pickConsonant]
  split_ifs with hupper hlower
  · obtain ⟨c, hc, hpick⟩ := pickRandomChar_mem (by decide : consonantsUpper ≠ []) randomByte
    rw [Bool.and_eq_true] at hupper
    exact ⟨c, mem_letterCharset.mpr (.inl ⟨hupper.2, consonants_upper c hc⟩), hpick⟩
  · obtain ⟨c, hc, hpick⟩ := pickRandomChar_mem (by decide : consonantsLower ≠ []) randomByte
    exact ⟨c, mem_letterCharset.mpr (.inr ⟨hlower, consonants_lower c hc⟩), hpick⟩
  · obtain ⟨c, hc, hpick⟩ := pickRandomChar_mem (by decide : consonantsUpper ≠ []) randomByte
    exact ⟨c, mem_letterCharset.mpr (.inl ⟨h.resolve_right hlower, consonants_upper c hc⟩), hpick⟩

theorem pickVowel_mem (h : options.includeUppercase = true ∨ options.includeLowercase = true)
    (uppercase : Bool) (randomByte : UInt8) :
    ∃ c ∈ letterCharset options, pickVowel options uppercase randomByte = some c := by
  rw [pickVowel]
  split_ifs with hupper hlower
  · obtain ⟨c, hc, hpick⟩ := pickRandomChar_mem (by decide : vowelsUpper ≠ []) randomByte
    rw [Bool.and_eq_true] at hupper
    exact ⟨c, mem_letterCharset.mpr (.inl ⟨hupper.2, vowels_upper c hc⟩), hpick⟩
  · obtain ⟨c, hc, hpick⟩ := pickRandomChar_mem (by decide : vowelsLower ≠ []) randomByte
    exact ⟨c, mem_letterCharset.mpr (.inr ⟨hlower, vowels_lower c hc⟩), hpick⟩
  · obtain ⟨c, hc, hpick⟩ := pickRandomChar_mem (by decide : vowelsUpper ≠ []) randomByte
    exact ⟨c, mem_letterCharset.mpr (.inl ⟨h.resolve_right hlower, vowels_upper c hc⟩), hpick⟩

/-- No vowel leaves the trailing position without a consonant, and all of them are lowercase. -/
theorem pickTrailingConsonant_mem (vowel : Char) (randomByte : UInt8) :
    ∃ c ∈ lowercase, pickTrailingConsonant vowel randomByte = .ok (some c) := by
  have hmem : 'b' ∈ buildTrailingConsonantCharset vowel := by
    rw [buildTrailingConsonantCharset, List.mem_filter]
    exact ⟨by decide +kernel, by simp [forbiddenTrailingConsonants]⟩
  have hne : buildTrailingConsonantCharset vowel ≠ [] := List.ne_nil_of_mem hmem
  obtain ⟨c, hc, hpick⟩ := pickRandomChar_mem hne randomByte
  refine ⟨c, consonants_lower c (List.mem_of_mem_filter hc), ?_⟩
  rw [pickTrailingConsonant, if_neg (fun h => hne (List.eq_nil_of_length_eq_zero h)), hpick]

/-- What a syllable of a word leaves at a position, given whether the hyphen is there. -/
inductive Letter (options : CredentialStyleOptions) : Nat → Prop → Char → Prop where
  | leading {hyphen : Prop} {c : Char} (h : (hyphen ∧ c = '-') ∨ (¬ hyphen ∧ c ∈ letterCharset options)) :
      Letter options 0 hyphen c
  | vowel {hyphen : Prop} {c : Char} (h : c ∈ letterCharset options) : Letter options 1 hyphen c
  | trailing {hyphen : Prop} {c : Char} (h : (hyphen ∧ c = '-') ∨ (¬ hyphen ∧ c ∈ lowercase)) :
      Letter options 2 hyphen c

theorem generateCvcSyllable_ok
    (h : options.includeUppercase = true ∨ options.includeLowercase = true) (baseIndex : Nat)
    (hyphenIndex : Option Nat) (randomBytes : List UInt8) (randomOffset : Nat) :
    ∃ l v t offset, generateCvcSyllable options baseIndex hyphenIndex randomBytes randomOffset =
        .ok ([l, v, t], offset) ∧
      Letter options 0 (hyphenIndex = some baseIndex) l ∧
      Letter options 1 (hyphenIndex = some (baseIndex + 1)) v ∧
      Letter options 2 (hyphenIndex = some (baseIndex + 2)) t := by
  rw [generateCvcSyllable]
  generalize leadingWouldUpper options baseIndex randomBytes randomOffset = upper
  obtain ⟨wouldUpper, offset⟩ := upper
  obtain ⟨l, offset₁, hl, hleading⟩ : ∃ l offset₁,
      (if (hyphenIndex == some baseIndex) = true then (some '-', offset)
        else (pickConsonant options wouldUpper (nextByte randomBytes offset), offset + 1)) =
        (some l, offset₁) ∧ Letter options 0 (hyphenIndex = some baseIndex) l := by
    by_cases hhyphen : hyphenIndex = some baseIndex
    · exact ⟨'-', offset, if_pos (beq_iff_eq.mpr hhyphen), .leading (.inl ⟨hhyphen, rfl⟩)⟩
    · obtain ⟨c, hc, hpick⟩ := pickConsonant_mem h wouldUpper (nextByte randomBytes offset)
      refine ⟨c, offset + 1, ?_, .leading (.inr ⟨hhyphen, hc⟩)⟩
      rw [if_neg (fun hb => hhyphen (beq_iff_eq.mp hb)), hpick]
  dsimp only
  rw [hl]
  dsimp only
  obtain ⟨v, hv, hvowel⟩ := pickVowel_mem h ((hyphenIndex == some baseIndex) && wouldUpper)
    (nextByte randomBytes offset₁)
  rw [hvowel]
  dsimp only
  by_cases hhyphen : hyphenIndex = some (baseIndex + 2)
  · exact ⟨l, v, '-', offset₁ + 1, if_pos (beq_iff_eq.mpr hhyphen), hleading, .vowel hv,
      .trailing (.inl ⟨hhyphen, rfl⟩)⟩
  · obtain ⟨t, ht, htrailing⟩ := pickTrailingConsonant_mem v (nextByte randomBytes (offset₁ + 1))
    refine ⟨l, v, t, offset₁ + 2, ?_, hleading, .vowel hv, .trailing (.inr ⟨hhyphen, ht⟩)⟩
    rw [if_neg (fun hb => hhyphen (beq_iff_eq.mp hb)), htrailing]
    rfl

/-- The twelve positions; those that `P` picks hold a character with `Q`. -/
structure Filled (Q : Nat → Char → Prop) (P : Nat → Prop) (chars : List (Option Char)) : Prop where
  length : chars.length = 12
  holds : ∀ j < 12, P j → ∃ c, chars[j]? = some (some c) ∧ Q j c

variable {Q : Nat → Char → Prop} {P R : Nat → Prop} {chars : List (Option Char)}

theorem Filled.mono (h : Filled Q P chars) (hR : ∀ j < 12, R j → P j) : Filled Q R chars :=
  ⟨h.length, fun j hj hpick => h.holds j hj (hR j hj hpick)⟩

theorem Filled.set (h : Filled Q P chars) {j : Nat} (hQ : Q j c) :
    Filled Q (fun k => P k ∨ k = j) (chars.set j (some c)) := by
  refine ⟨by rw [List.length_set, h.length], fun k hk hpick => ?_⟩
  by_cases hkj : k = j
  · subst hkj
    exact ⟨c, List.getElem?_set_self (by rw [h.length]; exact hk), hQ⟩
  · rw [List.getElem?_set_ne (Ne.symm hkj)]
    exact h.holds k hk (hpick.resolve_right hkj)

theorem putDigits_filled (randomBytes : List UInt8) (indices : List Nat)
    (state : List (Option Char) × Nat) (h : Filled Q P state.1)
    (hQ : ∀ j ∈ indices, ∀ c ∈ digits, Q j c) :
    Filled Q (fun k => P k ∨ k ∈ indices) (putDigits randomBytes indices state).1 := by
  induction indices generalizing state P with
  | nil => exact h.mono fun j _ hj => hj.resolve_right (by simp)
  | cons j rest ih =>
    obtain ⟨chars, offset⟩ := state
    obtain ⟨c, hc, hpick⟩ := pickRandomChar_mem (by decide : digits ≠ [])
      (nextByte randomBytes offset)
    rw [putDigits, hpick]
    refine (ih (chars.set j (some c), offset + 1) (h.set (hQ j List.mem_cons_self c hc))
      fun k hk => hQ k (List.mem_cons_of_mem j hk)).mono fun k _ hk => ?_
    rw [List.mem_cons] at hk
    exact or_assoc.mpr hk

/-- A syllable is put at its three positions. -/
theorem putSyllables_filled
    (hletters : options.includeUppercase = true ∨ options.includeLowercase = true)
    (layout : WordStyleLayout) (hyphenIndex : Option Nat) (randomBytes : List UInt8)
    (syllables : List Nat) (state : List (Option Char) × Nat) (h : Filled Q P state.1)
    (hQ : ∀ s ∈ syllables, ∀ k c, Letter options k (hyphenIndex = some (syllableBase layout s + k)) c →
      Q (syllableBase layout s + k) c) :
    ∃ chars', putSyllables options layout hyphenIndex randomBytes syllables state = .ok chars' ∧
      Filled Q (fun j => P j ∨ ∃ s ∈ syllables, ∃ k < 3, j = syllableBase layout s + k) chars' := by
  induction syllables generalizing state P with
  | nil => exact ⟨state.1, rfl, h.mono fun j _ hj => hj.resolve_right (by simp)⟩
  | cons s rest ih =>
    obtain ⟨chars, offset⟩ := state
    obtain ⟨l, v, t, offset', hsyllable, hleading, hvowel, htrailing⟩ :=
      generateCvcSyllable_ok hletters (syllableBase layout s) hyphenIndex randomBytes offset
    have hs := hQ s List.mem_cons_self
    have hfilled := ((h.set (hs 0 l hleading)).set (hs 1 v hvowel)).set (hs 2 t htrailing)
    obtain ⟨chars', hput, hfilled'⟩ := ih (_, offset') hfilled
      fun s' hs' => hQ s' (List.mem_cons_of_mem s hs')
    refine ⟨chars', ?_, hfilled'.mono fun j _ hj => ?_⟩
    · rw [putSyllables, hsyllable]
      exact hput
    · rcases hj with hj | ⟨s', hs', k, hk, rfl⟩
      · exact .inl (.inl (.inl (.inl hj)))
      · rcases List.mem_cons.mp hs' with rfl | hrest
        · left
          obtain rfl | rfl | rfl : k = 0 ∨ k = 1 ∨ k = 2 := by omega
          · exact .inl (.inl (.inr rfl))
          · exact .inl (.inr rfl)
          · exact .inr rfl
        · exact .inr ⟨s', hrest, k, hk, rfl⟩

/-- Once every position is filled, the joined text is as long as the array. -/
theorem Filled.joined (h : Filled Q (fun _ => True) chars) :
    chars.reduceOption.length = 12 ∧ ∀ j c, chars.reduceOption[j]? = some c → Q j c := by
  have hall : ∀ n, chars.length = n → ∀ Q : Nat → Char → Prop,
      (∀ j < n, ∃ c, chars[j]? = some (some c) ∧ Q j c) →
      chars.reduceOption.length = n ∧ ∀ j c, chars.reduceOption[j]? = some c → Q j c := by
    clear h
    induction chars with
    | nil =>
      intro n hn Q _
      exact ⟨hn, fun j c hj => by cases hj⟩
    | cons first rest ih =>
      intro n hn Q hholds
      obtain ⟨c, hc, hQ⟩ := hholds 0 (by rw [← hn]; exact Nat.succ_pos _)
      cases hc
      obtain ⟨m, rfl⟩ : ∃ m, n = m + 1 := ⟨rest.length, hn.symm⟩
      obtain ⟨hlength, hrest⟩ := ih m (Nat.succ.inj hn) (fun j => Q (j + 1))
        fun j hj => hholds (j + 1) (by omega)
      rw [List.reduceOption_cons_of_some]
      refine ⟨by rw [List.length_cons, hlength], fun j d hj => ?_⟩
      cases j with
      | zero =>
        cases hj
        exact hQ
      | succ j => exact hrest j d hj
  exact hall 12 h.length Q fun j hj => h.holds j hj trivial

/-- The positions of the digits around the word. -/
def DigitPosition (layout : WordStyleLayout) (j : Nat) : Prop :=
  j < layout.digitPrefixLength ∨ 12 - layout.digitSuffixLength ≤ j

/-- What stands at a position of a word-style credential. -/
def Written (options : CredentialStyleOptions) (hyphenIndex : Option Nat) (j : Nat) (c : Char) : Prop :=
  (DigitPosition (resolveWordStyleLayout options) j ∧ c ∈ digits) ∨
    ∃ s < (resolveWordStyleLayout options).syllableCount, ∃ k < 3,
      j = syllableBase (resolveWordStyleLayout options) s + k ∧
        Letter options k (hyphenIndex = some j) c

/-- Digits and syllables cover the credential. -/
theorem layout_covers (options : CredentialStyleOptions) (j : Nat) (hj : j < 12) :
    DigitPosition (resolveWordStyleLayout options) j ∨
    ∃ s < (resolveWordStyleLayout options).syllableCount, ∃ k < 3,
      j = syllableBase (resolveWordStyleLayout options) s + k := by
  rw [resolveWordStyleLayout]
  split_ifs
  · rcases Nat.lt_or_ge j 6 with hlt | hge
    · exact .inr ⟨j / 3, by simp only; omega, j % 3, by omega,
        by simp only [syllableBase, syllableLength]; omega⟩
    · exact .inl (.inr hge)
  · rcases Nat.lt_or_ge j 6 with hlt | hge
    · exact .inl (.inl hlt)
    · exact .inr ⟨(j - 6) / 3, by simp only; omega, (j - 6) % 3, by omega,
        by simp only [syllableBase, syllableLength, credentialLength]; omega⟩
  · exact .inr ⟨j / 3, by simp only [syllableLength, credentialLength]; omega, j % 3, by omega,
      by simp only [syllableBase, syllableLength]; omega⟩

theorem pickWordHyphen_mem {slots : List Nat} {randomBytes : List UInt8} {offset j : Nat}
    (h : (pickWordHyphen options slots randomBytes offset).1 = some j) :
    options.allowAtMostOneHyphen = true ∧ j ∈ slots := by
  rw [pickWordHyphen] at h
  split_ifs at h with hallow hodd
  · rw [Bool.and_eq_true] at hallow
    exact ⟨hallow.1, List.mem_of_getElem? h⟩

theorem word_written (h : options.includeUppercase = true ∨ options.includeLowercase = true)
    (randomBytes : List UInt8) :
    ∃ credential hyphenIndex, generateWordStyleCredential options randomBytes = .ok credential ∧
      (∀ j, hyphenIndex = some j → options.allowAtMostOneHyphen = true ∧
        j ∈ listWordStyleHyphenSlots (resolveWordStyleLayout options)) ∧
      credential.length = 12 ∧
      ∀ j c, credential[j]? = some c → Written options hyphenIndex j c := by
  obtain ⟨layout, hlayout⟩ : ∃ layout, resolveWordStyleLayout options = layout := ⟨_, rfl⟩
  obtain ⟨first, hfirst⟩ : ∃ first, putDigits randomBytes (List.range layout.digitPrefixLength)
    (List.replicate credentialLength none, 0) = first := ⟨_, rfl⟩
  obtain ⟨second, hsecond⟩ : ∃ second, putDigits randomBytes
    (List.range' (credentialLength - layout.digitSuffixLength)
      (credentialLength - (credentialLength - layout.digitSuffixLength))) first = second := ⟨_, rfl⟩
  obtain ⟨hyphen, hhyphen⟩ : ∃ hyphen, pickWordHyphen options (listWordStyleHyphenSlots layout)
    randomBytes second.2 = hyphen := ⟨_, rfl⟩
  have hcredential : generateWordStyleCredential options randomBytes =
      (putSyllables options layout hyphen.1 randomBytes (List.range layout.syllableCount)
        (second.1, hyphen.2)).map List.reduceOption := by
    rw [generateWordStyleCredential]
    simp only [hlayout, hfirst, hsecond, hhyphen]
    cases putSyllables options layout hyphen.1 randomBytes (List.range layout.syllableCount)
      (second.1, hyphen.2) <;> rfl
  have hdigit (j : Nat) (hj : DigitPosition layout j) (c : Char) (hc : c ∈ digits) :
      Written options hyphen.1 j c := by
    rw [← hlayout] at hj
    exact .inl ⟨hj, hc⟩
  have hempty : Filled (Written options hyphen.1) (fun _ => False)
      (List.replicate credentialLength none) := ⟨rfl, fun _ _ h => h.elim⟩
  have hfilled₁ := putDigits_filled randomBytes (List.range layout.digitPrefixLength)
    (List.replicate credentialLength none, 0) hempty
    fun j hj => hdigit j (.inl (List.mem_range.mp hj))
  rw [hfirst] at hfilled₁
  have hfilled₂ := putDigits_filled randomBytes (List.range'
      (credentialLength - layout.digitSuffixLength)
      (credentialLength - (credentialLength - layout.digitSuffixLength))) first hfilled₁
    fun j hj => hdigit j (.inr (List.mem_range'_1.mp hj).1)
  rw [hsecond] at hfilled₂
  have hletter (s : Nat) (hs : s ∈ List.range layout.syllableCount) (k : Nat) (c : Char)
      (hletter : Letter options k (hyphen.1 = some (syllableBase layout s + k)) c) :
      Written options hyphen.1 (syllableBase layout s + k) c := by
    have hk : k < 3 := by cases hletter <;> decide
    rw [← hlayout] at hletter hs ⊢
    exact .inr ⟨s, List.mem_range.mp hs, k, hk, rfl, hletter⟩
  obtain ⟨chars, hput, hfilled₃⟩ := putSyllables_filled h layout hyphen.1 randomBytes _
    (second.1, hyphen.2) hfilled₂ hletter
  have hall : Filled (Written options hyphen.1) (fun _ => True) chars := by
    refine hfilled₃.mono fun j hj _ => ?_
    have hcovers := layout_covers options j hj
    rw [hlayout] at hcovers
    rcases hcovers with (hlow | hhigh) | ⟨s, hs, k, hk, hjk⟩
    · exact .inl (.inl (.inr (List.mem_range.mpr hlow)))
    · refine .inl (.inr (List.mem_range'_1.mpr ⟨hhigh, ?_⟩))
      rw [credentialLength]
      omega
    · exact .inr ⟨s, List.mem_range.mpr hs, k, hk, hjk⟩
  obtain ⟨hlength, hwritten⟩ := hall.joined
  refine ⟨chars.reduceOption, hyphen.1, ?_, fun j hj => ?_, hlength, hwritten⟩
  · rw [hcredential, hput]
    rfl
  · rw [← hhyphen] at hj
    rw [hlayout]
    exact pickWordHyphen_mem hj

theorem syllable_position (h : Accepted options) {s k : Nat}
    (hs : s < (resolveWordStyleLayout options).syllableCount) (hk : k < 3) :
    isDigitOnlyPosition (syllableBase (resolveWordStyleLayout options) s + k) options = false := by
  have hhalves := h.halves
  rw [resolveWordStyleLayout] at hs ⊢
  cases hfirst : options.lettersOnlyFirstSix <;> cases hlast : options.lettersOnlyLastSix <;>
    simp [hfirst, hlast, isDigitOnlyPosition, isFirstHalf, syllableBase, syllableLength,
      credentialLength] at hs hhalves ⊢
  · omega
  · omega

theorem digit_position (h : Accepted options) {j : Nat} (hj : j < 12)
    (hdigit : DigitPosition (resolveWordStyleLayout options) j) :
    charsetForPosition j options = digits := by
  have hhalves := h.halves
  rw [DigitPosition, resolveWordStyleLayout] at hdigit
  cases hfirst : options.lettersOnlyFirstSix <;> cases hlast : options.lettersOnlyLastSix <;>
    simp [hfirst, hlast, credentialLength] at hdigit hhalves
  · omega
  · have hhalf : isFirstHalf j = true := decide_eq_true (show j < 6 by omega)
    simp [charsetForPosition, isLetterOnlyPosition, isDigitOnlyPosition, hfirst, hlast, hhalf]
  · have hhalf : isFirstHalf j = false := decide_eq_false (show ¬ j < 6 by omega)
    simp [charsetForPosition, isLetterOnlyPosition, isDigitOnlyPosition, hfirst, hlast, hhalf]

theorem letter_mem (hj : isDigitOnlyPosition i options = false) (hc : c ∈ letterCharset options) :
    c ∈ charsetForPosition i options := by
  rw [charsetForPosition, hj]
  split
  · exact hc
  · exact List.mem_append_left _ hc

/-- With lowercase letters enabled, a word keeps to its style. -/
theorem word_respects (h : Accepted options) (hword : options.wordStyle = true)
    (hlower : options.includeLowercase = true) (randomBytes : List UInt8) :
    ∃ credential, generateWordStyleCredential options randomBytes = .ok credential ∧
      Respects options credential := by
  obtain ⟨credential, hyphenIndex, hok, hslots, hlength, hwritten⟩ :=
    word_written (h.word hword) randomBytes
  refine ⟨credential, hok, respects_of_placed hyphenIndex hlength ?_ fun j c hj => ?_⟩
  · intro hsome
    obtain ⟨j, hj⟩ := Option.ne_none_iff_exists'.mp hsome
    exact (hslots j hj).1
  · have hlt : j < 12 := by
      rw [← hlength]
      exact (List.getElem?_eq_some_iff.mp hj).1
    rcases hwritten j c hj with ⟨hdigit, hc⟩ | ⟨s, hs, k, hk, rfl, hletter⟩
    · rw [digit_position h hlt hdigit]
      exact .inr hc
    · have hposition := syllable_position h hs hk
      cases hletter with
      | leading hc => exact hc.imp_right fun hc => letter_mem hposition hc.2
      | vowel hc => exact .inr (letter_mem hposition hc)
      | trailing hc =>
        exact hc.imp_right fun hc => letter_mem hposition (mem_letterCharset.mpr (.inr ⟨hlower, hc.2⟩))

/-- The first syllable's last letter is lowercase whatever the style says. -/
theorem word_has_lowercase (h : options.includeUppercase = true ∨ options.includeLowercase = true)
    {randomBytes : List UInt8} {credential : List Char}
    (hok : generateWordStyleCredential options randomBytes = .ok credential) :
    ∃ c ∈ credential, c.isLower = true := by
  obtain ⟨credential', hyphenIndex, hok', hslots, hlength, hwritten⟩ := word_written h randomBytes
  rw [hok, Except.ok.injEq] at hok'
  subst hok'
  obtain ⟨start, hstart⟩ : ∃ start, (resolveWordStyleLayout options).wordStart = start := ⟨_, rfl⟩
  have hlayout : start = 0 ∨ start = 6 := by
    rw [← hstart, resolveWordStyleLayout]
    split_ifs
    · exact .inl rfl
    · exact .inr rfl
    · exact .inl rfl
  have hdigits : ¬ DigitPosition (resolveWordStyleLayout options) (start + 2) := by
    rw [← hstart, DigitPosition, resolveWordStyleLayout]
    split_ifs <;> simp [credentialLength]
  have hlt : start + 2 < credential.length := by omega
  obtain ⟨c, hc⟩ : ∃ c, credential[start + 2]? = some c := ⟨_, List.getElem?_eq_getElem hlt⟩
  refine ⟨c, List.mem_of_getElem? hc, ?_⟩
  rcases hwritten _ c hc with ⟨hdigit, -⟩ | ⟨s, -, k, hk, hplace, hletter⟩
  · exact absurd hdigit hdigits
  · rw [syllableBase, hstart, syllableLength] at hplace
    obtain rfl : k = 2 := by omega
    cases hletter with
    | trailing hc =>
      rcases hc with ⟨hhyphen, -⟩ | ⟨-, hc⟩
      · have hslot := (hslots _ hhyphen).2
        rw [listWordStyleHyphenSlots] at hslot
        have hslot := List.mem_of_mem_filter hslot
        simp only [wordStyleHyphenPositions, List.mem_cons, List.not_mem_nil, or_false] at hslot
        omega
      · exact (lower_isLower c hc).2.2

/-- For every accepted style and all random octets: the credential keeps to the style unless it is to
be a word without lowercase letters. -/
theorem styled_respects_iff (options : CredentialStyleOptions) (random : Nat → List UInt8)
    (hvalid : validateCredentialStyle options = none) :
    (∃ credential, generateStyledCredential options random = .ok credential ∧
      Respects options credential) ↔
    (options.wordStyle = true → options.includeLowercase = true) := by
  have haccepted := accepted_of_validate hvalid
  rw [generateStyledCredential, hvalid]
  dsimp only
  cases hword : options.wordStyle with
  | false =>
    rw [if_neg Bool.false_ne_true]
    refine ⟨fun _ h => absurd h Bool.false_ne_true, fun _ => ?_⟩
    exact ⟨_, rfl, random_respects haccepted _⟩
  | true =>
    rw [if_pos rfl]
    constructor
    · rintro ⟨credential, hok, hrespects⟩ -
      obtain ⟨c, hm, hc⟩ := word_has_lowercase (haccepted.word hword) hok
      exact (hrespects.cases c hm).2 hc
    · intro hlower
      exact word_respects haccepted hword (hlower rfl) _

def uppercaseWords : CredentialStyleOptions :=
  { defaultCredentialStyle with includeLowercase := false, wordStyle := true }

def hyphenatedWords : CredentialStyleOptions :=
  { defaultCredentialStyle with allowAtMostOneHyphen := true, wordStyle := true }

theorem styled_respects_hyphenated :
    generateStyledCredential hyphenatedWords (fun n => List.replicate n 1) =
      .ok "Ceccec-Eccec".toList ∧ Respects hyphenatedWords "Ceccec-Eccec".toList := by
  have hcredential : generateStyledCredential hyphenatedWords (fun n => List.replicate n 1) =
      .ok "Ceccec-Eccec".toList := by decide +kernel
  obtain ⟨credential, hok, hrespects⟩ := (styled_respects_iff hyphenatedWords
    (fun n => List.replicate n 1) (by decide +kernel)).mpr fun _ => rfl
  obtain rfl := Except.ok.inj (hcredential.symm.trans hok)
  exact ⟨hcredential, hrespects⟩

/-- All octets 0 give `BAbBAbBAbBAb`. -/
theorem uppercase_words_mixed : validateCredentialStyle uppercaseWords = none ∧
    ¬ ∃ credential, generateStyledCredential uppercaseWords (fun n => List.replicate n 0) =
      .ok credential ∧ Respects uppercaseWords credential := by
  refine ⟨by decide +kernel, ?_⟩
  rintro ⟨credential, hok, hrespects⟩
  have hcredential : generateStyledCredential uppercaseWords (fun n => List.replicate n 0) =
      .ok "BAbBAbBAbBAb".toList := by decide +kernel
  rw [hcredential, Except.ok.injEq] at hok
  have henabled := (hrespects.cases 'b' (by rw [← hok]; decide +kernel)).2 (by decide)
  cases henabled

end TwelveC.Client.CredentialStyle
