import Mathlib.Data.List.DropRight
import Mathlib.Data.List.Infix

/-!
# UTF-8 text as a list of octets

A character is a lead octet and up to three continuation octets; a lead octet
below 128 is a whole character. The longest run of whole characters within a
limit is compared with what cutting at the limit and dropping the continuation
octets at the end leaves.
-/

namespace TwelveC.Lib.Utf8

def encode (chars : List Char) : List UInt8 := chars.flatMap String.utf8EncodeChar

def isContinuation (c : UInt8) : Bool := c &&& 0xC0 == 0x80

@[simp] theorem encode_nil : encode [] = [] := rfl

@[simp] theorem encode_cons (c : Char) (chars : List Char) :
    encode (c :: chars) = String.utf8EncodeChar c ++ encode chars := rfl

@[simp] theorem encode_append (a b : List Char) : encode (a ++ b) = encode a ++ encode b := by
  simp [encode]

theorem isContinuation_iff (c : UInt8) :
    isContinuation c = true ↔ 128 ≤ c.toNat ∧ c.toNat < 192 := by
  have hall : ∀ n : Fin 256, (isContinuation (UInt8.ofNat n) = true ↔
      128 ≤ (n : Nat) ∧ (n : Nat) < 192) := by decide +kernel
  simpa using hall ⟨c.toNat, c.toNat_lt⟩

/-- The octets of one character: a lead, then continuation octets, none exactly for an ASCII one. -/
structure OneChar (octets : List UInt8) (lead : UInt8) (conts : List UInt8) : Prop where
  octets_eq : octets = lead :: conts
  starts : isContinuation lead = false
  continues : ∀ b ∈ conts, isContinuation b = true
  length_le : conts.length ≤ 3
  single : conts = [] ↔ lead.toNat < 128

theorem oneChar (c : Char) : ∃ lead conts, OneChar (String.utf8EncodeChar c) lead conts := by
  have hcont : ∀ n, isContinuation (UInt8.ofNat (n % 64 + 128)) = true := by
    intro n
    rw [isContinuation_iff, UInt8.toNat_ofNat']
    omega
  have hlead : ∀ n, 192 ≤ n → n < 256 →
      isContinuation (UInt8.ofNat n) = false ∧ ¬ (UInt8.ofNat n).toNat < 128 := by
    intro n h₁ h₂
    rw [Bool.eq_false_iff, Ne, isContinuation_iff, UInt8.toNat_ofNat']
    omega
  rw [String.utf8EncodeChar]
  generalize c.val.toNat = v
  split
  · refine ⟨_, _, rfl, ?_, by simp, by simp, by simp; omega⟩
    rw [Bool.eq_false_iff, Ne, isContinuation_iff, UInt8.toNat_ofNat']
    omega
  · split
    · obtain ⟨h₁, h₂⟩ := hlead (v / 64 % 32 + 192) (by omega) (by omega)
      exact ⟨_, _, rfl, h₁, by simp [-UInt8.ofNat_add, hcont], by simp, by simpa using h₂⟩
    · split
      · obtain ⟨h₁, h₂⟩ := hlead (v / 4096 % 16 + 224) (by omega) (by omega)
        exact ⟨_, _, rfl, h₁, by simp [-UInt8.ofNat_add, hcont], by simp, by simpa using h₂⟩
      · obtain ⟨h₁, h₂⟩ := hlead (v / 262144 % 8 + 240) (by omega) (by omega)
        exact ⟨_, _, rfl, h₁, by simp [-UInt8.ofNat_add, hcont], by simp, by simpa using h₂⟩

/-- An octet below 128 is a whole character. -/
theorem utf8EncodeChar_of_ascii {c : Char} {b : UInt8} (hb : b ∈ String.utf8EncodeChar c)
    (h : b.toNat < 128) : String.utf8EncodeChar c = [b] ∧ c.toNat = b.toNat := by
  obtain ⟨lead, conts, hc⟩ := oneChar c
  rw [hc.octets_eq] at hb ⊢
  have hlead : b = lead := by
    rcases List.mem_cons.mp hb with rfl | hmem
    · rfl
    · have := (isContinuation_iff b).mp (hc.continues b hmem)
      omega
  subst hlead
  have hnil := hc.single.mpr h
  refine ⟨by rw [hnil], ?_⟩
  have hone := hc.octets_eq
  rw [hnil, String.utf8EncodeChar] at hone
  split at hone
  · injection hone with hone
    rw [← hone, UInt8.toNat_ofNat', Nat.mod_eq_of_lt (by omega)]
    rfl
  · split at hone
    · simp at hone
    · split at hone <;> simp at hone

theorem utf8EncodeChar_ascii {c : Char} (h : c.toNat < 128) :
    String.utf8EncodeChar c = [UInt8.ofNat c.toNat] := by
  rw [String.utf8EncodeChar, if_pos (by exact Nat.le_of_lt_succ h)]
  rfl

/-- Cut at a limit, then drop the continuation octets at the end. -/
def cutBack (limit : Nat) (octets : List UInt8) : List UInt8 :=
  (octets.take limit).rdropWhile isContinuation

/-- `kept` is the longest front of `chars` whose octets fit in `limit`. -/
structure LongestFit (limit : Nat) (chars kept : List Char) : Prop where
  front : kept <+: chars
  fits : (encode kept).length ≤ limit
  longest : ∀ other, other <+: chars → (encode other).length ≤ limit → other <+: kept

theorem LongestFit.unique {limit : Nat} {chars a b : List Char} (ha : LongestFit limit chars a)
    (hb : LongestFit limit chars b) : a = b :=
  (hb.longest a ha.front ha.fits).eq_of_length
    (le_antisymm (hb.longest a ha.front ha.fits).length_le
      (ha.longest b hb.front hb.fits).length_le)

theorem LongestFit.whole {limit : Nat} {chars : List Char} (h : (encode chars).length ≤ limit) :
    LongestFit limit chars chars :=
  ⟨List.prefix_refl _, h, fun _ hother _ => hother⟩

theorem encode_length_mono {a b : List Char} (h : a <+: b) :
    (encode a).length ≤ (encode b).length := by
  obtain ⟨rest, rfl⟩ := h
  simp

/-- A front ends before a character that does not fit any more. -/
theorem LongestFit.before {limit : Nat} {front rest : List Char} {c : Char}
    (hfits : (encode front).length ≤ limit) (hover : limit < (encode (front ++ [c])).length) :
    LongestFit limit (front ++ c :: rest) front := by
  refine ⟨List.prefix_append _ _, hfits, ?_⟩
  intro other hother hlength
  have hwith : front ++ [c] <+: front ++ c :: rest := ⟨rest, by simp⟩
  rcases List.prefix_or_prefix_of_prefix hother hwith with h | h
  · rcases List.prefix_concat_iff.mp h with rfl | h
    · omega
    · exact h
  · have := encode_length_mono h
    omega

/-- The character that an octet of a text belongs to. -/
theorem exists_char_at (chars : List Char) {n : Nat} (h₀ : 0 < n) (hn : n ≤ (encode chars).length) :
    ∃ front c rest, chars = front ++ c :: rest ∧ (encode front).length < n ∧
      n ≤ (encode (front ++ [c])).length := by
  induction chars generalizing n with
  | nil => simp at hn; omega
  | cons d chars ih =>
    by_cases hd : n ≤ (String.utf8EncodeChar d).length
    · exact ⟨[], d, chars, rfl, by simpa using h₀, by simpa using hd⟩
    · have hrest : n - (String.utf8EncodeChar d).length ≤ (encode chars).length := by
        simp only [encode_cons, List.length_append] at hn
        omega
      obtain ⟨front, c, rest, rfl, h₁, h₂⟩ := ih (by omega) hrest
      refine ⟨d :: front, c, rest, rfl, ?_, ?_⟩
      · simp only [encode_cons, List.length_append]
        omega
      · simp only [List.cons_append, encode_cons, List.length_append] at h₂ ⊢
        omega

theorem rdropWhile_lead {front conts : List UInt8} {lead : UInt8}
    (hlead : isContinuation lead = false) (hconts : ∀ b ∈ conts, isContinuation b = true) :
    (front ++ lead :: conts).rdropWhile isContinuation = front ++ [lead] := by
  induction conts using List.reverseRecOn with
  | nil => exact List.rdropWhile_concat_neg _ _ _ (by simp [hlead])
  | append_singleton conts b ih =>
    have happend : front ++ lead :: (conts ++ [b]) = (front ++ lead :: conts) ++ [b] := by simp
    rw [happend, List.rdropWhile_concat_pos _ _ _ (hconts b (by simp))]
    apply ih
    intro c hc
    exact hconts c (List.mem_append_left _ hc)

/-- What is left ends with the lead octet of the character that the cut falls in. -/
theorem cutBack_eq {front rest : List Char} {c : Char} {lead : UInt8} {conts : List UInt8} {n : Nat}
    (hc : OneChar (String.utf8EncodeChar c) lead conts) (h₁ : (encode front).length < n)
    (h₂ : n ≤ (encode (front ++ [c])).length) :
    cutBack n (encode (front ++ c :: rest)) = encode front ++ [lead] := by
  obtain ⟨k, rfl⟩ := Nat.exists_eq_add_of_lt h₁
  have htake : (encode (front ++ c :: rest)).take ((encode front).length + k + 1) =
      encode front ++ lead :: conts.take k := by
    simp only [encode_append, encode_cons, hc.octets_eq, encode_nil, List.append_nil,
      List.length_append, List.length_cons] at h₂ ⊢
    rw [Nat.add_assoc, List.take_length_add_append, List.cons_append, List.take_succ_cons,
      List.take_append_of_le_length (by omega)]
  rw [cutBack, htake]
  apply rdropWhile_lead hc.starts
  intro b hb
  exact hc.continues b (List.mem_of_mem_take hb)

theorem LongestFit.at_end {limit : Nat} {front rest : List Char}
    (h : limit = (encode front).length) (hl : limit < (encode (front ++ rest)).length) :
    LongestFit limit (front ++ rest) front := by
  cases rest with
  | nil => simp [h] at hl
  | cons d rest =>
    obtain ⟨lead, conts, hd⟩ := oneChar d
    apply LongestFit.before h.ge
    simp [h, hd.octets_eq]

/-- Cutting back a text at a limit that it exceeds leaves its longest fitting front exactly when the
last octet within the limit is a whole character. -/
theorem cutBack_longest_iff (chars : List Char) {limit : Nat} (h₀ : 0 < limit)
    (hl : limit < (encode chars).length) :
    (∃ kept, LongestFit limit chars kept ∧ cutBack limit (encode chars) = encode kept) ↔
      ((encode chars).getD (limit - 1) 0).toNat < 128 := by
  obtain ⟨front, c, rest, rfl, h₁, h₂⟩ := exists_char_at chars h₀ hl.le
  obtain ⟨lead, conts, hc⟩ := oneChar c
  rw [cutBack_eq hc h₁ h₂]
  obtain ⟨k, rfl⟩ := Nat.exists_eq_add_of_lt h₁
  have hwhole : encode (front ++ [c]) = encode front ++ lead :: conts := by simp [hc.octets_eq]
  have hk : k ≤ conts.length := by
    rw [hwhole, List.length_append, List.length_cons] at h₂
    omega
  have hoctet : (encode (front ++ c :: rest)).getD ((encode front).length + k + 1 - 1) 0 =
      (lead :: conts).getD k 0 := by
    rw [Nat.add_sub_cancel, encode_append, encode_cons, hc.octets_eq, List.getD_eq_getElem?_getD,
      List.getElem?_append_right (Nat.le_add_right _ _), Nat.add_sub_cancel_left,
      List.getElem?_append_left (by simp; omega), ← List.getD_eq_getElem?_getD]
  rw [hoctet]
  have hassoc : front ++ c :: rest = (front ++ [c]) ++ rest := by simp
  by_cases hnil : conts = []
  · subst hnil
    have hk₀ : k = 0 := by simpa using hk
    subst hk₀
    have hfit : LongestFit ((encode front).length + 0 + 1) (front ++ c :: rest) (front ++ [c]) := by
      rw [hassoc] at hl ⊢
      exact LongestFit.at_end (by simp [hwhole]) hl
    simpa [hc.single.mp rfl] using ⟨front ++ [c], hfit, hwhole.symm⟩
  · have hhigh : ¬ ((lead :: conts).getD k 0).toNat < 128 := by
      cases k with
      | zero => exact fun h => hnil (hc.single.mpr h)
      | succ k =>
        have hmem : conts.getD k 0 ∈ conts := by
          rw [List.getD_eq_getElem?_getD, List.getElem?_eq_getElem hk, Option.getD_some]
          exact List.getElem_mem hk
        have := (isContinuation_iff _).mp (hc.continues _ hmem)
        simpa using this.1
    apply iff_of_false ?_ hhigh
    rintro ⟨kept, hkept, heq⟩
    have hpos := List.length_pos_of_ne_nil hnil
    by_cases hend : (encode front).length + k + 1 = (encode (front ++ [c])).length
    · -- The cut falls between characters, and the last one is taken apart all the same.
      rw [hassoc] at hl hkept
      rw [hkept.unique (LongestFit.at_end hend hl), hwhole] at heq
      exact hnil (by simpa using heq.symm)
    · rw [hkept.unique (LongestFit.before (by omega) (by omega))] at heq
      simp at heq

/-- At most three octets are dropped. -/
theorem lt_length_cutBack (chars : List Char) {a b : Nat} (hab : a + 3 < b)
    (hb : b ≤ (encode chars).length) : a < (cutBack b (encode chars)).length := by
  obtain ⟨front, c, rest, rfl, h₁, h₂⟩ := exists_char_at chars (by omega) hb
  obtain ⟨lead, conts, hc⟩ := oneChar c
  have hlength := hc.length_le
  rw [cutBack_eq hc h₁ h₂]
  simp only [encode_append, encode_cons, encode_nil, hc.octets_eq, List.length_append,
    List.length_cons, List.length_nil] at h₂ ⊢
  omega

theorem cutBack_append {limit : Nat} {octets : List UInt8} (h : limit ≤ octets.length)
    (rest : List UInt8) : cutBack limit (octets ++ rest) = cutBack limit octets := by
  rw [cutBack, cutBack, List.take_append_of_le_length h]

theorem cutBack_front (limit : Nat) (octets : List UInt8) : cutBack limit octets <+: octets :=
  (List.rdropWhile_prefix _ _).trans (List.take_prefix _ _)

/-- Cutting back at a greater limit first makes no difference. -/
theorem cutBack_cutBack (chars : List Char) {a b : Nat} (hab : a + 3 < b)
    (hb : b ≤ (encode chars).length) :
    cutBack a (cutBack b (encode chars)) = cutBack a (encode chars) := by
  obtain ⟨rest, hrest⟩ := cutBack_front b (encode chars)
  have happend := cutBack_append (lt_length_cutBack chars hab hb).le rest
  rw [hrest] at happend
  exact happend.symm

/-- A test of octets and the test of characters that it comes to: only ASCII characters fail. -/
structure AsciiTest (p : UInt8 → Bool) (q : Char → Bool) : Prop where
  holds : ∀ {c}, q c = true → ∀ b ∈ String.utf8EncodeChar c, p b = true
  fails : ∀ {c}, q c = false → ∃ b, String.utf8EncodeChar c = [b] ∧ p b = false

theorem AsciiTest.of_chars {p : UInt8 → Bool} {q : Char → Bool}
    (h : ∀ b, p b = false → b.toNat < 128)
    (hq : ∀ c, q c = false ↔ c.toNat < 128 ∧ p (UInt8.ofNat c.toNat) = false) : AsciiTest p q := by
  constructor
  · intro c hc b hb
    by_contra hp
    have hp' : p b = false := by simpa using hp
    have hcb := (utf8EncodeChar_of_ascii hb (h b hp')).2
    have hfail : q c = false := by
      rw [hq, hcb]
      exact ⟨h b hp', by simpa using hp'⟩
    simp [hc] at hfail
  · intro c hc
    obtain ⟨hascii, hp⟩ := (hq c).mp hc
    exact ⟨_, utf8EncodeChar_ascii hascii, hp⟩

theorem rtakeWhile_append_of_all {α : Type} {p : α → Bool} (front : List α) {rest : List α}
    (h : ∀ b ∈ rest, p b = true) :
    (front ++ rest).rtakeWhile p = front.rtakeWhile p ++ rest := by
  have hrev : ∀ b ∈ rest.reverse, p b = true := by simpa using h
  rw [List.rtakeWhile, List.reverse_append, List.takeWhile_append_of_pos hrev, List.reverse_append,
    List.reverse_reverse, List.rtakeWhile]

variable {p : UInt8 → Bool} {q : Char → Bool}

/-- What follows the last of some ASCII characters is the same in the octets. -/
theorem AsciiTest.rtakeWhile_encode (h : AsciiTest p q) (chars : List Char) :
    (encode chars).rtakeWhile p = encode (chars.rtakeWhile q) := by
  induction chars using List.reverseRecOn with
  | nil => simp
  | append_singleton chars c ih =>
    by_cases hc : q c = true
    · rw [List.rtakeWhile_concat_pos _ _ _ hc, encode_append, encode_append, ← ih]
      apply rtakeWhile_append_of_all
      simpa using h.holds hc
    · obtain ⟨b, hb, hp⟩ := h.fails (by simpa using hc)
      rw [List.rtakeWhile_concat_neg _ _ _ hc, encode_append, encode_cons, hb]
      exact List.rtakeWhile_concat_neg _ _ _ (by simp [hp])

theorem AsciiTest.filter_encode (h : AsciiTest p q) (chars : List Char) :
    (encode chars).filter p = encode (chars.filter q) := by
  induction chars with
  | nil => rfl
  | cons c chars ih =>
    rw [encode_cons, List.filter_append, ih]
    by_cases hc : q c = true
    · rw [List.filter_cons_of_pos hc, encode_cons, List.filter_eq_self.mpr (h.holds hc)]
    · obtain ⟨b, hb, hp⟩ := h.fails (by simpa using hc)
      rw [List.filter_cons_of_neg hc, hb]
      simp [hp]

end TwelveC.Lib.Utf8
