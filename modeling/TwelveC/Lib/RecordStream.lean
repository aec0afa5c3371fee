import Mathlib.Data.List.Basic

/-!
# Streams of records

A text is cut into pieces of `size` octets, the last one shorter, and every
piece travels as a record that is longer by a fixed overhead. The records carry
no lengths: the number of octets still to come gives the next one.
-/

namespace TwelveC.Lib

variable {α ε : Type}

/-- The records of `stream`, with `n` octets of text to come before them and `r` after them. -/
inductive Opened (openRecord : List α → Except ε (List α)) (size overhead : Nat) :
    Nat → List α → List (List α) → Nat → Prop
  | nil (n : Nat) : Opened openRecord size overhead n [] [] n
  | cons {n r : Nat} {record piece stream : List α} {pieces : List (List α)} (hn : 0 < n)
      (hrecord : record.length = min size n + overhead) (hopen : openRecord record = .ok piece)
      (hpiece : piece.length = min size n)
      (hrest : Opened openRecord size overhead (n - min size n) stream pieces r) :
      Opened openRecord size overhead n (record ++ stream) (piece :: pieces) r

namespace Opened

variable {openRecord : List α → Except ε (List α)} {size overhead n m r : Nat}
  {stream rest : List α} {pieces others : List (List α)}

/-- What has been opened and what is to come are the text. -/
theorem length_flatten (h : Opened openRecord size overhead n stream pieces r) :
    pieces.flatten.length + r = n := by
  induction h with
  | nil n => simp
  | cons hn hrecord hopen hpiece hrest ih =>
    rw [List.flatten_cons, List.length_append, hpiece]
    omega

theorem length_stream (h : Opened openRecord size overhead n stream pieces r) :
    stream.length = pieces.flatten.length + overhead * pieces.length := by
  induction h with
  | nil n => simp
  | cons hn hrecord hopen hpiece hrest ih =>
    rw [List.flatten_cons, List.length_append, List.length_append, hrecord, hpiece, ih,
      List.length_cons, Nat.mul_succ]
    omega

/-- A text that has been opened to its end came in as many records as it has pieces. -/
theorem length_pieces (hs : 0 < size) (h : Opened openRecord size overhead n stream pieces r)
    (hr : r = 0) : pieces.length = (n + size - 1) / size := by
  induction h with
  | nil n =>
    subst hr
    rw [List.length_nil, Nat.zero_add, Nat.div_eq_of_lt (by omega)]
  | @cons n r record piece stream pieces hn hrecord hopen hpiece hrest ih =>
    rw [List.length_cons, ih hr]
    rcases Nat.le_total size n with hle | hle
    · rw [Nat.min_eq_left hle, ← Nat.add_div_right _ hs]
      congr 1
      omega
    · rw [Nat.min_eq_right hle, Nat.sub_self, Nat.zero_add, Nat.div_eq_of_lt (by omega)]
      symm
      rw [Nat.div_eq_iff hs]
      omega

theorem append (h : Opened openRecord size overhead n stream pieces m)
    (h' : Opened openRecord size overhead m rest others r) :
    Opened openRecord size overhead n (stream ++ rest) (pieces ++ others) r := by
  induction h with
  | nil n => exact h'
  | cons hn hrecord hopen hpiece hrest ih =>
    rw [List.append_assoc, List.cons_append]
    exact .cons hn hrecord hopen hpiece (ih h')

theorem single (hn : 0 < n) {record piece : List α} (hrecord : record.length = min size n + overhead)
    (hopen : openRecord record = .ok piece) (hpiece : piece.length = min size n) :
    Opened openRecord size overhead n record [piece] (n - min size n) := by
  have h := Opened.cons hn hrecord hopen hpiece (.nil (n - min size n))
  rwa [List.append_nil] at h

/-- The first records of a stream do not depend on what follows them. -/
theorem split (hs : 0 < size) (h : Opened openRecord size overhead n stream pieces m)
    (hall : Opened openRecord size overhead n (stream ++ rest) others r) :
    ∃ later, others = pieces ++ later ∧ Opened openRecord size overhead m rest later r := by
  induction h generalizing others with
  | nil n => exact ⟨others, rfl, hall⟩
  | @cons n r' record piece stream pieces hn hrecord hopen hpiece hrest ih =>
    rw [List.append_assoc] at hall
    generalize hw : record ++ (stream ++ rest) = whole at hall
    cases hall with
    | nil =>
      have hzero := congrArg List.length hw
      rw [List.length_append, hrecord, List.length_nil] at hzero
      omega
    | @cons _ _ record' piece' stream' pieces' _ hrecord' hopen' hpiece' hrest' =>
      obtain ⟨rfl, rfl⟩ := List.append_inj hw (hrecord.trans hrecord'.symm)
      obtain rfl : piece = piece' := Except.ok.inj (hopen.symm.trans hopen')
      obtain ⟨later, rfl, hlater⟩ := ih hrest'
      exact ⟨later, rfl, hlater⟩

/-- Of two starts of one stream the one that stops before a whole record holds all of the other. -/
theorem upTo {later : List (List α)} {part tail : List α}
    (h : Opened openRecord size overhead n part pieces m)
    (hall : Opened openRecord size overhead n stream later r) (heq : part ++ rest = stream ++ tail)
    (htail : tail.length < min size r + overhead) :
    ∃ between others, stream = part ++ between ∧ rest = between ++ tail ∧ later = pieces ++ others ∧
      Opened openRecord size overhead m between others r := by
  induction h generalizing stream later with
  | nil n => exact ⟨stream, later, rfl, heq, rfl, hall⟩
  | @cons n m record piece part pieces hn hrecord hopen hpiece hrest ih =>
    cases hall with
    | nil =>
      have hlen := congrArg List.length heq
      simp only [List.length_append, List.length_nil, hrecord] at hlen
      omega
    | @cons _ _ record' piece' stream' pieces' _ hrecord' hopen' hpiece' hrest' =>
      rw [List.append_assoc, List.append_assoc] at heq
      obtain ⟨rfl, heq'⟩ := List.append_inj heq (hrecord.trans hrecord'.symm)
      obtain rfl : piece = piece' := Except.ok.inj (hopen.symm.trans hopen')
      obtain ⟨between, others, rfl, hsplit, rfl, hbetween⟩ := ih hrest' heq'
      exact ⟨between, others, (List.append_assoc _ _ _).symm, hsplit, rfl, hbetween⟩

/-- Of two starts of one stream the second has no more records, or another one follows the first. -/
theorem beyond {later : List (List α)} {part tail : List α}
    (h : Opened openRecord size overhead n part pieces m)
    (hall : Opened openRecord size overhead n stream later r) (heq : part ++ rest = stream ++ tail) :
    later <+: pieces ∨ ∃ record piece more, 0 < m ∧ rest = record ++ more ∧
      record.length = min size m + overhead ∧ openRecord record = .ok piece ∧
      piece.length = min size m := by
  induction h generalizing stream later with
  | nil n =>
    cases hall with
    | nil => exact .inl List.nil_prefix
    | cons hn hrecord hopen hpiece _ =>
      rw [List.nil_append, List.append_assoc] at heq
      exact .inr ⟨_, _, _, hn, heq, hrecord, hopen, hpiece⟩
  | @cons n m record piece part pieces hn hrecord hopen hpiece hrest ih =>
    cases hall with
    | nil => exact .inl List.nil_prefix
    | @cons _ _ record' piece' stream' pieces' _ hrecord' hopen' hpiece' hrest' =>
      rw [List.append_assoc, List.append_assoc] at heq
      obtain ⟨rfl, heq'⟩ := List.append_inj heq (hrecord.trans hrecord'.symm)
      obtain rfl : piece = piece' := Except.ok.inj (hopen.symm.trans hopen')
      exact (ih hrest' heq').imp_left (List.prefix_cons_inj piece).mpr

/-- A start of records and less than one more is again some records and less than one more. -/
theorem front {part tail : List α} (h : Opened openRecord size overhead n stream pieces r)
    (heq : part ++ tail = stream ++ rest) (hrest : rest.length < min size r + overhead) :
    ∃ whole rest opened left, part = whole ++ rest ∧
      Opened openRecord size overhead n whole opened left ∧ rest.length < min size left + overhead := by
  induction h generalizing part with
  | nil n =>
    have hlen := congrArg List.length heq
    rw [List.nil_append, List.length_append] at hlen
    exact ⟨[], part, [], n, rfl, .nil n, by omega⟩
  | @cons n r record piece stream pieces hn hrecord hopen hpiece _ ih =>
    rcases Nat.lt_or_ge part.length record.length with hshort | hlong
    · exact ⟨[], part, [], n, rfl, .nil n, hrecord ▸ hshort⟩
    · rw [List.append_assoc] at heq
      obtain ⟨later, rfl⟩ := List.prefix_of_prefix_length_le (List.prefix_append record (stream ++ rest))
        (heq ▸ List.prefix_append part tail) hlong
      rw [List.append_assoc, List.append_right_inj] at heq
      obtain ⟨whole, short, opened, left, rfl, hopened, hlt⟩ := ih heq hrest
      exact ⟨record ++ whole, short, piece :: opened, left, (List.append_assoc _ _ _).symm,
        .cons hn hrecord hopen hpiece hopened, hlt⟩

/-- A text that is not at its end goes on with a record. -/
theorem next (h : Opened openRecord size overhead n stream pieces 0) (hn : 0 < n) :
    ∃ record piece later, record.length = min size n + overhead ∧ openRecord record = .ok piece ∧
      piece.length = min size n ∧ stream = record ++ later := by
  cases h with
  | nil => omega
  | cons _ hrecord hopen hpiece _ => exact ⟨_, _, _, hrecord, hopen, hpiece, rfl⟩

end Opened

end TwelveC.Lib
