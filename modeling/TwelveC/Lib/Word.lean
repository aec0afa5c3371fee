import Mathlib.Data.List.Induction
import Mathlib.Tactic.Ring

/-!
# Fixed-width big-endian words and fields of a buffer

`bigEndian k v` writes the low `k` octets of `v`, the most significant first.
`At b o d` says that `d` lies at offset `o` of `b`.
-/

namespace TwelveC.Lib.Word

def bigEndian : Nat → Nat → List UInt8
  | 0, _ => []
  | k + 1, v => UInt8.ofNat (v / 256 ^ k) :: bigEndian k v

def ofBigEndian (l : List UInt8) : Nat := l.foldl (fun acc b => acc * 256 + b.toNat) 0

@[simp] theorem length_bigEndian (k v : Nat) : (bigEndian k v).length = k := by
  induction k with
  | zero => rfl
  | succ k ih => simp [bigEndian, ih]

theorem foldl_bigEndian (k v acc : Nat) :
    (bigEndian k v).foldl (fun acc b => acc * 256 + b.toNat) acc = acc * 256 ^ k + v % 256 ^ k := by
  induction k generalizing acc with
  | zero => simp [bigEndian, Nat.mod_one]
  | succ k ih =>
    have hb : (UInt8.ofNat (v / 256 ^ k)).toNat = v / 256 ^ k % 256 := by simp
    have hm : v % 256 ^ (k + 1) = v % 256 ^ k + 256 ^ k * (v / 256 ^ k % 256) := by
      rw [pow_succ, Nat.mod_mul]
    rw [bigEndian, List.foldl_cons, ih, hb, hm, pow_succ]
    ring

theorem ofBigEndian_bigEndian (k v : Nat) : ofBigEndian (bigEndian k v) = v % 256 ^ k := by
  rw [ofBigEndian, foldl_bigEndian, Nat.zero_mul, Nat.zero_add]

theorem ofBigEndian_bigEndian_of_lt (k v : Nat) (h : v < 256 ^ k) :
    ofBigEndian (bigEndian k v) = v := by
  rw [ofBigEndian_bigEndian, Nat.mod_eq_of_lt h]

variable {α : Type} {buffer x y : List α} {offset : Nat}

def At (buffer : List α) (offset : Nat) (data : List α) : Prop :=
  ∃ before after, buffer = before ++ data ++ after ∧ before.length = offset

theorem at_of_eq (h : buffer = x) : At buffer 0 x := ⟨[], [], by simp [h], rfl⟩

theorem At.left (h : At buffer offset (x ++ y)) : At buffer offset x := by
  obtain ⟨b, a, rfl, rfl⟩ := h
  exact ⟨b, y ++ a, by simp, rfl⟩

theorem At.right (h : At buffer offset (x ++ y)) : At buffer (offset + x.length) y := by
  obtain ⟨b, a, rfl, rfl⟩ := h
  exact ⟨b ++ x, a, by simp, by simp⟩

theorem At.le (h : At buffer offset x) : offset + x.length ≤ buffer.length := by
  obtain ⟨b, a, rfl, rfl⟩ := h
  simp only [List.length_append]
  omega

theorem At.head {c : α} (h : At buffer offset (c :: x)) : buffer[offset]? = some c := by
  obtain ⟨b, a, rfl, rfl⟩ := h
  simp

theorem At.tail {c : α} (h : At buffer offset (c :: x)) : At buffer (offset + 1) x :=
  At.right (x := [c]) h

theorem At.take_drop (h : At buffer offset x) : (buffer.drop offset).take x.length = x := by
  obtain ⟨b, a, rfl, rfl⟩ := h
  simp

/-- The `width` octets from `offset` on. -/
def field (buffer : List α) (offset width : Nat) : List α := (buffer.drop offset).take width

theorem length_field {width : Nat} (h : offset + width ≤ buffer.length) :
    (field buffer offset width).length = width := by
  simp only [field, List.length_take, List.length_drop]
  omega

theorem at_field {width : Nat} (h : offset + width ≤ buffer.length) :
    At buffer offset (field buffer offset width) := by
  refine ⟨buffer.take offset, buffer.drop (offset + width), ?_, ?_⟩
  · rw [field, List.append_assoc, ← List.drop_drop, List.take_append_drop, List.take_append_drop]
  · rw [List.length_take]
    omega

theorem At.field_eq (h : At buffer offset x) : field buffer offset x.length = x := h.take_drop

/-- A field of a front part is a field of the whole. -/
theorem field_take {front width : Nat} (h : offset + width ≤ front) :
    field (buffer.take front) offset width = field buffer offset width := by
  rw [field, field, List.drop_take, List.take_take, Nat.min_eq_left (by omega)]

/-- The big-endian word of `width` octets at `offset`. -/
def wordAt (buffer : List UInt8) (offset width : Nat) : Nat :=
  ofBigEndian (field buffer offset width)

theorem ofBigEndian_lt (octets : List UInt8) : ofBigEndian octets < 256 ^ octets.length := by
  induction octets using List.reverseRecOn with
  | nil => simp [ofBigEndian]
  | append_singleton octets b ih =>
    have hb := b.toNat_lt
    rw [ofBigEndian] at ih
    rw [ofBigEndian, List.foldl_append, List.length_append, List.length_singleton, pow_succ]
    simp only [List.foldl_cons, List.foldl_nil]
    omega

theorem wordAt_lt (buffer : List UInt8) (offset width : Nat) :
    wordAt buffer offset width < 256 ^ width :=
  (ofBigEndian_lt _).trans_le (Nat.pow_le_pow_right (by decide) (List.length_take_le _ _))

theorem wordAt_take {buffer : List UInt8} {front offset width : Nat} (h : offset + width ≤ front) :
    wordAt (buffer.take front) offset width = wordAt buffer offset width := by
  rw [wordAt, wordAt, field_take h]

end TwelveC.Lib.Word
