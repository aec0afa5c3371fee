import Mathlib.Data.List.Basic
import Mathlib.Data.List.Forall2
import Mathlib.Tactic.Linarith

/-!
# Cutting a list into blocks

`cut n l` is the list of consecutive blocks of `n` elements of `l`; the last one
may be shorter, and none is empty.
-/

namespace TwelveC.Lib.Cut

variable {α : Type}

/-- `cut` with fuel; every block consumes at least one element. -/
def cutAux (n : Nat) : Nat → List α → List (List α)
  | 0, _ => []
  | _ + 1, [] => []
  | fuel + 1, a :: l => (a :: l).take n :: cutAux n fuel ((a :: l).drop n)

def cut (n : Nat) (l : List α) : List (List α) := cutAux n l.length l

theorem cutAux_fuel (n : Nat) (hn : 0 < n) (f g : Nat) (l : List α) (hf : l.length ≤ f)
    (hg : l.length ≤ g) : cutAux n f l = cutAux n g l := by
  induction f generalizing g l with
  | zero =>
    obtain rfl : l = [] := List.eq_nil_of_length_eq_zero (by omega)
    cases g <;> rfl
  | succ f ih =>
    cases l with
    | nil => cases g <;> rfl
    | cons a l =>
      cases g with
      | zero => simp at hg
      | succ g =>
        simp only [List.length_cons] at hf hg
        rw [cutAux, cutAux, ih g _ (by simp; omega) (by simp; omega)]

@[simp] theorem cut_nil (n : Nat) : cut n ([] : List α) = [] := rfl

theorem cut_of_ne_nil {n : Nat} (hn : 0 < n) {l : List α} (h : l ≠ []) :
    cut n l = l.take n :: cut n (l.drop n) := by
  cases l with
  | nil => exact absurd rfl h
  | cons a l =>
    rw [cut, List.length_cons, cutAux, cut,
      cutAux_fuel n hn l.length ((a :: l).drop n).length _ (by simp; omega) le_rfl]

/-- Induction along the blocks. -/
theorem cut_induction {n : Nat} (hn : 0 < n) {motive : List α → Prop} (nil : motive [])
    (step : ∀ l, l ≠ [] → motive (l.drop n) → motive l) (l : List α) : motive l := by
  induction h : l.length using Nat.strong_induction_on generalizing l with
  | _ k ih =>
    by_cases hl : l = []
    · exact hl ▸ nil
    · have hpos := List.length_pos_of_ne_nil hl
      exact step l hl (ih (l.drop n).length (by simp; omega) _ rfl)

theorem flatten_cut {n : Nat} (hn : 0 < n) (l : List α) : (cut n l).flatten = l := by
  induction l using cut_induction hn with
  | nil => rfl
  | step l hl ih => rw [cut_of_ne_nil hn hl, List.flatten_cons, ih, List.take_append_drop]

theorem cut_of_le {n : Nat} (hn : 0 < n) {l : List α} (h : l ≠ []) (hle : l.length ≤ n) :
    cut n l = [l] := by
  rw [cut_of_ne_nil hn h, List.take_of_length_le hle, List.drop_eq_nil_of_le hle, cut_nil]

/-- A block-aligned prefix is cut on its own. -/
theorem cut_append {n : Nat} (hn : 0 < n) (a b : List α) (h : n ∣ a.length) :
    cut n (a ++ b) = cut n a ++ cut n b := by
  induction a using cut_induction hn with
  | nil => simp
  | step a ha ih =>
    have hle : n ≤ a.length := Nat.le_of_dvd (List.length_pos_of_ne_nil ha) h
    have hd : n ∣ (a.drop n).length := by
      rw [List.length_drop]
      exact Nat.dvd_sub h dvd_rfl
    rw [cut_of_ne_nil hn (by simp [ha]), cut_of_ne_nil hn ha, List.take_append_of_le_length hle,
      List.drop_append_of_le_length hle, ih hd, List.cons_append]

theorem cut_append_block {n : Nat} (hn : 0 < n) (a b : List α) (h : a.length = n) :
    cut n (a ++ b) = a :: cut n b := by
  have ha : a ≠ [] := by
    rintro rfl
    simp at h
    omega
  rw [cut_append hn a b (by rw [h]), cut_of_le hn ha h.le, List.singleton_append]

theorem length_cut {n : Nat} (hn : 0 < n) (l : List α) :
    (cut n l).length = (l.length + n - 1) / n := by
  induction l using cut_induction hn with
  | nil =>
    rw [cut_nil]
    exact (Nat.div_eq_of_lt (by simp; omega)).symm
  | step l hl ih =>
    have hpos := List.length_pos_of_ne_nil hl
    rw [cut_of_ne_nil hn hl, List.length_cons, ih, List.length_drop]
    rcases Nat.lt_or_ge l.length n with hlt | hge
    · rw [show l.length - n + n - 1 = n - 1 by omega, Nat.div_eq_of_lt (show n - 1 < n by omega)]
      symm
      apply Nat.div_eq_of_lt_le <;> omega
    · rw [show l.length + n - 1 = (l.length - n + n - 1) + n by omega, Nat.add_div_right _ hn]

theorem length_le_of_mem_cut {n : Nat} (hn : 0 < n) (l b : List α) (h : b ∈ cut n l) :
    b.length ≤ n := by
  induction l using cut_induction hn with
  | nil => cases h
  | step l hl ih =>
    rw [cut_of_ne_nil hn hl, List.mem_cons] at h
    rcases h with rfl | h
    · exact List.length_take_le _ _
    · exact ih h

/-- An exact multiple has no short block. -/
theorem length_of_mem_cut {n : Nat} (hn : 0 < n) (l b : List α) (hd : n ∣ l.length)
    (h : b ∈ cut n l) : b.length = n := by
  induction l using cut_induction hn with
  | nil => simp at h
  | step l hl ih =>
    have hle : n ≤ l.length := Nat.le_of_dvd (List.length_pos_of_ne_nil hl) hd
    rw [cut_of_ne_nil hn hl, List.mem_cons] at h
    rcases h with rfl | h
    · exact List.length_take_of_le hle
    · refine ih ?_ h
      rw [List.length_drop]
      exact Nat.dvd_sub hd dvd_rfl

theorem length_flatten_of_full {n : Nat} (blocks : List (List α)) (h : ∀ b ∈ blocks, b.length = n) :
    blocks.flatten.length = blocks.length * n := by
  induction blocks with
  | nil => simp
  | cons b rest ih =>
    rw [List.flatten_cons, List.length_append, h b (by simp), ih fun c hc => h c (by simp [hc]),
      List.length_cons, Nat.add_mul, Nat.one_mul, Nat.add_comm]

/-- Full blocks are what their concatenation is cut into. -/
theorem cut_flatten {n : Nat} (hn : 0 < n) (blocks : List (List α))
    (h : ∀ b ∈ blocks, b.length = n) : cut n blocks.flatten = blocks := by
  induction blocks with
  | nil => rfl
  | cons b rest ih =>
    rw [List.flatten_cons, cut_append_block hn _ _ (h b (by simp)), ih fun c hc => h c (by simp [hc])]

/-- So is every list of pieces that are longer than the blocks of a text by a fixed amount. -/
theorem cut_flatten_longer {n k : Nat} (hn : 0 < n) (l : List α) (pieces : List (List α))
    (h : List.Forall₂ (fun block piece => piece.length = block.length + k) (cut n l) pieces) :
    cut (n + k) pieces.flatten = pieces := by
  induction l using cut_induction hn generalizing pieces with
  | nil =>
    rw [cut_nil, List.forall₂_nil_left_iff] at h
    rw [h]
    rfl
  | step l hl ih =>
    rw [cut_of_ne_nil hn hl, List.forall₂_cons_left_iff] at h
    obtain ⟨piece, rest, hpiece, hrest, rfl⟩ := h
    have hpos := List.length_pos_of_ne_nil hl
    rw [List.length_take] at hpiece
    by_cases hlast : l.drop n = []
    · rw [hlast, cut_nil, List.forall₂_nil_left_iff] at hrest
      rw [hrest, List.flatten_singleton]
      exact cut_of_le (by omega) (List.ne_nil_of_length_pos (by omega)) (by omega)
    · have hfull := List.length_pos_of_ne_nil hlast
      rw [List.length_drop] at hfull
      rw [List.flatten_cons, cut_append_block (by omega) _ _ (by omega), ih rest hrest]

end TwelveC.Lib.Cut
