import Mathlib.Data.List.Sort
import Mathlib.Order.Basic

/-!
# The n-th largest value of a list

Values are counted with their repetitions. The value at a place of the
descending list and the number of values from a bound on determine each other.
-/

namespace TwelveC.Lib

variable {α : Type} [LinearOrder α] {l : List α} {x y : α} {n : Nat}

def descending (l : List α) : List α := l.mergeSort fun a b => decide (b ≤ a)

def atLeast (l : List α) (y : α) : Nat := l.countP fun x => decide (y ≤ x)

theorem descending_perm (l : List α) : (descending l).Perm l := List.mergeSort_perm _ _

theorem descending_pairwise (l : List α) : (descending l).Pairwise fun a b => b ≤ a := by
  have h : (descending l).Pairwise fun a b => decide (b ≤ a) = true := by
    apply List.pairwise_mergeSort
    · intro a b c hab hbc
      simp only [decide_eq_true_eq] at hab hbc ⊢
      exact le_trans hbc hab
    · intro a b
      simpa using le_total b a
  simpa using h

/-- More than `n` values reach `y` exactly if the value at place `n` does. -/
theorem lt_atLeast_iff (h : (descending l)[n]? = some x) : n < atLeast l y ↔ y ≤ x := by
  obtain ⟨hn, rfl⟩ := List.getElem?_eq_some_iff.mp h
  have hsorted := descending_pairwise l
  rw [atLeast, ← (descending_perm l).countP_eq]
  generalize descending l = d at *
  rw [List.pairwise_iff_getElem] at hsorted
  constructor
  · intro hcount
    by_contra hlow
    have hlow := not_le.mp hlow
    -- From place `n` on nothing reaches `y`.
    have hrest : (d.drop n).countP (fun x => decide (y ≤ x)) = 0 := by
      apply List.countP_eq_zero.mpr
      intro z hz
      obtain ⟨i, hi, rfl⟩ := List.mem_iff_getElem.mp hz
      rw [List.length_drop] at hi
      rw [List.getElem_drop, decide_eq_true_eq, not_le]
      rcases Nat.eq_zero_or_pos i with rfl | hpos
      · simpa using hlow
      · exact lt_of_le_of_lt (hsorted n (n + i) hn (by omega) (by omega)) hlow
    have hfirst : (d.take n).countP (fun x => decide (y ≤ x)) ≤ n :=
      List.countP_le_length.trans (List.length_take_le _ _)
    rw [← List.take_append_drop n d, List.countP_append, hrest] at hcount
    omega
  · intro hle
    have hfirst : (d.take (n + 1)).countP (fun x => decide (y ≤ x)) = n + 1 := by
      have hlength : (d.take (n + 1)).length = n + 1 := by
        rw [List.length_take]
        omega
      refine Eq.trans (List.countP_eq_length.mpr ?_) hlength
      intro z hz
      obtain ⟨i, hi, rfl⟩ := List.mem_iff_getElem.mp hz
      rw [hlength] at hi
      rw [List.getElem_take, decide_eq_true_eq]
      rcases Nat.lt_or_ge i n with hlt | hge
      · exact hle.trans (hsorted i n (by omega) hn hlt)
      · obtain rfl : i = n := by omega
        exact hle
    rw [← List.take_append_drop (n + 1) d, List.countP_append, hfirst]
    omega

/-- In a descending list the first hit is the largest one. -/
theorem find?_descending {p : α → Bool} {d : List α} (hsorted : d.Pairwise fun a b => b ≤ a)
    (hx : x ∈ d) (hp : p x = true) (hmax : ∀ y ∈ d, p y = true → y ≤ x) : d.find? p = some x := by
  induction d with
  | nil => cases hx
  | cons z d ih =>
    rw [List.pairwise_cons] at hsorted
    rw [List.find?_cons]
    cases hz : p z with
    | true =>
      refine congrArg some (le_antisymm (hmax z List.mem_cons_self hz) ?_)
      rcases List.mem_cons.mp hx with rfl | hm
      · exact le_refl x
      · exact hsorted.1 x hm
    | false =>
      have hm : x ∈ d := by
        rcases List.mem_cons.mp hx with rfl | hm
        · rw [hp] at hz
          cases hz
        · exact hm
      exact ih hsorted.2 hm fun y hy => hmax y (List.mem_cons_of_mem _ hy)

end TwelveC.Lib
