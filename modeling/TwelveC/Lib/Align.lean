import Mathlib.Tactic.Ring
import Mathlib.Tactic.Linarith

/-!
# Distance to the next multiple

`gap n d` is what has to be added to `n` to reach the least multiple of `d`
that is not below it.
-/

namespace TwelveC.Lib.Align

def gap (n d : Nat) : Nat := (d - n % d) % d

theorem gap_lt (n d : Nat) (h : 0 < d) : gap n d < d := Nat.mod_lt _ h

theorem dvd_add_gap (n d : Nat) (h : 0 < d) : d ∣ n + gap n d := by
  have hm := Nat.mod_lt n h
  have hn := Nat.mod_add_div n d
  by_cases h0 : n % d = 0
  · have hg : gap n d = 0 := by simp [gap, h0]
    rw [hg]
    exact Nat.dvd_of_mod_eq_zero (by simpa using h0)
  · have hg : gap n d = d - n % d := Nat.mod_eq_of_lt (by omega)
    refine ⟨n / d + 1, ?_⟩
    rw [hg, Nat.mul_add]
    omega

theorem gap_eq_zero (n d : Nat) (h : d ∣ n) : gap n d = 0 := by
  simp [gap, Nat.mod_eq_zero_of_dvd h]

theorem gap_of_not_dvd (n d : Nat) (hd : 0 < d) (h : ¬ d ∣ n) : gap n d = d - n % d := by
  have hm : n % d ≠ 0 := fun h0 => h (Nat.dvd_of_mod_eq_zero h0)
  exact Nat.mod_eq_of_lt (by omega)

theorem gap_pos (n d : Nat) (hd : 0 < d) (h : ¬ d ∣ n) : 0 < gap n d := by
  have hm := Nat.mod_lt n hd
  rw [gap_of_not_dvd n d hd h]
  omega

/-- No multiple of `d` lies strictly between `n` and `n + gap n d`. -/
theorem add_gap_le (n d k : Nat) (hd : 0 < d) (h : n ≤ d * k) : n + gap n d ≤ d * k := by
  obtain ⟨j, hj⟩ := dvd_add_gap n d hd
  have hl := gap_lt n d hd
  rw [hj]
  apply Nat.mul_le_mul_left
  by_contra hlt
  have hk : d * (k + 1) ≤ d * j := Nat.mul_le_mul_left d (by omega)
  rw [Nat.mul_add] at hk
  omega

/-- The multiple next above `n`, when it is known by its index. -/
theorem gap_of_between (n d k : Nat) (hd : 0 < d) (h₁ : d * (k - 1) < n) (h₂ : n ≤ d * k) :
    gap n d = d * k - n := by
  obtain ⟨j, hj⟩ := dvd_add_gap n d hd
  have hle := add_gap_le n d k hd h₂
  have hkj : k - 1 < j := by
    apply Nat.lt_of_mul_lt_mul_left (a := d)
    omega
  have hge : d * k ≤ d * j := Nat.mul_le_mul_left d (by omega)
  omega

/-- Just past a multiple, the next one is nearly a whole period away. -/
theorem gap_of_mul_add (d k r : Nat) (h0 : 0 < r) (h : r < d) : gap (d * k + r) d = d - r := by
  have hr : (d * k + r) % d = r := by
    rw [Nat.mul_add_mod]
    exact Nat.mod_eq_of_lt h
  rw [gap, hr]
  exact Nat.mod_eq_of_lt (by omega)

theorem not_dvd_mul_add (d k r : Nat) (h0 : 0 < r) (h : r < d) : ¬ d ∣ d * k + r := by
  intro hd
  have h1 : (d * k + r) % d = r := by
    rw [Nat.mul_add_mod]
    exact Nat.mod_eq_of_lt h
  have h2 := Nat.mod_eq_zero_of_dvd hd
  omega

/-- Ceiling division bounds its numerator from both sides. -/
theorem ceil_mul_ge (n d : Nat) (h : 0 < d) : n ≤ d * ((n + d - 1) / d) := by
  have h1 := Nat.lt_mul_div_succ (n + d - 1) h
  rw [Nat.mul_add] at h1
  omega

theorem ceil_mul_lt (n d : Nat) (hn : 0 < n) (h : 0 < d) : d * ((n + d - 1) / d - 1) < n := by
  have h1 := Nat.mul_div_le (n + d - 1) d
  rw [Nat.mul_sub]
  omega

end TwelveC.Lib.Align
