import Mathlib.Data.Int.CardIntervalMod
import Mathlib.Data.List.Nodup

/-!
# Round robin through a pool

`rotated pool i` is the element at `i` modulo the size of the pool. As many steps
as the pool is long visit distinct elements, and no element gets ahead of
another by more than one visit.
-/

namespace TwelveC.Lib

variable {α β γ : Type}

def rotated (pool : List α) (h : 0 < pool.length) (i : Nat) : α :=
  pool.get ⟨i % pool.length, Nat.mod_lt _ h⟩

theorem rotated_mem (pool : List α) (h : 0 < pool.length) (i : Nat) : rotated pool h i ∈ pool :=
  List.get_mem _ _

theorem rotated_getElem? (pool : List α) (h : 0 < pool.length) (i : Nat) :
    pool[i % pool.length]? = some (rotated pool h i) :=
  List.getElem?_eq_getElem (Nat.mod_lt _ h)

/-- Elements with distinct keys are told apart by their places. -/
theorem rotated_key_eq {key : α → β} {pool : List α} (hkeys : (pool.map key).Nodup)
    (h : 0 < pool.length) {i : Nat} {a : α} {place : Nat} (ha : pool[place]? = some a) :
    key (rotated pool h i) = key a ↔ i % pool.length = place := by
  obtain ⟨hplace, rfl⟩ := List.getElem?_eq_some_iff.mp ha
  rw [rotated, List.get_eq_getElem]
  have hi : i % pool.length < (pool.map key).length := by simpa using Nat.mod_lt i h
  have hj : place < (pool.map key).length := by simpa using hplace
  have hinj : (pool.map key)[i % pool.length] = (pool.map key)[place] ↔ i % pool.length = place :=
    hkeys.getElem_inj_iff
  simpa using hinj

theorem mod_add_inj {n i j k : Nat} (hj : j < n) (hk : k < n) (h : (i + j) % n = (i + k) % n) :
    j = k := by
  have hmod : j ≡ k [MOD n] := Nat.ModEq.add_left_cancel' i h
  exact Nat.ModEq.eq_of_lt_of_lt hmod hj hk

/-- A run of steps no longer than the pool. -/
theorem rotated_nodup {key : α → β} {pool : List α} (hkeys : (pool.map key).Nodup)
    (h : 0 < pool.length) (start : Nat) {steps : Nat} (hsteps : steps ≤ pool.length) :
    ((List.range steps).map fun j => key (rotated pool h (start + j))).Nodup := by
  apply List.Nodup.map_on
  · intro j hj k hk heq
    rw [List.mem_range] at hj hk
    rw [rotated_key_eq hkeys h (rotated_getElem? pool h (start + k))] at heq
    exact mod_add_inj (by omega) (by omega) heq
  · exact List.nodup_range

theorem countP_range (p : Nat → Prop) [DecidablePred p] (n : Nat) :
    (List.range n).countP (fun i => decide (p i)) = Nat.count p n := by
  induction n with
  | zero => rfl
  | succ n ih => simp [List.range_succ, Nat.count_succ, ih]

/-- Places of the pool are visited equally often, up to one visit. -/
theorem visits_le (n : Nat) {size a b : Nat} (ha : a < size) (hb : b < size) :
    (List.range n).countP (fun i => decide (i % size = a)) ≤
      (List.range n).countP (fun i => decide (i % size = b)) + 1 := by
  have hcount : ∀ c < size, (List.range n).countP (fun i => decide (i % size = c)) =
      n / size + if c < n % size then 1 else 0 := by
    intro c hc
    have hmod : ∀ i, i % size = c ↔ i ≡ c [MOD size] := by
      intro i
      rw [Nat.ModEq, Nat.mod_eq_of_lt hc]
    simp only [hmod]
    rw [countP_range, Nat.count_modEq_card _ (Nat.zero_lt_of_lt hc), Nat.mod_eq_of_lt hc]
  rw [hcount a ha, hcount b hb]
  split <;> split <;> omega

/-- Groups with distinct tags are found again in their concatenation. -/
theorem filter_flatMap_tag [DecidableEq γ] {l : List α} {f : α → List β} {key : α → γ} {tag : β → γ}
    (hkeys : (l.map key).Nodup) (htag : ∀ a ∈ l, ∀ b ∈ f a, tag b = key a) {a : α} (ha : a ∈ l) :
    (l.flatMap f).filter (fun b => decide (tag b = key a)) = f a := by
  induction l with
  | nil => cases ha
  | cons c l ih =>
    rw [List.map_cons, List.nodup_cons] at hkeys
    have htagRest : ∀ a ∈ l, ∀ b ∈ f a, tag b = key a := fun a ha =>
      htag a (List.mem_cons_of_mem _ ha)
    rw [List.flatMap_cons, List.filter_append]
    rcases List.mem_cons.mp ha with rfl | ha
    · have hself : (f a).filter (fun b => decide (tag b = key a)) = f a := by
        apply List.filter_eq_self.mpr
        intro b hb
        simpa using htag a List.mem_cons_self b hb
      have hrest : (l.flatMap f).filter (fun b => decide (tag b = key a)) = [] := by
        apply List.filter_eq_nil_iff.mpr
        intro b hb
        obtain ⟨c, hc, hbc⟩ := List.mem_flatMap.mp hb
        simp only [decide_eq_true_eq]
        intro heq
        rw [htagRest c hc b hbc] at heq
        exact hkeys.1 (List.mem_map.mpr ⟨c, hc, heq⟩)
      rw [hself, hrest, List.append_nil]
    · have hhead : (f c).filter (fun b => decide (tag b = key a)) = [] := by
        apply List.filter_eq_nil_iff.mpr
        intro b hb
        simp only [decide_eq_true_eq]
        intro heq
        rw [htag c List.mem_cons_self b hb] at heq
        exact hkeys.1 (List.mem_map.mpr ⟨a, ha, heq.symm⟩)
      rw [hhead, List.nil_append, ih hkeys.2 htagRest ha]

/-- Groups with at most one row of a kind. -/
theorem countP_flatMap_one {l : List α} {f : α → List β} {p : β → Bool} {q : α → Bool}
    (h : ∀ a, (f a).countP p = if q a then 1 else 0) : (l.flatMap f).countP p = l.countP q := by
  induction l with
  | nil => rfl
  | cons a l ih => rw [List.flatMap_cons, List.countP_append, List.countP_cons, h a, ih, Nat.add_comm]

end TwelveC.Lib
