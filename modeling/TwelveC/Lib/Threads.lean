import TwelveC.Lib.Run
import Mathlib.Logic.Function.Basic
import Mathlib.Data.Fintype.Card

/-!
# Calls that take turns on a shared store

Each thread has a position of its own. A schedule names the thread that takes
the next step; a step reads and changes the store and moves that thread only.
-/

namespace TwelveC.Lib.Threads

open Run

/-- The shared store and the position of every thread. -/
@[ext] structure Conf (ι σ π : Type) where
  store : σ
  pos : ι → π

variable {ι σ π : Type} [DecidableEq ι] (advance : ι → π → σ → π × σ)

def next (c : Conf ι σ π) (i : ι) : Conf ι σ π :=
  let r := advance i (c.pos i) c.store
  { store := r.2, pos := Function.update c.pos i r.1 }

@[simp] theorem next_store (c : Conf ι σ π) (i : ι) :
    (next advance c i).store = (advance i (c.pos i) c.store).2 := rfl

@[simp] theorem next_pos_self (c : Conf ι σ π) (i : ι) :
    (next advance c i).pos i = (advance i (c.pos i) c.store).1 := Function.update_self ..

theorem next_pos_of_ne {i j : ι} (h : j ≠ i) (c : Conf ι σ π) :
    (next advance c i).pos j = c.pos j := Function.update_of_ne h ..

theorem next_pos (c : Conf ι σ π) (i j : ι) :
    (next advance c i).pos j = if j = i then (advance i (c.pos i) c.store).1 else c.pos j :=
  Function.update_apply ..

section count

variable [Fintype ι] (P : ι → π → Bool)

def count (c : Conf ι σ π) : Nat := (Finset.univ.filter fun i => P i (c.pos i)).card

variable {advance P} {c : Conf ι σ π} {i : ι}

omit [DecidableEq ι] in
theorem count_pos (h : P i (c.pos i) = true) : 0 < count P c :=
  Finset.card_pos.mpr ⟨i, Finset.mem_filter.mpr ⟨Finset.mem_univ i, h⟩⟩

theorem count_next_same (h : P i (advance i (c.pos i) c.store).1 = P i (c.pos i)) :
    count P (next advance c i) = count P c := by
  refine congrArg Finset.card (Finset.filter_congr fun j _ => ?_)
  rw [next_pos]
  split
  case isTrue hj =>
    subst hj
    rw [h]
  case isFalse => rfl

theorem count_next_le (h : P i (advance i (c.pos i) c.store).1 = true → P i (c.pos i) = true) :
    count P (next advance c i) ≤ count P c := by
  refine Finset.card_le_card fun j hj => ?_
  simp only [Finset.mem_filter, Finset.mem_univ, true_and, next_pos] at hj ⊢
  split at hj
  case isTrue hji =>
    subst hji
    exact h hj
  case isFalse => exact hj

theorem count_next_more (hbefore : P i (c.pos i) = false)
    (hafter : P i (advance i (c.pos i) c.store).1 = true) :
    count P (next advance c i) = count P c + 1 := by
  have hnotMem : i ∉ Finset.univ.filter fun j => P j (c.pos j) := by simp [hbefore]
  rw [count, count, ← Finset.card_insert_of_notMem hnotMem]
  congr 1
  ext j
  simp only [Finset.mem_filter, Finset.mem_univ, true_and, Finset.mem_insert, next_pos]
  split
  case isTrue hj =>
    subst hj
    simp [hafter]
  case isFalse hj => simp [hj]

theorem count_next_less (hbefore : P i (c.pos i) = true)
    (hafter : P i (advance i (c.pos i) c.store).1 = false) :
    count P (next advance c i) + 1 = count P c := by
  have hnotMem : i ∉ Finset.univ.filter fun j => P j ((next advance c i).pos j) := by
    simp [next_pos, hafter]
  rw [count, count, ← Finset.card_insert_of_notMem hnotMem]
  congr 1
  ext j
  simp only [Finset.mem_filter, Finset.mem_univ, true_and, Finset.mem_insert, next_pos]
  split
  case isTrue hj =>
    subst hj
    simp [hbefore]
  case isFalse hj => simp [hj]

end count

end TwelveC.Lib.Threads
