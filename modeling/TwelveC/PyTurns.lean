import TwelveC.Python
import Mathlib.Logic.Relation

/-!
# Calls cut at their awaits

Between two awaits a call runs alone. A position says how far it has come, and
`advance` takes it to the next await. A position implements a program if, left
alone, its turns end with the result and the stores of that program.
-/

namespace TwelveC.PyTurns

variable {σ π α β : Type}

/-- Where a turn leads, by the result of what it did. -/
def goto (r : Except PyExn α × σ) (ok : α → π) (error : PyExn → π) : π × σ :=
  match r with
  | (.ok a, s) => (ok a, s)
  | (.error e, s) => (error e, s)

@[simp] theorem goto_ok (a : α) (s : σ) (ok : α → π) (error : PyExn → π) :
    goto (.ok a, s) ok error = (ok a, s) := rfl
@[simp] theorem goto_error (e : PyExn) (s : σ) (ok : α → π) (error : PyExn → π) :
    goto (.error e, s) ok error = (error e, s) := rfl

theorem goto_snd (r : Except PyExn α × σ) (ok : α → π) (error : PyExn → π) :
    (goto r ok error).2 = r.2 := by
  obtain ⟨r, s⟩ := r
  cases r <;> rfl

/-- What holds on both ways out holds after the turn. -/
theorem goto_fst {Q : π → Prop} {ok : α → π} {error : PyExn → π} (hok : ∀ a, Q (ok a))
    (herror : ∀ e, Q (error e)) (r : Except PyExn α × σ) : Q (goto r ok error).1 := by
  obtain ⟨r, s⟩ := r
  cases r with
  | ok a => exact hok a
  | error e => exact herror e

variable (advance : π → σ → π × σ) (result : π → Option (Except PyExn β))

def Implements (p : π) (x : Py σ β) : Prop :=
  ∀ s, ∃ q, Relation.ReflTransGen (fun a b : π × σ => advance a.1 a.2 = b) (p, s) (q, (x s).2) ∧
    result q = some (x s).1

variable {advance result} {p : π}

/-- A call that has ended. -/
theorem implements_done {r : Except PyExn β} (h : result p = some r) :
    Implements advance result p (Py.ofExcept r) :=
  fun _ => ⟨p, .refl, h⟩

/-- One turn does `x`; what follows implements the rest. -/
theorem implements_bind {x : Py σ α} {f : α → Py σ β} {ok : α → π} {error : PyExn → π}
    (hturn : ∀ s, advance p s = goto (x s) ok error)
    (hok : ∀ a, Implements advance result (ok a) (f a))
    (herror : ∀ e, result (error e) = some (.error e)) :
    Implements advance result p (x >>= f) := by
  intro s
  cases hx : x s with
  | mk r s' =>
    have hstep := hturn s
    rw [hx] at hstep
    cases r with
    | error e =>
      rw [Py.bind_error hx]
      exact ⟨error e, .single hstep, herror e⟩
    | ok a =>
      obtain ⟨q, hreach, hq⟩ := hok a s'
      rw [Py.bind_ok hx]
      exact ⟨q, .head hstep hreach, hq⟩

/-- A turn that cannot fail. -/
theorem implements_total {x : Py σ α} {f : α → Py σ β} {value : σ → α} {left : σ → σ} {ok : α → π}
    (hx : ∀ s, x s = (.ok (value s), left s)) (hturn : ∀ s, advance p s = (ok (value s), left s))
    (hok : ∀ a, Implements advance result (ok a) (f a)) :
    Implements advance result p (x >>= f) := by
  intro s
  obtain ⟨q, hreach, hq⟩ := hok (value s) (left s)
  rw [Py.bind_ok (hx s)]
  exact ⟨q, .head (hturn s) hreach, hq⟩

end TwelveC.PyTurns
