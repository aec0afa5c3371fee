/-!
# Runs of a deterministic system under a list of events

`exec next` takes the events one after the other. `Along P` says that every
step of a run meets `P`, a condition on the state before the step and its event.
-/

namespace TwelveC.Lib.Run

variable {σ ε : Type} (next : σ → ε → σ)

def exec (s : σ) (events : List ε) : σ := events.foldl next s

@[simp] theorem exec_nil (s : σ) : exec next s [] = s := rfl
@[simp] theorem exec_cons (s : σ) (e : ε) (es : List ε) :
    exec next s (e :: es) = exec next (next s e) es := rfl

theorem exec_append (s : σ) (es fs : List ε) :
    exec next s (es ++ fs) = exec next (exec next s es) fs := List.foldl_append

def Along (P : σ → ε → Prop) : σ → List ε → Prop
  | _, [] => True
  | s, e :: es => P s e ∧ Along P (next s e) es

instance (P : σ → ε → Prop) [∀ s e, Decidable (P s e)] :
    ∀ s es, Decidable (Along next P s es)
  | _, [] => .isTrue trivial
  | s, e :: es =>
    match (inferInstance : Decidable (P s e)), instDecidableAlong P (next s e) es with
    | .isTrue h, .isTrue ht => .isTrue ⟨h, ht⟩
    | .isFalse h, _ => .isFalse fun h' => h h'.1
    | _, .isFalse h => .isFalse fun h' => h h'.2

variable {next} {P : σ → ε → Prop} {Inv : σ → Prop}

theorem along_append {s : σ} {es fs : List ε} :
    Along next P s (es ++ fs) ↔ Along next P s es ∧ Along next P (exec next s es) fs := by
  induction es generalizing s with
  | nil => simp [Along]
  | cons e es ih => simp [Along, ih, and_assoc]

theorem along_of_forall (h : ∀ s e, P s e) (s : σ) (es : List ε) : Along next P s es := by
  induction es generalizing s with
  | nil => trivial
  | cons e es ih => exact ⟨h s e, ih _⟩

theorem Along.mono {Q : σ → ε → Prop} (h : ∀ s e, P s e → Q s e) {s : σ} {es : List ε}
    (ha : Along next P s es) : Along next Q s es := by
  induction es generalizing s with
  | nil => trivial
  | cons e es ih => exact ⟨h _ _ ha.1, ih ha.2⟩

theorem along_congr {Q : σ → ε → Prop} (h : ∀ s e, P s e ↔ Q s e) (s : σ) (es : List ε) :
    Along next P s es ↔ Along next Q s es :=
  ⟨Along.mono fun s e => (h s e).mp, Along.mono fun s e => (h s e).mpr⟩

/-- An invariant that every allowed step keeps holds at the end of every allowed run. -/
theorem exec_invariant (hstep : ∀ s e, Inv s → P s e → Inv (next s e)) {s : σ} (h₀ : Inv s)
    {es : List ε} (ha : Along next P s es) : Inv (exec next s es) := by
  induction es generalizing s with
  | nil => exact h₀
  | cons e es ih => exact ih (hstep s e h₀ ha.1) ha.2

/-- Steps that start where the invariant holds meet whatever it gives them. -/
theorem along_of_invariant {Q : σ → ε → Prop} (hstep : ∀ s e, Inv s → P s e → Inv (next s e) ∧ Q s e)
    {s : σ} (h₀ : Inv s) {es : List ε} (ha : Along next P s es) : Along next Q s es := by
  induction es generalizing s with
  | nil => trivial
  | cons e es ih =>
    obtain ⟨hnext, hQ⟩ := hstep s e h₀ ha.1
    exact ⟨hQ, ih hnext ha.2⟩

/-- Every state that a run reaches, its first and its last ones included. -/
def Throughout (next : σ → ε → σ) (Inv : σ → Prop) (s : σ) (es : List ε) : Prop :=
  ∀ before after, es = before ++ after → Inv (exec next s before)

theorem throughout_cons {s : σ} {e : ε} {es : List ε} :
    Throughout next Inv s (e :: es) ↔ Inv s ∧ Throughout next Inv (next s e) es := by
  constructor
  · intro h
    refine ⟨h [] (e :: es) rfl, fun before after hes => ?_⟩
    exact h (e :: before) after (by rw [hes]; rfl)
  · rintro ⟨h₀, h⟩ before after hes
    cases before with
    | nil => exact h₀
    | cons e' before =>
      cases hes
      exact h before after rfl

/-- If a step keeps the invariant exactly when it meets `P`, then all states of a run have it exactly
when all steps meet `P`. -/
theorem throughout_iff (hstep : ∀ s e, Inv s → (Inv (next s e) ↔ P s e)) {s : σ} (h₀ : Inv s)
    (es : List ε) : Throughout next Inv s es ↔ Along next P s es := by
  induction es generalizing s with
  | nil =>
    refine ⟨fun _ => trivial, fun _ before after hes => ?_⟩
    rw [(List.append_eq_nil_iff.mp hes.symm).1]
    exact h₀
  | cons e es ih =>
    rw [throughout_cons, Along]
    constructor
    · rintro ⟨-, h⟩
      have hnext : Inv (next s e) := h [] es rfl
      exact ⟨(hstep s e h₀).mp hnext, (ih hnext).mp h⟩
    · rintro ⟨hP, h⟩
      exact ⟨h₀, (ih ((hstep s e h₀).mpr hP)).mpr h⟩

end TwelveC.Lib.Run
