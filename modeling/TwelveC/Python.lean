import TwelveC.Lib.Except

/-!
# Python calls: exceptions and state

A call of the two servers changes its stores step by step and ends with a value
or an exception; what it did before the exception stays done. `tryExcept` is
`try … except`, whose handler starts in the state that the body left.
-/

namespace TwelveC

/-- Exceptions by the class that the handlers tell apart. `service` is a `BlockStoreError` of the
relay or an `HTTPException` of the registry, `httpStatus` an `httpx.HTTPStatusError`, `http` any
other `httpx.HTTPError`. -/
inductive PyExn where
  | service (message : String) (statusCode : Nat)
  | httpStatus (statusCode : Nat) (text : String)
  | http (text : String)
  | runtimeError (text : String)
  | valueError (text : String)
  | indexError
  | zeroDivisionError
  | integrityError
  | osError
  | nameError (name : String)
  deriving DecidableEq, Repr

/-- `str(exc)` -/
def PyExn.text : PyExn → String
  | .service message _ => message
  | .httpStatus _ text => text
  | .http text => text
  | .runtimeError text => text
  | .valueError text => text
  | .indexError => "list index out of range"
  | .zeroDivisionError => "integer modulo by zero"
  | .integrityError => "UNIQUE constraint failed"
  | .osError => "input/output error"
  | .nameError name => "name '" ++ name ++ "' is not defined"

/-- `isinstance(exc, httpx.HTTPError)` -/
def PyExn.isHttpError : PyExn → Bool
  | .httpStatus _ _ => true
  | .http _ => true
  | _ => false

@[simp] theorem okBind {α β : Type} (a : α) (f : α → Except PyExn β) :
    (Except.ok a >>= f) = f a := rfl
@[simp] theorem errorBind {α β : Type} (e : PyExn) (f : α → Except PyExn β) :
    ((Except.error e : Except PyExn α) >>= f) = .error e := rfl

/-- Inversion of a successful `>>=`. -/
theorem except_bind_eq_ok {α β : Type} {x : Except PyExn α} {f : α → Except PyExn β} {b : β} :
    (x >>= f) = .ok b ↔ ∃ a, x = .ok a ∧ f a = .ok b :=
  Lib.bind_ok_iff

/-- Every result of a successful `mapM` is the result of an element. -/
theorem except_mapM_mem {α β : Type} {f : α → Except PyExn β} {l : List α} {bs : List β}
    (h : l.mapM f = .ok bs) {b : β} (hb : b ∈ bs) : ∃ a ∈ l, f a = .ok b :=
  Lib.mapM_ok_mem h hb

def Py (σ α : Type) := σ → Except PyExn α × σ

namespace Py

variable {σ α β : Type}

def bind (x : Py σ α) (f : α → Py σ β) : Py σ β := fun s =>
  match x s with
  | (.ok a, s') => f a s'
  | (.error e, s') => (.error e, s')

instance : Monad (Py σ) where
  pure a := fun s => (.ok a, s)
  bind := bind

def raise (e : PyExn) : Py σ α := fun s => (.error e, s)

def raiseIf (c : Prop) [Decidable c] (e : PyExn) : Py σ Unit := fun s =>
  if c then (.error e, s) else (.ok (), s)

def tryExcept (x : Py σ α) (handler : PyExn → Py σ α) : Py σ α := fun s =>
  match x s with
  | (.ok a, s') => (.ok a, s')
  | (.error e, s') => handler e s'

/-- An outcome decided outside of the stores. -/
def ofExcept (x : Except PyExn α) : Py σ α := fun s => (x, s)

def read (f : σ → α) : Py σ α := fun s => (.ok (f s), s)

def modify (f : σ → σ) : Py σ Unit := fun s => (.ok (), f s)

variable {x : Py σ α} {f : α → Py σ β} {s s' : σ}

@[simp] theorem pure_run (a : α) (s : σ) : (pure a : Py σ α) s = (.ok a, s) := rfl
@[simp] theorem raise_run (e : PyExn) (s : σ) : (raise e : Py σ α) s = (.error e, s) := rfl
@[simp] theorem ofExcept_run (r : Except PyExn α) (s : σ) : ofExcept r s = (r, s) := rfl
@[simp] theorem read_run (g : σ → α) (s : σ) : read g s = (.ok (g s), s) := rfl
@[simp] theorem modify_run (g : σ → σ) (s : σ) : modify g s = (.ok (), g s) := rfl

theorem bind_ok {a : α} (h : x s = (.ok a, s')) : (x >>= f) s = f a s' := by
  show bind x f s = _
  rw [bind, h]

theorem bind_error {e : PyExn} (h : x s = (.error e, s')) : (x >>= f) s = (.error e, s') := by
  show bind x f s = _
  rw [bind, h]

theorem raiseIf_pos {c : Prop} [Decidable c] (h : c) (e : PyExn) (s : σ) :
    raiseIf c e s = (.error e, s) := if_pos h

theorem raiseIf_neg {c : Prop} [Decidable c] (h : ¬ c) (e : PyExn) (s : σ) :
    raiseIf c e s = (.ok (), s) := if_neg h

theorem tryExcept_ok {handler : PyExn → Py σ α} {a : α} (h : x s = (.ok a, s')) :
    tryExcept x handler s = (.ok a, s') := by
  rw [tryExcept, h]

theorem tryExcept_error {handler : PyExn → Py σ α} {e : PyExn} (h : x s = (.error e, s')) :
    tryExcept x handler s = handler e s' := by
  rw [tryExcept, h]

theorem tryExcept_bind_ok {f : α → Py σ β} {handler : PyExn → Py σ β} {a : α}
    (h : x s = (.ok a, s')) : tryExcept (x >>= f) handler s = tryExcept (f a) handler s' := by
  rw [tryExcept, bind_ok h, tryExcept]

theorem tryExcept_bind_error {f : α → Py σ β} {handler : PyExn → Py σ β} {e : PyExn}
    (h : x s = (.error e, s')) : tryExcept (x >>= f) handler s = handler e s' :=
  tryExcept_error (bind_error h)

theorem bind_pure_left {α : Type} (a : α) (f : α → Py σ β) : (pure a >>= f) = f a := rfl

theorem bind_assoc {γ : Type} (x : Py σ α) (f : α → Py σ β) (g : β → Py σ γ) :
    (x >>= f) >>= g = x >>= fun a => f a >>= g := by
  funext s
  cases hx : x s with
  | mk r s' =>
    cases r with
    | ok a => rw [bind_ok hx, show ((x >>= f) >>= g) s = bind (x >>= f) g s from rfl, bind,
        bind_ok hx]; rfl
    | error e =>
      rw [bind_error hx]
      exact bind_error (bind_error hx)

/-- However the call ends, `P` still holds. -/
def Preserves (P : σ → Prop) (x : Py σ α) : Prop := ∀ s, P s → P (x s).2

variable {P : σ → Prop}

theorem preserves_bind (hx : Preserves P x) (hf : ∀ a, Preserves P (f a)) :
    Preserves P (x >>= f) := by
  intro s hs
  have h := hx s hs
  cases hr : x s with
  | mk r s' =>
    rw [hr] at h
    cases r with
    | ok a =>
      rw [bind_ok hr]
      exact hf a s' h
    | error e =>
      rw [bind_error hr]
      exact h

/-- A continuation that only reads leaves the stores of the first part. -/
theorem bind_snd (hf : ∀ a s, (f a s).2 = s) : ((x >>= f) s).2 = (x s).2 := by
  cases hr : x s with
  | mk r s' =>
    cases r with
    | ok a => rw [bind_ok hr, hf]
    | error e => rw [bind_error hr]

theorem preserves_pure (a : α) : Preserves P (pure a : Py σ α) := fun _ hs => hs

theorem preserves_raise (e : PyExn) : Preserves P (raise e : Py σ α) := fun _ hs => hs

theorem preserves_raiseIf (c : Prop) [Decidable c] (e : PyExn) : Preserves P (raiseIf c e) := by
  intro s hs
  by_cases h : c
  · rw [raiseIf_pos h]
    exact hs
  · rw [raiseIf_neg h]
    exact hs

theorem preserves_ofExcept (r : Except PyExn α) : Preserves P (ofExcept r : Py σ α) :=
  fun _ hs => hs

theorem preserves_read (g : σ → α) : Preserves P (read g) := fun _ hs => hs

theorem preserves_modify {g : σ → σ} (h : ∀ s, P s → P (g s)) : Preserves P (modify g) := h

end Py
end TwelveC
