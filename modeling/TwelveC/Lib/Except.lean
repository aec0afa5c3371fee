import Mathlib.Data.List.Forall2

/-!
# Computations that fail with a value
-/

namespace TwelveC.Lib

variable {ε α β : Type}

/-- Inversion of a successful `>>=`. -/
theorem bind_ok_iff {x : Except ε α} {f : α → Except ε β} {b : β} :
    (x >>= f) = .ok b ↔ ∃ a, x = .ok a ∧ f a = .ok b := by
  cases x with
  | error e => simp [bind, Except.bind]
  | ok a => simp [bind, Except.bind]

theorem bind_of_ok {x : Except ε α} {a : α} (h : x = .ok a) (f : α → Except ε β) :
    (x >>= f) = f a := by
  rw [h]
  rfl

theorem bind_of_error {x : Except ε α} {e : ε} (h : x = .error e) (f : α → Except ε β) :
    (x >>= f) = .error e := by
  rw [h]
  rfl

theorem map_ok_iff {x : Except ε α} {f : α → β} {b : β} :
    x.map f = .ok b ↔ ∃ a, x = .ok a ∧ f a = b := by
  cases x with
  | error e => simp [Except.map]
  | ok a => simp [Except.map]

theorem mapError_ok_iff {δ : Type} {x : Except ε α} {f : ε → δ} {a : α} :
    x.mapError f = .ok a ↔ x = .ok a := by
  cases x with
  | error e => simp [Except.mapError]
  | ok b => simp [Except.mapError]

/-- The two give the same values; where one fails so does the other, perhaps with another error. -/
def SameOk (x y : Except ε α) : Prop := ∀ a, x = .ok a ↔ y = .ok a

theorem SameOk.refl (x : Except ε α) : SameOk x x := fun _ => Iff.rfl

theorem sameOk_of_eq {x y : Except ε α} (h : x = y) : SameOk x y := h ▸ SameOk.refl x

theorem SameOk.bind {x y : Except ε α} {f g : α → Except ε β} (h : SameOk x y)
    (hfg : ∀ a, y = .ok a → SameOk (f a) (g a)) : SameOk (x >>= f) (y >>= g) := by
  intro b
  rw [bind_ok_iff, bind_ok_iff]
  constructor
  · rintro ⟨a, hx, hf⟩
    have hy := (h a).mp hx
    exact ⟨a, hy, (hfg a hy b).mp hf⟩
  · rintro ⟨a, hy, hg⟩
    exact ⟨a, (h a).mpr hy, (hfg a hy b).mpr hg⟩

/-- What every step of a fold keeps holds of its result. -/
theorem foldlM_ok_invariant {p : β → Prop} {f : β → α → Except ε β}
    (hf : ∀ b a b', p b → f b a = .ok b' → p b') {l : List α} {b b' : β} (hb : p b)
    (h : l.foldlM f b = .ok b') : p b' := by
  induction l generalizing b with
  | nil =>
    obtain rfl := Except.ok.inj h
    exact hb
  | cons a l ih =>
    rw [List.foldlM_cons] at h
    obtain ⟨c, hc, hrest⟩ := bind_ok_iff.mp h
    exact ih (hf _ _ _ hb hc) hrest

/-- A successful `mapM` has a result for every element, in order. -/
theorem mapM_ok_iff {f : α → Except ε β} {l : List α} {bs : List β} :
    l.mapM f = .ok bs ↔ List.Forall₂ (fun a b => f a = .ok b) l bs := by
  induction l generalizing bs with
  | nil =>
    rw [List.mapM_nil, List.forall₂_nil_left_iff]
    exact ⟨fun h => (Except.ok.inj h).symm, fun h => congrArg _ h.symm⟩
  | cons a l ih =>
    rw [List.mapM_cons, bind_ok_iff, List.forall₂_cons_left_iff]
    constructor
    · rintro ⟨b, hb, hrest⟩
      obtain ⟨bs', hbs, h⟩ := bind_ok_iff.mp hrest
      cases h
      exact ⟨b, bs', hb, ih.mp hbs, rfl⟩
    · rintro ⟨b, bs', hb, hbs, rfl⟩
      exact ⟨b, hb, bind_ok_iff.mpr ⟨bs', ih.mpr hbs, rfl⟩⟩

theorem mapM_map_ok {γ : Type} {f : β → Except ε γ} {g : α → β} {h : α → γ} {l : List α}
    (hok : ∀ a ∈ l, f (g a) = .ok (h a)) : (l.map g).mapM f = .ok (l.map h) := by
  rw [mapM_ok_iff, List.forall₂_map_left_iff, List.forall₂_map_right_iff, List.forall₂_same]
  exact hok

/-- What a step can give is all that the `mapM` can give. -/
theorem mapM_ok_map {f : α → Except ε β} {g : α → β} {l : List α} {bs : List β}
    (h : l.mapM f = .ok bs) (hg : ∀ a b, f a = .ok b → b = g a) : bs = l.map g := by
  replace h := mapM_ok_iff.mp h
  induction h with
  | nil => rfl
  | cons hab _ ih => rw [List.map_cons, hg _ _ hab, ih]

theorem mapM_congr {f g : α → Except ε β} {l : List α} (h : ∀ a ∈ l, f a = g a) :
    l.mapM f = l.mapM g := by
  induction l with
  | nil => rfl
  | cons a l ih =>
    rw [List.mapM_cons, List.mapM_cons, h a List.mem_cons_self,
      ih fun b hb => h b (List.mem_cons_of_mem _ hb)]

/-- Every result is that of an element. -/
theorem mapM_ok_mem {f : α → Except ε β} {l : List α} {bs : List β} (h : l.mapM f = .ok bs) {b : β}
    (hb : b ∈ bs) : ∃ a ∈ l, f a = .ok b := by
  replace h := mapM_ok_iff.mp h
  induction h with
  | nil => simp at hb
  | cons hab _ ih =>
    rcases List.mem_cons.mp hb with rfl | hb
    · exact ⟨_, List.mem_cons_self, hab⟩
    · obtain ⟨a, ha, hf⟩ := ih hb
      exact ⟨a, List.mem_cons_of_mem _ ha, hf⟩

/-- Every element has a result. -/
theorem mem_mapM_ok {f : α → Except ε β} {l : List α} {bs : List β} (h : l.mapM f = .ok bs) {a : α}
    (ha : a ∈ l) : ∃ b ∈ bs, f a = .ok b := by
  replace h := mapM_ok_iff.mp h
  induction h with
  | nil => simp at ha
  | cons hab _ ih =>
    rcases List.mem_cons.mp ha with rfl | ha
    · exact ⟨_, List.mem_cons_self, hab⟩
    · obtain ⟨b, hb, hf⟩ := ih ha
      exact ⟨b, List.mem_cons_of_mem _ hb, hf⟩

end TwelveC.Lib
