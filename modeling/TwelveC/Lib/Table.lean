import TwelveC.Lib.Assoc

/-!
# Tables with a primary key

The rows of a table have distinct keys. `mapValues` is an update, `filter` keeps
the rows that a deletion leaves, `insert` is an upsert and `add` an insert that
fails on a present key.
-/

namespace TwelveC.Lib

structure Table (κ β : Type) where
  entries : List (κ × β)
  nodup : (entries.map Prod.fst).Nodup
  deriving DecidableEq, Repr

namespace Table

variable {κ β : Type}

@[ext] theorem ext {t u : Table κ β} (h : t.entries = u.entries) : t = u := by
  cases t
  cases u
  simpa using h

def empty : Table κ β := ⟨[], List.nodup_nil⟩

/-- `UPDATE`, with the rows that it does not match mapped to themselves. -/
def mapValues (t : Table κ β) (f : κ → β → β) : Table κ β where
  entries := t.entries.map fun e => (e.1, f e.1 e.2)
  nodup := by
    rw [List.map_map]
    exact t.nodup

/-- `DELETE` of the rows that do not satisfy `p`. -/
def filter (t : Table κ β) (p : κ → β → Bool) : Table κ β where
  entries := t.entries.filter fun e => p e.1 e.2
  nodup := t.nodup.sublist (List.filter_sublist.map _)

variable [DecidableEq κ]

def find (t : Table κ β) (key : κ) : Option β := Assoc.find t.entries key

theorem find_eq_some {t : Table κ β} {key : κ} {value : β} :
    t.find key = some value ↔ (key, value) ∈ t.entries :=
  ⟨Assoc.mem_of_find, Assoc.find_of_mem t.nodup⟩

theorem find_eq_none {t : Table κ β} {key : κ} :
    t.find key = none ↔ ∀ value, (key, value) ∉ t.entries := by
  constructor
  · intro h value hm
    rw [find_eq_some.mpr hm] at h
    cases h
  · intro h
    cases hf : t.find key with
    | none => rfl
    | some value => exact absurd (find_eq_some.mp hf) (h value)

theorem not_mem_keys {t : Table κ β} {key : κ} (h : t.find key = none) :
    key ∉ t.entries.map Prod.fst := by
  intro hm
  obtain ⟨e, he, rfl⟩ := List.mem_map.mp hm
  exact find_eq_none.mp h e.2 he

@[simp] theorem find_empty (key : κ) : (empty : Table κ β).find key = none := rfl

@[simp] theorem find_mapValues (t : Table κ β) (f : κ → β → β) (key : κ) :
    (t.mapValues f).find key = (t.find key).map (f key) := by
  apply Option.ext
  intro value
  rw [find_eq_some, Option.map_eq_some_iff]
  simp only [find_eq_some]
  constructor
  · intro h
    obtain ⟨e, he, heq⟩ := List.mem_map.mp h
    simp only [Prod.mk.injEq] at heq
    obtain ⟨rfl, rfl⟩ := heq
    exact ⟨e.2, he, rfl⟩
  · rintro ⟨old, hm, rfl⟩
    exact List.mem_map.mpr ⟨(key, old), hm, rfl⟩

@[simp] theorem find_filter (t : Table κ β) (p : κ → β → Bool) (key : κ) :
    (t.filter p).find key = (t.find key).filter (p key) := by
  apply Option.ext
  intro value
  rw [find_eq_some, Option.filter_eq_some_iff, find_eq_some]
  exact List.mem_filter

/-- An update changes nothing exactly when it maps every row to itself. -/
theorem mapValues_eq_self {t : Table κ β} {f : κ → β → β} :
    t.mapValues f = t ↔ ∀ key value, t.find key = some value → f key value = value := by
  constructor
  · intro h key value hv
    have hmap := find_mapValues t f key
    rw [h, hv] at hmap
    exact (Option.some.inj hmap).symm
  · intro h
    apply ext
    have hmap : t.entries.map (fun e => (e.1, f e.1 e.2)) = t.entries.map id := by
      apply List.map_congr_left
      intro e he
      rw [h e.1 e.2 (find_eq_some.mpr he)]
      rfl
    exact hmap.trans (List.map_id _)

/-- `INSERT … ON CONFLICT DO UPDATE` -/
def insert (t : Table κ β) (key : κ) (value : β) : Table κ β :=
  match h : t.find key with
  | some _ => t.mapValues fun k old => if k = key then value else old
  | none =>
    { entries := t.entries ++ [(key, value)]
      nodup := by
        rw [List.map_append, List.nodup_append]
        refine ⟨t.nodup, List.nodup_singleton _, ?_⟩
        intro a ha b hb hab
        rw [List.map_singleton, List.mem_singleton] at hb
        rw [hab, hb] at ha
        exact not_mem_keys h ha }

/-- `INSERT`; a present key is an integrity error. -/
def add (t : Table κ β) (key : κ) (value : β) : Option (Table κ β) :=
  if (t.find key).isSome then none else some (t.insert key value)

theorem find_insert (t : Table κ β) (key other : κ) (value : β) :
    (t.insert key value).find other = if other = key then some value else t.find other := by
  rw [insert]
  split
  case h_1 old h =>
    rw [find_mapValues]
    by_cases ho : other = key
    · simp [ho, h]
    · rw [if_neg ho]
      cases t.find other <;> simp [ho]
  case h_2 h =>
    rw [find]
    by_cases ho : other = key
    · rw [if_pos ho, ho]
      exact Assoc.find_concat_self h value
    · rw [if_neg ho]
      exact Assoc.find_concat_of_ne ho value

@[simp] theorem find_insert_self (t : Table κ β) (key : κ) (value : β) :
    (t.insert key value).find key = some value := by
  rw [find_insert, if_pos rfl]

theorem find_insert_of_ne (t : Table κ β) {key other : κ} (h : other ≠ key) (value : β) :
    (t.insert key value).find other = t.find other := by
  rw [find_insert, if_neg h]

/-- An upsert changes nothing exactly when the row is there already. -/
theorem insert_eq_self {t : Table κ β} {key : κ} {value : β} :
    t.insert key value = t ↔ t.find key = some value := by
  constructor
  · intro h
    rw [← h, find_insert_self]
  · intro hfind
    rw [insert]
    split
    case h_1 old h =>
      rw [mapValues_eq_self]
      intro k v hv
      by_cases hk : k = key
      · rw [if_pos hk]
        rw [hk, hfind] at hv
        exact Option.some.inj hv
      · rw [if_neg hk]
    case h_2 h =>
      rw [hfind] at h
      cases h

theorem add_eq_some {t u : Table κ β} {key : κ} {value : β} :
    t.add key value = some u ↔ t.find key = none ∧ u = t.insert key value := by
  rw [add]
  cases h : t.find key with
  | none => simp [eq_comm]
  | some old => simp

def insertAll (t : Table κ β) (rows : List (κ × β)) : Table κ β :=
  rows.foldl (fun t row => t.insert row.1 row.2) t

theorem insertAll_concat (t : Table κ β) (rows : List (κ × β)) (row : κ × β) :
    t.insertAll (rows ++ [row]) = (t.insertAll rows).insert row.1 row.2 := by
  rw [insertAll, List.foldl_append]
  rfl

theorem find_insertAll_of_not_mem (t : Table κ β) {rows : List (κ × β)} {key : κ}
    (h : ∀ row ∈ rows, row.1 ≠ key) : (t.insertAll rows).find key = t.find key := by
  induction rows generalizing t with
  | nil => rfl
  | cons row rows ih =>
    show ((t.insert row.1 row.2).insertAll rows).find key = t.find key
    rw [ih _ fun other ho => h other (List.mem_cons_of_mem _ ho)]
    exact find_insert_of_ne _ (h row List.mem_cons_self).symm row.2

theorem mem_of_find_insertAll {t : Table κ β} {rows : List (κ × β)} {key : κ} {value : β}
    (h : (t.insertAll rows).find key = some value) :
    (key, value) ∈ rows ∨ t.find key = some value := by
  induction rows generalizing t with
  | nil => exact .inr h
  | cons row rows ih =>
    rcases ih h with hm | hfind
    · exact .inl (List.mem_cons_of_mem _ hm)
    · rw [find_insert] at hfind
      split at hfind
      case isTrue hkey =>
        cases hfind
        subst hkey
        exact .inl List.mem_cons_self
      case isFalse => exact .inr hfind

/-- The last row for a key is the one that stays. -/
theorem find_insertAll_last (t : Table κ β) {before after : List (κ × β)} {key : κ} {value : β}
    (h : ∀ row ∈ after, row.1 ≠ key) :
    (t.insertAll (before ++ (key, value) :: after)).find key = some value := by
  rw [insertAll, List.foldl_append, List.foldl_cons]
  exact (find_insertAll_of_not_mem _ h).trans (find_insert_self _ _ _)

/-- A list with a row for a key has a last one. -/
theorem exists_last {rows : List (κ × β)} {key : κ} (h : ∃ row ∈ rows, row.1 = key) :
    ∃ before value after, rows = before ++ (key, value) :: after ∧ ∀ row ∈ after, row.1 ≠ key := by
  induction rows with
  | nil =>
    obtain ⟨row, hm, -⟩ := h
    cases hm
  | cons row rows ih =>
    by_cases hlater : ∃ other ∈ rows, other.1 = key
    · obtain ⟨before, value, after, rfl, hafter⟩ := ih hlater
      exact ⟨row :: before, value, after, rfl, hafter⟩
    · obtain ⟨other, hm, hkey⟩ := h
      have hrest : ∀ other ∈ rows, other.1 ≠ key := fun other ho he => hlater ⟨other, ho, he⟩
      rcases List.mem_cons.mp hm with rfl | hm
      · subst hkey
        exact ⟨[], other.2, rows, rfl, hrest⟩
      · exact absurd hkey (hrest other hm)

theorem find_insertAll_nodup {rows : List (κ × β)} (h : (rows.map Prod.fst).Nodup) (key : κ)
    (value : β) : (empty.insertAll rows).find key = some value ↔ (key, value) ∈ rows := by
  constructor
  · intro hfind
    by_cases hm : ∃ row ∈ rows, row.1 = key
    · obtain ⟨before, last, after, rfl, hafter⟩ := exists_last hm
      rw [find_insertAll_last _ hafter] at hfind
      cases hfind
      exact List.mem_append_right _ List.mem_cons_self
    · rw [find_insertAll_of_not_mem _ fun row hr he => hm ⟨row, hr, he⟩] at hfind
      cases hfind
  · intro hm
    obtain ⟨before, after, rfl⟩ := List.append_of_mem hm
    refine find_insertAll_last _ fun row hr he => ?_
    rw [List.map_append, List.map_cons, List.nodup_append] at h
    exact (List.nodup_cons.mp h.2.1).1 (List.mem_map.mpr ⟨row, hr, he⟩)

/-- Upserts end in the rows `want` exactly if each of those is written, and each row that differs is
written over later on. -/
theorem insertAll_empty_iff {rows : List (κ × β)} (want : κ → Option β) :
    (∀ key, (empty.insertAll rows).find key = want key) ↔
      (∀ key value, want key = some value → (key, value) ∈ rows) ∧
      ∀ before row after, rows = before ++ row :: after → want row.1 ≠ some row.2 →
        ∃ value, (row.1, value) ∈ after ∧ want row.1 = some value := by
  constructor
  · intro h
    refine ⟨fun key value hwant => ?_, fun before row after hrows hstale => ?_⟩
    · by_cases hm : ∃ row ∈ rows, row.1 = key
      · obtain ⟨before, last, after, rfl, hafter⟩ := exists_last hm
        have hfind := h key
        rw [find_insertAll_last _ hafter, hwant] at hfind
        cases hfind
        exact List.mem_append_right _ List.mem_cons_self
      · have hfind := h key
        rw [find_insertAll_of_not_mem _ fun row hr he => hm ⟨row, hr, he⟩, hwant] at hfind
        cases hfind
    · subst hrows
      by_cases hm : ∃ other ∈ after, other.1 = row.1
      · obtain ⟨middle, last, rest, rfl, hrest⟩ := exists_last hm
        have hfind := h row.1
        rw [← List.cons_append, ← List.append_assoc, find_insertAll_last _ hrest] at hfind
        exact ⟨last, List.mem_append_right _ List.mem_cons_self, hfind.symm⟩
      · have hfind := h row.1
        rw [find_insertAll_last _ fun other ho he => hm ⟨other, ho, he⟩] at hfind
        exact absurd hfind.symm hstale
  · rintro ⟨hwritten, hover⟩ key
    by_cases hm : ∃ row ∈ rows, row.1 = key
    · obtain ⟨before, last, after, rfl, hafter⟩ := exists_last hm
      rw [find_insertAll_last _ hafter]
      by_contra hne
      obtain ⟨value, hvalue, -⟩ := hover before (key, last) after rfl fun h => hne h.symm
      exact hafter _ hvalue rfl
    · rw [find_insertAll_of_not_mem _ fun row hr he => hm ⟨row, hr, he⟩, find_empty]
      cases hwant : want key with
      | none => rfl
      | some value => exact absurd ⟨_, hwritten key value hwant, rfl⟩ hm

end Table
end TwelveC.Lib
