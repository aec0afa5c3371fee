import Mathlib.Data.List.Nodup

/-!
# Association lists with at most one entry for a key
-/

namespace TwelveC.Lib.Assoc

variable {κ β : Type} [DecidableEq κ]

def find (entries : List (κ × β)) (key : κ) : Option β := entries.lookup key

/-- Insertion that leaves a present key alone. -/
def emplace (entries : List (κ × β)) (key : κ) (value : β) : List (κ × β) :=
  if (find entries key).isSome then entries else entries ++ [(key, value)]

theorem find_eq_none_of_not_mem {entries : List (κ × β)} {key : κ}
    (h : key ∉ entries.map Prod.fst) : find entries key = none := by
  induction entries with
  | nil => rfl
  | cons e rest ih =>
    simp only [List.map_cons, List.mem_cons, not_or] at h
    rw [find, List.lookup_cons, beq_eq_false_iff_ne.mpr h.1]
    exact ih h.2

theorem not_mem_of_find_none {entries : List (κ × β)} {key : κ} (h : find entries key = none)
    {e : κ × β} (he : e ∈ entries) : e.1 ≠ key := by
  induction entries with
  | nil => cases he
  | cons first rest ih =>
    rw [find, List.lookup_cons] at h
    split at h
    · cases h
    · rename_i hne
      rcases List.mem_cons.mp he with rfl | he
      · exact fun heq => by simp [heq] at hne
      · exact ih h he

theorem find_of_mem {entries : List (κ × β)} {key : κ} {value : β}
    (hn : (entries.map Prod.fst).Nodup) (hm : (key, value) ∈ entries) :
    find entries key = some value := by
  induction entries with
  | nil => simp at hm
  | cons e rest ih =>
    simp only [List.map_cons, List.nodup_cons] at hn
    rw [find, List.lookup_cons]
    rcases List.mem_cons.mp hm with rfl | hm
    · simp
    · have hne : key ≠ e.1 := by
        rintro rfl
        exact hn.1 (List.mem_map.mpr ⟨_, hm, rfl⟩)
      rw [beq_eq_false_iff_ne.mpr hne]
      exact ih hn.2 hm

theorem mem_of_find {entries : List (κ × β)} {key : κ} {value : β}
    (h : find entries key = some value) : (key, value) ∈ entries := by
  induction entries with
  | nil => cases h
  | cons e rest ih =>
    rw [find, List.lookup_cons] at h
    by_cases he : key = e.1
    · rw [beq_iff_eq.mpr he] at h
      rw [he, ← Option.some.inj h]
      exact List.mem_cons_self
    · rw [beq_eq_false_iff_ne.mpr he] at h
      exact List.mem_cons_of_mem _ (ih h)

/-- `{key: f(key) for key in keys}` -/
theorem find_map_self (f : κ → β) {keys : List κ} {key : κ} (h : key ∈ keys) :
    find (keys.map fun key => (key, f key)) key = some (f key) := by
  induction keys with
  | nil => cases h
  | cons other rest ih =>
    rw [List.map_cons, find, List.lookup_cons]
    by_cases heq : key = other
    · rw [beq_iff_eq.mpr heq, heq]
    · rw [beq_eq_false_iff_ne.mpr heq]
      exact ih ((List.mem_cons.mp h).resolve_left heq)

/-- Entries with distinct keys are inserted one after the other. -/
theorem foldl_emplace (entries added : List (κ × β))
    (hn : ((entries ++ added).map Prod.fst).Nodup) :
    added.foldl (fun acc e => emplace acc e.1 e.2) entries = entries ++ added := by
  induction added generalizing entries with
  | nil => simp
  | cons e rest ih =>
    have hnew : e.1 ∉ entries.map Prod.fst := by
      rw [List.map_append, List.nodup_append] at hn
      intro hmem
      exact hn.2.2 _ hmem _ (by simp) rfl
    rw [List.foldl_cons, emplace, find_eq_none_of_not_mem hnew, Option.isSome_none,
      if_neg (by decide), ih (entries ++ [e]) (by simpa using hn)]
    simp

theorem find_append (entries added : List (κ × β)) (key : κ) :
    find (entries ++ added) key = (find entries key).or (find added key) :=
  List.lookup_append

theorem find_concat_self {entries : List (κ × β)} {key : κ} (h : find entries key = none)
    (value : β) : find (entries ++ [(key, value)]) key = some value := by
  rw [find_append, h]
  simp [find]

theorem find_concat_of_ne {entries : List (κ × β)} {key other : κ} (h : other ≠ key) (value : β) :
    find (entries ++ [(key, value)]) other = find entries other := by
  have hnone : find [(key, value)] other = none := by
    simp [find, List.lookup_cons, beq_eq_false_iff_ne.mpr h]
  rw [find_append, hnone, Option.or_none]

def erase (entries : List (κ × β)) (key : κ) : List (κ × β) := entries.filter fun e => e.1 ≠ key

def modify (entries : List (κ × β)) (key : κ) (f : β → β) : List (κ × β) :=
  entries.map fun e => if e.1 = key then (e.1, f e.2) else e

@[simp] theorem find_erase_self (entries : List (κ × β)) (key : κ) :
    find (erase entries key) key = none := by
  apply find_eq_none_of_not_mem
  simp [erase]

theorem find_erase_of_ne (entries : List (κ × β)) {key other : κ} (h : other ≠ key) :
    find (erase entries key) other = find entries other := by
  induction entries with
  | nil => rfl
  | cons e rest ih =>
    by_cases he : e.1 = key
    · have hne : other ≠ e.1 := he ▸ h
      rw [erase, List.filter_cons_of_neg (by simp [he])]
      exact ih.trans (by rw [find, find, List.lookup_cons, beq_eq_false_iff_ne.mpr hne])
    · rw [erase, List.filter_cons_of_pos (by simp [he]), find, find, List.lookup_cons,
        List.lookup_cons]
      split
      · rfl
      · exact ih

theorem find_modify (entries : List (κ × β)) (key other : κ) (f : β → β) :
    find (modify entries key f) other =
      if other = key then (find entries other).map f else find entries other := by
  induction entries with
  | nil => simp [find, modify]
  | cons e rest ih =>
    rw [find, modify] at ih
    rw [modify, List.map_cons, find, find]
    by_cases he : e.1 = key
    · rw [if_pos he, List.lookup_cons, List.lookup_cons]
      by_cases ho : other = e.1
      · simp [ho, he]
      · rw [beq_eq_false_iff_ne.mpr ho]
        exact ih
    · rw [if_neg he, List.lookup_cons, List.lookup_cons]
      by_cases ho : other = e.1
      · have hne : other ≠ key := ho ▸ he
        simp [ho, he]
      · rw [beq_eq_false_iff_ne.mpr ho]
        exact ih

end TwelveC.Lib.Assoc
