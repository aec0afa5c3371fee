import TwelveC.Relay.Interleaving

/-!
# What a step of a call can do to the stores

However `_verify_overwrite` ends. A `put_block` owns the file and the row that
it has written until it fails.
-/

namespace TwelveC.Relay.StoreEffects

open Lib BlockAuth BlockService DiskBlockStore BlockRepository Interleaving

/-- A `put_block` that has written its file and not failed. -/
def ownsFile : Call → Position → Bool
  | .put _ _, .createInsert => true
  | .put _ _, .createRegister => true
  | .put _ _, .overwriteUpdate _ => true
  | .put _ _, .overwriteRegister _ => true
  | .put _ _, .done (.ok _) => true
  | _, _ => false

/-- A `put_block` that has written its row and not failed. -/
def ownsRow : Call → Position → Bool
  | .put _ _, .createRegister => true
  | .put _ _, .overwriteRegister _ => true
  | .put _ _, .done (.ok _) => true
  | _, _ => false

/-- What a call is about. -/
inductive Phase where
  | asking
  | verifying
  | overwriting
  | creating
  | reading
  | cleaning
  | ended
  deriving DecidableEq

def phase : Position → Phase
  | .start => .asking
  | .verify _ => .verifying
  | .overwriteWrite _ | .overwriteUpdate _ | .overwriteRegister _ => .overwriting
  | .restoreRead _ _ | .restoreWrite _ _ => .overwriting
  | .count | .createWrite | .createInsert | .createRegister => .creating
  | .rollbackRemove _ | .rollbackDelete _ => .creating
  | .readFile _ => .reading
  | .deleteRow => .cleaning
  | .done _ => .ended

/-- A write that has failed goes on in its phase; anything else that fails ends the call. -/
def Leaves (p p' : Position) : Prop :=
  (phase p = .creating ∨ phase p = .overwriting) ∧ phase p' = phase p ∨ phase p' = .ended

/-- The file is removed by the roll-back of a creation. -/
def removesFile : Position → Bool
  | .rollbackRemove _ => true
  | _ => false

/-- The steps that delete a row: the second half of a rollback and the clean-up of `get_block`. -/
def deletesRow : Position → Bool
  | .rollbackDelete _ => true
  | .deleteRow => true
  | _ => false

/-- Nothing of the stores is this call's: nothing is written yet, it has failed, or it only reads. -/
def idle : Call → Position → Bool
  | .get _, _ => true
  | .put _ _, .start => true
  | .put _ _, .count => true
  | .put _ _, .createWrite => true
  | .put _ _, .restoreRead _ _ => true
  | .put _ _, .restoreWrite _ _ => true
  | .put _ _, .rollbackRemove _ => true
  | .put _ _, .rollbackDelete _ => true
  | .put _ _, .done (.error _) => true
  | _, _ => false

/-- An insert that goes through. -/
def Inserts (call : Call) (calls : Calls) (p : Position) (s : Store) : Prop :=
  (∃ data, call = .put call.token data) ∧ p = .createInsert ∧ calls.rowWrite = none ∧
    ¬ Duplicate s call.token (relativeDiskPath call.token)

instance : (call : Call) → Decidable (∃ data, call = .put call.token data)
  | .put _ data => .isTrue ⟨data, rfl⟩
  | .get _ => .isFalse fun h => by cases h.choose_spec

instance (call : Call) (calls : Calls) (p : Position) (s : Store) :
    Decidable (Inserts call calls p s) :=
  inferInstanceAs (Decidable (_ ∧ _ ∧ _ ∧ _))

section

variable (C : Primitives) (verify : Str → Str → Except PyExn Unit) (call : Call) (calls : Calls)

/-- `_verify_overwrite` accepts what the call has to write. -/
def accepts : Bool :=
  match call with
  | .put token data => (verify token (computeBlockHash C data)).isOk
  | .get _ => false

/-- The steps that leave the stores as they are. -/
inductive Looks (s : Store) : Position → Position → Prop where
  | stays (p : Position) : Looks s p p
  | leaves {p p' : Position} : idle call p' = true → Leaves p p' → Looks s p p'
  | absent : Assoc.find s.rows call.token = none → Looks s .start .count
  | found (row : BlockRow) : Assoc.find s.rows call.token = some row → Looks s .start (.verify row)
  | accepted (row : BlockRow) : accepts C verify call = true → Looks s (.verify row) (.overwriteWrite row)
  | acknowledged {p : Position} (bytes : Bytes) : ownsRow call p = true →
      Looks s p (.done (.ok bytes))
  | reads (row : BlockRow) : Assoc.find s.rows call.token = some row → Looks s .start (.readFile row)
  | missed (row : BlockRow) : s.files row.diskPath = none → Looks s (.readFile row) .deleteRow

/-- All that a step can do to the stores, with the position it leads to. -/
inductive Effect (p : Position) (s : Store) : Position → Store → Prop where
  | look {p' : Position} : Looks C verify call s p p' → Effect p s p' s
  | write {p' : Position} (data : Bytes) : call = .put call.token data →
      (p = .createWrite ∧ p' = .createInsert ∨
        ∃ row, p = .overwriteWrite row ∧ p' = .overwriteUpdate row) →
      Effect p s p' (setFile (relativeDiskPath call.token) (some data) s)
  | spoil {p' : Position} (content : Option Bytes) : p = .createWrite ∨ phase p = .overwriting →
      idle call p' = true → Leaves p p' →
      ((s.files (relativeDiskPath call.token)).isSome → content.isSome) →
      Effect p s p' (setFile (relativeDiskPath call.token) content s)
  | insert (data : Bytes) : call = .put call.token data → Inserts call calls p s →
      Effect p s .createRegister (insertRow call.token (relativeDiskPath call.token)
        (computeBlockHash C data) data.length s)
  | update (row : BlockRow) (data : Bytes) : call = .put call.token data →
      p = .overwriteUpdate row → calls.rowWrite = none →
      Effect p s (.overwriteRegister row)
        (updateRow call.token (computeBlockHash C data) data.length s)
  | removeFile (exc : PyExn) : p = .rollbackRemove exc → Effect p s (.rollbackDelete exc)
      (setFile (relativeDiskPath call.token) none s)
  | deleteRow (exc : PyExn) : deletesRow p = true →
      Effect p s (failed exc) (setRows (Assoc.erase s.rows call.token) s)

end

section steps

variable {C : Primitives} {config : Config} {verify : Str → Str → Except PyExn Unit} {calls : Calls}

theorem isSome_left {outcome : WriteOutcome} {old : Option Bytes} (data : Bytes) (h : old.isSome) :
    (outcome.left old data).isSome := by
  match outcome with
  | .done => rfl
  | .failed none => exact h
  | .failed (some kept) => rfl

theorem advanceGet_effect (token : Str) (p : Position) (s : Store) :
    Effect C verify (.get token) calls p s (advanceGet token p s).1 (advanceGet token p s).2 := by
  cases p with
  | start =>
    simp only [advanceGet, BlockRepository.get, Py.read_run, goto]
    cases hrow : Assoc.find s.rows token with
    | none => exact .look (.leaves rfl (.inr rfl))
    | some row => exact .look (.reads row hrow)
  | readFile row =>
    simp only [advanceGet, DiskBlockStore.read, Py.read_run, goto]
    cases hfile : s.files row.diskPath with
    | none => exact .look (.missed row hfile)
    | some bytes => exact .look (.leaves rfl (.inr rfl))
  | deleteRow => exact .deleteRow _ rfl
  | _ => exact .look (.stays _)

theorem advancePut_effect (token : Str) (data : Bytes) (p : Position) (s : Store) :
    Effect C verify (.put token data) calls p s (advancePut C config verify calls token data p s).1
      (advancePut C config verify calls token data p s).2 := by
  cases p with
  | start =>
    have hs : (lookup config token data s).2 = s := lookup_store token data s
    simp only [advancePut]
    cases hl : lookup config token data s with
    | mk r s' =>
      rw [hl] at hs
      obtain rfl : s' = s := hs
      cases r with
      | error e => exact .look (.leaves rfl (.inr rfl))
      | ok existing =>
        cases existing with
        | none => exact .look (.absent (lookup_found hl))
        | some row => exact .look (.found row (lookup_found hl))
  | verify row =>
    simp only [advancePut, Py.ofExcept_run]
    cases hv : verify token (computeBlockHash C data) with
    | error e => exact .look (.leaves rfl (.inr rfl))
    | ok u => exact .look (.accepted row (by rw [accepts, hv]; rfl))
  | overwriteWrite row =>
    simp only [advancePut, DiskBlockStore.write]
    cases calls.write with
    | done => exact .write data rfl (.inr ⟨row, rfl, rfl⟩)
    | failed kept => exact .spoil _ (.inr rfl) rfl (.inl ⟨.inr rfl, rfl⟩) (isSome_left data)
  | overwriteUpdate row =>
    simp only [advancePut, BlockRepository.update]
    cases hr : calls.rowWrite with
    | none => exact .update row data rfl rfl hr
    | some e => exact .look (.leaves rfl (.inl ⟨.inr rfl, rfl⟩))
  | overwriteRegister row =>
    simp only [advancePut, Py.ofExcept_run]
    cases calls.register with
    | error e => exact .look (.leaves rfl (.inl ⟨.inr rfl, rfl⟩))
    | ok u => exact .look (.acknowledged [] rfl)
  | restoreRead row exc =>
    simp only [advancePut]
    split
    · exact .look (.leaves rfl (.inr rfl))
    · simp only [DiskBlockStore.read, Py.read_run, goto]
      cases s.files row.diskPath with
      | none => exact .look (.leaves rfl (.inr rfl))
      | some previous => exact .look (.leaves rfl (.inl ⟨.inr rfl, rfl⟩))
  | restoreWrite previous exc =>
    simp only [advancePut, DiskBlockStore.write]
    cases calls.rollbackWrite <;> exact .spoil _ (.inr rfl) rfl (.inr rfl) (isSome_left previous)
  | count =>
    have hs : (checkCapacity config s).2 = s := checkCapacity_store s
    simp only [advancePut]
    cases hl : checkCapacity config s with
    | mk r s' =>
      rw [hl] at hs
      obtain rfl : s' = s := hs
      cases r with
      | error e => exact .look (.leaves rfl (.inr rfl))
      | ok u => exact .look (.leaves rfl (.inl ⟨.inl rfl, rfl⟩))
  | createWrite =>
    simp only [advancePut, DiskBlockStore.write]
    cases calls.write with
    | done => exact .write data rfl (.inl ⟨rfl, rfl⟩)
    | failed kept => exact .spoil _ (.inl rfl) rfl (.inl ⟨.inl rfl, rfl⟩) (isSome_left data)
  | createInsert =>
    simp only [advancePut, BlockRepository.insert]
    cases hr : calls.rowWrite with
    | some e => exact .look (.leaves rfl (.inl ⟨.inl rfl, rfl⟩))
    | none =>
      by_cases hd : Duplicate s token (relativeDiskPath token)
      · simp only [if_pos hd]
        exact .look (.leaves rfl (.inl ⟨.inl rfl, rfl⟩))
      · simp only [if_neg hd]
        exact .insert data rfl ⟨⟨data, rfl⟩, rfl, hr, hd⟩
  | createRegister =>
    simp only [advancePut, Py.ofExcept_run]
    cases calls.register with
    | error e => exact .look (.leaves rfl (.inl ⟨.inl rfl, rfl⟩))
    | ok u => exact .look (.acknowledged [] rfl)
  | rollbackRemove exc => exact .removeFile exc rfl
  | rollbackDelete exc => exact .deleteRow _ rfl
  | _ => exact .look (.stays _)

theorem advance_effect (call : Call) (p : Position) (s : Store) :
    Effect C verify call calls p s (advance C config verify calls call p s).1
      (advance C config verify calls call p s).2 := by
  cases call with
  | put token data => exact advancePut_effect token data p s
  | get token => exact advanceGet_effect token p s

end steps

section effects

variable {C : Primitives} {verify : Str → Str → Except PyExn Unit} {calls : Calls}
variable {call : Call} {p p' : Position} {s s' : Store}

theorem not_owns_of_idle (h : idle call p = true) : ownsFile call p = false ∧ ownsRow call p = false := by
  cases call with
  | get token => exact ⟨rfl, rfl⟩
  | put token data =>
    cases p with
    | done result =>
      cases result with
      | ok bytes => cases h
      | error e => exact ⟨rfl, rfl⟩
    | _ => first | exact ⟨rfl, rfl⟩ | cases h

/-- The row is written after the file. -/
theorem ownsFile_of_ownsRow (h : ownsRow call p = true) : ownsFile call p = true := by
  cases call with
  | get token => cases h
  | put token data =>
    cases p with
    | createRegister => rfl
    | overwriteRegister row => rfl
    | done result =>
      cases result with
      | ok bytes => rfl
      | error e => cases h
    | _ => cases h

theorem spares_setFile {path other : Str} {content : Option Bytes}
    (h : other = path → (s.files path).isSome → content.isSome) (hfile : (s.files other).isSome) :
    ((setFile path content s).files other).isSome := by
  by_cases hpath : other = path
  · subst hpath
    rw [setFile_files_self]
    exact h rfl hfile
  · rwa [setFile_files_of_ne hpath]

/-- Only a roll-back takes a file away, its own token's. -/
theorem Effect.file_kept (heff : Effect C verify call calls p s p' s') {token : Str}
    (h : removesFile p = true → token ≠ call.token)
    (hfile : (s.files (relativeDiskPath token)).isSome) :
    (s'.files (relativeDiskPath token)).isSome := by
  cases heff with
  | look => exact hfile
  | write data => exact spares_setFile (fun _ _ => rfl) hfile
  | spoil content _ _ _ hcontent => exact spares_setFile (fun _ => hcontent) hfile
  | insert => exact hfile
  | update => exact hfile
  | removeFile exc hp =>
    subst hp
    exact spares_setFile (fun hpath => absurd (relativeDiskPath_inj hpath) (h rfl)) hfile
  | deleteRow => exact hfile

theorem isSome_find_update {token other blockHash : Str} {sizeBytes : Nat}
    (h : (Assoc.find s.rows token).isSome) :
    (Assoc.find (updateRow other blockHash sizeBytes s).rows token).isSome := by
  rw [updateRow, setRows_rows, Assoc.find_modify]
  split <;> simp [h]

/-- Only a roll-back and the clean-up of a `get_block` take a row away, their own token's. -/
theorem Effect.row_kept (heff : Effect C verify call calls p s p' s') {token : Str}
    (h : deletesRow p = true → token ≠ call.token) (hrow : (Assoc.find s.rows token).isSome) :
    (Assoc.find s'.rows token).isSome := by
  cases heff with
  | look => exact hrow
  | write => exact hrow
  | spoil => exact hrow
  | insert =>
    rw [insertRow, setRows_rows, Assoc.find_append, Option.isSome_or, hrow]
    rfl
  | update => exact isSome_find_update hrow
  | removeFile => exact hrow
  | deleteRow exc hp => rwa [setRows_rows, Assoc.find_erase_of_ne _ (h hp)]

/-- A call comes to own a file only by writing it. -/
theorem Effect.own_file (heff : Effect C verify call calls p s p' s') (howns : ownsFile call p' = true) :
    ownsFile call p = true ∧
      s'.files (relativeDiskPath call.token) = s.files (relativeDiskPath call.token) ∨
    ∃ data, call = .put call.token data ∧ s'.files (relativeDiskPath call.token) = some data := by
  cases heff with
  | look hlook =>
    left
    cases hlook with
    | stays => exact ⟨howns, rfl⟩
    | leaves hidle =>
      rw [(not_owns_of_idle hidle).1] at howns
      cases howns
    | acknowledged bytes hrow => exact ⟨ownsFile_of_ownsRow hrow, rfl⟩
    | _ => cases call <;> cases howns
  | write data hcall => exact .inr ⟨data, hcall, setFile_files_self ..⟩
  | spoil content _ hidle =>
    rw [(not_owns_of_idle hidle).1] at howns
    cases howns
  | insert data hcall hins => exact .inl ⟨by rw [hcall, hins.2.1]; rfl, rfl⟩
  | update row data hcall hp => exact .inl ⟨by rw [hcall, hp]; rfl, rfl⟩
  | removeFile => cases call <;> cases howns
  | deleteRow => cases call <;> cases howns

/-- A call comes to own a row only by writing it. -/
theorem Effect.own_row (heff : Effect C verify call calls p s p' s') (howns : ownsRow call p' = true) :
    ownsRow call p = true ∧ s' = s ∨
    (∃ data, call = .put call.token data ∧ Inserts call calls p s ∧
      s' = insertRow call.token (relativeDiskPath call.token) (computeBlockHash C data) data.length s) ∨
    ∃ row data, call = .put call.token data ∧ p = .overwriteUpdate row ∧ calls.rowWrite = none ∧
      s' = updateRow call.token (computeBlockHash C data) data.length s := by
  cases heff with
  | look hlook =>
    left
    cases hlook with
    | stays => exact ⟨howns, rfl⟩
    | leaves hidle =>
      rw [(not_owns_of_idle hidle).2] at howns
      cases howns
    | acknowledged bytes hrow => exact ⟨hrow, rfl⟩
    | _ => cases call <;> cases howns
  | write data hcall hp =>
    rw [hcall] at howns
    rcases hp with ⟨-, rfl⟩ | ⟨row, -, rfl⟩ <;> cases howns
  | spoil content _ hidle =>
    rw [(not_owns_of_idle hidle).2] at howns
    cases howns
  | insert data hcall hins => exact .inr (.inl ⟨data, hcall, hins, rfl⟩)
  | update row data hcall hp hrow => exact .inr (.inr ⟨row, data, hcall, hp, hrow, rfl⟩)
  | removeFile => cases call <;> cases howns
  | deleteRow => cases call <;> cases howns

/-- Every row names the file of its token. -/
def Named (s : Store) : Prop := ∀ e ∈ s.rows, e.2.diskPath = relativeDiskPath e.1

theorem named_erase (h : Named s) (token : Str) : Named (setRows (Assoc.erase s.rows token) s) :=
  fun e he => h e (List.mem_of_mem_filter he)

/-- Every row is one from before or is written now. -/
theorem Effect.rows (heff : Effect C verify call calls p s p' s') {e : Str × BlockRow}
    (he : e ∈ s'.rows) : e ∈ s.rows ∨ e.2.updatedAt = s.now := by
  cases heff with
  | look => exact .inl he
  | write => exact .inl he
  | spoil => exact .inl he
  | insert =>
    rw [insertRow, setRows_rows, List.mem_append, List.mem_singleton] at he
    rcases he with he | rfl
    · exact .inl he
    · exact .inr rfl
  | update =>
    rw [updateRow, setRows_rows, Assoc.modify, List.mem_map] at he
    obtain ⟨e, he, rfl⟩ := he
    split
    · exact .inr rfl
    · exact .inl he
  | removeFile => exact .inl he
  | deleteRow => exact .inl (List.mem_of_mem_filter he)

theorem Effect.named (heff : Effect C verify call calls p s p' s') (h : Named s) : Named s' := by
  cases heff with
  | look => exact h
  | write => exact h
  | spoil => exact h
  | insert =>
    intro e he
    rw [insertRow, setRows_rows, List.mem_append, List.mem_singleton] at he
    rcases he with he | rfl
    · exact h e he
    · rfl
  | update =>
    intro e he
    rw [updateRow, setRows_rows, Assoc.modify, List.mem_map] at he
    obtain ⟨e, he, rfl⟩ := he
    have hpath := h e he
    split <;> exact hpath
  | removeFile => exact h
  | deleteRow => exact named_erase h call.token

theorem Effect.now (heff : Effect C verify call calls p s p' s') : s'.now = s.now := by
  cases heff <;> rfl

end effects

end TwelveC.Relay.StoreEffects
