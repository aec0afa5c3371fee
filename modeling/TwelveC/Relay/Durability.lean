import TwelveC.Relay.StoreEffects

/-!
# When an acknowledged block stays

An acknowledged creation can only be undone by another call that still acts on
the token: a second creation's write or rollback, or a `get_block` that deletes
a row whose file it missed. If no such step is taken over the block of a call
that has not failed, the block stays and every later `get_block` returns it.
-/

namespace TwelveC.Relay.Durability

open Lib Lib.Run BlockAuth BlockService DiskBlockStore BlockRepository Interleaving StoreEffects
open PlainCrypto

/-- A creation that has written its file and not failed. -/
def wrote : Call → Position → Bool
  | .put _ _, .createInsert => true
  | .put _ _, .createRegister => true
  | .put _ _, .done (.ok _) => true
  | _, _ => false

/-- A creation that has inserted its row and not failed. -/
def inserted : Call → Position → Bool
  | .put _ _, .createRegister => true
  | .put _ _, .done (.ok _) => true
  | _, _ => false

/-- The steps that replace or remove a file: a creation's write and the first half of a rollback. -/
def writesFile : Position → Bool
  | .createWrite => true
  | .rollbackRemove _ => true
  | _ => false

theorem inserted_wrote {call : Call} {p : Position} (h : inserted call p = true) :
    wrote call p = true := by
  cases call with
  | get token => cases h
  | put token data =>
    cases p with
    | createRegister => rfl
    | done result =>
      cases result with
      | ok bytes => rfl
      | error e => cases h
    | _ => cases h

/-- With no overwrite about, they are the calls that own a file and a row. -/
theorem wrote_iff {call : Call} {p : Position} (hp : phase p ≠ .overwriting) :
    wrote call p = ownsFile call p ∧ inserted call p = ownsRow call p := by
  cases call with
  | get token => exact ⟨rfl, rfl⟩
  | put token data =>
    cases p with
    | overwriteUpdate row => exact absurd rfl hp
    | overwriteRegister row => exact absurd rfl hp
    | done result => cases result <;> exact ⟨rfl, rfl⟩
    | _ => exact ⟨rfl, rfl⟩

/-- No overwrite gets past a verification that always fails. -/
theorem not_overwriting {C : Primitives} {verify : Str → Str → Except PyExn Unit} {calls : Calls}
    {call : Call} {p p' : Position} {s s' : Store}
    (hv : ∀ token blockHash, ∃ e, verify token blockHash = .error e)
    (heff : Effect C verify call calls p s p' s') (hp : phase p ≠ .overwriting) :
    phase p' ≠ .overwriting := by
  have hback : Leaves p p' → phase p' ≠ .overwriting := by
    rintro (⟨-, h⟩ | h) <;> rw [h]
    · exact hp
    · exact fun hended => by cases hended
  cases heff with
  | look hlook =>
    cases hlook with
    | stays => exact hp
    | leaves _ hphase => exact hback hphase
    | accepted row haccepts =>
      cases call with
      | get token => cases haccepts
      | put token data =>
        obtain ⟨e, hrejected⟩ := hv token (computeBlockHash C data)
        rw [accepts, hrejected] at haccepts
        cases haccepts
    | _ => exact fun hphase => by cases hphase
  | write data _ hwrite =>
    rcases hwrite with ⟨-, rfl⟩ | ⟨row, rfl, -⟩
    · exact fun hphase => by cases hphase
    · exact absurd rfl hp
  | spoil _ _ _ hphase => exact hback hphase
  | update row data _ hupdate =>
    subst hupdate
    exact absurd rfl hp
  | _ => exact fun hphase => by cases hphase

section

variable {ι : Type} (C : Primitives) (clock : Clock) (config : Config)
variable (call : ι → Call) (calls : ι → Calls)

def initial (s : Store) : Threads.Conf ι Store Position := ⟨s, fun _ => .start⟩

/-- The step of call `i` takes nothing from another call's block of the same token. -/
def Undisturbed (c : Threads.Conf ι Store Position) (i : ι) : Prop :=
  ∀ j, j ≠ i → (call j).token = (call i).token →
    (writesFile (c.pos i) = true → wrote (call j) (c.pos j) = false) ∧
      (deletesRow (c.pos i) = true → inserted (call j) (c.pos j) = false)

instance {n : Nat} (call : Fin n → Call) (c : Threads.Conf (Fin n) Store Position) (i : Fin n) :
    Decidable (Undisturbed call c i) :=
  inferInstanceAs (Decidable (∀ j, j ≠ i → (call j).token = (call i).token → _ ∧ _))

/-- The row of a block. -/
def RowOf (s : Store) (token : Str) (data : Bytes) : Prop :=
  ∃ row, Assoc.find s.rows token = some row ∧ row.diskPath = relativeDiskPath token ∧
    row.blockHash = computeBlockHash C data ∧ row.sizeBytes = data.length

/-- Every creation that has not failed finds its file and its row as it left them. -/
structure Kept (c : Threads.Conf ι Store Position) : Prop where
  fresh : ∀ j, phase (c.pos j) ≠ .overwriting
  file : ∀ j token data, call j = .put token data → wrote (call j) (c.pos j) = true →
    c.store.files (relativeDiskPath token) = some data
  row : ∀ j token data, call j = .put token data → inserted (call j) (c.pos j) = true →
    RowOf C c.store token data

variable {C call} {c : Threads.Conf ι Store Position}

theorem initial_kept (s : Store) : Kept C call (initial s) where
  fresh _ hphase := by cases hphase
  file j token data hj hw := by
    rw [hj] at hw
    cases hw
  row j token data hj hi := by
    rw [hj] at hi
    cases hi

theorem RowOf.of_find {s s' : Store} {token : Str} {data : Bytes} (h : RowOf C s token data)
    (hfind : Assoc.find s'.rows token = Assoc.find s.rows token) : RowOf C s' token data := by
  obtain ⟨row, hrow, hrest⟩ := h
  exact ⟨row, hfind.trans hrow, hrest⟩

section step

variable {calls} {i : ι} {verify : Str → Str → Except PyExn Unit} {p' : Position} {s' : Store}
variable {token : Str} {data : Bytes}

/-- The moving call's own file. -/
theorem Kept.file_self (h : Kept C call c) (hc : call i = .put token data)
    (heff : Effect C verify (call i) (calls i) (c.pos i) c.store p' s') (hp' : phase p' ≠ .overwriting)
    (hw : wrote (call i) p' = true) : s'.files (relativeDiskPath token) = some data := by
  rw [(wrote_iff hp').1] at hw
  have htoken : (call i).token = token := by rw [hc, Call.token]
  rcases heff.own_file hw with ⟨hbefore, hsame⟩ | ⟨data', hcall, hwritten⟩
  · rw [← (wrote_iff (h.fresh i)).1] at hbefore
    rw [← htoken, hsame, htoken]
    exact h.file i token data hc hbefore
  · rw [hc] at hcall
    cases hcall
    rwa [htoken] at hwritten

/-- The file of a call that stands still. -/
theorem Kept.file_other (h : Kept C call c) (hu : Undisturbed call c i)
    (heff : Effect C verify (call i) (calls i) (c.pos i) c.store p' s') {j : ι} (hj : j ≠ i)
    (hc : call j = .put token data) (hw : wrote (call j) (c.pos j) = true) :
    s'.files (relativeDiskPath token) = some data := by
  have hbefore := h.file j token data hc hw
  have hother : writesFile (c.pos i) = true → ∀ content,
      (setFile (relativeDiskPath (call i).token) content c.store).files (relativeDiskPath token) =
        some data := by
    intro hwrites content
    have hpath : relativeDiskPath token ≠ relativeDiskPath (call i).token := by
      intro hp
      have ht : (call j).token = (call i).token := by
        rw [hc]
        exact relativeDiskPath_inj hp
      rw [(hu j hj ht).1 hwrites] at hw
      cases hw
    rw [setFile_files_of_ne hpath, hbefore]
  cases heff with
  | look => exact hbefore
  | write data' _ hwrite =>
    rcases hwrite with ⟨hp, -⟩ | ⟨row, hp, -⟩
    · exact hother (by rw [hp]; rfl) _
    · exact absurd (by rw [hp]; rfl) (h.fresh i)
  | spoil content hspoil =>
    rcases hspoil with hp | hover
    · exact hother (by rw [hp]; rfl) _
    · exact absurd hover (h.fresh i)
  | insert => exact hbefore
  | update => exact hbefore
  | removeFile exc hp => exact hother (by rw [hp]; rfl) _
  | deleteRow => exact hbefore

/-- The moving call's own row. -/
theorem Kept.row_self (h : Kept C call c) (hc : call i = .put token data)
    (heff : Effect C verify (call i) (calls i) (c.pos i) c.store p' s') (hp' : phase p' ≠ .overwriting)
    (hi : inserted (call i) p' = true) : RowOf C s' token data := by
  rw [(wrote_iff hp').2] at hi
  rcases heff.own_row hi with ⟨hbefore, rfl⟩ | ⟨data', hcall, hins, rfl⟩ | ⟨row, -, -, hp, -⟩
  · rw [← (wrote_iff (h.fresh i)).2] at hbefore
    exact h.row i token data hc hbefore
  · rw [hc] at hcall
    cases hcall
    obtain ⟨-, -, -, hdup⟩ := hins
    rw [Duplicate, not_or] at hdup
    rw [hc] at hdup ⊢
    exact ⟨_, Assoc.find_concat_self (by simpa using hdup.1) _, rfl, rfl, rfl⟩
  · exact absurd (by rw [hp]; rfl) (h.fresh i)

/-- The row of a call that stands still. -/
theorem Kept.row_other (h : Kept C call c) (hu : Undisturbed call c i)
    (heff : Effect C verify (call i) (calls i) (c.pos i) c.store p' s') {j : ι} (hj : j ≠ i)
    (hc : call j = .put token data) (hi : inserted (call j) (c.pos j) = true) :
    RowOf C s' token data := by
  have hbefore := h.row j token data hc hi
  cases heff with
  | look => exact hbefore
  | write => exact hbefore.of_find rfl
  | spoil => exact hbefore.of_find rfl
  | insert data' hcall hins =>
    obtain ⟨row, hrow, hrest⟩ := hbefore
    obtain ⟨-, -, -, hdup⟩ := hins
    have ht : token ≠ (call i).token := by
      intro ht
      rw [← ht, Duplicate, not_or, hrow] at hdup
      exact hdup.1 rfl
    exact ⟨row, (Assoc.find_concat_of_ne ht _).trans hrow, hrest⟩
  | update row data' _ hp => exact absurd (by rw [hp]; rfl) (h.fresh i)
  | removeFile => exact hbefore.of_find rfl
  | deleteRow exc hd =>
    have ht : (call j).token ≠ (call i).token := by
      intro ht
      rw [(hu j hj ht).2 hd] at hi
      cases hi
    rw [hc] at ht
    exact hbefore.of_find (Assoc.find_erase_of_ne _ ht)

end step

variable [DecidableEq ι]

variable (C call) in
/-- One await of call `i`, by the code as it stands. -/
def turn : Threads.Conf ι Store Position → ι → Threads.Conf ι Store Position :=
  Threads.next fun i =>
    advance C config (verifyOverwrite moduleNames C clock config (calls i)) (calls i) (call i)

variable {clock config calls}

theorem turn_kept (i : ι) (h : Kept C call c) (hu : Undisturbed call c i) :
    Kept C call (turn C clock config call calls c i) := by
  have hv : ∀ token blockHash, ∃ e,
      verifyOverwrite moduleNames C clock config (calls i) token blockHash = .error e :=
    Overwrite.verifyOverwrite_raises
  have heff : Effect C (verifyOverwrite moduleNames C clock config (calls i)) (call i) (calls i) (c.pos i)
      c.store (advance C config (verifyOverwrite moduleNames C clock config (calls i)) (calls i) (call i)
        (c.pos i) c.store).1 (turn C clock config call calls c i).store :=
    advance_effect (call i) (c.pos i) c.store
  have hfresh := not_overwriting hv heff (h.fresh i)
  refine ⟨?_, ?_, ?_⟩
  · intro j
    by_cases hj : j = i
    · subst hj
      rw [turn, Threads.next_pos_self]
      exact hfresh
    · rw [turn, Threads.next_pos_of_ne _ hj]
      exact h.fresh j
  · intro j token data hc hw
    by_cases hj : j = i
    · subst hj
      rw [turn, Threads.next_pos_self] at hw
      exact h.file_self hc heff hfresh hw
    · rw [turn, Threads.next_pos_of_ne _ hj] at hw
      exact h.file_other hu heff hj hc hw
  · intro j token data hc hi
    by_cases hj : j = i
    · subst hj
      rw [turn, Threads.next_pos_self] at hi
      exact h.row_self hc heff hfresh hi
    · rw [turn, Threads.next_pos_of_ne _ hj] at hi
      exact h.row_other hu heff hj hc hi

theorem run_kept {schedule : List ι} (h : Kept C call c)
    (hu : Along (turn C clock config call calls) (Undisturbed call) c schedule) :
    Kept C call (exec (turn C clock config call calls) c schedule) :=
  exec_invariant (fun _ i hk => turn_kept i hk) h hu

/-- What a call returned or raised stays. -/
theorem turn_done {j : ι} {result : Except PyExn Bytes} (h : c.pos j = .done result) (i : ι) :
    (turn C clock config call calls c i).pos j = .done result := by
  by_cases hj : j = i
  · subst hj
    rw [turn, Threads.next_pos_self, h]
    cases call j <;> rfl
  · rw [turn, Threads.next_pos_of_ne _ hj, h]

/-- The positions of a `get_block` that was called while the block was there. -/
def Serving (token : Str) (data : Bytes) (p : Position) : Prop :=
  p = .start ∨ (∃ record, p = .readFile record ∧ record.diskPath = relativeDiskPath token) ∨
    p = .done (.ok data)

theorem Serving.turn {token : Str} {data : Bytes} {j k : ι} (hkept : Kept C call c)
    (hj : call j = .put token data) {result : Bytes} (hack : c.pos j = .done (.ok result))
    (hk : call k = .get token) (h : Serving token data (c.pos k)) (i : ι) :
    Serving token data ((turn C clock config call calls c i).pos k) := by
  by_cases hki : k = i
  · subst hki
    have hfile := hkept.file j token data hj (by rw [hj, hack]; rfl)
    obtain ⟨row, hrow, hpath, -⟩ := hkept.row j token data hj (by rw [hj, hack]; rfl)
    rw [Durability.turn, Threads.next_pos_self, hk]
    rcases h with h | ⟨record, h, hrecord⟩ | h
    · rw [h, advance, advanceGet, BlockRepository.get, Py.read_run, hrow]
      exact .inr (.inl ⟨row, rfl, hpath⟩)
    · rw [h, advance, advanceGet, DiskBlockStore.read, Py.read_run, hrecord, hfile]
      exact .inr (.inr rfl)
    · rw [h]
      exact .inr (.inr rfl)
  · rw [Durability.turn, Threads.next_pos_of_ne _ hki]
    exact h

variable (C clock config call calls) in
/-- A block acknowledged by the end of `before` is still there after `after`, and a `get_block`
called in between returns it. -/
def Durable (s : Store) (before after : List ι) : Prop :=
  ∀ j token data result, call j = .put token data →
    (exec (turn C clock config call calls) (initial s) before).pos j = .done (.ok result) →
    (exec (turn C clock config call calls) (initial s) (before ++ after)).store.files
      (relativeDiskPath token) = some data ∧
    RowOf C (exec (turn C clock config call calls) (initial s) (before ++ after)).store token data ∧
    ∀ k, call k = .get token →
      (exec (turn C clock config call calls) (initial s) before).pos k = .start →
      ∀ r, (exec (turn C clock config call calls) (initial s) (before ++ after)).pos k = .done r →
        r = .ok data

theorem serving_run {token : Str} {data result : Bytes} {j k : ι} (hj : call j = .put token data)
    (hk : call k = .get token) {schedule : List ι} (hkept : Kept C call c)
    (hack : c.pos j = .done (.ok result)) (h : Serving token data (c.pos k))
    (hu : Along (turn C clock config call calls) (Undisturbed call) c schedule) :
    Serving token data ((exec (turn C clock config call calls) c schedule).pos k) := by
  induction schedule generalizing c with
  | nil => exact h
  | cons i rest ih =>
    exact ih (turn_kept i hkept hu.1) (turn_done hack i) (h.turn hkept hj hack hk i) hu.2

theorem done_run {j : ι} {result : Except PyExn Bytes} (h : c.pos j = .done result)
    (schedule : List ι) : (exec (turn C clock config call calls) c schedule).pos j = .done result := by
  induction schedule generalizing c with
  | nil => exact h
  | cons i rest ih => exact ih (turn_done h i)

/-- As long as no step takes from a block of another call that has not failed, every acknowledged
block stays and is served. -/
theorem durable_of_undisturbed (C : Primitives) (clock : Clock) (config : Config) (call : ι → Call)
    (calls : ι → Calls) (s : Store) (before after : List ι)
    (hu : Along (turn C clock config call calls) (Undisturbed call) (initial s) (before ++ after)) :
    Durable C clock config call calls s before after := by
  intro j token data result hj hack
  rw [along_append] at hu
  have hmid := run_kept (initial_kept s) hu.1
  have hend := run_kept hmid hu.2
  have hdone : (exec (turn C clock config call calls)
      (exec (turn C clock config call calls) (initial s) before) after).pos j = .done (.ok result) :=
    done_run hack after
  rw [exec_append]
  refine ⟨hend.file j token data hj (by rw [hj, hdone]; rfl),
    hend.row j token data hj (by rw [hj, hdone]; rfl), ?_⟩
  intro k hk hstart r hr
  rcases serving_run hj hk hmid hack (.inl hstart) hu.2 with h | ⟨record, h, -⟩ | h
  · rw [hr] at h
    cases h
  · rw [hr] at h
    cases h
  · rw [hr] at h
    cases h
    rfl

/-- The call has started and not returned. -/
def Busy (p : Position) : Prop := phase p ≠ .asking ∧ phase p ≠ .ended

variable (call) in
/-- A call starts only while no other call of its token is under way. -/
def OneAtATime (c : Threads.Conf ι Store Position) (i : ι) : Prop :=
  c.pos i = .start → ∀ j, j ≠ i → (call j).token = (call i).token → ¬ Busy (c.pos j)

section effect

variable {verify : Str → Str → Except PyExn Unit} {calls : Calls} {a : Call} {p p' : Position}
variable {s s' : Store}

theorem busy_before (heff : Effect C verify a calls p s p' s') (h : Busy p') : Busy p ∨ p = .start := by
  have hback : Leaves p p' → Busy p := by
    rintro (⟨-, hphase⟩ | hphase)
    · rwa [Busy, ← hphase]
    · exact absurd hphase h.2
  cases heff with
  | look hlook =>
    cases hlook with
    | stays => exact .inl h
    | leaves _ hphase => exact .inl (hback hphase)
    | acknowledged => exact absurd rfl h.2
    | accepted => exact .inl (by simp [Busy, phase])
    | missed => exact .inl (by simp [Busy, phase])
    | _ => exact .inr rfl
  | write data _ hwrite =>
    rcases hwrite with ⟨rfl, -⟩ | ⟨row, rfl, -⟩ <;> exact .inl (by simp [Busy, phase])
  | spoil _ _ _ hphase => exact .inl (hback hphase)
  | insert _ _ hins => exact .inl (by rw [hins.2.1]; simp [Busy, phase])
  | update row _ _ hp => exact .inl (by rw [hp]; simp [Busy, phase])
  | removeFile exc hp => exact .inl (by rw [hp]; simp [Busy, phase])
  | deleteRow => exact absurd rfl h.2

theorem creating_before (heff : Effect C verify a calls p s p' s') (h : phase p' = .creating) :
    phase p = .creating ∨ p = .start ∧ Assoc.find s.rows a.token = none := by
  have hback : Leaves p p' → phase p = .creating := by
    rintro (⟨-, hphase⟩ | hphase) <;> rw [h] at hphase
    · exact hphase.symm
    · cases hphase
  cases heff with
  | look hlook =>
    cases hlook with
    | stays => exact .inl h
    | leaves _ hphase => exact .inl (hback hphase)
    | absent hnone => exact .inr ⟨rfl, hnone⟩
    | _ => cases h
  | write data _ hwrite =>
    rcases hwrite with ⟨rfl, -⟩ | ⟨row, -, rfl⟩
    · exact .inl rfl
    · cases h
  | spoil _ _ _ hphase => exact .inl (hback hphase)
  | insert _ _ hins => exact .inl (by rw [hins.2.1]; rfl)
  | update => cases h
  | removeFile exc hp => exact .inl (by rw [hp]; rfl)
  | deleteRow => cases h

theorem not_leaves (h : phase p' = .reading ∨ phase p' = .cleaning) : ¬ Leaves p p' := by
  rintro (⟨hphase, hsame⟩ | hended)
  · rw [← hsame] at hphase
    rcases hphase with hphase | hphase <;> rcases h with h | h <;> rw [h] at hphase <;> cases hphase
  · rcases h with h | h <;> rw [h] at hended <;> cases hended

theorem reading_before {row : BlockRow} (heff : Effect C verify a calls p s p' s')
    (h : p' = .readFile row) : p = .readFile row ∨ p = .start ∧ Assoc.find s.rows a.token = some row := by
  subst h
  cases heff with
  | look hlook =>
    cases hlook with
    | stays => exact .inl rfl
    | leaves _ hphase => exact absurd hphase (not_leaves (.inl rfl))
    | reads _ hrow => exact .inr ⟨rfl, hrow⟩
  | write data _ hwrite => rcases hwrite with ⟨-, hp⟩ | ⟨_, -, hp⟩ <;> cases hp
  | spoil _ _ _ hphase => exact absurd hphase (not_leaves (.inl rfl))

theorem cleaning_before (heff : Effect C verify a calls p s p' s') (h : p' = .deleteRow) :
    p = .deleteRow ∨ ∃ row, p = .readFile row ∧ s.files row.diskPath = none := by
  subst h
  cases heff with
  | look hlook =>
    cases hlook with
    | stays => exact .inl rfl
    | leaves _ hphase => exact absurd hphase (not_leaves (.inr rfl))
    | missed row hnone => exact .inr ⟨row, rfl, hnone⟩
  | write data _ hwrite => rcases hwrite with ⟨-, hp⟩ | ⟨_, -, hp⟩ <;> cases hp
  | spoil _ _ _ hphase => exact absurd hphase (not_leaves (.inr rfl))

/-- Two calls of one token that do not overlap: what the first is about to undo is not the second's. -/
structure Apart (a : Call) (p : Position) (b : Call) (q : Position) : Prop where
  single : Busy p → ¬ Busy q
  creating : phase p = .creating → wrote b q = false
  reading : ∀ row, p = .readFile row → inserted b q = true → row.diskPath = relativeDiskPath a.token
  cleaning : p = .deleteRow → inserted b q = false

/-- A call that is not under way is about to undo nothing. -/
theorem Apart.of_not_busy {b : Call} {q : Position} (h : ¬ Busy p) : Apart a p b q where
  single hbusy := absurd hbusy h
  creating hp := absurd (by simp [Busy, hp]) h
  reading row hp := absurd (by simp [Busy, hp, phase]) h
  cleaning hp := absurd (by simp [Busy, hp, phase]) h

/-- The first call moves. The second's block stands as it left it. -/
theorem Apart.next {b : Call} {q : Position} (h : Apart a p b q)
    (heff : Effect C verify a calls p s p' s') (halone : p = .start → ¬ Busy q)
    (hwrote : wrote b q = true → ¬ Busy q → inserted b q = true)
    (hrow : inserted b q = true → ∃ row, Assoc.find s.rows a.token = some row ∧
      row.diskPath = relativeDiskPath a.token)
    (hfile : inserted b q = true → (s.files (relativeDiskPath a.token)).isSome) :
    Apart a p' b q where
  single hbusy := (busy_before heff hbusy).elim h.single halone
  creating hphase := by
    rcases creating_before heff hphase with hp | ⟨hp, hnone⟩
    · exact h.creating hp
    · by_contra hw
      rw [Bool.not_eq_false] at hw
      obtain ⟨row, hsome, -⟩ := hrow (hwrote hw (halone hp))
      rw [hnone] at hsome
      cases hsome
  reading row hp' hi := by
    rcases reading_before heff hp' with hp | ⟨-, hfound⟩
    · exact h.reading row hp hi
    · obtain ⟨other, hsome, hpath⟩ := hrow hi
      rw [hfound] at hsome
      cases hsome
      exact hpath
  cleaning hp' := by
    rcases cleaning_before heff hp' with hp | ⟨row, hp, hnone⟩
    · exact h.cleaning hp
    · by_contra hi
      rw [Bool.not_eq_false] at hi
      rw [h.reading row hp hi] at hnone
      have hsome := hfile hi
      rw [hnone] at hsome
      cases hsome

end effect

theorem done_of_not_busy {p : Position} (hbusy : ¬ Busy p) (hstart : p ≠ .start) :
    ∃ result, p = .done result := by
  cases p with
  | start => exact absurd rfl hstart
  | done result => exact ⟨result, rfl⟩
  | _ => exact absurd (by simp [Busy, phase]) hbusy

/-- No two calls of a token are under way, and each finds what the ones before it have left. -/
structure Alone (C : Primitives) (call : ι → Call) (c : Threads.Conf ι Store Position) : Prop where
  kept : Kept C call c
  apart : ∀ i j, i ≠ j → (call i).token = (call j).token →
    Apart (call i) (c.pos i) (call j) (c.pos j)

omit [DecidableEq ι] in
theorem Alone.undisturbed (h : Alone C call c) (i : ι) : Undisturbed call c i := by
  intro j hj ht
  have hapart := h.apart i j hj.symm ht.symm
  refine ⟨fun hwrites => hapart.creating ?_, fun hdeletes => ?_⟩
  · generalize c.pos i = p at hwrites
    cases p <;> first | rfl | cases hwrites
  · generalize c.pos i = p at hdeletes hapart
    cases p with
    | rollbackDelete exc =>
      by_contra hi
      rw [Bool.not_eq_false] at hi
      have hwrote := hapart.creating rfl
      rw [inserted_wrote hi] at hwrote
      cases hwrote
    | deleteRow => exact hapart.cleaning rfl
    | _ => cases hdeletes

omit [DecidableEq ι] in
/-- The row and the file that the other call has left. -/
theorem Kept.left (h : Kept C call c) {j : ι} (hi : inserted (call j) (c.pos j) = true) :
    (∃ row, Assoc.find c.store.rows (call j).token = some row ∧
      row.diskPath = relativeDiskPath (call j).token) ∧
    (c.store.files (relativeDiskPath (call j).token)).isSome := by
  obtain ⟨token, data, hc⟩ : ∃ token data, call j = .put token data := by
    cases hcall : call j with
    | get token =>
      rw [hcall] at hi
      cases hi
    | put token data => exact ⟨token, data, rfl⟩
  obtain ⟨row, hrow, hpath, -⟩ := h.row j token data hc hi
  rw [hc]
  refine ⟨⟨row, hrow, hpath⟩, ?_⟩
  rw [Call.token, h.file j token data hc (inserted_wrote hi)]
  rfl

theorem turn_alone {i : ι} (h : Alone C call c) (halone : OneAtATime call c i) :
    Alone C call (turn C clock config call calls c i) where
  kept := turn_kept i h.kept (h.undisturbed i)
  apart a b hab ht := by
    by_cases ha : a = i
    · subst ha
      rw [turn, Threads.next_pos_self, Threads.next_pos_of_ne _ hab.symm]
      refine (h.apart a b hab ht).next (advance_effect (call a) (c.pos a) c.store)
        (fun hp => halone hp b hab.symm ht.symm) (fun hw hbusy => ?_) (fun hi => ?_) fun hi => ?_
      · generalize c.pos b = q at hw hbusy
        cases hcall : call b with
        | get token =>
          rw [hcall] at hw
          cases hw
        | put token data =>
          rw [hcall] at hw
          cases q with
          | createInsert => exact absurd (by simp [Busy, phase]) hbusy
          | createRegister => rfl
          | done result => cases result <;> exact hw
          | _ => cases hw
      · rw [ht]
        exact (h.kept.left hi).1
      · rw [ht]
        exact (h.kept.left hi).2
    · rw [turn, Threads.next_pos_of_ne _ ha, ← turn]
      by_cases hbusy : Busy (c.pos a)
      · by_cases hb : b = i
        · subst hb
          have hstart : c.pos b ≠ .start := fun hp => halone hp a hab ht hbusy
          obtain ⟨result, hdone⟩ := done_of_not_busy ((h.apart a b hab ht).single hbusy) hstart
          rw [turn_done hdone b, ← hdone]
          exact h.apart a b hab ht
        · rw [turn, Threads.next_pos_of_ne _ hb]
          exact h.apart a b hab ht
      · exact .of_not_busy hbusy

/-- Calls that do not overlap disturb nothing. -/
theorem undisturbed_of_oneAtATime {schedule : List ι} {s : Store}
    (halone : Along (turn C clock config call calls) (OneAtATime call) (initial s) schedule) :
    Along (turn C clock config call calls) (Undisturbed call) (initial s) schedule := by
  have hstart : Alone C call (initial s) :=
    ⟨initial_kept s, fun i j _ _ => .of_not_busy fun hbusy => hbusy.1 rfl⟩
  have hstep : ∀ c i, Alone C call c → OneAtATime call c i →
      Alone C call (turn C clock config call calls c i) ∧ Undisturbed call c i :=
    fun c i h hi => ⟨turn_alone h hi, h.undisturbed i⟩
  exact along_of_invariant hstep hstart halone

end

def twoPuts : Fin 3 → Call
  | 0 => .put Overwrite.sampleToken [1]
  | 1 => .put Overwrite.sampleToken [2]
  | 2 => .get Overwrite.sampleToken

def emptyStore : Store := { files := fun _ => none, rows := [], now := 0 }

abbrev twoPutsTurn : Threads.Conf (Fin 3) Store Position → Fin 3 →
    Threads.Conf (Fin 3) Store Position :=
  turn plain Overwrite.sampleClock Overwrite.sampleConfig twoPuts fun _ => Overwrite.sampleCalls

/-- The second call finds the row of the first, which is not acknowledged yet, and is refused. -/
theorem durable_of_undisturbed_apart :
    Along twoPutsTurn (Undisturbed twoPuts) (initial emptyStore) ([0, 0, 0, 0, 1, 0] ++ [1, 2, 2]) ∧
    (exec twoPutsTurn (initial emptyStore) [0, 0, 0, 0, 1, 0]).pos 0 = .done (.ok []) ∧
    Durable plain Overwrite.sampleClock Overwrite.sampleConfig twoPuts
      (fun _ => Overwrite.sampleCalls) emptyStore [0, 0, 0, 0, 1, 0] [1, 2, 2] :=
  have hu : Along twoPutsTurn (Undisturbed twoPuts) (initial emptyStore)
      ([0, 0, 0, 0, 1, 0] ++ [1, 2, 2]) := by decide +kernel
  ⟨hu, by decide +kernel, durable_of_undisturbed plain Overwrite.sampleClock Overwrite.sampleConfig
    twoPuts (fun _ => Overwrite.sampleCalls) emptyStore [0, 0, 0, 0, 1, 0] [1, 2, 2] hu⟩

/-- Both find no row. The first is acknowledged; the second's insert fails, and its rollback removes
the block. -/
theorem acknowledged_block_lost :
    (exec twoPutsTurn (initial emptyStore) [0, 0, 1, 1, 0, 0, 0]).pos 0 = .done (.ok []) ∧
    ¬ Durable plain Overwrite.sampleClock Overwrite.sampleConfig twoPuts
      (fun _ => Overwrite.sampleCalls) emptyStore [0, 0, 1, 1, 0, 0, 0] [1, 1, 1, 1, 2] := by
  have hack : (exec twoPutsTurn (initial emptyStore) [0, 0, 1, 1, 0, 0, 0]).pos 0 =
      .done (.ok []) := by
    decide +kernel
  have hlost : (exec twoPutsTurn (initial emptyStore)
      ([0, 0, 1, 1, 0, 0, 0] ++ [1, 1, 1, 1, 2])).pos 2 =
      .done (.error (.service "block not found" 404)) := by
    decide +kernel
  refine ⟨hack, ?_⟩
  intro h
  obtain ⟨-, -, hget⟩ := h 0 Overwrite.sampleToken [1] [] rfl hack
  cases hget 2 rfl (by decide +kernel) _ hlost

end TwelveC.Relay.Durability
