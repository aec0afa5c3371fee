import TwelveC.Types
import TwelveC.Relay.BlockAuth
import Mathlib.Data.List.Nodup
import Mathlib.Data.List.Infix

/-!
# A pool of workers that put blocks

The workers share an index into the list of jobs. A worker takes the next job,
makes its attempts at the `PUT` and comes back for another one. The source
counts the jobs in flight and the completed ones; here they are read off the
workers.
-/

namespace TwelveC.Client

/-- What `uploadClient.put` rejects with. -/
inductive PutError where
  | typeError (message : Str)
  | error (message : Str)
  | other
  deriving DecidableEq, Repr

def digit (c : UInt8) : Option Nat := if 48 ≤ c ∧ c ≤ 57 then some (c.toNat - 48) else none

def statusAt : Str → Option Nat
  | 72 :: 84 :: 84 :: 80 :: 32 :: a :: b :: c :: _ => do
    let a ← digit a
    let b ← digit b
    let c ← digit c
    return 100 * a + 10 * b + c
  | _ => none

/-- The first match of `/HTTP (\d{3})/`. -/
def readHttpStatusFromMessage : Str → Option Nat
  | [] => none
  | c :: rest => (statusAt (c :: rest)).or (readHttpStatusFromMessage rest)

def transientTexts : List Str :=
  ["failed to fetch", "networkerror", "load failed", "network", "timed out", "timeout",
    "aborted"].map ascii

def isTransientPutFailure : PutError → Bool
  | .typeError _ => true
  | .error message =>
    if ∃ text ∈ transientTexts, text <:+: Relay.BlockAuth.lower message then true
    else
      match readHttpStatusFromMessage message with
      | some status => status = 408 ∨ status = 429 ∨ 500 ≤ status
      | none => false
  | .other => false

structure PutRetryPolicy where
  maxAttempts : Int
  transientMaxAttempts : Int
  deriving DecidableEq, Repr

inductive PutStep where
  | acknowledged
  | again
  | gaveUp
  deriving DecidableEq, Repr

/-- `putWithRetry` after this attempt. With `maxAttempts` at most 0 it throws before the first. -/
def putWithRetry (policy : PutRetryPolicy) (attempt : Nat) (outcome : Except PutError Unit) :
    PutStep :=
  if policy.maxAttempts ≤ 0 then .gaveUp
  else
    match outcome with
    | .ok () => .acknowledged
    | .error error =>
      let limit := if isTransientPutFailure error then policy.transientMaxAttempts
        else policy.maxAttempts
      if limit ≤ attempt then .gaveUp else .again

example : isTransientPutFailure (.error (ascii "PUT failed: HTTP 503")) = true := by decide +kernel

/-- `polling` waits for a slot, `ready` has one. -/
inductive Worker where
  | polling
  | ready
  | putting (index attempt : Nat)
  | returned
  | failed
  deriving DecidableEq, Repr

/-- `taken` and `acknowledged` are history: who took which index, and the jobs whose `PUT` was
acknowledged. `gaveUp` holds the jobs whose attempts are exhausted. -/
structure Pool (α : Type) where
  jobs : List α
  nextIndex : Nat
  workers : List Worker
  taken : List (Nat × Nat)
  acknowledged : List α
  gaveUp : List α

namespace Pool

variable {α : Type}

def new (jobs : List α) (concurrency : Nat) (first : Worker) : Pool α :=
  { jobs, nextIndex := 0, workers := List.replicate (min concurrency jobs.length) first, taken := [],
    acknowledged := [], gaveUp := [] }

def setWorker (pool : Pool α) (i : Nat) (worker : Worker) : Pool α :=
  { pool with workers := pool.workers.set i worker }

def Worker.isPutting : Worker → Bool
  | .putting _ _ => true
  | _ => false

def inFlight (pool : Pool α) : Nat := pool.workers.countP Worker.isPutting

/-- `0 → 1`, `1 → 2`, `2 → 4`, at least `3 → 6`. -/
def resolveRampedStripeConcurrency (completedBlocks maxConcurrency : Nat) : Nat :=
  min maxConcurrency
    (if 3 ≤ completedBlocks then 6 else if 2 ≤ completedBlocks then 4
      else if 1 ≤ completedBlocks then 2 else 1)

def slotLimit (maxConcurrency : Nat) (rampConcurrency : Bool) (pool : Pool α) : Nat :=
  if rampConcurrency then resolveRampedStripeConcurrency pool.acknowledged.length maxConcurrency
  else maxConcurrency

/-- `waitForStripePutSlot` looks at the counters. -/
def slot (maxConcurrency : Nat) (rampConcurrency : Bool) (pool : Pool α) (i : Nat) : Pool α :=
  if pool.workers[i]? = some .polling ∧ pool.inFlight < pool.slotLimit maxConcurrency rampConcurrency
  then pool.setWorker i .ready
  else pool

/-- The loop test of a worker that is ready, and the job that it takes. A job without an endpoint
ends the worker. -/
def take (hasEndpoint : α → Bool) (pool : Pool α) (i : Nat) : Pool α :=
  if pool.workers[i]? = some .ready then
    match pool.jobs[pool.nextIndex]? with
    | none => pool.setWorker i .returned
    | some job =>
      { pool with
        nextIndex := pool.nextIndex + 1
        taken := pool.taken ++ [(i, pool.nextIndex)]
        workers := pool.workers.set i
          (if hasEndpoint job then .putting pool.nextIndex 1 else .failed)
        gaveUp := if hasEndpoint job then pool.gaveUp else pool.gaveUp ++ [job] }
  else pool

/-- An attempt ends. A worker that goes on is then at `resume`, one that gives up at `exhausted`. -/
def put (policy : PutRetryPolicy) (resume exhausted : Worker) (pool : Pool α) (i : Nat)
    (outcome : Except PutError Unit) : Pool α :=
  match pool.workers[i]? with
  | some (.putting index attempt) =>
    match pool.jobs[index]?, putWithRetry policy attempt outcome with
    | some job, .acknowledged =>
      { pool.setWorker i resume with acknowledged := pool.acknowledged ++ [job] }
    | some job, .gaveUp => { pool.setWorker i exhausted with gaveUp := pool.gaveUp ++ [job] }
    | _, _ => pool.setWorker i (.putting index (attempt + 1))
  | _ => pool

/-- `Promise.all` of the workers resolves. -/
def allReturned (pool : Pool α) : Bool := pool.workers.all (· = .returned)

/-- `Promise.all` of the workers rejects. -/
def someFailed (pool : Pool α) : Bool := pool.workers.any (· = .failed)

/-- The indices are handed out in order, and every one that was is with a worker or done with. -/
structure Sound (pool : Pool α) : Prop where
  taken : pool.taken.map Prod.snd = List.range pool.nextIndex
  bound : pool.nextIndex ≤ pool.jobs.length
  putting : ∀ i index attempt : Nat, pool.workers[i]? = some (.putting index attempt) →
    index < pool.nextIndex
  handled : ∀ (index : Nat) (job : α), index < pool.nextIndex → pool.jobs[index]? = some job →
    job ∈ pool.acknowledged ∨ job ∈ pool.gaveUp ∨
      ∃ i attempt : Nat, pool.workers[i]? = some (.putting index attempt)
  ended : ∀ i : Nat, pool.workers[i]? = some .returned → pool.nextIndex = pool.jobs.length

variable {pool : Pool α} {i : Nat}

theorem getElem?_replicate_eq {n i : Nat} {first worker : Worker}
    (h : (List.replicate n first)[i]? = some worker) : worker = first := by
  obtain ⟨hi, rfl⟩ := List.getElem?_eq_some_iff.mp h
  exact List.getElem_replicate ..

theorem sound_new (jobs : List α) (concurrency : Nat) {first : Worker}
    (hfirst : first = .polling ∨ first = .ready) : Sound (new jobs concurrency first) where
  taken := rfl
  bound := Nat.zero_le _
  putting i index attempt h := by
    have heq := getElem?_replicate_eq h
    rcases hfirst with rfl | rfl <;> cases heq
  handled index job h := absurd h (Nat.not_lt_zero _)
  ended i h := by
    have heq := getElem?_replicate_eq h
    rcases hfirst with rfl | rfl <;> cases heq

/-- After worker `i` has changed, any worker is `i` or as before. -/
theorem setWorker_cases {worker other : Worker} {j : Nat}
    (h : (pool.workers.set i worker)[j]? = some other) :
    j = i ∧ other = worker ∨ pool.workers[j]? = some other := by
  rw [List.getElem?_set] at h
  split at h
  case isTrue hij =>
    split at h
    · cases h
      exact .inl ⟨hij.symm, rfl⟩
    · cases h
  case isFalse => exact .inr h

theorem setWorker_of_ne {worker other : Worker} {j : Nat} (hj : j ≠ i)
    (h : pool.workers[j]? = some other) : (pool.workers.set i worker)[j]? = some other := by
  rw [List.getElem?_set_ne hj.symm]
  exact h

theorem setWorker_self {worker old : Worker} (h : pool.workers[i]? = some old) :
    (pool.workers.set i worker)[i]? = some worker := by
  obtain ⟨hi, -⟩ := List.getElem?_eq_some_iff.mp h
  exact List.getElem?_set_self hi

/-- A worker that stays away from the jobs. -/
theorem sound_setWorker (h : Sound pool) {worker old : Worker} (hold : pool.workers[i]? = some old)
    (hidle : ∀ index attempt, old ≠ .putting index attempt)
    (hnew : ∀ index attempt, worker ≠ .putting index attempt)
    (hended : worker = .returned → pool.nextIndex = pool.jobs.length) :
    Sound (pool.setWorker i worker) where
  taken := h.taken
  bound := h.bound
  putting j index attempt hj := by
    rcases setWorker_cases hj with ⟨-, heq⟩ | hj
    · exact absurd heq.symm (hnew index attempt)
    · exact h.putting j index attempt hj
  handled index job hlt hjob := by
    refine (h.handled index job hlt hjob).imp_right fun hrest => hrest.imp_right ?_
    rintro ⟨j, attempt, hj⟩
    refine ⟨j, attempt, setWorker_of_ne ?_ hj⟩
    rintro rfl
    rw [hold] at hj
    exact hidle index attempt (Option.some.inj hj)
  ended j hj := by
    rcases setWorker_cases hj with ⟨-, heq⟩ | hj
    · exact hended heq.symm
    · exact h.ended j hj

theorem sound_slot (maxConcurrency : Nat) (rampConcurrency : Bool) (h : Sound pool) (i : Nat) :
    Sound (pool.slot maxConcurrency rampConcurrency i) := by
  rw [slot]
  split
  case isTrue hslot =>
    apply sound_setWorker h hslot.1
    · exact fun _ _ => Worker.noConfusion
    · exact fun _ _ => Worker.noConfusion
    · exact Worker.noConfusion
  case isFalse => exact h

theorem sound_take (hasEndpoint : α → Bool) (h : Sound pool) (i : Nat) :
    Sound (pool.take hasEndpoint i) := by
  rw [take]
  split
  case isFalse => exact h
  case isTrue hready =>
    cases hjob : pool.jobs[pool.nextIndex]? with
    | none =>
      refine sound_setWorker h hready (fun _ _ => Worker.noConfusion) (fun _ _ => Worker.noConfusion)
        fun _ => ?_
      exact Nat.le_antisymm h.bound (List.getElem?_eq_none_iff.mp hjob)
    | some job =>
      obtain ⟨hlt, -⟩ := List.getElem?_eq_some_iff.mp hjob
      refine ⟨?_, hlt, fun j index attempt hj => ?_, fun index other hindex hother => ?_, fun j hj => ?_⟩
      · show (pool.taken ++ [(i, pool.nextIndex)]).map Prod.snd = _
        rw [List.map_append, h.taken, List.range_succ]
        rfl
      · rcases setWorker_cases hj with ⟨-, heq⟩ | hj
        · split at heq
          · cases heq
            exact Nat.lt_succ_self _
          · cases heq
        · exact Nat.lt_succ_of_lt (h.putting j index attempt hj)
      · rcases Nat.lt_succ_iff_lt_or_eq.mp hindex with hindex | rfl
        · rcases h.handled index other hindex hother with hack | hgave | ⟨j, attempt, hj⟩
          · exact .inl hack
          · refine .inr (.inl ?_)
            dsimp only
            split
            · exact hgave
            · exact List.mem_append_left _ hgave
          · refine .inr (.inr ⟨j, attempt, setWorker_of_ne ?_ hj⟩)
            rintro rfl
            rw [hready] at hj
            cases hj
        · rw [hjob] at hother
          cases hother
          refine .inr ?_
          by_cases hendpoint : hasEndpoint job = true
          · refine .inr ⟨i, 1, ?_⟩
            dsimp only
            rw [if_pos hendpoint]
            exact setWorker_self hready
          · refine .inl ?_
            dsimp only
            rw [if_neg hendpoint]
            exact List.mem_append_right _ (List.mem_singleton_self job)
      · rcases setWorker_cases hj with ⟨-, heq⟩ | hj
        · split at heq <;> cases heq
        · exact absurd (h.ended j hj) (Nat.ne_of_lt hlt)

/-- The worker of a job that has ended goes to another place. -/
theorem handled_done (h : Sound pool) {index attempt : Nat} {job : α} {worker : Worker}
    {acknowledged gaveUp : List α} (hold : pool.workers[i]? = some (.putting index attempt))
    (hjob : pool.jobs[index]? = some job) (hack : pool.acknowledged ⊆ acknowledged)
    (hgave : pool.gaveUp ⊆ gaveUp) (hdone : job ∈ acknowledged ∨ job ∈ gaveUp) {other : Nat}
    {otherJob : α} (hlt : other < pool.nextIndex) (hother : pool.jobs[other]? = some otherJob) :
    otherJob ∈ acknowledged ∨ otherJob ∈ gaveUp ∨
      ∃ j attempt : Nat, (pool.workers.set i worker)[j]? = some (.putting other attempt) := by
  by_cases hindex : other = index
  · subst hindex
    rw [hjob] at hother
    cases hother
    exact hdone.imp_right Or.inl
  · rcases h.handled other otherJob hlt hother with hm | hm | ⟨j, attempt, hj⟩
    · exact .inl (hack hm)
    · exact .inr (.inl (hgave hm))
    · refine .inr (.inr ⟨j, attempt, setWorker_of_ne ?_ hj⟩)
      rintro rfl
      rw [hold] at hj
      cases hj
      exact hindex rfl

theorem sound_put {policy : PutRetryPolicy} {resume exhausted : Worker} (h : Sound pool) (i : Nat)
    (hresume : resume = .polling ∨ resume = .ready)
    (hexhausted : exhausted = .failed ∨ exhausted = .ready) (outcome : Except PutError Unit) :
    Sound (pool.put policy resume exhausted i outcome) := by
  rw [put]
  split
  case h_2 => exact h
  case h_1 index attempt hold =>
    have hputting (worker : Worker) (hworker : ∀ other attempt, worker = .putting other attempt →
        other < pool.nextIndex) (j other attempt : Nat)
        (hj : (pool.workers.set i worker)[j]? = some (.putting other attempt)) :
        other < pool.nextIndex := by
      rcases setWorker_cases hj with ⟨-, heq⟩ | hj
      · exact hworker other attempt heq.symm
      · exact h.putting j other attempt hj
    have hended (worker : Worker) (hworker : worker ≠ .returned) (j : Nat)
        (hj : (pool.workers.set i worker)[j]? = some .returned) :
        pool.nextIndex = pool.jobs.length := by
      rcases setWorker_cases hj with ⟨-, heq⟩ | hj
      · exact absurd heq.symm hworker
      · exact h.ended j hj
    split
    case h_1 job hjob hstep =>
      refine ⟨h.taken, h.bound, hputting resume ?_, fun other otherJob hlt hother => ?_,
        hended resume ?_⟩
      · rcases hresume with rfl | rfl <;> exact fun _ _ => Worker.noConfusion
      · exact handled_done h hold hjob (List.subset_append_left ..) (List.Subset.refl _)
          (.inl (List.mem_append_right _ (List.mem_singleton_self job))) hlt hother
      · rcases hresume with rfl | rfl <;> exact Worker.noConfusion
    case h_2 job hjob hstep =>
      refine ⟨h.taken, h.bound, hputting exhausted ?_, fun other otherJob hlt hother => ?_,
        hended exhausted ?_⟩
      · rcases hexhausted with rfl | rfl <;> exact fun _ _ => Worker.noConfusion
      · exact handled_done h hold hjob (List.Subset.refl _) (List.subset_append_left ..)
          (.inr (List.mem_append_right _ (List.mem_singleton_self job))) hlt hother
      · rcases hexhausted with rfl | rfl <;> exact Worker.noConfusion
    case h_3 =>
      refine ⟨h.taken, h.bound, hputting _ ?_, fun other otherJob hlt hother => ?_,
        hended _ Worker.noConfusion⟩
      · intro other attempt' heq
        cases heq
        exact h.putting i index attempt hold
      · refine (h.handled other otherJob hlt hother).imp_right fun hrest => hrest.imp_right ?_
        rintro ⟨j, attempt', hj⟩
        by_cases hji : j = i
        · subst hji
          rw [hold] at hj
          cases hj
          exact ⟨j, attempt + 1, setWorker_self hold⟩
        · exact ⟨j, attempt', setWorker_of_ne hji hj⟩

/-- Once all workers have returned, every job was taken, and acknowledged or given up. -/
theorem Sound.finished (h : Sound pool) (hreturned : pool.allReturned = true)
    (hworkers : pool.jobs ≠ [] → pool.workers ≠ []) : pool.nextIndex = pool.jobs.length ∧
      ∀ job ∈ pool.jobs, job ∈ pool.acknowledged ∨ job ∈ pool.gaveUp := by
  have hall (j : Nat) (worker : Worker) (hj : pool.workers[j]? = some worker) : worker = .returned := by
    rw [allReturned, List.all_eq_true] at hreturned
    exact of_decide_eq_true (hreturned worker (List.mem_of_getElem? hj))
  have hend : pool.nextIndex = pool.jobs.length := by
    by_cases hjobs : pool.jobs = []
    · have hbound := h.bound
      rw [hjobs] at hbound ⊢
      exact Nat.le_antisymm hbound (Nat.zero_le _)
    obtain ⟨worker, rest, hcons⟩ := List.exists_cons_of_ne_nil (hworkers hjobs)
    have hfirst : pool.workers[0]? = some worker := by
      rw [hcons]
      rfl
    exact h.ended 0 (hall 0 worker hfirst ▸ hfirst)
  refine ⟨hend, fun job hm => ?_⟩
  obtain ⟨index, hindex⟩ := List.getElem?_of_mem hm
  obtain ⟨hlt, -⟩ := List.getElem?_eq_some_iff.mp hindex
  rcases h.handled index job (hend ▸ hlt) hindex with hack | hgave | ⟨j, attempt, hj⟩
  · exact .inl hack
  · exact .inr hgave
  · cases hall j _ hj

/-- The worker of a job that was given up has failed. -/
def Stops (pool : Pool α) : Prop :=
  pool.gaveUp ≠ [] → ∃ i : Nat, pool.workers[i]? = some .failed

/-- A failed worker stays failed, and a step that gives a job up makes one. -/
theorem stops_set (h : Stops pool) {worker old : Worker} {gaveUp : List α}
    (hold : pool.workers[i]? = some old) (halive : old ≠ .failed)
    (hgave : gaveUp = pool.gaveUp ∨ worker = .failed) :
    gaveUp ≠ [] → ∃ j : Nat, (pool.workers.set i worker)[j]? = some .failed := by
  intro hne
  by_cases hworker : worker = .failed
  · exact ⟨i, hworker ▸ setWorker_self hold⟩
  · obtain ⟨j, hj⟩ := h (hgave.resolve_right hworker ▸ hne)
    refine ⟨j, setWorker_of_ne ?_ hj⟩
    rintro rfl
    rw [hold] at hj
    exact halive (Option.some.inj hj)

theorem stops_slot (maxConcurrency : Nat) (rampConcurrency : Bool) (h : Stops pool) (i : Nat) :
    Stops (pool.slot maxConcurrency rampConcurrency i) := by
  rw [slot]
  split
  case isTrue hslot => exact stops_set h hslot.1 Worker.noConfusion (.inl rfl)
  case isFalse => exact h

theorem stops_take (hasEndpoint : α → Bool) (h : Stops pool) (i : Nat) :
    Stops (pool.take hasEndpoint i) := by
  rw [take]
  split
  case isFalse => exact h
  case isTrue hready =>
    split
    · exact stops_set h hready Worker.noConfusion (.inl rfl)
    · refine stops_set h hready Worker.noConfusion ?_
      split
      · exact .inl rfl
      · exact .inr rfl

theorem stops_put {policy : PutRetryPolicy} {resume : Worker} (h : Stops pool) (i : Nat)
    (outcome : Except PutError Unit) : Stops (pool.put policy resume .failed i outcome) := by
  rw [put]
  split
  case h_2 => exact h
  case h_1 index attempt hold =>
    split
    · exact stops_set h hold Worker.noConfusion (.inl rfl)
    · exact stops_set h hold Worker.noConfusion (.inr rfl)
    · exact stops_set h hold Worker.noConfusion (.inl rfl)

/-- The jobs and the number of workers stay, and what is done with remains so. -/
structure Extends (pool later : Pool α) : Prop where
  jobs : later.jobs = pool.jobs
  workers : later.workers.length = pool.workers.length
  nextIndex : pool.nextIndex ≤ later.nextIndex
  acknowledged : pool.acknowledged ⊆ later.acknowledged
  gaveUp : pool.gaveUp ⊆ later.gaveUp

theorem extends_refl (pool : Pool α) : Extends pool pool :=
  ⟨rfl, rfl, Nat.le_refl _, List.Subset.refl _, List.Subset.refl _⟩

theorem extends_setWorker (pool : Pool α) (i : Nat) (worker : Worker) :
    Extends pool (pool.setWorker i worker) :=
  ⟨rfl, List.length_set, Nat.le_refl _, List.Subset.refl _, List.Subset.refl _⟩

theorem extends_slot (maxConcurrency : Nat) (rampConcurrency : Bool) (pool : Pool α) (i : Nat) :
    Extends pool (pool.slot maxConcurrency rampConcurrency i) := by
  rw [slot]
  split
  · exact extends_setWorker pool i .ready
  · exact extends_refl pool

theorem extends_take (hasEndpoint : α → Bool) (pool : Pool α) (i : Nat) :
    Extends pool (pool.take hasEndpoint i) := by
  rw [take]
  split
  · split
    · exact extends_setWorker pool i .returned
    · refine ⟨rfl, List.length_set, Nat.le_succ _, List.Subset.refl _, ?_⟩
      dsimp only
      split
      · exact List.Subset.refl _
      · exact List.subset_append_left ..
  · exact extends_refl pool

theorem extends_put (policy : PutRetryPolicy) (resume exhausted : Worker) (pool : Pool α) (i : Nat)
    (outcome : Except PutError Unit) : Extends pool (pool.put policy resume exhausted i outcome) := by
  rw [put]
  split
  · split
    · exact ⟨rfl, List.length_set, Nat.le_refl _, List.subset_append_left .., List.Subset.refl _⟩
    · exact ⟨rfl, List.length_set, Nat.le_refl _, List.Subset.refl _, List.subset_append_left ..⟩
    · exact extends_setWorker pool i _
  · exact extends_refl pool

/-- The number of times that the job at an index was taken. -/
def takes (pool : Pool α) (index : Nat) : Nat := (pool.taken.map Prod.snd).count index

theorem Sound.takes_eq (h : Sound pool) (index : Nat) :
    pool.takes index = if index < pool.nextIndex then 1 else 0 := by
  rw [takes, h.taken]
  split
  case isTrue hlt => exact List.count_eq_one_of_mem List.nodup_range (List.mem_range.mpr hlt)
  case isFalse hge => exact List.count_eq_zero.mpr fun hm => hge (List.mem_range.mp hm)

theorem Sound.takes_le (h : Sound pool) (index : Nat) : pool.takes index ≤ 1 := by
  rw [h.takes_eq]
  split <;> decide

end Pool
end TwelveC.Client
