import TwelveC.Lib.Run
import TwelveC.Lib.Table
import TwelveC.Crypto

/-!
# The block hash pool

Blocks are hashed as they arrive, a bounded number at a time, and the hashes
complete in any order. The results keep one hash for each token.
-/

namespace TwelveC.Client

open Lib Lib.Run

structure WireBlock where
  token : Str
  data : Bytes
  deriving DecidableEq, Repr

def computeBlockHashSha256 (C : Primitives) (data : Bytes) : Str := Crypto.toHex (C.sha256 data)

/-- `inFlight` holds the jobs that the source counts. -/
structure BlockHashPool where
  concurrency : Nat
  results : Table Str Str
  queue : List WireBlock
  inFlight : List WireBlock
  completed : Nat
  totalEnqueued : Nat
  closed : Bool
  deriving DecidableEq, Repr

namespace BlockHashPool

/-- The constructor, once its check has passed. -/
def new (concurrency : Nat) : BlockHashPool :=
  { concurrency, results := Table.empty, queue := [], inFlight := [], completed := 0,
    totalEnqueued := 0, closed := false }

/-- The loop of `pump`: jobs in flight and jobs left in the queue. -/
def start (concurrency : Nat) : List WireBlock → List WireBlock → List WireBlock × List WireBlock
  | inFlight, [] => (inFlight, [])
  | inFlight, job :: queue =>
    if inFlight.length < concurrency then start concurrency (inFlight ++ [job]) queue
    else (inFlight, job :: queue)

def pump (pool : BlockHashPool) : BlockHashPool :=
  { pool with inFlight := (start pool.concurrency pool.inFlight pool.queue).1
              queue := (start pool.concurrency pool.inFlight pool.queue).2 }

/-- On a closed pool it throws. -/
def enqueue (pool : BlockHashPool) (block : WireBlock) : BlockHashPool :=
  if pool.closed then pool
  else pump { pool with totalEnqueued := pool.totalEnqueued + 1, queue := pool.queue ++ [block] }

/-- The end of `runJob`: the digest was computed, or it failed. -/
def finish (C : Primitives) (pool : BlockHashPool) (job : WireBlock) (digested : Bool) :
    BlockHashPool :=
  pump { pool with
    results := if digested then pool.results.insert job.token (computeBlockHashSha256 C job.data)
      else pool.results
    inFlight := pool.inFlight.erase job
    completed := pool.completed + 1 }

/-- `drain` resolves. -/
def drained (pool : BlockHashPool) : Bool :=
  pool.closed && pool.completed == pool.totalEnqueued && pool.inFlight.isEmpty

inductive Event where
  | enqueue (block : WireBlock)
  | finish (job : WireBlock) (digested : Bool)
  | close
  deriving DecidableEq, Repr

def next (C : Primitives) (pool : BlockHashPool) : Event → BlockHashPool
  | .enqueue block => pool.enqueue block
  | .finish job digested => pool.finish C job digested
  | .close => { pool with closed := true }

/-- Only a job in flight ends, and nothing is enqueued after `drain`. -/
def Enabled (pool : BlockHashPool) : Event → Prop
  | .enqueue _ => pool.closed = false
  | .finish job _ => job ∈ pool.inFlight
  | .close => True

instance (pool : BlockHashPool) : ∀ e, Decidable (Enabled pool e)
  | .enqueue _ => inferInstanceAs (Decidable (_ = _))
  | .finish _ _ => inferInstanceAs (Decidable (_ ∈ _))
  | .close => .isTrue trivial

def Event.enqueued : Event → Option WireBlock
  | .enqueue block => some block
  | _ => none

def Event.hashed : Event → Option WireBlock
  | .finish job true => some job
  | _ => none

def Event.finished : Event → Option WireBlock
  | .finish job _ => some job
  | _ => none

variable {C : Primitives} {pool : BlockHashPool} {events : List Event}

/-- What a job writes. -/
def resultOf (C : Primitives) (job : WireBlock) : Str × Str :=
  (job.token, computeBlockHashSha256 C job.data)

theorem results_next (pool : BlockHashPool) (e : Event) :
    (next C pool e).results = pool.results.insertAll (e.hashed.toList.map (resultOf C)) := by
  cases e with
  | enqueue block =>
    show (pool.enqueue block).results = pool.results
    rw [enqueue]
    split <;> rfl
  | finish job digested => cases digested <;> rfl
  | close => rfl

theorem results_exec (pool : BlockHashPool) (events : List Event) :
    (exec (next C) pool events).results =
      pool.results.insertAll ((events.filterMap Event.hashed).map (resultOf C)) := by
  induction events generalizing pool with
  | nil => rfl
  | cons e events ih =>
    rw [exec_cons, ih, results_next]
    cases h : e.hashed with
    | none => rw [List.filterMap_cons_none h]; rfl
    | some job => rw [List.filterMap_cons_some h]; rfl

theorem start_append (concurrency : Nat) (inFlight queue : List WireBlock) :
    (start concurrency inFlight queue).1 ++ (start concurrency inFlight queue).2 =
      inFlight ++ queue := by
  induction queue generalizing inFlight with
  | nil => rfl
  | cons job queue ih =>
    rw [start]
    split
    · rw [ih, List.append_assoc]
      rfl
    · rfl

/-- The jobs that are done, in flight or waiting are the ones that were enqueued. -/
structure Accounted (pool : BlockHashPool) (enqueued finished : List WireBlock) : Prop where
  jobs : (finished ++ (pool.inFlight ++ pool.queue)).Perm enqueued
  completed : pool.completed = finished.length
  totalEnqueued : pool.totalEnqueued = enqueued.length

theorem accounted_new (concurrency : Nat) : Accounted (new concurrency) [] [] := ⟨.refl _, rfl, rfl⟩

theorem accounted_next {enqueued finished : List WireBlock} {e : Event}
    (h : Accounted pool enqueued finished) (he : Enabled pool e) :
    Accounted (next C pool e) (enqueued ++ e.enqueued.toList) (finished ++ e.finished.toList) := by
  cases e with
  | enqueue block =>
    have hopen : pool.closed = false := he
    have hnext : next C pool (.enqueue block) = pump { pool with
        totalEnqueued := pool.totalEnqueued + 1, queue := pool.queue ++ [block] } := by
      rw [next, enqueue, hopen]
      rfl
    rw [hnext]
    refine ⟨?_, ?_, ?_⟩
    · have hperm : (finished ++ [] ++ (pool.inFlight ++ (pool.queue ++ [block]))).Perm
          (enqueued ++ [block]) := by
        rw [List.append_nil, ← List.append_assoc pool.inFlight, ← List.append_assoc]
        exact h.jobs.append_right _
      exact (List.Perm.of_eq (congrArg _ (start_append _ _ _))).trans hperm
    · exact h.completed.trans (congrArg _ (List.append_nil _).symm)
    · show pool.totalEnqueued + 1 = (enqueued ++ [block]).length
      rw [h.totalEnqueued, List.length_append, List.length_singleton]
  | finish job digested =>
    have hmem : job ∈ pool.inFlight := he
    refine ⟨?_, ?_, ?_⟩
    · have hperm : (finished ++ [job] ++ (pool.inFlight.erase job ++ pool.queue)).Perm
          (enqueued ++ []) := by
        rw [List.append_nil, List.append_assoc, List.singleton_append, ← List.cons_append]
        exact ((List.perm_cons_erase hmem).symm.append_right _ |>.append_left _).trans h.jobs
      exact (List.Perm.of_eq (congrArg _ (start_append _ _ _))).trans hperm
    · show pool.completed + 1 = (finished ++ [job]).length
      rw [h.completed, List.length_append, List.length_singleton]
    · exact h.totalEnqueued.trans (congrArg _ (List.append_nil _).symm)
  | close =>
    refine ⟨?_, ?_, ?_⟩
    · exact (List.append_nil finished).symm ▸ (List.append_nil enqueued).symm ▸ h.jobs
    · exact h.completed.trans (congrArg _ (List.append_nil _).symm)
    · exact h.totalEnqueued.trans (congrArg _ (List.append_nil _).symm)

theorem accounted_exec {enqueued finished : List WireBlock} (h : Accounted pool enqueued finished)
    (henabled : Along (next C) Enabled pool events) :
    Accounted (exec (next C) pool events) (enqueued ++ events.filterMap Event.enqueued)
      (finished ++ events.filterMap Event.finished) := by
  induction events generalizing pool enqueued finished with
  | nil =>
    rw [List.filterMap_nil, List.filterMap_nil, List.append_nil, List.append_nil]
    exact h
  | cons e events ih =>
    have hnext := ih (accounted_next h henabled.1) henabled.2
    have hcons : ∀ (f : Event → Option WireBlock), (e :: events).filterMap f =
        (f e).toList ++ events.filterMap f := by
      intro f
      cases hf : f e with
      | none => rw [List.filterMap_cons_none hf]; rfl
      | some job => rw [List.filterMap_cons_some hf]; rfl
    rw [hcons, hcons, ← List.append_assoc, ← List.append_assoc]
    exact hnext

/-- When `drain` resolves, every job has ended. -/
theorem finished_perm {concurrency : Nat} (henabled : Along (next C) Enabled (new concurrency) events)
    (hdrained : (exec (next C) (new concurrency) events).drained = true) :
    (events.filterMap Event.finished).Perm (events.filterMap Event.enqueued) := by
  have h := accounted_exec (accounted_new concurrency) henabled
  simp only [drained, Bool.and_eq_true, beq_iff_eq, List.isEmpty_iff] at hdrained
  obtain ⟨⟨-, hcompleted⟩, hflight⟩ := hdrained
  have hlength := h.jobs.length_eq
  have hqueue : (exec (next C) (new concurrency) events).queue = [] := by
    rw [h.completed, h.totalEnqueued] at hcompleted
    simp only [List.length_append, hflight] at hlength hcompleted
    exact List.length_eq_zero_iff.mp (by omega)
  have hjobs := h.jobs
  rw [hflight, hqueue, List.append_nil, List.append_nil] at hjobs
  exact hjobs

end BlockHashPool
end TwelveC.Client
