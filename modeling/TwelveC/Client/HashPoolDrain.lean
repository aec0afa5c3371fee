import TwelveC.Client.BlockHashPool
import TwelveC.PlainCrypto

/-!
# The promises of `drain`

A call of `drain` closes the pool and waits, if a job is left, for the job that
completes last. Its continuation is the next microtask; nothing changes the
results in between, so it is taken with the step that wakes it.
-/

namespace TwelveC.Client.HashPoolDrain

open Lib Lib.Run BlockHashPool

/-- `drains` counts the calls of `drain`, `drainWaiters` has those that wait, and `resolved` what the
promises were resolved with. -/
structure DrainingPool where
  pool : BlockHashPool
  drainWaiters : List Nat
  drains : Nat
  resolved : List (Nat × List (Str × Str))
  deriving DecidableEq, Repr

def new (concurrency : Nat) : DrainingPool :=
  { pool := BlockHashPool.new concurrency, drainWaiters := [], drains := 0, resolved := [] }

/-- What `maybeResolveDrain` and `drain` test. -/
def unfinished (pool : BlockHashPool) : Bool :=
  decide (pool.completed < pool.totalEnqueued) || decide (0 < pool.inFlight.length)

def maybeResolveDrain (d : DrainingPool) : DrainingPool :=
  if d.pool.closed = false then d
  else if unfinished d.pool then d
  else
    { d with
      drainWaiters := []
      resolved := d.resolved ++ d.drainWaiters.map fun k => (k, d.pool.results.entries) }

def close (d : DrainingPool) : DrainingPool :=
  maybeResolveDrain { d with pool := { d.pool with closed := true } }

def drain (d : DrainingPool) : DrainingPool :=
  let c := close d
  if unfinished c.pool then
    { c with drainWaiters := c.drainWaiters ++ [c.drains], drains := c.drains + 1 }
  else
    { c with resolved := c.resolved ++ [(c.drains, c.pool.results.entries)], drains := c.drains + 1 }

inductive Event where
  | enqueue (block : WireBlock)
  | finish (job : WireBlock)
  | drain
  deriving DecidableEq, Repr

/-- Only a job in flight completes. -/
def next (C : Primitives) (d : DrainingPool) : Event → DrainingPool
  | .enqueue block => { d with pool := d.pool.enqueue block }
  | .finish job =>
    if job ∈ d.pool.inFlight then maybeResolveDrain { d with pool := d.pool.finish C job true } else d
  | .drain => drain d

/-- The blocks that the pool takes: on a closed pool `enqueue` throws. -/
def accepted : List Event → List WireBlock
  | [] => []
  | .enqueue block :: events => block :: accepted events
  | .finish _ :: events => accepted events
  | .drain :: _ => []

/-- The job that the step completes: one in flight whose hash is there. -/
def ended (d : DrainingPool) : Event → List WireBlock
  | .enqueue _ => []
  | .finish job => if job ∈ d.pool.inFlight then [job] else []
  | .drain => []

/-- The jobs that the events complete, in their order. -/
def completed (C : Primitives) : DrainingPool → List Event → List WireBlock
  | _, [] => []
  | d, e :: events => ended d e ++ completed C (next C d e) events

/-- The entries of exactly these jobs, one for each token. -/
structure EntriesOf (C : Primitives) (jobs : List WireBlock) (entries : List (Str × Str)) : Prop where
  nodup : (entries.map Prod.fst).Nodup
  exact : ∀ token blockHash, (token, blockHash) ∈ entries ↔
    ∃ job ∈ jobs, job.token = token ∧ computeBlockHashSha256 C job.data = blockHash

/-- What holds of the pool and its promises whatever has happened, where `done` are the completed
jobs. -/
structure DrainsExactly (C : Primitives) (concurrency : Nat) (jobs done : List WireBlock)
    (d : DrainingPool) : Prop where
  bounded : d.pool.inFlight.length ≤ concurrency
  working : (∃ job ∈ jobs, job ∉ done) → d.pool.inFlight ≠ []
  hashed : ∀ job ∈ jobs, d.pool.results.find job.token =
    if job ∈ done then some (computeBlockHashSha256 C job.data) else none
  waiting : (∃ job ∈ jobs, job ∉ done) → d.resolved = [] ∧ d.drainWaiters = List.range d.drains
  drained : (∀ job ∈ jobs, job ∈ done) →
    d.drainWaiters = [] ∧ d.resolved.map Prod.fst = List.range d.drains
  entries : ∀ e ∈ d.resolved, EntriesOf C jobs e.2

theorem start_bounded {concurrency : Nat} (inFlight queue : List WireBlock)
    (h : inFlight.length ≤ concurrency) : (start concurrency inFlight queue).1.length ≤ concurrency := by
  induction queue generalizing inFlight with
  | nil => exact h
  | cons job queue ih =>
    rw [start]
    split
    case isTrue hfree => exact ih _ (by rw [List.length_append]; exact hfree)
    case isFalse => exact h

/-- A job is left in the queue only if there is no room for it. -/
theorem start_busy {concurrency : Nat} (inFlight queue : List WireBlock)
    (h : (start concurrency inFlight queue).2 ≠ []) :
    concurrency ≤ (start concurrency inFlight queue).1.length := by
  induction queue generalizing inFlight with
  | nil => exact absurd rfl h
  | cons job queue ih =>
    rw [start] at h ⊢
    split at h
    case isTrue hfree =>
      rw [if_pos hfree]
      exact ih _ h
    case isFalse hfull =>
      rw [if_neg hfull]
      exact Nat.not_lt.mp hfull

variable {C : Primitives} {concurrency : Nat} {jobs finished : List WireBlock}
variable {pool : BlockHashPool} {d : DrainingPool}

/-- The pool has its jobs, and starts as many as it may. -/
structure PoolInvariant (C : Primitives) (concurrency : Nat) (jobs finished : List WireBlock)
    (pool : BlockHashPool) : Prop where
  jobs : Accounted pool jobs finished
  results : pool.results = Table.empty.insertAll (finished.map (resultOf C))
  limit : pool.concurrency = concurrency
  bounded : pool.inFlight.length ≤ concurrency
  busy : pool.queue ≠ [] → concurrency ≤ pool.inFlight.length

/-- The calls of `drain` wait as long as a job is left. -/
structure PromiseInvariant (d : DrainingPool) : Prop where
  opened : d.pool.closed = false → d.drains = 0
  waiting : unfinished d.pool = true → d.resolved = [] ∧ d.drainWaiters = List.range d.drains
  drained : unfinished d.pool = false → d.drainWaiters = [] ∧
    d.resolved.map Prod.fst = List.range d.drains ∧ ∀ e ∈ d.resolved, e.2 = d.pool.results.entries

structure Invariant (C : Primitives) (concurrency : Nat) (jobs finished : List WireBlock)
    (d : DrainingPool) : Prop where
  pool : PoolInvariant C concurrency jobs finished d.pool
  promises : PromiseInvariant d

/-- The counters tell whether a job is left. -/
theorem unfinished_iff (h : Accounted pool jobs finished) :
    unfinished pool = true ↔ pool.inFlight ++ pool.queue ≠ [] := by
  have hlength := h.jobs.length_eq
  rw [List.length_append, List.length_append, ← h.completed, ← h.totalEnqueued] at hlength
  rw [unfinished, Bool.or_eq_true, decide_eq_true_eq, decide_eq_true_eq, ne_eq,
    ← List.length_eq_zero_iff, List.length_append]
  omega

theorem enqueue_pool (h : PoolInvariant C concurrency jobs finished pool) (hopen : pool.closed = false)
    (block : WireBlock) :
    PoolInvariant C concurrency (jobs ++ [block]) finished (pool.enqueue block) := by
  have hjobs : (pool.enqueue block).Accounted (jobs ++ [block]) (finished ++ []) :=
    accounted_next (C := C) (e := .enqueue block) h.jobs hopen
  have hresults := results_next (C := C) pool (.enqueue block)
  have hpump : pool.enqueue block = pump { pool with
      totalEnqueued := pool.totalEnqueued + 1, queue := pool.queue ++ [block] } := by
    rw [enqueue, hopen]
    rfl
  constructor
  case jobs => rwa [List.append_nil] at hjobs
  case results => exact hresults.trans h.results
  case limit =>
    rw [hpump]
    exact h.limit
  case bounded =>
    rw [hpump, ← h.limit]
    exact start_bounded _ _ (h.limit ▸ h.bounded)
  case busy =>
    rw [hpump, ← h.limit]
    exact start_busy _ _

theorem finish_pool (h : PoolInvariant C concurrency jobs finished pool) {job : WireBlock}
    (hmem : job ∈ pool.inFlight) :
    PoolInvariant C concurrency jobs (finished ++ [job]) (pool.finish C job true) := by
  have hjobs : (pool.finish C job true).Accounted (jobs ++ []) (finished ++ [job]) :=
    accounted_next (C := C) (e := .finish job true) h.jobs hmem
  have hresults := results_next (C := C) pool (.finish job true)
  constructor
  case jobs => rwa [List.append_nil] at hjobs
  case results =>
    rw [List.map_append, List.map_singleton, Table.insertAll_concat, ← h.results]
    exact hresults
  case limit => exact h.limit
  case bounded =>
    rw [← h.limit]
    refine start_bounded _ _ ?_
    rw [List.length_erase_of_mem hmem, h.limit]
    have hbounded := h.bounded
    omega
  case busy =>
    rw [← h.limit]
    exact start_busy _ _

theorem close_pool (h : PoolInvariant C concurrency jobs finished pool) :
    PoolInvariant C concurrency jobs finished { pool with closed := true } :=
  ⟨⟨h.jobs.jobs, h.jobs.completed, h.jobs.totalEnqueued⟩, h.results, h.limit, h.bounded, h.busy⟩

theorem promises_none (hdrains : d.drains = 0) (hresolved : d.resolved = [])
    (hwaiters : d.drainWaiters = []) : PromiseInvariant d where
  opened _ := hdrains
  waiting _ := ⟨hresolved, by rw [hwaiters, hdrains]; rfl⟩
  drained _ := ⟨hwaiters, by rw [hresolved, hdrains]; rfl, by simp [hresolved]⟩

/-- Before the first call of `drain` nobody waits. -/
theorem PromiseInvariant.none (h : PromiseInvariant d) (hdrains : d.drains = 0) :
    d.resolved = [] ∧ d.drainWaiters = [] := by
  cases hu : unfinished d.pool with
  | true =>
    obtain ⟨hresolved, hwaiters⟩ := h.waiting hu
    rw [hdrains] at hwaiters
    exact ⟨hresolved, hwaiters⟩
  | false =>
    obtain ⟨hwaiters, hresolved, -⟩ := h.drained hu
    rw [hdrains] at hresolved
    exact ⟨List.map_eq_nil_iff.mp hresolved, hwaiters⟩

/-- Whoever waits is woken when no job is left. -/
theorem maybeResolveDrain_promises (hopened : d.pool.closed = false → d.drains = 0)
    (hresolved : d.resolved = []) (hwaiters : d.drainWaiters = List.range d.drains) :
    PromiseInvariant (maybeResolveDrain d) := by
  rw [maybeResolveDrain]
  split
  case isTrue hopen =>
    have hdrains := hopened hopen
    rw [hdrains] at hwaiters
    exact promises_none hdrains hresolved hwaiters
  case isFalse hclosed =>
    split
    case isTrue hu =>
      exact ⟨hopened, fun _ => ⟨hresolved, hwaiters⟩, fun hn => by rw [hu] at hn; cases hn⟩
    case isFalse hu =>
      constructor
      case opened => exact fun hopen => absurd hopen hclosed
      case waiting => exact fun hu' => absurd hu' hu
      case drained =>
        intro _
        rw [hresolved, hwaiters]
        exact ⟨rfl, by simp [Function.comp_def], by simp⟩

@[simp] theorem unfinished_closed (pool : BlockHashPool) :
    unfinished { pool with closed := true } = unfinished pool := rfl

theorem drain_unfinished (h : unfinished d.pool = true) :
    drain d = { d with
      pool := { d.pool with closed := true }
      drainWaiters := d.drainWaiters ++ [d.drains]
      drains := d.drains + 1 } := by
  simp [drain, close, maybeResolveDrain, h]

theorem drain_finished (h : unfinished d.pool = false) :
    drain d = { d with
      pool := { d.pool with closed := true }
      drainWaiters := []
      drains := d.drains + 1
      resolved := d.resolved ++ d.drainWaiters.map (fun k => (k, d.pool.results.entries)) ++
        [(d.drains, d.pool.results.entries)] } := by
  simp [drain, close, maybeResolveDrain, h]

theorem drain_pool (d : DrainingPool) : (drain d).pool = { d.pool with closed := true } := by
  cases hu : unfinished d.pool with
  | true => rw [drain_unfinished hu]
  | false => rw [drain_finished hu]

theorem drain_promises (h : PromiseInvariant d) : PromiseInvariant (drain d) := by
  have hclosed : (drain d).pool.closed = true := by rw [drain_pool]
  have hsame : unfinished (drain d).pool = unfinished d.pool := by
    rw [drain_pool, unfinished_closed]
  constructor
  case opened =>
    intro hopen
    rw [hclosed] at hopen
    cases hopen
  case waiting =>
    intro hu
    rw [hsame] at hu
    obtain ⟨hresolved, hwaiters⟩ := h.waiting hu
    rw [drain_unfinished hu]
    exact ⟨hresolved, by rw [hwaiters, List.range_succ]⟩
  case drained =>
    intro hu
    rw [hsame] at hu
    obtain ⟨hwaiters, hresolved, hentries⟩ := h.drained hu
    rw [drain_finished hu, hwaiters, List.map_nil, List.append_nil]
    refine ⟨rfl, ?_, ?_⟩
    · rw [List.map_append, hresolved, List.range_succ]
      rfl
    · intro e he
      rcases List.mem_append.mp he with he | he
      · exact hentries e he
      · rw [List.mem_singleton.mp he]

/-- The block that the step adds to the jobs. -/
def taken (d : DrainingPool) : Event → List WireBlock
  | .enqueue block => if d.pool.closed then [] else [block]
  | .finish _ => []
  | .drain => []

theorem next_invariant (h : Invariant C concurrency jobs finished d) (e : Event) :
    Invariant C concurrency (jobs ++ taken d e) (finished ++ ended d e) (next C d e) := by
  cases e with
  | enqueue block =>
    rw [ended, List.append_nil]
    cases hopen : d.pool.closed with
    | true =>
      have hpool : d.pool.enqueue block = d.pool := by rw [enqueue, hopen]; rfl
      rw [next, hpool, taken, hopen, if_pos rfl, List.append_nil]
      exact h
    | false =>
      rw [next, taken, hopen, if_neg Bool.false_ne_true]
      have hdrains := h.promises.opened hopen
      obtain ⟨hresolved, hwaiters⟩ := h.promises.none hdrains
      exact ⟨enqueue_pool h.pool hopen block, promises_none hdrains hresolved hwaiters⟩
  | finish job =>
    rw [next, taken, ended, List.append_nil]
    by_cases hmem : job ∈ d.pool.inFlight
    · rw [if_pos hmem, if_pos hmem]
      constructor
      case pool =>
        have hpool : (maybeResolveDrain { d with pool := d.pool.finish C job true }).pool =
            d.pool.finish C job true := by
          rw [maybeResolveDrain]
          split
          · rfl
          · split <;> rfl
        rw [hpool]
        exact finish_pool h.pool hmem
      case promises =>
        have hu : unfinished d.pool = true := by
          rw [unfinished_iff h.pool.jobs]
          exact List.append_ne_nil_of_left_ne_nil (List.ne_nil_of_mem hmem) _
        obtain ⟨hresolved, hwaiters⟩ := h.promises.waiting hu
        exact maybeResolveDrain_promises h.promises.opened hresolved hwaiters
    · rw [if_neg hmem, if_neg hmem, List.append_nil]
      exact h
  | drain =>
    refine ⟨?_, drain_promises h.promises⟩
    rw [taken, ended, List.append_nil, List.append_nil, next, drain_pool]
    exact close_pool h.pool

theorem next_closed (d : DrainingPool) (e : Event) :
    (next C d e).pool.closed = (d.pool.closed || decide (e = .drain)) := by
  cases e with
  | enqueue block =>
    rw [next, enqueue]
    cases hopen : d.pool.closed <;> simp [pump, hopen]
  | finish job =>
    rw [next, maybeResolveDrain]
    split
    · split
      · simp [finish, pump]
      · split <;> simp [finish, pump]
    · simp
  | drain =>
    rw [next, drain_pool]
    simp

theorem accepted_cons (d : DrainingPool) (e : Event) (events : List Event) :
    (if d.pool.closed then [] else accepted (e :: events)) =
      taken d e ++ if (next C d e).pool.closed then [] else accepted events := by
  rw [next_closed]
  cases e <;> cases hopen : d.pool.closed <;> simp [accepted, taken, hopen]

theorem run_invariant (h : Invariant C concurrency jobs finished d) (events : List Event) :
    Invariant C concurrency (jobs ++ if d.pool.closed then [] else accepted events)
      (finished ++ completed C d events) (exec (next C) d events) := by
  induction events generalizing d jobs finished with
  | nil => simpa [accepted, completed] using h
  | cons e rest ih =>
    rw [accepted_cons (C := C), completed, ← List.append_assoc, ← List.append_assoc]
    exact ih (next_invariant h e)

theorem new_invariant (C : Primitives) (concurrency : Nat) :
    Invariant C concurrency [] [] (new concurrency) where
  pool :=
    { jobs := accounted_new concurrency
      results := rfl
      limit := rfl
      bounded := Nat.zero_le _
      busy := fun h => absurd rfl h }
  promises := promises_none rfl rfl rfl

section

variable (h : Invariant C concurrency jobs finished d) (hdistinct : (jobs.map (·.token)).Nodup)

include h hdistinct

/-- The completed jobs and the ones that are left have different tokens. -/
theorem tokens_apart :
    (finished.map (·.token)).Nodup ∧ ∀ job ∈ finished, ∀ left ∈ d.pool.inFlight ++ d.pool.queue,
      job.token ≠ left.token := by
  have hperm := h.pool.jobs.jobs.map (·.token)
  have hall := hperm.nodup_iff.mpr hdistinct
  rw [List.map_append, List.nodup_append] at hall
  refine ⟨hall.1, fun job hjob left hleft => ?_⟩
  exact hall.2.2 _ (List.mem_map.mpr ⟨job, hjob, rfl⟩) _ (List.mem_map.mpr ⟨left, hleft, rfl⟩)

/-- The results are the hashes of the completed jobs. -/
theorem find_results (token blockHash : Str) :
    d.pool.results.find token = some blockHash ↔
      ∃ job ∈ finished, job.token = token ∧ computeBlockHashSha256 C job.data = blockHash := by
  have hkeys : ((finished.map (resultOf C)).map Prod.fst).Nodup := by
    rw [List.map_map]
    exact (tokens_apart h hdistinct).1
  rw [h.pool.results, Table.find_insertAll_nodup hkeys, List.mem_map]
  simp [resultOf]

/-- A job is completed or left, and not both. -/
theorem not_mem_finished_iff {job : WireBlock} (hjob : job ∈ jobs) :
    job ∉ finished ↔ job ∈ d.pool.inFlight ++ d.pool.queue := by
  constructor
  · intro hnot
    exact (List.mem_append.mp (h.pool.jobs.jobs.mem_iff.mpr hjob)).resolve_left hnot
  · intro hleft hdone
    exact (tokens_apart h hdistinct).2 job hdone job hleft rfl

theorem find_job {job : WireBlock} (hjob : job ∈ jobs) :
    d.pool.results.find job.token =
      if job ∈ finished then some (computeBlockHashSha256 C job.data) else none := by
  split
  case isTrue hdone => exact (find_results h hdistinct job.token _).mpr ⟨job, hdone, rfl, rfl⟩
  case isFalse hnot =>
    have hleft := (not_mem_finished_iff h hdistinct hjob).mp hnot
    rw [Option.eq_none_iff_forall_ne_some]
    intro blockHash hsome
    obtain ⟨other, hother, htoken, -⟩ := (find_results h hdistinct _ _).mp hsome
    exact (tokens_apart h hdistinct).2 other hother job hleft htoken

theorem exists_left_iff : (∃ job ∈ jobs, job ∉ finished) ↔ unfinished d.pool = true := by
  rw [unfinished_iff h.pool.jobs]
  constructor
  · rintro ⟨job, hjob, hnot⟩
    exact List.ne_nil_of_mem ((not_mem_finished_iff h hdistinct hjob).mp hnot)
  · intro hleft
    obtain ⟨job, hjob⟩ := List.exists_mem_of_ne_nil _ hleft
    have hmem : job ∈ jobs := h.pool.jobs.jobs.mem_iff.mp (List.mem_append_right _ hjob)
    exact ⟨job, hmem, (not_mem_finished_iff h hdistinct hmem).mpr hjob⟩

theorem entries_of_finished (hu : unfinished d.pool = false) :
    EntriesOf C jobs d.pool.results.entries where
  nodup := d.pool.results.nodup
  exact token blockHash := by
    have hleft : d.pool.inFlight ++ d.pool.queue = [] := by
      by_contra hne
      rw [(unfinished_iff h.pool.jobs).mpr hne] at hu
      cases hu
    have hperm := h.pool.jobs.jobs
    rw [hleft, List.append_nil] at hperm
    rw [← Table.find_eq_some, find_results h hdistinct]
    simp only [hperm.mem_iff]

theorem drainsExactly (hpos : 0 < concurrency) : DrainsExactly C concurrency jobs finished d where
  bounded := h.pool.bounded
  working hexists hnone := by
    have hu := (exists_left_iff h hdistinct).mp hexists
    rw [unfinished_iff h.pool.jobs, hnone, List.nil_append] at hu
    have hbusy := h.pool.busy hu
    rw [hnone, List.length_nil] at hbusy
    omega
  hashed _ hjob := find_job h hdistinct hjob
  waiting hexists := h.promises.waiting ((exists_left_iff h hdistinct).mp hexists)
  drained hall := by
    have hu : unfinished d.pool = false := by
      rw [← Bool.not_eq_true, ← exists_left_iff h hdistinct]
      rintro ⟨job, hjob, hnot⟩
      exact hnot (hall job hjob)
    obtain ⟨hwaiters, hresolved, -⟩ := h.promises.drained hu
    exact ⟨hwaiters, hresolved⟩
  entries e he := by
    cases hu : unfinished d.pool with
    | true =>
      rw [(h.promises.waiting hu).1] at he
      cases he
    | false =>
      rw [(h.promises.drained hu).2.2 e he]
      exact entries_of_finished h hdistinct hu

end

def blocksOf (uploads : Table Str Bytes) : List WireBlock := uploads.entries.map fun e => ⟨e.1, e.2⟩

/-- The blocks of the map are enqueued, then `drain` is called; the hashes complete as `completions`
has them. -/
def computeUploadBlockHashesParallel (C : Primitives) (concurrency : Nat) (uploads : Table Str Bytes)
    (completions : List WireBlock) : List (List (Str × Str)) :=
  (exec (next C) (new concurrency)
    ((blocksOf uploads).map .enqueue ++ .drain :: completions.map .finish)).resolved.map Prod.snd

theorem accepted_blocks (blocks : List WireBlock) (rest : List Event) :
    accepted (blocks.map .enqueue ++ .drain :: rest) = blocks := by
  induction blocks with
  | nil => rfl
  | cons block blocks ih => exact congrArg (block :: ·) ih

/-- What it returns with are the hashes of the map's blocks. -/
theorem computeUploadBlockHashesParallel_entries (C : Primitives) (concurrency : Nat)
    (hpos : 0 < concurrency) (uploads : Table Str Bytes) (completions : List WireBlock) :
    ∀ entries ∈ computeUploadBlockHashesParallel C concurrency uploads completions,
      EntriesOf C (blocksOf uploads) entries := by
  have h := run_invariant (new_invariant C concurrency)
    ((blocksOf uploads).map .enqueue ++ .drain :: completions.map .finish)
  have hjobs : ([] ++ if (new concurrency).pool.closed then [] else
      accepted ((blocksOf uploads).map .enqueue ++ .drain :: completions.map .finish)) =
      blocksOf uploads := accepted_blocks _ _
  rw [hjobs] at h
  have hdistinct : ((blocksOf uploads).map (·.token)).Nodup := by
    rw [blocksOf, List.map_map]
    exact uploads.nodup
  intro entries hentries
  obtain ⟨e, he, rfl⟩ := List.mem_map.mp hentries
  exact (drainsExactly h hdistinct hpos).entries e he

end TwelveC.Client.HashPoolDrain
