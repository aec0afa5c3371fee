import TwelveC.Client.PutPool
import TwelveC.Lib.Run

/-!
# The ramp of the first blocks

A worker of `uploadStripePrimaryBlocks` looks at the counters and counts its own
`PUT` only after an await. Between the two another worker may have looked at the
same counters: all workers do so at the start.
-/

namespace TwelveC.Client.Pool

open Lib.Run

variable {α : Type} (hasEndpoint : α → Bool) (policy : PutRetryPolicy) (maxConcurrency : Nat)

inductive StripeEvent where
  | slot (i : Nat)
  | take (i : Nat)
  | put (i : Nat) (outcome : Except PutError Unit)

/-- A step of a worker of `uploadStripePrimaryBlocks` with `rampConcurrency`. -/
def stripeNext (pool : Pool α) : StripeEvent → Pool α
  | .slot i => pool.slot maxConcurrency true i
  | .take i => pool.take hasEndpoint i
  | .put i outcome => pool.put policy .polling .failed i outcome

/-- The limit of the moment. -/
def rampLimit (pool : Pool α) : Nat :=
  resolveRampedStripeConcurrency pool.acknowledged.length maxConcurrency

/-- If the step starts a `PUT`, that one included no more are in flight than the ramp allows. -/
def StartsWithinRamp (pool : Pool α) (e : StripeEvent) : Prop :=
  pool.inFlight < (stripeNext hasEndpoint policy maxConcurrency pool e).inFlight →
    (stripeNext hasEndpoint policy maxConcurrency pool e).inFlight ≤
      rampLimit maxConcurrency (stripeNext hasEndpoint policy maxConcurrency pool e)

instance (pool : Pool α) (e : StripeEvent) :
    Decidable (StartsWithinRamp hasEndpoint policy maxConcurrency pool e) :=
  inferInstanceAs (Decidable (_ → _))

/-- Every schedule of the workers and of the ends of their `PUT`s keeps to the ramp. -/
def RampKept (jobs : List α) : Prop :=
  ∀ events, Along (stripeNext hasEndpoint policy maxConcurrency)
    (StartsWithinRamp hasEndpoint policy maxConcurrency) (new jobs maxConcurrency .polling) events

def Worker.isReady : Worker → Bool
  | .ready => true
  | _ => false

def Worker.isFailed : Worker → Bool
  | .failed => true
  | _ => false

/-- The workers that found a slot and have not counted their `PUT` yet. -/
def holding (pool : Pool α) : Nat := pool.workers.countP Worker.isReady

/-- A worker that finds a slot would also find one if those already found were counted. -/
def SlotCounted (pool : Pool α) (e : StripeEvent) : Prop :=
  ∀ i, e = .slot i → pool.workers[i]? = some .polling → pool.inFlight < rampLimit maxConcurrency pool →
    pool.holding + pool.inFlight < rampLimit maxConcurrency pool

variable {hasEndpoint policy maxConcurrency} {pool later : Pool α} {jobs : List α} {e : StripeEvent}

theorem countP_set_add {worker old : Worker} (P : Worker → Bool) {workers : List Worker} {i : Nat}
    (hold : workers[i]? = some old) :
    (workers.set i worker).countP P + (P old).toNat = workers.countP P + (P worker).toNat := by
  induction workers generalizing i with
  | nil => cases hold
  | cons other rest ih =>
    cases i with
    | zero =>
      cases hold
      simp only [List.set_cons_zero, List.countP_cons]
      cases P worker <;> cases P old <;> simp
    | succ i =>
      have hrest := ih (i := i) hold
      simp only [List.set_cons_succ, List.countP_cons]
      omega

/-- Of two kinds that exclude each other there are no more than workers. -/
theorem countP_add_countP_le {P Q : Worker → Bool} (h : ∀ worker, P worker = true → Q worker = false)
    (workers : List Worker) : workers.countP P + workers.countP Q ≤ workers.length := by
  induction workers with
  | nil => exact Nat.le_refl 0
  | cons other rest ih =>
    simp only [List.countP_cons, List.length_cons]
    cases hP : P other
    · cases Q other <;> simp <;> omega
    · rw [h other hP]
      simp
      omega

theorem rampLimit_mono (h : pool.acknowledged.length ≤ later.acknowledged.length) :
    rampLimit maxConcurrency pool ≤ rampLimit maxConcurrency later := by
  simp only [rampLimit, resolveRampedStripeConcurrency]
  split_ifs <;> omega

theorem rampLimit_pos (h : 0 < maxConcurrency) (pool : Pool α) :
    0 < rampLimit maxConcurrency pool := by
  simp only [rampLimit, resolveRampedStripeConcurrency]
  split_ifs <;> omega

/-- A worker goes to another place. -/
structure Moved (pool : Pool α) (old worker : Worker) (later : Pool α) : Prop where
  jobs : later.jobs = pool.jobs
  length : later.workers.length = pool.workers.length
  count : ∀ P : Worker → Bool,
    later.workers.countP P + (P old).toNat = pool.workers.countP P + (P worker).toNat

theorem moved_set {i : Nat} {old worker : Worker} (hold : pool.workers[i]? = some old)
    (hjobs : later.jobs = pool.jobs) (hworkers : later.workers = pool.workers.set i worker) :
    Moved pool old worker later where
  jobs := hjobs
  length := by rw [hworkers, List.length_set]
  count P := by rw [hworkers, countP_set_add P hold]

variable (hasEndpoint maxConcurrency) in
/-- All that can come of an event. -/
inductive StripeStep (pool : Pool α) (e : StripeEvent) (later : Pool α) : Prop where
  | stay (h : later = pool)
  | found (i : Nat) (he : e = .slot i) (hold : pool.workers[i]? = some .polling)
      (hfree : pool.inFlight < rampLimit maxConcurrency pool) (hmoved : Moved pool .polling .ready later)
      (hindex : later.nextIndex = pool.nextIndex) (hdone : later.acknowledged = pool.acknowledged)
  | returned (hmoved : Moved pool .ready .returned later) (hindex : later.nextIndex = pool.nextIndex)
      (hdone : later.acknowledged = pool.acknowledged)
  | started (job : α) (hjob : pool.jobs[pool.nextIndex]? = some job) (hendpoint : hasEndpoint job = true)
      (hmoved : Moved pool .ready (.putting pool.nextIndex 1) later)
      (hindex : later.nextIndex = pool.nextIndex + 1) (hdone : later.acknowledged = pool.acknowledged)
  | stranded (job : α) (hjob : pool.jobs[pool.nextIndex]? = some job) (hendpoint : hasEndpoint job = false)
      (hmoved : Moved pool .ready .failed later) (hindex : later.nextIndex = pool.nextIndex + 1)
      (hdone : later.acknowledged = pool.acknowledged)
  | completed (index attempt : Nat) (hmoved : Moved pool (.putting index attempt) .polling later)
      (hindex : later.nextIndex = pool.nextIndex)
      (hdone : later.acknowledged.length = pool.acknowledged.length + 1)
  | gaveUp (index attempt : Nat) (hmoved : Moved pool (.putting index attempt) .failed later)
      (hindex : later.nextIndex = pool.nextIndex) (hdone : later.acknowledged = pool.acknowledged)
  | again (index attempt : Nat)
      (hmoved : Moved pool (.putting index attempt) (.putting index (attempt + 1)) later)
      (hindex : later.nextIndex = pool.nextIndex) (hdone : later.acknowledged = pool.acknowledged)

variable (hasEndpoint policy maxConcurrency) in
theorem stripeNext_step (pool : Pool α) (e : StripeEvent) :
    StripeStep hasEndpoint maxConcurrency pool e
      (stripeNext hasEndpoint policy maxConcurrency pool e) := by
  cases e with
  | slot i =>
    rw [stripeNext, slot]
    split
    case isTrue hslot =>
      exact .found i rfl hslot.1 hslot.2 (moved_set hslot.1 rfl rfl) rfl rfl
    case isFalse => exact .stay rfl
  | take i =>
    rw [stripeNext, take]
    split
    case isFalse => exact .stay rfl
    case isTrue hready =>
      cases hjob : pool.jobs[pool.nextIndex]? with
      | none => exact .returned (moved_set hready rfl rfl) rfl rfl
      | some job =>
        cases hendpoint : hasEndpoint job with
        | true =>
          refine .started job hjob hendpoint (moved_set hready rfl ?_) rfl rfl
          simp [hendpoint]
        | false =>
          refine .stranded job hjob hendpoint (moved_set hready rfl ?_) rfl rfl
          simp [hendpoint]
  | put i outcome =>
    rw [stripeNext, put]
    split
    case h_2 => exact .stay rfl
    case h_1 index attempt hold =>
      split
      · exact .completed index attempt (moved_set hold rfl rfl) rfl List.length_append
      · exact .gaveUp index attempt (moved_set hold rfl rfl) rfl rfl
      · exact .again index attempt (moved_set hold rfl rfl) rfl rfl

/-- What a worker takes of the ramp, found slots included. -/
def slots : Worker → Nat
  | .ready => 1
  | .putting _ _ => 1
  | _ => 0

theorem Moved.slots {old worker : Worker} (h : Moved pool old worker later) :
    later.holding + later.inFlight + Pool.slots old =
      pool.holding + pool.inFlight + Pool.slots worker := by
  have hready := h.count Worker.isReady
  have hputting := h.count Worker.isPutting
  have hslots (w : Worker) : (Worker.isReady w).toNat + (Worker.isPutting w).toNat = Pool.slots w := by
    cases w <;> rfl
  rw [← hslots old, ← hslots worker]
  simp only [holding, inFlight]
  omega

variable (maxConcurrency) in
def WithinRamp (pool : Pool α) : Prop := pool.holding + pool.inFlight ≤ rampLimit maxConcurrency pool

theorem withinRamp_step (h : WithinRamp maxConcurrency pool)
    (hcounted : SlotCounted maxConcurrency pool e)
    (hstep : StripeStep hasEndpoint maxConcurrency pool e later) : WithinRamp maxConcurrency later := by
  rw [WithinRamp] at h ⊢
  have hsame (hdone : later.acknowledged = pool.acknowledged) :
      rampLimit maxConcurrency later = rampLimit maxConcurrency pool := by
    rw [rampLimit, hdone, rampLimit]
  cases hstep with
  | stay hstay =>
    rw [hstay]
    exact h
  | found i he hold hfree hmoved _ hdone =>
    have hroom := hcounted i he hold hfree
    have hslots : _ + 0 = _ + 1 := hmoved.slots
    rw [hsame hdone]
    omega
  | returned hmoved _ hdone =>
    have hslots : _ + 1 = _ + 0 := hmoved.slots
    rw [hsame hdone]
    omega
  | started job _ _ hmoved _ hdone =>
    have hslots : _ + 1 = _ + 1 := hmoved.slots
    rw [hsame hdone]
    omega
  | stranded job _ _ hmoved _ hdone =>
    have hslots : _ + 1 = _ + 0 := hmoved.slots
    rw [hsame hdone]
    omega
  | completed index attempt hmoved _ hdone =>
    have hslots : _ + 1 = _ + 0 := hmoved.slots
    have hmono : rampLimit maxConcurrency pool ≤ rampLimit maxConcurrency later :=
      rampLimit_mono (by omega)
    omega
  | gaveUp index attempt hmoved _ hdone =>
    have hslots : _ + 1 = _ + 0 := hmoved.slots
    rw [hsame hdone]
    omega
  | again index attempt hmoved _ hdone =>
    have hslots : _ + 1 = _ + 1 := hmoved.slots
    rw [hsame hdone]
    omega

theorem countP_new {P : Worker → Bool} (hP : P .polling = false) (jobs : List α)
    (maxConcurrency : Nat) : (new jobs maxConcurrency .polling).workers.countP P = 0 := by
  rw [new, List.countP_replicate, hP]
  rfl

theorem starts_of_counted (jobs : List α) {events : List StripeEvent}
    (h : Along (stripeNext hasEndpoint policy maxConcurrency) (SlotCounted maxConcurrency)
      (new jobs maxConcurrency .polling) events) :
    Along (stripeNext hasEndpoint policy maxConcurrency)
      (StartsWithinRamp hasEndpoint policy maxConcurrency) (new jobs maxConcurrency .polling)
      events := by
  have hnew : WithinRamp maxConcurrency (new jobs maxConcurrency .polling) := by
    rw [WithinRamp, holding, inFlight, countP_new rfl, countP_new rfl]
    exact Nat.zero_le _
  refine along_of_invariant (fun pool e hpool hcounted => ?_) hnew h
  have hnext := withinRamp_step hpool hcounted
    (stripeNext_step hasEndpoint policy maxConcurrency pool e)
  exact ⟨hnext, fun _ => (Nat.le_add_left _ _).trans hnext⟩

variable (hasEndpoint jobs maxConcurrency) in
/-- A job without an endpoint has ended its worker. -/
structure Thinned (pool : Pool α) : Prop where
  sameJobs : pool.jobs = jobs
  length : pool.workers.length = min maxConcurrency jobs.length
  failed : (jobs.take pool.nextIndex).countP (!hasEndpoint ·) ≤ pool.workers.countP Worker.isFailed
  inFlight : pool.inFlight ≤ (jobs.take pool.nextIndex).countP hasEndpoint

theorem countP_take_succ {P : α → Bool} {k : Nat} {job : α} (h : jobs[k]? = some job) :
    (jobs.take (k + 1)).countP P = (jobs.take k).countP P + (P job).toNat := by
  rw [List.take_add_one, h, List.countP_append]
  cases hP : P job <;> simp [hP]

theorem Moved.failed {old worker : Worker} (h : Moved pool old worker later) :
    later.workers.countP Worker.isFailed + (Worker.isFailed old).toNat =
      pool.workers.countP Worker.isFailed + (Worker.isFailed worker).toNat := h.count _

theorem Moved.putting {old worker : Worker} (h : Moved pool old worker later) :
    later.inFlight + (Worker.isPutting old).toNat = pool.inFlight + (Worker.isPutting worker).toNat :=
  h.count _

/-- A step that takes no job. -/
theorem thinned_untaken {old worker : Worker} (h : Thinned hasEndpoint maxConcurrency jobs pool)
    (hmoved : Moved pool old worker later) (hindex : later.nextIndex = pool.nextIndex)
    (hfailed : (Worker.isFailed old).toNat ≤ (Worker.isFailed worker).toNat)
    (hputting : (Worker.isPutting worker).toNat ≤ (Worker.isPutting old).toNat) :
    Thinned hasEndpoint maxConcurrency jobs later where
  sameJobs := hmoved.jobs.trans h.sameJobs
  length := hmoved.length.trans h.length
  failed := by
    have hcount := hmoved.failed
    have hbefore := h.failed
    rw [hindex]
    omega
  inFlight := by
    have hcount := hmoved.putting
    have hbefore := h.inFlight
    rw [hindex]
    omega

theorem thinned_step (h : Thinned hasEndpoint maxConcurrency jobs pool)
    (hstep : StripeStep hasEndpoint maxConcurrency pool e later) :
    Thinned hasEndpoint maxConcurrency jobs later := by
  have hfailed := h.failed
  have hflight := h.inFlight
  cases hstep with
  | stay hstay =>
    rw [hstay]
    exact h
  | found i _ _ _ hmoved hindex _ =>
    exact thinned_untaken h hmoved hindex (Nat.zero_le _) (Nat.zero_le _)
  | returned hmoved hindex _ =>
    exact thinned_untaken h hmoved hindex (Nat.zero_le _) (Nat.zero_le _)
  | started job hjob hendpoint hmoved hindex _ =>
    have hf : _ + 0 = _ + 0 := hmoved.failed
    have hp : _ + 0 = _ + 1 := hmoved.putting
    rw [h.sameJobs] at hjob
    refine ⟨hmoved.jobs.trans h.sameJobs, hmoved.length.trans h.length, ?_, ?_⟩
    · rw [hindex, countP_take_succ hjob, hendpoint]
      simp only [Bool.not_true, Bool.toNat_false]
      omega
    · rw [hindex, countP_take_succ hjob, hendpoint, Bool.toNat_true]
      omega
  | stranded job hjob hendpoint hmoved hindex _ =>
    have hf : _ + 0 = _ + 1 := hmoved.failed
    have hp : _ + 0 = _ + 0 := hmoved.putting
    rw [h.sameJobs] at hjob
    refine ⟨hmoved.jobs.trans h.sameJobs, hmoved.length.trans h.length, ?_, ?_⟩
    · rw [hindex, countP_take_succ hjob, hendpoint]
      simp only [Bool.not_false, Bool.toNat_true]
      omega
    · rw [hindex, countP_take_succ hjob, hendpoint, Bool.toNat_false]
      omega
  | completed index attempt hmoved hindex _ =>
    exact thinned_untaken h hmoved hindex (Nat.zero_le _) (Nat.zero_le _)
  | gaveUp index attempt hmoved hindex _ =>
    exact thinned_untaken h hmoved hindex (Nat.zero_le _) (Nat.zero_le _)
  | again index attempt hmoved hindex _ =>
    exact thinned_untaken h hmoved hindex (Nat.zero_le _) (Nat.le_refl _)

theorem thinned_new (hasEndpoint : α → Bool) (jobs : List α) :
    Thinned hasEndpoint maxConcurrency jobs (new jobs maxConcurrency .polling) where
  sameJobs := rfl
  length := List.length_replicate
  failed := Nat.zero_le _
  inFlight := by
    rw [inFlight, countP_new rfl]
    exact Nat.zero_le _

/-- With at most one endpoint among the jobs that the workers take first, no two `PUT`s meet. -/
theorem Thinned.inFlight_le (h : Thinned hasEndpoint maxConcurrency jobs pool)
    (hfew : (jobs.take maxConcurrency).countP hasEndpoint ≤ 1) : pool.inFlight ≤ 1 := by
  have hfailed := h.failed
  have hflight := h.inFlight
  rcases Nat.le_total pool.nextIndex maxConcurrency with hle | hge
  · have hsub : (jobs.take pool.nextIndex).countP hasEndpoint ≤
        (jobs.take maxConcurrency).countP hasEndpoint :=
      (List.take_sublist_take_left hle).countP_le
    omega
  · have hsub : (jobs.take maxConcurrency).countP (!hasEndpoint ·) ≤
        (jobs.take pool.nextIndex).countP (!hasEndpoint ·) :=
      (List.take_sublist_take_left hge).countP_le
    have hsplit := List.length_eq_countP_add_countP hasEndpoint (l := jobs.take maxConcurrency)
    have hexclude : pool.inFlight + pool.workers.countP Worker.isFailed ≤ pool.workers.length :=
      countP_add_countP_le (fun worker hworker => by cases worker <;> first | rfl | cases hworker) _
    rw [h.length] at hexclude
    rw [List.length_take] at hsplit
    have hnot : (jobs.take maxConcurrency).countP (fun job => decide ¬ hasEndpoint job = true) =
        (jobs.take maxConcurrency).countP (!hasEndpoint ·) := by
      congr 1
      funext job
      cases hasEndpoint job <;> rfl
    omega

theorem rampKept_of_few (hfew : (jobs.take maxConcurrency).countP hasEndpoint ≤ 1) :
    RampKept hasEndpoint policy maxConcurrency jobs := by
  intro events
  refine along_of_invariant (P := fun _ _ => True) (fun pool e hpool _ => ?_)
    (thinned_new hasEndpoint jobs) (along_of_forall (fun _ _ => trivial) _ events)
  have hnext := thinned_step hpool (stripeNext_step hasEndpoint policy maxConcurrency pool e)
  refine ⟨hnext, fun hstarts => ?_⟩
  have hone := hnext.inFlight_le hfew
  -- a worker is in flight, so there is one
  have hworkers : 0 < maxConcurrency := by
    have hle : (stripeNext hasEndpoint policy maxConcurrency pool e).inFlight ≤ _ :=
      List.countP_le_length
    rw [hnext.length] at hle
    omega
  have hlimit := rampLimit_pos hworkers (stripeNext hasEndpoint policy maxConcurrency pool e)
  omega

/-- All look at the counters, as they do in the call that makes them. -/
def firstLooks (n : Nat) : List StripeEvent := (List.range n).map .slot

/-- Then they go on, one after the other. -/
def firstTakes (n : Nat) : List StripeEvent := (List.range n).map .take

theorem firstTakes_succ (k : Nat) : firstTakes (k + 1) = firstTakes k ++ [.take k] := by
  rw [firstTakes, List.range_succ, List.map_append]
  rfl

variable (maxConcurrency jobs) in
/-- `k` workers have looked. -/
structure Looked (k : Nat) (pool : Pool α) : Prop where
  sameJobs : pool.jobs = jobs
  nextIndex : pool.nextIndex = 0
  acknowledged : pool.acknowledged = []
  inFlight : pool.inFlight = 0
  ready : ∀ i < k, pool.workers[i]? = some .ready
  polling : ∀ i, k ≤ i → i < min maxConcurrency jobs.length → pool.workers[i]? = some .polling

variable (hasEndpoint policy) in
theorem looked_succ {k : Nat} (hk : k < min maxConcurrency jobs.length)
    (h : Looked maxConcurrency jobs k pool) :
    Looked maxConcurrency jobs (k + 1) (stripeNext hasEndpoint policy maxConcurrency pool (.slot k)) := by
  have hpolling := h.polling k le_rfl hk
  have hfree : pool.inFlight < pool.slotLimit maxConcurrency true := by
    rw [h.inFlight]
    exact rampLimit_pos (by omega) pool
  have hslot : stripeNext hasEndpoint policy maxConcurrency pool (.slot k) =
      pool.setWorker k .ready := if_pos ⟨hpolling, hfree⟩
  have hmoved : Moved pool .polling .ready (pool.setWorker k .ready) := moved_set hpolling rfl rfl
  have hputting : _ + 0 = _ + 0 := hmoved.putting
  rw [hslot]
  refine ⟨h.sameJobs, h.nextIndex, h.acknowledged, hputting.trans h.inFlight, fun i hi => ?_,
    fun i hi hlt => ?_⟩
  · rcases Nat.lt_succ_iff_lt_or_eq.mp hi with hlt | rfl
    · exact setWorker_of_ne (Nat.ne_of_lt hlt) (h.ready i hlt)
    · exact setWorker_self hpolling
  · exact setWorker_of_ne (by omega) (h.polling i (by omega) hlt)

variable (hasEndpoint policy maxConcurrency jobs) in
theorem looked_all :
    Looked maxConcurrency jobs (min maxConcurrency jobs.length)
      (exec (stripeNext hasEndpoint policy maxConcurrency) (new jobs maxConcurrency .polling)
        (firstLooks (min maxConcurrency jobs.length))) := by
  have hall : ∀ k ≤ min maxConcurrency jobs.length, Looked maxConcurrency jobs k
      (exec (stripeNext hasEndpoint policy maxConcurrency) (new jobs maxConcurrency .polling)
        (firstLooks k)) := by
    intro k hk
    induction k with
    | zero =>
      refine ⟨rfl, rfl, rfl, ?_, fun i hi => absurd hi (Nat.not_lt_zero i), fun i _ hi => ?_⟩
      · exact countP_new rfl jobs maxConcurrency
      · exact List.getElem?_replicate_of_lt hi
    | succ k ih =>
      rw [firstLooks, List.range_succ, List.map_append, exec_append]
      exact looked_succ hasEndpoint policy hk (ih (by omega))
  exact hall _ le_rfl

variable (hasEndpoint maxConcurrency jobs) in
/-- `k` of the workers have taken their jobs. -/
structure Took (k : Nat) (pool : Pool α) : Prop where
  sameJobs : pool.jobs = jobs
  nextIndex : pool.nextIndex = k
  acknowledged : pool.acknowledged = []
  inFlight : pool.inFlight = (jobs.take k).countP hasEndpoint
  ready : ∀ i, k ≤ i → i < min maxConcurrency jobs.length → pool.workers[i]? = some .ready

variable (policy) in
theorem took_succ {k : Nat} (hk : k < min maxConcurrency jobs.length)
    (h : Took hasEndpoint maxConcurrency jobs k pool) :
    Took hasEndpoint maxConcurrency jobs (k + 1)
      (stripeNext hasEndpoint policy maxConcurrency pool (.take k)) := by
  have hready := h.ready k le_rfl hk
  obtain ⟨job, hjob⟩ : ∃ job, jobs[k]? = some job := ⟨_, List.getElem?_eq_getElem (by omega)⟩
  have htook : stripeNext hasEndpoint policy maxConcurrency pool (.take k) = { pool with
      nextIndex := pool.nextIndex + 1
      taken := pool.taken ++ [(k, pool.nextIndex)]
      workers := pool.workers.set k
        (if hasEndpoint job then .putting pool.nextIndex 1 else .failed)
      gaveUp := if hasEndpoint job then pool.gaveUp else pool.gaveUp ++ [job] } := by
    rw [stripeNext, take, if_pos hready, h.sameJobs, h.nextIndex, hjob]
  rw [htook]
  refine ⟨h.sameJobs, ?_, h.acknowledged, ?_, fun i hi hlt => ?_⟩
  · show pool.nextIndex + 1 = k + 1
    rw [h.nextIndex]
  · have hcount : (pool.workers.set k (if hasEndpoint job then .putting pool.nextIndex 1
        else .failed)).countP Worker.isPutting + 0 = pool.workers.countP Worker.isPutting + _ :=
      countP_set_add Worker.isPutting hready
    have hbefore : pool.workers.countP Worker.isPutting = _ := h.inFlight
    rw [countP_take_succ hjob, ← hbefore]
    refine hcount.trans (congrArg _ ?_)
    cases hasEndpoint job <;> rfl
  · exact setWorker_of_ne (by omega) (h.ready i (by omega) hlt)

/-- If the schedule in which all look first keeps to the ramp, there is no second endpoint. -/
theorem few_of_rampKept (h : RampKept hasEndpoint policy maxConcurrency jobs) :
    (jobs.take maxConcurrency).countP hasEndpoint ≤ 1 := by
  have hlooked := looked_all hasEndpoint policy maxConcurrency jobs
  obtain ⟨looks, hlooks⟩ : ∃ looks, firstLooks (min maxConcurrency jobs.length) = looks := ⟨_, rfl⟩
  rw [hlooks] at hlooked
  have hall : ∀ k ≤ min maxConcurrency jobs.length, Took hasEndpoint maxConcurrency jobs k
        (exec (stripeNext hasEndpoint policy maxConcurrency) (new jobs maxConcurrency .polling)
          (looks ++ firstTakes k)) ∧
      (jobs.take k).countP hasEndpoint ≤ 1 := by
    intro k hk
    induction k with
    | zero =>
      rw [firstTakes, List.range_zero, List.map_nil, List.append_nil]
      refine ⟨⟨hlooked.sameJobs, hlooked.nextIndex, hlooked.acknowledged, hlooked.inFlight,
        fun i _ hi => hlooked.ready i hi⟩, Nat.zero_le _⟩
    | succ k ih =>
      obtain ⟨htook, hone⟩ := ih (by omega)
      have hnext := took_succ policy hk htook
      have hrun := h (looks ++ firstTakes k ++ [.take k])
      rw [along_append] at hrun
      have hstarts := hrun.2.1
      rw [firstTakes_succ, ← List.append_assoc, exec_append]
      refine ⟨hnext, ?_⟩
      rw [StartsWithinRamp, htook.inFlight, hnext.inFlight] at hstarts
      have hlimit : rampLimit maxConcurrency (stripeNext hasEndpoint policy maxConcurrency
          (exec (stripeNext hasEndpoint policy maxConcurrency) (new jobs maxConcurrency .polling)
            (looks ++ firstTakes k)) (.take k)) ≤ 1 := by
        rw [rampLimit, hnext.acknowledged]
        exact Nat.min_le_right _ _
      omega
  rw [List.take_eq_take_min]
  exact (hall _ le_rfl).2

/-- Every schedule keeps to the ramp exactly if there is at most one endpoint among the jobs that the
workers take first. A run keeps to it if its checks count the slots already found. -/
theorem rampKept_iff (hasEndpoint : α → Bool) (policy : PutRetryPolicy) (maxConcurrency : Nat)
    (jobs : List α) :
    (RampKept hasEndpoint policy maxConcurrency jobs ↔
      (jobs.take maxConcurrency).countP hasEndpoint ≤ 1) ∧
    ∀ events, Along (stripeNext hasEndpoint policy maxConcurrency) (SlotCounted maxConcurrency)
        (new jobs maxConcurrency .polling) events →
      Along (stripeNext hasEndpoint policy maxConcurrency)
        (StartsWithinRamp hasEndpoint policy maxConcurrency) (new jobs maxConcurrency .polling) events :=
  ⟨⟨few_of_rampKept, rampKept_of_few⟩, fun _ => starts_of_counted jobs⟩

/-- Two blocks and a limit of six: both workers see that nothing is in flight. -/
theorem two_at_once : ¬ RampKept (fun _ : Nat => true) ⟨1, 1⟩ 6 [10, 20] := by
  intro h
  have hrun := h [.slot 0, .slot 1, .take 0, .take 1]
  revert hrun
  decide

end TwelveC.Client.Pool
