import TwelveC.Types
import TwelveC.Client.ReceiveTransport
import TwelveC.Lib.Run

/-!
# The GETs of the receive transport

`FetchReceiveTransport` with the entries that its pending map has had and with
its calls of `get`. Resolves, GETs, calls and cancellations come in any order;
for a token there is one call of `get` at a time.
-/

namespace TwelveC.Client

open Lib.Run

/-- The promise of an entry, with the body it was fulfilled with. -/
inductive GetPromise where
  | running
  | fulfilled (body : Bytes)
  | rejected (e : DownloadError)
  deriving DecidableEq, Repr

def GetPromise.state : GetPromise → GetState
  | .running => .running
  | .fulfilled _ => .fulfilled
  | .rejected e => .rejected e

/-- An entry that was set in `pending`, by the resolve `batch`. It has a GET unless its promise was
rejected from the start. -/
structure PendingGet where
  token : Nat
  batch : Nat
  aborted : Bool
  promise : GetPromise
  deriving DecidableEq, Repr

/-- Its GET is at the network and was not aborted. -/
def PendingGet.Outstanding (g : PendingGet) : Prop := g.promise = .running ∧ g.aborted = false

/-- Where a call of `get` is: at the top of its loop, at the await for the resolves, or at the await
for an entry. -/
inductive GetCall where
  | looping (registryAttempts relayAttempts : Nat)
  | ensured (waits : List Nat) (registryAttempts relayAttempts : Nat)
  | body (entry registryAttempts relayAttempts : Nat)
  deriving DecidableEq, Repr

/-- `gets` are all entries so far and `entry` says which one a token has in `pending`. `bodies` is
what calls have returned. -/
structure GetTransport where
  transport : ReceiveTransport
  gets : List PendingGet
  entry : Nat → Option Nat
  calls : Nat → Option GetCall
  bodies : List (Nat × Bytes)

structure GetLimits where
  resolveMaxAttempts : Nat
  getMaxAttempts : Nat
  deriving DecidableEq, Repr

namespace GetTransport

def new : GetTransport :=
  { transport := .new, gets := [], entry := fun _ => none, calls := fun _ => none, bodies := [] }

/-- The call returns the promise that a batch is waited for with. -/
def startConcurrentGet (t : GetTransport) (tokens : List Nat) : GetTransport :=
  { t with transport := (t.transport.ensureTokensStarted tokens).1 }

def cancelPending (t : GetTransport) (tokens : List Nat) : GetTransport :=
  { t with
    transport := t.transport.cancelPending tokens
    gets := t.gets.mapIdx fun i g =>
      if tokens.any (t.entry · = some i) then { g with aborted := true } else g
    entry := fun token => if token ∈ tokens then none else t.entry token }

/-- `pending.set(token, …)` -/
def setPending (t : GetTransport) (b : Batch) (token : Nat) (promise : GetPromise) : GetTransport :=
  { t with
    transport := { t.transport with
      pending := Function.update t.transport.pending token (some promise.state) }
    gets := t.gets ++ [⟨token, b.id, false, promise⟩]
    entry := Function.update t.entry token (some t.gets.length) }

/-- The body of the loops of `resolveAndStart`. -/
def setEntry (b : Batch) (promise : Nat → Option GetPromise) (t : GetTransport) (token : Nat) :
    GetTransport :=
  if t.transport.pending token ≠ none ∨ token ∈ t.transport.cancelledBeforeResolve then t
  else
    match promise token with
    | none => t
    | some p => t.setPending b token p

/-- What the loop makes of the answer: a started GET, or a rejected promise. -/
def promiseOf : ResolveOutcome → Nat → Option GetPromise
  | .endpoints found, token => if token ∈ found then some .running else none
  | .error .expired, _ => none
  | .error e, _ => some (.rejected e)

/-- The rest of `resolveAndStart`, once the registry has answered. -/
def resolveAndStart (t : GetTransport) (b : Batch) (outcome : ResolveOutcome) : GetTransport :=
  b.tokens.foldl (setEntry b (promiseOf outcome))
    { t with transport := t.transport.markReturned b.id (outcome == .error .expired) }

def settle (t : GetTransport) (b : Batch) : GetTransport :=
  { t with transport := t.transport.settle b }

def settled : Except DownloadError Bytes → GetPromise
  | .ok body => .fulfilled body
  | .error e => .rejected e

def setPromise (t : GetTransport) (i : Nat) (g : PendingGet) (promise : GetPromise) : GetTransport :=
  { t with
    gets := t.gets.set i { g with promise }
    transport :=
      if t.entry g.token = some i then t.transport.complete g.token promise.state else t.transport }

/-- The GET of an entry, its fallbacks included, is over. -/
def complete (t : GetTransport) (i : Nat) (result : Except DownloadError Bytes) : GetTransport :=
  match t.gets[i]? with
  | some g => if g.promise = .running then t.setPromise i g (settled result) else t
  | none => t

/-- `pending.delete(token)` -/
def forget (t : GetTransport) (token : Nat) : GetTransport :=
  { t with
    transport := t.transport.forget token
    entry := Function.update t.entry token none }

def setCall (t : GetTransport) (token : Nat) (call : Option GetCall) : GetTransport :=
  { t with calls := Function.update t.calls token call }

def get (t : GetTransport) (token : Nat) : GetTransport :=
  if t.calls token = none then t.setCall token (some (.looping 0 0)) else t

/-- The top of the loop. -/
def goLooping (t : GetTransport) (token registryAttempts relayAttempts : Nat) : GetTransport :=
  if token ∈ t.transport.cancelledBeforeResolve then t.setCall token none
  else
    (t.startConcurrentGet [token]).setCall token
      (some (.ensured (t.transport.ensureTokensStarted [token]).2 registryAttempts relayAttempts))

variable (o : GetLimits)

/-- After the await for the resolves. -/
def goEnsured (t : GetTransport) (token registryAttempts relayAttempts : Nat) : GetTransport :=
  if token ∈ t.transport.cancelledBeforeResolve then t.setCall token none
  else
    match t.entry token with
    | some i => t.setCall token (some (.body i registryAttempts relayAttempts))
    | none =>
      if o.resolveMaxAttempts ≤ registryAttempts + 1 then t.setCall token none
      else t.setCall token (some (.looping (registryAttempts + 1) relayAttempts))

/-- After the await for an entry. -/
def goBody (t : GetTransport) (token registryAttempts relayAttempts : Nat) :
    GetPromise → GetTransport
  | .running => t
  | .fulfilled body =>
    let t := t.forget token
    { t.setCall token none with
      transport := t.transport.uncancel token
      bodies := t.bodies ++ [(token, body)] }
  | .rejected e =>
    if e = .transient ∧ relayAttempts + 1 < o.getMaxAttempts then
      (t.forget token).setCall token (some (.looping registryAttempts (relayAttempts + 1)))
    else (t.forget token).setCall token none

/-- The call goes on to its next await, unless what it awaits is not there yet. A call that throws is
over. -/
def go (t : GetTransport) (token : Nat) : GetTransport :=
  match t.calls token with
  | none => t
  | some (.looping registryAttempts relayAttempts) =>
    t.goLooping token registryAttempts relayAttempts
  | some (.ensured waits registryAttempts relayAttempts) =>
    if t.transport.anyRejected waits then t.setCall token none
    else if t.transport.allSettled waits then t.goEnsured o token registryAttempts relayAttempts
    else t
  | some (.body i registryAttempts relayAttempts) =>
    match t.gets[i]? with
    | some g => t.goBody o token registryAttempts relayAttempts g.promise
    | none => t

inductive GetEvent where
  | startConcurrentGet (tokens : List Nat)
  | cancelPending (tokens : List Nat)
  | get (token : Nat)
  | go (token : Nat)
  | resolve (id : Nat) (outcome : ResolveOutcome)
  | settle (id : Nat)
  | complete (i : Nat) (result : Except DownloadError Bytes)

/-- A batch by its id, before or after its resolve. -/
def batch (t : GetTransport) (id : Nat) (returned : Bool) : Option Batch :=
  t.transport.inflight.find? fun b => b.id = id ∧ b.returned = returned

def next (t : GetTransport) : GetEvent → GetTransport
  | .startConcurrentGet tokens => t.startConcurrentGet tokens
  | .cancelPending tokens => t.cancelPending tokens
  | .get token => t.get token
  | .go token => t.go o token
  | .resolve id outcome =>
    match t.batch id false with
    | some b => t.resolveAndStart b outcome
    | none => t
  | .settle id =>
    match t.batch id true with
    | some b => t.settle b
    | none => t
  | .complete i result => t.complete i result

/-- The batches in flight have ids of their own and share no token. -/
structure Batches (t : ReceiveTransport) : Prop where
  fresh : ∀ b ∈ t.inflight, b.id < t.nextId
  apart : ∀ a ∈ t.inflight, ∀ b ∈ t.inflight,
    (a.id = b.id ∨ ∃ token ∈ a.tokens, token ∈ b.tokens) → a = b

/-- In a call of `get` for the token, the await for an entry. -/
def AtBody (t : GetTransport) (token i : Nat) : Prop :=
  ∃ registryAttempts relayAttempts, t.calls token = some (.body i registryAttempts relayAttempts)

structure Sound (t : GetTransport) : Prop where
  linked : ∀ token, t.transport.pending token =
    (t.entry token).bind fun i => (t.gets[i]?).map (·.promise.state)
  entry : ∀ token i, t.entry token = some i →
    ∃ g, t.gets[i]? = some g ∧ g.token = token ∧ g.aborted = false
  outstanding : ∀ (i : Nat) g, t.gets[i]? = some g → g.Outstanding → t.entry g.token = some i
  cancelled : ∀ token ∈ t.transport.cancelledBeforeResolve, t.entry token = none
  awaited : ∀ token i, t.AtBody token i → (∃ g, t.gets[i]? = some g ∧ g.token = token) ∧
    (t.entry token = some i ∨ token ∈ t.transport.cancelledBeforeResolve)
  bodies : ∀ p ∈ t.bodies, ∃ g ∈ t.gets, g.token = p.1 ∧ g.promise = .fulfilled p.2
  batches : Batches t.transport
  unresolved : ∀ b ∈ t.transport.inflight, b.returned = false → ∀ token ∈ b.tokens,
    t.entry token = none ∧ ∀ i, ¬ t.AtBody token i
  started : ∀ g ∈ t.gets, g.batch < t.transport.nextId ∧
    ∀ b ∈ t.transport.inflight, b.returned = false → g.batch ≠ b.id

variable {o} {t : GetTransport} {token : Nat} {b : Batch}

theorem sound_new : Sound new where
  linked _ := rfl
  entry _ _ h := nomatch h
  outstanding _ _ h := nomatch h
  cancelled _ _ := rfl
  awaited _ _ h := by
    obtain ⟨_, _, h⟩ := h
    cases h
  bodies _ h := nomatch h
  batches := {
    fresh := fun _ h => nomatch h
    apart := fun _ h => nomatch h }
  unresolved _ h := nomatch h
  started _ h := nomatch h

/-- `pending.has(token)` -/
theorem Sound.pending_eq_none (h : Sound t) : t.transport.pending token = none ↔ t.entry token = none := by
  rw [h.linked]
  cases hentry : t.entry token with
  | none => exact iff_of_true rfl rfl
  | some i =>
    obtain ⟨g, hg, -⟩ := h.entry token i hentry
    simp [hg]

/-- At most one GET for each token that was not aborted. -/
theorem Sound.single (h : Sound t) {i j : Nat} {g g' : PendingGet} (hi : t.gets[i]? = some g)
    (hj : t.gets[j]? = some g') (hg : g.Outstanding) (hg' : g'.Outstanding)
    (htoken : g.token = g'.token) : i = j := by
  have hentry := h.outstanding i g hi hg
  rw [htoken, h.outstanding j g' hj hg'] at hentry
  exact (Option.some.inj hentry).symm

theorem setCall_calls (t : GetTransport) (token other : Nat) (call : Option GetCall) :
    (t.setCall token call).calls other = if other = token then call else t.calls other :=
  Function.update_apply ..

/-- A call is set; only that one may come to an entry, and then as `hbody` says. -/
theorem sound_setCall (h : Sound t) {call : Option GetCall}
    (hbody : ∀ i r l, call = some (.body i r l) → t.entry token = some i) :
    Sound (t.setCall token call) := by
  have hat (other i : Nat) (hat : (t.setCall token call).AtBody other i) :
      t.AtBody other i ∨ (other = token ∧ t.entry token = some i) := by
    obtain ⟨r, l, hcall⟩ := hat
    rw [setCall_calls] at hcall
    split at hcall
    case isTrue hother => exact .inr ⟨hother, hbody i r l hcall⟩
    case isFalse => exact .inl ⟨r, l, hcall⟩
  refine ⟨h.linked, h.entry, h.outstanding, h.cancelled, fun other i hother => ?_, h.bodies, h.batches,
    fun b hb hreturned other hother => ⟨(h.unresolved b hb hreturned other hother).1, fun i hi => ?_⟩,
    h.started⟩
  · rcases hat other i hother with hbefore | ⟨rfl, hentry⟩
    · exact h.awaited other i hbefore
    · obtain ⟨g, hg, htoken, -⟩ := h.entry _ i hentry
      exact ⟨⟨g, hg, htoken⟩, .inl hentry⟩
  · obtain ⟨hnone, hnot⟩ := h.unresolved b hb hreturned other hother
    rcases hat other i hi with hbefore | ⟨rfl, hentry⟩
    · exact hnot i hbefore
    · rw [hnone] at hentry
      cases hentry

/-- The call ends or goes to another await. -/
theorem sound_leave (h : Sound t) {call : Option GetCall}
    (hcall : ∀ i r l, call ≠ some (.body i r l)) : Sound (t.setCall token call) :=
  sound_setCall h fun i r l hbody => absurd hbody (hcall i r l)

theorem mem_needed {t : ReceiveTransport} {tokens : List Nat} (h : token ∈ t.needed tokens) :
    t.pending token = none ∧ token ∉ t.cancelledBeforeResolve ∧
      ∀ b ∈ t.inflight, token ∉ b.tokens := by
  rw [ReceiveTransport.needed, List.mem_filter, decide_eq_true_eq] at h
  refine ⟨h.2.1, h.2.2.1, fun b hb htoken => ?_⟩
  have hnot := h.2.2.2
  rw [ReceiveTransport.inFlight, List.any_eq_false] at hnot
  exact hnot b hb (decide_eq_true htoken)

theorem sound_startConcurrentGet (h : Sound t) (tokens : List Nat) :
    Sound (t.startConcurrentGet tokens) := by
  rw [startConcurrentGet, ReceiveTransport.ensureTokensStarted]
  dsimp only
  split
  case isFalse => exact h
  case isTrue =>
    obtain ⟨batch, hbatch⟩ : ∃ batch : Batch,
      ⟨t.transport.nextId, t.transport.needed tokens, false, false⟩ = batch := ⟨_, rfl⟩
    have hid : batch.id = t.transport.nextId := by rw [← hbatch]
    have hneeded : ∀ token ∈ batch.tokens, t.transport.pending token = none ∧
        token ∉ t.transport.cancelledBeforeResolve ∧
        ∀ b ∈ t.transport.inflight, token ∉ b.tokens := by
      rw [← hbatch]
      exact fun token htoken => mem_needed htoken
    have hmem (b : Batch) (hb : b ∈ (t.transport.startBatch (t.transport.needed tokens)).inflight) :
        b ∈ t.transport.inflight ∨ b = batch := by
      rw [ReceiveTransport.startBatch, hbatch] at hb
      exact (List.mem_append.mp hb).imp_right List.mem_singleton.mp
    refine ⟨h.linked, h.entry, h.outstanding, h.cancelled, h.awaited, h.bodies, ⟨fun b hb => ?_,
      fun a ha b hb hshare => ?_⟩, fun b hb hreturned token htoken => ?_, fun g hg => ⟨?_, fun b hb hr => ?_⟩⟩
    · rcases hmem b hb with hb | rfl
      · exact Nat.lt_succ_of_lt (h.batches.fresh b hb)
      · rw [hid]
        exact Nat.lt_succ_self _
    · rcases hmem a ha with ha | rfl
      · rcases hmem b hb with hb | rfl
        · exact h.batches.apart a ha b hb hshare
        · rcases hshare with heq | ⟨token, hta, htb⟩
          · have hlt := h.batches.fresh a ha
            omega
          · exact absurd hta ((hneeded token htb).2.2 a ha)
      · rcases hmem b hb with hb | rfl
        · rcases hshare with heq | ⟨token, hta, htb⟩
          · have hlt := h.batches.fresh b hb
            omega
          · exact absurd htb ((hneeded token hta).2.2 b hb)
        · rfl
    · rcases hmem b hb with hb | rfl
      · exact h.unresolved b hb hreturned token htoken
      · obtain ⟨hnone, hcancelled, -⟩ := hneeded token htoken
        have hentry := h.pending_eq_none.mp hnone
        refine ⟨hentry, fun i hi => ?_⟩
        rcases (h.awaited token i hi).2 with hsome | hin
        · rw [hentry] at hsome
          cases hsome
        · exact hcancelled hin
    · exact Nat.lt_succ_of_lt (h.started g hg).1
    · rcases hmem b hb with hb | rfl
      · exact (h.started g hg).2 b hb hr
      · have hlt := (h.started g hg).1
        omega

/-- Less is in flight. -/
theorem sound_settle (h : Sound t) (b : Batch) : Sound (t.settle b) := by
  have hmem (other : Batch) (hother : other ∈ (t.transport.settle b).inflight) :
      other ∈ t.transport.inflight := List.mem_of_mem_filter hother
  exact ⟨h.linked, h.entry, h.outstanding, h.cancelled, h.awaited, h.bodies,
    ⟨fun b hb => h.batches.fresh b (hmem b hb),
      fun a ha b hb => h.batches.apart a (hmem a ha) b (hmem b hb)⟩,
    fun b hb => h.unresolved b (hmem b hb),
    fun g hg => ⟨(h.started g hg).1, fun b hb => (h.started g hg).2 b (hmem b hb)⟩⟩

theorem getElem?_cancelPending (t : GetTransport) (tokens : List Nat) (i : Nat) :
    (t.cancelPending tokens).gets[i]? = (t.gets[i]?).map fun g =>
      if tokens.any (t.entry · = some i) then { g with aborted := true } else g :=
  List.getElem?_mapIdx

/-- An entry is the same one but for its abort. -/
theorem get_of_cancelPending {tokens : List Nat} {i : Nat} {g : PendingGet}
    (hg : (t.cancelPending tokens).gets[i]? = some g) : ∃ before, t.gets[i]? = some before ∧
      before.token = g.token ∧ before.batch = g.batch ∧ before.promise = g.promise ∧
      (g.aborted = false → before = g ∧ ∀ token ∈ tokens, t.entry token ≠ some i) := by
  rw [getElem?_cancelPending, Option.map_eq_some_iff] at hg
  obtain ⟨before, hbefore, rfl⟩ := hg
  refine ⟨before, hbefore, ?_⟩
  split
  case isTrue => exact ⟨rfl, rfl, rfl, fun h => nomatch h⟩
  case isFalse hany =>
    refine ⟨rfl, rfl, rfl, fun _ => ⟨rfl, fun token htoken hentry => hany ?_⟩⟩
    exact List.any_eq_true.mpr ⟨token, htoken, decide_eq_true hentry⟩

theorem get_cancelPending (tokens : List Nat) {i : Nat} {g : PendingGet} (hg : t.gets[i]? = some g) :
    ∃ after, (t.cancelPending tokens).gets[i]? = some after ∧ after.token = g.token ∧
      after.promise = g.promise ∧ ((∀ token ∈ tokens, t.entry token ≠ some i) → after = g) := by
  rw [getElem?_cancelPending, hg]
  refine ⟨_, rfl, ?_⟩
  split
  case isTrue hany =>
    obtain ⟨token, htoken, hentry⟩ := List.any_eq_true.mp hany
    exact ⟨rfl, rfl, fun hnone => absurd (of_decide_eq_true hentry) (hnone token htoken)⟩
  case isFalse => exact ⟨rfl, rfl, fun _ => rfl⟩

/-- Two tokens have no entry in common. -/
theorem Sound.entry_inj (h : Sound t) {other i : Nat} (htoken : t.entry token = some i)
    (hother : t.entry other = some i) : token = other := by
  obtain ⟨g, hg, rfl, -⟩ := h.entry token i htoken
  obtain ⟨g', hg', rfl, -⟩ := h.entry other i hother
  rw [hg] at hg'
  rw [Option.some.inj hg']

theorem entry_cancelPending (t : GetTransport) (tokens : List Nat) (token : Nat) :
    (t.cancelPending tokens).entry token = if token ∈ tokens then none else t.entry token := rfl

theorem mem_cancelled_cancelPending {tokens : List Nat} :
    token ∈ (t.cancelPending tokens).transport.cancelledBeforeResolve ↔
      token ∈ t.transport.cancelledBeforeResolve ∨ token ∈ tokens := by
  rw [← List.mem_toFinset, ← Finset.mem_union]
  rfl

theorem sound_cancelPending (h : Sound t) (tokens : List Nat) : Sound (t.cancelPending tokens) where
  linked token := by
    have hpending : (t.cancelPending tokens).transport.pending token =
      if token ∈ tokens then none else t.transport.pending token := rfl
    rw [hpending, entry_cancelPending]
    split
    case isTrue => rfl
    case isFalse =>
      rw [h.linked]
      refine Option.bind_congr fun i hi => ?_
      obtain ⟨g, hg, -⟩ := h.entry token i hi
      obtain ⟨after, hafter, -, hpromise, -⟩ := get_cancelPending tokens hg
      rw [hg, hafter, Option.map_some, Option.map_some, hpromise]
  entry token i hi := by
    rw [entry_cancelPending] at hi
    split at hi
    case isTrue => cases hi
    case isFalse hnot =>
      obtain ⟨g, hg, htoken, haborted⟩ := h.entry token i hi
      obtain ⟨after, hafter, -, -, hsame⟩ := get_cancelPending tokens hg
      have hothers : ∀ other ∈ tokens, t.entry other ≠ some i := by
        intro other hother hentry
        exact hnot (h.entry_inj hi hentry ▸ hother)
      rw [hsame hothers] at hafter
      exact ⟨g, hafter, htoken, haborted⟩
  outstanding i g hg hout := by
    obtain ⟨before, hbefore, -, -, -, hsame⟩ := get_of_cancelPending hg
    obtain ⟨rfl, hothers⟩ := hsame hout.2
    have hentry := h.outstanding i before hbefore hout
    rw [entry_cancelPending, if_neg fun hin => hothers _ hin hentry]
    exact hentry
  cancelled token hin := by
    rw [entry_cancelPending]
    split
    case isTrue => rfl
    case isFalse hnot => exact h.cancelled token ((mem_cancelled_cancelPending.mp hin).resolve_right hnot)
  awaited token i hat := by
    obtain ⟨⟨g, hg, htoken⟩, hor⟩ := h.awaited token i hat
    obtain ⟨after, hafter, hsame, -⟩ := get_cancelPending tokens hg
    refine ⟨⟨after, hafter, hsame.trans htoken⟩, ?_⟩
    by_cases hin : token ∈ tokens
    · exact .inr (mem_cancelled_cancelPending.mpr (.inr hin))
    · rw [entry_cancelPending, if_neg hin, mem_cancelled_cancelPending]
      exact hor.imp_right .inl
  bodies p hp := by
    obtain ⟨g, hg, htoken, hpromise⟩ := h.bodies p hp
    obtain ⟨i, hi⟩ := List.mem_iff_getElem?.mp hg
    obtain ⟨after, hafter, hsame, hsamePromise, -⟩ := get_cancelPending tokens hi
    exact ⟨after, List.mem_of_getElem? hafter, hsame.trans htoken, hsamePromise.trans hpromise⟩
  batches := ⟨h.batches.fresh, h.batches.apart⟩
  unresolved b hb hreturned token htoken := by
    obtain ⟨hnone, hnot⟩ := h.unresolved b hb hreturned token htoken
    refine ⟨?_, hnot⟩
    rw [entry_cancelPending, hnone, ite_self]
  started g hg := by
    obtain ⟨i, hi⟩ := List.mem_iff_getElem?.mp hg
    obtain ⟨before, hbefore, -, hbatch, -⟩ := get_of_cancelPending hi
    rw [← hbatch]
    exact h.started before (List.mem_of_getElem? hbefore)

theorem entry_setPending (t : GetTransport) (b : Batch) (token : Nat) (p : GetPromise) (other : Nat) :
    (t.setPending b token p).entry other =
      if other = token then some t.gets.length else t.entry other := Function.update_apply ..

theorem get_setPending (b : Batch) (token : Nat) (p : GetPromise) {i : Nat} {g : PendingGet}
    (hg : t.gets[i]? = some g) : (t.setPending b token p).gets[i]? = some g := by
  rw [setPending, List.getElem?_append_left (List.getElem?_eq_some_iff.mp hg).1]
  exact hg

theorem get_setPending_new (t : GetTransport) (b : Batch) (token : Nat) (p : GetPromise) :
    (t.setPending b token p).gets[t.gets.length]? = some ⟨token, b.id, false, p⟩ :=
  List.getElem?_concat_length

theorem get_of_setPending {p : GetPromise} {i : Nat} {g : PendingGet}
    (hg : (t.setPending b token p).gets[i]? = some g) :
    t.gets[i]? = some g ∨ (i = t.gets.length ∧ g = ⟨token, b.id, false, p⟩) := by
  rw [setPending, List.getElem?_append] at hg
  split at hg
  case isTrue => exact .inl hg
  case isFalse hge =>
    obtain ⟨hlt, hget⟩ := List.getElem?_eq_some_iff.mp hg
    have hi : i = t.gets.length := by
      rw [List.length_singleton] at hlt
      omega
    rw [hi, Nat.sub_self] at hg
    exact .inr ⟨hi, (Option.some.inj hg).symm⟩

/-- A batch after its resolve sets an entry for a token that has none and is not cancelled. -/
theorem sound_setPending (h : Sound t) (p : GetPromise) (hnone : t.entry token = none)
    (hcancelled : token ∉ t.transport.cancelledBeforeResolve) (hid : b.id < t.transport.nextId)
    (hothers : ∀ a ∈ t.transport.inflight, a.returned = false → token ∉ a.tokens ∧ b.id ≠ a.id) :
    Sound (t.setPending b token p) := by
  have hbody (i : Nat) : ¬ t.AtBody token i := by
    intro hat
    rcases (h.awaited token i hat).2 with hsome | hin
    · rw [hnone] at hsome
      cases hsome
    · exact hcancelled hin
  have hkept (other : Nat) (hother : other ≠ token) :
      (t.setPending b token p).entry other = t.entry other := by
    rw [entry_setPending, if_neg hother]
  refine ⟨fun other => ?_, fun other i hi => ?_, fun i g hg hout => ?_, fun other hin => ?_,
    fun other i hat => ?_, fun q hq => ?_, ⟨h.batches.fresh, h.batches.apart⟩,
    fun a ha hreturned other hother => ?_, fun g hg => ?_⟩
  · have hpending : (t.setPending b token p).transport.pending other =
      if other = token then some p.state else t.transport.pending other := Function.update_apply ..
    rw [hpending, entry_setPending]
    split
    case isTrue => rw [Option.bind_some, get_setPending_new, Option.map_some]
    case isFalse =>
      rw [h.linked]
      refine Option.bind_congr fun i hi => ?_
      obtain ⟨g, hg, -⟩ := h.entry other i hi
      rw [hg, get_setPending b token p hg]
  · rw [entry_setPending] at hi
    split at hi
    case isTrue hother =>
      cases hi
      exact ⟨_, get_setPending_new t b token p, hother.symm, rfl⟩
    case isFalse =>
      obtain ⟨g, hg, hrest⟩ := h.entry other i hi
      exact ⟨g, get_setPending b token p hg, hrest⟩
  · rcases get_of_setPending hg with hg | ⟨rfl, rfl⟩
    · have hentry := h.outstanding i g hg hout
      have hother : g.token ≠ token := by
        intro heq
        rw [heq, hnone] at hentry
        cases hentry
      rw [hkept g.token hother]
      exact hentry
    · rw [entry_setPending, if_pos rfl]
  · rw [hkept other fun heq => hcancelled (heq ▸ hin)]
    exact h.cancelled other hin
  · obtain ⟨⟨g, hg, htoken⟩, hor⟩ := h.awaited other i hat
    refine ⟨⟨g, get_setPending b token p hg, htoken⟩, ?_⟩
    rw [hkept other fun heq => hbody i (heq ▸ hat)]
    exact hor
  · obtain ⟨g, hg, hrest⟩ := h.bodies q hq
    exact ⟨g, List.mem_append_left _ hg, hrest⟩
  · obtain ⟨hother', hnot⟩ := h.unresolved a ha hreturned other hother
    refine ⟨?_, hnot⟩
    rw [hkept other fun heq => (hothers a ha hreturned).1 (heq ▸ hother)]
    exact hother'
  · rcases List.mem_append.mp hg with hg | hg
    · exact h.started g hg
    · rw [List.mem_singleton.mp hg]
      exact ⟨hid, fun a ha hreturned => (hothers a ha hreturned).2⟩

/-- No batch before its resolve has the token or the id of the batch. -/
theorem sound_setEntry (h : Sound t) (promise : Nat → Option GetPromise) (token : Nat)
    (hid : b.id < t.transport.nextId)
    (hothers : ∀ a ∈ t.transport.inflight, a.returned = false → token ∉ a.tokens ∧ b.id ≠ a.id) :
    Sound (setEntry b promise t token) := by
  rw [setEntry]
  split
  case isTrue => exact h
  case isFalse hset =>
    obtain ⟨hpending, hcancelled⟩ := not_or.mp hset
    have hnone := h.pending_eq_none.mp (not_not.mp hpending)
    split
    case h_1 => exact h
    case h_2 p hp => exact sound_setPending h p hnone hcancelled hid hothers

theorem setEntry_frame (promise : Nat → Option GetPromise) (t : GetTransport) (token : Nat) :
    (setEntry b promise t token).transport.inflight = t.transport.inflight ∧
      (setEntry b promise t token).transport.nextId = t.transport.nextId ∧
      (setEntry b promise t token).transport.cancelledBeforeResolve =
        t.transport.cancelledBeforeResolve := by
  rw [setEntry]
  split
  · exact ⟨rfl, rfl, rfl⟩
  · split <;> exact ⟨rfl, rfl, rfl⟩

theorem sound_setEntries (promise : Nat → Option GetPromise) (tokens : List Nat) (h : Sound t)
    (hid : b.id < t.transport.nextId)
    (hothers : ∀ a ∈ t.transport.inflight, a.returned = false →
      (∀ token ∈ tokens, token ∉ a.tokens) ∧ b.id ≠ a.id) :
    Sound (tokens.foldl (setEntry b promise) t) := by
  induction tokens generalizing t with
  | nil => exact h
  | cons token tokens ih =>
    obtain ⟨hinflight, hnext, -⟩ := setEntry_frame (b := b) promise t token
    rw [List.foldl_cons]
    refine ih (sound_setEntry h promise token hid fun a ha hreturned => ?_) ?_ ?_
    · obtain ⟨htokens, hne⟩ := hothers a ha hreturned
      exact ⟨htokens token List.mem_cons_self, hne⟩
    · rw [hnext]
      exact hid
    · rw [hinflight]
      intro a ha hreturned
      obtain ⟨htokens, hne⟩ := hothers a ha hreturned
      exact ⟨fun other hother => htokens other (List.mem_cons_of_mem _ hother), hne⟩

theorem setPending_cons (t : ReceiveTransport) (token : Nat) (tokens : List Nat)
    (promise : Nat → Option GetState) : t.setPending (token :: tokens) promise =
      (t.setPending [token] promise).setPending tokens promise := by
  rw [ReceiveTransport.setPending, ReceiveTransport.setPending, ReceiveTransport.setPending]
  congr 1
  funext other
  by_cases hother : other = token
  · by_cases hset : t.pending other = none ∧ other ∉ t.cancelledBeforeResolve
    · simp [hother ▸ hset, hother]
    · grind
  · simp [hother]

theorem transport_setEntry (promise : Nat → Option GetPromise) (t : GetTransport) (token : Nat) :
    (setEntry b promise t token).transport =
      t.transport.setPending [token] fun other => (promise other).map GetPromise.state := by
  have hpending (pending : Nat → Option GetState)
      (h : ∀ other, pending other =
        if other ∈ [token] ∧ t.transport.pending other = none ∧
            other ∉ t.transport.cancelledBeforeResolve then (promise other).map GetPromise.state
        else t.transport.pending other) :
      { t.transport with pending } =
        t.transport.setPending [token] fun other => (promise other).map GetPromise.state := by
    rw [ReceiveTransport.setPending, funext h]
  rw [setEntry]
  split
  case isTrue hset =>
    refine hpending t.transport.pending fun other => (if_neg ?_).symm
    rintro ⟨hother, hnone, hcancelled⟩
    rw [List.mem_singleton] at hother
    subst hother
    exact hset.elim (fun h => h hnone) hcancelled
  case isFalse hset =>
    obtain ⟨hnone, hcancelled⟩ := not_or.mp hset
    rw [not_not] at hnone
    split
    case h_1 hp =>
      refine hpending t.transport.pending fun other => ?_
      split
      case isTrue hother =>
        rw [List.mem_singleton.mp hother.1, hp, hnone, Option.map_none]
      case isFalse => rfl
    case h_2 p hp =>
      refine hpending (Function.update t.transport.pending token (some p.state)) fun other => ?_
      rw [Function.update_apply]
      split
      case isTrue hother =>
        rw [hother, if_pos ⟨List.mem_singleton_self token, hnone, hcancelled⟩, hp, Option.map_some]
      case isFalse hother => rw [if_neg fun h => hother (List.mem_singleton.mp h.1)]

/-- The resolves are those of the receive transport. -/
theorem transport_resolveAndStart (t : GetTransport) (b : Batch) (outcome : ResolveOutcome) :
    (t.resolveAndStart b outcome).transport = t.transport.resolveAndStart b outcome := by
  have hfold (promise : Nat → Option GetPromise) (tokens : List Nat) (t : GetTransport) :
      (tokens.foldl (setEntry b promise) t).transport =
        t.transport.setPending tokens fun other => (promise other).map GetPromise.state := by
    induction tokens generalizing t with
    | nil => simp [ReceiveTransport.setPending]
    | cons token tokens ih => rw [List.foldl_cons, ih, transport_setEntry, ← setPending_cons]
  rw [resolveAndStart, hfold]
  cases outcome with
  | endpoints found =>
    have hstate (other : Nat) : (promiseOf (.endpoints found) other).map GetPromise.state =
        if other ∈ found then some .running else none := by
      rw [promiseOf]
      split <;> rfl
    rw [funext hstate]
    rfl
  | error e =>
    cases e with
    | expired =>
      have hkept (t : ReceiveTransport) : t.setPending b.tokens (fun _ => none) = t := by
        have hpending : (t.setPending b.tokens fun _ => none).pending = t.pending := by
          funext other
          rw [ReceiveTransport.setPending]
          dsimp only
          split
          case isTrue h => exact h.2.1.symm
          case isFalse => rfl
        exact congrArg (fun pending => { t with pending }) hpending
      exact hkept _
    | transient => rfl
    | other => rfl
/-- The batch with the id has returned; the others are as they were. -/
theorem mem_markReturned {t : ReceiveTransport} {id : Nat} {rejected : Bool} {a : Batch}
    (ha : a ∈ (t.markReturned id rejected).inflight) : ∃ before ∈ t.inflight, before.id = a.id ∧
      before.tokens = a.tokens ∧ (a.returned = false → a.id ≠ id ∧ before = a) := by
  obtain ⟨before, hbefore, rfl⟩ := List.mem_map.mp ha
  refine ⟨before, hbefore, ?_⟩
  split
  case isTrue => exact ⟨rfl, rfl, fun h => nomatch h⟩
  case isFalse hid => exact ⟨rfl, rfl, fun _ => ⟨hid, rfl⟩⟩

theorem sound_markReturned (h : Sound t) (id : Nat) (rejected : Bool) :
    Sound { t with transport := t.transport.markReturned id rejected } where
  linked := h.linked
  entry := h.entry
  outstanding := h.outstanding
  cancelled := h.cancelled
  awaited := h.awaited
  bodies := h.bodies
  batches := by
    refine ⟨fun a ha => ?_, fun a ha c hc hshare => ?_⟩
    · obtain ⟨before, hbefore, hid, -⟩ := mem_markReturned ha
      rw [← hid]
      exact h.batches.fresh before hbefore
    · obtain ⟨a', ha', rfl⟩ := List.mem_map.mp ha
      obtain ⟨c', hc', rfl⟩ := List.mem_map.mp hc
      have hsame : a' = c' := by
        refine h.batches.apart a' ha' c' hc' ?_
        split at hshare <;> split at hshare <;> exact hshare
      rw [hsame]
  unresolved a ha hreturned := by
    obtain ⟨before, hbefore, -, -, hsame⟩ := mem_markReturned ha
    obtain ⟨-, rfl⟩ := hsame hreturned
    exact h.unresolved before hbefore hreturned
  started g hg := by
    refine ⟨(h.started g hg).1, fun a ha hreturned => ?_⟩
    obtain ⟨before, hbefore, -, -, hsame⟩ := mem_markReturned ha
    obtain ⟨-, rfl⟩ := hsame hreturned
    exact (h.started g hg).2 before hbefore hreturned

theorem sound_resolveAndStart (h : Sound t) (hb : b ∈ t.transport.inflight) (outcome : ResolveOutcome) :
    Sound (t.resolveAndStart b outcome) := by
  refine sound_setEntries _ b.tokens (sound_markReturned h ..) (h.batches.fresh b hb) fun a ha hr => ?_
  obtain ⟨before, hbefore, -, -, hsame⟩ := mem_markReturned ha
  obtain ⟨hid, rfl⟩ := hsame hr
  refine ⟨fun token htoken hin => hid ?_, Ne.symm hid⟩
  rw [h.batches.apart b hb before hbefore (.inr ⟨token, htoken, hin⟩)]

theorem settled_ne_running (result : Except DownloadError Bytes) : settled result ≠ .running := by
  cases result <;> exact fun h => nomatch h

theorem get_setPromise {g : PendingGet} {i : Nat} (p : GetPromise) (hg : t.gets[i]? = some g) (j : Nat) :
    (t.setPromise i g p).gets[j]? = if i = j then some { g with promise := p } else t.gets[j]? := by
  rw [setPromise, List.getElem?_set, if_pos (List.getElem?_eq_some_iff.mp hg).1]

theorem pending_setPromise (t : GetTransport) (i : Nat) (g : PendingGet) (p : GetPromise) (token : Nat) :
    (t.setPromise i g p).transport.pending token =
      if t.entry g.token = some i ∧ token = g.token then some p.state else t.transport.pending token := by
  rw [setPromise]
  dsimp only
  split
  case isTrue hentry =>
    have hupdate : (t.transport.complete g.token p.state).pending token =
      if token = g.token then some p.state else t.transport.pending token := Function.update_apply ..
    rw [hupdate]
    exact if_congr (iff_and_self.mpr fun _ => hentry) rfl rfl
  case isFalse hentry => rw [if_neg fun h => hentry h.1]

theorem setPromise_frame (t : GetTransport) (i : Nat) (g : PendingGet) (p : GetPromise) :
    (t.setPromise i g p).transport.inflight = t.transport.inflight ∧
      (t.setPromise i g p).transport.nextId = t.transport.nextId ∧
      (t.setPromise i g p).transport.cancelledBeforeResolve = t.transport.cancelledBeforeResolve := by
  rw [setPromise]
  dsimp only
  split <;> exact ⟨rfl, rfl, rfl⟩

theorem sound_setPromise (h : Sound t) {i : Nat} {g : PendingGet} {p : GetPromise}
    (hg : t.gets[i]? = some g) (hrunning : g.promise = .running) (hp : p ≠ .running) :
    Sound (t.setPromise i g p) := by
  obtain ⟨hinflight, hnext, hcancelled⟩ := setPromise_frame t i g p
  have hafter (j : Nat) (before : PendingGet) (hbefore : t.gets[j]? = some before) :
      ∃ after, (t.setPromise i g p).gets[j]? = some after ∧ after.token = before.token ∧
        after.aborted = before.aborted ∧ (before.promise ≠ .running → after = before) := by
    rw [get_setPromise p hg]
    split
    case isTrue hij =>
      rw [← hij, hg] at hbefore
      cases hbefore
      exact ⟨_, rfl, rfl, rfl, fun hnot => absurd hrunning hnot⟩
    case isFalse => exact ⟨before, hbefore, rfl, rfl, fun _ => rfl⟩
  refine ⟨fun token => ?_, fun token j hj => ?_, fun j g' hg' hout => ?_, fun token hin => ?_,
    fun token j hat => ?_, fun q hq => ?_, ⟨?_, ?_⟩, ?_, fun g' hg' => ?_⟩
  · show _ = (t.entry token).bind _
    rw [pending_setPromise]
    split
    case isTrue htoken =>
      rw [htoken.2, htoken.1, Option.bind_some, get_setPromise p hg, if_pos rfl, Option.map_some]
    case isFalse htoken =>
      rw [h.linked]
      refine Option.bind_congr fun j hj => ?_
      rw [get_setPromise p hg, if_neg]
      rintro rfl
      obtain ⟨g', hg', htoken', -⟩ := h.entry token i hj
      rw [hg] at hg'
      cases hg'
      exact htoken ⟨htoken' ▸ hj, htoken'.symm⟩
  · obtain ⟨before, hbefore, htoken, haborted⟩ := h.entry token j hj
    obtain ⟨after, hget, hsame, habort, -⟩ := hafter j before hbefore
    exact ⟨after, hget, hsame.trans htoken, habort.trans haborted⟩
  · rw [get_setPromise p hg] at hg'
    split at hg'
    case isTrue =>
      cases hg'
      exact absurd hout.1 hp
    case isFalse => exact h.outstanding j g' hg' hout
  · rw [hcancelled] at hin
    exact h.cancelled token hin
  · obtain ⟨⟨before, hbefore, htoken⟩, hor⟩ := h.awaited token j hat
    obtain ⟨after, hget, hsame, -⟩ := hafter j before hbefore
    rw [hcancelled]
    exact ⟨⟨after, hget, hsame.trans htoken⟩, hor⟩
  · obtain ⟨before, hmem, htoken, hbody⟩ := h.bodies q hq
    obtain ⟨j, hj⟩ := List.mem_iff_getElem?.mp hmem
    obtain ⟨after, hget, -, -, hsame⟩ := hafter j before hj
    rw [hsame (hbody ▸ fun h => nomatch h)] at hget
    exact ⟨before, List.mem_of_getElem? hget, htoken, hbody⟩
  · rw [hinflight, hnext]
    exact h.batches.fresh
  · rw [hinflight]
    exact h.batches.apart
  · rw [hinflight]
    exact h.unresolved
  · rw [hinflight, hnext]
    rcases List.mem_or_eq_of_mem_set hg' with hmem | rfl
    · exact h.started g' hmem
    · exact h.started g (List.mem_of_getElem? hg)

theorem sound_complete (h : Sound t) (i : Nat) (result : Except DownloadError Bytes) :
    Sound (t.complete i result) := by
  rw [complete]
  split
  case h_2 => exact h
  case h_1 g hg =>
    split
    case isFalse => exact h
    case isTrue hrunning => exact sound_setPromise h hg hrunning (settled_ne_running result)

theorem entry_forget (t : GetTransport) (token other : Nat) :
    (t.forget token).entry other = if other = token then none else t.entry other :=
  Function.update_apply ..

/-- A call that has awaited an entry takes it out of `pending`, and leaves it. -/
theorem sound_forget (h : Sound t) {i : Nat} {g : PendingGet} (hat : t.AtBody token i)
    (hg : t.gets[i]? = some g) (hover : g.promise ≠ .running) {call : Option GetCall}
    (hcall : ∀ i r l, call ≠ some (.body i r l)) : Sound ((t.forget token).setCall token call) := by
  have hbody (other j : Nat) (hother : ((t.forget token).setCall token call).AtBody other j) :
      other ≠ token ∧ t.AtBody other j := by
    obtain ⟨r, l, hcalls⟩ := hother
    rw [setCall_calls] at hcalls
    split at hcalls
    case isTrue => exact absurd hcalls (hcall j r l)
    case isFalse hne => exact ⟨hne, r, l, hcalls⟩
  have hentry (other : Nat) : ((t.forget token).setCall token call).entry other =
      if other = token then none else t.entry other := entry_forget t token other
  refine ⟨fun other => ?_, fun other j hj => ?_, fun j g' hg' hout => ?_, fun other hin => ?_,
    fun other j hother => ?_, h.bodies, ⟨h.batches.fresh, h.batches.apart⟩,
    fun b hb hreturned other hother => ?_, h.started⟩
  · have hpending : ((t.forget token).setCall token call).transport.pending other =
      if other = token then none else t.transport.pending other := Function.update_apply ..
    rw [hpending, hentry]
    split
    case isTrue => rfl
    case isFalse => exact h.linked other
  · rw [hentry] at hj
    split at hj
    case isTrue => cases hj
    case isFalse => exact h.entry other j hj
  · have hbefore := h.outstanding j g' hg' hout
    rw [hentry, if_neg]
    · exact hbefore
    · rintro rfl
      rcases (h.awaited g'.token i hat).2 with hsome | hin
      · rw [hbefore] at hsome
        cases hsome
        have hsame : some g' = some g := hg'.symm.trans hg
        cases hsame
        exact hover hout.1
      · rw [h.cancelled g'.token hin] at hbefore
        cases hbefore
  · rw [hentry, h.cancelled other hin, ite_self]
  · obtain ⟨hne, hother⟩ := hbody other j hother
    rw [hentry, if_neg hne]
    exact h.awaited other j hother
  · obtain ⟨hnone, hnot⟩ := h.unresolved b hb hreturned other hother
    refine ⟨?_, fun j hj => hnot j (hbody other j hj).2⟩
    rw [hentry, hnone, ite_self]

/-- A call returns a body; the token may be resolved again. -/
theorem sound_return (h : Sound t) {body : Bytes} (hat : ∀ i, ¬ t.AtBody token i)
    (hbody : ∃ g ∈ t.gets, g.token = token ∧ g.promise = .fulfilled body) :
    Sound { t with
      transport := t.transport.uncancel token
      bodies := t.bodies ++ [(token, body)] } where
  linked := h.linked
  entry := h.entry
  outstanding := h.outstanding
  cancelled other hin := h.cancelled other (Finset.mem_of_mem_erase hin)
  awaited other i hother := by
    refine ⟨(h.awaited other i hother).1, (h.awaited other i hother).2.imp_right fun hin => ?_⟩
    exact Finset.mem_erase.mpr ⟨fun heq => hat i (heq ▸ hother), hin⟩
  bodies p hp := by
    rcases List.mem_append.mp hp with hp | hp
    · exact h.bodies p hp
    · rw [List.mem_singleton.mp hp]
      exact hbody
  batches := ⟨h.batches.fresh, h.batches.apart⟩
  unresolved := h.unresolved
  started := h.started

variable (token) in
theorem sound_goLooping (h : Sound t) (r l : Nat) : Sound (t.goLooping token r l) := by
  rw [goLooping]
  split
  case isTrue => exact sound_leave h fun _ _ _ => nofun
  case isFalse => exact sound_leave (sound_startConcurrentGet h [token]) fun _ _ _ => nofun

variable (o token) in
theorem sound_goEnsured (h : Sound t) (r l : Nat) : Sound (t.goEnsured o token r l) := by
  rw [goEnsured]
  split
  case isTrue => exact sound_leave h fun _ _ _ => nofun
  case isFalse =>
    split
    case h_1 i hentry =>
      refine sound_setCall h fun j _ _ hcall => ?_
      cases hcall
      exact hentry
    case h_2 =>
      split
      case isTrue => exact sound_leave h fun _ _ _ => nofun
      case isFalse => exact sound_leave h fun _ _ _ => nofun

variable (o) in
theorem sound_goBody (h : Sound t) {i : Nat} {g : PendingGet} (hat : t.AtBody token i)
    (hg : t.gets[i]? = some g) (r l : Nat) : Sound (t.goBody o token r l g.promise) := by
  cases hpromise : g.promise with
  | running => exact h
  | fulfilled body =>
    have hover : g.promise ≠ .running := by
      rw [hpromise]
      exact fun h => nomatch h
    have hforget : Sound ((t.forget token).setCall token none) :=
      sound_forget h hat hg hover fun _ _ _ => nofun
    refine sound_return hforget (fun j hj => ?_) ?_
    · obtain ⟨_, _, hcall⟩ := hj
      rw [setCall_calls, if_pos rfl] at hcall
      cases hcall
    · obtain ⟨⟨g', hg', htoken⟩, -⟩ := h.awaited token i hat
      rw [hg] at hg'
      cases hg'
      exact ⟨g, List.mem_of_getElem? hg, htoken, hpromise⟩
  | rejected e =>
    have hover : g.promise ≠ .running := by
      rw [hpromise]
      exact fun h => nomatch h
    rw [goBody]
    split
    case isTrue => exact sound_forget h hat hg hover fun _ _ _ => nofun
    case isFalse => exact sound_forget h hat hg hover fun _ _ _ => nofun

variable (o token) in
theorem sound_go (h : Sound t) : Sound (t.go o token) := by
  rw [go]
  split
  case h_1 => exact h
  case h_2 r l _ => exact sound_goLooping token h r l
  case h_3 waits r l _ =>
    split
    case isTrue => exact sound_leave h fun _ _ _ => nofun
    case isFalse =>
      split
      case isTrue => exact sound_goEnsured o token h r l
      case isFalse => exact h
  case h_4 i r l hcall =>
    split
    case h_1 g hg => exact sound_goBody o h ⟨r, l, hcall⟩ hg r l
    case h_2 => exact h

theorem sound_get (h : Sound t) (token : Nat) : Sound (t.get token) := by
  rw [get]
  split
  case isTrue => exact sound_leave h fun _ _ _ => nofun
  case isFalse => exact h

theorem of_batch {id : Nat} {returned : Bool} (hb : t.batch id returned = some b) :
    b ∈ t.transport.inflight ∧ b.id = id ∧ b.returned = returned := by
  rw [batch] at hb
  have hboth := List.find?_some hb
  exact ⟨List.mem_of_find?_eq_some hb, of_decide_eq_true hboth⟩

variable (o) in
theorem sound_next (h : Sound t) (e : GetEvent) : Sound (t.next o e) := by
  cases e with
  | startConcurrentGet tokens => exact sound_startConcurrentGet h tokens
  | cancelPending tokens => exact sound_cancelPending h tokens
  | get token => exact sound_get h token
  | go token => exact sound_go o token h
  | resolve id outcome =>
    rw [next]
    split
    case h_1 b hb => exact sound_resolveAndStart h (of_batch hb).1 outcome
    case h_2 => exact h
  | settle id =>
    rw [next]
    split
    case h_1 b hb => exact sound_settle h b
    case h_2 => exact h
  | complete i result => exact sound_complete h i result

variable (o) in
theorem sound_exec (events : List GetEvent) : Sound (exec (next o) new events) := by
  have hstep (t : GetTransport) (e : GetEvent) (h : Sound t) (_ : True) : Sound (t.next o e) :=
    sound_next o h e
  exact exec_invariant hstep sound_new (along_of_forall (fun _ _ => trivial) _ _)

/-- The resolve of the batch has not started the token and will not. -/
structure Barred (id token : Nat) (t : GetTransport) : Prop where
  unset : ∀ g ∈ t.gets, g.batch = id → g.token ≠ token
  old : id < t.transport.nextId
  held : ∀ b ∈ t.transport.inflight, b.id = id → b.returned = false →
    token ∈ b.tokens ∧ token ∈ t.transport.cancelledBeforeResolve

variable {id : Nat}

theorem barred_cancelPending (h : Sound t) {tokens : List Nat} (htoken : token ∈ tokens)
    (hb : b ∈ t.transport.inflight) (hreturned : b.returned = false) (hmem : token ∈ b.tokens) :
    Barred b.id token (t.cancelPending tokens) where
  unset g hg hbatch := by
    obtain ⟨i, hi⟩ := List.mem_iff_getElem?.mp hg
    obtain ⟨before, hbefore, -, hsame, -⟩ := get_of_cancelPending hi
    exact absurd (hsame.trans hbatch) ((h.started before (List.mem_of_getElem? hbefore)).2 b hb hreturned)
  old := h.batches.fresh b hb
  held a ha hid _ := by
    rw [h.batches.apart a ha b hb (.inl hid)]
    exact ⟨hmem, mem_cancelled_cancelPending.mpr (.inr htoken)⟩

/-- A step that sets no entry, and takes the token from the cancelled ones only where it waits for no
resolve. -/
theorem Barred.mono {t' : GetTransport} (h : Barred id token t)
    (hgets : ∀ g ∈ t'.gets, ∃ before ∈ t.gets, before.token = g.token ∧ before.batch = g.batch)
    (hnext : t.transport.nextId ≤ t'.transport.nextId)
    (hinflight : ∀ b ∈ t'.transport.inflight, b.id = id → b.returned = false →
      b ∈ t.transport.inflight ∧ (token ∈ b.tokens → token ∈ t.transport.cancelledBeforeResolve →
        token ∈ t'.transport.cancelledBeforeResolve)) : Barred id token t' where
  unset g hg hbatch := by
    obtain ⟨before, hbefore, htoken, hsame⟩ := hgets g hg
    rw [← htoken]
    exact h.unset before hbefore (hsame.trans hbatch)
  old := Nat.lt_of_lt_of_le h.old hnext
  held b hb hid hreturned := by
    obtain ⟨hmem, hcancelled⟩ := hinflight b hb hid hreturned
    obtain ⟨htoken, hin⟩ := h.held b hmem hid hreturned
    exact ⟨htoken, hcancelled htoken hin⟩

theorem barred_startConcurrentGet (h : Barred id token t) (tokens : List Nat) :
    Barred id token (t.startConcurrentGet tokens) := by
  rw [startConcurrentGet, ReceiveTransport.ensureTokensStarted]
  dsimp only
  split
  case isFalse => exact h
  case isTrue =>
    refine h.mono (fun g hg => ⟨g, hg, rfl, rfl⟩) (Nat.le_succ _) fun b hb hid _ => ⟨?_, fun _ hin => hin⟩
    rcases List.mem_append.mp hb with hb | hb
    · exact hb
    · rw [List.mem_singleton.mp hb] at hid
      exact absurd hid (Nat.ne_of_gt h.old)

theorem barred_setEntry (h : Barred id token t) (promise : Nat → Option GetPromise) (other : Nat)
    (hbar : b.id = id → token ∈ t.transport.cancelledBeforeResolve) :
    Barred id token (setEntry b promise t other) := by
  obtain ⟨hinflight, hnext, hcancelled⟩ := setEntry_frame (b := b) promise t other
  refine ⟨fun g hg hbatch => ?_, ?_, ?_⟩
  · rw [setEntry] at hg
    split at hg
    case isTrue => exact h.unset g hg hbatch
    case isFalse hset =>
      split at hg
      case h_1 => exact h.unset g hg hbatch
      case h_2 p hp =>
        rcases List.mem_append.mp hg with hg | hg
        · exact h.unset g hg hbatch
        · rw [List.mem_singleton.mp hg] at hbatch ⊢
          intro hother
          dsimp only at hother
          rw [hother] at hset
          exact hset (.inr (hbar hbatch))
  · rw [hnext]
    exact h.old
  · rw [hinflight, hcancelled]
    exact h.held

theorem barred_setEntries (promise : Nat → Option GetPromise) (tokens : List Nat)
    (h : Barred id token t)
    (hbar : b.id = id → token ∈ t.transport.cancelledBeforeResolve) :
    Barred id token (tokens.foldl (setEntry b promise) t) := by
  induction tokens generalizing t with
  | nil => exact h
  | cons other tokens ih =>
    obtain ⟨-, -, hcancelled⟩ := setEntry_frame (b := b) promise t other
    rw [List.foldl_cons]
    refine ih (barred_setEntry h promise other hbar) fun hid => ?_
    rw [hcancelled]
    exact hbar hid

theorem barred_resolveAndStart (h : Barred id token t) (hb : b ∈ t.transport.inflight)
    (hreturned : b.returned = false) (outcome : ResolveOutcome) :
    Barred id token (t.resolveAndStart b outcome) := by
  refine barred_setEntries _ _ (h.mono (fun g hg => ⟨g, hg, rfl, rfl⟩) (Nat.le_refl _) ?_)
    fun hid => (h.held b hb hid hreturned).2
  intro a ha _ hr
  obtain ⟨before, hbefore, -, -, hsame⟩ := mem_markReturned ha
  obtain ⟨-, rfl⟩ := hsame hr
  exact ⟨hbefore, fun _ hin => hin⟩

theorem barred_complete (h : Barred id token t) (i : Nat) (result : Except DownloadError Bytes) :
    Barred id token (t.complete i result) := by
  rw [complete]
  split
  case h_2 => exact h
  case h_1 g hg =>
    split
    case isFalse => exact h
    case isTrue =>
      obtain ⟨hinflight, hnext, hcancelled⟩ := setPromise_frame t i g (settled result)
      refine h.mono (fun g' hg' => ?_) (Nat.le_of_eq hnext.symm) ?_
      · rcases List.mem_or_eq_of_mem_set hg' with hmem | rfl
        · exact ⟨g', hmem, rfl, rfl⟩
        · exact ⟨g, List.mem_of_getElem? hg, rfl, rfl⟩
      · rw [hinflight, hcancelled]
        exact fun b hb _ _ => ⟨hb, fun _ hin => hin⟩

/-- The call of another token does not matter, and a token that waits for a resolve has no call at an
entry. -/
theorem barred_goBody (hs : Sound t) (h : Barred id token t) {other i : Nat} (hat : t.AtBody other i)
    (r l : Nat) (p : GetPromise) : Barred id token (t.goBody o other r l p) := by
  cases p with
  | running => exact h
  | fulfilled body =>
    refine h.mono (fun g hg => ⟨g, hg, rfl, rfl⟩) (Nat.le_refl _) fun b hb _ hreturned => ?_
    refine ⟨hb, fun htoken hin => Finset.mem_erase.mpr ⟨?_, hin⟩⟩
    rintro rfl
    exact (hs.unresolved b hb hreturned token htoken).2 i hat
  | rejected e =>
    rw [goBody]
    split
    case isTrue => exact ⟨h.unset, h.old, h.held⟩
    case isFalse => exact ⟨h.unset, h.old, h.held⟩

theorem barred_go (hs : Sound t) (h : Barred id token t) (other : Nat) :
    Barred id token (t.go o other) := by
  have hset (call : Option GetCall) : Barred id token (t.setCall other call) :=
    ⟨h.unset, h.old, h.held⟩
  rw [go]
  split
  case h_1 => exact h
  case h_2 r l _ =>
    rw [goLooping]
    split
    case isTrue => exact hset none
    case isFalse =>
      have hstart := barred_startConcurrentGet h [other]
      exact ⟨hstart.unset, hstart.old, hstart.held⟩
  case h_3 waits r l _ =>
    rw [goEnsured]
    split
    case isTrue => exact hset none
    case isFalse =>
      split
      case isTrue =>
        split
        case isTrue => exact hset none
        case isFalse =>
          split
          case h_1 i _ => exact hset _
          case h_2 => split <;> exact hset _
      case isFalse => exact h
  case h_4 i r l hcall =>
    split
    case h_1 g _ => exact barred_goBody hs h ⟨r, l, hcall⟩ r l g.promise
    case h_2 => exact h

variable (o) in
theorem barred_next (hs : Sound t) (h : Barred id token t) (e : GetEvent) :
    Barred id token (t.next o e) := by
  cases e with
  | startConcurrentGet tokens => exact barred_startConcurrentGet h tokens
  | cancelPending tokens =>
    refine h.mono (fun g hg => ?_) (Nat.le_refl _) fun b hb _ _ =>
      ⟨hb, fun _ hin => mem_cancelled_cancelPending.mpr (.inl hin)⟩
    obtain ⟨i, hi⟩ := List.mem_iff_getElem?.mp hg
    obtain ⟨before, hbefore, htoken, hbatch, -⟩ := get_of_cancelPending hi
    exact ⟨before, List.mem_of_getElem? hbefore, htoken, hbatch⟩
  | get other =>
    rw [next, get]
    split
    case isTrue => exact ⟨h.unset, h.old, h.held⟩
    case isFalse => exact h
  | go other => exact barred_go hs h other
  | resolve id outcome =>
    rw [next]
    split
    case h_1 b hb =>
      obtain ⟨hmem, -, hreturned⟩ := of_batch hb
      exact barred_resolveAndStart h hmem hreturned outcome
    case h_2 => exact h
  | settle id =>
    rw [next]
    split
    case h_1 b hb =>
      exact h.mono (fun g hg => ⟨g, hg, rfl, rfl⟩) (Nat.le_refl _) fun b hb _ _ =>
        ⟨List.mem_of_mem_filter hb, fun _ hin => hin⟩
    case h_2 => exact h
  | complete i result => exact barred_complete h i result

/-- What holds of a transport at every moment: a token has at most one GET that was not aborted, and
calls have returned bodies of GETs of their own tokens. -/
structure OneEach (t : GetTransport) : Prop where
  single : ∀ (i j : Nat) (g g' : PendingGet), t.gets[i]? = some g → t.gets[j]? = some g' →
    g.Outstanding → g'.Outstanding → g.token = g'.token → i = j
  own : ∀ p ∈ t.bodies, ∃ g ∈ t.gets, g.token = p.1 ∧ g.promise = .fulfilled p.2

theorem oneEach (o : GetLimits) (events : List GetEvent) :
    OneEach (exec (next o) new events) ∧
      ∀ before tokens after, events = before ++ .cancelPending tokens :: after →
        ∀ b ∈ (exec (next o) new before).transport.inflight, b.returned = false →
          ∀ token ∈ tokens, token ∈ b.tokens →
            ∀ g ∈ (exec (next o) new events).gets, g.batch = b.id → g.token ≠ token := by
  have hsound := sound_exec o events
  refine ⟨⟨fun i j g g' hi hj => hsound.single hi hj, hsound.bodies⟩, ?_⟩
  rintro before tokens after rfl b hb hreturned token htoken hmem
  have hbefore := sound_exec o before
  have hstep (t : GetTransport) (e : GetEvent) (h : Sound t ∧ Barred b.id token t) (_ : True) :
      Sound (t.next o e) ∧ Barred b.id token (t.next o e) :=
    ⟨sound_next o h.1 e, barred_next o h.1 h.2 e⟩
  have hcancel : Sound ((exec (next o) new before).cancelPending tokens) ∧
      Barred b.id token ((exec (next o) new before).cancelPending tokens) :=
    ⟨sound_cancelPending hbefore tokens,
      barred_cancelPending hbefore htoken hb hreturned hmem⟩
  rw [exec_append, exec_cons]
  exact (exec_invariant hstep hcancel (along_of_forall (fun _ _ => trivial) _ after)).2.unset

end GetTransport
end TwelveC.Client
