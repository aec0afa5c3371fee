import Mathlib.Data.Finset.Lattice.Fold
import Mathlib.Data.List.Dedup

/-!
# The receive transport

`FetchReceiveTransport` without its meters and listeners. A token is given by its
index, the tokens of different indices being different. What happens elsewhere
comes as an outcome: of a resolve at the registry, and of a GET with its
fallbacks at the relays.
-/

namespace TwelveC.Client

/-- `expired` is a `TokenPlacementExpiredError`; `transient` is what is worth a retry. -/
inductive DownloadError where
  | expired
  | transient
  | other
  deriving DecidableEq, Repr

/-- The promise of a pending GET. -/
inductive GetState where
  | running
  | fulfilled
  | rejected (e : DownloadError)
  deriving DecidableEq, Repr

/-- A promise of the `inflight` map, with the tokens that it stands at. `returned` says that its
`resolveAndStart` has returned, and `rejected` that it threw. -/
structure Batch where
  id : Nat
  tokens : List Nat
  returned : Bool
  rejected : Bool
  deriving DecidableEq, Repr

/-- `rejections` has the batch promises that were rejected. -/
structure ReceiveTransport where
  pending : Nat → Option GetState
  cancelledBeforeResolve : Finset Nat
  inflight : List Batch
  rejections : List Nat
  nextId : Nat

/-- How the registry answers for a batch. -/
inductive ResolveOutcome where
  | endpoints (found : List Nat)
  | error (e : DownloadError)
  deriving DecidableEq, Repr

namespace ReceiveTransport

def new : ReceiveTransport :=
  { pending := fun _ => none, cancelledBeforeResolve := ∅, inflight := [], rejections := [], nextId := 0 }

def cancelPending (t : ReceiveTransport) (tokens : List Nat) : ReceiveTransport :=
  { t with
    cancelledBeforeResolve := t.cancelledBeforeResolve ∪ tokens.toFinset
    pending := fun token => if token ∈ tokens then none else t.pending token }

/-- `inflight.has(token)` -/
def inFlight (t : ReceiveTransport) (token : Nat) : Bool := t.inflight.any fun b => token ∈ b.tokens

/-- The tokens that a call of `ensureTokensStarted` starts. -/
def needed (t : ReceiveTransport) (tokens : List Nat) : List Nat :=
  tokens.dedup.filter fun token =>
    t.pending token = none ∧ token ∉ t.cancelledBeforeResolve ∧ t.inFlight token = false

/-- The start of a batch. -/
def startBatch (t : ReceiveTransport) (tokens : List Nat) : ReceiveTransport :=
  { t with
    inflight := t.inflight ++ [⟨t.nextId, tokens, false, false⟩]
    nextId := t.nextId + 1 }

/-- The promises that the returned one waits for. -/
def waits (t : ReceiveTransport) (tokens : List Nat) : List Nat :=
  (t.inflight.filter fun b => tokens.any fun token => token ∈ b.tokens).map (·.id)

def ensureTokensStarted (t : ReceiveTransport) (tokens : List Nat) : ReceiveTransport × List Nat :=
  let started := if t.needed tokens ≠ [] then t.startBatch (t.needed tokens) else t
  (started, started.waits tokens)

/-- One of the awaited promises was rejected. -/
def anyRejected (t : ReceiveTransport) (waits : List Nat) : Bool := waits.any (· ∈ t.rejections)

/-- All of them are over. -/
def allSettled (t : ReceiveTransport) (waits : List Nat) : Bool := t.inflight.all fun b => b.id ∉ waits

/-- `resolveAndStart` sets a promise for each of its tokens that has none and is not cancelled. -/
def setPending (t : ReceiveTransport) (tokens : List Nat) (promise : Nat → Option GetState) :
    ReceiveTransport :=
  { t with pending := fun token =>
      if token ∈ tokens ∧ t.pending token = none ∧ token ∉ t.cancelledBeforeResolve then promise token
      else t.pending token }

def markReturned (t : ReceiveTransport) (id : Nat) (rejected : Bool) : ReceiveTransport :=
  { t with inflight := t.inflight.map fun b =>
      if b.id = id then { b with returned := true, rejected } else b }

/-- The rest of `resolveAndStart`, once the registry has answered. -/
def resolveAndStart (t : ReceiveTransport) (b : Batch) : ResolveOutcome → ReceiveTransport
  | .endpoints found =>
    (t.setPending b.tokens fun token => if token ∈ found then some .running else none).markReturned b.id
      false
  | .error .expired => t.markReturned b.id true
  | .error e => (t.setPending b.tokens fun _ => some (.rejected e)).markReturned b.id false

/-- The `finally` of a batch promise. -/
def settle (t : ReceiveTransport) (b : Batch) : ReceiveTransport :=
  { t with
    inflight := t.inflight.filter fun other => other.id ≠ b.id
    rejections := if b.rejected then t.rejections ++ [b.id] else t.rejections }

def complete (t : ReceiveTransport) (token : Nat) (result : GetState) : ReceiveTransport :=
  { t with pending := Function.update t.pending token (some result) }

/-- `pending.delete(token)` -/
def forget (t : ReceiveTransport) (token : Nat) : ReceiveTransport :=
  { t with pending := Function.update t.pending token none }

/-- `cancelledBeforeResolve.delete(token)` -/
def uncancel (t : ReceiveTransport) (token : Nat) : ReceiveTransport :=
  { t with cancelledBeforeResolve := t.cancelledBeforeResolve.erase token }

end ReceiveTransport
end TwelveC.Client
