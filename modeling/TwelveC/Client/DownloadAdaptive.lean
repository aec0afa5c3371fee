import TwelveC.Client.ReceiveTransport
import TwelveC.Lib.Run

/-!
# The adaptive download

`downloadAdaptive` from its first prefetch to the last token, with both ways to go
on after the SMB. A step of the driver leads from one await to the next one;
resolves and GETs end in any order in between. A token is delivered when its
`get` returns; what the driver then makes of the block is a property of the
object, and may end the download.
-/

namespace TwelveC.Client

open Lib

/-- What becomes of a block that `get` has returned. -/
inductive Intake where
  /-- It passes the checks, and the decrypt session takes it and is drained. -/
  | taken
  /-- A check throws: the size of the block, or for token 0 its SMB. -/
  | refused
  /-- The decrypt session throws: its constructor for token 0, then `addWireToken` or the drain. -/
  | thrown
  deriving DecidableEq, Repr

/-- The counts that a download works with, the limits of its transport, and what its blocks meet with. -/
structure Download where
  estimatedM : Nat
  concurrentM : Nat
  totalTokens : Nat
  useStreamingDecrypt : Bool
  resolveMaxAttempts : Nat
  getMaxAttempts : Nat
  intake : Nat → Intake
  estimatedM_pos : 0 < estimatedM
  concurrentM_pos : 0 < concurrentM
  totalTokens_pos : 0 < totalTokens

/-- `deriveIndexTokens` -/
def indexTokens (startInclusive endExclusive : Nat) : List Nat :=
  List.range' startInclusive (endExclusive - startInclusive)

theorem mem_indexTokens {a b k : Nat} : k ∈ indexTokens a b ↔ a ≤ k ∧ k < b := by
  rw [indexTokens, List.mem_range'_1]
  omega

theorem indexTokens_eq_nil {a b : Nat} (h : b ≤ a) : indexTokens a b = [] := by
  rw [indexTokens, Nat.sub_eq_zero_of_le h]
  rfl

inductive DownloadFailure where
  | cancelled (token : Nat)
  | placementExpired
  | notResolved (token : Nat)
  | get (token : Nat) (e : DownloadError)
  | refused (token : Nat)
  | decrypt (token : Nat)
  deriving DecidableEq, Repr

/-- The await that the driver is at. `starting` is a prefetch, after which the given token is fetched;
`fetch`, `ensured` and `body` are the awaits inside of `get`, with its counters; `window` and `rest`
come before the prefetches after the SMB. -/
inductive Position where
  | begin
  | starting (waits : List Nat) (token : Nat)
  | fetch (token registryAttempts relayAttempts : Nat)
  | ensured (token : Nat) (waits : List Nat) (registryAttempts relayAttempts : Nat)
  | body (token registryAttempts relayAttempts : Nat)
  | got (token : Nat)
  | window (token : Nat)
  | rest
  | done
  | failed (e : DownloadFailure)
  deriving DecidableEq, Repr

/-- `fed` are the tokens of the calls of `addWireToken`. -/
structure Session where
  transport : ReceiveTransport
  position : Position
  delivered : List Nat
  fed : List Nat

namespace Download

variable (d : Download)

structure ReceiveDownloadPlan where
  cancelAfterSmb : List Nat
  fetchAfterSmb : List Nat
  deriving DecidableEq, Repr

def computeReceiveDownloadPlan (initialTokens numTokens : Nat) : ReceiveDownloadPlan :=
  if initialTokens < numTokens then
    { cancelAfterSmb := [], fetchAfterSmb := indexTokens initialTokens numTokens }
  else if numTokens < initialTokens then
    { cancelAfterSmb := indexTokens numTokens initialTokens, fetchAfterSmb := [] }
  else { cancelAfterSmb := [], fetchAfterSmb := [] }

def plan : ReceiveDownloadPlan := computeReceiveDownloadPlan d.concurrentM d.totalTokens

/-- What is cancelled once the SMB is parsed. -/
def cancelAfterSmb (t : ReceiveTransport) : ReceiveTransport :=
  let shrunk :=
    if d.concurrentM < d.estimatedM then t.cancelPending (indexTokens d.concurrentM d.estimatedM)
    else t
  if d.plan.cancelAfterSmb ≠ [] then shrunk.cancelPending d.plan.cancelAfterSmb else shrunk

/-- The head of either loop over the tokens. -/
def loopAt (token : Nat) : Position :=
  if token < d.totalTokens then
    if d.useStreamingDecrypt then .window token else .fetch token 0 0
  else .done

/-- Where a token that is taken leads. -/
def afterGot (token : Nat) : Position :=
  if token = 0 ∧ d.useStreamingDecrypt = false ∧ d.plan.fetchAfterSmb ≠ [] then .rest
  else d.loopAt (token + 1)

/-- The tokens of a streaming download go on to its session. -/
def feed (fed : List Nat) (token : Nat) : List Nat :=
  if 0 < token ∧ d.useStreamingDecrypt = true then fed ++ [token] else fed

/-- The block of a token, from the checks to the next await. -/
def consume (s : Session) (token : Nat) : Session :=
  if d.intake token = .refused then { s with position := .failed (.refused token) }
  else
    { s with
      transport := if token = 0 then d.cancelAfterSmb s.transport else s.transport
      fed := d.feed s.fed token
      position := if d.intake token = .taken then d.afterGot token else .failed (.decrypt token) }

def startConcurrentGet (s : Session) (tokens : List Nat) (token : Nat) : Session :=
  { s with transport := (s.transport.ensureTokensStarted tokens).1
           position := .starting (s.transport.ensureTokensStarted tokens).2 token }

/-- A wait for batch promises. -/
def afterWaits (s : Session) (waits : List Nat) (next : Session) : Option Session :=
  if s.transport.anyRejected waits then some { s with position := .failed .placementExpired }
  else if s.transport.allSettled waits then some next
  else none

/-- The top of the loop of `get`. -/
def fetch (s : Session) (token registryAttempts relayAttempts : Nat) : Session :=
  if token ∈ s.transport.cancelledBeforeResolve then { s with position := .failed (.cancelled token) }
  else
    { s with
      transport := (s.transport.ensureTokensStarted [token]).1
      position := .ensured token (s.transport.ensureTokensStarted [token]).2 registryAttempts
        relayAttempts }

/-- `get` after the token was resolved, or not. -/
def afterEnsured (s : Session) (token registryAttempts relayAttempts : Nat) : Session :=
  if token ∈ s.transport.cancelledBeforeResolve then { s with position := .failed (.cancelled token) }
  else if s.transport.pending token ≠ none then
    { s with position := .body token registryAttempts relayAttempts }
  else if d.resolveMaxAttempts ≤ registryAttempts + 1 then
    { s with position := .failed (.notResolved token) }
  else { s with position := .fetch token (registryAttempts + 1) relayAttempts }

/-- `get` after its GET. -/
def afterBody (s : Session) (token registryAttempts relayAttempts : Nat) : GetState → Option Session
  | .running => none
  | .fulfilled => some
      { s with
        transport := (s.transport.forget token).uncancel token
        position := .got token
        delivered := s.delivered ++ [token] }
  | .rejected .transient =>
    if d.getMaxAttempts ≤ relayAttempts + 1 then
      some { s with transport := s.transport.forget token
                    position := .failed (.get token .transient) }
    else
      some { s with transport := s.transport.forget token
                    position := .fetch token registryAttempts (relayAttempts + 1) }
  | .rejected e => some { s with transport := s.transport.forget token
                                 position := .failed (.get token e) }

/-- The driver goes on to its next await, unless what it awaits is not there yet. -/
def advance (s : Session) : Option Session :=
  match s.position with
  | .begin => some (startConcurrentGet s (indexTokens 0 d.estimatedM) 0)
  | .starting waits token => afterWaits s waits { s with position := .fetch token 0 0 }
  | .fetch token registryAttempts relayAttempts => some (fetch s token registryAttempts relayAttempts)
  | .ensured token waits registryAttempts relayAttempts =>
    afterWaits s waits (d.afterEnsured s token registryAttempts relayAttempts)
  | .body token registryAttempts relayAttempts =>
    (s.transport.pending token).bind (d.afterBody s token registryAttempts relayAttempts)
  | .got token => some (d.consume s token)
  | .window token => some (startConcurrentGet s
      (indexTokens (token + 1) (min d.totalTokens (token + d.concurrentM))) token)
  | .rest => some (startConcurrentGet s d.plan.fetchAfterSmb 1)
  | .done => none
  | .failed _ => none

inductive Event where
  | driver
  | resolve (id : Nat) (outcome : ResolveOutcome)
  | settle (id : Nat)
  | complete (token : Nat) (error : Option DownloadError)
  deriving DecidableEq, Repr

/-- A batch that waits for the registry. -/
def resolving (t : ReceiveTransport) (id : Nat) : Option Batch :=
  t.inflight.find? fun b => b.id = id ∧ b.returned = false

/-- A batch that waits for its `finally`. -/
def returned (t : ReceiveTransport) (id : Nat) : Option Batch :=
  t.inflight.find? fun b => b.id = id ∧ b.returned = true

/-- The promise of a GET that is over. -/
def settled : Option DownloadError → GetState
  | none => .fulfilled
  | some e => .rejected e

theorem settled_ne_running (error : Option DownloadError) : settled error ≠ .running := by
  cases error <;> simp [settled]

/-- The session after an event that can happen. -/
def after (s : Session) : Event → Option Session
  | .driver => d.advance s
  | .resolve id outcome => (resolving s.transport id).map fun b =>
      { s with transport := s.transport.resolveAndStart b outcome }
  | .settle id => (returned s.transport id).map fun b =>
      { s with transport := s.transport.settle b }
  | .complete token error =>
    if s.transport.pending token = some .running then
      some { s with transport := s.transport.complete token (settled error) }
    else none

def next (s : Session) (e : Event) : Session := (d.after s e).getD s

def start : Session := { transport := .new, position := .begin, delivered := [], fed := [] }

end Download
end TwelveC.Client
