import TwelveC.Types
import TwelveC.Lib.Run
import TwelveC.Lib.Table
import TwelveC.Lib.Except
import Mathlib.Data.List.Nodup

/-!
# The coalescing registry client

The lookups of one turn of the event loop become one batch of the inner client.
What `flush` does after the inner promise settles runs without a pause, so a
batch is answered in one step. Batches and lookups are numbered in their order.
-/

namespace TwelveC.Client.CoalescingRegistry

open Lib Lib.Run

/-- `RelayRegistryMap`, over the records `ρ`. -/
abbrev RelayRegistryMap (ρ : Type) : Type := Table Str ρ

structure CoalescingWaiter where
  id : Nat
  tokens : List Str
  deriving DecidableEq, Repr

/-- A call of the inner client, with the waiters that its `flush` took. -/
structure Batch (ρ ε : Type) where
  waiters : List CoalescingWaiter
  tokens : List Str
  result : Option (Except ε (RelayRegistryMap ρ))

/-- `microtasks` counts the queued calls of `flush`, `lookups` has the tokens of the calls made so
far, and `settled` the calls of `resolve` and `reject`. -/
structure CoalescingRegistryClient (ρ ε : Type) where
  waiters : List CoalescingWaiter
  flushScheduled : Bool
  microtasks : Nat
  batches : List (Batch ρ ε)
  lookups : List (List Str)
  settled : List (Nat × Except ε (RelayRegistryMap ρ))

variable {ρ ε : Type}

/-- The body of a reply. An entry of `routes` that is no object or has no string `token` is `none`. -/
inductive Body (β : Type) where
  | notObject
  | noRoutes
  | routes (items : List (Option (Str × β)))

/-- The last loop: an `unavailable` record for every token that the reply leaves out. -/
def fill (unavailable : ρ) (tokens : List Str) (map : RelayRegistryMap ρ) : RelayRegistryMap ρ :=
  tokens.foldl (fun map token =>
    if (map.find token).isSome then map else map.insert token unavailable) map

/-- `normalizeRecord` is what it makes of an entry. -/
def defaultParseResponse {β : Type} (normalizeRecord : β → Str → Except ε ρ) (unavailable : ρ)
    (error : String → ε) (body : Body β) (tokens : List Str) : Except ε (RelayRegistryMap ρ) :=
  match body with
  | .notObject => .error (error "registry batch response is not an object")
  | .noRoutes => .error (error "registry batch response missing routes array")
  | .routes items => do
    let map ← items.foldlM (fun map item => match item with
      | none => pure map
      | some (token, entry) => do
        let record ← normalizeRecord entry token
        pure (map.insert token record)) Table.empty
    pure (fill unavailable tokens map)

theorem find_fill (unavailable : ρ) (map : RelayRegistryMap ρ) (tokens : List Str) {token : Str}
    (h : token ∈ tokens ∨ (map.find token).isSome) :
    ((fill unavailable tokens map).find token).isSome := by
  induction tokens generalizing map with
  | nil => exact h.resolve_left List.not_mem_nil
  | cons other rest ih =>
    rw [fill, List.foldl_cons]
    refine ih _ ?_
    by_cases hkeep : token = other
    · subst hkeep
      right
      split
      · assumption
      · rw [Table.find_insert_self]
        rfl
    · refine h.imp (fun hm => (List.mem_cons.mp hm).resolve_left hkeep) fun hsome => ?_
      split
      · exact hsome
      · rwa [Table.find_insert_of_ne _ hkeep]

/-- A reply that is parsed has an entry for every token asked. -/
theorem defaultParseResponse_answers {β : Type} {normalizeRecord : β → Str → Except ε ρ}
    {unavailable : ρ} {error : String → ε} {body : Body β} {tokens : List Str}
    {map : RelayRegistryMap ρ}
    (h : defaultParseResponse normalizeRecord unavailable error body tokens = .ok map) {token : Str}
    (ht : token ∈ tokens) : (map.find token).isSome := by
  cases body with
  | notObject => cases h
  | noRoutes => cases h
  | routes items =>
    obtain ⟨parsed, -, hmap⟩ := bind_ok_iff.mp h
    cases hmap
    exact find_fill unavailable parsed tokens (.inl ht)

def scheduleFlush (c : CoalescingRegistryClient ρ ε) : CoalescingRegistryClient ρ ε :=
  if c.flushScheduled then c else { c with flushScheduled := true, microtasks := c.microtasks + 1 }

/-- `[...new Set(tokens)]` are the different tokens in their order. A lookup of none is answered at
once. -/
def lookupRelays (tokens : List Str) (c : CoalescingRegistryClient ρ ε) :
    CoalescingRegistryClient ρ ε :=
  let unique := tokens.eraseDups
  if unique.length = 0 then c
  else scheduleFlush
    { c with
      lookups := c.lookups ++ [unique]
      waiters := c.waiters ++ [⟨c.lookups.length, unique⟩] }

def batchTokens (waiters : List CoalescingWaiter) : List Str := (waiters.flatMap (·.tokens)).eraseDups

/-- `flush` up to the call of the inner client. -/
def flush (c : CoalescingRegistryClient ρ ε) : CoalescingRegistryClient ρ ε :=
  if c.waiters = [] then { c with flushScheduled := false }
  else
    { c with
      flushScheduled := false
      waiters := []
      batches := c.batches ++ [⟨c.waiters, batchTokens c.waiters, none⟩] }

def runMicrotask (c : CoalescingRegistryClient ρ ε) : CoalescingRegistryClient ρ ε :=
  if c.microtasks = 0 then c else flush { c with microtasks := c.microtasks - 1 }

variable (missing : Str → ε)

/-- The records of a waiter's own tokens; `missing` is the error `registry missing token`. -/
def slice (results : RelayRegistryMap ρ) (tokens : List Str) : Except ε (RelayRegistryMap ρ) :=
  tokens.foldlM (fun slice token => match results.find token with
    | none => .error (missing token)
    | some record => .ok (slice.insert token record)) Table.empty

/-- The loop over the waiters: the calls of `resolve`, and the error that ends it. -/
def resolveAll (results : RelayRegistryMap ρ) :
    List CoalescingWaiter → List (Nat × Except ε (RelayRegistryMap ρ)) × Option ε
  | [] => ([], none)
  | waiter :: rest =>
    match slice missing results waiter.tokens with
    | .error e => ([], some e)
    | .ok own =>
      let r := resolveAll results rest
      ((waiter.id, .ok own) :: r.1, r.2)

def rejectAll (waiters : List CoalescingWaiter) (e : ε) :
    List (Nat × Except ε (RelayRegistryMap ρ)) := waiters.map fun waiter => (waiter.id, .error e)

/-- The end of `flush`: the inner promise has settled. -/
def answer (waiters : List CoalescingWaiter) :
    Except ε (RelayRegistryMap ρ) → List (Nat × Except ε (RelayRegistryMap ρ))
  | .error e => rejectAll waiters e
  | .ok results =>
    match resolveAll missing results waiters with
    | (calls, none) => calls
    | (calls, some e) => calls ++ rejectAll waiters e

/-- A promise settles once. -/
def settle (k : Nat) (result : Except ε (RelayRegistryMap ρ)) (c : CoalescingRegistryClient ρ ε) :
    CoalescingRegistryClient ρ ε :=
  match c.batches[k]? with
  | some ⟨waiters, tokens, none⟩ =>
    { c with
      batches := c.batches.set k ⟨waiters, tokens, some result⟩
      settled := c.settled ++ answer missing waiters result }
  | _ => c

inductive Event (ρ ε : Type) where
  | lookup (tokens : List Str)
  | microtask
  | settle (k : Nat) (result : Except ε (RelayRegistryMap ρ))

def next (c : CoalescingRegistryClient ρ ε) : Event ρ ε → CoalescingRegistryClient ρ ε
  | .lookup tokens => lookupRelays tokens c
  | .microtask => runMicrotask c
  | .settle k result => settle missing k result c

def initial : CoalescingRegistryClient ρ ε :=
  { waiters := [], flushScheduled := false, microtasks := 0, batches := [], lookups := [], settled := [] }

/-- The lookups that a run makes. -/
def lookupsOf (events : List (Event ρ ε)) : List (List Str) :=
  (events.filterMap fun e => match e with
    | .lookup tokens => some tokens.eraseDups
    | _ => none).filter fun tokens => tokens ≠ []

/-- What the promise of a lookup was settled with, call by call. -/
def settlements (c : CoalescingRegistryClient ρ ε) (id : Nat) :
    List (Except ε (RelayRegistryMap ρ)) :=
  (c.settled.filter fun e => e.1 = id).map Prod.snd

/-- The records of `tokens` in `results`, and no others. -/
def IsRestriction (results : RelayRegistryMap ρ) (tokens : List Str) (own : RelayRegistryMap ρ) : Prop :=
  ∀ token, own.find token = if token ∈ tokens then results.find token else none

/-- The settlements of a waiter whose batch has the result. -/
inductive Settles (tokens : List Str) :
    Option (Except ε (RelayRegistryMap ρ)) → List (Except ε (RelayRegistryMap ρ)) → Prop where
  | pending : Settles tokens none []
  | resolved (results own : RelayRegistryMap ρ) : IsRestriction results tokens own →
      Settles tokens (some (.ok results)) [.ok own]
  | rejected (e : ε) : Settles tokens (some (.error e)) [.error e]

/-- The first completion of inner call `k`. -/
def firstSettle (k : Nat) (events : List (Event ρ ε)) : Option (Except ε (RelayRegistryMap ρ)) :=
  events.findSome? fun e => match e with
    | .settle k' result => if k' = k then some result else none
    | _ => none

/-- The inner calls that the microtasks of a run make: each takes the lookups since the one before.
`waiting` says that there are lookups from before the run. -/
def opened : Bool → List (Event ρ ε) → Nat
  | _, [] => 0
  | waiting, .lookup tokens :: rest => opened (waiting || decide (tokens ≠ [])) rest
  | waiting, .microtask :: rest => waiting.toNat + opened false rest
  | waiting, .settle _ _ :: rest => opened waiting rest

/-- The events after the next microtask. -/
def afterMicrotask : List (Event ρ ε) → Option (List (Event ρ ε))
  | [] => none
  | .microtask :: rest => some rest
  | .lookup _ :: rest => afterMicrotask rest
  | .settle _ _ :: rest => afterMicrotask rest

/-- Where a lookup stands, given the events since the microtask that came after it. Before the
microtask it waits for a flush that is queued. From then on it is in batch `k` and no other, and what
inner call `k` completes with settles it. -/
def Accounted (c : CoalescingRegistryClient ρ ε) (waiter : CoalescingWaiter) (k : Nat) :
    Option (List (Event ρ ε)) → Prop
  | none =>
    waiter ∈ c.waiters ∧ 0 < c.microtasks ∧ (∀ b ∈ c.batches, waiter ∉ b.waiters) ∧
      settlements c waiter.id = []
  | some after =>
    waiter ∉ c.waiters ∧
      (∃ b, c.batches[k]? = some b ∧ waiter ∈ b.waiters ∧ ∀ token ∈ waiter.tokens, token ∈ b.tokens) ∧
      (∀ k' b', c.batches[k']? = some b' → waiter ∈ b'.waiters → k' = k) ∧
      Settles waiter.tokens (firstSettle k after) (settlements c waiter.id)

/-- The waiters in the order of their lookups: those in batches and those that wait. -/
def allWaiters (c : CoalescingRegistryClient ρ ε) : List CoalescingWaiter :=
  c.batches.flatMap (·.waiters) ++ c.waiters

structure Orderly (c : CoalescingRegistryClient ρ ε) : Prop where
  flag : c.microtasks = if c.flushScheduled then 1 else 0
  scheduled : c.waiters ≠ [] → c.flushScheduled = true
  waiters : allWaiters c = c.lookups.zipIdx.map fun e => ⟨e.2, e.1⟩
  asked : ∀ b ∈ c.batches, ∀ waiter ∈ b.waiters, ∀ token ∈ waiter.tokens, token ∈ b.tokens
  unsettled : ∀ waiter ∈ c.waiters, settlements c waiter.id = []
  settled : ∀ b ∈ c.batches, ∀ waiter ∈ b.waiters,
    Settles waiter.tokens b.result (settlements c waiter.id)
  numbered : ∀ e ∈ c.settled, e.1 < c.lookups.length

/-- The inner client has an entry for every token that it was asked. -/
def Answers (c : CoalescingRegistryClient ρ ε) : Event ρ ε → Prop
  | .settle k (.ok results) =>
    ∀ b, c.batches[k]? = some b → ∀ token ∈ b.tokens, (results.find token).isSome
  | _ => True

variable {missing} {c : CoalescingRegistryClient ρ ε}

/-- A reply that went through `defaultParseResponse` has them. -/
theorem answers_parsed {β : Type} (normalizeRecord : β → Str → Except ε ρ) (unavailable : ρ)
    (error : String → ε) (body : Body β) {k : Nat} {tokens : List Str}
    (hk : (c.batches[k]?).map (·.tokens) = some tokens) :
    Answers c (.settle k (defaultParseResponse normalizeRecord unavailable error body tokens)) := by
  cases hparsed : defaultParseResponse normalizeRecord unavailable error body tokens with
  | error e => trivial
  | ok results =>
    intro b hb token ht
    rw [hb] at hk
    obtain rfl := Option.some.inj hk
    exact defaultParseResponse_answers hparsed ht

theorem ids_nodup (h : Orderly c) : ((allWaiters c).map (·.id)).Nodup := by
  rw [h.waiters, List.map_map]
  have hsnd : (fun e : List Str × Nat => (⟨e.2, e.1⟩ : CoalescingWaiter).id) = Prod.snd := rfl
  rw [show ((·.id) ∘ fun e : List Str × Nat => (⟨e.2, e.1⟩ : CoalescingWaiter)) = Prod.snd from hsnd,
    List.zipIdx_map_snd]
  exact List.nodup_range'

theorem mem_allWaiters (h : Orderly c) {waiter : CoalescingWaiter} :
    waiter ∈ allWaiters c ↔ c.lookups[waiter.id]? = some waiter.tokens := by
  rw [h.waiters, List.mem_map]
  constructor
  · rintro ⟨e, he, rfl⟩
    exact List.mem_zipIdx_iff_getElem?.mp he
  · intro hw
    exact ⟨(waiter.tokens, waiter.id), List.mem_zipIdx_iff_getElem?.mpr hw, rfl⟩

theorem slice_restriction (missing : Str → ε) {results : RelayRegistryMap ρ} {tokens : List Str}
    (h : ∀ token ∈ tokens, (results.find token).isSome) :
    ∃ own, slice missing results tokens = .ok own ∧ IsRestriction results tokens own := by
  have hfold : ∀ (tokens : List Str) (acc : RelayRegistryMap ρ),
      (∀ token ∈ tokens, (results.find token).isSome) →
      ∃ own, tokens.foldlM (fun slice token => match results.find token with
          | none => Except.error (missing token)
          | some record => .ok (slice.insert token record)) acc = .ok own ∧
        ∀ token, own.find token = if token ∈ tokens then results.find token else acc.find token := by
    intro tokens
    induction tokens with
    | nil => exact fun acc _ => ⟨acc, rfl, fun token => by simp⟩
    | cons head rest ih =>
      intro acc hall
      obtain ⟨record, hrecord⟩ := Option.isSome_iff_exists.mp (hall head List.mem_cons_self)
      obtain ⟨own, hown, hfind⟩ :=
        ih (acc.insert head record) fun token ht => hall token (List.mem_cons_of_mem _ ht)
      refine ⟨own, ?_, fun token => ?_⟩
      · rw [List.foldlM_cons, hrecord]
        exact hown
      · rw [hfind token, Table.find_insert]
        by_cases hrest : token ∈ rest
        · simp [hrest]
        · by_cases hhead : token = head
          · simp [hhead, hrecord]
          · simp [hrest, hhead]
  obtain ⟨own, hown, hfind⟩ := hfold tokens Table.empty h
  exact ⟨own, hown, fun token => by rw [hfind, Table.find_empty]⟩

theorem resolveAll_eq {results : RelayRegistryMap ρ} {waiters : List CoalescingWaiter}
    {own : CoalescingWaiter → RelayRegistryMap ρ}
    (h : ∀ waiter ∈ waiters, slice missing results waiter.tokens = .ok (own waiter)) :
    resolveAll missing results waiters = (waiters.map fun waiter => (waiter.id, .ok (own waiter)), none) := by
  induction waiters with
  | nil => rfl
  | cons waiter rest ih =>
    rw [resolveAll, h waiter List.mem_cons_self]
    simp only [ih fun other ho => h other (List.mem_cons_of_mem _ ho), List.map_cons]

/-- Every waiter of the batch gets one call, with what the batch owes it. -/
theorem answer_eq (missing : Str → ε) {waiters : List CoalescingWaiter} {tokens : List Str}
    (result : Except ε (RelayRegistryMap ρ))
    (hasked : ∀ waiter ∈ waiters, ∀ token ∈ waiter.tokens, token ∈ tokens)
    (hanswers : ∀ results, result = .ok results → ∀ token ∈ tokens, (results.find token).isSome) :
    ∃ out : CoalescingWaiter → Except ε (RelayRegistryMap ρ),
      answer missing waiters result = waiters.map (fun waiter => (waiter.id, out waiter)) ∧
      ∀ waiter ∈ waiters, Settles waiter.tokens (some result) [out waiter] := by
  cases result with
  | error e => exact ⟨fun _ => .error e, rfl, fun waiter _ => .rejected e⟩
  | ok results =>
    have hown : ∀ waiter : CoalescingWaiter, ∃ own, waiter ∈ waiters →
        slice missing results waiter.tokens = .ok own ∧ IsRestriction results waiter.tokens own := by
      intro waiter
      by_cases hw : waiter ∈ waiters
      · obtain ⟨own, hown⟩ := slice_restriction missing fun token ht =>
          hanswers results rfl token (hasked waiter hw token ht)
        exact ⟨own, fun _ => hown⟩
      · exact ⟨Table.empty, fun h => absurd h hw⟩
    choose own hown using hown
    refine ⟨fun waiter => .ok (own waiter), ?_, fun waiter hw => ?_⟩
    · rw [answer, resolveAll_eq fun waiter hw => (hown waiter hw).1]
    · exact .resolved results (own waiter) (hown waiter hw).2

theorem filter_id_not_mem {waiters : List CoalescingWaiter} {id : Nat}
    (h : id ∉ waiters.map (·.id)) : waiters.filter (fun w => w.id = id) = [] := by
  rw [List.filter_eq_nil_iff]
  intro w hw hid
  exact h (List.mem_map.mpr ⟨w, hw, by simpa using hid⟩)

theorem filter_id_mem {waiters : List CoalescingWaiter} (hn : (waiters.map (·.id)).Nodup)
    {waiter : CoalescingWaiter} (h : waiter ∈ waiters) :
    waiters.filter (fun w => w.id = waiter.id) = [waiter] := by
  induction waiters with
  | nil => cases h
  | cons w rest ih =>
    rw [List.map_cons, List.nodup_cons] at hn
    rcases List.mem_cons.mp h with rfl | h
    · rw [List.filter_cons_of_pos (by simp), filter_id_not_mem hn.1]
    · have hne : w.id ≠ waiter.id := fun he => hn.1 (List.mem_map.mpr ⟨waiter, h, he.symm⟩)
      rw [List.filter_cons_of_neg (by simpa using hne)]
      exact ih hn.2 h

/-- The settlements that an answered batch adds. -/
theorem settlements_answer {waiters : List CoalescingWaiter}
    {out : CoalescingWaiter → Except ε (RelayRegistryMap ρ)} {c' : CoalescingRegistryClient ρ ε}
    (h : c'.settled = c.settled ++ waiters.map fun w => (w.id, out w)) (id : Nat) :
    settlements c' id = settlements c id ++ (waiters.filter fun w => w.id = id).map out := by
  rw [settlements, h, List.filter_append, List.map_append, List.filter_map, List.map_map]
  rfl

theorem allWaiters_id_lt (h : Orderly c) {waiter : CoalescingWaiter} (hw : waiter ∈ allWaiters c) :
    waiter.id < c.lookups.length :=
  (List.getElem?_eq_some_iff.mp ((mem_allWaiters h).mp hw)).1

theorem mem_allWaiters_of_batch {b : Batch ρ ε} (hb : b ∈ c.batches) {waiter : CoalescingWaiter}
    (hw : waiter ∈ b.waiters) : waiter ∈ allWaiters c :=
  List.mem_append_left _ (List.mem_flatMap.mpr ⟨b, hb, hw⟩)

/-- The number of a new call has no settlement. -/
theorem settlements_new (h : Orderly c) : settlements c c.lookups.length = [] := by
  rw [settlements, List.map_eq_nil_iff, List.filter_eq_nil_iff]
  intro e he hid
  have hlt := h.numbered e he
  simp only [decide_eq_true_eq] at hid
  omega

/-- Whether or not a flush was scheduled, one is now. -/
theorem scheduleFlush_eq (h : c.microtasks = if c.flushScheduled then 1 else 0) :
    scheduleFlush c = { c with flushScheduled := true, microtasks := 1 } := by
  obtain ⟨waiters, flushScheduled, microtasks, batches, lookups, settled⟩ := c
  cases flushScheduled <;> simp_all [scheduleFlush]

theorem lookup_orderly (h : Orderly c) (tokens : List Str) : Orderly (lookupRelays tokens c) := by
  rw [lookupRelays]
  split
  · exact h
  generalize tokens.eraseDups = unique
  rw [scheduleFlush_eq]
  swap
  · exact h.flag
  constructor
  case flag => rfl
  case scheduled => exact fun _ => rfl
  case waiters =>
    rw [List.zipIdx_append, List.map_append, ← h.waiters, allWaiters, allWaiters, List.append_assoc]
    simp
  case asked => exact h.asked
  case unsettled =>
    intro waiter hw
    rcases List.mem_append.mp hw with hw | hw
    · exact h.unsettled waiter hw
    · rw [List.mem_singleton.mp hw]
      exact settlements_new h
  case settled => exact h.settled
  case numbered =>
    intro e he
    have hlt := h.numbered e he
    simp only [List.length_append, List.length_singleton]
    omega

theorem mem_batchTokens {waiters : List CoalescingWaiter} {waiter : CoalescingWaiter}
    (h : waiter ∈ waiters) {token : Str} (ht : token ∈ waiter.tokens) : token ∈ batchTokens waiters := by
  rw [batchTokens, List.mem_eraseDups, List.mem_flatMap]
  exact ⟨waiter, h, ht⟩

theorem microtask_orderly (h : Orderly c) : Orderly (runMicrotask c) := by
  rw [runMicrotask]
  split
  · exact h
  have hflag := h.flag
  have hmicrotasks : c.microtasks - 1 = 0 := by
    split at hflag <;> omega
  rw [flush]
  split
  case isTrue hnone =>
    constructor
    case flag => exact hmicrotasks
    case scheduled => exact fun hw => absurd hnone hw
    case waiters => exact h.waiters
    case asked => exact h.asked
    case unsettled => exact h.unsettled
    case settled => exact h.settled
    case numbered => exact h.numbered
  case isFalse =>
    constructor
    case flag => exact hmicrotasks
    case scheduled => exact fun hw => absurd rfl hw
    case waiters =>
      rw [← h.waiters, allWaiters, allWaiters, List.flatMap_append]
      simp
    case asked =>
      intro b hb
      rcases List.mem_append.mp hb with hb | hb
      · exact h.asked b hb
      · rw [List.mem_singleton.mp hb]
        exact fun waiter hw token ht => mem_batchTokens hw ht
    case unsettled => exact fun waiter hw => nomatch hw
    case settled =>
      intro b hb
      rcases List.mem_append.mp hb with hb | hb
      · exact h.settled b hb
      · rw [List.mem_singleton.mp hb]
        intro waiter hw
        have hnone := h.unsettled waiter hw
        rw [settlements] at hnone ⊢
        rw [hnone]
        exact .pending
    case numbered => exact h.numbered

/-- A call stands in one place: once in one batch, or in the queue. -/
structure Apart (c : CoalescingRegistryClient ρ ε) : Prop where
  once : ∀ b ∈ c.batches, (b.waiters.map (·.id)).Nodup
  batches : c.batches.Pairwise fun b b' =>
    List.Disjoint (b.waiters.map (·.id)) (b'.waiters.map (·.id))
  queue : ∀ b ∈ c.batches, ∀ id ∈ c.waiters.map (·.id), id ∉ b.waiters.map (·.id)

theorem apart (h : Orderly c) : Apart c := by
  have hn := ids_nodup h
  rw [allWaiters, List.map_append, List.nodup_append, List.map_flatMap, List.nodup_flatMap] at hn
  obtain ⟨⟨honce, hbatches⟩, -, hqueue⟩ := hn
  refine ⟨honce, hbatches, fun b hb id hid hmem => ?_⟩
  exact hqueue id (List.mem_flatMap.mpr ⟨b, hb, hmem⟩) id hid rfl

theorem batch_unique (h : Orderly c) {i j : Nat} {b b' : Batch ρ ε} (hi : c.batches[i]? = some b)
    (hj : c.batches[j]? = some b') {id : Nat} (hid : id ∈ b.waiters.map (·.id))
    (hid' : id ∈ b'.waiters.map (·.id)) : i = j := by
  have hdisjoint := List.pairwise_iff_getElem.mp (apart h).batches
  obtain ⟨hil, rfl⟩ := List.getElem?_eq_some_iff.mp hi
  obtain ⟨hjl, rfl⟩ := List.getElem?_eq_some_iff.mp hj
  rcases Nat.lt_trichotomy i j with hlt | heq | hgt
  · exact absurd hid' (hdisjoint i j hil hjl hlt hid)
  · exact heq
  · exact absurd hid (hdisjoint j i hjl hil hgt hid')

theorem settle_orderly (h : Orderly c) (k : Nat) (result : Except ε (RelayRegistryMap ρ))
    (ha : Answers c (.settle k result)) : Orderly (settle missing k result c) := by
  rw [settle]
  split
  case h_2 => exact h
  case h_1 waiters tokens hk =>
    have hmem := List.mem_of_getElem? hk
    obtain ⟨out, hanswer, hout⟩ := answer_eq missing result (h.asked _ hmem)
      (fun results hr => by subst hr; exact ha _ hk)
    rw [hanswer]
    have hset : ∀ i b, (c.batches.set k ⟨waiters, tokens, some result⟩)[i]? = some b →
        i = k ∧ b = ⟨waiters, tokens, some result⟩ ∨ i ≠ k ∧ c.batches[i]? = some b := by
      intro i b hb
      rw [List.getElem?_set] at hb
      split at hb
      case isTrue hki =>
        split at hb
        · exact .inl ⟨hki.symm, (Option.some.inj hb).symm⟩
        · cases hb
      case isFalse hki => exact .inr ⟨fun he => hki he.symm, hb⟩
    constructor
    case flag => exact h.flag
    case scheduled => exact h.scheduled
    case waiters =>
      have hmap : (c.batches.set k ⟨waiters, tokens, some result⟩).map (·.waiters) =
          c.batches.map (·.waiters) := by
        rw [List.map_set]
        apply List.ext_getElem?
        intro i
        rw [List.getElem?_set]
        split
        case isTrue hki =>
          subst hki
          have hlt := (List.getElem?_eq_some_iff.mp hk).1
          rw [if_pos (by simpa using hlt), List.getElem?_map, hk]
          rfl
        case isFalse => rfl
      rw [← h.waiters, allWaiters, allWaiters, List.flatMap_def, List.flatMap_def, hmap]
    case asked =>
      intro b hb
      obtain ⟨i, hi⟩ := List.mem_iff_getElem?.mp hb
      rcases hset i b hi with ⟨-, rfl⟩ | ⟨-, hi⟩
      · exact h.asked ⟨waiters, tokens, none⟩ hmem
      · exact h.asked b (List.mem_of_getElem? hi)
    case unsettled =>
      intro waiter hw
      rw [settlements_answer rfl, h.unsettled waiter hw, filter_id_not_mem]
      · rfl
      · exact (apart h).queue _ hmem _ (List.mem_map.mpr ⟨waiter, hw, rfl⟩)
    case settled =>
      intro b hb waiter hw
      obtain ⟨i, hi⟩ := List.mem_iff_getElem?.mp hb
      rw [settlements_answer rfl]
      rcases hset i b hi with ⟨-, rfl⟩ | ⟨hne, hi⟩
      · -- It was pending, so its waiters had no settlement.
        have hbefore : settlements c waiter.id = [] := by
          have hpending := h.settled _ hmem waiter hw
          generalize settlements c waiter.id = calls at hpending ⊢
          cases hpending with
          | pending => rfl
        rw [hbefore, filter_id_mem ((apart h).once _ hmem) hw]
        exact hout waiter hw
      · rw [filter_id_not_mem]
        · rw [List.map_nil, List.append_nil]
          exact h.settled b (List.mem_of_getElem? hi) waiter hw
        · intro hid
          exact hne (batch_unique h hi hk (List.mem_map.mpr ⟨waiter, hw, rfl⟩) hid)
    case numbered =>
      intro e he
      rcases List.mem_append.mp he with he | he
      · exact h.numbered e he
      · obtain ⟨waiter, hw, rfl⟩ := List.mem_map.mp he
        exact allWaiters_id_lt h (mem_allWaiters_of_batch hmem hw)

theorem next_orderly (h : Orderly c) (e : Event ρ ε) (ha : Answers c e) :
    Orderly (next missing c e) := by
  cases e with
  | lookup tokens => exact lookup_orderly h tokens
  | microtask => exact microtask_orderly h
  | settle k result => exact settle_orderly h k result ha

theorem initial_orderly : Orderly (initial : CoalescingRegistryClient ρ ε) where
  flag := rfl
  scheduled h := absurd rfl h
  waiters := rfl
  asked _ h := nomatch h
  unsettled _ h := nomatch h
  settled _ h := nomatch h
  numbered _ h := nomatch h

theorem lookups_next (c : CoalescingRegistryClient ρ ε) (e : Event ρ ε) :
    (next missing c e).lookups = c.lookups ++ lookupsOf [e] := by
  cases e with
  | lookup tokens =>
    rw [next, lookupRelays]
    split
    case isTrue hnone => simp [lookupsOf, List.length_eq_zero_iff.mp hnone]
    case isFalse hsome =>
      rw [scheduleFlush]
      split <;> simp [lookupsOf, mt List.length_eq_zero_iff.mpr hsome]
  | microtask =>
    rw [next, runMicrotask, flush]
    split
    · simp [lookupsOf]
    · split <;> simp [lookupsOf]
  | settle k result =>
    rw [next, settle]
    split <;> simp [lookupsOf]

theorem lookups_exec (c : CoalescingRegistryClient ρ ε) (events : List (Event ρ ε)) :
    (exec (next missing) c events).lookups = c.lookups ++ lookupsOf events := by
  induction events generalizing c with
  | nil => simp [lookupsOf]
  | cons e rest ih =>
    rw [exec_cons, ih, lookups_next, List.append_assoc, lookupsOf, lookupsOf, lookupsOf,
      ← List.filter_append, ← List.filterMap_append, List.singleton_append]

theorem eraseDups_eq_nil {tokens : List Str} : tokens.eraseDups = [] ↔ tokens = [] := by
  cases tokens <;> simp [List.eraseDups_cons]

theorem exec_orderly (h : Orderly c) {events : List (Event ρ ε)}
    (ha : Along (next missing) Answers c events) : Orderly (exec (next missing) c events) := by
  have hstep : ∀ (c : CoalescingRegistryClient ρ ε) e, Orderly c → Answers c e →
      Orderly (next missing c e) := fun c e h ha => next_orderly h e ha
  exact exec_invariant hstep h ha

/-- After a step, the inner calls made and whether lookups wait for the next. -/
theorem batches_next (h : Orderly c) (e : Event ρ ε) (rest : List (Event ρ ε)) :
    c.batches.length + opened (decide (c.waiters ≠ [])) (e :: rest) =
      (next missing c e).batches.length + opened (decide ((next missing c e).waiters ≠ [])) rest := by
  cases e with
  | lookup tokens =>
    rw [next, lookupRelays, opened]
    split
    case isTrue hnone =>
      simp [eraseDups_eq_nil.mp (List.length_eq_zero_iff.mp hnone)]
    case isFalse hsome =>
      have htokens : tokens ≠ [] := by
        rintro rfl
        exact hsome rfl
      rw [scheduleFlush]
      split <;> simp [htokens]
  | microtask =>
    rw [next, runMicrotask, opened]
    by_cases hw : c.waiters = []
    · split
      · simp [hw]
      · simp [flush, hw]
    · have hflag := h.flag
      rw [h.scheduled hw, if_pos rfl] at hflag
      rw [if_neg (by omega), flush, if_neg hw]
      simp [hw]
      omega
  | settle k result =>
    rw [next, settle, opened]
    split <;> simp

/-- A run makes the inner calls that its microtasks open. -/
theorem batches_exec (h : Orderly c) {events : List (Event ρ ε)}
    (ha : Along (next missing) Answers c events) :
    (exec (next missing) c events).batches.length =
      c.batches.length + opened (decide (c.waiters ≠ [])) events := by
  induction events generalizing c with
  | nil => rfl
  | cons e rest ih => rw [exec_cons, ih (next_orderly h e ha.1) ha.2, ← batches_next h]

theorem firstSettle_cons (k : Nat) (e : Event ρ ε) (rest : List (Event ρ ε)) :
    firstSettle k (e :: rest) = (firstSettle k [e]).or (firstSettle k rest) := by
  rw [← List.singleton_append, firstSettle, List.findSome?_append]
  rfl

/-- A batch keeps its waiters and tokens, and its first completion is its result. -/
theorem batch_next {k : Nat} {b : Batch ρ ε} (hk : c.batches[k]? = some b) (e : Event ρ ε) :
    (next missing c e).batches[k]? = some { b with result := b.result.or (firstSettle k [e]) } := by
  obtain ⟨hlt, hb⟩ := List.getElem?_eq_some_iff.mp hk
  cases e with
  | lookup tokens =>
    have hbatches : (lookupRelays tokens c).batches = c.batches := by
      rw [lookupRelays, scheduleFlush]
      split
      · rfl
      · split <;> rfl
    rw [next, hbatches, hk]
    simp [firstSettle]
  | microtask =>
    rw [next, runMicrotask, flush]
    simp only [firstSettle, List.findSome?_cons, List.findSome?_nil, Option.or_none]
    split
    · exact hk
    · split
      · exact hk
      · rw [List.getElem?_append_left hlt, hk]
  | settle k' result =>
    rw [next, settle]
    simp only [firstSettle, List.findSome?_cons, List.findSome?_nil]
    by_cases hkk : k' = k
    · subst hkk
      obtain ⟨waiters, tokens, before⟩ := b
      cases before with
      | none =>
        rw [hk]
        simp [hlt]
      | some r =>
        rw [hk]
        simp [hk]
    · split
      · rw [List.getElem?_set_ne hkk, hk]
        simp [hkk]
      · simp [hk, hkk]

theorem batch_exec {k : Nat} {b : Batch ρ ε} (hk : c.batches[k]? = some b) (events : List (Event ρ ε)) :
    (exec (next missing) c events).batches[k]? =
      some { b with result := b.result.or (firstSettle k events) } := by
  induction events generalizing c b with
  | nil => simpa [firstSettle] using hk
  | cons e rest ih =>
    rw [exec_cons, ih (batch_next hk e), firstSettle_cons k e rest]
    simp only [Option.or_assoc]

/-- A waiter of batch `k` is nowhere else. -/
theorem batched_accounted (h : Orderly c) {k : Nat} {b : Batch ρ ε} (hk : c.batches[k]? = some b)
    {waiter : CoalescingWaiter} (hw : waiter ∈ b.waiters) {after : List (Event ρ ε)}
    (hresult : b.result = firstSettle k after) : Accounted c waiter k (some after) := by
  have hb := List.mem_of_getElem? hk
  have hid : ∀ {waiters : List CoalescingWaiter}, waiter ∈ waiters →
      waiter.id ∈ waiters.map (·.id) := fun hmem => List.mem_map.mpr ⟨waiter, hmem, rfl⟩
  refine ⟨fun hwaiting => (apart h).queue b hb _ (hid hwaiting) (hid hw),
    ⟨b, hk, hw, h.asked b hb waiter hw⟩, fun k' b' hk' hw' => ?_, ?_⟩
  · exact batch_unique h hk' hk (hid hw') (hid hw)
  · rw [← hresult]
    exact h.settled b hb waiter hw

/-- A waiter in the queue stays there until a microtask makes the next inner call with it. -/
theorem waiting_accounted (h : Orderly c) {waiter : CoalescingWaiter} (hw : waiter ∈ c.waiters)
    {rest : List (Event ρ ε)} (ha : Along (next missing) Answers c rest) :
    Accounted (exec (next missing) c rest) waiter c.batches.length (afterMicrotask rest) := by
  induction rest generalizing c with
  | nil =>
    refine ⟨hw, ?_, fun b hb hwb => ?_, h.unsettled waiter hw⟩
    · rw [exec_nil, h.flag, h.scheduled (List.ne_nil_of_mem hw)]
      exact Nat.one_pos
    · exact (apart h).queue b hb _ (List.mem_map_of_mem hw) (List.mem_map_of_mem hwb)
  | cons e rest ih =>
    have hnext : Orderly (next missing c e) := next_orderly h e ha.1
    cases e with
    | lookup tokens =>
      have hkept : waiter ∈ (lookupRelays tokens c).waiters ∧
          (lookupRelays tokens c).batches = c.batches := by
        rw [lookupRelays, scheduleFlush]
        split
        · exact ⟨hw, rfl⟩
        · split <;> exact ⟨List.mem_append_left _ hw, rfl⟩
      rw [exec_cons, afterMicrotask, ← hkept.2]
      exact ih hnext hkept.1 ha.2
    | settle k result =>
      have hkept : waiter ∈ (settle missing k result c).waiters ∧
          (settle missing k result c).batches.length = c.batches.length := by
        rw [settle]
        split
        · exact ⟨hw, List.length_set⟩
        · exact ⟨hw, rfl⟩
      rw [exec_cons, afterMicrotask, ← hkept.2]
      exact ih hnext hkept.1 ha.2
    | microtask =>
      have hne := List.ne_nil_of_mem hw
      have hflag := h.flag
      rw [h.scheduled hne, if_pos rfl] at hflag
      have hbatch : (next missing c .microtask).batches[c.batches.length]? =
          some ⟨c.waiters, batchTokens c.waiters, none⟩ := by
        rw [next, runMicrotask, if_neg (by omega), flush, if_neg hne]
        exact List.getElem?_concat_length
      have horderly := exec_orderly hnext ha.2
      exact batched_accounted horderly (batch_exec hbatch rest) hw rfl

/-- In every run in which the inner client has an entry for each token asked, the microtask that comes
after a lookup puts it in one batch, which no other microtask does, and the first completion of that
batch settles it, by one call, with the batch's records of its own tokens or with the batch's error.
Before that nothing settles it. -/
theorem lookups_accounted (missing : Str → ε) (before rest : List (Event ρ ε)) (tokens : List Str)
    (htokens : tokens ≠ [])
    (ha : Along (next missing) Answers initial (before ++ .lookup tokens :: rest)) :
    Accounted (exec (next missing) initial (before ++ .lookup tokens :: rest))
      ⟨(lookupsOf before).length, tokens.eraseDups⟩ (opened false before) (afterMicrotask rest) := by
  rw [along_append] at ha
  obtain ⟨hbefore, -, hrest⟩ := ha
  have horderly := exec_orderly initial_orderly hbefore
  have hcount := batches_exec initial_orderly hbefore
  have hid := @lookups_exec ρ ε missing initial before
  rw [exec_append, exec_cons]
  generalize exec (next missing) initial before = c at *
  have hadded : ⟨c.lookups.length, tokens.eraseDups⟩ ∈ (lookupRelays tokens c).waiters ∧
      (lookupRelays tokens c).batches = c.batches := by
    rw [lookupRelays, if_neg (by simpa [eraseDups_eq_nil] using htokens), scheduleFlush]
    split <;> exact ⟨List.mem_append_right _ List.mem_cons_self, rfl⟩
  have hwaiting := waiting_accounted (lookup_orderly horderly tokens) hadded.1 hrest
  rw [hadded.2, hid, hcount] at hwaiting
  simpa [initial, next] using hwaiting

def tokenA : Str := [65]
def tokenB : Str := [66]

/-- A reply that knows one of the two tokens it was asked. -/
def knowsA : Body Nat := .routes [none, some (tokenA, 7)]

/-- What the client makes of the reply: the token left out is unavailable, record 0. -/
def parsed : Except String (RelayRegistryMap Nat) :=
  defaultParseResponse (fun entry _ => .ok entry) 0 id knowsA [tokenA, tokenB]

/-- The third lookup comes while the first batch is pending; its own batch fails. -/
def twoBatches : List (Event Nat String) :=
  [.lookup [tokenA, tokenA], .lookup [tokenB], .microtask, .lookup [tokenA, tokenB],
    .settle 0 parsed, .microtask, .settle 1 (.error "HTTP 503")]

def missingToken : Str → String := fun _ => "registry missing token"

theorem twoBatches_answers : Along (next missingToken) Answers initial twoBatches := by
  have hparsed : Answers (exec (next missingToken) initial (twoBatches.take 4)) (.settle 0 parsed) :=
    answers_parsed _ 0 id knowsA rfl
  exact ⟨trivial, trivial, trivial, trivial, hparsed, trivial, trivial, trivial⟩

/-- The second lookup is in the first batch, whose reply gives its one token record 0. -/
theorem lookups_accounted_two :
    Along (next missingToken) Answers initial twoBatches ∧
    ∃ own, settlements (exec (next missingToken) initial twoBatches) 1 = [.ok own] ∧
      own.find tokenB = some 0 ∧ own.find tokenA = none := by
  refine ⟨twoBatches_answers, ?_⟩
  have haccounted := lookups_accounted missingToken [.lookup [tokenA, tokenA]] (twoBatches.drop 2)
    [tokenB] (by decide) twoBatches_answers
  have hsettles : Settles [tokenB] (some parsed)
    (settlements (exec (next missingToken) initial twoBatches) 1) := haccounted.2.2.2
  obtain ⟨results, hparsed, hfindB⟩ : ∃ results, parsed = .ok results ∧ results.find tokenB = some 0 :=
    ⟨_, rfl, by decide⟩
  rw [hparsed] at hsettles
  generalize settlements _ 1 = calls at hsettles ⊢
  cases hsettles with
  | resolved _ own hown => exact ⟨own, rfl, by rw [hown, if_pos (by decide), hfindB], by rw [hown]; rfl⟩

end TwelveC.Client.CoalescingRegistry
