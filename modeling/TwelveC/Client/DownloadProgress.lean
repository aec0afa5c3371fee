import TwelveC.Client.DownloadSchedule
import Mathlib.Algebra.Order.BigOperators.Group.List
import Mathlib.Algebra.Order.Group.Nat
import Mathlib.Algebra.GroupWithZero.Nat

/-!
# A download in which everything succeeds comes to its end

Each event uses up some of the work that is left: a step of the driver what it
takes to start a batch of tokens, a resolve the start of its GETs, and a GET one
of these. When nothing is left to happen the driver is done, or it has met a
cancelled token or a block that is not taken.
-/

namespace TwelveC.Client.Download

open Lib Lib.Run

variable (d : Download)

/-- Every token that is ever asked for lies below. -/
def width : Nat := max d.estimatedM d.totalTokens

/-- `delivered` is how many tokens the driver has got. -/
structure Sound (t : ReceiveTransport) (delivered : Nat) : Prop where
  ids : (t.inflight.map (·.id)).Nodup
  fresh : ∀ b ∈ t.inflight, b.id < t.nextId
  rejections : t.rejections = []
  accepted : ∀ b ∈ t.inflight, b.rejected = false
  fine : ∀ token < d.totalTokens, ∀ e, t.pending token ≠ some (.rejected e)
  returned : ∀ b ∈ t.inflight, b.returned = true → ∀ token ∈ b.tokens, delivered ≤ token →
    token < d.totalTokens → token ∉ t.cancelledBeforeResolve → t.pending token ≠ none
  pendingBound : ∀ token, t.pending token ≠ none → token < d.width
  batchBound : ∀ b ∈ t.inflight, ∀ token ∈ b.tokens, token < d.width
  batchLength : ∀ b ∈ t.inflight, b.tokens.length ≤ d.width

/-- What is left of a batch: its resolve, its GETs and its `finally`. -/
def cost (b : Batch) : Nat := if b.returned then 1 else b.tokens.length + 2

/-- The GETs that are under way. -/
def running (t : ReceiveTransport) : Finset Nat :=
  (Finset.range d.width).filter fun token => t.pending token = some .running

theorem cost_pos (b : Batch) : 0 < cost b := by
  rw [cost]
  split <;> omega

def load (t : ReceiveTransport) : Nat := (t.inflight.map cost).sum + (d.running t).card

variable {d} {t : ReceiveTransport} {n : Nat} {tokens : List Nat}

theorem mem_running {token : Nat} :
    token ∈ d.running t ↔ token < d.width ∧ t.pending token = some .running := by
  rw [running, Finset.mem_filter, Finset.mem_range]

theorem needed_sub {token : Nat} (h : token ∈ t.needed tokens) :
    token ∈ tokens ∧ t.pending token = none := by
  rw [ReceiveTransport.needed, List.mem_filter, List.mem_dedup, decide_eq_true_iff] at h
  exact ⟨h.1, h.2.1⟩

theorem needed_length (h : ∀ token ∈ tokens, token < d.width) : (t.needed tokens).length ≤ d.width := by
  have hnodup : (t.needed tokens).Nodup := (List.nodup_dedup tokens).filter _
  have hsub : t.needed tokens ⊆ List.range d.width := fun token htoken =>
    List.mem_range.mpr (h token (needed_sub htoken).1)
  have hle := (hnodup.subperm hsub).length_le
  rwa [List.length_range] at hle

/-- A new batch. -/
theorem sound_startBatch (h : Sound d t n) (htokens : ∀ token ∈ tokens, token < d.width)
    (hlength : tokens.length ≤ d.width) : Sound d (t.startBatch tokens) n := by
  have hmem : ∀ b ∈ (t.startBatch tokens).inflight,
      b ∈ t.inflight ∨ b = ⟨t.nextId, tokens, false, false⟩ := by
    intro b hb
    exact (List.mem_append.mp hb).imp_right List.mem_singleton.mp
  constructor
  · rw [ReceiveTransport.startBatch, List.map_append, List.nodup_append]
    refine ⟨h.ids, List.nodup_singleton _, ?_⟩
    intro id hid other hother
    obtain ⟨b, hb, rfl⟩ := List.mem_map.mp hid
    rw [List.map_singleton, List.mem_singleton] at hother
    rw [hother]
    exact Nat.ne_of_lt (h.fresh b hb)
  · intro b hb
    show b.id < t.nextId + 1
    rcases hmem b hb with hb | rfl
    · exact Nat.lt_succ_of_lt (h.fresh b hb)
    · exact Nat.lt_succ_self _
  · exact h.rejections
  · intro b hb
    rcases hmem b hb with hb | rfl
    · exact h.accepted b hb
    · rfl
  · exact h.fine
  · intro b hb hreturned
    rcases hmem b hb with hb | rfl
    · exact h.returned b hb hreturned
    · cases hreturned
  · exact h.pendingBound
  · intro b hb
    rcases hmem b hb with hb | rfl
    · exact h.batchBound b hb
    · exact htokens
  · intro b hb
    rcases hmem b hb with hb | rfl
    · exact h.batchLength b hb
    · exact hlength

theorem load_startBatch (tokens : List Nat) :
    d.load (t.startBatch tokens) = d.load t + (tokens.length + 2) := by
  rw [load, load, ReceiveTransport.startBatch, List.map_append, List.sum_append]
  simp [cost, running]
  omega

/-- A prefetch starts one batch at most. -/
theorem sound_ensure (h : Sound d t n) (htokens : ∀ token ∈ tokens, token < d.width) :
    Sound d (t.ensureTokensStarted tokens).1 n ∧
      d.load (t.ensureTokensStarted tokens).1 ≤ d.load t + (d.width + 2) := by
  have hlength := needed_length (t := t) htokens
  rw [ReceiveTransport.ensureTokensStarted]
  dsimp only
  split
  · refine ⟨sound_startBatch h (fun token htoken => htokens token (needed_sub htoken).1) hlength, ?_⟩
    rw [load_startBatch]
    omega
  · exact ⟨h, Nat.le_add_right _ _⟩

/-- Promises may be dropped, except those of the tokens that are still wanted. -/
theorem sound_drop {u : ReceiveTransport} {m : Nat} (h : Sound d t n)
    (hinflight : u.inflight = t.inflight) (hnext : u.nextId = t.nextId)
    (hrejections : u.rejections = t.rejections)
    (hpending : ∀ token, u.pending token = t.pending token ∨ u.pending token = none)
    (hkept : ∀ token, m ≤ token → token ∉ u.cancelledBeforeResolve →
      n ≤ token ∧ token ∉ t.cancelledBeforeResolve ∧ u.pending token = t.pending token) :
    Sound d u m ∧ d.load u ≤ d.load t := by
  constructor
  · constructor
    · rw [hinflight]
      exact h.ids
    · rw [hinflight, hnext]
      exact h.fresh
    · rw [hrejections]
      exact h.rejections
    · rw [hinflight]
      exact h.accepted
    · intro token htoken e he
      rcases hpending token with hsame | hnone
      · exact h.fine token htoken e (hsame ▸ he)
      · rw [hnone] at he
        cases he
    · rw [hinflight]
      intro b hb hreturned token htoken hle hlt hfree
      obtain ⟨hle', hfree', hsame⟩ := hkept token hle hfree
      rw [hsame]
      exact h.returned b hb hreturned token htoken hle' hlt hfree'
    · intro token htoken
      rcases hpending token with hsame | hnone
      · exact h.pendingBound token (hsame ▸ htoken)
      · exact absurd hnone htoken
    · rw [hinflight]
      exact h.batchBound
    · rw [hinflight]
      exact h.batchLength
  · rw [load, load, hinflight]
    apply Nat.add_le_add_left
    apply Finset.card_le_card
    intro token htoken
    obtain ⟨hlt, hrunning⟩ := mem_running.mp htoken
    rcases hpending token with hsame | hnone
    · exact mem_running.mpr ⟨hlt, hsame ▸ hrunning⟩
    · rw [hnone] at hrunning
      cases hrunning

theorem sound_cancelPending (h : Sound d t n) (tokens : List Nat) :
    Sound d (t.cancelPending tokens) n ∧ d.load (t.cancelPending tokens) ≤ d.load t := by
  have hpending : ∀ token, (t.cancelPending tokens).pending token =
      if token ∈ tokens then none else t.pending token := fun _ => rfl
  refine sound_drop (u := t.cancelPending tokens) h rfl rfl rfl ?_ ?_
  · intro token
    rw [hpending]
    split
    · exact .inr rfl
    · exact .inl rfl
  · intro token hle hfree
    rw [ReceiveTransport.cancelPending, Finset.mem_union, List.mem_toFinset, not_or] at hfree
    exact ⟨hle, hfree.1, by rw [hpending, if_neg hfree.2]⟩

theorem sound_cancelAfterSmb (h : Sound d t n) :
    Sound d (d.cancelAfterSmb t) n ∧ d.load (d.cancelAfterSmb t) ≤ d.load t := by
  have hshrunk : Sound d (if d.concurrentM < d.estimatedM then
        t.cancelPending (indexTokens d.concurrentM d.estimatedM) else t) n ∧
      d.load (if d.concurrentM < d.estimatedM then
        t.cancelPending (indexTokens d.concurrentM d.estimatedM) else t) ≤ d.load t := by
    split
    · exact sound_cancelPending h _
    · exact ⟨h, Nat.le_refl _⟩
  rw [cancelAfterSmb]
  split
  · obtain ⟨hsound, hload⟩ := sound_cancelPending hshrunk.1 d.plan.cancelAfterSmb
    exact ⟨hsound, Nat.le_trans hload hshrunk.2⟩
  · exact hshrunk

/-- A delivered token is forgotten. -/
theorem sound_deliver (h : Sound d t n) :
    Sound d ((t.forget n).uncancel n) (n + 1) ∧ d.load ((t.forget n).uncancel n) ≤ d.load t := by
  have hpending : ∀ token, ((t.forget n).uncancel n).pending token =
      if token = n then none else t.pending token := fun token => Function.update_apply _ _ _ _
  refine sound_drop (u := (t.forget n).uncancel n) h rfl rfl rfl ?_ ?_
  · intro token
    rw [hpending]
    split
    · exact .inr rfl
    · exact .inl rfl
  · intro token hle hfree
    have hne : token ≠ n := by omega
    refine ⟨by omega, fun hmem => hfree (Finset.mem_erase.mpr ⟨hne, hmem⟩), ?_⟩
    rw [hpending, if_neg hne]

theorem found_batch {id : Nat} {flag : Bool} {b : Batch}
    (h : t.inflight.find? (fun b => b.id = id ∧ b.returned = flag) = some b) :
    b ∈ t.inflight ∧ b.returned = flag := by
  have hprop := List.find?_some h
  rw [decide_eq_true_iff] at hprop
  exact ⟨List.mem_of_find?_eq_some h, hprop.2⟩

/-- A batch is given by its id. -/
theorem Sound.batch_eq (h : Sound d t n) {a b : Batch} (ha : a ∈ t.inflight) (hb : b ∈ t.inflight)
    (hid : a.id = b.id) : a = b := List.inj_on_of_nodup_map h.ids ha hb hid

/-- A summand that shrinks. -/
theorem sum_map_lt {α : Type} {l : List α} {f g : α → Nat} {a : α} {k : Nat} (ha : a ∈ l)
    (hle : ∀ x ∈ l, g x ≤ f x) (hlt : g a + k ≤ f a) : (l.map g).sum + k ≤ (l.map f).sum := by
  induction l with
  | nil => cases ha
  | cons x l ih =>
    rw [List.map_cons, List.map_cons, List.sum_cons, List.sum_cons]
    have hrest : (l.map g).sum ≤ (l.map f).sum :=
      List.sum_le_sum fun y hy => hle y (List.mem_cons_of_mem _ hy)
    rcases List.mem_cons.mp ha with rfl | ha
    · omega
    · have htail := ih ha fun y hy => hle y (List.mem_cons_of_mem _ hy)
      have hhead := hle x List.mem_cons_self
      omega

theorem sum_filter {α : Type} (p : α → Bool) (f : α → Nat) (l : List α) :
    ((l.filter p).map f).sum = (l.map fun a => if p a then f a else 0).sum := by
  induction l with
  | nil => rfl
  | cons a l ih =>
    rw [List.filter_cons]
    split <;> simp [*]

theorem sound_resolve {b : Batch} {found : List Nat} (h : Sound d t n) (hb : b ∈ t.inflight)
    (hreturned : b.returned = false) (hfound : ∀ token ∈ b.tokens, token < d.totalTokens → token ∈ found) :
    Sound d (t.resolveAndStart b (.endpoints found)) n ∧
      d.load (t.resolveAndStart b (.endpoints found)) < d.load t := by
  have hpending : ∀ token, (t.resolveAndStart b (.endpoints found)).pending token =
      if token ∈ b.tokens ∧ t.pending token = none ∧ token ∉ t.cancelledBeforeResolve then
        (if token ∈ found then some .running else none) else t.pending token := fun _ => rfl
  have hmem : ∀ a ∈ (t.resolveAndStart b (.endpoints found)).inflight,
      ∃ c ∈ t.inflight, a = (if c.id = b.id then { c with returned := true, rejected := false } else c) := by
    intro a ha
    obtain ⟨c, hc, rfl⟩ := List.mem_map.mp ha
    exact ⟨c, hc, rfl⟩
  have hkeep : ∀ token, t.pending token ≠ none →
      (t.resolveAndStart b (.endpoints found)).pending token = t.pending token := by
    intro token htoken
    rw [hpending, if_neg fun hfresh => htoken hfresh.2.1]
  constructor
  · constructor
    · rw [ReceiveTransport.resolveAndStart, ReceiveTransport.markReturned, List.map_map]
      have hids : t.inflight.map ((fun b => b.id) ∘ fun c =>
          if c.id = b.id then { c with returned := true, rejected := false } else c) =
          t.inflight.map (·.id) := by
        apply List.map_congr_left
        intro c _
        dsimp only [Function.comp]
        split <;> rfl
      exact hids ▸ h.ids
    · intro a ha
      obtain ⟨c, hc, rfl⟩ := hmem a ha
      have hlt := h.fresh c hc
      split <;> exact hlt
    · exact h.rejections
    · intro a ha
      obtain ⟨c, hc, rfl⟩ := hmem a ha
      have hacc := h.accepted c hc
      split
      · rfl
      · exact hacc
    · intro token htoken e
      rw [hpending]
      split
      · split <;> exact fun h => by cases h
      · exact h.fine token htoken e
    · intro a ha hret token htoken hle hlt hfree
      obtain ⟨c, hc, rfl⟩ := hmem a ha
      by_cases hsome : t.pending token = none
      · split at htoken
        · rename_i hid
          have hcb := h.batch_eq hc hb hid
          rw [hcb] at htoken
          rw [hpending, if_pos ⟨htoken, hsome, hfree⟩, if_pos (hfound token htoken hlt)]
          exact Option.some_ne_none _
        · rename_i hid
          rw [if_neg hid] at hret
          exact absurd hsome (h.returned c hc hret token htoken hle hlt hfree)
      · rw [hkeep token hsome]
        exact hsome
    · intro token htoken
      rw [hpending] at htoken
      split at htoken
      · rename_i hfresh
        exact h.batchBound b hb token hfresh.1
      · exact h.pendingBound token htoken
    · intro a ha
      obtain ⟨c, hc, rfl⟩ := hmem a ha
      have hbound := h.batchBound c hc
      split <;> exact hbound
    · intro a ha
      obtain ⟨c, hc, rfl⟩ := hmem a ha
      have hlength := h.batchLength c hc
      split <;> exact hlength
  · -- the batch has its `finally` left, and at most as many new GETs as tokens
    have hsum : ((t.inflight.map fun c => if c.id = b.id then
        { c with returned := true, rejected := false } else c).map cost).sum + (b.tokens.length + 1) ≤
          (t.inflight.map cost).sum := by
      rw [List.map_map]
      apply sum_map_lt hb
      · intro c _
        dsimp only [Function.comp]
        split
        · exact cost_pos c
        · exact Nat.le_refl _
      · dsimp only [Function.comp]
        have hcost : cost b = b.tokens.length + 2 := by rw [cost, if_neg (by simp [hreturned])]
        have hnew : cost { b with returned := true, rejected := false } = 1 := rfl
        rw [if_pos rfl, hcost, hnew]
        omega
    have hrunning : (d.running (t.resolveAndStart b (.endpoints found))).card ≤
        (d.running t).card + b.tokens.length := by
      have hsub : d.running (t.resolveAndStart b (.endpoints found)) ⊆
          d.running t ∪ b.tokens.toFinset := by
        intro token htoken
        obtain ⟨hlt, hrun⟩ := mem_running.mp htoken
        rw [hpending] at hrun
        rw [Finset.mem_union, List.mem_toFinset]
        split at hrun
        · rename_i hfresh
          exact .inr hfresh.1
        · exact .inl (mem_running.mpr ⟨hlt, hrun⟩)
      calc (d.running (t.resolveAndStart b (.endpoints found))).card
          ≤ (d.running t ∪ b.tokens.toFinset).card := Finset.card_le_card hsub
        _ ≤ (d.running t).card + b.tokens.toFinset.card := Finset.card_union_le _ _
        _ ≤ (d.running t).card + b.tokens.length := Nat.add_le_add_left (List.toFinset_card_le _) _
    have hload : d.load (t.resolveAndStart b (.endpoints found)) =
        ((t.inflight.map fun c => if c.id = b.id then
          { c with returned := true, rejected := false } else c).map cost).sum +
            (d.running (t.resolveAndStart b (.endpoints found))).card := rfl
    rw [hload, load]
    omega

theorem sound_settle {b : Batch} (h : Sound d t n) (hb : b ∈ t.inflight) :
    Sound d (t.settle b) n ∧ d.load (t.settle b) < d.load t := by
  have hmem : ∀ a ∈ (t.settle b).inflight, a ∈ t.inflight := fun a ha => (List.mem_filter.mp ha).1
  constructor
  · constructor
    · exact h.ids.sublist (List.filter_sublist.map _)
    · exact fun a ha => h.fresh a (hmem a ha)
    · rw [ReceiveTransport.settle, h.accepted b hb]
      exact h.rejections
    · exact fun a ha => h.accepted a (hmem a ha)
    · exact h.fine
    · exact fun a ha => h.returned a (hmem a ha)
    · exact h.pendingBound
    · exact fun a ha => h.batchBound a (hmem a ha)
    · exact fun a ha => h.batchLength a (hmem a ha)
  · apply Nat.add_lt_add_right
    rw [ReceiveTransport.settle, sum_filter]
    refine Nat.lt_of_succ_le (sum_map_lt (k := 1) hb ?_ ?_)
    · intro a _
      split
      · exact Nat.le_refl _
      · exact Nat.zero_le _
    · have hcost := cost_pos b
      simp
      omega

/-- A running GET returns; it is fine if the token exists. -/
theorem sound_complete {token : Nat} {result : GetState} (h : Sound d t n)
    (hrunning : t.pending token = some .running) (hresult : result ≠ .running)
    (hfine : token < d.totalTokens → result = .fulfilled) :
    Sound d (t.complete token result) n ∧ d.load (t.complete token result) < d.load t := by
  have hpending : ∀ other, (t.complete token result).pending other =
      if other = token then some result else t.pending other := fun _ => Function.update_apply _ _ _ _
  have hbound : token < d.width := h.pendingBound token (by rw [hrunning]; exact Option.some_ne_none _)
  constructor
  · refine { h with fine := ?_, returned := ?_, pendingBound := ?_ }
    · intro other hother e
      rw [hpending]
      split
      · rename_i hsame
        rw [hfine (hsame ▸ hother)]
        exact fun h => by cases h
      · exact h.fine other hother e
    · intro b hb hreturned other hother hle hlt hfree
      rw [hpending]
      split
      · exact Option.some_ne_none _
      · exact h.returned b hb hreturned other hother hle hlt hfree
    · intro other hother
      rw [hpending] at hother
      split at hother
      · rename_i hsame
        exact hsame ▸ hbound
      · exact h.pendingBound other hother
  · apply Nat.add_lt_add_left
    apply Finset.card_lt_card
    rw [Finset.ssubset_iff_of_subset]
    · refine ⟨token, mem_running.mpr ⟨hbound, hrunning⟩, fun hmem => ?_⟩
      have hrun := (mem_running.mp hmem).2
      rw [hpending, if_pos rfl] at hrun
      exact hresult (Option.some.inj hrun)
    · intro other hother
      obtain ⟨hlt, hrun⟩ := mem_running.mp hother
      rw [hpending] at hrun
      split at hrun
      · exact absurd (Option.some.inj hrun) hresult
      · exact mem_running.mpr ⟨hlt, hrun⟩

theorem ensure_pending (t : ReceiveTransport) (tokens : List Nat) :
    (t.ensureTokensStarted tokens).1.pending = t.pending := by
  rw [ReceiveTransport.ensureTokensStarted]
  split <;> rfl

/-- A token that is asked for is pending, or in a batch that is waited for. -/
theorem ensure_waits {token : Nat} (htoken : token ∈ tokens) (hnone : t.pending token = none)
    (hfree : token ∉ t.cancelledBeforeResolve) :
    ∃ b ∈ (t.ensureTokensStarted tokens).1.inflight, b.id ∈ (t.ensureTokensStarted tokens).2 ∧
      token ∈ b.tokens := by
  have hbatch : ∃ b ∈ (t.ensureTokensStarted tokens).1.inflight, token ∈ b.tokens := by
    rw [ReceiveTransport.ensureTokensStarted]
    cases hflight : t.inFlight token with
    | true =>
      rw [ReceiveTransport.inFlight, List.any_eq_true] at hflight
      obtain ⟨b, hb, hmem⟩ := hflight
      refine ⟨b, ?_, of_decide_eq_true hmem⟩
      dsimp only
      split
      · exact List.mem_append_left _ hb
      · exact hb
    | false =>
      have hneeded : token ∈ t.needed tokens := by
        rw [ReceiveTransport.needed, List.mem_filter, List.mem_dedup, decide_eq_true_iff]
        exact ⟨htoken, hnone, hfree, hflight⟩
      rw [if_pos (List.ne_nil_of_mem hneeded)]
      exact ⟨_, List.mem_append_right _ (List.mem_singleton_self _), hneeded⟩
  obtain ⟨b, hb, hmem⟩ := hbatch
  refine ⟨b, hb, ?_, hmem⟩
  refine List.mem_map.mpr ⟨b, List.mem_filter.mpr ⟨hb, ?_⟩, rfl⟩
  rw [List.any_eq_true]
  exact ⟨token, htoken, decide_eq_true hmem⟩

/-- A failure that no resolve and no GET is to blame for. -/
def Expected : DownloadFailure → Prop
  | .cancelled _ => True
  | .refused _ => True
  | .decrypt _ => True
  | _ => False

/-- What the driver waits for inside of `get` is on its way. -/
def Waiting (t : ReceiveTransport) : Position → Prop
  | .ensured token waits _ _ => token ∉ t.cancelledBeforeResolve → t.pending token = none →
      ∃ b ∈ t.inflight, b.id ∈ waits ∧ token ∈ b.tokens
  | .body token _ _ => t.pending token ≠ none
  | .failed e => Expected e
  | _ => True

structure Healthy (d : Download) (s : Session) : Prop where
  tracks : Tracks d s
  sound : Sound d s.transport s.delivered.length
  waiting : Waiting s.transport s.position

/-- The steps that the driver still takes, from above. -/
def rank (d : Download) : Position → Nat
  | .begin => 6 * d.totalTokens
  | .window token => 6 * (d.totalTokens - token)
  | .rest => 6 * (d.totalTokens - 1)
  | .starting _ token => 6 * (d.totalTokens - token) - 1
  | .fetch token _ _ => 6 * (d.totalTokens - token) - 2
  | .ensured token _ _ _ => 6 * (d.totalTokens - token) - 3
  | .body token _ _ => 6 * (d.totalTokens - token) - 4
  | .got token => 6 * (d.totalTokens - token) - 5
  | .done => 0
  | .failed _ => 0

/-- What is left to do. -/
def work (d : Download) (s : Session) : Nat := (d.width + 3) * rank d s.position + d.load s.transport

/-- A step of the driver pays for a batch. -/
theorem work_lt {s s' : Session} (hrank : rank d s'.position < rank d s.position)
    (hload : d.load s'.transport ≤ d.load s.transport + (d.width + 2)) : work d s' < work d s := by
  have hstep : (d.width + 3) * (rank d s'.position + 1) ≤ (d.width + 3) * rank d s.position :=
    Nat.mul_le_mul_left _ hrank
  rw [work, work]
  rw [Nat.mul_add, Nat.mul_one] at hstep
  omega

variable {s s' : Session}

theorem totalTokens_le_width : d.totalTokens ≤ d.width := le_max_right _ _

/-- A wait that ends leads on, for no promise was rejected. -/
theorem Sound.afterWaits_eq {waits : List Nat} {then_ : Session} (h : Sound d s.transport n)
    (hs : afterWaits s waits then_ = some s') : s.transport.allSettled waits = true ∧ s' = then_ := by
  have hnone : s.transport.anyRejected waits = false := by
    rw [ReceiveTransport.anyRejected, h.rejections, List.any_eq_false]
    intro id _
    simp
  rw [afterWaits, hnone] at hs
  simp only [Bool.false_eq_true, if_false] at hs
  split at hs
  · rename_i hsettled
    exact ⟨hsettled, (Option.some.inj hs).symm⟩
  · cases hs

theorem healthy_startConcurrentGet {token : Nat} (h : Healthy d s)
    (htokens : ∀ token ∈ tokens, token < d.width) (ht : Tracks d (startConcurrentGet s tokens token))
    (hrank : 6 * (d.totalTokens - token) - 1 < rank d s.position) :
    Healthy d (startConcurrentGet s tokens token) ∧
      work d (startConcurrentGet s tokens token) < work d s := by
  obtain ⟨hsound, hload⟩ := sound_ensure h.sound htokens
  exact ⟨⟨ht, hsound, trivial⟩, work_lt hrank hload⟩

/-- A step that leaves the transport alone. -/
theorem healthy_go {p : Position} (h : Healthy d s) (ht : Tracks d { s with position := p })
    (hwaiting : Waiting s.transport p) (hrank : rank d p < rank d s.position) :
    Healthy d { s with position := p } ∧ work d { s with position := p } < work d s :=
  ⟨⟨ht, h.sound, hwaiting⟩, work_lt hrank (Nat.le_add_right _ _)⟩

theorem rank_loopAt (token : Nat) : rank d (d.loopAt token) ≤ 6 * (d.totalTokens - token) := by
  rw [loopAt]
  split
  · split
    · exact Nat.le_refl _
    · exact Nat.sub_le _ _
  · exact Nat.zero_le _

theorem rank_afterGot (token : Nat) :
    rank d (d.afterGot token) ≤ 6 * (d.totalTokens - (token + 1)) := by
  rw [afterGot]
  split
  · rename_i hrest
    rw [hrest.1]
    exact Nat.le_refl _
  · exact rank_loopAt _

theorem waiting_afterGot (t : ReceiveTransport) (token : Nat) : Waiting t (d.afterGot token) := by
  rw [afterGot]
  split
  · trivial
  · rw [loopAt]
    split
    · split <;> trivial
    · trivial

/-- The block of a token. -/
theorem healthy_consume {token : Nat} (h : Healthy d s) (ht : Tracks d (d.consume s token))
    (hp : s.position = .got token) (hlt : token < d.totalTokens) :
    Healthy d (d.consume s token) ∧ work d (d.consume s token) < work d s := by
  have htransport : Sound d (if token = 0 then d.cancelAfterSmb s.transport else s.transport)
        s.delivered.length ∧
      d.load (if token = 0 then d.cancelAfterSmb s.transport else s.transport) ≤
        d.load s.transport := by
    split
    · exact sound_cancelAfterSmb h.sound
    · exact ⟨h.sound, Nat.le_refl _⟩
  have hrank := rank_afterGot (d := d) token
  rw [consume] at ht ⊢
  split
  case isTrue hrefused =>
    rw [if_pos hrefused] at ht
    apply healthy_go h ht trivial
    rw [hp, rank, rank]
    omega
  case isFalse hpassed =>
    rw [if_neg hpassed] at ht
    have hwaiting (u : ReceiveTransport) : Waiting u
        (if d.intake token = .taken then d.afterGot token else .failed (.decrypt token)) := by
      split
      · exact waiting_afterGot _ _
      · trivial
    refine ⟨⟨ht, htransport.1, hwaiting _⟩,
      work_lt ?_ (Nat.le_trans htransport.2 (Nat.le_add_right _ _))⟩
    show rank d (if d.intake token = .taken then d.afterGot token else .failed (.decrypt token)) < _
    rw [hp]
    split
    · simp only [rank] at hrank ⊢
      omega
    · rw [rank, rank]
      omega

theorem healthy_advance (h : Healthy d s) (hs : d.advance s = some s') :
    Healthy d s' ∧ work d s' < work d s := by
  have ht := tracks_advance h.tracks hs
  have hplace := h.tracks.inPlace
  have hpos := d.totalTokens_pos
  have hwidth := totalTokens_le_width (d := d)
  rw [advance] at hs
  cases hp : s.position with
  | begin =>
    rw [hp] at hs
    cases hs
    apply healthy_startConcurrentGet h _ ht
    · rw [hp, rank]
      omega
    · intro token htoken
      exact Nat.lt_of_lt_of_le (mem_indexTokens.mp htoken).2 (le_max_left _ _)
  | starting waits token =>
    rw [hp] at hs hplace
    obtain ⟨-, rfl⟩ := h.sound.afterWaits_eq hs
    have hlt := hplace.1
    apply healthy_go h ht trivial
    rw [hp, rank, rank]
    omega
  | fetch token registryAttempts relayAttempts =>
    rw [hp] at hs hplace
    cases hs
    have hlt := hplace.1
    rw [fetch] at ht ⊢
    split
    · rename_i hmem
      rw [if_pos hmem] at ht
      apply healthy_go h ht trivial
      rw [hp, rank, rank]
      omega
    · rename_i hfree
      rw [if_neg hfree] at ht
      have hbound : ∀ other ∈ [token], other < d.width := by
        intro other hother
        rw [List.mem_singleton] at hother
        omega
      obtain ⟨hsound, hload⟩ := sound_ensure h.sound hbound
      refine ⟨⟨ht, hsound, fun _ hnone => ?_⟩, work_lt ?_ hload⟩
      · have hbefore : s.transport.pending token = none := by
          rw [← ensure_pending s.transport [token]]
          exact hnone
        exact ensure_waits (List.mem_singleton_self _) hbefore hfree
      · rw [hp, rank, rank]
        omega
  | ensured token waits registryAttempts relayAttempts =>
    rw [hp] at hs hplace
    have hwaiting := h.waiting
    rw [hp] at hwaiting
    have hlt := hplace.1
    obtain ⟨hsettled, rfl⟩ := h.sound.afterWaits_eq hs
    rw [afterEnsured] at ht ⊢
    by_cases hmem : token ∈ s.transport.cancelledBeforeResolve
    · rw [if_pos hmem] at ht ⊢
      apply healthy_go h ht trivial
      rw [hp, rank, rank]
      omega
    · rw [if_neg hmem] at ht ⊢
      -- all promises that the token was in are over, so it is pending
      have hsome : s.transport.pending token ≠ none := by
        intro hnone
        obtain ⟨b, hb, hid, -⟩ := hwaiting hmem hnone
        rw [ReceiveTransport.allSettled, List.all_eq_true] at hsettled
        exact of_decide_eq_true (hsettled b hb) hid
      rw [if_pos hsome] at ht ⊢
      apply healthy_go h ht hsome
      rw [hp, rank, rank]
      omega
  | body token registryAttempts relayAttempts =>
    rw [hp] at hs hplace
    obtain ⟨hlt, hdelivered, -⟩ := hplace
    obtain ⟨state, hstate, hbody⟩ := Option.bind_eq_some_iff.mp hs
    cases state with
    | running => cases hbody
    | rejected e => exact absurd hstate (h.sound.fine token hlt e)
    | fulfilled =>
      cases hbody
      have hlength : s.delivered.length = token := by rw [hdelivered, List.length_range]
      have hsound := h.sound
      rw [hlength] at hsound
      obtain ⟨hsound', hload⟩ := sound_deliver hsound
      refine ⟨⟨ht, ?_, trivial⟩, work_lt ?_ (Nat.le_trans hload (Nat.le_add_right _ _))⟩
      · rw [List.length_append, hlength]
        exact hsound'
      · rw [hp, rank, rank]
        omega
  | got token =>
    rw [hp] at hs hplace
    cases hs
    exact healthy_consume h ht hp hplace.1
  | window token =>
    rw [hp] at hs hplace
    cases hs
    have hlt := hplace.1
    apply healthy_startConcurrentGet h _ ht
    · rw [hp, rank]
      omega
    · intro other hother
      have hmin := (mem_indexTokens.mp hother).2
      omega
  | rest =>
    rw [hp] at hs hplace
    cases hs
    have hlt := hplace.1
    apply healthy_startConcurrentGet h _ ht
    · rw [hp, rank]
      omega
    · intro other hother
      have hfetch : ∀ other ∈ d.plan.fetchAfterSmb, other < d.totalTokens := by
        rw [plan, computeReceiveDownloadPlan]
        split
        · exact fun other hother => (mem_indexTokens.mp hother).2
        · split <;> exact fun other hother => by cases hother
      exact Nat.lt_of_lt_of_le (hfetch other hother) hwidth
  | done =>
    rw [hp] at hs
    cases hs
  | failed e =>
    rw [hp] at hs
    cases hs

theorem Waiting.keep {u : ReceiveTransport} {p : Position} (h : Waiting t p)
    (hcancelled : u.cancelledBeforeResolve = t.cancelledBeforeResolve)
    (hpending : ∀ token, u.pending token = none → t.pending token = none)
    (hbatch : ∀ token waits registryAttempts relayAttempts,
      p = .ensured token waits registryAttempts relayAttempts → token ∉ t.cancelledBeforeResolve →
        u.pending token = none → ∀ b ∈ t.inflight, token ∈ b.tokens →
          ∃ b' ∈ u.inflight, b'.id = b.id ∧ token ∈ b'.tokens) : Waiting u p := by
  cases p with
  | ensured token waits registryAttempts relayAttempts =>
    intro hfree hnone
    rw [hcancelled] at hfree
    obtain ⟨b, hb, hid, hmem⟩ := h hfree (hpending token hnone)
    obtain ⟨b', hb', hsame, hmem'⟩ := hbatch token waits _ _ rfl hfree hnone b hb hmem
    exact ⟨b', hb', hsame ▸ hid, hmem'⟩
  | body token registryAttempts relayAttempts => exact fun hnone => h (hpending token hnone)
  | failed e => exact h
  | _ => trivial

/-- The events that leave the driver where it is. -/
theorem healthy_beside {u : ReceiveTransport} (ht : Tracks d { s with transport := u })
    (hsound : Sound d u s.delivered.length ∧ d.load u < d.load s.transport)
    (hwaiting : Waiting u s.position) :
    Healthy d { s with transport := u } ∧ work d { s with transport := u } < work d s :=
  ⟨⟨ht, hsound.1, hwaiting⟩, Nat.add_lt_add_left hsound.2 _⟩

theorem healthy_resolve {id : Nat} {outcome : ResolveOutcome} (h : Healthy d s)
    (hsucceeds : Succeeds d s (.resolve id outcome)) (hs : d.after s (.resolve id outcome) = some s') :
    Healthy d s' ∧ work d s' < work d s := by
  have ht := tracks_after h.tracks hs
  obtain ⟨b, hb, rfl⟩ := Option.map_eq_some_iff.mp hs
  obtain ⟨found, rfl, hfound⟩ := hsucceeds b hb
  obtain ⟨hmem, hreturned⟩ := found_batch hb
  apply healthy_beside ht (sound_resolve h.sound hmem hreturned hfound)
  refine h.waiting.keep (u := s.transport.resolveAndStart b (.endpoints found)) rfl ?_ ?_
  · intro token hnone
    by_contra hsome
    have hpending : (s.transport.resolveAndStart b (.endpoints found)).pending token =
        s.transport.pending token := if_neg fun hfresh => hsome hfresh.2.1
    exact hsome (hpending ▸ hnone)
  · intro token waits _ _ _ _ _ a ha htoken
    refine ⟨_, List.mem_map.mpr ⟨a, ha, rfl⟩, ?_⟩
    split <;> exact ⟨rfl, htoken⟩

theorem healthy_settle {id : Nat} (h : Healthy d s) (hs : d.after s (.settle id) = some s') :
    Healthy d s' ∧ work d s' < work d s := by
  have ht := tracks_after h.tracks hs
  have hplace := h.tracks.inPlace
  obtain ⟨b, hb, rfl⟩ := Option.map_eq_some_iff.mp hs
  obtain ⟨hmem, hreturned⟩ := found_batch hb
  apply healthy_beside ht (sound_settle h.sound hmem)
  refine h.waiting.keep (u := s.transport.settle b) rfl (fun token hnone => hnone) ?_
  intro token waits registryAttempts relayAttempts hp hfree hnone a ha htoken
  refine ⟨a, List.mem_filter.mpr ⟨ha, ?_⟩, rfl, htoken⟩
  rw [decide_eq_true_iff]
  intro hid
  -- the batch that is over would have set the promise
  have hsame := h.sound.batch_eq ha hmem hid
  subst hsame
  rw [hp] at hplace
  refine h.sound.returned a ha hreturned token htoken ?_ hplace.1 hfree hnone
  rw [hplace.2, List.length_range]

theorem healthy_complete {token : Nat} {error : Option DownloadError} (h : Healthy d s)
    (hsucceeds : Succeeds d s (.complete token error)) (hs : d.after s (.complete token error) = some s') :
    Healthy d s' ∧ work d s' < work d s := by
  have ht := tracks_after h.tracks hs
  rw [after.eq_def] at hs
  dsimp only at hs
  split at hs
  · rename_i hrunning
    cases hs
    apply healthy_beside ht
    · apply sound_complete h.sound hrunning (settled_ne_running error)
      intro htoken
      rw [hsucceeds htoken]
      rfl
    · refine h.waiting.keep (u := s.transport.complete token (settled error)) rfl ?_ ?_
      · intro other hnone
        simp only [ReceiveTransport.complete, Function.update_apply] at hnone
        split at hnone
        · cases hnone
        · exact hnone
      · exact fun other waits _ _ _ _ _ b hb hmem => ⟨b, hb, rfl, hmem⟩
  · cases hs

theorem healthy_after {e : Event} (h : Healthy d s) (hsucceeds : Succeeds d s e)
    (hs : d.after s e = some s') : Healthy d s' ∧ work d s' < work d s := by
  cases e with
  | driver => exact healthy_advance h hs
  | resolve id outcome => exact healthy_resolve h hsucceeds hs
  | settle id => exact healthy_settle h hs
  | complete token error => exact healthy_complete h hsucceeds hs

theorem healthy_next {e : Event} (h : Healthy d s) (hsucceeds : Succeeds d s e) :
    Healthy d (d.next s e) := by
  rw [next]
  cases hs : d.after s e with
  | none => exact h
  | some s' => exact (healthy_after h hsucceeds hs).1

theorem healthy_start (d : Download) : Healthy d start := by
  refine ⟨tracks_start, ?_, trivial⟩
  constructor
  · exact List.nodup_nil
  · exact fun b hb => by cases hb
  · rfl
  · exact fun b hb => by cases hb
  · exact fun token _ e h => by cases h
  · exact fun b hb => by cases hb
  · exact fun token h => absurd rfl h
  · exact fun b hb => by cases hb
  · exact fun b hb => by cases hb

/-- A run is no longer than the work that there was. -/
theorem length_le_work {events : List Event} (h : Healthy d s)
    (ha : Along d.next (fun s e => Succeeds d s e ∧ Enabled d s e) s events) :
    events.length ≤ work d s := by
  induction events generalizing s with
  | nil => exact Nat.zero_le _
  | cons e events ih =>
    obtain ⟨⟨hsucceeds, henabled⟩, hrest⟩ := ha
    obtain ⟨s', hs⟩ := Option.ne_none_iff_exists'.mp henabled
    obtain ⟨hhealthy, hwork⟩ := healthy_after h hsucceeds hs
    have hnext : d.next s e = s' := by rw [next, hs, Option.getD_some]
    rw [hnext] at hrest
    have hlength := ih hhealthy hrest
    rw [List.length_cons]
    omega

/-- So some run goes on until nothing is left. -/
theorem exists_stuck (h : Healthy d s) :
    ∃ events, Along d.next (Succeeds d) s events ∧ Stuck d (exec d.next s events) := by
  induction hw : work d s using Nat.strong_induction_on generalizing s with
  | _ w ih =>
    by_cases hstuck : Stuck d s
    · exact ⟨[], trivial, hstuck⟩
    · rw [Stuck] at hstuck
      simp only [not_forall, not_not] at hstuck
      obtain ⟨e, hsucceeds, henabled⟩ := hstuck
      obtain ⟨s', hs⟩ := Option.ne_none_iff_exists'.mp henabled
      obtain ⟨hhealthy, hwork⟩ := healthy_after h hsucceeds hs
      have hnext : d.next s e = s' := by rw [next, hs, Option.getD_some]
      obtain ⟨events, halong, hend⟩ := ih _ (hw ▸ hwork) hhealthy rfl
      refine ⟨e :: events, ⟨hsucceeds, ?_⟩, ?_⟩
      · rw [hnext]
        exact halong
      · rw [exec_cons, hnext]
        exact hend

/-- While a batch or a GET is under way something can happen. -/
theorem Stuck.idle (h : Stuck d s) :
    s.transport.inflight = [] ∧ ∀ token, s.transport.pending token ≠ some .running := by
  constructor
  · by_contra hne
    obtain ⟨b, hb⟩ := List.exists_mem_of_ne_nil _ hne
    cases hreturned : b.returned with
    | false =>
      have hsome : (resolving s.transport b.id).isSome := by
        rw [resolving, List.find?_isSome]
        exact ⟨b, hb, by simp [hreturned]⟩
      obtain ⟨first, hfirst⟩ := Option.isSome_iff_exists.mp hsome
      apply h (.resolve b.id (.endpoints first.tokens))
      · intro other hother
        rw [hfirst] at hother
        cases hother
        exact ⟨_, rfl, fun token htoken _ => htoken⟩
      · rw [Enabled, after, hfirst]
        exact Option.some_ne_none _
    | true =>
      have hsome : (returned s.transport b.id).isSome := by
        rw [returned, List.find?_isSome]
        exact ⟨b, hb, by simp [hreturned]⟩
      obtain ⟨first, hfirst⟩ := Option.isSome_iff_exists.mp hsome
      apply h (.settle b.id) trivial
      rw [Enabled, after, hfirst]
      exact Option.some_ne_none _
  · intro token hrunning
    apply h (.complete token none) fun _ => rfl
    rw [Enabled, after.eq_def]
    dsimp only
    rw [if_pos hrunning]
    exact Option.some_ne_none _

theorem afterWaits_isSome {waits : List Nat} {then_ : Session} (h : s.transport.inflight = []) :
    afterWaits s waits then_ ≠ none := by
  have hsettled : s.transport.allSettled waits = true := by rw [ReceiveTransport.allSettled, h]; rfl
  rw [afterWaits, hsettled]
  split
  · exact Option.some_ne_none _
  · exact Option.some_ne_none _

/-- Then the driver is done, unless it has met a cancelled token or a block that is not taken. -/
theorem Healthy.end (h : Healthy d s) (hstuck : Stuck d s) :
    s.position = .done ∨ ∃ e, s.position = .failed e ∧ Expected e := by
  obtain ⟨hinflight, hidle⟩ := hstuck.idle
  have hdriver : d.advance s = none := not_not.mp (hstuck .driver trivial)
  have hwaiting := h.waiting
  rw [advance] at hdriver
  cases hp : s.position with
  | starting waits token =>
    rw [hp] at hdriver
    exact absurd hdriver (afterWaits_isSome hinflight)
  | ensured token waits registryAttempts relayAttempts =>
    rw [hp] at hdriver
    exact absurd hdriver (afterWaits_isSome hinflight)
  | body token registryAttempts relayAttempts =>
    rw [hp] at hdriver hwaiting
    obtain ⟨state, hstate⟩ := Option.ne_none_iff_exists'.mp hwaiting
    dsimp only at hdriver
    rw [hstate, Option.bind_some] at hdriver
    cases state with
    | running => exact absurd hstate (hidle token)
    | fulfilled => cases hdriver
    | rejected e =>
      cases e with
      | transient =>
        rw [afterBody] at hdriver
        split at hdriver <;> cases hdriver
      | expired => cases hdriver
      | other => cases hdriver
  | done => exact .inl rfl
  | failed e =>
    rw [hp] at hwaiting
    exact .inr ⟨e, rfl, hwaiting⟩
  | _ =>
    rw [hp] at hdriver
    cases hdriver

theorem healthy_exec {events : List Event} (ha : Along d.next (Succeeds d) start events) :
    Healthy d (exec d.next start events) := by
  have hstep : ∀ s e, Healthy d s → Succeeds d s e → Healthy d (d.next s e) :=
    fun _ _ h hsucceeds => healthy_next h hsucceeds
  exact exec_invariant hstep (healthy_start d) ha

/-- The block that the driver is at, or has ended with, is the last one delivered. -/
theorem Tracks.last {token : Nat} (h : Tracks d s) (hp : atHand s.position = some token) :
    token < d.totalTokens ∧ s.delivered = List.range (token + 1) := by
  have hplace := h.inPlace
  cases hposition : s.position with
  | got other =>
    rw [hposition] at hp hplace
    obtain rfl := Option.some.inj hp
    exact hplace
  | failed e =>
    rw [hposition] at hp hplace
    cases e with
    | refused other =>
      obtain rfl := Option.some.inj hp
      exact ⟨hplace.1, hplace.2.1⟩
    | decrypt other =>
      obtain rfl := Option.some.inj hp
      exact ⟨hplace.1, hplace.2.1⟩
    | _ => cases hp
  | _ =>
    rw [hposition] at hp
    cases hp

/-- A download that delivers everything has taken every block but the last. -/
theorem Tracks.takesLeading (h : Tracks d s) (hall : s.delivered = List.range d.totalTokens) :
    TakesLeading d := by
  intro token htoken
  have hmem : token ∈ s.delivered := by
    rw [hall, List.mem_range]
    omega
  refine (h.taken token hmem).resolve_right fun hp => ?_
  have hlen := congrArg List.length ((h.last hp).2.symm.trans hall)
  rw [List.length_range, List.length_range] at hlen
  omega

/-- A run in which nothing is left to happen, and no cancelled token was met. -/
theorem Healthy.ended (h : Healthy d s) (hstuck : Stuck d s)
    (hkept : ∀ token, s.position ≠ .failed (.cancelled token)) :
    (s.position = .done ∧ s.delivered = List.range d.totalTokens) ∨
      ∃ token < d.totalTokens, s.delivered = List.range (token + 1) ∧
        (s.position = .failed (.refused token) ∧ d.intake token = .refused ∨
          s.position = .failed (.decrypt token) ∧ d.intake token = .thrown) := by
  have hplace := h.tracks.inPlace
  rcases h.end hstuck with hdone | ⟨e, hfailed, hexpected⟩
  · rw [hdone] at hplace
    exact .inl ⟨hdone, hplace⟩
  · rw [hfailed] at hplace
    cases e with
    | cancelled token => exact absurd hfailed (hkept token)
    | refused token => exact .inr ⟨token, hplace.1, hplace.2.1, .inl ⟨hfailed, hplace.2.2⟩⟩
    | decrypt token => exact .inr ⟨token, hplace.1, hplace.2.1, .inr ⟨hfailed, hplace.2.2⟩⟩
    | _ => cases hexpected

theorem notCancelled_of_window (hwindow : WithinWindow d) (events : List Event) (token : Nat) :
    (exec d.next start events).position ≠ .failed (.cancelled token) := by
  intro hp
  have hplace := (tracks_exec d events).inPlace
  rw [hp] at hplace
  obtain ⟨hmem, hlt⟩ := hplace
  have hbeyond := (withinWindow_iff d).mp hwindow token hmem
  omega

/-- A download loses no token that it needs exactly when its first prefetch was not too wide, and no
block before the last one ends it. -/
theorem neverLoses_iff (d : Download) : NeverLoses d ↔ WithinWindow d ∧ TakesLeading d := by
  constructor
  · intro h
    obtain ⟨events, halong, hstuck⟩ := exists_stuck (healthy_start d)
    obtain ⟨hdelivered, -⟩ := h.delivers events halong hstuck
    have htracks := tracks_exec d events
    refine ⟨?_, htracks.takesLeading hdelivered⟩
    by_contra hwide
    rw [WithinWindow, not_or, Nat.not_le, Nat.not_le] at hwide
    have hkept := htracks.kept d.concurrentM
      (by rw [hdelivered]; exact List.mem_range.mpr hwide.2) d.concurrentM_pos
    exact hkept (d.mem_toCancel.mpr (.inl ⟨Nat.le_refl _, hwide.1⟩))
  · rintro ⟨hwindow, htakes⟩
    have hnotCancelled := notCancelled_of_window hwindow
    constructor
    · intro events token hawaited hmem
      have htracks := tracks_exec d events
      have hplace := htracks.inPlace
      have hlt : token < d.totalTokens := by
        cases hp : (exec d.next start events).position <;> rw [hp] at hawaited hplace <;>
          cases hawaited <;> exact hplace.1
      rw [htracks.cancelled] at hmem
      split at hmem
      · exact absurd ((withinWindow_iff d).mp hwindow token hmem) (Nat.not_le.mpr hlt)
      · cases hmem
    · exact hnotCancelled
    · exact ⟨work d start, fun events ha => length_le_work (healthy_start d) ha⟩
    · intro events ha hstuck
      rcases (healthy_exec ha).ended hstuck (hnotCancelled events) with
        ⟨hdone, hdelivered⟩ | ⟨token, hlt, hdelivered, hintake⟩
      · exact ⟨hdelivered, fun _ => hdone⟩
      · have hnot : d.intake token ≠ .taken := by
          rcases hintake with ⟨-, hcase⟩ | ⟨-, hcase⟩ <;> rw [hcase] <;> decide
        have hlast : token + 1 = d.totalTokens := by
          by_contra hne
          exact hnot (htakes token (by omega))
        rw [hlast] at hdelivered
        exact ⟨hdelivered, fun hall => absurd (hall token hlt) hnot⟩

/-- The wire blocks turn out larger than the relay's limit had made expect. -/
def shrinking : Download :=
  { estimatedM := 3, concurrentM := 2, totalTokens := 3, useStreamingDecrypt := true,
    resolveMaxAttempts := 20, getMaxAttempts := 120, intake := fun _ => .taken,
    estimatedM_pos := by decide, concurrentM_pos := by decide, totalTokens_pos := by decide }

/-- All three tokens are resolved and fetched, and the driver takes the first two of them. -/
def fetched : List Event :=
  [.driver, .resolve 0 (.endpoints [0, 1, 2]), .settle 0, .complete 0 none, .complete 1 none,
    .complete 2 none] ++ List.replicate 15 .driver

/-- The last one was cancelled after the SMB, so its `get` rejects. -/
theorem shrinking_loses : ¬ NeverLoses shrinking := by
  intro h
  apply h.notCancelled fetched 2
  decide

end TwelveC.Client.Download
