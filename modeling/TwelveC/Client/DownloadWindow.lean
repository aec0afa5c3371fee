import TwelveC.Client.DownloadProgress
import Mathlib.Order.Interval.Finset.Nat

/-!
# The window of a streaming download

The driver waits for the resolves it has started before it fetches a token, so
what is requested or held at any time lies in the `concurrentM` tokens from the
one it is at. The tokens are fed in order; all of them are if no block before
the last ends the download, and the last one comes to the session.
-/

namespace TwelveC.Client.Download

open Lib Lib.Run

variable (d : Download)

/-- The token is in the pending map or in the one of the batches. -/
def Requested (t : ReceiveTransport) (token : Nat) : Prop :=
  t.pending token ≠ none ∨ ∃ b ∈ t.inflight, token ∈ b.tokens

/-- The token is requested or downloaded, and not consumed. -/
def Outstanding (s : Session) (token : Nat) : Prop :=
  Requested s.transport token ∨ s.position = .got token

/-- The first token that is not consumed. -/
def front : Position → Option Nat
  | .begin => some 0
  | .starting _ token => some token
  | .fetch token _ _ => some token
  | .ensured token _ _ _ => some token
  | .body token _ _ => some token
  | .got token => some token
  | .window token => some token
  | .rest => none
  | .done => none
  | .failed _ => none

/-- Only what the driver waits for is being resolved. -/
def Awaited (t : ReceiveTransport) : Position → Prop
  | .starting waits _ => ∀ b ∈ t.inflight, b.id ∈ waits
  | .ensured _ waits _ _ => ∀ b ∈ t.inflight, b.id ∈ waits
  | .got token => t.inflight = [] ∧ ¬ Requested t token
  | .failed _ => True
  | .rest => False
  | _ => t.inflight = []

structure Windowed (first : Nat) (s : Session) : Prop where
  front : ∀ token, Download.front s.position = some token → token = first
  awaited : Awaited s.transport s.position
  outstanding : ∀ token, Outstanding s token → first ≤ token ∧ token < first + d.concurrentM

variable {d} {s s' : Session} {first : Nat}

/-- Everything awaited is settled. -/
theorem inflight_of_settled {t : ReceiveTransport} {waits : List Nat}
    (h : ∀ b ∈ t.inflight, b.id ∈ waits) (hsettled : t.allSettled waits = true) : t.inflight = [] := by
  rw [ReceiveTransport.allSettled, List.all_eq_true] at hsettled
  rw [List.eq_nil_iff_forall_not_mem]
  intro b hb
  exact of_decide_eq_true (hsettled b hb) (h b hb)

/-- A start with nothing under way: what it starts it waits for. -/
theorem ensure_awaited {t : ReceiveTransport} (h : t.inflight = []) (tokens : List Nat) :
    ∀ b ∈ (t.ensureTokensStarted tokens).1.inflight,
      b.id ∈ (t.ensureTokensStarted tokens).2 ∧ ∀ token ∈ b.tokens, token ∈ tokens := by
  intro b hb
  rw [ReceiveTransport.ensureTokensStarted] at hb ⊢
  dsimp only at hb ⊢
  split at hb
  case isFalse =>
    rw [h] at hb
    cases hb
  case isTrue hneeded =>
    rw [if_pos hneeded]
    have hb' := hb
    rw [ReceiveTransport.startBatch, h, List.nil_append, List.mem_singleton] at hb'
    subst hb'
    obtain ⟨token, htoken⟩ := List.exists_mem_of_ne_nil _ hneeded
    refine ⟨?_, fun token htoken => (needed_sub htoken).1⟩
    rw [ReceiveTransport.waits]
    refine List.mem_map.mpr ⟨_, List.mem_filter.mpr ⟨hb, ?_⟩, rfl⟩
    simp only [List.any_eq_true, decide_eq_true_eq]
    exact ⟨token, (needed_sub htoken).1, htoken⟩

theorem requested_ensure {t : ReceiveTransport} {tokens : List Nat} {token : Nat}
    (h : t.inflight = []) (ho : Requested (t.ensureTokensStarted tokens).1 token) :
    Requested t token ∨ token ∈ tokens := by
  rcases ho with hpending | ⟨b, hb, htoken⟩
  · rw [ensure_pending] at hpending
    exact .inl (.inl hpending)
  · exact .inr ((ensure_awaited h tokens b hb).2 token htoken)

/-- Nothing more is outstanding, at the same front. -/
theorem Windowed.go {t : ReceiveTransport} {p : Position} (h : Windowed d first s)
    (hfront : ∀ token, Download.front p = some token → token = first) (hawaited : Awaited t p)
    (hgot : ∀ token, p ≠ .got token) (hsub : ∀ token, Requested t token → Requested s.transport token) :
    Windowed d first { s with transport := t, position := p } := by
  refine ⟨hfront, hawaited, fun token ho => h.outstanding token (.inl ?_)⟩
  exact hsub token (ho.resolve_right (hgot token))

theorem Windowed.fail {e : DownloadFailure} {t : ReceiveTransport} (h : Windowed d first s)
    (hsub : ∀ token, Requested t token → Requested s.transport token) :
    Windowed d first { s with transport := t, position := .failed e } :=
  h.go (fun _ hfront => by cases hfront) trivial (fun _ hgot => by cases hgot) hsub

/-- A prefetch inside of the window. -/
theorem windowed_start {tokens : List Nat} {token : Nat} (h : Windowed d first s)
    (hidle : s.transport.inflight = []) (hfront : token = first)
    (htokens : ∀ token ∈ tokens, first ≤ token ∧ token < first + d.concurrentM) :
    Windowed d first (startConcurrentGet s tokens token) where
  front _ hf := (Option.some.inj hf).symm.trans hfront
  awaited b hb := (ensure_awaited hidle tokens b hb).1
  outstanding other ho := by
    have hrequested := ho.resolve_right fun hgot => by cases hgot
    rcases requested_ensure hidle hrequested with hbefore | hnew
    · exact h.outstanding other (.inl hbefore)
    · exact htokens other hnew

theorem requested_forget {t : ReceiveTransport} {token other : Nat} (hidle : t.inflight = [])
    (ho : Requested (t.forget token) other) : other ≠ token ∧ Requested t other := by
  have hupdate : (t.forget token).pending other = if other = token then none else t.pending other :=
    Function.update_apply ..
  rcases ho with hpending | ⟨b, hb, -⟩
  · rw [hupdate] at hpending
    split at hpending
    · exact absurd rfl hpending
    · exact ⟨by assumption, .inl hpending⟩
  · rw [ReceiveTransport.forget, hidle] at hb
    cases hb

theorem requested_cancelPending {t : ReceiveTransport} {tokens : List Nat} {token : Nat}
    (ho : Requested (t.cancelPending tokens) token) : Requested t token := by
  rcases ho with hpending | hbatch
  · rw [ReceiveTransport.cancelPending] at hpending
    dsimp only at hpending
    split at hpending
    · exact absurd rfl hpending
    · exact .inl hpending
  · exact .inr hbatch

theorem requested_cancelAfterSmb {t : ReceiveTransport} {token : Nat}
    (ho : Requested (d.cancelAfterSmb t) token) : Requested t token := by
  rw [cancelAfterSmb] at ho
  split at ho <;> split at ho
  · exact requested_cancelPending (requested_cancelPending ho)
  · exact requested_cancelPending ho
  · exact requested_cancelPending ho
  · exact ho

theorem cancelAfterSmb_inflight (t : ReceiveTransport) :
    (d.cancelAfterSmb t).inflight = t.inflight := by
  rw [cancelAfterSmb]
  split <;> split <;> rfl

/-- The block at hand is consumed, and the front moves on. -/
theorem windowed_consume (hstream : d.useStreamingDecrypt = true) {token : Nat} (h : Windowed d first s)
    (hp : s.position = .got token) : Windowed d (first + 1) (d.consume s token) := by
  have hfirst : token = first := h.front token (by rw [hp]; rfl)
  have hawaited := h.awaited
  rw [hp] at hawaited
  obtain ⟨hidle, hconsumed⟩ := hawaited
  have hnext : d.afterGot token = .window (token + 1) ∨ d.afterGot token = .done := by
    rw [afterGot, if_neg (by simp [hstream]), loopAt]
    split
    · exact .inl rfl
    · exact .inr rfl
  have hbehind : ∀ other, Requested s.transport other →
      first + 1 ≤ other ∧ other < first + 1 + d.concurrentM := by
    intro other ho
    have hwindow := h.outstanding other (.inl ho)
    have hne : other ≠ token := fun heq => hconsumed (heq ▸ ho)
    omega
  have hinflight : (if token = 0 then d.cancelAfterSmb s.transport else s.transport).inflight = [] := by
    split
    · exact (cancelAfterSmb_inflight _).trans hidle
    · exact hidle
  have hsub : ∀ other, Requested (if token = 0 then d.cancelAfterSmb s.transport else s.transport)
      other → Requested s.transport other := by
    intro other ho
    split at ho
    · exact requested_cancelAfterSmb ho
    · exact ho
  rw [consume]
  split
  · refine ⟨fun _ hfront => ?_, trivial, fun other ho => hbehind other (ho.resolve_right fun hgot => ?_)⟩
    · cases hfront
    · cases hgot
  · generalize (if token = 0 then d.cancelAfterSmb s.transport else s.transport) = t at hinflight hsub
    have hgot : ∀ other, (if d.intake token = .taken then d.afterGot token
        else .failed (.decrypt token)) ≠ .got other := by
      intro other
      split
      · rcases hnext with hnext | hnext <;> rw [hnext] <;> exact fun hgot => by cases hgot
      · exact fun hgot => by cases hgot
    refine ⟨?_, ?_, fun other ho => hbehind other (hsub other (ho.resolve_right (hgot other)))⟩
    · show ∀ other, Download.front (if d.intake token = .taken then d.afterGot token
        else .failed (.decrypt token)) = some other → other = first + 1
      split
      · rcases hnext with hnext | hnext <;> rw [hnext]
        · rintro other ⟨⟩
          rw [hfirst]
        · rintro other ⟨⟩
      · rintro other ⟨⟩
    · show Awaited t (if d.intake token = .taken then d.afterGot token else .failed (.decrypt token))
      split
      · rcases hnext with hnext | hnext <;> rw [hnext] <;> exact hinflight
      · trivial

theorem windowed_advance (hstream : d.useStreamingDecrypt = true) (hest : d.estimatedM ≤ d.concurrentM)
    (h : Windowed d first s) (hs : d.advance s = some s') : ∃ first', Windowed d first' s' := by
  have hfront := h.front
  have hawaited := h.awaited
  rw [advance] at hs
  cases hp : s.position with
  | begin =>
    rw [hp] at hs hfront hawaited
    cases hs
    have hzero : 0 = first := hfront 0 rfl
    refine ⟨first, windowed_start h hawaited hzero fun token htoken => ?_⟩
    have hmem := mem_indexTokens.mp htoken
    omega
  | starting waits token =>
    rw [hp] at hs hfront hawaited
    refine ⟨first, ?_⟩
    rcases afterWaits_some hs with rfl | ⟨hsettled, rfl⟩
    · exact h.fail fun _ ho => ho
    · exact h.go hfront (inflight_of_settled hawaited hsettled) (fun _ hgot => by cases hgot) fun _ ho => ho
  | fetch token registryAttempts relayAttempts =>
    rw [hp] at hs hfront hawaited
    cases hs
    refine ⟨first, ?_⟩
    rw [fetch]
    split
    · exact h.fail fun _ ho => ho
    · refine ⟨hfront, fun b hb => (ensure_awaited hawaited [token] b hb).1, fun other ho => ?_⟩
      rcases requested_ensure hawaited (ho.resolve_right fun hgot => by cases hgot) with ho | hother
      · exact h.outstanding other (.inl ho)
      · have hfirst : token = first := hfront token rfl
        have hpos := d.concurrentM_pos
        rw [List.mem_singleton.mp hother]
        omega
  | ensured token waits registryAttempts relayAttempts =>
    rw [hp] at hs hfront hawaited
    refine ⟨first, ?_⟩
    rcases afterWaits_some hs with rfl | ⟨hsettled, rfl⟩
    · exact h.fail fun _ ho => ho
    · have hidle := inflight_of_settled hawaited hsettled
      rw [afterEnsured]
      split
      · exact h.fail fun _ ho => ho
      · split
        · exact h.go hfront hidle (fun _ hgot => by cases hgot) fun _ ho => ho
        · split
          · exact h.fail fun _ ho => ho
          · exact h.go hfront hidle (fun _ hgot => by cases hgot) fun _ ho => ho
  | body token registryAttempts relayAttempts =>
    rw [hp] at hs hfront hawaited
    obtain ⟨state, -, hbody⟩ := Option.bind_eq_some_iff.mp hs
    have hfirst : token = first := hfront token rfl
    have hforget : ∀ other, Requested (s.transport.forget token) other →
        other ≠ token ∧ Requested s.transport other := fun _ ho => requested_forget hawaited ho
    have hpos := d.concurrentM_pos
    rcases afterBody_some hbody with ⟨-, rfl⟩ | ⟨e, rfl⟩ | rfl
    · refine ⟨first, hfront, ⟨hawaited, fun ho => (hforget token ho).1 rfl⟩, fun other ho => ?_⟩
      rcases ho with ho | hgot
      · exact h.outstanding other (.inl (hforget other ho).2)
      · obtain rfl := Position.got.inj hgot
        omega
    · exact ⟨first, h.fail fun other ho => (hforget other ho).2⟩
    · exact ⟨first, h.go hfront hawaited (fun _ hgot => by cases hgot) fun other ho => (hforget other ho).2⟩
  | got token =>
    rw [hp] at hs
    cases hs
    exact ⟨first + 1, windowed_consume hstream h hp⟩
  | window token =>
    rw [hp] at hs hfront hawaited
    cases hs
    have hfirst : token = first := hfront token rfl
    refine ⟨first, windowed_start h hawaited hfirst fun other hother => ?_⟩
    have hmem := mem_indexTokens.mp hother
    omega
  | rest =>
    rw [hp] at hawaited
    exact hawaited.elim
  | done =>
    rw [hp] at hs
    cases hs
  | failed e =>
    rw [hp] at hs
    cases hs

theorem Awaited.sub {t u : ReceiveTransport} {p : Position} (h : Awaited t p)
    (hsub : ∀ b ∈ u.inflight, ∃ b' ∈ t.inflight, b'.id = b.id)
    (hout : ∀ token, Requested u token → Requested t token) : Awaited u p := by
  have hwaits : ∀ waits : List Nat, (∀ b ∈ t.inflight, b.id ∈ waits) →
      ∀ b ∈ u.inflight, b.id ∈ waits := by
    intro waits hall b hb
    obtain ⟨b', hb', hid⟩ := hsub b hb
    exact hid ▸ hall b' hb'
  have hnil : t.inflight = [] → u.inflight = [] := by
    intro hnil
    rw [List.eq_nil_iff_forall_not_mem]
    intro b hb
    obtain ⟨b', hb', -⟩ := hsub b hb
    rw [hnil] at hb'
    cases hb'
  cases p with
  | starting waits token => exact hwaits waits h
  | ensured token waits registryAttempts relayAttempts => exact hwaits waits h
  | got token => exact ⟨hnil h.1, fun ho => h.2 (hout token ho)⟩
  | rest => exact h
  | failed e => trivial
  | _ => exact hnil h

theorem Windowed.beside {u : ReceiveTransport} (h : Windowed d first s)
    (hsub : ∀ b ∈ u.inflight, ∃ b' ∈ s.transport.inflight, b'.id = b.id)
    (hout : ∀ token, Requested u token → Requested s.transport token) :
    Windowed d first { s with transport := u } :=
  ⟨h.front, h.awaited.sub hsub hout, fun token ho => h.outstanding token (ho.imp_left (hout token))⟩

theorem mem_markReturned {t : ReceiveTransport} {id : Nat} {rejected : Bool} {b : Batch}
    (hb : b ∈ (t.markReturned id rejected).inflight) :
    ∃ b' ∈ t.inflight, b'.id = b.id ∧ b'.tokens = b.tokens := by
  obtain ⟨b', hb', rfl⟩ := List.mem_map.mp hb
  refine ⟨b', hb', ?_⟩
  split <;> exact ⟨rfl, rfl⟩

theorem pending_setPending {t : ReceiveTransport} {tokens : List Nat}
    (promise : Nat → Option GetState) {token : Nat}
    (h : (t.setPending tokens promise).pending token ≠ none) :
    t.pending token ≠ none ∨ token ∈ tokens := by
  rw [ReceiveTransport.setPending] at h
  dsimp only at h
  split at h
  · rename_i hset
    exact .inr hset.1
  · exact .inl h

/-- The end of a resolve starts GETs of its own tokens only. -/
theorem resolveAndStart_sub {t : ReceiveTransport} {b : Batch} (hb : b ∈ t.inflight)
    (outcome : ResolveOutcome) :
    (∀ a ∈ (t.resolveAndStart b outcome).inflight, ∃ a' ∈ t.inflight, a'.id = a.id ∧ a'.tokens = a.tokens) ∧
      ∀ token, Requested (t.resolveAndStart b outcome) token → Requested t token := by
  have hbatches : ∀ a ∈ (t.resolveAndStart b outcome).inflight,
      ∃ a' ∈ t.inflight, a'.id = a.id ∧ a'.tokens = a.tokens := by
    intro a ha
    cases outcome with
    | endpoints found => exact mem_markReturned ha
    | error e => cases e <;> exact mem_markReturned ha
  have hpending : ∀ token, (t.resolveAndStart b outcome).pending token ≠ none →
      t.pending token ≠ none ∨ token ∈ b.tokens := by
    intro token h
    cases outcome with
    | endpoints found =>
      exact pending_setPending (fun token => if token ∈ found then some .running else none) h
    | error e =>
      cases e with
      | expired => exact .inl h
      | transient => exact pending_setPending (fun _ => some (.rejected .transient)) h
      | other => exact pending_setPending (fun _ => some (.rejected .other)) h
  refine ⟨hbatches, fun token ho => ?_⟩
  rcases ho with h | ⟨a, ha, htoken⟩
  · exact (hpending token h).imp_right fun htoken => ⟨b, hb, htoken⟩
  · obtain ⟨a', ha', -, htokens⟩ := hbatches a ha
    exact .inr ⟨a', ha', htokens ▸ htoken⟩

theorem windowed_after {e : Event} (hstream : d.useStreamingDecrypt = true)
    (hest : d.estimatedM ≤ d.concurrentM) (h : Windowed d first s) (hs : d.after s e = some s') :
    ∃ first', Windowed d first' s' := by
  cases e with
  | driver => exact windowed_advance hstream hest h hs
  | resolve id outcome =>
    obtain ⟨b, hb, rfl⟩ := Option.map_eq_some_iff.mp hs
    obtain ⟨hbatches, hout⟩ := resolveAndStart_sub (found_batch hb).1 outcome
    refine ⟨first, h.beside (fun a ha => ?_) hout⟩
    obtain ⟨a', ha', hid, -⟩ := hbatches a ha
    exact ⟨a', ha', hid⟩
  | settle id =>
    obtain ⟨b, -, rfl⟩ := Option.map_eq_some_iff.mp hs
    refine ⟨first, h.beside (fun a ha => ⟨a, List.mem_of_mem_filter ha, rfl⟩) fun token ho => ?_⟩
    exact ho.imp_right fun ⟨a, ha, htoken⟩ => ⟨a, List.mem_of_mem_filter ha, htoken⟩
  | complete token error =>
    rw [after.eq_def] at hs
    dsimp only at hs
    split at hs
    case isFalse => cases hs
    case isTrue hrunning =>
      cases hs
      refine ⟨first, h.beside (fun a ha => ⟨a, ha, rfl⟩) fun other ho => ?_⟩
      refine ho.imp_left fun hpending => ?_
      by_cases heq : other = token
      · rw [heq, hrunning]
        exact Option.some_ne_none _
      · exact fun hnone => hpending ((Function.update_of_ne heq _ _).trans hnone)

theorem windowed_exec (hstream : d.useStreamingDecrypt = true) (hest : d.estimatedM ≤ d.concurrentM)
    (events : List Event) : ∃ first, Windowed d first (exec d.next start events) := by
  have hstep : ∀ s e, (∃ first, Windowed d first s) → True → ∃ first, Windowed d first (d.next s e) := by
    rintro s e ⟨first, h⟩ -
    rw [next]
    cases hs : d.after s e with
    | none => exact ⟨first, h⟩
    | some s' => exact windowed_after hstream hest h hs
  have hstart : ∃ first, Windowed d first start := by
    refine ⟨0, ?_, rfl, ?_⟩
    · rintro token ⟨⟩
      rfl
    · rintro token ((h | ⟨b, hb, -⟩) | hgot)
      · exact absurd rfl h
      · cases hb
      · cases hgot
  exact exec_invariant hstep hstart (along_of_forall (fun _ _ => trivial) _ _)

/-- No more than `concurrentM` tokens are outstanding. -/
theorem Windowed.card_le (h : Windowed d first s) {tokens : Finset Nat}
    (ho : ∀ token ∈ tokens, Outstanding s token) : tokens.card ≤ d.concurrentM := by
  have hsub : tokens ⊆ Finset.Ico first (first + d.concurrentM) := by
    intro token htoken
    obtain ⟨hle, hlt⟩ := h.outstanding token (ho token htoken)
    exact Finset.mem_Ico.mpr ⟨hle, hlt⟩
  calc tokens.card ≤ (Finset.Ico first (first + d.concurrentM)).card := Finset.card_le_card hsub
    _ = d.concurrentM := by rw [Nat.card_Ico, Nat.add_sub_cancel_left]

/-- The delivered tokens are the first ones, in their order. -/
theorem Tracks.delivered (h : Tracks d s)
    (hfailed : ∀ e, s.position = .failed e → ∃ token, atHand s.position = some token) :
    ∃ count ≤ d.totalTokens, s.delivered = List.range count := by
  have hplace := h.inPlace
  cases hp : s.position <;> rw [hp] at hplace
  case begin => exact ⟨0, Nat.zero_le _, hplace⟩
  case starting => exact ⟨_, Nat.le_of_lt hplace.1, hplace.2⟩
  case fetch => exact ⟨_, Nat.le_of_lt hplace.1, hplace.2⟩
  case ensured => exact ⟨_, Nat.le_of_lt hplace.1, hplace.2⟩
  case body => exact ⟨_, Nat.le_of_lt hplace.1, hplace.2.1⟩
  case got => exact ⟨_, hplace.1, hplace.2⟩
  case window => exact ⟨_, Nat.le_of_lt hplace.1, hplace.2.1⟩
  case rest => exact ⟨1, Nat.le_of_lt hplace.1, hplace.2⟩
  case done => exact ⟨_, Nat.le_refl _, hplace⟩
  case failed e =>
    obtain ⟨token, htoken⟩ := hfailed e hp
    exact ⟨token + 1, h.last htoken⟩

/-- With a first window that is not too wide only a block ends the download. -/
theorem failed_atHand {events : List Event} (hest : d.estimatedM ≤ d.concurrentM)
    (ha : Along d.next (Succeeds d) start events) (e : DownloadFailure)
    (hp : (exec d.next start events).position = .failed e) :
    ∃ token, atHand (exec d.next start events).position = some token := by
  have hwaiting := (healthy_exec ha).waiting
  rw [hp] at hwaiting ⊢
  cases e with
  | cancelled token => exact absurd hp (notCancelled_of_window (.inl hest) events token)
  | refused token => exact ⟨token, rfl⟩
  | decrypt token => exact ⟨token, rfl⟩
  | _ => exact hwaiting.elim

theorem tail_range (count : Nat) : (List.range count).tail = List.range' 1 (count - 1) := by
  rw [List.range_eq_range', List.tail_range']

/-- Over every order of the driver's steps, resolves and GETs the window is kept and the tokens are fed
in their order, and the download comes to an end. -/
structure InOrder (d : Download) : Prop where
  window : ∀ events (tokens : Finset Nat),
    (∀ token ∈ tokens, Outstanding (exec d.next start events) token) →
      tokens.card ≤ d.concurrentM
  order : ∀ events, Along d.next (Succeeds d) start events →
    (exec d.next start events).fed <+: List.range' 1 (d.totalTokens - 1)
  ends : ∃ bound, ∀ events, Along d.next (fun s e => Succeeds d s e ∧ Enabled d s e) start events →
    events.length ≤ bound

/-- In the end, moreover, all tokens are fed. -/
structure StreamsInOrder (d : Download) : Prop extends InOrder d where
  feeds : ∀ events, Along d.next (Succeeds d) start events → Stuck d (exec d.next start events) →
    (exec d.next start events).fed = List.range' 1 (d.totalTokens - 1) ∧
      ((∀ token < d.totalTokens, d.intake token = .taken) → (exec d.next start events).position = .done)

/-- No block before the last one ends the download, and the last one comes to the session. -/
def FeedsAll (d : Download) : Prop :=
  TakesLeading d ∧ (1 < d.totalTokens → d.intake (d.totalTokens - 1) ≠ .refused)

theorem fed_of_settled (h : Tracks d s) (hstream : d.useStreamingDecrypt = true)
    (hdelivered : s.delivered = List.range d.totalTokens) (hunfed : unfed s.position = []) :
    s.fed = List.range' 1 (d.totalTokens - 1) := by
  have hfed := h.fed hstream
  rw [hunfed, List.append_nil, hdelivered, tail_range] at hfed
  exact hfed

/-- What is fed when nothing is left to happen. -/
theorem Healthy.fed_all (h : Healthy d s) (hstuck : Stuck d s) (hstream : d.useStreamingDecrypt = true)
    (hkept : ∀ token, s.position ≠ .failed (.cancelled token)) (hall : FeedsAll d) :
    s.fed = List.range' 1 (d.totalTokens - 1) ∧
      ((∀ token < d.totalTokens, d.intake token = .taken) → s.position = .done) := by
  rcases h.ended hstuck hkept with ⟨hdone, hdelivered⟩ | ⟨token, hlt, hdelivered, hintake⟩
  · exact ⟨fed_of_settled h.tracks hstream hdelivered (by rw [hdone]; rfl), fun _ => hdone⟩
  · have hnot : d.intake token ≠ .taken := by
      rcases hintake with ⟨-, hcase⟩ | ⟨-, hcase⟩ <;> rw [hcase] <;> decide
    have hlast : token + 1 = d.totalTokens := by
      by_contra hne
      exact hnot (hall.1 token (by omega))
    refine ⟨fed_of_settled h.tracks hstream (hlast ▸ hdelivered) ?_,
      fun htaken => absurd (htaken token hlt) hnot⟩
    rcases hintake with ⟨hposition, hcase⟩ | ⟨hposition, -⟩
    · rw [hposition]
      refine if_neg fun hpos => hall.2 (by omega) ?_
      rw [← hlast, Nat.add_sub_cancel]
      exact hcase
    · rw [hposition]
      rfl

/-- A session that got all its tokens stood in the way of none. -/
theorem Tracks.feedsAll (h : Tracks d s) (hstream : d.useStreamingDecrypt = true)
    (hrange : ∃ count ≤ d.totalTokens, s.delivered = List.range count)
    (hfed : s.fed = List.range' 1 (d.totalTokens - 1)) : FeedsAll d := by
  rcases Nat.lt_or_ge 1 d.totalTokens with hmany | hone
  · obtain ⟨count, hcount, hdelivered⟩ := hrange
    have hsum := h.fed hstream
    rw [hfed, hdelivered, tail_range] at hsum
    have hlen := congrArg List.length hsum
    rw [List.length_append, List.length_range', List.length_range'] at hlen
    obtain rfl : count = d.totalTokens := by omega
    have hunfed : unfed s.position = [] := List.length_eq_zero_iff.mp (by omega)
    refine ⟨h.takesLeading hdelivered, fun _ hrefused => ?_⟩
    have hmem : d.totalTokens - 1 ∈ s.delivered := by
      rw [hdelivered, List.mem_range]
      omega
    rcases h.taken _ hmem with htaken | hp
    · rw [hrefused] at htaken
      cases htaken
    · have hplace := h.inPlace
      cases hposition : s.position with
      | got token =>
        rw [hposition] at hp hunfed
        obtain rfl := Option.some.inj hp
        rw [unfed, if_pos (by omega)] at hunfed
        cases hunfed
      | failed e =>
        rw [hposition] at hp hunfed hplace
        cases e with
        | refused token =>
          obtain rfl := Option.some.inj hp
          rw [unfed, if_pos (by omega)] at hunfed
          cases hunfed
        | decrypt token =>
          obtain rfl := Option.some.inj hp
          have hthrown := hplace.2.2
          rw [hrefused] at hthrown
          cases hthrown
        | _ => cases hp
      | _ =>
        rw [hposition] at hp
        cases hp
  · exact ⟨fun token htoken => by omega, fun hmany => by omega⟩

section run

variable (hstream : d.useStreamingDecrypt = true) (hest : d.estimatedM ≤ d.concurrentM)

include hest

theorem delivered_exec {events : List Event} (ha : Along d.next (Succeeds d) start events) :
    ∃ count ≤ d.totalTokens, (exec d.next start events).delivered = List.range count :=
  (tracks_exec d events).delivered (failed_atHand hest ha)

include hstream

/-- A streaming download whose first window is no wider than the recomputed one. -/
theorem inOrder : InOrder d := by
  constructor
  · intro events tokens ho
    obtain ⟨first, h⟩ := windowed_exec hstream hest events
    exact h.card_le ho
  · intro events ha
    obtain ⟨count, hcount, hdelivered⟩ := delivered_exec hest ha
    have hfed := (tracks_exec d events).fed hstream
    rw [hdelivered, tail_range] at hfed
    refine List.IsPrefix.trans ⟨_, hfed⟩
      ⟨List.range' (1 + (count - 1)) (d.totalTokens - 1 - (count - 1)), ?_⟩
    rw [List.range'_append_1]
    congr 1
    omega
  · exact ⟨work d start, fun events ha => length_le_work (healthy_start d) ha⟩

/-- Where a block stands in the way, some run ends without its successors. -/
theorem exists_unfed (h : ¬ FeedsAll d) :
    ∃ events, Along d.next (Succeeds d) start events ∧ Stuck d (exec d.next start events) ∧
      (exec d.next start events).fed ≠ List.range' 1 (d.totalTokens - 1) := by
  obtain ⟨events, halong, hstuck⟩ := exists_stuck (healthy_start d)
  exact ⟨events, halong, hstuck, fun hfed =>
    h ((tracks_exec d events).feedsAll hstream (delivered_exec hest halong) hfed)⟩

theorem streamsInOrder_iff : StreamsInOrder d ↔ FeedsAll d := by
  constructor
  · intro h
    by_contra hno
    obtain ⟨events, halong, hstuck, hunfed⟩ := exists_unfed hstream hest hno
    exact hunfed (h.feeds events halong hstuck).1
  · intro hall
    exact ⟨inOrder hstream hest, fun events ha hstuck => (healthy_exec ha).fed_all hstuck hstream
      (notCancelled_of_window (.inl hest) events) hall⟩

end run

end TwelveC.Client.Download
