import TwelveC.Client.DownloadAdaptive
import Mathlib.Data.Finset.Card

/-!
# No needed token is lost

Cancelled tokens stay cancelled. What a download cancels after the SMB is fixed by
its counts, so it loses a token that it needs exactly when the first prefetch
reaches past both the recomputed one and tokens that exist. A block that is not
taken ends the download, and no token behind it is delivered.
-/

namespace TwelveC.Client.Download

open Lib Lib.Run

variable (d : Download)

/-- The tokens that are cancelled once the SMB is parsed. -/
def toCancel : Finset Nat :=
  (if d.concurrentM < d.estimatedM then (indexTokens d.concurrentM d.estimatedM).toFinset else ∅) ∪
    (indexTokens d.totalTokens d.concurrentM).toFinset

/-- The first prefetch is no wider than the recomputed one, or no token lies beyond that. -/
def WithinWindow : Prop := d.estimatedM ≤ d.concurrentM ∨ d.totalTokens ≤ d.concurrentM

/-- No block before the last one ends the download. -/
def TakesLeading : Prop := ∀ token, token + 1 < d.totalTokens → d.intake token = .taken

/-- The token whose `get` the driver is in. -/
def awaited : Position → Option Nat
  | .fetch token _ _ => some token
  | .ensured token _ _ _ => some token
  | .body token _ _ => some token
  | _ => none

/-- Every resolve that ends finds the tokens that exist, and every GET of one succeeds. -/
def Succeeds (s : Session) : Event → Prop
  | .driver => True
  | .resolve id outcome => ∀ b, resolving s.transport id = some b →
      ∃ found, outcome = .endpoints found ∧ ∀ token ∈ b.tokens, token < d.totalTokens → token ∈ found
  | .settle _ => True
  | .complete token error => token < d.totalTokens → error = none

/-- The event can happen. -/
def Enabled (s : Session) (e : Event) : Prop := d.after s e ≠ none

/-- Nothing is left to happen. -/
def Stuck (s : Session) : Prop := ∀ e, Succeeds d s e → ¬ Enabled d s e

/-- What the scheduler owes, over every order of the driver's steps, resolves and GETs. -/
structure NeverLoses : Prop where
  awaited : ∀ events token, awaited (exec d.next start events).position = some token →
    token ∉ (exec d.next start events).transport.cancelledBeforeResolve
  notCancelled : ∀ events token, (exec d.next start events).position ≠ .failed (.cancelled token)
  ends : ∃ bound, ∀ events, Along d.next (fun s e => Succeeds d s e ∧ Enabled d s e) start events →
    events.length ≤ bound
  delivers : ∀ events, Along d.next (Succeeds d) start events → Stuck d (exec d.next start events) →
    (exec d.next start events).delivered = List.range d.totalTokens ∧
      ((∀ token < d.totalTokens, d.intake token = .taken) → (exec d.next start events).position = .done)

theorem mem_toCancel {token : Nat} : token ∈ d.toCancel ↔
    (d.concurrentM ≤ token ∧ token < d.estimatedM) ∨
      (d.totalTokens ≤ token ∧ token < d.concurrentM) := by
  rw [toCancel, Finset.mem_union, List.mem_toFinset, mem_indexTokens]
  split
  · rw [List.mem_toFinset, mem_indexTokens]
  · simp only [Finset.notMem_empty, false_or]
    omega

/-- A needed token is cancelled exactly if the first window was too wide. -/
theorem withinWindow_iff : WithinWindow d ↔ ∀ token ∈ d.toCancel, d.totalTokens ≤ token := by
  have hpos := d.concurrentM_pos
  rw [WithinWindow]
  constructor
  · intro h token htoken
    rcases d.mem_toCancel.mp htoken with hwide | hbeyond <;> omega
  · intro h
    by_contra hwide
    have hmem : d.concurrentM ∈ d.toCancel := d.mem_toCancel.mpr (.inl (by omega))
    have hlow := h _ hmem
    omega

variable {d} {s s' : Session}

theorem cancelAfterSmb_cancelled {t : ReceiveTransport} (h : t.cancelledBeforeResolve = ∅) :
    (d.cancelAfterSmb t).cancelledBeforeResolve = d.toCancel := by
  have hplan : d.plan.cancelAfterSmb = indexTokens d.totalTokens d.concurrentM := by
    rw [plan, computeReceiveDownloadPlan]
    split
    · rename_i hlt
      exact (indexTokens_eq_nil (Nat.le_of_lt hlt)).symm
    · split
      · rfl
      · rename_i hnlt
        exact (indexTokens_eq_nil (Nat.not_lt.mp hnlt)).symm
  rw [cancelAfterSmb, toCancel, hplan]
  by_cases hwide : d.concurrentM < d.estimatedM
  · rw [if_pos hwide, if_pos hwide]
    by_cases hnil : indexTokens d.totalTokens d.concurrentM = []
    · rw [hnil]
      simp [ReceiveTransport.cancelPending, h]
    · rw [if_pos hnil]
      simp [ReceiveTransport.cancelPending, h]
  · rw [if_neg hwide, if_neg hwide]
    by_cases hnil : indexTokens d.totalTokens d.concurrentM = []
    · rw [hnil]
      simp [h]
    · rw [if_pos hnil]
      simp [ReceiveTransport.cancelPending, h]

/-- The token whose block the driver is at, or has ended with. -/
def atHand : Position → Option Nat
  | .got token => some token
  | .failed (.refused token) => some token
  | .failed (.decrypt token) => some token
  | _ => none

/-- The SMB has not passed its checks. -/
def beforeSmb : Position → Bool
  | .got token => token = 0
  | .failed (.refused token) => token = 0
  | _ => false

/-- A block at hand that the session of a streaming download has not got. -/
def unfed : Position → List Nat
  | .got token => if 0 < token then [token] else []
  | .failed (.refused token) => if 0 < token then [token] else []
  | _ => []

theorem of_atHand {p : Position} (h : atHand p = none) : beforeSmb p = false ∧ unfed p = [] := by
  cases p with
  | got token => cases h
  | failed e => cases e <;> first | exact ⟨rfl, rfl⟩ | cases h
  | _ => exact ⟨rfl, rfl⟩

/-- The SMB is parsed once token 0 was delivered and the driver has gone on. -/
def smbParsed (s : Session) : Prop := s.delivered ≠ [] ∧ beforeSmb s.position = false

instance (s : Session) : Decidable (smbParsed s) := inferInstanceAs (Decidable (_ ∧ _))

/-- What a failure says of the tokens delivered before it. -/
def Ended (d : Download) (delivered : List Nat) : DownloadFailure → Prop
  | .cancelled token => token ∈ d.toCancel ∧ token < d.totalTokens
  | .refused token => token < d.totalTokens ∧ delivered = List.range (token + 1) ∧
      d.intake token = .refused
  | .decrypt token => token < d.totalTokens ∧ delivered = List.range (token + 1) ∧
      d.intake token = .thrown
  | _ => True

/-- The delivered tokens are those below the driver's. -/
def InPlace (d : Download) (s : Session) : Position → Prop
  | .begin => s.delivered = []
  | .starting _ token => token < d.totalTokens ∧ s.delivered = List.range token
  | .fetch token _ _ => token < d.totalTokens ∧ s.delivered = List.range token
  | .ensured token _ _ _ => token < d.totalTokens ∧ s.delivered = List.range token
  | .body token _ _ => token < d.totalTokens ∧ s.delivered = List.range token ∧
      token ∉ s.transport.cancelledBeforeResolve
  | .got token => token < d.totalTokens ∧ s.delivered = List.range (token + 1)
  | .window token => token < d.totalTokens ∧ s.delivered = List.range token ∧ 0 < token
  | .rest => 1 < d.totalTokens ∧ s.delivered = List.range 1
  | .done => s.delivered = List.range d.totalTokens
  | .failed e => Ended d s.delivered e

/-- In every run: what is cancelled, that no cancelled token is delivered, and what became of the
delivered ones. -/
structure Tracks (d : Download) (s : Session) : Prop where
  inPlace : InPlace d s s.position
  cancelled : s.transport.cancelledBeforeResolve = if smbParsed s then d.toCancel else ∅
  kept : ∀ token ∈ s.delivered, 0 < token → token ∉ d.toCancel
  taken : ∀ token ∈ s.delivered, d.intake token = .taken ∨ atHand s.position = some token
  fed : d.useStreamingDecrypt = true → s.fed ++ unfed s.position = s.delivered.tail

/-- Resolves and GETs move neither the driver nor what is cancelled. -/
theorem Tracks.congr (h : Tracks d s) (hposition : s'.position = s.position)
    (hdelivered : s'.delivered = s.delivered) (hfed : s'.fed = s.fed)
    (hcancelled : s'.transport.cancelledBeforeResolve = s.transport.cancelledBeforeResolve) :
    Tracks d s' := by
  have hparsed : smbParsed s' ↔ smbParsed s := by rw [smbParsed, smbParsed, hposition, hdelivered]
  constructor
  · have hplace := h.inPlace
    rw [hposition]
    cases hp : s.position <;> rw [hp] at hplace <;> simp only [InPlace, hdelivered, hcancelled] at * <;>
      exact hplace
  · rw [hcancelled, h.cancelled]
    simp only [hparsed]
  · rw [hdelivered]
    exact h.kept
  · rw [hdelivered, hposition]
    exact h.taken
  · rw [hfed, hdelivered, hposition]
    exact h.fed

theorem range_ne_nil {token : Nat} : List.range token ≠ [] ↔ token ≠ 0 := by
  rw [ne_eq, List.range_eq_nil]

/-- A step that delivers nothing, with no block at hand before it or after it. -/
theorem Tracks.go (h : Tracks d s) {t : ReceiveTransport} {p : Position}
    (hcancelled : t.cancelledBeforeResolve = s.transport.cancelledBeforeResolve)
    (hplace : InPlace d { s with transport := t, position := p } p) (hp : atHand p = none)
    (hs : atHand s.position = none) : Tracks d { s with transport := t, position := p } := by
  obtain ⟨hsmb, hunfed⟩ := of_atHand hp
  obtain ⟨hsmb', hunfed'⟩ := of_atHand hs
  refine ⟨hplace, ?_, h.kept, fun token htoken => ?_, fun hstream => ?_⟩
  · have hparsed : smbParsed { s with transport := t, position := p } ↔ smbParsed s := by
      simp only [smbParsed, hsmb, hsmb']
    show t.cancelledBeforeResolve = _
    rw [hcancelled, h.cancelled]
    simp only [hparsed]
  · have htaken := h.taken token htoken
    rw [hs] at htaken
    exact htaken.imp_right fun hnone => by cases hnone
  · have hfed := h.fed hstream
    rw [hunfed'] at hfed
    show s.fed ++ unfed p = _
    rw [hunfed]
    exact hfed

theorem ensureTokensStarted_cancelled (t : ReceiveTransport) (tokens : List Nat) :
    (t.ensureTokensStarted tokens).1.cancelledBeforeResolve = t.cancelledBeforeResolve := by
  rw [ReceiveTransport.ensureTokensStarted]
  split <;> rfl

/-- A wait ends in a failure or where it was to lead. -/
theorem afterWaits_some {waits : List Nat} {then_ : Session}
    (h : afterWaits s waits then_ = some s') :
    s' = { s with position := .failed .placementExpired } ∨
      (s.transport.allSettled waits = true ∧ s' = then_) := by
  rw [afterWaits] at h
  split at h
  · exact .inl (Option.some.inj h).symm
  · split at h
    · rename_i hsettled
      exact .inr ⟨hsettled, (Option.some.inj h).symm⟩
    · cases h

theorem Tracks.fail (h : Tracks d s) {t : ReceiveTransport} {e : DownloadFailure}
    (hcancelled : t.cancelledBeforeResolve = s.transport.cancelledBeforeResolve)
    (he : Ended d s.delivered e) (hp : atHand (.failed e) = none) (hs : atHand s.position = none) :
    Tracks d { s with transport := t, position := .failed e } := h.go hcancelled he hp hs

/-- A needed token is found to be cancelled. -/
theorem Tracks.failCancelled (h : Tracks d s) {token : Nat} (htoken : token < d.totalTokens)
    (hmem : token ∈ s.transport.cancelledBeforeResolve) (hs : atHand s.position = none) :
    Tracks d { s with position := .failed (.cancelled token) } := by
  refine h.fail rfl ?_ rfl hs
  rw [h.cancelled] at hmem
  split at hmem
  · exact ⟨hmem, htoken⟩
  · cases hmem

theorem loopAt_inPlace {token : Nat} (hdelivered : s.delivered = List.range token) (hpos : 0 < token)
    (hle : token ≤ d.totalTokens) :
    InPlace d s (d.loopAt token) ∧ atHand (d.loopAt token) = none := by
  rw [loopAt]
  split
  · split
    · exact ⟨⟨by assumption, hdelivered, hpos⟩, rfl⟩
    · exact ⟨⟨by assumption, hdelivered⟩, rfl⟩
  · rename_i hlast
    have htoken : token = d.totalTokens := by omega
    rw [htoken] at hdelivered
    exact ⟨hdelivered, rfl⟩

theorem afterGot_inPlace {token : Nat} (hdelivered : s.delivered = List.range (token + 1))
    (hlt : token < d.totalTokens) :
    InPlace d s (d.afterGot token) ∧ atHand (d.afterGot token) = none := by
  rw [afterGot]
  split
  · rename_i hrest
    obtain ⟨rfl, -, hfetch⟩ := hrest
    refine ⟨⟨?_, hdelivered⟩, rfl⟩
    by_contra hone
    apply hfetch
    have hpos := d.concurrentM_pos
    rw [plan, computeReceiveDownloadPlan, if_neg (by omega)]
    split <;> rfl
  · exact loopAt_inPlace hdelivered (Nat.succ_pos token) hlt

/-- The block at hand goes on to the session. -/
theorem feed_eq (hstream : d.useStreamingDecrypt = true) (fed : List Nat) (token : Nat) :
    d.feed fed token = fed ++ unfed (.got token) := by
  rw [feed, unfed]
  by_cases hpos : 0 < token
  · rw [if_pos ⟨hpos, hstream⟩, if_pos hpos]
  · rw [if_neg fun h => hpos h.1, if_neg hpos, List.append_nil]

/-- What is cancelled when the block of a token has passed its checks. -/
theorem consume_cancelled {token : Nat} (h : Tracks d s) (hp : s.position = .got token) :
    (if token = 0 then d.cancelAfterSmb s.transport else s.transport).cancelledBeforeResolve =
      d.toCancel := by
  have hbefore := h.cancelled
  have hplace := h.inPlace
  rw [hp] at hplace
  have hsome : s.delivered ≠ [] := by
    rw [hplace.2, range_ne_nil]
    exact Nat.succ_ne_zero token
  by_cases hzero : token = 0
  · rw [if_neg (by rw [smbParsed, hp, hzero]; exact fun h => by cases h.2)] at hbefore
    rw [if_pos hzero]
    exact cancelAfterSmb_cancelled hbefore
  · rw [if_pos ⟨hsome, by rw [hp]; exact decide_eq_false hzero⟩] at hbefore
    rw [if_neg hzero, hbefore]

/-- After a delivery: the SMB's is followed by the cancellations. -/
theorem tracks_consume {token : Nat} (h : Tracks d s) (hp : s.position = .got token) :
    Tracks d (d.consume s token) := by
  have hplace := h.inPlace
  have htaken := h.taken
  have hfed := h.fed
  rw [hp] at hplace htaken hfed
  obtain ⟨hlt, hdelivered⟩ := hplace
  have hsome : s.delivered ≠ [] := by
    rw [hdelivered, range_ne_nil]
    exact Nat.succ_ne_zero token
  rw [consume]
  split
  case isTrue hrefused =>
    refine ⟨⟨hlt, hdelivered, hrefused⟩, ?_, h.kept, htaken, hfed⟩
    have hsame : smbParsed { s with position := .failed (.refused token) } ↔ smbParsed s := by
      simp only [smbParsed, hp, beforeSmb]
    show s.transport.cancelledBeforeResolve = _
    rw [h.cancelled]
    simp only [hsame]
  case isFalse hpassed =>
    have hcancelled := consume_cancelled h hp
    generalize (if token = 0 then d.cancelAfterSmb s.transport else s.transport) = t at hcancelled
    split
    case isTrue hintake =>
      obtain ⟨hnext, hnone⟩ := afterGot_inPlace (d := d) (s := { s with
        transport := t, fed := d.feed s.fed token, position := d.afterGot token }) hdelivered hlt
      obtain ⟨hsmb, hunfed⟩ := of_atHand hnone
      refine ⟨hnext, hcancelled.trans (if_pos ⟨hsome, hsmb⟩).symm, h.kept, fun other hother => ?_,
        fun hstream => ?_⟩
      · refine .inl ((htaken other hother).elim id fun hsame => ?_)
        rw [← Option.some.inj hsame]
        exact hintake
      · show d.feed s.fed token ++ unfed (d.afterGot token) = _
        rw [hunfed, List.append_nil, feed_eq hstream]
        exact hfed hstream
    case isFalse hintake =>
      have hthrown : d.intake token = .thrown := by
        cases hcase : d.intake token with
        | taken => exact absurd hcase hintake
        | refused => exact absurd hcase hpassed
        | thrown => rfl
      refine ⟨⟨hlt, hdelivered, hthrown⟩, hcancelled.trans (if_pos ⟨hsome, rfl⟩).symm, h.kept, htaken,
        fun hstream => ?_⟩
      show d.feed s.fed token ++ [] = _
      rw [List.append_nil, feed_eq hstream]
      exact hfed hstream

theorem afterBody_some {token registryAttempts relayAttempts : Nat} {state : GetState}
    (h : d.afterBody s token registryAttempts relayAttempts state = some s') :
    (state = .fulfilled ∧ s' = { s with transport := (s.transport.forget token).uncancel token
                                        position := .got token, delivered := s.delivered ++ [token] }) ∨
    (∃ e, s' = { s with transport := s.transport.forget token, position := .failed (.get token e) }) ∨
    s' = { s with transport := s.transport.forget token
                  position := .fetch token registryAttempts (relayAttempts + 1) } := by
  cases state with
  | running => cases h
  | fulfilled => exact .inl ⟨rfl, (Option.some.inj h).symm⟩
  | rejected e =>
    right
    cases e with
    | transient =>
      rw [afterBody] at h
      split at h
      · exact .inl ⟨_, (Option.some.inj h).symm⟩
      · exact .inr (Option.some.inj h).symm
    | expired => exact .inl ⟨_, (Option.some.inj h).symm⟩
    | other => exact .inl ⟨_, (Option.some.inj h).symm⟩

/-- A delivered token was not cancelled. -/
theorem tracks_delivered {token registryAttempts relayAttempts : Nat} (h : Tracks d s)
    (hp : s.position = .body token registryAttempts relayAttempts) :
    Tracks d { s with transport := (s.transport.forget token).uncancel token, position := .got token,
                      delivered := s.delivered ++ [token] } := by
  have hplace := h.inPlace
  have htaken := h.taken
  have hfed := h.fed
  rw [hp] at hplace htaken hfed
  obtain ⟨hlt, hdelivered, hfree⟩ := hplace
  have hcancelled : ((s.transport.forget token).uncancel token).cancelledBeforeResolve =
      s.transport.cancelledBeforeResolve := Finset.erase_eq_of_notMem hfree
  have hbefore := h.cancelled
  have hparsed : smbParsed s ↔ 0 < token := by
    rw [smbParsed, hp, hdelivered, range_ne_nil, Nat.pos_iff_ne_zero]
    exact and_iff_left rfl
  refine ⟨⟨hlt, ?_⟩, ?_, fun other hother hpos => ?_, fun other hother => ?_, fun hstream => ?_⟩
  · rw [List.range_succ, hdelivered]
  · show ((s.transport.forget token).uncancel token).cancelledBeforeResolve = _
    rw [hcancelled, hbefore]
    have hafter : smbParsed { s with transport := (s.transport.forget token).uncancel token,
                                     position := .got token, delivered := s.delivered ++ [token] } ↔
        0 < token := by
      simp [smbParsed, beforeSmb, Nat.pos_iff_ne_zero]
    simp only [hparsed, hafter]
  · rcases List.mem_append.mp hother with hother | hother
    · exact h.kept other hother hpos
    · rw [List.mem_singleton] at hother
      subst hother
      rw [if_pos (hparsed.mpr hpos)] at hbefore
      rw [← hbefore]
      exact hfree
  · rcases List.mem_append.mp hother with hother | hother
    · exact .inl ((htaken other hother).elim id fun hnone => by cases hnone)
    · rw [List.mem_singleton.mp hother]
      exact .inr rfl
  · have hfed : s.fed ++ [] = s.delivered.tail := hfed hstream
    rw [List.append_nil] at hfed
    show s.fed ++ (if 0 < token then [token] else []) = (s.delivered ++ [token]).tail
    rw [hfed]
    by_cases hpos : 0 < token
    · rw [if_pos hpos, List.tail_append_of_ne_nil]
      rw [hdelivered, range_ne_nil]
      omega
    · obtain rfl : token = 0 := by omega
      rw [if_neg hpos, hdelivered]
      rfl

theorem tracks_advance (h : Tracks d s) (hs : d.advance s = some s') : Tracks d s' := by
  have hplace := h.inPlace
  rw [advance] at hs
  cases hp : s.position with
  | begin =>
    rw [hp] at hs hplace
    cases hs
    exact h.go (ensureTokensStarted_cancelled _ _) ⟨d.totalTokens_pos, hplace⟩ rfl
      (by rw [hp]; rfl)
  | starting waits token =>
    rw [hp] at hs hplace
    rcases afterWaits_some hs with rfl | ⟨-, rfl⟩
    · exact h.fail rfl trivial rfl (by rw [hp]; rfl)
    · exact h.go rfl hplace rfl (by rw [hp]; rfl)
  | fetch token registryAttempts relayAttempts =>
    rw [hp] at hs hplace
    cases hs
    rw [fetch]
    split
    · rename_i hmem
      exact h.failCancelled hplace.1 hmem (by rw [hp]; rfl)
    · exact h.go (ensureTokensStarted_cancelled _ _) hplace rfl
        (by rw [hp]; rfl)
  | ensured token waits registryAttempts relayAttempts =>
    rw [hp] at hs hplace
    rcases afterWaits_some hs with rfl | ⟨-, rfl⟩
    · exact h.fail rfl trivial rfl (by rw [hp]; rfl)
    · rw [afterEnsured]
      split
      · rename_i hmem
        exact h.failCancelled hplace.1 hmem (by rw [hp]; rfl)
      · rename_i hfree
        split
        · exact h.go rfl ⟨hplace.1, hplace.2, hfree⟩ rfl
            (by rw [hp]; rfl)
        · split
          · exact h.fail rfl trivial rfl (by rw [hp]; rfl)
          · exact h.go rfl hplace rfl (by rw [hp]; rfl)
  | body token registryAttempts relayAttempts =>
    rw [hp] at hs hplace
    obtain ⟨state, -, hbody⟩ := Option.bind_eq_some_iff.mp hs
    rcases afterBody_some hbody with ⟨-, rfl⟩ | ⟨e, rfl⟩ | rfl
    · exact tracks_delivered h hp
    · exact h.fail rfl trivial rfl (by rw [hp]; rfl)
    · exact h.go rfl ⟨hplace.1, hplace.2.1⟩ rfl (by rw [hp]; rfl)
  | got token =>
    rw [hp] at hs
    cases hs
    exact tracks_consume h hp
  | window token =>
    rw [hp] at hs hplace
    cases hs
    exact h.go (ensureTokensStarted_cancelled _ _) ⟨hplace.1, hplace.2.1⟩ rfl
      (by rw [hp]; rfl)
  | rest =>
    rw [hp] at hs hplace
    cases hs
    exact h.go (ensureTokensStarted_cancelled _ _) hplace rfl
      (by rw [hp]; rfl)
  | done =>
    rw [hp] at hs
    cases hs
  | failed e =>
    rw [hp] at hs
    cases hs

theorem resolveAndStart_cancelled (t : ReceiveTransport) (b : Batch) (outcome : ResolveOutcome) :
    (t.resolveAndStart b outcome).cancelledBeforeResolve = t.cancelledBeforeResolve := by
  cases outcome with
  | endpoints found => rfl
  | error e => cases e <;> rfl

theorem tracks_after {e : Event} (h : Tracks d s) (hs : d.after s e = some s') : Tracks d s' := by
  cases e with
  | driver => exact tracks_advance h hs
  | resolve id outcome =>
    obtain ⟨b, -, rfl⟩ := Option.map_eq_some_iff.mp hs
    exact h.congr rfl rfl rfl (resolveAndStart_cancelled _ _ _)
  | settle id =>
    obtain ⟨b, -, rfl⟩ := Option.map_eq_some_iff.mp hs
    exact h.congr rfl rfl rfl rfl
  | complete token error =>
    rw [after.eq_def] at hs
    dsimp only at hs
    split at hs
    · cases hs
      exact h.congr rfl rfl rfl rfl
    · cases hs

theorem tracks_next (h : Tracks d s) (e : Event) : Tracks d (d.next s e) := by
  rw [next]
  cases hs : d.after s e with
  | none => exact h
  | some s' => exact tracks_after h hs

theorem tracks_start : Tracks d start where
  inPlace := rfl
  cancelled := by
    rw [if_neg fun h => h.1 rfl]
    rfl
  kept token htoken := by cases htoken
  taken token htoken := by cases htoken
  fed _ := rfl

theorem tracks_exec (d : Download) (events : List Event) : Tracks d (exec d.next start events) := by
  have hstep : ∀ s e, Tracks d s → True → Tracks d (d.next s e) := fun _ e h _ => tracks_next h e
  exact exec_invariant hstep tracks_start (along_of_forall (fun _ _ => trivial) _ _)

end TwelveC.Client.Download
