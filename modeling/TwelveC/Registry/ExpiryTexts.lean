import TwelveC.Registry.Reserve
import TwelveC.DateTimes

/-!
# Comparing times as texts

The statements of both services compare stored texts. Their order is that of the
instants, so they select the rows that a comparison of parsed datetimes selects,
and the instants of the tables may stand for the texts.
-/

namespace TwelveC.Registry.ExpiryTexts

open DateTimes Lib.Decimal

/-- `DELETE … WHERE expiry_at <= ?` of `purge_expired_tokens`. -/
def purgeCondition (expiryAt now : Str) : Bool := strLe expiryAt now

/-- `rs.last_heartbeat_at > ?` of `list_healthy_relays`. -/
def heartbeatCondition (lastHeartbeatAt staleBefore : Str) : Bool := !strLe lastHeartbeatAt staleBefore

/-- `WHERE updated_at <= ?` of the relay's `list_stale_blocks`. -/
def staleBlocksCondition (updatedAt updatedBefore : Str) : Bool := strLe updatedAt updatedBefore

/-- `_is_expired` -/
def isExpired (expiryAt : Str) (now : DateTime) : Except PyExn Bool := do
  let expiry ← parseIso expiryAt
  return expiry.instant ≤ now.instant

/-- `is_placement_live`, given the expiry of the placement. -/
def isPlacementLive (expiryAt : Str) (now : DateTime) : Except PyExn Bool := do
  let expired ← isExpired expiryAt now
  return !expired

/-- The rows whose parsed time `compare`s. -/
def selectParsed {ρ : Type} (compare : DateTime → Bool) :
    List (ρ × Str) → Except PyExn (List (ρ × Str))
  | [] => .ok []
  | row :: rest => do
    let time ← parseIso row.2
    let selected ← selectParsed compare rest
    return if compare time then row :: selected else selected

theorem strLe_eq_lexLe (x y : Str) : strLe x y = lexLe x y := by
  induction x generalizing y with
  | nil => rfl
  | cons a x ih =>
    cases y with
    | nil => rfl
    | cons b y => rw [strLe, lexLe, ih]

theorem strLe_isoformat (a b : DateTime) :
    strLe a.isoformat b.isoformat = decide (a.instant ≤ b.instant) := by
  rw [strLe_eq_lexLe, Bool.eq_iff_iff, lexLe_isoformat_iff, decide_eq_true_iff]

/-- Every time in the rows was written by `isoformat`. -/
def Stored {ρ : Type} (rows : List (ρ × Str)) : Prop := ∀ row ∈ rows, ∃ d : DateTime, row.2 = d.isoformat

theorem selectParsed_eq {ρ : Type} {compare : DateTime → Bool} {c : Str → Bool}
    (h : ∀ d : DateTime, c d.isoformat = compare d) {rows : List (ρ × Str)} (hstored : Stored rows) :
    selectParsed compare rows = .ok (rows.filter fun row => c row.2) := by
  induction rows with
  | nil => rfl
  | cons row rows ih =>
    obtain ⟨d, hd⟩ := hstored row List.mem_cons_self
    have hrest := ih fun other ho => hstored other (List.mem_cons_of_mem _ ho)
    rw [selectParsed, hd, parseIso_isoformat, okBind, hrest, okBind, List.filter_cons, hd, h]
    rfl

/-- For all datetimes, and for every table of stored times and every current time. -/
theorem text_order :
    (∀ a b : DateTime, strLe a.isoformat b.isoformat = true ↔ a.instant ≤ b.instant) ∧
    (∀ stored now : DateTime, isPlacementLive stored.isoformat now =
      .ok (!purgeCondition stored.isoformat now.isoformat)) ∧
    ∀ (ρ : Type) (rows : List (ρ × Str)) (time : DateTime), Stored rows →
      selectParsed (fun expiry => expiry.instant ≤ time.instant) rows =
        .ok (rows.filter fun row => purgeCondition row.2 time.isoformat) ∧
      selectParsed (fun heartbeat => time.instant < heartbeat.instant) rows =
        .ok (rows.filter fun row => heartbeatCondition row.2 time.isoformat) ∧
      selectParsed (fun updated => updated.instant ≤ time.instant) rows =
        .ok (rows.filter fun row => staleBlocksCondition row.2 time.isoformat) := by
  refine ⟨fun a b => ?_, fun stored now => ?_, fun ρ rows time hstored => ⟨?_, ?_, ?_⟩⟩
  · rw [strLe_isoformat, decide_eq_true_iff]
  · rw [isPlacementLive, isExpired, parseIso_isoformat, okBind, purgeCondition, strLe_isoformat]
    rfl
  · exact selectParsed_eq (c := (purgeCondition · time.isoformat))
      (fun d => strLe_isoformat d time) hstored
  · refine selectParsed_eq (c := (heartbeatCondition · time.isoformat)) (fun d => ?_) hstored
    rw [heartbeatCondition, strLe_isoformat, ← decide_not]
    simp
  · exact selectParsed_eq (c := (staleBlocksCondition · time.isoformat))
      (fun d => strLe_isoformat d time) hstored

def midnight : DateTime := { toFields := ⟨2031, 1, 1, 0, 0, 0, 0⟩, valid := by decide }

/-- A microsecond later. -/
def afterMidnight : DateTime := { toFields := ⟨2031, 1, 1, 0, 0, 0, 1⟩, valid := by decide }

def twoRows : List (Nat × Str) := [(1, midnight.isoformat), (2, afterMidnight.isoformat)]

/-- At midnight one row is expired. -/
theorem text_order_rows :
    Stored twoRows ∧
      selectParsed (fun expiry => expiry.instant ≤ midnight.instant) twoRows =
        .ok [(1, midnight.isoformat)] := by
  have hstored : Stored twoRows := by
    intro row hrow
    simp only [twoRows, List.mem_cons, List.not_mem_nil, or_false] at hrow
    rcases hrow with rfl | rfl
    · exact ⟨midnight, rfl⟩
    · exact ⟨afterMidnight, rfl⟩
  refine ⟨hstored, (text_order.2.2 Nat twoRows midnight hstored).1.trans (congrArg Except.ok ?_)⟩
  decide +kernel

end TwelveC.Registry.ExpiryTexts
