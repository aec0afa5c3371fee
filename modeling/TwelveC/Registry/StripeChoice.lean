import TwelveC.Registry.Scheduling
import Mathlib.Tactic.Linarith

/-!
# The choice of stripe width and replica factor

The loop goes down from the widest stripe and keeps the best score seen so far,
the wider of two stripes with the same score. Its result is the widest of the
widths with the highest score, and that score grows with the number of relays.
-/

namespace TwelveC.Registry.Scheduling

/-- `R(S)` -/
def replicasFor (healthyCount maxFileReplicaCount s : Int) : Int :=
  min maxFileReplicaCount (max 0 ((healthyCount - s) / s))

/-- `S×(1+R)` -/
def layoutScore (healthyCount maxFileReplicaCount s : Int) : Int :=
  s * (1 + replicasFor healthyCount maxFileReplicaCount s)

variable {h mfr s : Int} {best : Best}

/-- A stripe with its replicas has room on the healthy relays. -/
theorem layoutScore_le (hs : 1 ≤ s) (hle : s ≤ h) : layoutScore h mfr s ≤ h := by
  have hdiv : 0 ≤ (h - s) / s := Int.ediv_nonneg (by omega) (by omega)
  have hr : replicasFor h mfr s ≤ (h - s) / s := by
    rw [replicasFor, Int.max_eq_right hdiv]
    exact Int.min_le_right _ _
  have hmul : (h - s) / s * s ≤ h - s := Int.ediv_mul_le _ (by omega)
  rw [layoutScore]
  nlinarith

/-- The widest of the best among the widths in `seen`, or what the loop starts with. -/
structure Leads (h mfr : Int) (seen : List Int) (best : Best) : Prop where
  score : best.score = best.s * (1 + best.r)
  width : 1 ≤ best.s
  factor : 0 ≤ best.r
  room : best.score ≤ h
  origin : best = ⟨1, 0, 1⟩ ∨ best.s ∈ seen ∧ best.r = replicasFor h mfr best.s
  highest : ∀ s ∈ seen, layoutScore h mfr s ≤ best.score
  widest : ∀ s ∈ seen, layoutScore h mfr s = best.score → s ≤ best.s

theorem leads_start (mfr : Int) (hh : 1 ≤ h) : Leads h mfr [] ⟨1, 0, 1⟩ where
  score := rfl
  width := Int.le_refl 1
  factor := Int.le_refl 0
  room := hh
  origin := .inl rfl
  highest s hs := by cases hs
  widest s hs := by cases hs

theorem Leads.consider {seen : List Int} (hl : Leads h mfr seen best) (hs : 1 ≤ s) (hle : s ≤ h) :
    Leads h mfr (seen ++ [s]) (consider h mfr best s) := by
  have hconsider : Scheduling.consider h mfr best s =
      if best.score < layoutScore h mfr s ∨ (layoutScore h mfr s = best.score ∧ best.s < s) then
        ⟨s, replicasFor h mfr s, layoutScore h mfr s⟩ else best := if_neg (Int.not_lt.mpr hle)
  have hone : 1 ≤ best.score := by
    rw [hl.score]
    nlinarith [hl.width, hl.factor]
  rw [hconsider]
  split
  case isTrue hbetter =>
    have hge : best.score ≤ layoutScore h mfr s := by omega
    have hfactor : 0 ≤ replicasFor h mfr s := by
      by_contra hneg
      have hscore : layoutScore h mfr s = s * (1 + replicasFor h mfr s) := rfl
      nlinarith
    refine ⟨rfl, hs, hfactor, layoutScore_le hs hle, .inr ⟨by simp, rfl⟩, ?_, ?_⟩
    · intro other hother
      rcases List.mem_append.mp hother with hseen | hnew
      · exact Int.le_trans (hl.highest other hseen) hge
      · rw [List.mem_singleton.mp hnew]
    · intro other hother heq
      rcases List.mem_append.mp hother with hseen | hnew
      · have hhigh := hl.highest other hseen
        have heq : layoutScore h mfr other = layoutScore h mfr s := heq
        have hwide := hl.widest other hseen (by omega)
        show other ≤ s
        omega
      · rw [List.mem_singleton.mp hnew]
  case isFalse hworse =>
    refine ⟨hl.score, hl.width, hl.factor, hl.room, hl.origin.imp_right ?_, ?_, ?_⟩
    · exact fun ho => ⟨List.mem_append_left _ ho.1, ho.2⟩
    · intro other hother
      rcases List.mem_append.mp hother with hseen | hnew
      · exact hl.highest other hseen
      · rw [List.mem_singleton.mp hnew]
        omega
    · intro other hother heq
      rcases List.mem_append.mp hother with hseen | hnew
      · exact hl.widest other hseen heq
      · rw [List.mem_singleton.mp hnew] at heq ⊢
        omega

theorem Leads.countdown {seen : List Int} (hl : Leads h mfr seen best) {n : Nat} (hn : (n : Int) ≤ h) :
    Leads h mfr (seen ++ countdown n)
      ((Scheduling.countdown n).foldl (Scheduling.consider h mfr) best) := by
  induction n generalizing seen best with
  | zero => simpa [Scheduling.countdown] using hl
  | succ n ih =>
    have hnext := ih (hl.consider (s := ((n + 1 : Nat) : Int)) (by omega) hn) (by omega)
    rw [List.append_assoc] at hnext
    exact hnext

theorem mem_countdown {n : Nat} {s : Int} : s ∈ countdown n ↔ 1 ≤ s ∧ s ≤ n := by
  induction n with
  | zero =>
    simp only [countdown, List.not_mem_nil, false_iff]
    omega
  | succ n ih =>
    rw [countdown, List.mem_cons, ih]
    omega

/-- The widest stripe that is tried. -/
def widestStripe (blockCount healthyCount stripeTargetRelays : Int) : Int :=
  min (min stripeTargetRelays blockCount) healthyCount

/-- Whatever the parameters, the loop ends with a leader. -/
theorem choose_leads (blockCount stripeTargetRelays mfr : Int) (hh : 1 ≤ h) :
    ∃ best, chooseStripeReplica blockCount h stripeTargetRelays mfr = ⟨best.s, best.r⟩ ∧
      Leads h mfr (countdown (widestStripe blockCount h stripeTargetRelays).toNat) best := by
  rw [chooseStripeReplica]
  dsimp only
  rw [← widestStripe]
  split
  case isTrue hlow =>
    have hzero : (widestStripe blockCount h stripeTargetRelays).toNat = 0 := by omega
    refine ⟨⟨1, 0, 1⟩, rfl, ?_⟩
    rw [hzero]
    exact leads_start mfr hh
  case isFalse hhigh =>
    have hle : widestStripe blockCount h stripeTargetRelays ≤ h := Int.min_le_right _ _
    have hleads := Leads.countdown (leads_start mfr hh)
      (n := (widestStripe blockCount h stripeTargetRelays).toNat) (by omega)
    exact ⟨_, rfl, hleads⟩

/-- `score` of a choice. -/
def StripeReplicaChoice.score (choice : StripeReplicaChoice) : Int :=
  choice.stripeCount * (1 + choice.replicaFactor)

theorem replicasFor_eq (hs : 1 ≤ s) (hle : s ≤ h) : replicasFor h mfr s = min mfr ((h - s) / s) := by
  rw [replicasFor, Int.max_eq_right (Int.ediv_nonneg (by omega) (by omega))]

/-- The widest of the admissible widths with the highest score. -/
structure OptimalChoice (blockCount healthyCount stripeTargetRelays maxFileReplicaCount : Int)
    (choice : StripeReplicaChoice) : Prop where
  width_pos : 1 ≤ choice.stripeCount
  width_le : choice.stripeCount ≤ min (min stripeTargetRelays blockCount) healthyCount
  factor : choice.replicaFactor =
    min maxFileReplicaCount ((healthyCount - choice.stripeCount) / choice.stripeCount)
  highest : ∀ s, 1 ≤ s → s ≤ min (min stripeTargetRelays blockCount) healthyCount →
    s * (1 + min maxFileReplicaCount ((healthyCount - s) / s)) ≤ choice.score
  widest : ∀ s, 1 ≤ s → s ≤ min (min stripeTargetRelays blockCount) healthyCount →
    s * (1 + min maxFileReplicaCount ((healthyCount - s) / s)) = choice.score →
      s ≤ choice.stripeCount

theorem optimal_of_leads {blockCount stripeTargetRelays : Int} (hblocks : 1 ≤ blockCount)
    (hh : 1 ≤ h) (htarget : 1 ≤ stripeTargetRelays) (hmfr : 0 ≤ mfr)
    (hl : Leads h mfr (countdown (widestStripe blockCount h stripeTargetRelays).toNat) best) :
    OptimalChoice blockCount h stripeTargetRelays mfr ⟨best.s, best.r⟩ := by
  have hwidest : 1 ≤ widestStripe blockCount h stripeTargetRelays :=
    Int.le_min.mpr ⟨Int.le_min.mpr ⟨htarget, hblocks⟩, hh⟩
  have hle : widestStripe blockCount h stripeTargetRelays ≤ h := Int.min_le_right _ _
  have hmem : ∀ s, s ∈ countdown (widestStripe blockCount h stripeTargetRelays).toNat ↔
      1 ≤ s ∧ s ≤ widestStripe blockCount h stripeTargetRelays := by
    intro s
    rw [mem_countdown]
    omega
  -- If the loop keeps its start, the narrowest stripe scores no more than 1.
  have horigin : best.s ≤ widestStripe blockCount h stripeTargetRelays ∧
      best.r = replicasFor h mfr best.s := by
    rcases hl.origin with hstart | ⟨hseen, hr⟩
    · have hnarrow := hl.highest 1 ((hmem 1).mpr ⟨Int.le_refl 1, hwidest⟩)
      rw [layoutScore, hstart, Int.one_mul] at hnarrow
      rw [hstart]
      have hfactor : 0 ≤ replicasFor h mfr 1 := Int.le_min.mpr ⟨hmfr, Int.le_max_left _ _⟩
      have hnarrow : 1 + replicasFor h mfr 1 ≤ 1 := hnarrow
      refine ⟨hwidest, ?_⟩
      show (0 : Int) = replicasFor h mfr 1
      omega
    · exact ⟨((hmem best.s).mp hseen).2, hr⟩
  refine ⟨hl.width, horigin.1, ?_, ?_, ?_⟩
  · rw [← replicasFor_eq hl.width (Int.le_trans horigin.1 hle)]
    exact horigin.2
  · intro s hs hadmissible
    rw [← replicasFor_eq hs (Int.le_trans hadmissible hle), StripeReplicaChoice.score, ← hl.score]
    exact hl.highest s ((hmem s).mpr ⟨hs, hadmissible⟩)
  · intro s hs hadmissible heq
    rw [← replicasFor_eq hs (Int.le_trans hadmissible hle), StripeReplicaChoice.score, ← hl.score] at heq
    exact hl.widest s ((hmem s).mpr ⟨hs, hadmissible⟩) heq

theorem optimalChoice {blockCount stripeTargetRelays : Int} (hblocks : 1 ≤ blockCount)
    (hh : 1 ≤ h) (htarget : 1 ≤ stripeTargetRelays) (hmfr : 0 ≤ mfr) :
    OptimalChoice blockCount h stripeTargetRelays mfr
      (chooseStripeReplica blockCount h stripeTargetRelays mfr) := by
  obtain ⟨best, hbest, hl⟩ := choose_leads blockCount stripeTargetRelays mfr hh
  rw [hbest]
  exact optimal_of_leads hblocks hh htarget hmfr hl

/-- A width of the smaller pool is open to the larger one, with no fewer replicas. -/
theorem OptimalChoice.score_mono {blockCount stripeTargetRelays more : Int}
    {choice wider : StripeReplicaChoice}
    (hc : OptimalChoice blockCount h stripeTargetRelays mfr choice)
    (hw : OptimalChoice blockCount more stripeTargetRelays mfr wider) (hmore : h ≤ more) :
    choice.score ≤ wider.score := by
  have hwidth := hc.width_pos
  have hadmissible : choice.stripeCount ≤ min (min stripeTargetRelays blockCount) more := by
    have hle := hc.width_le
    omega
  refine Int.le_trans ?_ (hw.highest choice.stripeCount hwidth hadmissible)
  have hdiv : (h - choice.stripeCount) / choice.stripeCount ≤
      (more - choice.stripeCount) / choice.stripeCount :=
    Int.ediv_le_ediv (by omega) (by omega)
  rw [StripeReplicaChoice.score, hc.factor]
  apply Int.mul_le_mul_of_nonneg_left _ (by omega)
  omega

/-- The choice is optimal, and more relays never make the best score worse. -/
theorem chooseStripeReplica_optimal (blockCount healthyCount stripeTargetRelays
    maxFileReplicaCount : Int) (hblocks : 1 ≤ blockCount) (hhealthy : 1 ≤ healthyCount)
    (htarget : 1 ≤ stripeTargetRelays) (hfactor : 0 ≤ maxFileReplicaCount) :
    OptimalChoice blockCount healthyCount stripeTargetRelays maxFileReplicaCount
      (chooseStripeReplica blockCount healthyCount stripeTargetRelays maxFileReplicaCount) ∧
    ∀ more, healthyCount ≤ more →
      (chooseStripeReplica blockCount healthyCount stripeTargetRelays maxFileReplicaCount).score ≤
        (chooseStripeReplica blockCount more stripeTargetRelays maxFileReplicaCount).score := by
  have hbest := optimalChoice hblocks hhealthy htarget hfactor
  refine ⟨hbest, fun more hmore => ?_⟩
  exact hbest.score_mono (optimalChoice hblocks (Int.le_trans hhealthy hmore) htarget hfactor) hmore

/-- Nine relays carry three stripes of three. -/
theorem chooseStripeReplica_optimal_nine :
    chooseStripeReplica 5 9 4 2 = ⟨3, 2⟩ ∧ OptimalChoice 5 9 4 2 (chooseStripeReplica 5 9 4 2) :=
  ⟨by decide, (chooseStripeReplica_optimal 5 9 4 2 (by decide) (by decide) (by decide)
    (by decide)).1⟩

end TwelveC.Registry.Scheduling
