import Mathlib.Tactic
import Tidkod.Protocol.Boundary
import Tidkod.Protocol.ClockFit

/-!
Mapped time along local time. The drift of a fitted mapping is small, so the leader
time never runs backwards and never gains more than two nanoseconds on a local one.
With it the discontinuity that a reader sees only increases, and a retained change has
one local nanosecond from which it is in effect.
-/

namespace Tidkod

open Rounding Bisection

namespace ClockMapping

/-- The mapping of an estimator after some history. -/
def Reachable (m : ClockMapping) : Prop :=
  ∃ history, m = (Machine.run ClockEstimator.feed ClockEstimator.default history).mapping

variable {m : ClockMapping}

theorem Reachable.abs_drift (h : m.Reachable) : |m.drift| ≤ maxDrift := by
  obtain ⟨history, rfl⟩ := h
  exact (Machine.run_invariant (P := ClockEstimator.Regular)
    (fun c a hregular => hregular.observeTimed a.exchange a.publicationNs a.processedNs)
    ClockEstimator.regular_default history).drift

/-- `leader_time` before the cast: the clamped sum. -/
def unrounded (m : ClockMapping) (localNs : Nat) : ℚ :=
  max 0 (min (localNs + m.offsetAt localNs) i64Max)

theorem leaderTime_bounds (m : ClockMapping) (localNs : Nat) :
    (m.leaderTime localNs : ℚ) ≤ m.unrounded localNs ∧
      m.unrounded localNs < m.leaderTime localNs + 1 := by
  apply toUnsigned_bounds (le_max_left _ _)
  refine (max_le (by norm_num [i64Max]) (min_le_right _ _) : _ ≤ (i64Max : ℚ)).trans ?_
  norm_num [i64Max, u64Max]

/-- One local nanosecond is one of the leader and the drift of it. -/
theorem unrounded_succ_le (hdrift : |m.drift| ≤ maxDrift) (localNs : Nat) :
    m.unrounded (localNs + 1) ≤ m.unrounded localNs + 2 := by
  have hdrift' : m.drift ≤ 1 := by
    refine (abs_le.mp hdrift).2.trans ?_
    norm_num [maxDrift]
  have hstep : ((localNs + 1 : Nat) : ℚ) + m.offsetAt (localNs + 1) ≤
      localNs + m.offsetAt localNs + 2 := by
    simp only [offsetAt]
    push_cast
    linarith
  unfold unrounded
  rw [← max_add_add_right, ← min_add_add_right]
  apply max_le_max
  · norm_num
  · exact min_le_min hstep (by norm_num)

theorem leaderTime_succ_le (hdrift : |m.drift| ≤ maxDrift) (localNs : Nat) :
    m.leaderTime (localNs + 1) ≤ m.leaderTime localNs + 2 := by
  have hbelow := (m.leaderTime_bounds (localNs + 1)).1
  have habove := (m.leaderTime_bounds localNs).2
  have hstep := unrounded_succ_le hdrift localNs
  have hlt : (m.leaderTime (localNs + 1) : ℚ) < m.leaderTime localNs + 3 := by linarith
  have hlt' : m.leaderTime (localNs + 1) < m.leaderTime localNs + 3 := by exact_mod_cast hlt
  omega

end ClockMapping

namespace View

/-- A reader at a local time sees the scheduled change, or a later one. -/
def InEffect (v : View) (s : Scheduled) (localNs : Nat) : Prop :=
  s.discontinuity ≤ (v.evaluate localNs).discontinuity

/-- Among the local times of 64 bits the change is in effect from `first` on. -/
def TakesEffectAt (v : View) (s : Scheduled) (first : Nat) : Prop :=
  first ≤ u64Max ∧ ∀ localNs ≤ u64Max, v.InEffect s localNs ↔ first ≤ localNs

/-- The predicate of the search for a scheduled change in `next_boundary`. -/
def due (v : View) (s : Scheduled) (localNs : Nat) : Bool :=
  s.anchor.timeNs ≤ v.mapping.leaderTime localNs

variable {v : View} {s : Scheduled}

theorem inEffect_iff (hvalid : v.timeline.Valid) (hs : s ∈ v.timeline.scheduled) (localNs : Nat) :
    v.InEffect s localNs ↔ s.timeNs ≤ v.evaluationTime localNs := by
  rw [InEffect, evaluate_discontinuity, discontinuity, Timeline.discontinuityAt_eq]
  exact hvalid.ordered.key_le_current_iff hs

theorem evaluationTime_mono (hdrift : |v.mapping.drift| ≤ maxDrift) :
    Monotone v.evaluationTime := by
  intro x y hxy
  unfold evaluationTime
  split_ifs
  · exact le_rfl
  · exact ClockMapping.leaderTime_mono hdrift hxy

theorem due_mono (hdrift : |v.mapping.drift| ≤ maxDrift) (s : Scheduled) : Monotone (v.due s) := by
  intro x y hxy hx
  have hdue : s.anchor.timeNs ≤ v.mapping.leaderTime x := of_decide_eq_true hx
  exact decide_eq_true (hdue.trans (ClockMapping.leaderTime_mono hdrift hxy))

/-- Without a clock the timeline is read at its own start, before any change. -/
theorem not_inEffect_of_uninitialized (hvalid : v.timeline.Valid)
    (hs : s ∈ v.timeline.scheduled) (hsync : v.sync = .uninitialized) (localNs : Nat) :
    ¬ v.InEffect s localNs := by
  rw [inEffect_iff hvalid hs, evaluationTime, if_pos hsync, not_le]
  exact (hvalid.ordered.head_lt hs).1

/-- A change takes effect at one local nanosecond, unless the leader time does not reach
it in 64 bits of local time. -/
theorem existsUnique_takesEffectAt (hdrift : |v.mapping.drift| ≤ maxDrift)
    (hvalid : v.timeline.Valid) (hs : s ∈ v.timeline.scheduled) (hsync : v.sync ≠ .uninitialized)
    (hreached : s.timeNs ≤ v.mapping.leaderTime u64Max) : ∃! first, v.TakesEffectAt s first := by
  have hsteady : ∀ x y, x ≤ y → v.InEffect s x → v.InEffect s y := by
    intro x y hxy hx
    rw [inEffect_iff hvalid hs] at hx ⊢
    exact hx.trans (evaluationTime_mono hdrift hxy)
  have hend : v.InEffect s u64Max := by
    rw [inEffect_iff hvalid hs, evaluationTime_of_ne hsync]
    exact hreached
  exact existsUnique_from hsteady hend

theorem inEffect_reached (hdrift : |v.mapping.drift| ≤ maxDrift) (hvalid : v.timeline.Valid)
    (hs : s ∈ v.timeline.scheduled) {localNs : Nat} (hlocal : localNs ≤ u64Max)
    (h : v.InEffect s localNs) :
    v.sync ≠ .uninitialized ∧ s.timeNs ≤ v.mapping.leaderTime u64Max := by
  have hsync : v.sync ≠ .uninitialized :=
    fun hsync => not_inEffect_of_uninitialized hvalid hs hsync localNs h
  rw [inEffect_iff hvalid hs, evaluationTime_of_ne hsync] at h
  exact ⟨hsync, h.trans (ClockMapping.leaderTime_mono hdrift hlocal)⟩

end View

/-- Mapped time and what is evaluated along it. A retained change that takes effect at
all does so at one first local nanosecond; it takes effect once the clock is initialized
and the leader time reaches it within 64 bits of local time. -/
theorem ClockMapping.Reachable.controls_mono {m : ClockMapping} (h : m.Reachable) :
    (Monotone m.leaderTime ∧
      ∀ localNs, m.leaderTime (localNs + 1) ≤ m.leaderTime localNs + 2) ∧
    ∀ v : View, v.mapping = m → v.timeline.Valid →
      Monotone (fun localNs => (v.evaluate localNs).discontinuity) ∧
      (∀ s ∈ v.timeline.scheduled,
        (v.sync ≠ .uninitialized ∧ s.timeNs ≤ m.leaderTime u64Max →
          ∃! first, v.TakesEffectAt s first) ∧
        (¬ (v.sync ≠ .uninitialized ∧ s.timeNs ≤ m.leaderTime u64Max) →
          ∀ localNs ≤ u64Max, ¬ v.InEffect s localNs)) ∧
      (∀ localNs, v.changeDeadline localNs =
        (v.unapplied localNs).bind fun s => first (v.due s) (localNs + 1) i64Max) ∧
      ∀ s, Monotone (v.due s) := by
  have hdrift := h.abs_drift
  refine ⟨⟨fun _ _ => leaderTime_mono hdrift, leaderTime_succ_le hdrift⟩, ?_⟩
  rintro v rfl hvalid
  refine ⟨?_, fun s hs => ⟨?_, ?_⟩, fun _ => rfl, View.due_mono hdrift⟩
  · intro x y hxy
    exact hvalid.ordered.discontinuityAt_mono (View.evaluationTime_mono hdrift hxy)
  · rintro ⟨hsync, hreached⟩
    exact View.existsUnique_takesEffectAt hdrift hvalid hs hsync hreached
  · intro hnever localNs hlocal hin
    exact hnever (View.inEffect_reached hdrift hvalid hs hlocal hin)

/-- A change at the last leader time. -/
def lastChangeView : View :=
  { View.default with
    timeline :=
      { Timeline.default with
        revision := 1
        scheduled := [⟨1, ⟨i64Max, Position.zero, Rate.paused⟩⟩] } }

/-- With both clocks alike it takes effect at one local nanosecond. -/
theorem controls_mono_of_equalClocks :
    ∃! first, View.TakesEffectAt { lastChangeView with sync := .synchronized }
      ⟨1, ⟨i64Max, Position.zero, Rate.paused⟩⟩ first := by
  obtain ⟨-, hviews⟩ := ClockMapping.Reachable.controls_mono (m := ClockMapping.default) ⟨[], rfl⟩
  obtain ⟨-, hchanges, -, -⟩ :=
    hviews { lastChangeView with sync := .synchronized } rfl (by decide +kernel)
  exact (hchanges _ List.mem_cons_self).1 (by decide +kernel)

/-- Exchanges every 300 ms up to the end of the supported range, with a leader that has
just started and runs 500 ppm slow. -/
def lateHistory : List Arrival :=
  (List.range 16).map (fun i =>
    let sent := i64Max - 10000000000 + 300000000 * i
    ⟨⟨sent, 299850000 * i, 299850000 * i, sent⟩, none, sent⟩)

/-- Neither exception can be dropped: without a clock the change never takes effect, and
with that leader its time is beyond the last local nanosecond. -/
theorem change_not_always_in_effect :
    (¬ ∀ v : View, v.mapping.Reachable → v.timeline.Valid → ∀ s ∈ v.timeline.scheduled,
      s.timeNs ≤ v.mapping.leaderTime u64Max → ∃! first, v.TakesEffectAt s first) ∧
    ¬ ∀ v : View, v.mapping.Reachable → v.timeline.Valid → ∀ s ∈ v.timeline.scheduled,
      v.sync ≠ .uninitialized → ∃! first, v.TakesEffectAt s first := by
  constructor
  · intro hclaim
    obtain ⟨first, ⟨hlast, hfirst⟩, -⟩ := hclaim lastChangeView ⟨[], rfl⟩ (by decide +kernel) _
      List.mem_cons_self (by decide +kernel)
    exact View.not_inEffect_of_uninitialized (by decide +kernel) List.mem_cons_self rfl first
      ((hfirst first hlast).mpr le_rfl)
  · intro hclaim
    let late := (Machine.run ClockEstimator.feed ClockEstimator.default lateHistory).mapping
    obtain ⟨first, ⟨hlast, hfirst⟩, -⟩ := hclaim
      { lastChangeView with mapping := late, sync := .synchronized } ⟨lateHistory, rfl⟩
      (by decide +kernel) _ List.mem_cons_self (by decide)
    have hin := (hfirst first hlast).mpr le_rfl
    have hreached := View.inEffect_reached (ClockMapping.Reachable.abs_drift ⟨lateHistory, rfl⟩)
      (by decide +kernel) List.mem_cons_self hlast hin
    have hearly : late.leaderTime u64Max < i64Max := by decide +kernel
    exact hearly.not_ge hreached.2

end Tidkod
