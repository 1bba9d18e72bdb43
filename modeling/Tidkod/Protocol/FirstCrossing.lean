import Mathlib.Tactic
import Tidkod.Protocol.Boundary

/-!
What a deadline of `next_boundary` stands for. The change that takes effect next is
found exactly, because leader time never runs backwards. The output position may: a
slew against the playback, rounded on its own, can take back the last unit of the
trajectory. The crossing returned is then one that bisection ran into, and it is the
first exactly when the probes of the search see no such return.
-/

namespace Tidkod

open Rounding Bisection

/-- `k` is the next integer strictly beyond a position in the direction of a rate. -/
def NextInteger (rate : Rate) (p : Position) (k : Int) : Prop :=
  if 0 < rate.numerator then p.fixed < k * q32 ∧ (k - 1) * q32 ≤ p.fixed
  else k * q32 < p.fixed ∧ p.fixed ≤ (k + 1) * q32

theorem nextInteger_iff (rate : Rate) (p : Position) (k : Int) :
    NextInteger rate p k ↔ frameTarget rate p.fixed = k * q32 := by
  unfold NextInteger frameTarget
  simp only [q32]
  split_ifs with hforward hexact
  · omega
  · omega
  · omega

theorem exists_nextInteger (rate : Rate) (p : Position) : ∃ k, NextInteger rate p k := by
  unfold NextInteger
  simp only [q32]
  split_ifs with hforward
  · exact ⟨p.fixed / 4294967296 + 1, by omega⟩
  · exact ⟨(p.fixed - 1) / 4294967296, by omega⟩

namespace View

/-- The change that takes effect next after `localNs`. -/
def NextChange (v : View) (localNs : Nat) (s : Scheduled) : Prop :=
  s ∈ v.timeline.scheduled ∧ v.mapping.leaderTime localNs < s.timeNs ∧
    ∀ u ∈ v.timeline.scheduled, v.mapping.leaderTime localNs < u.timeNs → s.timeNs ≤ u.timeNs

/-- The output reaches the next integer at no nanosecond after `localNs` and before
`t`. A paused output is on its way to none. -/
def Uncrossed (v : View) (localNs t : Nat) : Prop :=
  (v.evaluate localNs).rate.numerator ≠ 0 →
    ∀ k, NextInteger (v.evaluate localNs).rate (v.evaluate localNs).position k →
      ∀ u, localNs < u → u < t → v.reached (v.evaluate localNs).rate (k * q32) u = false

/-- The boundary is the first after `localNs`. -/
def FirstBoundary (v : View) (localNs : Nat) : Option Boundary → Prop
  | none => v.Quiet localNs i64Max ∧ v.Uncrossed localNs (i64Max + 1)
  | some b =>
      localNs < b.localDeadlineNs ∧ b.localDeadlineNs ≤ i64Max ∧
        v.Uncrossed localNs b.localDeadlineNs ∧
        match b.kind with
        | .frame =>
            (v.evaluate localNs).rate.numerator ≠ 0 ∧ v.Quiet localNs b.localDeadlineNs ∧
              ∃ k, b.position.fixed = k * q32 ∧
                NextInteger (v.evaluate localNs).rate (v.evaluate localNs).position k ∧
                v.reached (v.evaluate localNs).rate (k * q32) b.localDeadlineNs = true
        | .scheduledChange =>
            ∃ s, v.NextChange localNs s ∧ s.timeNs ≤ v.mapping.leaderTime b.localDeadlineNs ∧
              ∀ u, localNs < u → u < b.localDeadlineNs → v.mapping.leaderTime u < s.timeNs

/-- The last nanosecond before a scheduled change takes effect. -/
def LastQuiet (v : View) (localNs e : Nat) : Prop :=
  localNs ≤ e ∧ e ≤ i64Max ∧ v.Quiet localNs e ∧ (e < i64Max → ¬ v.Quiet localNs (e + 1))

/-- Where the output reaches the next integer before the next change, it has reached
it, or reached it again, at the last nanosecond before the change and at every
midpoint behind the first crossing that halving the nanoseconds in between down to
this crossing meets. -/
def ProbesSound (v : View) (localNs : Nat) : Prop :=
  (v.evaluate localNs).rate.numerator ≠ 0 →
    ∀ k, NextInteger (v.evaluate localNs).rate (v.evaluate localNs).position k →
      ∀ e, v.LastQuiet localNs e →
        ∀ c, IsFirst (v.reached (v.evaluate localNs).rate (k * q32)) (localNs + 1) e c →
          Sound (v.reached (v.evaluate localNs).rate (k * q32)) (localNs + 1) e c

variable {v : View} {localNs : Nat}

theorem LastQuiet.unique (hdrift : |v.mapping.drift| ≤ maxDrift) {d e : Nat}
    (hd : v.LastQuiet localNs d) (he : v.LastQuiet localNs e) : d = e := by
  obtain ⟨-, hd', hquiet, hlast⟩ := hd
  obtain ⟨-, he', hquiet', hlast'⟩ := he
  rcases Nat.lt_trichotomy d e with hlt | heq | hgt
  · exact absurd (hquiet'.anti hdrift hlt) (hlast (by omega))
  · exact heq
  · exact absurd (hquiet.anti hdrift hgt) (hlast' (by omega))

/-- The first entry later than now is the next change, as the schedule is ordered. -/
theorem nextChange_of_unapplied (hvalid : v.timeline.Valid) {s : Scheduled}
    (h : v.unapplied localNs = some s) : v.NextChange localNs s := by
  obtain ⟨hlater, before, after, hsplit, hbefore⟩ := List.find?_eq_some_iff_append.mp h
  have hlater' : v.mapping.leaderTime localNs < s.timeNs := of_decide_eq_true hlater
  refine ⟨by rw [hsplit]; simp, hlater', ?_⟩
  intro u hu hulater
  have hordered : (v.timeline.active :: v.timeline.scheduled).Pairwise
      (fun a b => a.timeNs < b.timeNs ∧ a.discontinuity < b.discontinuity) := hvalid.ordered
  rw [hsplit] at hu hordered
  rcases List.mem_append.mp hu with hmem | hmem
  · have hpast := hbefore u hmem
    simp only [Bool.not_eq_true', decide_eq_false_iff_not] at hpast
    exact absurd hulater hpast
  · rcases List.mem_cons.mp hmem with rfl | hmem
    · exact le_rfl
    · have htail := (List.pairwise_append.mp (List.pairwise_cons.mp hordered).2).2.1
      exact ((List.pairwise_cons.mp htail).1 u hmem).1.le

theorem NextChange.quiet_iff {s : Scheduled} (h : v.NextChange localNs s) (t : Nat) :
    v.Quiet localNs t ↔ v.mapping.leaderTime t < s.timeNs := by
  constructor
  · intro hquiet
    exact hquiet s h.1 h.2.1
  · intro hlt u hu hlater
    exact hlt.trans_le (h.2.2 u hu hlater)

theorem quiet_of_applied (h : v.unapplied localNs = none) (t : Nat) : v.Quiet localNs t := by
  intro s hs hlater
  have hpast := List.find?_eq_none.mp h s hs
  simp only [decide_eq_true_eq] at hpast
  exact absurd hlater hpast

/-- The search for the change is exact. -/
theorem changeDeadline_spec (hvalid : v.timeline.Valid) {t : Nat}
    (h : v.changeDeadline localNs = some t) :
    localNs < t ∧ t ≤ i64Max ∧ v.Quiet localNs (t - 1) ∧
      ∃ s, v.NextChange localNs s ∧ s.timeNs ≤ v.mapping.leaderTime t := by
  obtain ⟨s, hs, hfirst⟩ := Option.bind_eq_some_iff.mp h
  have hnext := nextChange_of_unapplied hvalid hs
  obtain ⟨hlo, hhi, hholds, hturn⟩ := first_spec hfirst
  refine ⟨hlo, hhi, (hnext.quiet_iff _).mpr ?_, s, hnext, of_decide_eq_true hholds⟩
  rcases hturn with rfl | hturn
  · exact hnext.2.1
  · exact not_le.mp (of_decide_eq_false hturn)

theorem changeDeadline_none (hvalid : v.timeline.Valid) (htime : localNs < i64Max)
    (h : v.changeDeadline localNs = none) : v.Quiet localNs i64Max := by
  cases hs : v.unapplied localNs with
  | none => exact quiet_of_applied hs _
  | some s =>
      have hfirst : first (fun t => s.anchor.timeNs ≤ v.mapping.leaderTime t) (localNs + 1) i64Max =
          none := by
        rw [changeDeadline, hs] at h
        exact h
      rcases first_eq_none_iff.mp hfirst with hempty | hnever
      · exact absurd htime (by omega)
      · apply ((nextChange_of_unapplied hvalid hs).quiet_iff _).mpr
        exact not_le.mp (of_decide_eq_false hnever)

theorem frameEnd_of_change {t : Nat} (hchange : v.changeDeadline localNs = some t) :
    v.frameEnd localNs = t - 1 := by
  rw [frameEnd, hchange]
  rfl

theorem frameEnd_of_no_change (hchange : v.changeDeadline localNs = none) :
    v.frameEnd localNs = i64Max := by
  rw [frameEnd, hchange]
  rfl

/-- The search for the crossing stops where the next change takes effect. -/
theorem lastQuiet_frameEnd (hvalid : v.timeline.Valid) (htime : localNs < i64Max) :
    v.LastQuiet localNs (v.frameEnd localNs) := by
  unfold frameEnd
  cases hchange : v.changeDeadline localNs with
  | none =>
      exact ⟨htime.le, le_rfl, changeDeadline_none hvalid htime hchange,
        fun hlt => absurd hlt (lt_irrefl _)⟩
  | some t =>
      obtain ⟨hlo, hhi, hquiet, s, hnext, hdue⟩ := changeDeadline_spec hvalid hchange
      refine ⟨by simp only [Option.elim_some]; omega, by simp only [Option.elim_some]; omega,
        hquiet, fun _ => ?_⟩
      simp only [Option.elim_some]
      rw [Nat.sub_add_cancel (by omega), hnext.quiet_iff]
      exact not_lt.mpr hdue

/-- The target of the search is the next integer. -/
theorem target_eq (v : View) (localNs : Nat) :
    ∃ k, NextInteger (v.evaluate localNs).rate (v.evaluate localNs).position k ∧
      v.target localNs = k * q32 := by
  obtain ⟨k, hk⟩ := exists_nextInteger (v.evaluate localNs).rate (v.evaluate localNs).position
  exact ⟨k, hk, (nextInteger_iff _ _ _).mp hk⟩

theorem uncrossed_iff (v : View) (localNs t : Nat) :
    v.Uncrossed localNs t ↔ ((v.evaluate localNs).rate.numerator ≠ 0 →
      ∀ u, localNs < u → u < t →
        v.reached (v.evaluate localNs).rate (v.target localNs) u = false) := by
  obtain ⟨k, hk, htarget⟩ := v.target_eq localNs
  unfold Uncrossed
  rw [htarget]
  constructor
  · intro h hmoving
    exact h hmoving k hk
  · intro h hmoving j hj
    have hsame : j * (q32 : Int) = k * q32 :=
      ((nextInteger_iff _ _ _).mp hj).symm.trans ((nextInteger_iff _ _ _).mp hk)
    rw [hsame]
    exact h hmoving

/-- A deadline of the search is a place where the output has just reached the target. -/
theorem frameDeadline_spec {t : Nat} (h : v.frameDeadline localNs = some t) :
    (v.evaluate localNs).rate.numerator ≠ 0 ∧ localNs < t ∧ t ≤ v.frameEnd localNs ∧
      v.reached (v.evaluate localNs).rate (v.target localNs) t = true ∧
      (t = localNs + 1 ∨
        v.reached (v.evaluate localNs).rate (v.target localNs) (t - 1) = false) := by
  unfold frameDeadline at h
  split_ifs at h with hpaused
  obtain ⟨hlo, hhi, hholds, hturn⟩ := first_spec h
  exact ⟨hpaused, hlo, hhi, hholds, hturn⟩

/-- A target that the output has reached is a position. -/
theorem fixed_target {t : Nat}
    (h : v.reached (v.evaluate localNs).rate (v.target localNs) t = true) :
    (Position.fromFixed (v.target localNs)).fixed = v.target localNs := by
  obtain ⟨k, hk, htarget⟩ := v.target_eq localNs
  obtain ⟨hlo, hhi⟩ := (v.evaluate localNs).position.fixed_mem
  obtain ⟨hlo', hhi'⟩ := (v.evaluate t).position.fixed_mem
  rw [htarget] at h ⊢
  rw [Position.fixed_fromFixed]
  unfold reached at h
  unfold NextInteger at hk
  split_ifs at h hk
  · have hle := of_decide_eq_true h
    exact clamp_of_mem (by omega) (by omega)
  · have hle := of_decide_eq_true h
    exact clamp_of_mem (by omega) (by omega)

/-- What `next_boundary` returns is the first boundary exactly if the search for the
crossing finds the first crossing whenever there is one. -/
theorem firstBoundary_iff (hclock : v.Known) (hdrift : |v.mapping.drift| ≤ maxDrift)
    (hvalid : v.timeline.Valid) (htime : localNs < i64Max) :
    v.FirstBoundary localNs (v.nextBoundary localNs) ↔
      ((v.evaluate localNs).rate.numerator ≠ 0 →
        ∀ c, IsFirst (v.reached (v.evaluate localNs).rate (v.target localNs)) (localNs + 1)
          (v.frameEnd localNs) c → v.frameDeadline localNs = some c) := by
  have houtcome := nextBoundary_outcome hclock htime
  generalize v.nextBoundary localNs = result at houtcome
  obtain ⟨-, hend, hquiet, -⟩ := lastQuiet_frameEnd hvalid htime
  constructor
  · intro hfirst hmoving c hc
    cases houtcome with
    | frame t hframe =>
        obtain ⟨-, hlo, hhi, hholds, -⟩ := frameDeadline_spec hframe
        have huncrossed := (uncrossed_iff _ _ _).mp hfirst.2.2.1 hmoving
        rcases Nat.lt_trichotomy c t with hlt | rfl | hgt
        · have hbefore := huncrossed c hc.le hlt
          rw [hc.holds] at hbefore
          cases hbefore
        · exact hframe
        · have hbefore := hc.first t hlo hgt
          rw [hholds] at hbefore
          cases hbefore
    | change t hframe hchange =>
        have huncrossed := (uncrossed_iff _ _ _).mp hfirst.2.2.1 hmoving
        obtain ⟨hlo, -⟩ := changeDeadline_spec hvalid hchange
        have hlast : c ≤ t - 1 := by
          have hle := hc.le_end
          rwa [frameEnd, hchange] at hle
        have hbefore := huncrossed c hc.le (Nat.lt_of_le_pred hlo.bot_lt hlast)
        rw [hc.holds] at hbefore
        cases hbefore
    | nothing hframe hchange =>
        have huncrossed := (uncrossed_iff _ _ _).mp hfirst.2 hmoving
        have hlast := hc.le_end
        have hbefore := huncrossed c hc.le (by omega)
        rw [hc.holds] at hbefore
        cases hbefore
  · intro hfound
    -- A search that finds nothing has passed no crossing.
    have hnone (hframe : v.frameDeadline localNs = none) {t : Nat}
        (ht : t ≤ v.frameEnd localNs + 1) : v.Uncrossed localNs t := by
      apply (uncrossed_iff _ _ _).mpr
      intro hmoving u hlo hu
      by_contra hreached
      obtain ⟨c, hc, -⟩ := exists_isFirst (p := v.reached (v.evaluate localNs).rate
        (v.target localNs)) hlo (by omega : u ≤ v.frameEnd localNs)
        (Bool.not_eq_false _ ▸ hreached)
      rw [hfound hmoving c hc] at hframe
      cases hframe
    cases houtcome with
    | frame t hframe =>
        obtain ⟨hmoving, hlo, hhi, hholds, -⟩ := frameDeadline_spec hframe
        obtain ⟨c, hc, -⟩ := exists_isFirst hlo hhi hholds
        obtain rfl : c = t := Option.some.inj ((hfound hmoving c hc).symm.trans hframe)
        obtain ⟨k, hk, htarget⟩ := v.target_eq localNs
        refine ⟨hlo, hhi.trans hend, (uncrossed_iff _ _ _).mpr (fun _ u hu => hc.first u hu),
          hmoving, hquiet.anti hdrift hhi, k, ?_, hk, htarget ▸ hholds⟩
        exact (fixed_target hholds).trans htarget
    | change t hframe hchange =>
        obtain ⟨hlo, hhi, hbefore, s, hnext, hdue⟩ := changeDeadline_spec hvalid hchange
        have hlast := frameEnd_of_change hchange
        have huncrossed : v.Uncrossed localNs t := hnone hframe (by rw [hlast]; omega)
        refine ⟨hlo, hhi, huncrossed, s, hnext, hdue, ?_⟩
        intro u hu hut
        change u < t at hut
        exact (hnext.quiet_iff u).mp (hbefore.anti hdrift (by omega))
    | nothing hframe hchange =>
        have hlast := frameEnd_of_no_change hchange
        exact ⟨changeDeadline_none hvalid htime hchange, hnone hframe (by rw [hlast])⟩

/-- For a view with a known clock, a bounded drift and a valid timeline, and for every
local time: `next_boundary` returns the first boundary if and only if the probes of
its search are sound. -/
theorem next_boundary_first_iff (hclock : v.Known) (hdrift : |v.mapping.drift| ≤ maxDrift)
    (hvalid : v.timeline.Valid) (htime : localNs < i64Max) :
    v.FirstBoundary localNs (v.nextBoundary localNs) ↔ v.ProbesSound localNs := by
  rw [firstBoundary_iff hclock hdrift hvalid htime]
  obtain ⟨k, hk, htarget⟩ := v.target_eq localNs
  have hlast := lastQuiet_frameEnd hvalid htime
  have hsearch (hmoving : (v.evaluate localNs).rate.numerator ≠ 0) :
      v.frameDeadline localNs = first (v.reached (v.evaluate localNs).rate (v.target localNs))
        (localNs + 1) (v.frameEnd localNs) := if_neg hmoving
  constructor
  · intro hfound hmoving j hj e he c hc
    have hsame : j * (q32 : Int) = v.target localNs := ((nextInteger_iff _ _ _).mp hj).symm
    obtain rfl := he.unique hdrift hlast
    rw [hsame] at hc ⊢
    exact (first_eq_iff hc).mp ((hsearch hmoving).symm.trans (hfound hmoving c hc))
  · intro hsound hmoving c hc
    rw [hsearch hmoving]
    apply (first_eq_iff hc).mpr
    rw [htarget] at hc ⊢
    exact hsound hmoving k hk _ hlast c hc

/-- A slew that does not hold the output back keeps the probes sound: what has been
reached stays reached. -/
theorem probesSound_of_not_opposed (hclock : v.Known) (hdrift : |v.mapping.drift| ≤ maxDrift)
    (hslew : 0 ≤ v.slewFramesPerSecond) (hfree : ¬ v.Opposed localNs) : v.ProbesSound localNs := by
  intro hmoving k hk e he c hc
  apply sound_of_steady hc
  intro t hct hte
  have hlo := hc.le
  obtain ⟨hforward, hreverse⟩ := (he.2.2.1.anti hdrift hte).fixed_mono hclock hdrift hslew hfree
    (by omega : localNs ≤ c) hct
  have hholds := hc.holds
  unfold reached at hholds ⊢
  by_cases hrate : 0 < (v.evaluate localNs).rate.numerator
  · rw [if_pos hrate] at hholds ⊢
    exact decide_eq_true ((of_decide_eq_true hholds).trans (hforward hrate))
  · rw [if_neg hrate] at hholds ⊢
    have hneg : (v.evaluate localNs).rate.numerator < 0 := by omega
    exact decide_eq_true ((hreverse hneg).trans (of_decide_eq_true hholds))

theorem slow_admitted : AdmittedRate 1 10000 := by decide

theorem slow_reduced : Nat.gcd (1 : Int).natAbs 10000 = 1 := by decide

/-- A slow shuttle at 30 frames per second, almost a frame ahead when its slew
begins. -/
def slowView : View :=
  { View.default with
    timeline :=
      { Timeline.default with
        revision := 1
        anchor := ⟨0, Position.zero, ⟨1, 10000, slow_admitted, slow_reduced⟩⟩ }
    mapping := { ClockMapping.default with lastSampleNs := 1 }
    connection := .connected
    sync := .synchronized
    correctionFrames := 1 - 218 / 2 ^ 40 }

/-- The same shuttle a fifth of a frame behind. -/
def slowBehindView : View := { slowView with correctionFrames := -1 / 5 }

/-- A slew that speeds the shuttle up: the first crossing is found. -/
theorem next_boundary_first_of_behind :
    slowBehindView.FirstBoundary 0 (slowBehindView.nextBoundary 0) := by
  have hclock : slowBehindView.Known := by decide
  have hdrift : |slowBehindView.mapping.drift| ≤ maxDrift := by decide +kernel
  have hvalid : slowBehindView.timeline.Valid := by decide
  have hslew : 0 ≤ slowBehindView.slewFramesPerSecond := by decide +kernel
  have hfree : ¬ slowBehindView.Opposed 0 := by decide +kernel
  apply (next_boundary_first_iff hclock hdrift hvalid (by decide)).mpr
  exact probesSound_of_not_opposed hclock hdrift hslew hfree

/-- A slew that holds the shuttle back: frame 1 is reached after 78 ns, left again, and
the deadline is its second crossing, after 156 ns. -/
theorem next_boundary_not_first_of_slew : ¬ ∀ (v : View) (localNs : Nat), v.Known →
    |v.mapping.drift| ≤ maxDrift → v.timeline.Valid → localNs < i64Max →
      v.FirstBoundary localNs (v.nextBoundary localNs) := by
  intro hclaim
  have hfirst := hclaim slowView 0 (by decide) (by decide +kernel) (by decide) (by decide)
  have hdeadline : (slowView.nextBoundary 0).map Boundary.localDeadlineNs = some 156 := by
    decide +kernel
  obtain ⟨b, hb, hlater⟩ := Option.map_eq_some_iff.mp hdeadline
  rw [hb] at hfirst
  obtain ⟨-, -, huncrossed, -⟩ := hfirst
  rw [hlater] at huncrossed
  have hnext : NextInteger (slowView.evaluate 0).rate (slowView.evaluate 0).position 1 :=
    (nextInteger_iff _ _ _).mpr (by decide +kernel)
  have hmissed := huncrossed (by decide +kernel) 1 hnext 78 (by omega) (by omega)
  revert hmissed
  decide +kernel

end View

end Tidkod
