import Mathlib.Tactic
import Tidkod.Protocol.FollowerSessions
import Tidkod.Protocol.Latching

/-!
A session before its first clock measurement. The mapping of the follower is
then the identity between two clocks with unrelated epochs. Ticks wait for the
clock, but a newer snapshot is compared with what a reader would see under that
identity. The timeline stays that of the newest accepted snapshot as long as
the comparison agrees with the active trajectory and touches no entry.
-/

namespace Tidkod

namespace FollowerCore

/-- A newer revision that would go back behind the active trajectory, or change
the format without a discontinuity. -/
def RollsBackActive (c : FollowerCore) (t : Timeline) : Prop :=
  t.discontinuity < c.view.timeline.discontinuity ∨
    t.format ≠ c.view.timeline.format ∧ t.discontinuity = c.view.timeline.discontinuity

instance (c : FollowerCore) (t : Timeline) : Decidable (c.RollsBackActive t) :=
  inferInstanceAs (Decidable (_ ∨ _))

/-- No exchange is accepted. -/
def NoMeasurement (c : FollowerCore) : Op → Prop
  | .measurementTimed e publicationNs processedNs =>
      (c.measurementTimed e publicationNs processedNs).2 = none
  | _ => True

/-- The discontinuity that the local clock selects affects neither the entries
of a newer revision nor the decision on it. -/
def LocalClockHarmless (c : FollowerCore) : Op → Prop
  | .state t now =>
      c.view.timeline.session = t.timeline.session →
      c.view.timeline.revision < t.timeline.revision →
        (∀ s ∈ t.timeline.scheduled, c.view.discontinuity now < s.discontinuity) ∧
          (¬ c.RollsBackActive t.timeline →
            c.view.discontinuity now ≤ t.timeline.discontinuity ∧
              (t.timeline.format ≠ c.view.timeline.format →
                t.timeline.discontinuity ≠ c.view.discontinuity now))
  | _ => True

/-- A newer revision of the session is judged by the active trajectory alone. -/
def JudgedByActive (c : FollowerCore) : Op → Prop
  | .state t now =>
      c.view.timeline.session = t.timeline.session →
      c.view.timeline.revision < t.timeline.revision →
        ((c.state t.timeline now).2.isSome = true ↔ ¬ c.RollsBackActive t.timeline)
  | _ => True

instance (c : FollowerCore) (op : Op) : Decidable (c.NoMeasurement op) :=
  match op with
  | .measurementTimed _ _ _ => inferInstanceAs (Decidable (_ = none))
  | .connected => inferInstanceAs (Decidable True)
  | .disconnected => inferInstanceAs (Decidable True)
  | .state _ _ => inferInstanceAs (Decidable True)
  | .tick _ _ => inferInstanceAs (Decidable True)

instance (c : FollowerCore) (op : Op) : Decidable (c.LocalClockHarmless op) :=
  match op with
  | .state _ _ => inferInstanceAs (Decidable (_ → _ → _))
  | .connected => inferInstanceAs (Decidable True)
  | .disconnected => inferInstanceAs (Decidable True)
  | .measurementTimed _ _ _ => inferInstanceAs (Decidable True)
  | .tick _ _ => inferInstanceAs (Decidable True)

section Harmless

variable {c : FollowerCore} {t : Validated} {now : Nat}

/-- Nothing of the newer revision is latched. -/
theorem latched_of_harmless (hinv : c.Inv)
    (h : ∀ s ∈ t.timeline.scheduled, c.view.discontinuity now < s.discontinuity) :
    c.latched t.timeline now = t.timeline := by
  have hmax : max c.view.timeline.discontinuity (c.view.discontinuity now) =
      c.view.discontinuity now :=
    max_eq_right (hinv.ordered.le_discontinuityAt _)
  rw [latched, hmax]
  exact Timeline.latch_of_lt h

/-- The comparison at the local time comes to the same as one with the active
trajectory. -/
theorem rollsBack_iff_of_harmless (hinv : c.Inv) (hsession : c.view.timeline.session =
    t.timeline.session) (hrevision : c.view.timeline.revision < t.timeline.revision)
    (h : c.LocalClockHarmless (.state t now)) :
    c.RollsBack t.timeline now ↔ c.RollsBackActive t.timeline := by
  obtain ⟨hentries, hdecision⟩ := h hsession hrevision
  have hle : c.view.timeline.discontinuity ≤ c.view.discontinuity now :=
    hinv.ordered.le_discontinuityAt _
  rw [RollsBack, latched_of_harmless hinv hentries]
  constructor
  · intro hback
    by_contra hactive
    obtain ⟨hreach, hformat⟩ := hdecision hactive
    rcases hback with hlt | ⟨hne, heq⟩
    · exact absurd hreach hlt.not_ge
    · exact hformat hne heq
  · rintro (hlt | ⟨hne, heq⟩)
    · exact Or.inl (hlt.trans_le hle)
    · rcases hle.lt_or_eq with hbelow | hsame
      · exact Or.inl (heq ▸ hbelow)
      · exact Or.inr ⟨hne, heq.trans hsame⟩

theorem judgedByActive_of_harmless (hinv : c.Inv) (h : c.LocalClockHarmless (.state t now)) :
    c.JudgedByActive (.state t now) := by
  intro hsession hrevision
  have hiff := rollsBack_iff_of_harmless hinv hsession hrevision h
  have houtcome := state_outcome c t.timeline now
  generalize c.state t.timeline now = result at houtcome ⊢
  cases houtcome with
  | foreign s hexpected hforeign =>
      exact absurd ((hinv.pinned s hexpected).trans hsession) hforeign
  | adopted _ hother => exact absurd hsession hother
  | refused _ _ hrefused =>
      have hback := hrefused.resolve_left (not_le.mpr hrevision)
      simpa using hiff.mp hback
  | jumped _ _ _ hkeeps =>
      exact ⟨fun _ hactive => hkeeps (hiff.mpr hactive), fun _ => rfl⟩
  | refined _ _ _ hkeeps =>
      exact ⟨fun _ hactive => hkeeps (hiff.mpr hactive), fun _ => correct_isSome _ _ _ _⟩

end Harmless

/-- One step before the clock is known: the timeline is the accepted snapshot, or
stays as it was, and the clock stays unknown. -/
theorem step_verbatim {c : FollowerCore} (hinv : c.Inv)
    (hclock : c.view.mapping.lastSampleNs = 0) {op : Op}
    (hone : (c.step op).2 ≠ some .newSession) (hnone : c.NoMeasurement op)
    (hharmless : c.LocalClockHarmless op) :
    c.JudgedByActive op ∧ (c.step op).1.view.mapping.lastSampleNs = 0 ∧
      (c.step op).1.view.timeline = (c.acceptedBy op).getD c.view.timeline := by
  cases op with
  | connected => exact ⟨trivial, hclock, rfl⟩
  | disconnected => exact ⟨trivial, hclock, rfl⟩
  | state t now =>
      refine ⟨judgedByActive_of_harmless hinv hharmless, ?_⟩
      simp only [step, acceptedBy] at hone ⊢
      have houtcome := state_outcome c t.timeline now
      generalize c.state t.timeline now = result at houtcome hone ⊢
      cases houtcome with
      | foreign => exact ⟨hclock, rfl⟩
      | adopted => exact absurd rfl hone
      | refused => exact ⟨hclock, rfl⟩
      | jumped _ hsession hrevision =>
          have hlatched := latched_of_harmless hinv (hharmless hsession hrevision).1
          exact ⟨hclock, hlatched⟩
      | refined _ hsession hrevision =>
          have hlatched := latched_of_harmless hinv (hharmless hsession hrevision).1
          rw [correct_mapping, correct_timeline, if_pos (correct_isSome _ _ _ _)]
          exact ⟨hclock, hlatched⟩
  | measurementTimed e publicationNs processedNs =>
      have hquiet : (c.measurementTimed e publicationNs processedNs).2 = none := hnone
      simp only [step, acceptedBy, Option.getD_none]
      refine ⟨trivial, ?_, (c.measurementTimed_frame e publicationNs processedNs).1⟩
      have houtcome := measurementTimed_outcome c e publicationNs processedNs
      generalize c.measurementTimed e publicationNs processedNs = result at houtcome hquiet ⊢
      revert hquiet
      cases houtcome with
      | unpinned => exact fun _ => hclock
      | rejected => exact fun _ => hclock
      | acquired => exact fun h => absurd h (by simp)
      | jumped => exact fun h => absurd h (by simp [discontinue])
      | refined =>
          intro h
          have hsome := correct_isSome (c.observed e publicationNs processedNs).mapped
            (c.view.evaluate (measurementTime e processedNs)).position
            (measurementTime e processedNs) true
          rw [h] at hsome
          exact absurd hsome (by simp)
  | tick now staleAfter =>
      have hidle : c.tick now staleAfter = (c, none) := by
        rw [tick_eq, if_pos hclock]
      rw [step, hidle]
      exact ⟨trivial, hclock, rfl⟩

/-- The newest accepted snapshot along a run, starting from one. -/
def newestAccepted (c : FollowerCore) (t : Timeline) (ops : List Op) : Timeline :=
  (c.accepted ops).getLast?.getD t

theorem newestAccepted_cons (c : FollowerCore) (t : Timeline) (op : Op) (rest : List Op) :
    c.newestAccepted t (op :: rest) =
      (c.step op).1.newestAccepted ((c.acceptedBy op).getD t) rest := by
  simp only [newestAccepted, accepted]
  cases c.acceptedBy op with
  | none => simp
  | some u =>
      simp only [Option.toList_some, List.singleton_append, Option.getD_some]
      rw [List.getLast?_cons]
      cases (accepted (c.step op).1 rest).getLast? <;> rfl

theorem run_verbatim {c : FollowerCore} (hinv : c.Inv)
    (hclock : c.view.mapping.lastSampleNs = 0) {ops : List Op}
    (hone : some Correction.newSession ∉ Machine.outputs step c ops)
    (hnone : Machine.Along step NoMeasurement c ops)
    (hharmless : Machine.Along step LocalClockHarmless c ops) :
    (Machine.run step c ops).view.timeline = c.newestAccepted c.view.timeline ops ∧
      Machine.Along step JudgedByActive c ops := by
  induction ops generalizing c with
  | nil => exact ⟨rfl, trivial⟩
  | cons op rest ih =>
      simp only [Machine.outputs, List.mem_cons, not_or] at hone
      obtain ⟨hjudged, hclock', htimeline⟩ :=
        step_verbatim hinv hclock (Ne.symm hone.1) hnone.1 hharmless.1
      obtain ⟨hrun, hlater⟩ := ih (hinv.step op) hclock' hone.2 hnone.2 hharmless.2
      refine ⟨?_, hjudged, hlater⟩
      rw [Machine.run_cons, hrun, htimeline, newestAccepted_cons]

/-- From the adoption of a session to its first accepted exchange, and while the
discontinuity that the local clock selects stays harmless: the timeline is the
newest accepted snapshot, and newer revisions are judged by the active
trajectory alone. -/
theorem preclock_verbatim {c : FollowerCore} (hreach : c.Reachable) (first : Validated)
    (start : Nat) (hnew : (c.state first.timeline start).2 = some .newSession) {ops : List Op}
    (hone : some Correction.newSession ∉
      Machine.outputs step (c.state first.timeline start).1 ops)
    (hnone : Machine.Along step NoMeasurement (c.state first.timeline start).1 ops)
    (hharmless : Machine.Along step LocalClockHarmless (c.state first.timeline start).1 ops) :
    (Machine.run step (c.state first.timeline start).1 ops).view.timeline =
        (c.state first.timeline start).1.newestAccepted first.timeline ops ∧
      Machine.Along step JudgedByActive (c.state first.timeline start).1 ops := by
  have hinv := hreach.inv.state first.valid.ordered start
  have hadopted : (c.state first.timeline start).1.view.mapping.lastSampleNs = 0 ∧
      (c.state first.timeline start).1.view.timeline = first.timeline := by
    rw [state_of_newSession hnew]
    exact ⟨rfl, rfl⟩
  have hrun := run_verbatim hinv hadopted.1 hone hnone hharmless
  rwa [hadopted.2] at hrun

/-- The next heartbeat of the sample leader. -/
def sampleHeartbeat : Validated := ⟨{ sampleTimeline with revision := 2 }, by decide⟩

/-- A follower that is connected and has received nothing. -/
def connectedFollower : FollowerCore :=
  Machine.run step (new (fallback Position.zero FrameFormat.default) CorrectionPolicy.default)
    [.connected]

theorem connectedFollower_reachable : connectedFollower.Reachable :=
  ⟨_, _, _, [.connected], rfl⟩

/-- The heartbeat arrives while the scheduled time lies ahead of the local clock. -/
theorem preclock_verbatim_of_early_heartbeat :
    (Machine.run step (connectedFollower.state sampleTimeline 800000000).1
        [.state sampleHeartbeat 900000000, .tick 950000000 5000000000]).view.timeline =
      (connectedFollower.state sampleTimeline 800000000).1.newestAccepted sampleTimeline
        [.state sampleHeartbeat 900000000, .tick 950000000 5000000000] ∧
    Machine.Along step JudgedByActive (connectedFollower.state sampleTimeline 800000000).1
      [.state sampleHeartbeat 900000000, .tick 950000000 5000000000] :=
  preclock_verbatim connectedFollower_reachable ⟨sampleTimeline, by decide⟩ 800000000
    (by decide +kernel) (by decide +kernel) (by decide +kernel) (by decide +kernel)

/-- On a local clock that is already past the scheduled time the same heartbeat
activates the schedule, although nothing is known of the leader's clock. -/
theorem preclock_altered_by_local_clock :
    ¬ ∀ c : FollowerCore, c.Reachable → ∀ (first : Validated) (start : Nat),
      (c.state first.timeline start).2 = some .newSession → ∀ ops : List Op,
      some Correction.newSession ∉ Machine.outputs step (c.state first.timeline start).1 ops →
      Machine.Along step NoMeasurement (c.state first.timeline start).1 ops →
      (Machine.run step (c.state first.timeline start).1 ops).view.timeline =
          (c.state first.timeline start).1.newestAccepted first.timeline ops ∧
        Machine.Along step JudgedByActive (c.state first.timeline start).1 ops := by
  intro hclaim
  have hverbatim := (hclaim connectedFollower connectedFollower_reachable
    ⟨sampleTimeline, by decide⟩ 2000000000 (by decide +kernel)
    [.state sampleHeartbeat 2000100000] (by decide +kernel) (by decide +kernel)).1
  exact absurd (congrArg Timeline.discontinuity hverbatim) (by decide +kernel)

end FollowerCore

end Tidkod
