import Mathlib.Tactic
import Tidkod.Protocol.FollowerSteps

/-!
No rollback across an applied schedule. Readers apply a retained schedule by
time alone; snapshots and ticks latch what is in effect, so that a change of
the clock mapping cannot undo it. A measurement changes the mapping without
latching first. As long as no accepted measurement finds a retained schedule
already due, the discontinuity a reader sees never decreases within a session,
and the reported discontinuities increase strictly.
-/

namespace Tidkod

namespace FollowerCore

/-- A leader session has been adopted. -/
def InSession (c : FollowerCore) : Prop := c.view.sync ≠ .uninitialized

theorem InSession.discontinuity {c : FollowerCore} (h : c.InSession) (now : Nat) :
    c.view.discontinuity now = c.view.timeline.discontinuityAt (c.view.mapping.leaderTime now) :=
  congrArg c.view.timeline.discontinuityAt (View.evaluationTime_of_ne h now)

/-- What a reader sees moves forward with local time. -/
theorem InSession.discontinuity_mono {c : FollowerCore} (h : c.InSession) (hinv : c.Inv)
    {m n : Nat} (hmn : m ≤ n) : c.view.discontinuity m ≤ c.view.discontinuity n := by
  rw [h.discontinuity, h.discontinuity]
  have hdrift : |c.view.mapping.drift| ≤ maxDrift := hinv.mapping ▸ hinv.regular.drift
  exact hinv.ordered.discontinuityAt_mono (ClockMapping.leaderTime_mono hdrift hmn)

/-- A mapping in force means a known synchronization state. -/
theorem mapped_inSession (c : FollowerCore) : c.mapped.InSession := by
  simp only [InSession, mapped]
  split_ifs <;> decide

theorem InSession.ticked {c : FollowerCore} (h : c.InSession) (now staleAfter : Nat) :
    (c.ticked now staleAfter).InSession := by
  simp only [InSession, FollowerCore.ticked]
  split_ifs
  · decide
  · exact h

/-- A session is never left for the uninitialized state. -/
theorem InSession.step {c : FollowerCore} (h : c.InSession) (op : Op) :
    (c.step op).1.InSession := by
  cases op with
  | connected => exact h
  | disconnected =>
      simp only [FollowerCore.step, InSession, FollowerCore.disconnected]
      split_ifs
      · decide
      · exact h
  | state t now =>
      rw [FollowerCore.step]
      have houtcome := state_outcome c t.timeline now
      generalize c.state t.timeline now = result at houtcome ⊢
      cases houtcome with
      | adopted => exact (by decide : SyncState.acquiring ≠ .uninitialized)
      | refined =>
          rw [InSession, correct_sync]
          exact h
      | _ => exact h
  | measurementTimed e publicationNs processedNs =>
      have hmapped := (c.observed e publicationNs processedNs).mapped_inSession
      rw [FollowerCore.step]
      have houtcome := measurementTimed_outcome c e publicationNs processedNs
      generalize c.measurementTimed e publicationNs processedNs = result at houtcome ⊢
      cases houtcome with
      | unpinned => exact h
      | rejected => exact h
      | acquired => exact hmapped
      | jumped => exact hmapped
      | refined =>
          rw [InSession, correct_sync]
          exact hmapped
  | tick now staleAfter =>
      rw [FollowerCore.step]
      have houtcome := tick_outcome c now staleAfter
      generalize c.tick now staleAfter = result at houtcome ⊢
      cases houtcome with
      | unknown => exact h
      | reported => exact h.ticked now staleAfter
      | silent => exact h.ticked now staleAfter

/-- No accepted measurement finds a retained schedule that is due under the
mapping in force. -/
def PendingAtMeasurement (c : FollowerCore) : Op → Prop
  | .measurementTimed e _ processedNs =>
      c.expectedSession ≠ none → (c.estimator.observeInner e).2 = true →
        ∀ s ∈ c.view.timeline.scheduled,
          c.view.evaluationTime (measurementTime e processedNs) < s.timeNs
  | _ => True

instance (c : FollowerCore) (op : Op) : Decidable (c.PendingAtMeasurement op) :=
  match op with
  | .connected => inferInstanceAs (Decidable True)
  | .disconnected => inferInstanceAs (Decidable True)
  | .state _ _ => inferInstanceAs (Decidable True)
  | .measurementTimed _ _ _ => inferInstanceAs (Decidable (_ → _ → _))
  | .tick _ _ => inferInstanceAs (Decidable True)

/-- The operation leaves a reader at its local time no further back. Connecting
and disconnecting can happen at any time. -/
def KeepsDiscontinuity (c : FollowerCore) (op : Op) : Prop :=
  ∀ now, (∀ t ∈ op.time, t = now) →
    (c.view.evaluate now).discontinuity ≤ ((c.step op).1.view.evaluate now).discontinuity

end FollowerCore

/-- The identity in a reported discontinuity. -/
def Correction.discontinuityId : Option Correction → Option Nat
  | some (.discontinuity id) => some id
  | _ => none

/-- The operations are executed at non-decreasing local times. -/
def Op.Chronological (ops : List Op) : Prop := (ops.filterMap Op.time).Pairwise (· ≤ ·)

instance (ops : List Op) : Decidable (Op.Chronological ops) :=
  inferInstanceAs (Decidable (List.Pairwise _ _))

namespace FollowerCore

/-- The last reported id, if any, lies behind what every reader from `start` on
sees, and the follower remembers an id in between. -/
def Behind (c : FollowerCore) (start : Nat) (reported : Option Nat) : Prop :=
  ∀ last ∈ reported, ∃ seen,
    c.reportedDiscontinuity = some (c.view.timeline.session, seen) ∧ last ≤ seen ∧
      ∀ now, start ≤ now → seen ≤ c.view.discontinuity now

/-- The last reported id after one more event. -/
def lastReported (event : Option Correction) (reported : Option Nat) : Option Nat :=
  (Correction.discontinuityId event).or reported

theorem correct_discontinuityId (c : FollowerCore) (before : Position) (now : Nat)
    (measurement : Bool) :
    Correction.discontinuityId (c.correct before now measurement).2 = none := by
  have houtcome := correct_outcome c before now measurement
  generalize c.correct before now measurement = result at houtcome ⊢
  cases houtcome <;> rfl

/-- What a step within a session establishes. -/
structure Forward (c : FollowerCore) (start : Nat) (reported : Option Nat) (now : Option Nat)
    (result : FollowerCore × Option Correction) : Prop where
  keeps : ∀ n, (∀ t ∈ now, t = n) → c.view.discontinuity n ≤ result.1.view.discontinuity n
  inSession : result.1.InSession
  increases : ∀ id ∈ Correction.discontinuityId result.2, ∀ last ∈ reported, last < id
  behind : result.1.Behind (now.getD start) (lastReported result.2 reported)

section Steps

variable {c : FollowerCore} {start now : Nat} {reported : Option Nat}

/-- A step that reports no id and after which readers are no further back. -/
theorem Behind.silent {result : FollowerCore × Option Correction}
    (hbehind : c.Behind start reported) (hstart : start ≤ now) (hinv : result.1.Inv)
    (hsession : result.1.InSession)
    (hkeeps : c.view.discontinuity now ≤ result.1.view.discontinuity now)
    (hsame : result.1.view.timeline.session = c.view.timeline.session)
    (hreported : result.1.reportedDiscontinuity = c.reportedDiscontinuity)
    (hevent : Correction.discontinuityId result.2 = none) :
    c.Forward start reported (some now) result where
  keeps := by
    intro n hn
    obtain rfl := hn now rfl
    exact hkeeps
  inSession := hsession
  increases := by simp [hevent]
  behind := by
    rw [lastReported, hevent, Option.none_or]
    intro last hlast
    obtain ⟨seen, hseen, hle, hview⟩ := hbehind last hlast
    refine ⟨seen, by rw [hreported, hseen, hsame], hle, ?_⟩
    intro n hn
    exact ((hview now hstart).trans hkeeps).trans (hsession.discontinuity_mono hinv hn)

/-- A step that reports the id it moves readers to, past the one before. -/
theorem Behind.reports {result : FollowerCore × Option Correction} {id : Nat}
    (hbehind : c.Behind start reported) (hstart : start ≤ now) (hinv : result.1.Inv)
    (hsession : result.1.InSession) (hread : result.1.view.discontinuity now = id)
    (hkeeps : c.view.discontinuity now < id)
    (hreported : result.1.reportedDiscontinuity = some (result.1.view.timeline.session, id))
    (hevent : result.2 = some (.discontinuity id)) :
    c.Forward start reported (some now) result where
  keeps := by
    intro n hn
    obtain rfl := hn now rfl
    rw [hread]
    exact hkeeps.le
  inSession := hsession
  increases := by
    intro i hi last hlast
    rw [hevent] at hi
    obtain rfl : id = i := Option.some.inj hi
    obtain ⟨seen, -, hle, hview⟩ := hbehind last hlast
    exact (hle.trans (hview now hstart)).trans_lt hkeeps
  behind := by
    rw [hevent]
    intro last hlast
    obtain rfl : id = last := Option.some.inj hlast
    refine ⟨id, hreported, le_rfl, ?_⟩
    intro n hn
    rw [← hread]
    exact hsession.discontinuity_mono hinv hn

theorem state_forward (hinv : c.Inv) (hsession : c.InSession) (hbehind : c.Behind start reported)
    (hstart : start ≤ now) {t : Timeline} (ht : t.Ordered)
    (hone : (c.state t now).2 ≠ some .newSession) :
    c.Forward start reported (some now) (c.state t now) := by
  have hnext := hinv.state ht now
  have houtcome := state_outcome c t now
  generalize c.state t now = result at houtcome hone hnext ⊢
  cases houtcome with
  | foreign => exact hbehind.silent hstart hnext hsession le_rfl rfl rfl rfl
  | adopted => exact absurd rfl hone
  | refused => exact hbehind.silent hstart hnext hsession le_rfl rfl rfl rfl
  | jumped _ hsame _ hkeeps hjump =>
      have hfollow : ((c.pin t.session).follow t now).InSession := hsession
      have hlatched : (c.latched t now).Ordered := ht.activateWhile _
      have hback : c.view.discontinuity now ≤ (c.latched t now).discontinuity :=
        not_lt.mp (fun hlt => hkeeps (Or.inl hlt))
      have hlt := lt_of_le_of_ne (hback.trans (hlatched.le_discontinuityAt _)) hjump.symm
      exact hbehind.reports hstart hnext hsession (hfollow.discontinuity now) hlt rfl rfl
  | refined _ hsame _ _ hread =>
      have hfollow : ((c.pin t.session).follow t now).InSession := hsession
      have hcorrect : (((c.pin t.session).follow t now).correct (c.view.evaluate now).position now
          false).1.InSession := by
        simpa [InSession] using hfollow
      have hdisc : (((c.pin t.session).follow t now).correct (c.view.evaluate now).position now
          false).1.view.discontinuity now = c.view.discontinuity now := by
        rw [hcorrect.discontinuity, correct_timeline, correct_mapping]
        exact hread
      apply hbehind.silent hstart hnext hcorrect hdisc.ge
      · rw [correct_timeline]
        exact hsame.symm
      · rw [correct_reportedDiscontinuity]
        rfl
      · exact correct_discontinuityId _ _ _ _

/-- A measurement that finds nothing due can only move readers forward: the
timeline stays, and so does its active trajectory as a lower bound. -/
theorem measurementTimed_forward (hinv : c.Inv) (hsession : c.InSession)
    (hbehind : c.Behind start reported) {e : Exchange} {publicationNs : Option Nat}
    {processedNs : Nat} (hstart : start ≤ measurementTime e processedNs)
    (hpending : c.PendingAtMeasurement (.measurementTimed e publicationNs processedNs)) :
    c.Forward start reported (some (measurementTime e processedNs))
      (c.measurementTimed e publicationNs processedNs) := by
  have hnext := hinv.measurementTimed e publicationNs processedNs
  have hmapped := (c.observed e publicationNs processedNs).mapped_inSession
  have houtcome := measurementTimed_outcome c e publicationNs processedNs
  generalize c.measurementTimed e publicationNs processedNs = result at houtcome hnext ⊢
  cases houtcome with
  | unpinned => exact hbehind.silent hstart hnext hsession le_rfl rfl rfl rfl
  | rejected => exact hbehind.silent hstart hnext hsession le_rfl rfl rfl rfl
  | acquired hexpected haccepted =>
      refine hbehind.silent hstart hnext hmapped ?_ rfl rfl rfl
      have hactive := Timeline.discontinuityAt_of_pending (hpending hexpected haccepted)
      exact hactive.le.trans (hinv.ordered.le_discontinuityAt _)
  | jumped hexpected haccepted disc hdisc hjump =>
      have hactive : c.view.discontinuity (measurementTime e processedNs) =
          c.view.timeline.discontinuity :=
        Timeline.discontinuityAt_of_pending (hpending hexpected haccepted)
      have hge : c.view.timeline.discontinuity ≤ disc := by
        rw [hdisc]
        exact hinv.ordered.le_discontinuityAt _
      have hlt : c.view.discontinuity (measurementTime e processedNs) < disc :=
        lt_of_le_of_ne (hactive.le.trans hge) hjump.symm
      exact hbehind.reports hstart hnext hmapped
        ((hmapped.discontinuity _).trans hdisc.symm) hlt rfl rfl
  | refined _ _ hread =>
      have hcorrect : ((c.observed e publicationNs processedNs).mapped.correct
          (c.view.evaluate (measurementTime e processedNs)).position
          (measurementTime e processedNs) true).1.InSession := by
        simpa [InSession] using hmapped
      have hdisc : ((c.observed e publicationNs processedNs).mapped.correct
          (c.view.evaluate (measurementTime e processedNs)).position
          (measurementTime e processedNs) true).1.view.discontinuity
            (measurementTime e processedNs) =
          c.view.discontinuity (measurementTime e processedNs) := by
        rw [hcorrect.discontinuity, correct_timeline, correct_mapping]
        exact hread
      apply hbehind.silent hstart hnext hcorrect hdisc.ge
      · rw [correct_timeline]
        rfl
      · rw [correct_reportedDiscontinuity]
        rfl
      · exact correct_discontinuityId _ _ _ _

/-- A tick latches what is in effect and remembers it. -/
theorem ticked_discontinuity (hinv : c.Inv) (hsession : c.InSession) {staleAfter n : Nat}
    (hn : now ≤ n) :
    (c.ticked now staleAfter).view.discontinuity n = c.view.discontinuity n := by
  rw [(hsession.ticked now staleAfter).discontinuity, hsession.discontinuity]
  have hdrift : |c.view.mapping.drift| ≤ maxDrift := hinv.mapping ▸ hinv.regular.drift
  exact hinv.ordered.discontinuityAt_latch (ClockMapping.leaderTime_mono hdrift hn) le_rfl

theorem tick_forward (hinv : c.Inv) (hsession : c.InSession) (hbehind : c.Behind start reported)
    (hstart : start ≤ now) (staleAfter : Nat) :
    c.Forward start reported (some now) (c.tick now staleAfter) := by
  have hticked := hsession.ticked now staleAfter
  have hread : c.view.discontinuity now = c.tickDiscontinuity now := hsession.discontinuity now
  have hkeeps (n : Nat) (hn : ∀ t ∈ some now, t = n) :
      c.view.discontinuity n ≤ (c.ticked now staleAfter).view.discontinuity n := by
    obtain rfl := hn now rfl
    exact (ticked_discontinuity hinv hsession le_rfl).ge
  -- The remembered id is the one in effect, which later readers do not fall behind.
  have hseen (last : Nat) (hlast : last ≤ c.tickDiscontinuity now) :
      ∃ seen, (c.ticked now staleAfter).reportedDiscontinuity =
          some ((c.ticked now staleAfter).view.timeline.session, seen) ∧ last ≤ seen ∧
        ∀ n, now ≤ n → seen ≤ (c.ticked now staleAfter).view.discontinuity n := by
    refine ⟨c.tickDiscontinuity now, rfl, hlast, ?_⟩
    intro n hn
    rw [ticked_discontinuity hinv hsession hn, ← hread]
    exact hsession.discontinuity_mono hinv hn
  have houtcome := tick_outcome c now staleAfter
  generalize c.tick now staleAfter = result at houtcome ⊢
  cases houtcome with
  | unknown => exact hbehind.silent hstart hinv hsession le_rfl rfl rfl rfl
  | reported _ previous hreported hchanged =>
      refine ⟨hkeeps, hticked, ?_, ?_⟩
      · intro id hid last hlast
        obtain rfl : c.tickDiscontinuity now = id := Option.some.inj hid
        obtain ⟨seen, hsome, hle, hview⟩ := hbehind last hlast
        obtain rfl : previous = seen := by
          rw [hreported] at hsome
          exact (Prod.mk.inj (Option.some.inj hsome)).2
        exact hle.trans_lt (lt_of_le_of_ne (hread ▸ hview now hstart) hchanged)
      · intro last hlast
        obtain rfl : c.tickDiscontinuity now = last := Option.some.inj hlast
        exact hseen _ le_rfl
  | silent _ hreported =>
      refine ⟨hkeeps, hticked, by simp [Correction.discontinuityId], ?_⟩
      intro last hlast
      obtain ⟨seen, hsome, hle, -⟩ := hbehind last hlast
      exact hseen last (hle.trans (hreported seen hsome).le)

end Steps

theorem step_forward {c : FollowerCore} {start : Nat} {reported : Option Nat} (hinv : c.Inv)
    (hsession : c.InSession) (hbehind : c.Behind start reported) {op : Op}
    (hstart : ∀ now ∈ op.time, start ≤ now) (hone : (c.step op).2 ≠ some .newSession)
    (hpending : c.PendingAtMeasurement op) :
    c.Forward start reported op.time (c.step op) := by
  cases op with
  | connected =>
      exact ⟨fun _ _ => le_rfl, hsession, by simp [step, Correction.discontinuityId], hbehind⟩
  | disconnected =>
      have hafter : c.disconnected.InSession := hsession.step .disconnected
      have hread (n : Nat) : c.disconnected.view.discontinuity n = c.view.discontinuity n :=
        (hafter.discontinuity n).trans (hsession.discontinuity n).symm
      refine ⟨fun n _ => (hread n).ge, hafter, by simp [step, Correction.discontinuityId], ?_⟩
      intro last hlast
      obtain ⟨seen, hsome, hle, hview⟩ := hbehind last hlast
      exact ⟨seen, hsome, hle, fun n hn => (hview n hn).trans (hread n).ge⟩
  | state t now => exact state_forward hinv hsession hbehind (hstart now rfl) t.valid.ordered hone
  | measurementTimed e publicationNs processedNs =>
      exact measurementTimed_forward hinv hsession hbehind (hstart _ rfl) hpending
  | tick now staleAfter => exact tick_forward hinv hsession hbehind (hstart now rfl) staleAfter

/-- The induction over a session: readers move forward at each operation and
reported ids increase from the last one reported. -/
theorem run_forward {c : FollowerCore} {start : Nat} {reported : Option Nat} (hinv : c.Inv)
    (hsession : c.InSession) (hbehind : c.Behind start reported) {ops : List Op}
    (htimes : Op.Chronological ops) (hstart : ∀ now ∈ ops.filterMap Op.time, start ≤ now)
    (hone : some Correction.newSession ∉ Machine.outputs step c ops)
    (hpending : Machine.Along step PendingAtMeasurement c ops) :
    Machine.Along step KeepsDiscontinuity c ops ∧
      ((Machine.outputs step c ops).filterMap Correction.discontinuityId).Pairwise (· < ·) ∧
      ∀ last ∈ reported,
        ∀ id ∈ (Machine.outputs step c ops).filterMap Correction.discontinuityId, last < id := by
  induction ops generalizing c start reported with
  | nil => exact ⟨trivial, List.Pairwise.nil, by simp [Machine.outputs]⟩
  | cons op rest ih =>
      simp only [Machine.outputs, List.mem_cons, not_or] at hone
      have hfirst : ∀ now ∈ op.time, start ≤ now := fun now hnow =>
        hstart now (List.mem_filterMap.mpr ⟨op, List.mem_cons_self, hnow⟩)
      have hforward := step_forward hinv hsession hbehind hfirst (Ne.symm hone.1) hpending.1
      have hrest : Op.Chronological rest ∧
          ∀ now ∈ rest.filterMap Op.time, op.time.getD start ≤ now := by
        unfold Op.Chronological at htimes ⊢
        cases htime : op.time with
        | none =>
            rw [List.filterMap_cons_none htime] at htimes hstart
            exact ⟨htimes, hstart⟩
        | some now =>
            rw [List.filterMap_cons_some htime, List.pairwise_cons] at htimes
            exact ⟨htimes.2, htimes.1⟩
      obtain ⟨hkeeps, hincreasing, hlater⟩ := ih (hinv.step op) hforward.inSession hforward.behind
        hrest.1 hrest.2 hone.2 hpending.2
      refine ⟨⟨hforward.keeps, hkeeps⟩, ?_⟩
      simp only [Machine.outputs]
      cases hevent : Correction.discontinuityId (c.step op).2 with
      | none =>
          rw [List.filterMap_cons_none hevent]
          rw [lastReported, hevent, Option.none_or] at hlater
          exact ⟨hincreasing, hlater⟩
      | some id =>
          rw [List.filterMap_cons_some hevent]
          have hafter := hlater id (by simp [lastReported, hevent])
          refine ⟨List.pairwise_cons.mpr ⟨hafter, hincreasing⟩, ?_⟩
          intro last hlast i hi
          have hlt : last < id := hforward.increases id hevent last hlast
          rcases List.mem_cons.mp hi with rfl | hmem
          · exact hlt
          · exact hlt.trans (hafter i hmem)

/-- Within one leader session, at non-decreasing local times, and as long as no
accepted measurement finds a retained schedule already due: no operation moves
a reader back across a discontinuity, and reported ids increase strictly. -/
theorem no_rollback {c : FollowerCore} (hreach : c.Reachable) (hsession : c.InSession)
    {ops : List Op} (htimes : Op.Chronological ops)
    (hone : some Correction.newSession ∉ Machine.outputs step c ops)
    (hpending : Machine.Along step PendingAtMeasurement c ops) :
    Machine.Along step KeepsDiscontinuity c ops ∧
      ((Machine.outputs step c ops).filterMap Correction.discontinuityId).Pairwise (· < ·) := by
  have hbehind : c.Behind 0 none := fun last hlast => absurd hlast (by simp)
  obtain ⟨hkeeps, hincreasing, -⟩ := run_forward hreach.inv hsession hbehind htimes
    (fun now _ => Nat.zero_le now) hone hpending
  exact ⟨hkeeps, hincreasing⟩

/-- A tick latches the scheduled jump before the late reply is processed. -/
theorem no_rollback_of_latched :
    Machine.Along step KeepsDiscontinuity sampleFollower
        [.tick 1050000000 5000000000, .tick 1100400000 5000000000,
          .measurementTimed ⟨1090000000, 1090000000, 1090000000, 1100000000⟩ none 1100500000] ∧
      ((Machine.outputs step sampleFollower
        [.tick 1050000000 5000000000, .tick 1100400000 5000000000,
          .measurementTimed ⟨1090000000, 1090000000, 1090000000, 1100000000⟩ none
            1100500000]).filterMap Correction.discontinuityId).Pairwise (· < ·) :=
  no_rollback sampleFollower_reachable (by unfold InSession; decide +kernel) (by decide)
    (by decide +kernel) (by decide +kernel)

/-- Without the tick, the late reply takes readers at 1100.5 ms back from
discontinuity 1 to discontinuity 0. -/
theorem rollback_of_due_schedule :
    ¬ ∀ c : FollowerCore, c.Reachable → c.InSession → ∀ ops : List Op, Op.Chronological ops →
      some Correction.newSession ∉ Machine.outputs step c ops →
      Machine.Along step KeepsDiscontinuity c ops ∧
        ((Machine.outputs step c ops).filterMap Correction.discontinuityId).Pairwise (· < ·) := by
  intro hclaim
  have hkeeps := (hclaim sampleFollower sampleFollower_reachable
    (by unfold InSession; decide +kernel)
    [.measurementTimed ⟨1090000000, 1090000000, 1090000000, 1100000000⟩ none 1100500000]
    (by decide) (by decide +kernel)).1.1
  exact absurd (hkeeps 1100500000 (fun _ ht => (Option.mem_some_iff.mp ht).symm))
    (by decide +kernel)

end FollowerCore

end Tidkod
