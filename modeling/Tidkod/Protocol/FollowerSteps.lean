import Mathlib.Tactic
import Tidkod.Protocol.ClockSteps
import Tidkod.Protocol.Follower

/-!
What one operation can do to a follower. The outcomes of a snapshot, a
measurement and a tick are listed once; the invariant of all reachable
followers and every later result about runs is a case analysis on them.
-/

namespace Tidkod

open Rounding

namespace View

/-- The discontinuity that a reader sees at a local time. -/
def discontinuity (v : View) (now : Nat) : Nat := v.timeline.discontinuityAt (v.evaluationTime now)

@[simp] theorem evaluate_discontinuity (v : View) (now : Nat) :
    (v.evaluate now).discontinuity = v.discontinuity now := rfl

/-- Reading depends on the synchronization state only through whether it is
uninitialized. -/
theorem evaluationTime_of_ne {v : View} (h : v.sync ≠ .uninitialized) (now : Nat) :
    v.evaluationTime now = v.mapping.leaderTime now := if_neg h

end View

namespace FollowerCore

/-- The first snapshot of a connection pins its session. -/
def pin (c : FollowerCore) (session : Bytes16) : FollowerCore :=
  { c with expectedSession := some session }

/-- The newer revision as it would be taken over at `now`. -/
def latched (c : FollowerCore) (t : Timeline) (now : Nat) : Timeline :=
  t.latch (max c.view.timeline.discontinuity (c.view.discontinuity now))

/-- The newer revision would undo an applied change, or would change the format
without a discontinuity. -/
def RollsBack (c : FollowerCore) (t : Timeline) (now : Nat) : Prop :=
  (c.latched t now).discontinuity < c.view.discontinuity now ∨
    t.format ≠ c.view.timeline.format ∧
      (c.latched t now).discontinuity = c.view.discontinuity now

instance (c : FollowerCore) (t : Timeline) (now : Nat) : Decidable (c.RollsBack t now) :=
  inferInstanceAs (Decidable (_ ∨ _))

/-- The follower with a newer revision taken over. -/
def follow (c : FollowerCore) (t : Timeline) (now : Nat) : FollowerCore :=
  { c with view := { c.view with timeline := c.latched t now } }

/-- The follower with an exchange recorded by its estimator. -/
def observed (c : FollowerCore) (e : Exchange) (publicationNs : Option Nat) (processedNs : Nat) :
    FollowerCore :=
  { c with
    estimator := (c.estimator.observeTimed e publicationNs processedNs).1
    view :=
      { c.view with
        recovering := (c.estimator.observeTimed e publicationNs processedNs).1.recovering } }

/-- The follower with the estimator's mapping in force. -/
def mapped (c : FollowerCore) : FollowerCore :=
  { c with
    everLocked := c.everLocked || c.estimator.mapping.converged
    view :=
      { c.view with
        mapping := c.estimator.mapping
        sync := if c.estimator.mapping.converged then .synchronized else .acquiring } }

/-- The realignment during acquisition: no correction is carried over. -/
def realigned (c : FollowerCore) : FollowerCore :=
  { c with
    view :=
      { c.view with
        correctionFrames := 0
        resyncGeneration := min (c.view.resyncGeneration + 1) u64Max } }

/-- The discontinuity a tick finds in effect. -/
def tickDiscontinuity (c : FollowerCore) (now : Nat) : Nat :=
  c.view.timeline.discontinuityAt (c.view.mapping.leaderTime now)

/-- The follower after a tick that does not report. -/
def ticked (c : FollowerCore) (now staleAfter : Nat) : FollowerCore :=
  { c with
    view :=
      { c.view with
        sync := if staleAfter < now - c.view.mapping.lastSampleNs then .holdover else c.view.sync
        timeline := c.view.timeline.latch (c.tickDiscontinuity now) }
    reportedDiscontinuity := some (c.view.timeline.session, c.tickDiscontinuity now) }

/-- The possible effects of a snapshot. -/
inductive StateOutcome (c : FollowerCore) (t : Timeline) (now : Nat) :
    FollowerCore × Option Correction → Prop where
  | foreign (s : Bytes16) (hexpected : c.expectedSession = some s) (hsession : s ≠ t.session) :
      StateOutcome c t now (c, none)
  | adopted (hexpected : ∀ s ∈ c.expectedSession, s = t.session)
      (hsession : c.view.timeline.session ≠ t.session) :
      StateOutcome c t now ((c.pin t.session).adopt t)
  | refused (hexpected : ∀ s ∈ c.expectedSession, s = t.session)
      (hsession : c.view.timeline.session = t.session)
      (hrefused : t.revision ≤ c.view.timeline.revision ∨ c.RollsBack t now) :
      StateOutcome c t now (c.pin t.session, none)
  | jumped (hexpected : ∀ s ∈ c.expectedSession, s = t.session)
      (hsession : c.view.timeline.session = t.session)
      (hrevision : c.view.timeline.revision < t.revision) (hkeeps : ¬ c.RollsBack t now)
      (hjump : (c.latched t now).discontinuityAt (c.view.mapping.leaderTime now) ≠
        c.view.discontinuity now) :
      StateOutcome c t now
        (((c.pin t.session).follow t now).discontinue
          ((c.latched t now).discontinuityAt (c.view.mapping.leaderTime now)))
  | refined (hexpected : ∀ s ∈ c.expectedSession, s = t.session)
      (hsession : c.view.timeline.session = t.session)
      (hrevision : c.view.timeline.revision < t.revision) (hkeeps : ¬ c.RollsBack t now)
      (hsame : (c.latched t now).discontinuityAt (c.view.mapping.leaderTime now) =
        c.view.discontinuity now) :
      StateOutcome c t now
        (((c.pin t.session).follow t now).correct (c.view.evaluate now).position now false)

/-- `refresh` with the intermediate followers named. -/
theorem refresh_eq (c : FollowerCore) (t : Timeline) (now : Nat) :
    c.refresh t now =
      if c.RollsBack t now then (c, none)
      else if (c.latched t now).discontinuityAt (c.view.mapping.leaderTime now) ≠
          c.view.discontinuity now then
        (c.follow t now).discontinue
          ((c.latched t now).discontinuityAt (c.view.mapping.leaderTime now))
      else (c.follow t now).correct (c.view.evaluate now).position now false :=
  rfl

theorem state_eq (c : FollowerCore) (t : Timeline) (now : Nat) :
    c.state t now =
      if c.expectedSession.any (fun s => s ≠ t.session) then (c, none)
      else if c.view.timeline.session ≠ t.session then (c.pin t.session).adopt t
      else if t.revision ≤ c.view.timeline.revision then (c.pin t.session, none)
      else (c.pin t.session).refresh t now :=
  rfl

theorem state_outcome (c : FollowerCore) (t : Timeline) (now : Nat) :
    StateOutcome c t now (c.state t now) := by
  rw [state_eq, refresh_eq]
  split_ifs with hforeign hsession hstale hback hjump
  · cases hexpected : c.expectedSession with
    | none => simp [hexpected] at hforeign
    | some s => exact .foreign s hexpected (by simpa [hexpected] using hforeign)
  all_goals
    have hexpected : ∀ s ∈ c.expectedSession, s = t.session := by
      simpa [Option.any_eq_true] using hforeign
  · exact .adopted hexpected hsession
  · exact .refused hexpected (not_not.mp hsession) (Or.inl hstale)
  · exact .refused hexpected (not_not.mp hsession) (Or.inr hback)
  · exact .jumped hexpected (not_not.mp hsession) (not_le.mp hstale) hback hjump
  · exact .refined hexpected (not_not.mp hsession) (not_le.mp hstale) hback (not_not.mp hjump)

/-- The possible effects of a measurement. -/
inductive MeasurementOutcome (c : FollowerCore) (e : Exchange) (publicationNs : Option Nat)
    (processedNs : Nat) : FollowerCore × Option Correction → Prop where
  | unpinned (hexpected : c.expectedSession = none) :
      MeasurementOutcome c e publicationNs processedNs (c, none)
  | rejected (hexpected : c.expectedSession ≠ none)
      (hrejected : (c.estimator.observeInner e).2 = false) :
      MeasurementOutcome c e publicationNs processedNs
        (c.observed e publicationNs processedNs, none)
  | acquired (hexpected : c.expectedSession ≠ none)
      (haccepted : (c.estimator.observeInner e).2 = true) (hlocked : c.everLocked = false)
      (frames : ℚ)
      (hframes : frames =
        ((((c.view.timeline.at
          ((c.observed e publicationNs processedNs).estimator.mapping.leaderTime
            (measurementTime e processedNs))).1.fixed -
            (c.view.evaluate (measurementTime e processedNs)).position.fixed : Int) : ℚ) / q32)) :
      MeasurementOutcome c e publicationNs processedNs
        ((c.observed e publicationNs processedNs).mapped.realigned, some (.hardResync frames))
  | jumped (hexpected : c.expectedSession ≠ none)
      (haccepted : (c.estimator.observeInner e).2 = true) (disc : Nat)
      (hdisc : disc = c.view.timeline.discontinuityAt
        ((c.observed e publicationNs processedNs).estimator.mapping.leaderTime
          (measurementTime e processedNs)))
      (hjump : disc ≠ c.view.discontinuity (measurementTime e processedNs)) :
      MeasurementOutcome c e publicationNs processedNs
        ((c.observed e publicationNs processedNs).mapped.discontinue disc)
  | refined (hexpected : c.expectedSession ≠ none)
      (haccepted : (c.estimator.observeInner e).2 = true)
      (hsame : c.view.timeline.discontinuityAt
        ((c.observed e publicationNs processedNs).estimator.mapping.leaderTime
          (measurementTime e processedNs)) = c.view.discontinuity (measurementTime e processedNs)) :
      MeasurementOutcome c e publicationNs processedNs
        ((c.observed e publicationNs processedNs).mapped.correct
          (c.view.evaluate (measurementTime e processedNs)).position
          (measurementTime e processedNs) true)

theorem applyMapping_eq (c : FollowerCore) (before : Reading) (now : Nat) :
    c.applyMapping before now =
      if !c.everLocked then
        (c.mapped.realigned,
          some (.hardResync
            (((c.view.timeline.at (c.estimator.mapping.leaderTime now)).1.fixed -
              before.position.fixed : Int) / q32)))
      else if c.view.timeline.discontinuityAt (c.estimator.mapping.leaderTime now) ≠
          before.discontinuity then
        c.mapped.discontinue
          (c.view.timeline.discontinuityAt (c.estimator.mapping.leaderTime now))
      else c.mapped.correct before.position now true :=
  rfl

theorem measurementTimed_eq (c : FollowerCore) (e : Exchange) (publicationNs : Option Nat)
    (processedNs : Nat) :
    c.measurementTimed e publicationNs processedNs =
      if c.expectedSession.isNone then (c, none)
      else if !(c.estimator.observeInner e).2 then (c.observed e publicationNs processedNs, none)
      else (c.observed e publicationNs processedNs).applyMapping
        (c.view.evaluate (measurementTime e processedNs)) (measurementTime e processedNs) :=
  rfl

theorem measurementTimed_outcome (c : FollowerCore) (e : Exchange) (publicationNs : Option Nat)
    (processedNs : Nat) :
    MeasurementOutcome c e publicationNs processedNs
      (c.measurementTimed e publicationNs processedNs) := by
  rw [measurementTimed_eq, applyMapping_eq]
  split_ifs with hexpected hrejected hlocked hjump
  · exact .unpinned (by simpa using hexpected)
  · exact .rejected (by simpa using hexpected) (by simpa using hrejected)
  all_goals
    have hpinned : c.expectedSession ≠ none := by simpa using hexpected
    have haccepted : (c.estimator.observeInner e).2 = true := by simpa using hrejected
  · have hunlocked : (!c.everLocked) = true := hlocked
    exact .acquired hpinned haccepted (by simpa using hunlocked) _ rfl
  · exact .jumped hpinned haccepted _ rfl hjump
  · exact .refined hpinned haccepted (not_not.mp hjump)

/-- The possible effects of a tick. -/
inductive TickOutcome (c : FollowerCore) (now staleAfter : Nat) :
    FollowerCore × Option Correction → Prop where
  | unknown (hclock : c.view.mapping.lastSampleNs = 0) : TickOutcome c now staleAfter (c, none)
  | reported (hclock : c.view.mapping.lastSampleNs ≠ 0) (previous : Nat)
      (hreported : c.reportedDiscontinuity = some (c.view.timeline.session, previous))
      (hchanged : previous ≠ c.tickDiscontinuity now) :
      TickOutcome c now staleAfter
        ({ c.ticked now staleAfter with large := 0, largeSign := 0 },
          some (.discontinuity (c.tickDiscontinuity now)))
  | silent (hclock : c.view.mapping.lastSampleNs ≠ 0)
      (hreported : ∀ previous, c.reportedDiscontinuity =
        some (c.view.timeline.session, previous) → previous = c.tickDiscontinuity now) :
      TickOutcome c now staleAfter (c.ticked now staleAfter, none)

theorem tick_eq (c : FollowerCore) (now staleAfter : Nat) :
    c.tick now staleAfter =
      if c.view.mapping.lastSampleNs = 0 then (c, none)
      else if c.reportedDiscontinuity.any
          (fun p => p.1 = c.view.timeline.session ∧ p.2 ≠ c.tickDiscontinuity now) then
        ({ c.ticked now staleAfter with large := 0, largeSign := 0 },
          some (.discontinuity (c.tickDiscontinuity now)))
      else (c.ticked now staleAfter, none) :=
  rfl

theorem tick_outcome (c : FollowerCore) (now staleAfter : Nat) :
    TickOutcome c now staleAfter (c.tick now staleAfter) := by
  rw [tick_eq]
  split_ifs with hclock hchanged
  · exact .unknown hclock
  · obtain ⟨⟨session, previous⟩, hreported, hkey⟩ := (Option.any_eq_true _ _).mp hchanged
    simp only [decide_eq_true_eq] at hkey
    obtain ⟨rfl, hne⟩ := hkey
    exact .reported hclock previous hreported hne
  · apply TickOutcome.silent hclock
    intro previous hreported
    simpa [hreported] using hchanged

/-- The distance of a position from the trajectory, in frames. -/
def trajectoryError (c : FollowerCore) (before : Position) (now : Nat) : ℚ :=
  ((before.fixed - (c.view.timeline.at (c.view.mapping.leaderTime now)).1.fixed : Int) : ℚ) / q32

/-- The follower slewing away an error from `now` on. -/
def slewing (c : FollowerCore) (error : ℚ) (disc now : Nat) : FollowerCore :=
  { c with
    view :=
      { c.view with
        correctionFrames := error
        slewFramesPerSecond :=
          if c.policy.settleTimeNs = 0 then c.policy.slewFramesPerSecond
          else |error| * 1000000000 / c.policy.settleTimeNs
        correctionAt := now
        correctionDiscontinuity := disc } }

/-- Counting large errors touches nothing but the count. -/
theorem countLarge_eq (c : FollowerCore) (error : ℚ) (measurement : Bool) :
    c.countLarge error measurement =
      { c with
        large := (c.countLarge error measurement).large
        largeSign := (c.countLarge error measurement).largeSign } := by
  unfold countLarge
  split_ifs <;> rfl

theorem correct_eq (c : FollowerCore) (before : Position) (now : Nat) (measurement : Bool) :
    c.correct before now measurement =
      if (c.countLarge (c.trajectoryError before now) measurement).policy.hardThresholdFrames <
            |c.trajectoryError before now| ∧
          (c.countLarge (c.trajectoryError before now) measurement).policy.confirmations ≤
            (c.countLarge (c.trajectoryError before now) measurement).large then
        ({ (c.countLarge (c.trajectoryError before now) measurement).realigned with large := 0 },
          some (.hardResync (-c.trajectoryError before now)))
      else
        ((c.countLarge (c.trajectoryError before now) measurement).slewing
            (c.trajectoryError before now) (c.tickDiscontinuity now) now,
          some (.slew (-c.trajectoryError before now))) :=
  rfl

/-- The two effects of `correct`, up to the bookkeeping of large errors. -/
inductive CorrectOutcome (c : FollowerCore) (before : Position) (now : Nat) :
    FollowerCore × Option Correction → Prop where
  | resynced (large : Nat) (largeSign : Int) :
      CorrectOutcome c before now
        ({ c.realigned with large := large, largeSign := largeSign },
          some (.hardResync (-c.trajectoryError before now)))
  | slewed (large : Nat) (largeSign : Int) :
      CorrectOutcome c before now
        ({ c.slewing (c.trajectoryError before now) (c.tickDiscontinuity now) now with
            large := large, largeSign := largeSign },
          some (.slew (-c.trajectoryError before now)))

theorem correct_outcome (c : FollowerCore) (before : Position) (now : Nat) (measurement : Bool) :
    CorrectOutcome c before now (c.correct before now measurement) := by
  rw [correct_eq, countLarge_eq]
  split_ifs
  · exact .resynced _ _
  · exact .slewed _ _

/-- `correct` always reports, and never a new session. -/
theorem correct_isSome (c : FollowerCore) (before : Position) (now : Nat) (measurement : Bool) :
    (c.correct before now measurement).2.isSome = true := by
  have houtcome := correct_outcome c before now measurement
  generalize c.correct before now measurement = result at houtcome ⊢
  cases houtcome <;> rfl

theorem correct_ne_newSession (c : FollowerCore) (before : Position) (now : Nat)
    (measurement : Bool) : (c.correct before now measurement).2 ≠ some .newSession := by
  have houtcome := correct_outcome c before now measurement
  generalize c.correct before now measurement = result at houtcome ⊢
  cases houtcome <;> simp

/-- A new session is reported by its adoption and by nothing else. -/
theorem state_of_newSession {c : FollowerCore} {t : Timeline} {now : Nat}
    (h : (c.state t now).2 = some .newSession) : c.state t now = (c.pin t.session).adopt t := by
  have houtcome := state_outcome c t now
  generalize c.state t now = result at houtcome h ⊢
  cases houtcome with
  | adopted => rfl
  | foreign => exact absurd h (by simp)
  | refused => exact absurd h (by simp)
  | jumped => exact absurd h (by simp [discontinue])
  | refined => exact absurd h (correct_ne_newSession _ _ _ _)

/-- What `correct` leaves alone. -/
theorem correct_frame (c : FollowerCore) (before : Position) (now : Nat) (measurement : Bool) :
    (c.correct before now measurement).1.view.timeline = c.view.timeline ∧
      (c.correct before now measurement).1.view.mapping = c.view.mapping ∧
      (c.correct before now measurement).1.view.sync = c.view.sync ∧
      (c.correct before now measurement).1.estimator = c.estimator ∧
      (c.correct before now measurement).1.expectedSession = c.expectedSession ∧
      (c.correct before now measurement).1.reportedDiscontinuity = c.reportedDiscontinuity := by
  have houtcome := correct_outcome c before now measurement
  generalize c.correct before now measurement = result at houtcome ⊢
  cases houtcome <;> exact ⟨rfl, rfl, rfl, rfl, rfl, rfl⟩

section CorrectSimp

variable (c : FollowerCore) (before : Position) (now : Nat) (measurement : Bool)

@[simp] theorem correct_timeline :
    (c.correct before now measurement).1.view.timeline = c.view.timeline :=
  (c.correct_frame before now measurement).1

@[simp] theorem correct_mapping :
    (c.correct before now measurement).1.view.mapping = c.view.mapping :=
  (c.correct_frame before now measurement).2.1

@[simp] theorem correct_sync :
    (c.correct before now measurement).1.view.sync = c.view.sync :=
  (c.correct_frame before now measurement).2.2.1

@[simp] theorem correct_estimator :
    (c.correct before now measurement).1.estimator = c.estimator :=
  (c.correct_frame before now measurement).2.2.2.1

@[simp] theorem correct_expectedSession :
    (c.correct before now measurement).1.expectedSession = c.expectedSession :=
  (c.correct_frame before now measurement).2.2.2.2.1

@[simp] theorem correct_reportedDiscontinuity :
    (c.correct before now measurement).1.reportedDiscontinuity = c.reportedDiscontinuity :=
  (c.correct_frame before now measurement).2.2.2.2.2

end CorrectSimp

/-- What holds of every reachable follower. -/
structure Inv (c : FollowerCore) : Prop where
  ordered : c.view.timeline.Ordered
  mapping : c.view.mapping = c.estimator.mapping
  regular : c.estimator.Regular
  sync : c.view.mapping.lastSampleNs ≠ 0 → c.view.sync ≠ .uninitialized
  pinned : ∀ s ∈ c.expectedSession, s = c.view.timeline.session

theorem inv_new (position : Position) (format : FrameFormat) (policy : CorrectionPolicy) :
    (new (fallback position format) policy).Inv where
  ordered := List.pairwise_singleton _ _
  mapping := rfl
  regular := ClockEstimator.regular_default
  sync := fun h => absurd rfl h
  pinned := fun s hs => absurd hs (by simp [new])

namespace Inv

variable {c : FollowerCore}

/-- The invariant does not mention the correction that is under way. -/
theorem correct (h : c.Inv) (before : Position) (now : Nat) (measurement : Bool) :
    (c.correct before now measurement).1.Inv where
  ordered := by simpa using h.ordered
  mapping := by simpa using h.mapping
  regular := by simpa using h.regular
  sync := by simpa using h.sync
  pinned := by simpa using h.pinned

theorem discontinue (h : c.Inv) (disc : Nat) : (c.discontinue disc).1.Inv :=
  ⟨h.ordered, h.mapping, h.regular, h.sync, h.pinned⟩

theorem realigned (h : c.Inv) : c.realigned.Inv :=
  ⟨h.ordered, h.mapping, h.regular, h.sync, h.pinned⟩

theorem connected (h : c.Inv) : c.connected.Inv :=
  ⟨h.ordered, h.mapping, h.regular, h.sync,
    fun s hs => absurd hs (by simp [FollowerCore.connected])⟩

theorem disconnected (h : c.Inv) : c.disconnected.Inv where
  ordered := h.ordered
  mapping := h.mapping
  regular := h.regular
  sync := by
    intro hclock
    have hholdover : c.disconnected.view.sync = .holdover := if_pos hclock
    rw [hholdover]
    decide
  pinned := h.pinned

theorem pin (h : c.Inv) {session : Bytes16} (hsession : c.view.timeline.session = session) :
    (c.pin session).Inv where
  ordered := h.ordered
  mapping := h.mapping
  regular := h.regular
  sync := h.sync
  pinned := fun _ hs => (Option.mem_some_iff.mp hs).symm.trans hsession.symm

theorem follow (h : c.Inv) {t : Timeline} (ht : t.Ordered) (now : Nat) :
    ((c.pin t.session).follow t now).Inv where
  ordered := ht.activateWhile _
  mapping := h.mapping
  regular := h.regular
  sync := h.sync
  pinned := fun _ hs => (Option.mem_some_iff.mp hs).symm

theorem adopt {t : Timeline} (ht : t.Ordered) : ((c.pin t.session).adopt t).1.Inv where
  ordered := ht
  mapping := rfl
  regular := ClockEstimator.regular_default
  sync := fun h => absurd rfl h
  pinned := fun _ hs => (Option.mem_some_iff.mp hs).symm

theorem observed (h : c.Inv) {e : Exchange} (hrejected : (c.estimator.observeInner e).2 = false)
    (publicationNs : Option Nat) (processedNs : Nat) :
    (c.observed e publicationNs processedNs).Inv where
  ordered := h.ordered
  mapping := h.mapping.trans (ClockEstimator.observeInner_mapping_of_rejected hrejected).symm
  regular := h.regular.observeTimed e _ _
  sync := h.sync
  pinned := h.pinned

theorem mapped (h : c.Inv) (e : Exchange) (publicationNs : Option Nat) (processedNs : Nat) :
    (c.observed e publicationNs processedNs).mapped.Inv where
  ordered := h.ordered
  mapping := rfl
  regular := h.regular.observeTimed e _ _
  sync := by
    intro _
    simp only [FollowerCore.mapped]
    split_ifs <;> decide
  pinned := h.pinned

theorem ticked (h : c.Inv) (now staleAfter : Nat) : (c.ticked now staleAfter).Inv where
  ordered := h.ordered.activateWhile _
  mapping := h.mapping
  regular := h.regular
  sync := by
    intro hclock
    simp only [FollowerCore.ticked]
    split_ifs
    · decide
    · exact h.sync hclock
  pinned := h.pinned

theorem state (h : c.Inv) {t : Timeline} (ht : t.Ordered) (now : Nat) : (c.state t now).1.Inv := by
  have houtcome := state_outcome c t now
  generalize c.state t now = result at houtcome ⊢
  cases houtcome with
  | foreign => exact h
  | adopted => exact adopt ht
  | refused _ hsession => exact h.pin hsession
  | jumped => exact (h.follow ht now).discontinue _
  | refined => exact (h.follow ht now).correct _ _ _

theorem measurementTimed (h : c.Inv) (e : Exchange) (publicationNs : Option Nat)
    (processedNs : Nat) : (c.measurementTimed e publicationNs processedNs).1.Inv := by
  have houtcome := measurementTimed_outcome c e publicationNs processedNs
  generalize c.measurementTimed e publicationNs processedNs = result at houtcome ⊢
  cases houtcome with
  | unpinned => exact h
  | rejected _ hrejected => exact h.observed hrejected _ _
  | acquired => exact (h.mapped e _ _).realigned
  | jumped => exact (h.mapped e _ _).discontinue _
  | refined => exact (h.mapped e _ _).correct _ _ _

theorem tick (h : c.Inv) (now staleAfter : Nat) : (c.tick now staleAfter).1.Inv := by
  have houtcome := tick_outcome c now staleAfter
  generalize c.tick now staleAfter = result at houtcome ⊢
  cases houtcome with
  | unknown => exact h
  | reported =>
      have hticked := h.ticked now staleAfter
      exact ⟨hticked.ordered, hticked.mapping, hticked.regular, hticked.sync, hticked.pinned⟩
  | silent => exact h.ticked now staleAfter

theorem step (h : c.Inv) (op : Op) : (c.step op).1.Inv := by
  cases op with
  | connected => exact h.connected
  | disconnected => exact h.disconnected
  | state t now => exact h.state t.valid.ordered now
  | measurementTimed e publicationNs processedNs => exact h.measurementTimed e _ _
  | tick now staleAfter => exact h.tick now staleAfter

end Inv

theorem Reachable.inv {c : FollowerCore} (h : c.Reachable) : c.Inv := by
  obtain ⟨position, format, policy, hreach⟩ := h
  exact hreach.invariant (inv_new position format policy) (fun _ op hinv => hinv.step op)

end FollowerCore

end Tidkod
