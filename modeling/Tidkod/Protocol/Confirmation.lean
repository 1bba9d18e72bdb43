import Mathlib.Tactic
import Tidkod.Lib.Streak
import Tidkod.Protocol.FollowerSteps

/-!
Confirmation of hard resynchronizations. Accepted measurements and snapshots find how
far the output is from the trajectory; a follower jumps only after several
measurements in a row found it far off on the same side. Here the findings are listed
since the last event that clears them, and the counter of the follower is read off the
list. A scheduled change that a reader sees while no operation reports it clears
nothing: the counter then spans two trajectories.
-/

namespace Tidkod

open Streak

/-- An error that `correct` found, with the discontinuity in effect for readers. -/
structure Finding where
  measured : Bool
  error : ℚ
  discontinuity : Nat
  deriving DecidableEq

namespace Finding

def direction (f : Finding) : Int := if 0 < f.error then 1 else -1

def Large (threshold : ℚ) (f : Finding) : Prop := threshold < |f.error|

/-- On the same side of the same trajectory. -/
def Agrees (newer older : Finding) : Prop :=
  newer.direction = older.direction ∧ newer.discontinuity = older.discontinuity

/-- Only measurements count; snapshots are heard. -/
def weight (f : Finding) : Nat := if f.measured then 1 else 0

/-- The last `n` measurements found large errors on one side of one trajectory, and
no snapshot since the first of them found otherwise. -/
def FarOff (threshold : ℚ) (n : Nat) (since : List Finding) : Prop :=
  Confirmed (Large threshold) Agrees weight n since

end Finding

open Finding

/-- The error that a correction of `correct` reports with its sign reversed. -/
def Correction.error : Option Correction → Option ℚ
  | some (.slew frames) => some (-frames)
  | some (.hardResync frames) => some (-frames)
  | _ => none

/-- A new session or an explicit discontinuity. -/
def Correction.restarts : Option Correction → Bool
  | some .newSession => true
  | some (.discontinuity _) => true
  | _ => false

def Op.measures : Op → Bool
  | .measurementTimed _ _ _ => true
  | _ => false

def Op.reconnects : Op → Bool
  | .connected => true
  | _ => false

namespace FollowerCore

def finding (c : FollowerCore) (op : Op) : Option Finding :=
  op.time.bind fun now => (Correction.error (c.step op).2).map fun error =>
    ⟨op.measures, error, c.view.discontinuity now⟩

/-- The findings since the last reconnect, new session or explicit discontinuity,
newest first. -/
def noteFinding (since : List Finding) (c : FollowerCore) (op : Op) : List Finding :=
  if op.reconnects || Correction.restarts (c.step op).2 then []
  else (c.finding op).toList ++ since

def findings (c : FollowerCore) (before : List Op) : List Finding :=
  Machine.record step noteFinding [] c before

/-- What was counted is about the trajectory that readers see at `now`. -/
def CountsPresent (c : FollowerCore) (now : Nat) : Prop :=
  c.large ≠ 0 → c.view.discontinuity now = c.view.correctionDiscontinuity

/-- No snapshot is taken over and no measurement accepted while large errors are
counted of a trajectory that readers no longer see. -/
def KeepsCountPresent (c : FollowerCore) : Op → Prop
  | .state t now =>
      c.view.timeline.session = t.timeline.session →
        c.view.timeline.revision < t.timeline.revision → ¬ c.RollsBack t.timeline now →
          c.CountsPresent now
  | .measurementTimed e _ processedNs =>
      c.expectedSession ≠ none → (c.estimator.observeInner e).2 = true →
        c.CountsPresent (measurementTime e processedNs)
  | _ => True

instance (c : FollowerCore) (now : Nat) : Decidable (c.CountsPresent now) :=
  inferInstanceAs (Decidable (_ → _))

instance (c : FollowerCore) (op : Op) : Decidable (c.KeepsCountPresent op) :=
  match op with
  | .state _ _ => inferInstanceAs (Decidable (_ → _ → _ → _))
  | .measurementTimed _ _ _ => inferInstanceAs (Decidable (_ → _ → _))
  | .connected => inferInstanceAs (Decidable True)
  | .disconnected => inferInstanceAs (Decidable True)
  | .tick _ _ => inferInstanceAs (Decidable True)

/-- A hard resynchronization comes from an accepted measurement, and after the first
converged mapping of the session it is confirmed by the findings. -/
def ResyncConfirmed (since : List Finding) (c : FollowerCore) (op : Op) : Prop :=
  ∀ frames, (c.step op).2 = some (.hardResync frames) →
    (∃ e publicationNs processedNs, op = .measurementTimed e publicationNs processedNs ∧
        (c.estimator.observeInner e).2 = true) ∧
      (c.everLocked = true → FarOff c.policy.hardThresholdFrames c.policy.confirmations
        (noteFinding since c op))

/-- The counter of large errors is read off the findings. -/
structure Counted (policy : CorrectionPolicy) (since : List Finding) (c : FollowerCore) :
    Prop where
  policy_eq : c.policy = policy
  large_lt : c.large < policy.confirmations
  unlocked : c.everLocked = false → c.large = 0
  farOff : FarOff policy.hardThresholdFrames c.large since
  latest : c.large ≠ 0 → ∀ f ∈ since.head?,
    f.direction = c.largeSign ∧ f.discontinuity = c.view.correctionDiscontinuity

variable {policy : CorrectionPolicy} {since : List Finding} {c : FollowerCore}

theorem counted_of_zero (hpolicy : c.policy = policy) (hconfirmations : policy.confirmations ≠ 0)
    (hlarge : c.large = 0) (since : List Finding) : Counted policy since c where
  policy_eq := hpolicy
  large_lt := by
    rw [hlarge]
    exact Nat.pos_of_ne_zero hconfirmations
  unlocked := fun _ => hlarge
  farOff := by
    rw [hlarge]
    exact confirmed_zero since
  latest := fun hne => absurd hlarge hne

theorem Counted.confirmations_ne_zero (h : Counted policy since c) : policy.confirmations ≠ 0 :=
  Nat.ne_of_gt ((Nat.zero_le _).trans_lt h.large_lt)

/-- Counting an error counts its finding. -/
theorem Counted.countLarge (h : Counted policy since c) (error : ℚ) (measurement : Bool)
    {disc : Nat} (hpresent : c.large ≠ 0 → disc = c.view.correctionDiscontinuity) :
    FarOff policy.hardThresholdFrames (c.countLarge error measurement).large
        (⟨measurement, error, disc⟩ :: since) ∧
      ((c.countLarge error measurement).large ≠ 0 →
        (⟨measurement, error, disc⟩ : Finding).direction =
          (c.countLarge error measurement).largeSign) := by
  have hpolicy : c.policy.hardThresholdFrames = policy.hardThresholdFrames := by rw [h.policy_eq]
  unfold FollowerCore.countLarge
  by_cases hlarge : c.policy.hardThresholdFrames < |error|
  · have hkind : Large policy.hardThresholdFrames ⟨measurement, error, disc⟩ := hpolicy ▸ hlarge
    rw [if_pos hlarge]
    refine ⟨?_, fun _ => rfl⟩
    -- The count that the new finding extends.
    have hextended : FarOff policy.hardThresholdFrames
        (weight ⟨measurement, error, disc⟩ +
          (if (⟨measurement, error, disc⟩ : Finding).direction ≠ c.largeSign then 0 else c.large))
        (⟨measurement, error, disc⟩ :: since) := by
      split_ifs with hsign
      · exact Confirmed.start hkind since
      · by_cases hzero : c.large = 0
        · rw [hzero]
          exact Confirmed.start hkind since
        · apply h.farOff.cons hkind
          intro f hf
          obtain ⟨hdirection, hdisc⟩ := h.latest hzero f hf
          exact ⟨(not_not.mp hsign).trans hdirection.symm, (hpresent hzero).trans hdisc.symm⟩
    apply hextended.mono
    cases measurement with
    | true =>
        change min _ 255 ≤ 1 + _
        rw [Nat.add_comm 1]
        exact min_le_left _ _
    | false =>
        change _ ≤ 0 + _
        rw [Nat.zero_add]
        exact le_rfl
  · rw [if_neg hlarge]
    exact ⟨confirmed_zero _, fun hne => absurd rfl hne⟩

/-- Without a measurement the count does not grow. -/
theorem countLarge_le (c : FollowerCore) (error : ℚ) :
    (c.countLarge error false).large ≤ c.large := by
  unfold countLarge
  by_cases hlarge : c.policy.hardThresholdFrames < |error|
  · rw [if_pos hlarge]
    change (if (if 0 < error then (1 : Int) else -1) ≠ c.largeSign then 0 else c.large) ≤ _
    by_cases hsign : (if 0 < error then (1 : Int) else -1) ≠ c.largeSign
    · rw [if_pos hsign]
      exact Nat.zero_le _
    · rw [if_neg hsign]
  · rw [if_neg hlarge]
    exact Nat.zero_le _

/-- What `correct` leaves behind, and what a jump of it rests on. -/
structure CorrectCounted (policy : CorrectionPolicy) (since : List Finding)
    (measurement : Bool) (error : ℚ) (result : FollowerCore × Option Correction) : Prop where
  counted : Counted policy since result.1
  reported : Correction.error result.2 = some error
  continues : Correction.restarts result.2 = false
  confirmed : ∀ frames, result.2 = some (.hardResync frames) →
    measurement = true ∧ FarOff policy.hardThresholdFrames policy.confirmations since

theorem Counted.correct (h : Counted policy since c) (before : Position) (now : Nat)
    {measurement : Bool} (hlocked : measurement = true → c.everLocked = true)
    (hpresent : c.large ≠ 0 → c.tickDiscontinuity now = c.view.correctionDiscontinuity) :
    CorrectCounted policy
      (⟨measurement, c.trajectoryError before now, c.tickDiscontinuity now⟩ :: since)
      measurement (c.trajectoryError before now) (c.correct before now measurement) := by
  obtain ⟨hfar, hdirection⟩ := h.countLarge (c.trajectoryError before now) measurement hpresent
  have hgrows : measurement = false → (c.countLarge (c.trajectoryError before now)
      measurement).large ≤ c.large := by
    rintro rfl
    exact countLarge_le c _
  rw [correct_eq]
  have hsame := countLarge_eq c (c.trajectoryError before now) measurement
  have hpolicy : (c.countLarge (c.trajectoryError before now) measurement).policy = policy := by
    rw [hsame]
    exact h.policy_eq
  have hever : (c.countLarge (c.trajectoryError before now) measurement).everLocked =
      c.everLocked := by
    rw [hsame]
  split_ifs with hjump
  · -- A jump starts the count anew.
    rw [hpolicy] at hjump
    refine ⟨?_, ?_, rfl, fun _ _ => ⟨?_, ?_⟩⟩
    · apply counted_of_zero
      · exact hpolicy
      · exact h.confirmations_ne_zero
      · rfl
    · simp [Correction.error]
    · by_contra hsnapshot
      have hle := hgrows (Bool.not_eq_true _ ▸ hsnapshot)
      have hlt := h.large_lt
      omega
    · exact hfar.mono hjump.2
  · rw [hpolicy] at hjump
    refine ⟨⟨hpolicy, ?_, ?_, hfar, ?_⟩, ?_, rfl, by simp⟩
    · change (c.countLarge (c.trajectoryError before now) measurement).large < _
      by_cases hlarge : policy.hardThresholdFrames < |c.trajectoryError before now|
      · exact not_le.mp (fun hle => hjump ⟨hlarge, hle⟩)
      · have hzero : (c.countLarge (c.trajectoryError before now) measurement).large = 0 := by
          unfold FollowerCore.countLarge
          rw [h.policy_eq, if_neg hlarge]
        rw [hzero]
        exact Nat.pos_of_ne_zero h.confirmations_ne_zero
    · intro hunlocked
      have hfree : c.everLocked = false := hever ▸ hunlocked
      have hsnapshot : measurement = false := by
        by_contra hne
        have hlock := hlocked (Bool.not_eq_false _ ▸ hne)
        rw [hfree] at hlock
        cases hlock
      have hle := hgrows hsnapshot
      rw [h.unlocked hfree] at hle
      exact Nat.le_zero.mp hle
    · intro hne f hf
      obtain rfl := Option.some.inj hf
      exact ⟨hdirection hne, rfl⟩
    · simp [Correction.error]

/-- The same follower as far as counting goes. -/
theorem Counted.congr {d : FollowerCore} (h : Counted policy since c)
    (hpolicy : d.policy = c.policy) (hlarge : d.large = c.large)
    (hsign : d.largeSign = c.largeSign) (hlocked : d.everLocked = c.everLocked)
    (hdisc : d.view.correctionDiscontinuity = c.view.correctionDiscontinuity) :
    Counted policy since d where
  policy_eq := hpolicy.trans h.policy_eq
  large_lt := hlarge ▸ h.large_lt
  unlocked := fun hfree => hlarge.trans (h.unlocked (hlocked ▸ hfree))
  farOff := hlarge ▸ h.farOff
  latest := by
    rw [hlarge, hsign, hdisc]
    exact h.latest

section Note

variable {op : Op}

theorem noteFinding_of_none (since : List Finding) (hop : op.reconnects = false)
    (hnone : (c.step op).2 = none) : noteFinding since c op = since := by
  simp [noteFinding, finding, hop, hnone, Correction.restarts, Correction.error]

theorem noteFinding_of_restarts (since : List Finding)
    (hrestarts : Correction.restarts (c.step op).2 = true) : noteFinding since c op = [] := by
  simp [noteFinding, hrestarts]

theorem noteFinding_of_error (since : List Finding) {now : Nat} {error : ℚ}
    (hop : op.reconnects = false) (htime : op.time = some now)
    (hcontinues : Correction.restarts (c.step op).2 = false)
    (hreported : Correction.error (c.step op).2 = some error) :
    noteFinding since c op = ⟨op.measures, error, c.view.discontinuity now⟩ :: since := by
  simp [noteFinding, finding, hop, htime, hcontinues, hreported]

end Note

theorem Counted.state (h : Counted policy since c) (t : Validated) (now : Nat)
    (hpresent : c.KeepsCountPresent (.state t now)) :
    Counted policy (noteFinding since c (.state t now)) (c.step (.state t now)).1 ∧
      ResyncConfirmed since c (.state t now) := by
  have houtcome := c.state_outcome t.timeline now
  generalize hresult : c.state t.timeline now = result at houtcome
  have hstep : c.step (.state t now) = result := hresult
  cases houtcome with
  | foreign =>
      rw [noteFinding_of_none since rfl (congrArg Prod.snd hstep), hstep]
      exact ⟨h, by simp [ResyncConfirmed, hstep]⟩
  | adopted =>
      rw [noteFinding_of_restarts since (by rw [hstep]; rfl), hstep]
      refine ⟨?_, by simp [ResyncConfirmed, hstep, adopt]⟩
      exact counted_of_zero (c := ((c.pin t.timeline.session).adopt t.timeline).1)
        h.policy_eq h.confirmations_ne_zero rfl []
  | refused =>
      rw [noteFinding_of_none since rfl (congrArg Prod.snd hstep), hstep]
      exact ⟨h.congr rfl rfl rfl rfl rfl, by simp [ResyncConfirmed, hstep]⟩
  | jumped =>
      rw [noteFinding_of_restarts since (by rw [hstep]; rfl), hstep]
      refine ⟨?_, by simp [ResyncConfirmed, hstep, discontinue]⟩
      apply counted_of_zero
      · exact h.policy_eq
      · exact h.confirmations_ne_zero
      · rfl
  | refined hexpected hsession hrevision hkeeps hsame =>
      have hfollowed : Counted policy since ((c.pin t.timeline.session).follow t.timeline now) :=
        h.congr rfl rfl rfl rfl rfl
      have hcorrect := hfollowed.correct (c.view.evaluate now).position now
        (by simp : false = true → _)
        (fun hne => hsame.trans (hpresent hsession hrevision hkeeps hne))
      rw [← hstep] at hcorrect
      rw [noteFinding_of_error since rfl rfl hcorrect.continues hcorrect.reported]
      have hdisc : ((c.pin t.timeline.session).follow t.timeline now).tickDiscontinuity now =
          c.view.discontinuity now := hsame
      refine ⟨hdisc ▸ hcorrect.counted, ?_⟩
      intro frames hjump
      exact absurd (hcorrect.confirmed frames hjump).1 (by simp)

/-- During acquisition nothing is counted. -/
theorem measurementTimed_of_unlocked (hlocked : c.everLocked = false) (e : Exchange)
    (publicationNs : Option Nat) (processedNs : Nat) :
    (c.measurementTimed e publicationNs processedNs).1.large = c.large ∧
      (c.measurementTimed e publicationNs processedNs).1.policy = c.policy ∧
        ((c.measurementTimed e publicationNs processedNs).2 ≠ none →
          (c.estimator.observeInner e).2 = true) := by
  have hobserved : (c.observed e publicationNs processedNs).everLocked = false := hlocked
  rw [measurementTimed_eq, applyMapping_eq, hobserved]
  split_ifs with hexpected hrejected hfree
  · exact ⟨rfl, rfl, fun hne => absurd rfl hne⟩
  · exact ⟨rfl, rfl, fun hne => absurd rfl hne⟩
  · exact ⟨rfl, rfl, fun _ => by simpa using hrejected⟩
  · exact absurd rfl hfree
  · exact absurd rfl hfree

theorem Counted.measurementTimed (h : Counted policy since c) (e : Exchange)
    (publicationNs : Option Nat) (processedNs : Nat)
    (hpresent : c.KeepsCountPresent (.measurementTimed e publicationNs processedNs)) :
    Counted policy (noteFinding since c (.measurementTimed e publicationNs processedNs))
        (c.step (.measurementTimed e publicationNs processedNs)).1 ∧
      ResyncConfirmed since c (.measurementTimed e publicationNs processedNs) := by
  by_cases hlocked : c.everLocked = false
  · obtain ⟨hlarge, hpolicy, haccepted⟩ :=
      measurementTimed_of_unlocked hlocked e publicationNs processedNs
    refine ⟨?_, fun frames hjump => ⟨⟨e, publicationNs, processedNs, rfl, ?_⟩, fun hever => ?_⟩⟩
    · apply counted_of_zero
      · exact hpolicy.trans h.policy_eq
      · exact h.confirmations_ne_zero
      · exact hlarge.trans (h.unlocked hlocked)
    · apply haccepted
      change (c.step (.measurementTimed e publicationNs processedNs)).2 ≠ none
      rw [hjump]
      exact Option.some_ne_none _
    · rw [hlocked] at hever
      cases hever
  have houtcome := c.measurementTimed_outcome e publicationNs processedNs
  generalize hresult : c.measurementTimed e publicationNs processedNs = result at houtcome
  have hstep : c.step (.measurementTimed e publicationNs processedNs) = result := hresult
  cases houtcome with
  | unpinned =>
      rw [noteFinding_of_none since rfl (congrArg Prod.snd hstep), hstep]
      exact ⟨h, by simp [ResyncConfirmed, hstep]⟩
  | rejected =>
      rw [noteFinding_of_none since rfl (congrArg Prod.snd hstep), hstep]
      exact ⟨h.congr rfl rfl rfl rfl rfl, by simp [ResyncConfirmed, hstep]⟩
  | acquired hexpected haccepted hfree => exact absurd hfree hlocked
  | jumped hexpected haccepted disc =>
      rw [noteFinding_of_restarts since (by rw [hstep]; rfl), hstep]
      refine ⟨?_, by simp [ResyncConfirmed, hstep, discontinue]⟩
      apply counted_of_zero
      · exact h.policy_eq
      · exact h.confirmations_ne_zero
      · rfl
  | refined hexpected haccepted hsame =>
      have hever : c.everLocked = true := Bool.not_eq_false _ ▸ hlocked
      have hstays : (c.observed e publicationNs processedNs).mapped.everLocked = c.everLocked := by
        rw [hever]
        change (c.everLocked || _) = true
        rw [hever, Bool.true_or]
      have hmapped : Counted policy since (c.observed e publicationNs processedNs).mapped :=
        h.congr rfl rfl rfl hstays rfl
      have hcorrect := hmapped.correct (c.view.evaluate (measurementTime e processedNs)).position
        (measurementTime e processedNs) (fun _ : true = true => hstays.trans hever)
        (fun hne => hsame.trans (hpresent hexpected haccepted hne))
      rw [← hstep] at hcorrect
      have hdisc : (c.observed e publicationNs processedNs).mapped.tickDiscontinuity
          (measurementTime e processedNs) = c.view.discontinuity (measurementTime e processedNs) :=
        hsame
      rw [hdisc] at hcorrect
      have hnote := noteFinding_of_error since rfl rfl hcorrect.continues hcorrect.reported
      refine ⟨hnote ▸ hcorrect.counted, ?_⟩
      intro frames hjump
      refine ⟨⟨e, publicationNs, processedNs, rfl, haccepted⟩, fun _ => ?_⟩
      rw [hnote, h.policy_eq]
      exact (hcorrect.confirmed frames hjump).2

theorem Counted.tick (h : Counted policy since c) (now staleAfter : Nat) :
    Counted policy (noteFinding since c (.tick now staleAfter)) (c.step (.tick now staleAfter)).1 ∧
      ResyncConfirmed since c (.tick now staleAfter) := by
  have houtcome := c.tick_outcome now staleAfter
  generalize hresult : c.tick now staleAfter = result at houtcome
  have hstep : c.step (.tick now staleAfter) = result := hresult
  cases houtcome with
  | unknown =>
      rw [noteFinding_of_none since rfl (congrArg Prod.snd hstep), hstep]
      exact ⟨h, by simp [ResyncConfirmed, hstep]⟩
  | reported =>
      rw [noteFinding_of_restarts since (by rw [hstep]; rfl), hstep]
      refine ⟨?_, by simp [ResyncConfirmed, hstep]⟩
      apply counted_of_zero
      · exact h.policy_eq
      · exact h.confirmations_ne_zero
      · rfl
  | silent =>
      rw [noteFinding_of_none since rfl (congrArg Prod.snd hstep), hstep]
      exact ⟨h.congr rfl rfl rfl rfl rfl, by simp [ResyncConfirmed, hstep]⟩

/-- One operation keeps the count, and a jump it makes is confirmed. -/
theorem Counted.step (h : Counted policy since c) {op : Op} (hpresent : c.KeepsCountPresent op) :
    Counted policy (noteFinding since c op) (c.step op).1 ∧ ResyncConfirmed since c op := by
  cases op with
  | connected =>
      refine ⟨?_, by simp [ResyncConfirmed, FollowerCore.step]⟩
      apply counted_of_zero
      · exact h.policy_eq
      · exact h.confirmations_ne_zero
      · rfl
  | disconnected =>
      rw [noteFinding_of_none since rfl rfl]
      exact ⟨h.congr rfl rfl rfl rfl rfl, by simp [ResyncConfirmed, FollowerCore.step]⟩
  | state t now => exact h.state t now hpresent
  | measurementTimed e publicationNs processedNs =>
      exact h.measurementTimed e publicationNs processedNs hpresent
  | tick now staleAfter => exact h.tick now staleAfter

/-- An accepted measurement whose mapping has converged. -/
def converges (c : FollowerCore) : Op → Bool
  | .measurementTimed e publicationNs processedNs =>
      c.expectedSession.isSome && (c.estimator.observeInner e).2 &&
        (c.estimator.observeTimed e publicationNs processedNs).1.mapping.converged
  | _ => false

/-- Whether a converged mapping has been accepted in the current session. -/
def noteConverged (converged : Bool) (c : FollowerCore) (op : Op) : Bool :=
  (converged || c.converges op) && decide ((c.step op).2 ≠ some .newSession)

theorem correct_everLocked (c : FollowerCore) (before : Position) (now : Nat)
    (measurement : Bool) : (c.correct before now measurement).1.everLocked = c.everLocked := by
  have houtcome := c.correct_outcome before now measurement
  generalize c.correct before now measurement = result at houtcome ⊢
  cases houtcome with
  | resynced => rfl
  | slewed => rfl

theorem everLocked_step (c : FollowerCore) (op : Op) :
    (c.step op).1.everLocked = noteConverged c.everLocked c op := by
  have hkept : ∀ d : FollowerCore × Option Correction, c.step op = d →
      d.1.everLocked = (c.everLocked || c.converges op) → d.2 ≠ some .newSession →
        d.1.everLocked = noteConverged c.everLocked c op := by
    intro d hd hlocked hsession
    rw [noteConverged, hd, decide_eq_true hsession, Bool.and_true, hlocked]
  cases op with
  | connected => exact hkept (c.connected, none) rfl (by simp [converges, connected]) (by simp)
  | disconnected =>
      exact hkept (c.disconnected, none) rfl (by simp [converges, disconnected]) (by simp)
  | state t now =>
      have houtcome := c.state_outcome t.timeline now
      generalize hresult : c.state t.timeline now = result at houtcome
      have hstep : c.step (.state t now) = result := hresult
      rw [hstep]
      cases houtcome with
      | adopted => simp [noteConverged, hstep, adopt]
      | foreign => exact hkept _ hstep (by simp [converges]) (by simp)
      | refused => exact hkept _ hstep (by simp [converges, pin]) (by simp)
      | jumped =>
          exact hkept _ hstep (by simp [converges, discontinue, follow, pin])
            (by simp [discontinue])
      | refined =>
          refine hkept _ hstep ?_ (correct_ne_newSession _ _ _ _)
          rw [correct_everLocked]
          exact (Bool.or_false c.everLocked).symm
  | measurementTimed e publicationNs processedNs =>
      have houtcome := c.measurementTimed_outcome e publicationNs processedNs
      generalize hresult : c.measurementTimed e publicationNs processedNs = result at houtcome
      have hstep : c.step (.measurementTimed e publicationNs processedNs) = result := hresult
      rw [hstep]
      have hmapped : c.expectedSession ≠ none → (c.estimator.observeInner e).2 = true →
          (c.observed e publicationNs processedNs).mapped.everLocked =
            (c.everLocked || c.converges (.measurementTimed e publicationNs processedNs)) := by
        intro hexpected haccepted
        rw [converges, Option.isSome_iff_ne_none.mpr hexpected, haccepted]
        rfl
      cases houtcome with
      | unpinned hexpected => exact hkept _ hstep (by simp [converges, hexpected]) (by simp)
      | rejected hexpected hrejected =>
          exact hkept _ hstep (by simp [converges, hrejected, observed]) (by simp)
      | acquired hexpected haccepted =>
          exact hkept _ hstep (hmapped hexpected haccepted) (by simp)
      | jumped hexpected haccepted =>
          exact hkept _ hstep (hmapped hexpected haccepted) (by simp [discontinue])
      | refined hexpected haccepted =>
          refine hkept _ hstep ?_ (correct_ne_newSession _ _ _ _)
          rw [correct_everLocked]
          exact hmapped hexpected haccepted
  | tick now staleAfter =>
      have houtcome := c.tick_outcome now staleAfter
      generalize hresult : c.tick now staleAfter = result at houtcome
      have hstep : c.step (.tick now staleAfter) = result := hresult
      rw [hstep]
      cases houtcome with
      | unknown => exact hkept _ hstep (by simp [converges]) (by simp)
      | reported => exact hkept _ hstep (by simp [converges, ticked]) (by simp)
      | silent => exact hkept _ hstep (by simp [converges, ticked]) (by simp)

/-- A follower is locked when a converged mapping has been accepted in its session. -/
theorem everLocked_run (position : Position) (format : FrameFormat) (policy : CorrectionPolicy)
    (ops : List Op) :
    (Machine.run step (new (fallback position format) policy) ops).everLocked =
      Machine.record step noteConverged false (new (fallback position format) policy) ops := by
  have hguard : Machine.Along step (fun _ _ => True) (new (fallback position format) policy) ops :=
    (Machine.along_iff_initial step _ _ _).mpr fun _ _ _ => trivial
  exact Machine.recorded_invariant (P := fun converged c => c.everLocked = converged)
    (fun converged c op hlocked _ => by rw [everLocked_step, hlocked]) rfl hguard

/-- In every run of a follower that asks for at least one confirmation and that takes
over no snapshot or measurement while it counts errors of a trajectory that readers
no longer see: a hard resynchronization comes from an accepted measurement, and after
the first converged mapping it is confirmed by the findings since the last
reconnect, new session or discontinuity. -/
theorem resync_confirmed (position : Position) (format : FrameFormat) {policy : CorrectionPolicy}
    (hconfirmations : policy.confirmations ≠ 0) {ops : List Op}
    (hpresent : Machine.Along step KeepsCountPresent (new (fallback position format) policy) ops) :
    ∀ before op, before ++ [op] <+: ops →
      ResyncConfirmed (findings (new (fallback position format) policy) before)
        (Machine.run step (new (fallback position format) policy) before) op := by
  intro before op hinit
  have hbefore : before <+: ops := (List.prefix_append before [op]).trans hinit
  have hcounted : Counted policy (findings (new (fallback position format) policy) before)
      (Machine.run step (new (fallback position format) policy) before) :=
    Machine.recorded_invariant (P := Counted policy)
      (fun _ _ _ hcounted hguard => (hcounted.step hguard).1)
      (counted_of_zero (c := new (fallback position format) policy) rfl hconfirmations rfl [])
      (hpresent.of_initial hbefore)
  exact (hcounted.step ((Machine.along_iff_initial step _ _ _).mp hpresent before op hinit)).2

/-- A fine threshold with two confirmations. -/
def finePolicy : CorrectionPolicy :=
  { CorrectionPolicy.default with
    hardThresholdFrames := 1 / 10000
    confirmations := 2 }

/-- The sample leader with its jump 700 ms after its anchor. -/
def jumpingTimeline : Timeline :=
  { sampleTimeline with
    scheduled := [⟨1, ⟨1700000000, Position.fromFixed (100 * q32), Rate.normal⟩⟩] }

/-- An exchange without delay at a local time, with the leader ahead by `offset`. -/
def instantExchange (time offset : Nat) : Op :=
  .measurementTimed ⟨time, time + offset, time + offset, time⟩ none time

/-- Convergence on that leader: thirteen exchanges, one every 50 ms. -/
def convergence : List Op :=
  [.connected, .state ⟨jumpingTimeline, by decide⟩ 900000000] ++
    (List.range 13).map fun i => instantExchange (1000000000 + 50000000 * i) 0

def finelyConverged : FollowerCore :=
  Machine.run step (new (fallback Position.zero FrameFormat.default) finePolicy) convergence

/-- Two measurements before the jump, each finding the output further behind. -/
theorem resync_confirmed_of_two_measurements :
    (((finelyConverged.step (instantExchange 1650000000 100000)).1.step
      (instantExchange 1690000000 200000)).2 = some (.hardResync (81681 / 67108864))) ∧
      ResyncConfirmed
        (findings (new (fallback Position.zero FrameFormat.default) finePolicy)
          (convergence ++ [instantExchange 1650000000 100000]))
        (finelyConverged.step (instantExchange 1650000000 100000)).1
        (instantExchange 1690000000 200000) := by
  constructor
  · decide +kernel
  have hrun : Machine.run step (new (fallback Position.zero FrameFormat.default) finePolicy)
      (convergence ++ [instantExchange 1650000000 100000]) =
        (finelyConverged.step (instantExchange 1650000000 100000)).1 :=
    Machine.run_append step _ _ _
  have hpresent : Machine.Along step KeepsCountPresent
      (new (fallback Position.zero FrameFormat.default) finePolicy)
      (convergence ++ [instantExchange 1650000000 100000] ++
        [instantExchange 1690000000 200000]) := by
    decide +kernel
  have hconfirmations : finePolicy.confirmations ≠ 0 := by decide
  rw [← hrun]
  exact resync_confirmed Position.zero FrameFormat.default hconfirmations hpresent _ _
    List.prefix_rfl

/-- One measurement before the jump and one after it, which no operation reports. -/
theorem resync_across_silent_jump : ¬ ∀ (position : Position) (format : FrameFormat)
    (policy : CorrectionPolicy), policy.confirmations ≠ 0 → ∀ ops before op,
      before ++ [op] <+: ops →
        ResyncConfirmed (findings (new (fallback position format) policy) before)
          (Machine.run step (new (fallback position format) policy) before) op := by
  intro hclaim
  have hconfirmed := hclaim Position.zero FrameFormat.default finePolicy (by decide)
    (convergence ++ [instantExchange 1650000000 100000, instantExchange 1750000000 200000])
    (convergence ++ [instantExchange 1650000000 100000]) (instantExchange 1750000000 200000)
    (by rw [List.append_assoc]; exact List.prefix_rfl)
    (1840737 / 2147483648) (by decide +kernel)
  have hfar := hconfirmed.2 (by decide +kernel)
  have hfindings : noteFinding
      (findings (new (fallback Position.zero FrameFormat.default) finePolicy)
        (convergence ++ [instantExchange 1650000000 100000]))
      (Machine.run step (new (fallback Position.zero FrameFormat.default) finePolicy)
        (convergence ++ [instantExchange 1650000000 100000])) (instantExchange 1750000000 200000) =
      ⟨true, -(1840737 / 2147483648), 1⟩ :: ⟨true, -(57519 / 134217728), 0⟩ ::
        (List.replicate 12 ⟨true, 0, 0⟩ ++ [⟨true, -30, 0⟩]) := by
    decide +kernel
  rw [hfindings] at hfar
  have hagrees : (⟨true, -(1840737 / 2147483648), 1⟩ : Finding).Agrees
      ⟨true, -(57519 / 134217728), 0⟩ := hfar.agrees (by decide +kernel)
  exact absurd hagrees.2 (by decide)

end FollowerCore

end Tidkod
