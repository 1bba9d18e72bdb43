import Mathlib.Tactic
import Tidkod.Protocol.ClockEvidence
import Tidkod.Protocol.FollowerSteps

/-!
Isolation of leader sessions. A connection is pinned to the session of its
first snapshot, revisions of one session only move forward, and the estimator
is a function of the exchanges supplied to it since the session was adopted.
-/

namespace Tidkod

namespace FollowerCore

/-- A snapshot is accepted exactly when it reports an event. -/
def acceptedBy (c : FollowerCore) : Op → Option Timeline
  | .state t now => if (c.state t.timeline now).2.isSome then some t.timeline else none
  | _ => none

/-- The snapshots accepted along a run, in order. -/
def accepted (c : FollowerCore) : List Op → List Timeline
  | [] => []
  | op :: rest => (c.acceptedBy op).toList ++ accepted (c.step op).1 rest

/-- The exchanges that may contribute to the estimator after `op`: a new session
drops them, and an exchange counts if the connection is pinned to the session
of the view. -/
def nextSupplied (c : FollowerCore) (supplied : List Arrival) : Op → List Arrival
  | .state t now => if (c.state t.timeline now).2 = some .newSession then [] else supplied
  | .measurementTimed e publicationNs processedNs =>
      if c.expectedSession = some c.view.timeline.session then
        supplied ++ [⟨e, publicationNs, processedNs⟩]
      else supplied
  | _ => supplied

/-- The exchanges supplied since the latest new session while pinned. -/
def supplied (c : FollowerCore) (earlier : List Arrival) : List Op → List Arrival
  | [] => earlier
  | op :: rest => supplied (c.step op).1 (c.nextSupplied earlier op) rest

/-- What acceptance requires and establishes. -/
theorem state_of_isSome {c : FollowerCore} {t : Timeline} {now : Nat}
    (h : (c.state t now).2.isSome = true) :
    (∀ s ∈ c.expectedSession, s = t.session) ∧
      (c.view.timeline.session = t.session → c.view.timeline.revision < t.revision) ∧
      (c.state t now).1.view.timeline.session = t.session ∧
      (c.state t now).1.view.timeline.revision = t.revision ∧
      (c.state t now).1.expectedSession = some t.session := by
  have houtcome := state_outcome c t now
  generalize c.state t now = result at houtcome h ⊢
  revert h
  cases houtcome with
  | foreign => exact fun h => absurd h (by simp)
  | refused => exact fun h => absurd h (by simp)
  | adopted hexpected hsession =>
      exact fun _ => ⟨hexpected, fun heq => absurd heq hsession, rfl, rfl, rfl⟩
  | jumped hexpected hsession hrevision =>
      exact fun _ => ⟨hexpected, fun _ => hrevision, rfl, rfl, rfl⟩
  | refined hexpected hsession hrevision =>
      intro _
      simp only [correct_timeline, correct_expectedSession]
      exact ⟨hexpected, fun _ => hrevision, rfl, rfl, rfl⟩

/-- A refused snapshot can pin a connection; nothing else moves. -/
theorem state_of_none {c : FollowerCore} {t : Timeline} {now : Nat}
    (h : (c.state t now).2 = none) :
    (c.state t now).1.view = c.view ∧ (c.state t now).1.estimator = c.estimator ∧
      ∀ s ∈ c.expectedSession, (c.state t now).1.expectedSession = some s := by
  have houtcome := state_outcome c t now
  generalize c.state t now = result at houtcome h ⊢
  revert h
  cases houtcome with
  | foreign => exact fun _ => ⟨rfl, rfl, fun s hs => hs⟩
  | refused hexpected => exact fun _ => ⟨rfl, rfl, fun s hs => congrArg some (hexpected s hs).symm⟩
  | adopted => exact fun h => absurd h (by simp [adopt])
  | jumped => exact fun h => absurd h (by simp [discontinue])
  | refined =>
      intro h
      have hsome := correct_isSome ((c.pin t.session).follow t now)
        (c.view.evaluate now).position now false
      rw [h] at hsome
      exact absurd hsome (by simp)

/-- Measurements never touch the timeline or the pinned session. -/
theorem measurementTimed_frame (c : FollowerCore) (e : Exchange) (publicationNs : Option Nat)
    (processedNs : Nat) :
    (c.measurementTimed e publicationNs processedNs).1.view.timeline = c.view.timeline ∧
      (c.measurementTimed e publicationNs processedNs).1.expectedSession = c.expectedSession := by
  have houtcome := measurementTimed_outcome c e publicationNs processedNs
  generalize c.measurementTimed e publicationNs processedNs = result at houtcome ⊢
  cases houtcome with
  | refined =>
      simp only [correct_timeline, correct_expectedSession]
      exact ⟨rfl, rfl⟩
  | _ => exact ⟨rfl, rfl⟩

/-- Ticks may latch, which keeps session and revision. -/
theorem tick_frame (c : FollowerCore) (now staleAfter : Nat) :
    (c.tick now staleAfter).1.view.timeline.session = c.view.timeline.session ∧
      (c.tick now staleAfter).1.view.timeline.revision = c.view.timeline.revision ∧
      (c.tick now staleAfter).1.expectedSession = c.expectedSession ∧
      (c.tick now staleAfter).1.estimator = c.estimator := by
  have houtcome := tick_outcome c now staleAfter
  generalize c.tick now staleAfter = result at houtcome ⊢
  cases houtcome <;> exact ⟨rfl, rfl, rfl, rfl⟩

/-- An accepting step moves the view to the accepted session and revision. -/
theorem step_of_accepted {c : FollowerCore} {op : Op} {t : Timeline}
    (h : c.acceptedBy op = some t) :
    (∀ s ∈ c.expectedSession, s = t.session) ∧
      (c.view.timeline.session = t.session → c.view.timeline.revision < t.revision) ∧
      (c.step op).1.view.timeline.session = t.session ∧
      (c.step op).1.view.timeline.revision = t.revision ∧
      (c.step op).1.expectedSession = some t.session := by
  cases op with
  | state u now =>
      simp only [acceptedBy] at h
      split_ifs at h with hsome
      obtain rfl := Option.some.inj h
      exact state_of_isSome hsome
  | _ => exact absurd h (by simp [acceptedBy])

/-- Every other step keeps session and revision, and unpins only for a new
connection. -/
theorem step_of_not_accepted {c : FollowerCore} {op : Op} (h : c.acceptedBy op = none) :
    (c.step op).1.view.timeline.session = c.view.timeline.session ∧
      (c.step op).1.view.timeline.revision = c.view.timeline.revision ∧
      (op ≠ .connected → ∀ s ∈ c.expectedSession, (c.step op).1.expectedSession = some s) := by
  cases op with
  | connected => exact ⟨rfl, rfl, fun hne => absurd rfl hne⟩
  | disconnected => exact ⟨rfl, rfl, fun _ s hs => hs⟩
  | state u now =>
      have hnone : (c.state u.timeline now).2 = none := by
        simpa [acceptedBy] using h
      obtain ⟨hview, -, hexpected⟩ := state_of_none hnone
      exact ⟨by rw [step, hview], by rw [step, hview], fun _ => hexpected⟩
  | measurementTimed e publicationNs processedNs =>
      obtain ⟨htimeline, hexpected⟩ := c.measurementTimed_frame e publicationNs processedNs
      exact ⟨by rw [step, htimeline], by rw [step, htimeline], fun _ s hs => hexpected.trans hs⟩
  | tick now staleAfter =>
      obtain ⟨hsession, hrevision, hexpected, -⟩ := c.tick_frame now staleAfter
      exact ⟨hsession, hrevision, fun _ s hs => hexpected.trans hs⟩

/-- A pinned connection accepts its session only. -/
theorem accepted_of_pinned {c : FollowerCore} {s : Bytes16} (hpinned : c.expectedSession = some s)
    {ops : List Op} (hops : Op.connected ∉ ops) : ∀ t ∈ c.accepted ops, t.session = s := by
  induction ops generalizing c with
  | nil => simp [accepted]
  | cons op rest ih =>
      have hrest : Op.connected ∉ rest := fun hmem => hops (List.mem_cons_of_mem op hmem)
      have hop : op ≠ .connected := fun heq => hops (heq ▸ List.mem_cons_self)
      intro t ht
      cases haccepted : c.acceptedBy op with
      | none =>
          rw [accepted, haccepted, Option.toList_none, List.nil_append] at ht
          exact ih ((step_of_not_accepted haccepted).2.2 hop s hpinned) hrest t ht
      | some u =>
          obtain ⟨hexpected, -, -, -, hnext⟩ := step_of_accepted haccepted
          have hu : u.session = s := (hexpected s hpinned).symm
          rw [accepted, haccepted, Option.toList_some, List.singleton_append, List.mem_cons] at ht
          rcases ht with rfl | hmem
          · exact hu
          · exact ih (hu ▸ hnext) hrest t hmem

/-- Between two connections all accepted snapshots carry one session. -/
theorem accepted_one_session (c : FollowerCore) {ops : List Op} (hops : Op.connected ∉ ops) :
    ∃ s, ∀ t ∈ c.accepted ops, t.session = s := by
  induction ops generalizing c with
  | nil => exact ⟨Bytes16.zero, by simp [accepted]⟩
  | cons op rest ih =>
      have hrest : Op.connected ∉ rest := fun hmem => hops (List.mem_cons_of_mem op hmem)
      cases haccepted : c.acceptedBy op with
      | none =>
          rw [accepted, haccepted, Option.toList_none, List.nil_append]
          exact ih (c.step op).1 hrest
      | some u =>
          obtain ⟨-, -, -, -, hnext⟩ := step_of_accepted haccepted
          refine ⟨u.session, ?_⟩
          intro t ht
          rw [accepted, haccepted, Option.toList_some, List.singleton_append, List.mem_cons] at ht
          rcases ht with rfl | hmem
          · rfl
          · exact accepted_of_pinned hnext hrest t hmem

/-- While no other session is accepted, revisions increase from the one in the
view on, whatever connections come and go. -/
theorem accepted_revisions {c : FollowerCore} {s : Bytes16} {ops : List Op}
    (hops : ∀ t ∈ c.accepted ops, t.session = s) :
    (c.accepted ops).Pairwise (fun a b => a.revision < b.revision) ∧
      (c.view.timeline.session = s → ∀ t ∈ c.accepted ops,
        c.view.timeline.revision < t.revision) := by
  induction ops generalizing c with
  | nil => simp [accepted]
  | cons op rest ih =>
      cases haccepted : c.acceptedBy op with
      | none =>
          obtain ⟨hsession, hrevision, -⟩ := step_of_not_accepted haccepted
          have hnext := ih (c := (c.step op).1) (fun t ht => hops t (by simp [accepted, ht]))
          rw [hsession, hrevision] at hnext
          rwa [accepted, haccepted, Option.toList_none, List.nil_append]
      | some u =>
          obtain ⟨-, hnewer, hsession, hrevision, -⟩ := step_of_accepted haccepted
          have hu : u.session = s := hops u (by simp [accepted, haccepted])
          have hnext := ih (c := (c.step op).1) (fun t ht => hops t (by simp [accepted, ht]))
          have hlater := hnext.2 (hsession.trans hu)
          rw [hrevision] at hlater
          rw [accepted, haccepted, Option.toList_some, List.singleton_append]
          refine ⟨List.pairwise_cons.mpr ⟨hlater, hnext.1⟩, ?_⟩
          intro hview t ht
          have hfirst : c.view.timeline.revision < u.revision := hnewer (hview.trans hu.symm)
          rcases List.mem_cons.mp ht with rfl | hmem
          · exact hfirst
          · exact hfirst.trans (hlater t hmem)

/-- A snapshot resets the estimator or leaves it alone. -/
theorem state_estimator (c : FollowerCore) (t : Timeline) (now : Nat) :
    (c.state t now).1.estimator =
      if (c.state t now).2 = some .newSession then ClockEstimator.default else c.estimator := by
  have houtcome := state_outcome c t now
  generalize c.state t now = result at houtcome ⊢
  cases houtcome with
  | foreign => rfl
  | adopted => rfl
  | refused => rfl
  | jumped => rfl
  | refined =>
      rw [if_neg (correct_ne_newSession _ _ _ _), correct_estimator]
      rfl

/-- A pinned follower feeds its estimator; another ignores the exchange. -/
theorem measurementTimed_estimator (c : FollowerCore) (e : Exchange) (publicationNs : Option Nat)
    (processedNs : Nat) :
    (c.measurementTimed e publicationNs processedNs).1.estimator =
      if c.expectedSession = none then c.estimator
      else (c.estimator.feed ⟨e, publicationNs, processedNs⟩).1 := by
  have houtcome := measurementTimed_outcome c e publicationNs processedNs
  generalize c.measurementTimed e publicationNs processedNs = result at houtcome ⊢
  cases houtcome with
  | unpinned hexpected => rw [if_pos hexpected]
  | rejected hexpected => rw [if_neg hexpected]; rfl
  | acquired hexpected => rw [if_neg hexpected]; rfl
  | jumped hexpected => rw [if_neg hexpected]; rfl
  | refined hexpected => rw [if_neg hexpected, correct_estimator]; rfl

theorem Inv.pinned_iff {c : FollowerCore} (h : c.Inv) :
    c.expectedSession = some c.view.timeline.session ↔ c.expectedSession ≠ none := by
  constructor
  · intro hsome
    rw [hsome]
    exact Option.some_ne_none _
  · intro hne
    obtain ⟨s, hs⟩ := Option.ne_none_iff_exists'.mp hne
    rw [hs, h.pinned s hs]

/-- One step keeps the estimator a function of the supplied exchanges. -/
theorem estimator_step {c : FollowerCore} (h : c.Inv) {earlier : List Arrival}
    (hestimator : c.estimator = Machine.run ClockEstimator.feed ClockEstimator.default earlier)
    (op : Op) :
    (c.step op).1.estimator =
      Machine.run ClockEstimator.feed ClockEstimator.default (c.nextSupplied earlier op) := by
  cases op with
  | connected => exact hestimator
  | disconnected => exact hestimator
  | state t now =>
      rw [step, state_estimator, nextSupplied]
      split_ifs
      · rfl
      · exact hestimator
  | measurementTimed e publicationNs processedNs =>
      rw [step, measurementTimed_estimator, nextSupplied]
      by_cases hexpected : c.expectedSession = none
      · rw [if_pos hexpected, if_neg (fun hpinned => h.pinned_iff.mp hpinned hexpected)]
        exact hestimator
      · rw [if_neg hexpected, if_pos (h.pinned_iff.mpr hexpected), Machine.run_append, hestimator]
        rfl
  | tick now staleAfter => exact (c.tick_frame now staleAfter).2.2.2.trans hestimator

theorem estimator_run {c : FollowerCore} (h : c.Inv) {earlier : List Arrival}
    (hestimator : c.estimator = Machine.run ClockEstimator.feed ClockEstimator.default earlier)
    (ops : List Op) :
    (Machine.run step c ops).estimator =
      Machine.run ClockEstimator.feed ClockEstimator.default (c.supplied earlier ops) := by
  induction ops generalizing c earlier with
  | nil => exact hestimator
  | cons op rest ih => exact ih (h.step op) (estimator_step h hestimator op)

end FollowerCore

/-- A snapshot operation carries an identity other than the all-zero one of the
configured fallback. -/
def Op.Identified : Op → Prop
  | .state t _ => t.timeline.session ≠ Bytes16.zero
  | _ => True

namespace FollowerCore

/-- Before the first session is adopted nothing is pinned and nothing measured. -/
theorem supplied_of_no_session {c : FollowerCore} (hexpected : c.expectedSession = none)
    (hsession : c.view.timeline.session = Bytes16.zero) {ops : List Op}
    (hidentified : ∀ op ∈ ops, op.Identified)
    (hnone : some Correction.newSession ∉ Machine.outputs step c ops) :
    c.supplied [] ops = [] := by
  induction ops generalizing c with
  | nil => rfl
  | cons op rest ih =>
      have hrest : ∀ op ∈ rest, op.Identified := fun o ho =>
        hidentified o (List.mem_cons_of_mem op ho)
      simp only [Machine.outputs, List.mem_cons, not_or] at hnone
      have hstay : c.nextSupplied [] op = [] ∧ (c.step op).1.expectedSession = none ∧
          (c.step op).1.view.timeline.session = Bytes16.zero := by
        cases op with
        | connected => exact ⟨rfl, rfl, hsession⟩
        | disconnected => exact ⟨rfl, hexpected, hsession⟩
        | state t now =>
            -- The identity is new to the view, so the snapshot would be adopted.
            have hother : c.view.timeline.session ≠ t.timeline.session := by
              rw [hsession]
              exact (hidentified _ List.mem_cons_self : t.timeline.session ≠ Bytes16.zero).symm
            have hadopt : (c.step (.state t now)).2 = some .newSession := by
              rw [step, state_eq, hexpected, Option.any_none, if_neg Bool.false_ne_true,
                if_pos hother]
              rfl
            exact absurd hadopt.symm hnone.1
        | measurementTimed e publicationNs processedNs =>
            obtain ⟨htimeline, hkept⟩ := c.measurementTimed_frame e publicationNs processedNs
            refine ⟨?_, hkept.trans hexpected, by rw [step, htimeline, hsession]⟩
            rw [nextSupplied, hexpected, if_neg (Option.some_ne_none _).symm]
        | tick now staleAfter =>
            obtain ⟨hkept, -, hpinned, -⟩ := c.tick_frame now staleAfter
            exact ⟨rfl, hpinned.trans hexpected, hkept.trans hsession⟩
      rw [supplied, hstay.1]
      exact ih hstay.2.1 hstay.2.2 hrest hnone.2

/-- Along every run from a configuration: one session for each connection,
increasing revisions of one session, the pinned session that of the view, an
estimator built from nothing but the exchanges supplied since the latest new
session, and no effect of a refused snapshot on view or estimator. -/
theorem session_isolation (position : Position) (format : FrameFormat) (policy : CorrectionPolicy)
    (prior ops : List Op) :
    let init := new (fallback position format) policy
    let c := Machine.run step init prior
    (Op.connected ∉ ops → ∃ s, ∀ t ∈ c.accepted ops, t.session = s) ∧
    (∀ s, (∀ t ∈ c.accepted ops, t.session = s) →
      (c.accepted ops).Pairwise (fun a b => a.revision < b.revision)) ∧
    (∀ s ∈ c.expectedSession, s = c.view.timeline.session) ∧
    (c.estimator =
        Machine.run ClockEstimator.feed ClockEstimator.default (init.supplied [] prior) ∧
      c.view.mapping = c.estimator.mapping) ∧
    ((∀ op ∈ prior, op.Identified) → init.supplied [] prior ≠ [] →
      some Correction.newSession ∈ Machine.outputs step init prior) ∧
    ∀ t now, (c.state t now).2 = none →
      (c.state t now).1.view = c.view ∧ (c.state t now).1.estimator = c.estimator := by
  intro init c
  have hinv : c.Inv := Machine.run_invariant (fun _ op hinv => hinv.step op)
    (inv_new position format policy) prior
  refine ⟨c.accepted_one_session, fun s hs => (accepted_revisions hs).1, hinv.pinned,
    ⟨estimator_run (inv_new position format policy) rfl prior, hinv.mapping⟩, ?_, ?_⟩
  · intro hidentified hsupplied
    by_contra hnone
    exact hsupplied (supplied_of_no_session rfl rfl hidentified hnone)
  · intro t now hnone
    obtain ⟨hview, hestimator, -⟩ := state_of_none hnone
    exact ⟨hview, hestimator⟩

/-- One connection, one snapshot, one exchange: the exchange contributes, so a
session had been adopted before it. -/
theorem session_isolation_of_sample :
    some Correction.newSession ∈ Machine.outputs step
      (new (fallback Position.zero FrameFormat.default) CorrectionPolicy.default) sampleOps := by
  refine (session_isolation Position.zero FrameFormat.default CorrectionPolicy.default sampleOps
    []).2.2.2.2.1 ?_ ?_
  · intro op hop
    fin_cases hop
    · trivial
    · exact (by decide : sampleTimeline.session ≠ Bytes16.zero)
    · trivial
  · exact List.ne_nil_of_length_pos (by decide +kernel)

end FollowerCore

end Tidkod
