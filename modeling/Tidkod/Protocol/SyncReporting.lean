import Mathlib.Tactic
import Tidkod.Protocol.ClockUncertainty
import Tidkod.Protocol.Confirmation
import Tidkod.Protocol.FollowerSessions

/-!
When a follower reports that it is synchronized. An observer notes the loss of the
connection, the session of the last accepted reply and the latest tick. The report is
sound as long as no reply is accepted while the connection is lost, and none that the
latest tick would have called stale: an accepted reply sets the state from the mapping
alone, and the session stays pinned when the connection is lost.
-/

namespace Tidkod

open Rounding

namespace ClockEstimator

/-- A converged mapping has a receipt time. -/
structure Dated (c : ClockEstimator) : Prop where
  past : c.Past
  nonneg : ∀ last ∈ c.lastObserved, 0 ≤ last
  dated : c.mapping.converged = true → c.mapping.lastSampleNs ≠ 0

theorem dated_default : Dated default where
  past := retains_default _
  nonneg := fun _ hlast => absurd hlast (by simp [default])
  dated := fun h => absurd h (by decide)

variable {c : ClockEstimator} {e : Exchange}

/-- The first observation leaves one sample, which does not converge. -/
theorem Past.not_converged_of_first (h : c.Past) (hfirst : c.lastObserved = none)
    (haccepted : (c.observeInner e).2 = true) :
    (c.observeInner e).1.mapping.converged = false := by
  have hsamples : c.samples = [] := List.eq_nil_iff_forall_not_mem.mpr fun s hs => by
    obtain ⟨last, hlast, -⟩ := h.1 s hs
    exact absurd (hfirst ▸ hlast) (by simp)
  have hrecovery : c.recovery = [] := List.eq_nil_iff_forall_not_mem.mpr fun s hs => by
    obtain ⟨last, hlast, -⟩ := h.2 s hs
    exact absurd (hfirst ▸ hlast) (by simp)
  obtain ⟨-, -, samples, count, hcases, hnext⟩ := observeInner_of_accepted haccepted
  have hlength : samples.length ≤ 1 := by
    rcases hcases with rfl | rfl
    · refine (keepLast_suffix 16 _).length_le.trans ?_
      simp [arrived, hrecovery]
    · simp [arrived, hsamples, expire]
  have hkept : (keepLast 128 samples).length ≤ 1 := (keepLast_suffix 128 _).length_le.trans hlength
  have hfew : ¬ 12 ≤ (keepLast 128 samples).length := by omega
  rw [hnext, refit_mapping, refit_samples]
  simp only [fit, hfew, decide_false, Bool.false_and]

theorem Dated.observeInner (h : c.Dated) (e : Exchange) : (c.observeInner e).1.Dated where
  past := h.past.observeInner e
  nonneg := by
    have houtcome := observeInner_outcome c e
    generalize c.observeInner e = result at houtcome ⊢
    cases houtcome with
    | ignored => exact h.nonneg
    | quarantined => exact fun last hlast => Option.mem_some_iff.mp hlast ▸ e.midpoint_nonneg
    | promoted => exact fun last hlast => Option.mem_some_iff.mp hlast ▸ e.midpoint_nonneg
    | accepted => exact fun last hlast => Option.mem_some_iff.mp hlast ▸ e.midpoint_nonneg
  dated := by
    intro hconverged
    by_cases haccepted : (c.observeInner e).2 = true
    · cases hlast : c.lastObserved with
      | none =>
          rw [h.past.not_converged_of_first hlast haccepted] at hconverged
          exact absurd hconverged (by decide)
      | some last => exact lastSampleNs_of_accepted hlast (h.nonneg last hlast) haccepted
    · rw [observeInner_mapping_of_rejected (by simpa using haccepted)] at hconverged ⊢
      exact h.dated hconverged

theorem Dated.feed (h : c.Dated) (a : Arrival) : (c.feed a).1.Dated where
  past := (h.observeInner a.exchange).past
  nonneg := (h.observeInner a.exchange).nonneg
  dated := (h.observeInner a.exchange).dated

end ClockEstimator

namespace FollowerCore

/-- The reply is accepted: the connection is pinned and the estimator takes it. -/
def Measures (c : FollowerCore) (e : Exchange) : Prop :=
  c.expectedSession ≠ none ∧ (c.estimator.observeInner e).2 = true

instance (c : FollowerCore) (e : Exchange) : Decidable (c.Measures e) :=
  inferInstanceAs (Decidable (_ ∧ _))

end FollowerCore

/-- What an observer of a follower knows: whether the connection has been reported lost,
the session that the last accepted reply was pinned to, and the latest tick with its
bound on the age. -/
structure Watch where
  lost : Bool
  measured : Option Bytes16
  latestTick : Option (Nat × Nat)

def Watch.start : Watch := ⟨false, none, none⟩

def Watch.note (w : Watch) (c : FollowerCore) : Op → Watch
  | .connected => { w with lost := false }
  | .disconnected => { w with lost := true }
  | .state _ _ => w
  | .measurementTimed e _ _ => if c.Measures e then { w with measured := c.expectedSession } else w
  | .tick now staleAfter => { w with latestTick := some (now, staleAfter) }

/-- A follower and its observer. -/
def watchedStep (s : Watch × FollowerCore) (op : Op) :
    (Watch × FollowerCore) × Option Correction :=
  ((s.1.note s.2 op, (s.2.step op).1), (s.2.step op).2)

/-- The clock is live: converged in the current session, no older at the latest tick than
its bound, and the connection has not been lost. -/
structure Live (w : Watch) (c : FollowerCore) : Prop where
  converged : c.view.mapping.converged = true
  measured : w.measured = some c.view.timeline.session
  fresh : ∀ tick ∈ w.latestTick, tick.1 - c.view.mapping.lastSampleNs ≤ tick.2
  connected : w.lost = false

/-- What the synchronization state says is true. -/
structure Truthful (s : Watch × FollowerCore) : Prop where
  synchronized : s.2.view.sync = .synchronized → Live s.1 s.2
  lost : s.1.lost = true → ∀ now,
    (s.2.view.evaluate now).status.synchronization = .holdover ∨
      (s.2.view.evaluate now).status.synchronization = .uninitialized

/-- An accepted reply does not come after the loss of the connection, and where it makes
the follower synchronized it is within the bound of the latest tick. A reply received at
time zero leaves the follower uninitialized. -/
def Timely (s : Watch × FollowerCore) : Op → Prop
  | .measurementTimed e _ _ => s.2.Measures e →
      (e.t4 ≠ 0 → s.1.lost = false) ∧
        ((s.2.estimator.observeInner e).1.mapping.converged = true →
          ∀ tick ∈ s.1.latestTick, tick.1 - e.t4 ≤ tick.2)
  | _ => True

namespace FollowerCore

variable {c : FollowerCore} {w : Watch}

/-- The status of a lost connection, in terms of the state. -/
theorem status_iff (hinv : c.Inv) :
    (∀ now, (c.view.evaluate now).status.synchronization = .holdover ∨
      (c.view.evaluate now).status.synchronization = .uninitialized) ↔
    c.view.mapping.lastSampleNs = 0 ∨ c.view.sync = .holdover := by
  have hstatus (now : Nat) : (c.view.evaluate now).status.synchronization =
      if c.view.initialized then c.view.sync else .uninitialized := rfl
  by_cases hclock : c.view.mapping.lastSampleNs = 0
  · have hunknown : c.view.initialized = false := by simpa [View.initialized] using hclock
    simp [hstatus, hunknown, hclock]
  · have hknown : c.view.initialized = true := by simpa [View.initialized] using hclock
    simp [hstatus, hknown, hclock, hinv.sync hclock]

theorem lastSampleNs_of_converged (hinv : c.Inv) (hdated : c.estimator.Dated)
    (h : c.view.mapping.converged = true) : c.view.mapping.lastSampleNs ≠ 0 := by
  rw [hinv.mapping] at h ⊢
  exact hdated.dated h

theorem dated_step (h : c.estimator.Dated) (op : Op) : (c.step op).1.estimator.Dated := by
  cases op with
  | connected => exact h
  | disconnected => exact h
  | state t now =>
      rw [step, state_estimator]
      split_ifs
      · exact ClockEstimator.dated_default
      · exact h
  | measurementTimed e publicationNs processedNs =>
      rw [step, measurementTimed_estimator]
      split_ifs
      · exact h
      · exact h.feed _
  | tick now staleAfter =>
      rw [step, (c.tick_frame now staleAfter).2.2.2]
      exact h

/-- A reply that is not accepted leaves what is reported alone. -/
theorem measurementTimed_of_not_measures {e : Exchange} (h : ¬ c.Measures e)
    (publicationNs : Option Nat) (processedNs : Nat) :
    (c.measurementTimed e publicationNs processedNs).1.view.mapping = c.view.mapping ∧
      (c.measurementTimed e publicationNs processedNs).1.view.sync = c.view.sync := by
  have houtcome := measurementTimed_outcome c e publicationNs processedNs
  generalize c.measurementTimed e publicationNs processedNs = result at houtcome ⊢
  cases houtcome with
  | unpinned => exact ⟨rfl, rfl⟩
  | rejected => exact ⟨rfl, rfl⟩
  | acquired hexpected haccepted => exact absurd ⟨hexpected, haccepted⟩ h
  | jumped hexpected haccepted => exact absurd ⟨hexpected, haccepted⟩ h
  | refined hexpected haccepted => exact absurd ⟨hexpected, haccepted⟩ h

/-- An accepted reply sets mapping and state from the estimator alone. -/
theorem measurementTimed_of_measures {e : Exchange} (h : c.Measures e)
    (publicationNs : Option Nat) (processedNs : Nat) :
    (c.measurementTimed e publicationNs processedNs).1.view.mapping =
        (c.estimator.observeInner e).1.mapping ∧
      (c.measurementTimed e publicationNs processedNs).1.view.sync =
        (if (c.estimator.observeInner e).1.mapping.converged then .synchronized
          else .acquiring) ∧
      (c.estimator.observeInner e).1.mapping.lastSampleNs = e.t4 := by
  obtain ⟨-, -, -, count, hfit⟩ := ClockEstimator.observeInner_fit_of_accepted h.2
  have hreceipt : (c.estimator.observeInner e).1.mapping.lastSampleNs = e.t4 := by
    rw [hfit]
    rfl
  have houtcome := measurementTimed_outcome c e publicationNs processedNs
  generalize c.measurementTimed e publicationNs processedNs = result at houtcome ⊢
  cases houtcome with
  | unpinned hexpected => exact absurd hexpected h.1
  | rejected _ hrejected => exact absurd (hrejected.symm.trans h.2) (by decide)
  | acquired => exact ⟨rfl, rfl, hreceipt⟩
  | jumped => exact ⟨rfl, rfl, hreceipt⟩
  | refined =>
      rw [correct_mapping, correct_sync]
      exact ⟨rfl, rfl, hreceipt⟩

/-- A snapshot leaves mapping and state alone or resets both. -/
theorem state_sync (c : FollowerCore) (t : Timeline) (now : Nat) :
    (c.state t now).1.view.sync = .acquiring ∧
        (c.state t now).1.view.mapping.lastSampleNs = 0 ∨
      (c.state t now).1.view.mapping = c.view.mapping ∧
        (c.state t now).1.view.sync = c.view.sync ∧
        (c.state t now).1.view.timeline.session = c.view.timeline.session := by
  have houtcome := state_outcome c t now
  generalize c.state t now = result at houtcome ⊢
  cases houtcome with
  | foreign => exact Or.inr ⟨rfl, rfl, rfl⟩
  | adopted => exact Or.inl ⟨rfl, rfl⟩
  | refused => exact Or.inr ⟨rfl, rfl, rfl⟩
  | jumped _ hsession => exact Or.inr ⟨rfl, rfl, hsession.symm⟩
  | refined _ hsession =>
      rw [correct_mapping, correct_sync, correct_timeline]
      exact Or.inr ⟨rfl, rfl, hsession.symm⟩

theorem tick_sync (c : FollowerCore) (now staleAfter : Nat) :
    (c.tick now staleAfter).1.view.mapping = c.view.mapping ∧
      (c.tick now staleAfter).1.view.sync =
        (if c.view.mapping.lastSampleNs ≠ 0 ∧ staleAfter < now - c.view.mapping.lastSampleNs then
          .holdover else c.view.sync) := by
  have houtcome := tick_outcome c now staleAfter
  generalize c.tick now staleAfter = result at houtcome ⊢
  cases houtcome with
  | unknown hclock => simp [hclock]
  | reported hclock => simp [hclock, ticked]
  | silent hclock => simp [hclock, ticked]

end FollowerCore

namespace Truthful

variable {w : Watch} {c : FollowerCore}

/-- In terms of the state. -/
theorem iff_state (hinv : c.Inv) : Truthful (w, c) ↔
    (c.view.sync = .synchronized → Live w c) ∧
      (w.lost = true → c.view.mapping.lastSampleNs = 0 ∨ c.view.sync = .holdover) :=
  ⟨fun h => ⟨h.synchronized, fun hlost => (FollowerCore.status_iff hinv).mp (h.lost hlost)⟩,
    fun h => ⟨h.1, fun hlost => (FollowerCore.status_iff hinv).mpr (h.2 hlost)⟩⟩

theorem congr {d : FollowerCore} (h : Truthful (w, c)) (hinv : c.Inv) (hinv' : d.Inv)
    (hmapping : d.view.mapping = c.view.mapping) (hsync : d.view.sync = c.view.sync)
    (hsession : d.view.timeline.session = c.view.timeline.session) : Truthful (w, d) := by
  obtain ⟨hlive, hlost⟩ := (iff_state hinv).mp h
  rw [iff_state hinv', hmapping, hsync]
  refine ⟨fun hsynchronized => ?_, hlost⟩
  obtain ⟨hconverged, hmeasured, hfresh, hconnected⟩ := hlive hsynchronized
  constructor
  · rwa [hmapping]
  · rwa [hsession]
  · rwa [hmapping]
  · exact hconnected

theorem connected (h : Truthful (w, c)) (hinv : c.Inv) :
    Truthful ({ w with lost := false }, c.connected) := by
  obtain ⟨hlive, -⟩ := (iff_state hinv).mp h
  refine (iff_state hinv.connected).mpr ⟨fun hsynchronized => ?_, fun hlost => ?_⟩
  · exact ⟨(hlive hsynchronized).converged, (hlive hsynchronized).measured,
      (hlive hsynchronized).fresh, rfl⟩
  · exact absurd hlost (by simp)

theorem disconnected (h : Truthful (w, c)) (hinv : c.Inv) (hdated : c.estimator.Dated) :
    Truthful ({ w with lost := true }, c.disconnected) := by
  obtain ⟨hlive, -⟩ := (iff_state hinv).mp h
  have hsync : c.disconnected.view.sync =
      if c.view.mapping.lastSampleNs ≠ 0 then .holdover else c.view.sync := rfl
  refine (iff_state hinv.disconnected).mpr ⟨fun hsynchronized => ?_, fun _ => ?_⟩
  · rw [hsync] at hsynchronized
    split_ifs at hsynchronized with hclock
    have hconverged := (hlive hsynchronized).converged
    exact absurd (FollowerCore.lastSampleNs_of_converged hinv hdated hconverged) hclock
  · rw [hsync]
    split_ifs with hclock
    · exact Or.inr rfl
    · exact Or.inl (not_not.mp hclock)

theorem state (h : Truthful (w, c)) (hinv : c.Inv) {t : Timeline} (ht : t.Ordered) (now : Nat) :
    Truthful (w, (c.state t now).1) := by
  rcases c.state_sync t now with ⟨hsync, hclock⟩ | ⟨hmapping, hsync, hsession⟩
  · refine (iff_state (hinv.state ht now)).mpr ⟨fun hsynchronized => ?_, fun _ => Or.inl hclock⟩
    rw [hsync] at hsynchronized
    exact absurd hsynchronized (by decide)
  · exact h.congr hinv (hinv.state ht now) hmapping hsync hsession

theorem tick (h : Truthful (w, c)) (hinv : c.Inv) (hdated : c.estimator.Dated)
    (now staleAfter : Nat) :
    Truthful ({ w with latestTick := some (now, staleAfter) }, (c.tick now staleAfter).1) := by
  obtain ⟨hlive, hlost⟩ := (iff_state hinv).mp h
  obtain ⟨hmapping, hsync⟩ := c.tick_sync now staleAfter
  have hsession := (c.tick_frame now staleAfter).1
  refine (iff_state (hinv.step (.tick now staleAfter))).mpr ⟨fun hsynchronized => ?_, fun hw => ?_⟩
  · change (c.tick now staleAfter).1.view.sync = _ at hsynchronized
    rw [hsync] at hsynchronized
    split_ifs at hsynchronized with hstale
    obtain ⟨hconverged, hmeasured, -, hconnected⟩ := hlive hsynchronized
    have hclock := FollowerCore.lastSampleNs_of_converged hinv hdated hconverged
    refine ⟨hmapping ▸ hconverged, hsession ▸ hmeasured, ?_, hconnected⟩
    intro latest hlatest
    obtain rfl := Option.mem_some_iff.mp hlatest
    change now - (c.tick now staleAfter).1.view.mapping.lastSampleNs ≤ staleAfter
    rw [hmapping]
    exact not_lt.mp fun hlt => hstale ⟨hclock, hlt⟩
  · change (c.tick now staleAfter).1.view.mapping.lastSampleNs = 0 ∨
      (c.tick now staleAfter).1.view.sync = _
    rw [hmapping, hsync]
    rcases hlost hw with hclock | hholdover
    · exact Or.inl hclock
    · right
      split_ifs
      · rfl
      · exact hholdover

/-- The observer's account of an accepted reply is true exactly when the reply is timely. -/
theorem measured_iff (hinv : c.Inv) (hdated : c.estimator.Dated) {e : Exchange}
    (hmeasures : c.Measures e) (publicationNs : Option Nat) (processedNs : Nat) :
    Timely (w, c) (.measurementTimed e publicationNs processedNs) ↔
      Truthful ({ w with measured := c.expectedSession },
        (c.measurementTimed e publicationNs processedNs).1) := by
  obtain ⟨hmapping, hsync, hreceipt⟩ :=
    FollowerCore.measurementTimed_of_measures hmeasures publicationNs processedNs
  have hsession := (c.measurementTimed_frame e publicationNs processedNs).1
  have hpinned := hinv.pinned_iff.mpr hmeasures.1
  have hdated' : (c.estimator.observeInner e).1.Dated := hdated.observeInner e
  have hinv' : (c.measurementTimed e publicationNs processedNs).1.Inv :=
    hinv.step (.measurementTimed e publicationNs processedNs)
  rw [iff_state hinv', hmapping, hsync, hreceipt]
  constructor
  · intro htimely
    obtain ⟨hlost, hfresh⟩ := htimely hmeasures
    refine ⟨fun hsynchronized => ?_, fun hw => ?_⟩
    · split_ifs at hsynchronized with hconverged
      have hclock := hdated'.dated hconverged
      rw [hreceipt] at hclock
      refine ⟨by rwa [hmapping], by rwa [hsession], ?_, hlost hclock⟩
      rw [hmapping, hreceipt]
      exact hfresh hconverged
    · left
      by_contra hclock
      exact absurd (hlost hclock) (by simpa using hw)
  · rintro ⟨hlive, hlost⟩ -
    constructor
    · intro hclock
      by_contra hw
      rcases hlost (by simpa using hw) with hzero | hholdover
      · exact hclock hzero
      · split_ifs at hholdover
    · intro hconverged
      have hfresh := (hlive (if_pos hconverged)).fresh
      rwa [hmapping, hreceipt] at hfresh

/-- One step, and it is the accepted replies that decide. -/
theorem step_iff (h : Truthful (w, c)) (hinv : c.Inv) (hdated : c.estimator.Dated) (op : Op) :
    Timely (w, c) op ↔ Truthful (watchedStep (w, c) op).1 := by
  cases op with
  | connected => exact iff_of_true trivial (h.connected hinv)
  | disconnected => exact iff_of_true trivial (h.disconnected hinv hdated)
  | state t now => exact iff_of_true trivial (h.state hinv t.valid.ordered now)
  | tick now staleAfter => exact iff_of_true trivial (h.tick hinv hdated now staleAfter)
  | measurementTimed e publicationNs processedNs =>
      by_cases hmeasures : c.Measures e
      · rw [measured_iff hinv hdated hmeasures, watchedStep, Watch.note, if_pos hmeasures]
        rfl
      · rw [watchedStep, Watch.note, if_neg hmeasures]
        obtain ⟨hmapping, hsync⟩ :=
          FollowerCore.measurementTimed_of_not_measures hmeasures publicationNs processedNs
        have hsession := (c.measurementTimed_frame e publicationNs processedNs).1
        have hinv' := hinv.step (.measurementTimed e publicationNs processedNs)
        exact iff_of_true (fun hm => absurd hm hmeasures)
          (h.congr hinv hinv' hmapping hsync (congrArg Timeline.session hsession))

theorem of_new (position : Position) (format : FrameFormat) (policy : CorrectionPolicy) :
    Truthful (Watch.start, FollowerCore.new (fallback position format) policy) where
  synchronized := fun h => absurd h (by simp [FollowerCore.new, View.default])
  lost := fun h => absurd h (by simp [Watch.start])

end Truthful

/-- Along a run the follower says nothing untrue about its synchronization exactly when
no accepted reply comes after the loss of the connection or is stale at the latest tick. -/
theorem sync_reported_iff (position : Position) (format : FrameFormat) (policy : CorrectionPolicy)
    (ops : List Op) :
    (∀ before, before <+: ops → Truthful (Machine.run watchedStep
      (Watch.start, FollowerCore.new (fallback position format) policy) before)) ↔
    Machine.Along watchedStep Timely
      (Watch.start, FollowerCore.new (fallback position format) policy) ops := by
  refine Machine.visited_iff (I := fun s => s.2.Inv ∧ s.2.estimator.Dated) ?_ ?_ ?_ ?_ ops
  · rintro s op ⟨hinv, hdated⟩ h
    exact Truthful.step_iff h hinv hdated op
  · rintro s op ⟨hinv, hdated⟩
    exact ⟨hinv.step op, FollowerCore.dated_step hdated op⟩
  · exact ⟨FollowerCore.inv_new position format policy, ClockEstimator.dated_default⟩
  · exact Truthful.of_new position format policy

/-- Convergence, the loss of the connection, and one more reply that was under way. -/
def lateReply : List Op :=
  FollowerCore.convergence ++ [.disconnected, FollowerCore.instantExchange 1650000000 0]

theorem sync_reported_after_loss :
    ¬ ∀ (position : Position) (format : FrameFormat) (policy : CorrectionPolicy) (ops : List Op),
      Truthful (Machine.run watchedStep
        (Watch.start, FollowerCore.new (fallback position format) policy) ops) := by
  intro hclaim
  have htruthful := hclaim Position.zero FrameFormat.default CorrectionPolicy.default lateReply
  have hlive := htruthful.synchronized (by decide +kernel)
  exact absurd hlive.connected (by decide +kernel)

end Tidkod
