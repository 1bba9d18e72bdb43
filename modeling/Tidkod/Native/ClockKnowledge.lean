import Mathlib.Tactic
import Tidkod.Native.ClockNetwork
import Tidkod.Protocol.ClockAccuracy

/-!
What the clock protocol buys a follower. In every run its mapping describes the clock of
the leader whose timeline it follows, whatever connections were made in between, and is
within its uncertainty of that clock. A reading published as aligned is then close to
the leader's position at the same instant, and two followers are close to each other.
Exchanges must be short enough for the uncertainty to pay for the motion of the clock
while they last.
-/

namespace Tidkod

open BoundedRate Rounding Proto3

namespace ClockNetwork

/-- Every exchange that is matched lasts short enough for the floor of the uncertainty to
cover the motion of the leader's clock meanwhile. -/
def Covers (s : ClockNetwork) (e : NetworkEvent) : Prop :=
  ∀ x, (s.step e).2 = .exchanged x → x.duration ≤ coveredExchangeNs

/-- What the follower knows is about the clock of the session it follows, and only the
connected leader can pin a session. -/
structure Known (clock : Bytes16 → ℝ → ℝ) (s : ClockNetwork) : Prop where
  genuine : s.Genuine clock
  inv : s.follower.core.Inv
  remote : s.follower.core.view.localClock = false
  pinned : ∀ peer ∈ s.peer, ∀ session ∈ s.follower.core.expectedSession, session = peer
  knows : s.follower.core.Knows (clock s.follower.core.view.timeline.session)

variable {clock : Bytes16 → ℝ → ℝ} {s : ClockNetwork}

theorem known_start (clock : Bytes16 → ℝ → ℝ) (position : Position) (format : FrameFormat)
    (policy : CorrectionPolicy) : (start position format policy).Known clock where
  genuine := genuine_empty rfl rfl
  inv := FollowerCore.inv_new position format policy
  remote := rfl
  pinned := fun peer hpeer => absurd hpeer (by simp [start])
  knows := FollowerCore.knows_of_default rfl rfl _

/-- Losing the transport leaves everything the follower knows as it is. -/
theorem Known.disconnect (h : s.Known clock) (now : Nat) : (s.disconnect now).Known clock where
  genuine := genuine_empty rfl rfl
  inv := h.inv.disconnected
  remote := h.remote
  pinned := fun peer hpeer => absurd hpeer (by simp [ClockNetwork.disconnect])
  knows := h.knows.congr rfl rfl

/-- An event that is no operation of the follower. -/
theorem Known.congr (h : s.Known clock) {t : ClockNetwork} (hgenuine : t.Genuine clock)
    (hpeer : t.peer = s.peer) (hcore : t.follower.core = s.follower.core) : t.Known clock := by
  refine ⟨hgenuine, ?_, ?_, ?_, ?_⟩
  · rw [hcore]
    exact h.inv
  · rw [hcore]
    exact h.remote
  · rw [hcore, hpeer]
    exact h.pinned
  · rw [hcore]
    exact h.knows

/-- The exchange of a reply was made with the leader of the session that is followed. -/
theorem Known.reply (hclock : ∀ session, LeaderClock (clock session)) (h : s.Known clock)
    {i now processed : Nat} (hadmits : s.Admits clock (.reply i now processed))
    (hcovers : s.Covers (.reply i now processed)) :
    (s.reply i now processed).1.Known clock := by
  have hgenuine := h.genuine.step hclock hadmits
  have houtcome := h.genuine.reply_outcome hadmits
  simp only [Covers, step] at hcovers hgenuine
  generalize s.reply i now processed = result at houtcome hgenuine hcovers ⊢
  cases houtcome with
  | absent => exact h
  | ignored => exact h.congr hgenuine rfl rfl
  | exchanged probes e publicationNs session hpeer hhonest =>
      obtain ⟨htimeline, hexpected⟩ :=
        s.follower.core.measurementTimed_frame e publicationNs processed
      have hsame : s.follower.core.expectedSession ≠ none →
          e.Honest (clock s.follower.core.view.timeline.session) := by
        intro hpinned
        obtain ⟨expected, hsome⟩ := Option.ne_none_iff_exists'.mp hpinned
        rw [← h.inv.pinned expected hsome, h.pinned session hpeer expected hsome]
        exact hhonest
      refine ⟨hgenuine, h.inv.measurementTimed e _ _, ?_, ?_, ?_⟩
      · exact (FollowerCore.step_localClock _ (.measurementTimed e publicationNs processed)).trans
          h.remote
      · intro peer hp expected hx
        exact h.pinned peer hp expected (hexpected ▸ hx)
      · rw [htimeline]
        exact h.knows.measurementTimed (hclock _) hsame (hcovers e rfl) _ _

/-- Only a snapshot of the connected leader can be received. -/
theorem Known.snapshot (h : s.Known clock) {bytes : Bytes} {now : Nat}
    (hadmits : s.Admits clock (.snapshot bytes now)) : (s.snapshot bytes now).1.Known clock := by
  unfold ClockNetwork.snapshot
  cases hreceived : Timeline.received bytes with
  | error e => exact h.disconnect now
  | ok t =>
      have hpeer := hadmits.2 t hreceived
      have hordered := (Timeline.received_valid hreceived).ordered
      refine ⟨h.genuine.congr rfl rfl rfl, h.inv.state hordered now, ?_, ?_,
        h.knows.state clock t now⟩
      · exact (FollowerCore.step_localClock _
          (.state ⟨t, Timeline.received_valid hreceived⟩ now)).trans h.remote
      · intro peer hp expected hx
        rcases s.follower.core.state_expectedSession t now with hown | hkept
        · have hexpected : t.session = expected :=
            Option.some.inj (hown.symm.trans (Option.mem_def.mp hx))
          exact hexpected ▸ Option.some.inj (hpeer.symm.trans hp)
        · exact h.pinned peer hp expected (hkept ▸ hx)

theorem Known.step (hclock : ∀ session, LeaderClock (clock session)) (h : s.Known clock)
    {e : NetworkEvent} (hadmits : s.Admits clock e) (hcovers : s.Covers e) :
    (s.step e).1.Known clock := by
  have hgenuine := h.genuine.step hclock hadmits
  cases e with
  | connected session now =>
      exact
        { genuine := hgenuine
          inv := h.inv.connected
          remote := h.remote
          pinned := fun _ _ expected hx => absurd hx (by simp [ClockNetwork.step, connect,
            Client.connected, FollowerCore.connected])
          knows := h.knows.congr rfl rfl }
  | disconnected now => exact h.disconnect now
  | request now published =>
      simp only [ClockNetwork.step, ClockNetwork.request] at hgenuine ⊢
      split at hgenuine
      · exact h.disconnect now
      · exact h.congr hgenuine rfl rfl
  | answer i received sent t2 t3 =>
      simp only [ClockNetwork.step, ClockNetwork.answer] at hgenuine ⊢
      split at hgenuine
      · exact h
      · split at hgenuine
        · exact h.disconnect s.now
        · exact h.congr hgenuine rfl rfl
  | reply i now processed => exact h.reply hclock hadmits hcovers
  | snapshot bytes now => exact h.snapshot hadmits
  | tick now staleAfter =>
      obtain ⟨hsession, -, hexpected, -⟩ := s.follower.core.tick_frame now staleAfter
      refine ⟨hgenuine, h.inv.tick now staleAfter, ?_, ?_, ?_⟩
      · exact (FollowerCore.step_localClock _ (.tick now staleAfter)).trans h.remote
      · intro peer hp expected hx
        exact h.pinned peer hp expected (hexpected ▸ hx)
      · have hknows := h.knows.tick now staleAfter
        rw [← hsession] at hknows
        exact hknows

theorem known_run (hclock : ∀ session, LeaderClock (clock session)) {events : List NetworkEvent}
    {position : Position} {format : FrameFormat} {policy : CorrectionPolicy}
    (hadmits : Machine.Along step (Admits clock) (start position format policy) events)
    (hcovers : Machine.Along step Covers (start position format policy) events) :
    (Machine.run step (start position format policy) events).Known clock :=
  (Machine.along_of_invariant (Q := fun _ _ => True) (P := Known clock)
    (fun _ _ h hguard => ⟨trivial, h.step hclock hguard.1 hguard.2⟩)
    (known_start clock position format policy) (hadmits.and hcovers)).2

/-- Whatever leaders a follower was connected to and in whatever order their messages
arrived, its mapping is within its uncertainty of the clock of the leader whose timeline
it follows. -/
theorem mapping_describes_leader (hclock : ∀ session, LeaderClock (clock session))
    (position : Position) (format : FrameFormat) (policy : CorrectionPolicy)
    (events : List NetworkEvent)
    (hadmits : Machine.Along step (Admits clock) (start position format policy) events)
    (hcovers : Machine.Along step Covers (start position format policy) events)
    (view : View)
    (hview : view = (Machine.run step (start position format policy) events).follower.core.view)
    (hinitialized : view.mapping.lastSampleNs ≠ 0) (x : Nat) (hx : view.mapping.lastSampleNs ≤ x)
    (hmax : clock view.timeline.session x ≤ i64Max) :
    ∃ u : ℚ, view.mapping.uncertaintyAt x = (u : WithTop ℚ) ∧
      |(view.mapping.leaderTime x : ℝ) - clock view.timeline.session x| ≤ (u : ℝ) + 1 := by
  subst hview
  exact (known_run hclock hadmits hcovers).knows.accurate hinitialized x hx hmax

end ClockNetwork

namespace ClockNetwork

variable {clock : Bytes16 → ℝ → ℝ} {s : ClockNetwork}

/-- A reading of a follower that knows its leader's clock. -/
theorem Known.distance (h : s.Known clock) {view : View} (hview : view = s.follower.core.view)
    {leader : Timeline} {x : Nat} (hx : view.mapping.lastSampleNs ≤ x) {truth : ℝ}
    (hinstant : clock view.timeline.session x = truth) (hmax : truth ≤ i64Max)
    (hinitialized : (view.evaluate x).status.synchronization ≠ .uninitialized)
    (hshows : view.Shows leader x ⌊truth⌋₊) :
    ∃ err : ℚ, (view.evaluate x).status.alignmentErrorNs = (err : WithTop ℚ) ∧
      ((view.evaluate x).status.aligned = true → err ≤ 1000000) ∧
      (view.evaluate x).position.distance (leader.at ⌊truth⌋₊).1 ≤
        err / 1000000000 * leader.format.fps +
          2 * |(leader.at ⌊truth⌋₊).2.1.asF64| * leader.format.fps / 1000000000 + 2 / q32 := by
  subst hview hinstant
  have hsampled :=
    (View.initialized_iff _).mp (View.initialized_of_synchronization hinitialized).1
  obtain ⟨u, hu, herror⟩ := h.knows.accurate hsampled x hx hmax
  obtain ⟨err, herr, hdistance⟩ := View.distance_of_error h.remote hinitialized
    hshows hu (show _ ≤ ((u + 1 : ℚ) : ℝ) by push_cast; exact herror)
  have htwo : (1 + 1 : ℚ) = 2 := by norm_num
  rw [htwo] at hdistance
  refine ⟨err, herr, fun haligned => ?_, hdistance⟩
  have hlimit := View.alignmentErrorNs_le_of_aligned haligned
  rwa [herr, WithTop.coe_le_coe] at hlimit

/-- In every run a reading with a clock is within its published alignment error of the
position of the leader at the same instant, up to the playback of two nanoseconds and two
Q32 units; one published as aligned is within a millisecond of nominal frame time. -/
theorem reading_close_to_leader (hclock : ∀ session, LeaderClock (clock session))
    (position : Position) (format : FrameFormat) (policy : CorrectionPolicy)
    (events : List NetworkEvent)
    (hadmits : Machine.Along step (Admits clock) (start position format policy) events)
    (hcovers : Machine.Along step Covers (start position format policy) events)
    (view : View)
    (hview : view = (Machine.run step (start position format policy) events).follower.core.view)
    (leader : Timeline) (x : Nat) (hx : view.mapping.lastSampleNs ≤ x) (truth : ℝ)
    (hinstant : clock view.timeline.session x = truth) (hmax : truth ≤ i64Max)
    (hinitialized : (view.evaluate x).status.synchronization ≠ .uninitialized)
    (hshows : view.Shows leader x ⌊truth⌋₊) :
    ∃ err : ℚ, (view.evaluate x).status.alignmentErrorNs = (err : WithTop ℚ) ∧
      ((view.evaluate x).status.aligned = true → err ≤ 1000000) ∧
      (view.evaluate x).position.distance (leader.at ⌊truth⌋₊).1 ≤
        err / 1000000000 * leader.format.fps +
          2 * |(leader.at ⌊truth⌋₊).2.1.asF64| * leader.format.fps / 1000000000 + 2 / q32 :=
  (known_run hclock hadmits hcovers).distance hview hx hinstant hmax hinitialized hshows

/-- Two followers of one leader, each with a time base of its own and after any run of
its own: at one instant of the leader's clock they show positions no further apart than
their published alignment errors together. -/
theorem followers_close {other : Bytes16 → ℝ → ℝ}
    (hclock : ∀ session, LeaderClock (clock session))
    (hother : ∀ session, LeaderClock (other session)) (position position' : Position)
    (format format' : FrameFormat) (policy policy' : CorrectionPolicy)
    (events events' : List NetworkEvent)
    (hadmits : Machine.Along step (Admits clock) (start position format policy) events)
    (hcovers : Machine.Along step Covers (start position format policy) events)
    (hadmits' : Machine.Along step (Admits other) (start position' format' policy') events')
    (hcovers' : Machine.Along step Covers (start position' format' policy') events')
    (view view' : View)
    (hview : view = (Machine.run step (start position format policy) events).follower.core.view)
    (hview' : view' =
      (Machine.run step (start position' format' policy') events').follower.core.view)
    (leader : Timeline) (x x' : Nat) (truth : ℝ) (hmax : truth ≤ i64Max)
    (hx : view.mapping.lastSampleNs ≤ x) (hx' : view'.mapping.lastSampleNs ≤ x')
    (hinstant : clock view.timeline.session x = truth)
    (hinstant' : other view'.timeline.session x' = truth)
    (hinitialized : (view.evaluate x).status.synchronization ≠ .uninitialized)
    (hinitialized' : (view'.evaluate x').status.synchronization ≠ .uninitialized)
    (hshows : view.Shows leader x ⌊truth⌋₊) (hshows' : view'.Shows leader x' ⌊truth⌋₊) :
    ∃ err err' : ℚ, (view.evaluate x).status.alignmentErrorNs = (err : WithTop ℚ) ∧
      (view'.evaluate x').status.alignmentErrorNs = (err' : WithTop ℚ) ∧
      ((view.evaluate x).status.aligned = true → err ≤ 1000000) ∧
      ((view'.evaluate x').status.aligned = true → err' ≤ 1000000) ∧
      (view.evaluate x).position.distance (view'.evaluate x').position ≤
        (err + err') / 1000000000 * leader.format.fps +
          4 * |(leader.at ⌊truth⌋₊).2.1.asF64| * leader.format.fps / 1000000000 + 4 / q32 := by
  obtain ⟨err, herr, haligned, hdistance⟩ := (known_run hclock hadmits hcovers).distance hview hx
    hinstant hmax hinitialized hshows
  obtain ⟨err', herr', haligned', hdistance'⟩ := (known_run hother hadmits' hcovers').distance
    hview' hx' hinstant' hmax hinitialized' hshows'
  refine ⟨err, err', herr, herr', haligned, haligned', ?_⟩
  have htriangle := Position.distance_triangle (view.evaluate x).position
    (view'.evaluate x').position (leader.at ⌊truth⌋₊).1
  have hsum : (err + err') / 1000000000 * leader.format.fps =
      err / 1000000000 * leader.format.fps + err' / 1000000000 * leader.format.fps := by
    ring
  have hunits : (4 : ℚ) / q32 = 2 / q32 + 2 / q32 := by ring
  rw [hsum, hunits]
  linarith

end ClockNetwork

theorem joining_covered :
    Machine.Along ClockNetwork.step ClockNetwork.Covers
      (ClockNetwork.start Position.zero FrameFormat.default CorrectionPolicy.default) joining := by
  -- Only the last step matches a reply.
  have hquiet {x : Exchange} (h : NetworkResult.quiet = .exchanged x) :
      x.duration ≤ coveredExchangeNs := by
    cases h
  refine ⟨fun x hx => hquiet hx, fun x hx => hquiet hx, fun x hx => hquiet hx,
    fun x hx => hquiet hx, fun x hx => ?_, trivial⟩
  have hmatched : NetworkResult.exchanged ⟨1000000000, 6001000000, 6001020000, 1009020000⟩ =
      .exchanged x := hx
  obtain rfl := NetworkResult.exchanged.inj hmatched
  decide

/-- The follower after it has joined. -/
noncomputable def joinedView : View :=
  (Machine.run ClockNetwork.step
    (ClockNetwork.start Position.zero FrameFormat.default CorrectionPolicy.default)
    joining).follower.core.view

theorem mapping_describes_leader_of_joining :
    ∃ u : ℚ, joinedView.mapping.uncertaintyAt 2009020000 = (u : WithTop ℚ) ∧
      |(joinedView.mapping.leaderTime 2009020000 : ℝ) - (2009020000 + 5000000000)| ≤
        (u : ℝ) + 1 := by
  have hsound := @ClockNetwork.mapping_describes_leader (fun _ x => x + 5000000000)
    (fun _ => leaderClock_add 5000000000) _ _ _ joining joining_admitted joining_covered
    joinedView rfl (by decide +kernel) 2009020000 (by decide +kernel) (by norm_num [i64Max])
  exact_mod_cast hsound

theorem reading_close_to_leader_of_joining :
    ∃ err : ℚ, (joinedView.evaluate 2009020000).status.alignmentErrorNs = (err : WithTop ℚ) ∧
      ((joinedView.evaluate 2009020000).status.aligned = true → err ≤ 1000000) ∧
      (joinedView.evaluate 2009020000).position.distance
          (sampleTimeline.at ⌊((7009020000 : Nat) : ℝ)⌋₊).1 ≤
        err / 1000000000 * sampleTimeline.format.fps +
          2 * |(sampleTimeline.at ⌊((7009020000 : Nat) : ℝ)⌋₊).2.1.asF64| *
            sampleTimeline.format.fps / 1000000000 + 2 / q32 :=
  @ClockNetwork.reading_close_to_leader (fun _ x => x + 5000000000)
    (fun _ => leaderClock_add 5000000000) _ _ _ joining joining_admitted joining_covered
    joinedView rfl sampleTimeline 2009020000 (by decide +kernel) _ (by norm_num)
    (by norm_num [i64Max]) (by decide +kernel)
    ⟨by decide +kernel, by rw [Nat.floor_natCast]; decide +kernel⟩

/-- Another follower, which has heard nothing for a second since. -/
noncomputable def waitedView : View :=
  (Machine.run ClockNetwork.step
    (ClockNetwork.start Position.zero FrameFormat.default CorrectionPolicy.default)
    (joining ++ [.tick 2009020000 500000000])).follower.core.view

theorem followers_close_of_joining :
    ∃ err err' : ℚ, (joinedView.evaluate 2009020000).status.alignmentErrorNs = (err : WithTop ℚ) ∧
      (waitedView.evaluate 2009020000).status.alignmentErrorNs = (err' : WithTop ℚ) ∧
      ((joinedView.evaluate 2009020000).status.aligned = true → err ≤ 1000000) ∧
      ((waitedView.evaluate 2009020000).status.aligned = true → err' ≤ 1000000) ∧
      (joinedView.evaluate 2009020000).position.distance
          (waitedView.evaluate 2009020000).position ≤
        (err + err') / 1000000000 * sampleTimeline.format.fps +
          4 * |(sampleTimeline.at ⌊((7009020000 : Nat) : ℝ)⌋₊).2.1.asF64| *
            sampleTimeline.format.fps / 1000000000 + 4 / q32 := by
  have hnow : (Machine.run ClockNetwork.step
      (ClockNetwork.start Position.zero FrameFormat.default CorrectionPolicy.default)
      joining).now ≤ 2009020000 := by decide +kernel
  have hadmits' := (Machine.along_append ClockNetwork.step _ _ joining
    [.tick 2009020000 500000000]).mpr ⟨joining_admitted, hnow, trivial⟩
  have hcovers' := (Machine.along_append ClockNetwork.step _ _ joining
    [.tick 2009020000 500000000]).mpr
      ⟨joining_covered, (fun _ hx => by cases hx), trivial⟩
  refine ClockNetwork.followers_close (fun _ => leaderClock_add 5000000000)
    (fun _ => leaderClock_add 5000000000) _ _ _ _ _ _ joining
    (joining ++ [.tick 2009020000 500000000]) joining_admitted joining_covered hadmits' hcovers'
    joinedView waitedView rfl rfl sampleTimeline 2009020000 2009020000 _ (by norm_num [i64Max])
    (by decide +kernel) (by decide +kernel) (by norm_num) (by norm_num) (by decide +kernel)
    (by decide +kernel) ?_ ?_
  · exact ⟨by decide +kernel, by rw [Nat.floor_natCast]; decide +kernel⟩
  · exact ⟨by decide +kernel, by rw [Nat.floor_natCast]; decide +kernel⟩

end Tidkod
