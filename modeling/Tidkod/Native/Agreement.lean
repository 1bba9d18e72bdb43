import Mathlib.Tactic
import Tidkod.Native.Generated
import Tidkod.Protocol.Latching
import Tidkod.Protocol.Wire

/-!
A generated leader and one of its followers. Whatever is written by the leader
reaches the follower late, repeatedly, out of order or not at all, but only
after it was published. The follower holds some published timeline with nothing
but due changes latched; a newer one retains or has passed what the follower
has applied, so it is always taken over, and the newest one reads as the leader
does until the next accepted control.
-/

namespace Tidkod

open TimedQueue Timeline

namespace Timeline

theorem latch_latch {t : Timeline} {d e : Nat} (hde : d ≤ e) : (t.latch d).latch e = t.latch e := by
  have hpop := popWhile_popWhile
    (p := fun c : Scheduled => decide (c.discontinuity ≤ d))
    (q := fun c : Scheduled => decide (c.discontinuity ≤ e))
    (fun c hc => by simpa using (of_decide_eq_true hc).trans hde) t.active t.scheduled
  simp only [latch, activateWhile, active] at hpop ⊢
  rw [hpop]

theorem Ordered.le_latch {t : Timeline} (h : t.Ordered) (d : Nat) :
    t.discontinuity ≤ (t.latch d).discontinuity :=
  TimedQueue.Ordered.key_le h (popWhile_active_mem _ t.active t.scheduled)

/-- Latching up to a scheduled id activates it. -/
theorem Ordered.latch_of_mem {t : Timeline} (h : t.Ordered) {s : Scheduled}
    (hs : s ∈ t.scheduled) : (t.latch s.discontinuity).discontinuity = s.discontinuity :=
  congrArg Scheduled.discontinuity
    (TimedQueue.Ordered.popWhile_key_of_mem h (List.mem_cons_of_mem _ hs))

/-- What is in effect in an earlier timeline is in effect or passed in a later one,
and latching up to it reaches it. -/
theorem Retains.reached {t u : Timeline} (h : Retains t u) (hu : u.Ordered) (time : Nat) :
    t.discontinuityAt time ≤ u.discontinuityAt time ∧
      t.discontinuityAt time ≤ (u.latch (t.discontinuityAt time)).discontinuity := by
  have hpassed (d : Nat) (hd : d ≤ u.discontinuity) (e : Nat) :
      d ≤ u.discontinuityAt time ∧ d ≤ (u.latch e).discontinuity :=
    ⟨hd.trans (hu.le_discontinuityAt time), hd.trans (hu.le_latch e)⟩
  have hcurrent : t.discontinuityAt time = (t.current time).discontinuity :=
    t.discontinuityAt_eq time
  rcases current_due time t.active t.scheduled with hactive | ⟨hmem, hdue⟩
  · have hread : t.discontinuityAt time = t.discontinuity :=
      hcurrent.trans (congrArg Scheduled.discontinuity hactive)
    exact hpassed _ (hread.trans_le h.active) _
  · rcases h.scheduled _ hmem with hkept | hbelow
    · refine ⟨?_, ?_⟩
      · rw [hcurrent, discontinuityAt_eq]
        exact TimedQueue.Ordered.key_le_current hu hkept hdue
      · rw [hcurrent]
        exact (hu.latch_of_mem hkept).ge
    · exact hpassed _ (hcurrent.trans_le hbelow) _

end Timeline

namespace FollowerCore

/-- A message that does not convert ends the connection. -/
def receive (c : FollowerCore) (m : Wire.Snapshot) (now : Nat) : FollowerCore × Option Correction :=
  match fromWire m with
  | .ok t => c.state t now
  | .error _ => (c.disconnected, none)

theorem receive_wire (c : FollowerCore) {t : Timeline} (h : t.Valid) (now : Nat) :
    c.receive t.wire now = c.state t now := by
  rw [receive, fromWire_wire h]

/-- The follower holds a timeline in which only changes that are due at `n` have
been latched, and has a clock. -/
structure Holds (c : FollowerCore) (t : Timeline) (n : Nat) : Prop where
  inv : c.Inv
  initialized : c.view.mapping.lastSampleNs ≠ 0
  latched : ∃ d, d ≤ t.discontinuityAt n ∧ c.view.timeline = t.latch d

variable {c : FollowerCore} {t u : Timeline} {n now : Nat}

theorem Holds.inSession (h : c.Holds t n) : c.InSession := h.inv.sync h.initialized

theorem Holds.session (h : c.Holds t n) : c.view.timeline.session = t.session := by
  obtain ⟨d, -, heq⟩ := h.latched
  rw [heq]
  rfl

theorem Holds.revision (h : c.Holds t n) : c.view.timeline.revision = t.revision := by
  obtain ⟨d, -, heq⟩ := h.latched
  rw [heq]
  rfl

theorem Holds.mono (h : c.Holds t n) (ht : t.Ordered) {m : Nat} (hnm : n ≤ m) : c.Holds t m := by
  obtain ⟨d, hd, heq⟩ := h.latched
  exact ⟨h.inv, h.initialized, d, hd.trans (ht.discontinuityAt_mono hnm), heq⟩

/-- From then on the follower reads the timeline it holds. -/
theorem Holds.readsSame (h : c.Holds t n) (ht : t.Ordered) : ReadsSame n t c.view.timeline := by
  obtain ⟨d, hd, heq⟩ := h.latched
  intro time htime
  rw [heq]
  exact ht.at_latch htime hd

theorem Holds.discontinuity (h : c.Holds t n) (ht : t.Ordered)
    (hn : n ≤ c.view.mapping.leaderTime now) :
    c.view.discontinuity now = t.discontinuityAt (c.view.mapping.leaderTime now) := by
  rw [h.inSession.discontinuity, discontinuityAt, h.readsSame ht _ hn, discontinuityAt]

/-- A snapshot that is not newer changes nothing. -/
theorem Holds.stale (h : c.Holds t n) (hsession : u.session = t.session)
    (hrevision : u.revision ≤ t.revision) : (c.state u now).1.Holds t n := by
  have houtcome := state_outcome c u now
  generalize c.state u now = result at houtcome ⊢
  cases houtcome with
  | foreign => exact h
  | adopted _ hother => exact absurd (h.session.trans hsession.symm) hother
  | refused _ hsame => exact ⟨h.inv.pin hsame, h.initialized, h.latched⟩
  | jumped _ _ hnewer => exact absurd (h.revision ▸ hnewer) hrevision.not_gt
  | refined _ _ hnewer => exact absurd (h.revision ▸ hnewer) hrevision.not_gt

/-- A newer snapshot that retains or has passed what is held is taken over. -/
theorem Holds.newer (h : c.Holds t n) (ht : t.Ordered) (hu : u.Ordered)
    (hsession : u.session = t.session) (hformat : u.format = t.format) (hretains : Retains t u)
    (hrevision : t.revision < u.revision) (hn : n ≤ c.view.mapping.leaderTime now) :
    (c.state u now).2.isSome = true ∧
      (c.state u now).1.view.mapping = c.view.mapping ∧
      (c.state u now).1.Holds u (c.view.mapping.leaderTime now) := by
  have hinv := h.inv.state hu now
  have hread := h.discontinuity ht hn
  obtain ⟨hreached, hlatch⟩ := hretains.reached hu (c.view.mapping.leaderTime now)
  -- The follower latches up to what it reads, which lies above its active id.
  have hlatched : c.latched u now =
      u.latch (t.discontinuityAt (c.view.mapping.leaderTime now)) := by
    have hactive : c.view.timeline.discontinuity ≤ c.view.discontinuity now := by
      rw [h.inSession.discontinuity]
      exact h.inv.ordered.le_discontinuityAt _
    rw [FollowerCore.latched, max_eq_right hactive, hread]
  have hkeeps : ¬ c.RollsBack u now := by
    rintro (hback | ⟨hother, -⟩)
    · rw [hlatched, hread] at hback
      exact absurd hback hlatch.not_gt
    · obtain ⟨d, -, heq⟩ := h.latched
      refine hother (hformat.trans ?_)
      rw [heq]
      rfl
  have houtcome := state_outcome c u now
  generalize c.state u now = result at houtcome hinv ⊢
  cases houtcome with
  | foreign s hexpected hother =>
      have hpinned := h.inv.pinned s hexpected
      exact absurd (hpinned.trans (h.session.trans hsession.symm)) hother
  | adopted _ hother => exact absurd (h.session.trans hsession.symm) hother
  | refused _ _ hrefused =>
      rcases hrefused with hstale | hback
      · rw [h.revision] at hstale
        exact absurd hrevision hstale.not_gt
      · exact absurd hback hkeeps
  | jumped => exact ⟨rfl, rfl, hinv, h.initialized, _, hreached, hlatched⟩
  | refined =>
      refine ⟨correct_isSome _ _ _ _, by simp [follow, pin], hinv, ?_, _, hreached, ?_⟩
      · rw [correct_mapping]
        exact h.initialized
      · rw [correct_timeline]
        exact hlatched

/-- A tick latches what is due. -/
theorem Holds.tick (h : c.Holds t n) (ht : t.Ordered) (hn : n ≤ c.view.mapping.leaderTime now)
    (staleAfter : Nat) : (c.tick now staleAfter).1.view.mapping = c.view.mapping ∧
      (c.tick now staleAfter).1.Holds t (c.view.mapping.leaderTime now) := by
  have hinv := h.inv.tick now staleAfter
  obtain ⟨d, hd, heq⟩ := h.latched
  have hread : c.tickDiscontinuity now = t.discontinuityAt (c.view.mapping.leaderTime now) := by
    rw [tickDiscontinuity, discontinuityAt, h.readsSame ht _ hn, discontinuityAt]
  have hlatched : c.view.timeline.latch (c.tickDiscontinuity now) =
      t.latch (t.discontinuityAt (c.view.mapping.leaderTime now)) := by
    rw [hread, heq, latch_latch (hd.trans (ht.discontinuityAt_mono hn))]
  have houtcome := tick_outcome c now staleAfter
  generalize c.tick now staleAfter = result at houtcome hinv ⊢
  cases houtcome with
  | unknown hclock => exact absurd hclock h.initialized
  | reported => exact ⟨rfl, hinv, h.initialized, _, le_rfl, hlatched⟩
  | silent => exact ⟨rfl, hinv, h.initialized, _, le_rfl, hlatched⟩

end FollowerCore

/-- A leader, the timelines it has written so far, a follower, and the leader's
clock at the latest operation of either. -/
structure System where
  leader : LeaderRun
  published : List Timeline
  follower : FollowerCore
  clock : Nat

inductive Event where
  | pass (p : Pass)
  | deliver (sent : Timeline) (now : Nat)
  | tick (now staleAfter : Nat)

namespace System

/-- The first payload is written to every follower that connects. -/
def start (job : LeaderJob) (now : Nat) (follower : FollowerCore) : System :=
  ⟨.start job now, [job.timeline], follower, now⟩

def step (s : System) : Event → System × Option Correction
  | .pass p =>
      let (leader, payload) := s.leader.pass p
      ({ s with
          leader := leader
          published :=
            if payload.isSome then s.published ++ [leader.job.timeline] else s.published
          clock := p.ending.now }, none)
  | .deliver sent now =>
      ({ s with
          follower := (s.follower.receive sent.wire now).1
          clock := s.follower.view.mapping.leaderTime now },
        (s.follower.receive sent.wire now).2)
  | .tick now staleAfter =>
      ({ s with
          follower := (s.follower.tick now staleAfter).1
          clock := s.follower.view.mapping.leaderTime now },
        (s.follower.tick now staleAfter).2)

/-- The leader's clock never runs backwards, the follower's leader time equals it,
and only what has been published is delivered. The follower may act while a pass
is under way: commands follow the last pass, and only its end comes after
everything before it. -/
def Admits (s : System) : Event → Prop
  | .pass p => p.Chronological s.leader.time ∧ s.clock ≤ p.ending.now
  | .deliver sent now => sent ∈ s.published ∧ s.clock ≤ s.follower.view.mapping.leaderTime now
  | .tick now _ => s.clock ≤ s.follower.view.mapping.leaderTime now

instance (s : System) (e : Event) : Decidable (s.Admits e) :=
  match e with
  | .pass _ => inferInstanceAs (Decidable (_ ∧ _))
  | .deliver _ _ => inferInstanceAs (Decidable (_ ∧ _))
  | .tick _ _ => inferInstanceAs (Decidable (_ ≤ _))

/-- A delivered snapshot that is newer than the follower's is accepted. -/
def AcceptsNewer (s : System) : Event → Prop
  | .deliver sent now =>
      s.follower.view.timeline.revision < sent.revision →
        (s.follower.receive sent.wire now).2.isSome = true ∧
          (s.follower.receive sent.wire now).1.view.timeline.revision = sent.revision
  | _ => True

/-- The leader accepts no control. -/
def AcceptsNoChange (s : System) : Event → Prop
  | .pass p => s.leader.job.AcceptsNoChange p
  | _ => True

/-- What holds of the leader and its publications. -/
structure Inv (s : System) : Prop where
  current : LeaderJob.Current s.leader.job.timeline s.leader.job s.leader.time
  generated : s.leader.job.Generated
  time_le : s.leader.time ≤ s.clock
  valid : ∀ t ∈ s.published, t.Valid
  continues : ∀ t ∈ s.published, Continues t s.leader.job.timeline
  revision_le : ∀ t ∈ s.published, t.revision ≤ s.leader.job.timeline.revision
  newest : ∀ t ∈ s.published, t.revision = s.leader.job.timeline.revision →
    t = s.leader.job.timeline
  retains : ∀ t ∈ s.published, ∀ u ∈ s.published, t.revision < u.revision → Retains t u

/-- A follower that has accepted a snapshot of this leader, has latched only what
was due, and has an initialised clock. -/
structure Joined (s : System) : Prop where
  reachable : s.follower.Reachable
  initialized : s.follower.view.mapping.lastSampleNs ≠ 0
  accepted : ∃ t ∈ s.published, ∃ d, d ≤ t.discontinuityAt s.clock ∧
    s.follower.view.timeline = t.latch d

/-- The follower holds a published timeline. -/
def Follows (s : System) : Prop := ∃ t ∈ s.published, s.follower.Holds t s.clock

/-- Everything published since revision `base` reads as the leader does, and the
follower holds no older revision. -/
structure Settled (base : Nat) (s : System) : Prop where
  reads : ∀ t ∈ s.published, base ≤ t.revision → ReadsSame s.clock t s.leader.job.timeline
  held : base ≤ s.follower.view.timeline.revision

variable {s : System}

theorem Joined.follows (h : s.Joined) : s.Follows := by
  obtain ⟨t, ht, d, hd, heq⟩ := h.accepted
  exact ⟨t, ht, h.reachable.inv, h.initialized, d, hd, heq⟩

theorem inv_start {config : LeaderConfig} {session generatedId : Bytes16} {now : Nat}
    {job : LeaderJob} (hgenerated : config.sourceKind = .generated) (hnow : now ≤ i64Max)
    (hnew : LeaderJob.new config session generatedId now = .ok job) (follower : FollowerCore) :
    (start job now follower).Inv := by
  obtain ⟨hcurrent, -⟩ := LeaderJob.current_of_new hnow hnew
  have hjob := (LeaderJob.new_eq_ok hnew).2
  have hsole (t : Timeline) (ht : t ∈ (start job now follower).published) : t = job.timeline :=
    List.mem_singleton.mp ht
  exact
    { current := hcurrent
      generated := by
        rw [start, LeaderRun.start, hjob]
        exact ⟨hgenerated, hgenerated, rfl⟩
      time_le := le_rfl
      valid := fun t ht => hsole t ht ▸ hcurrent.valid
      continues := fun t ht => hsole t ht ▸ .refl _
      revision_le := fun t ht => (congrArg Timeline.revision (hsole t ht)).le
      newest := fun t ht _ => hsole t ht
      retains := fun t ht u hu _ => by
        rw [hsole t ht, hsole u hu]
        exact .refl _ }

theorem Inv.silent (h : s.Inv) {leader : LeaderRun} {clock : Nat}
    (hcurrent : LeaderJob.Current leader.job.timeline leader.job leader.time)
    (hgenerated : leader.job.Generated) (htime : leader.time ≤ clock)
    (hsame : leader.job.timeline = s.leader.job.timeline) :
    Inv { s with leader := leader, clock := clock } :=
  { current := hcurrent
    generated := hgenerated
    time_le := htime
    valid := h.valid
    continues := fun t ht => hsame ▸ h.continues t ht
    revision_le := fun t ht => hsame ▸ h.revision_le t ht
    newest := fun t ht => hsame ▸ h.newest t ht
    retains := h.retains }

/-- The new revision lies above all others, and continues them all. -/
theorem Inv.wrote (h : s.Inv) {leader : LeaderRun} {clock : Nat}
    (hcurrent : LeaderJob.Current leader.job.timeline leader.job leader.time)
    (hgenerated : leader.job.Generated) (htime : leader.time ≤ clock)
    (hcontinues : Continues s.leader.job.timeline leader.job.timeline)
    (hrevision : leader.job.timeline.revision = s.leader.job.timeline.revision + 1) :
    Inv { s with
      leader := leader
      published := s.published ++ [leader.job.timeline]
      clock := clock } := by
  have hcases (t : Timeline) (ht : t ∈ s.published ++ [leader.job.timeline]) :
      t ∈ s.published ∧ t.revision < leader.job.timeline.revision ∨ t = leader.job.timeline := by
    rcases List.mem_append.mp ht with hold | hnew
    · exact Or.inl ⟨hold, hrevision ▸ Nat.lt_succ_of_le (h.revision_le t hold)⟩
    · exact Or.inr (List.mem_singleton.mp hnew)
  refine
    { current := hcurrent
      generated := hgenerated
      time_le := htime
      valid := fun t ht => ?_
      continues := fun t ht => ?_
      revision_le := fun t ht => ?_
      newest := fun t ht hnewest => ?_
      retains := fun t ht u hu hlt => ?_ }
  · rcases hcases t ht with ⟨hold, -⟩ | rfl
    · exact h.valid t hold
    · exact hcurrent.valid
  · rcases hcases t ht with ⟨hold, -⟩ | rfl
    · exact (h.continues t hold).trans hcontinues
    · exact .refl _
  · rcases hcases t ht with ⟨-, hbelow⟩ | rfl
    · exact hbelow.le
    · exact le_rfl
  · rcases hcases t ht with ⟨-, hbelow⟩ | rfl
    · exact absurd hnewest hbelow.ne
    · rfl
  · rcases hcases u hu with ⟨hold, hbelow⟩ | rfl
    · rcases hcases t ht with ⟨holder, -⟩ | rfl
      · exact h.retains t holder u hold hlt
      · exact absurd hbelow hlt.not_gt
    · rcases hcases t ht with ⟨holder, -⟩ | rfl
      · exact ((h.continues t holder).trans hcontinues).retains
      · exact absurd hlt (lt_irrefl _)

/-- The possible effects of a pass. -/
inductive PassOutcome (s : System) (p : Pass) : System → Prop where
  | silent (leader : LeaderRun) (hsame : leader.job.timeline = s.leader.job.timeline)
      (hinv : Inv { s with leader := leader, clock := p.ending.now }) :
      PassOutcome s p { s with leader := leader, clock := p.ending.now }
  | wrote (leader : LeaderRun)
      (hreads : s.leader.job.AcceptsNoChange p →
        ReadsSame p.ending.now s.leader.job.timeline leader.job.timeline)
      (hinv : Inv { s with
        leader := leader
        published := s.published ++ [leader.job.timeline]
        clock := p.ending.now }) :
      PassOutcome s p { s with
        leader := leader
        published := s.published ++ [leader.job.timeline]
        clock := p.ending.now }

theorem step_pass (h : s.Inv) {p : Pass} (hadmits : s.Admits (.pass p)) :
    PassOutcome s p (s.step (.pass p)).1 := by
  obtain ⟨hclock, hlater⟩ := hadmits
  rcases s.leader.pass_cases p with ⟨running, hpass⟩ | ⟨job, hprogress, hpass⟩ |
    ⟨job, hprogress, hpass⟩
  · simp only [step, hpass]
    exact .silent _ rfl (h.silent h.current h.generated (h.time_le.trans hlater) rfl)
  · obtain ⟨hcurrent, hgenerated, -, hkept, -⟩ :=
      h.current.progress_generated h.generated hclock hprogress
    have hsame : job.timeline = s.leader.job.timeline := hkept rfl
    simp only [step, hpass]
    exact .silent ⟨job, p.ending.now, true⟩ hsame (h.silent hcurrent hgenerated le_rfl hsame)
  · obtain ⟨hcurrent, hgenerated, hcontinues, -, hpublished, hreads⟩ :=
      h.current.progress_generated h.generated hclock hprogress
    simp only [step, hpass]
    exact .wrote ⟨job, p.ending.now, true⟩ hreads
      (h.wrote hcurrent hgenerated le_rfl hcontinues (hpublished rfl))

/-- What an admitted event keeps and establishes. -/
theorem step_follows (h : s.Inv) (hfollows : s.Follows) {e : Event} (hadmits : s.Admits e) :
    s.AcceptsNewer e ∧ (s.step e).1.Inv ∧ (s.step e).1.Follows := by
  obtain ⟨t, ht, hholds⟩ := hfollows
  have hordered := (h.valid t ht).ordered
  cases e with
  | pass p =>
      have hlater : s.clock ≤ p.ending.now := hadmits.2
      have houtcome := step_pass h hadmits
      have hfollower : (s.step (.pass p)).1.follower = s.follower := rfl
      generalize (s.step (.pass p)).1 = next at houtcome ⊢
      refine ⟨trivial, ?_⟩
      cases houtcome with
      | silent leader _ hinv => exact ⟨hinv, t, ht, hholds.mono hordered hlater⟩
      | wrote leader _ hinv =>
          exact ⟨hinv, t, List.mem_append_left _ ht, hholds.mono hordered hlater⟩
  | deliver sent now =>
      obtain ⟨hsent, hclock⟩ := hadmits
      have hvalid := h.valid sent hsent
      have hsession : sent.session = t.session :=
        (h.continues sent hsent).session.symm.trans (h.continues t ht).session
      have hformat : sent.format = t.format :=
        (h.continues sent hsent).format.symm.trans (h.continues t ht).format
      have hinv : (s.step (.deliver sent now)).1.Inv :=
        { h with time_le := h.time_le.trans hclock }
      simp only [AcceptsNewer, step, s.follower.receive_wire hvalid, hholds.revision] at hinv ⊢
      rcases lt_or_ge t.revision sent.revision with hnewer | hstale
      · obtain ⟨haccepted, hmapping, hheld⟩ := hholds.newer hordered hvalid.ordered hsession hformat
          (h.retains t ht sent hsent hnewer) hnewer hclock
        exact ⟨fun _ => ⟨haccepted, hheld.revision⟩, hinv, sent, hsent, hheld⟩
      · exact ⟨fun hnewer => absurd hnewer hstale.not_gt, hinv, t, ht,
          (hholds.stale hsession hstale).mono hordered hclock⟩
  | tick now staleAfter =>
      have hclock : s.clock ≤ s.follower.view.mapping.leaderTime now := hadmits
      have hinv : (s.step (.tick now staleAfter)).1.Inv :=
        { h with time_le := h.time_le.trans hclock }
      exact ⟨trivial, hinv, t, ht, (hholds.tick hordered hclock staleAfter).2⟩

/-- Until a control is accepted, what was published since `base` goes on reading
as the leader does. -/
theorem step_settled {base : Nat} (h : s.Inv) (hfollows : s.Follows) (hsettled : s.Settled base)
    {e : Event} (hadmits : s.Admits e) (hquiet : s.AcceptsNoChange e) :
    (s.step e).1.Settled base := by
  obtain ⟨t, ht, hholds⟩ := hfollows
  have hordered := (h.valid t ht).ordered
  have hheld := hsettled.held
  have hlater (clock : Nat) (hclock : s.clock ≤ clock) (u : Timeline) (hu : u ∈ s.published)
      (hbase : base ≤ u.revision) : ReadsSame clock u s.leader.job.timeline :=
    fun time htime => hsettled.reads u hu hbase time (hclock.trans htime)
  cases e with
  | pass p =>
      have hclock : s.clock ≤ p.ending.now := hadmits.2
      have houtcome := step_pass h hadmits
      generalize (s.step (.pass p)).1 = next at houtcome ⊢
      cases houtcome with
      | silent leader hsame =>
          refine ⟨fun u hu hbase => ?_, hheld⟩
          simp only [hsame]
          exact hlater _ hclock u hu hbase
      | wrote leader hreads =>
          refine ⟨fun u hu hbase => ?_, hheld⟩
          rcases List.mem_append.mp hu with hold | hnew
          · exact (hlater _ hclock u hold hbase).trans le_rfl (hreads hquiet)
          · rw [List.mem_singleton.mp hnew]
            exact fun _ _ => rfl
  | deliver sent now =>
      obtain ⟨hsent, hclock⟩ := hadmits
      have haccepts := (step_follows h ⟨t, ht, hholds⟩ (e := .deliver sent now)
        ⟨hsent, hclock⟩).1
      refine ⟨fun u hu hbase => hlater _ hclock u hu hbase, ?_⟩
      rcases lt_or_ge s.follower.view.timeline.revision sent.revision with hnewer | hstale
      · exact (hheld.trans hnewer.le).trans (haccepts hnewer).2.ge
      · have hsession : sent.session = t.session :=
          (h.continues sent hsent).session.symm.trans (h.continues t ht).session
        rw [hholds.revision] at hstale hheld
        simp only [step]
        rw [s.follower.receive_wire (h.valid sent hsent), (hholds.stale hsession hstale).revision]
        exact hheld
  | tick now staleAfter =>
      have hclock : s.clock ≤ s.follower.view.mapping.leaderTime now := hadmits
      refine ⟨fun u hu hbase => hlater _ hclock u hu hbase, ?_⟩
      rw [hholds.revision] at hheld
      exact hheld.trans (hholds.tick hordered hclock staleAfter).2.revision.ge

/-- A generated leader after some passes, next to any follower. -/
def Launched (s : System) : Prop :=
  ∃ (config : LeaderConfig) (session generatedId : Bytes16) (now : Nat) (job : LeaderJob)
    (passes : List Pass) (follower : FollowerCore),
    config.sourceKind = .generated ∧ now ≤ i64Max ∧
      LeaderJob.new config session generatedId now = .ok job ∧
      Machine.Along step Admits (start job now follower) (passes.map .pass) ∧
      s = Machine.run step (start job now follower) (passes.map .pass)

theorem Launched.inv (h : s.Launched) : s.Inv := by
  obtain ⟨config, session, generatedId, now, job, passes, follower, hgenerated, hnow, hnew,
    hadmits, rfl⟩ := h
  have hstart := inv_start hgenerated hnow hnew follower
  generalize start job now follower = s at hstart hadmits ⊢
  induction passes generalizing s with
  | nil => exact hstart
  | cons p rest ih =>
      refine ih _ ?_ hadmits.2
      have houtcome := step_pass hstart hadmits.1
      generalize (s.step (.pass p)).1 = next at houtcome ⊢
      cases houtcome with
      | silent _ _ hinv => exact hinv
      | wrote _ _ hinv => exact hinv

/-- Holding the newest revision settles everything from there on. -/
theorem settled_of_newest (h : s.Inv)
    (hnewest : s.follower.view.timeline.revision = s.leader.job.timeline.revision) :
    s.Settled s.leader.job.timeline.revision where
  reads := by
    intro t ht hbase
    rw [h.newest t ht (le_antisymm (h.revision_le t ht) hbase)]
    exact fun _ _ => rfl
  held := hnewest.ge

/-- A settled follower reads as its leader. -/
theorem Settled.reads_leader {base : Nat} (hsettled : s.Settled base) (h : s.Inv)
    (hfollows : s.Follows) {time : Nat} (htime : s.clock ≤ time) :
    s.follower.view.timeline.at time = s.leader.job.timeline.at time := by
  obtain ⟨t, ht, hholds⟩ := hfollows
  have hbase : base ≤ t.revision := hholds.revision ▸ hsettled.held
  rw [hholds.readsSame (h.valid t ht).ordered time htime, hsettled.reads t ht hbase time htime]

/-- Whatever a generated leader does and however its snapshots are delayed, lost,
repeated or reordered: a newer one is always accepted, and from the acceptance of
the newest one to the next accepted control follower and leader read the same at
every time from the present on. -/
theorem follower_agrees (hlaunched : s.Launched) (hjoined : s.Joined) {events : List Event}
    (hadmits : Machine.Along step Admits s events) :
    Machine.Along step AcceptsNewer s events ∧
      ∀ before after, events = before ++ after →
        (Machine.run step s before).follower.view.timeline.revision =
          (Machine.run step s before).leader.job.timeline.revision →
        Machine.Along step AcceptsNoChange (Machine.run step s before) after →
        ∀ time, (Machine.run step s events).clock ≤ time →
          (Machine.run step s events).follower.view.timeline.at time =
            (Machine.run step s events).leader.job.timeline.at time := by
  have hstart : s.Inv ∧ s.Follows := ⟨hlaunched.inv, hjoined.follows⟩
  have hrun {x : System} (hx : x.Inv ∧ x.Follows) {es : List Event}
      (hes : Machine.Along step Admits x es) :
      Machine.Along step AcceptsNewer x es ∧
        (Machine.run step x es).Inv ∧ (Machine.run step x es).Follows :=
    Machine.along_of_invariant (P := fun y => y.Inv ∧ y.Follows)
      (fun _ _ hy he => step_follows hy.1 hy.2 he) hx hes
  refine ⟨(hrun hstart hadmits).1, ?_⟩
  rintro before after rfl hnewest hquiet time htime
  obtain ⟨hbefore, hafter⟩ := (Machine.along_append step _ _ _ _).mp hadmits
  obtain ⟨-, hinv, hfollows⟩ := hrun hstart hbefore
  rw [Machine.run_append] at htime ⊢
  have hsettled := settled_of_newest hinv hnewest
  -- Settled states stay settled as long as no control is accepted.
  have hboth : Machine.Along step (fun y e => y.Admits e ∧ y.AcceptsNoChange e)
      (Machine.run step s before) after := hafter.and hquiet
  obtain ⟨-, ⟨hend, hheld⟩, hsettled⟩ :=
    Machine.along_of_invariant
      (P := fun y : System => (y.Inv ∧ y.Follows) ∧ y.Settled _) (Q := fun _ _ => True)
      (fun _ _ hy he => ⟨trivial, (step_follows hy.1.1 hy.1.2 he.1).2,
        step_settled hy.1.1 hy.1.2 hy.2 he.1 he.2⟩)
      ⟨⟨hinv, hfollows⟩, hsettled⟩ hboth
  exact hsettled.reads_leader hend hheld htime

/-- A leader at normal speed that generates its timecode. -/
def generatedConfig : LeaderConfig := { trackedConfig with sourceKind := .generated }

def generatedSession : Bytes16 := List.Vector.replicate 16 1

def generatedTimeline : Timeline :=
  LeaderJob.initialTimeline generatedConfig generatedSession Bytes16.zero 1000000000

/-- A follower of that leader with one exchange over a path without delay. -/
def generatedOps : List Op :=
  [.connected, .state ⟨generatedTimeline, by decide⟩ 900000000,
    .measurementTimed ⟨1000000000, 1000000000, 1000000000, 1000000000⟩ none 1000000000]

def generatedFollower : FollowerCore :=
  Machine.run FollowerCore.step
    (FollowerCore.new (fallback Position.zero FrameFormat.default) CorrectionPolicy.default)
    generatedOps

def generatedSystem : System :=
  ⟨.start ⟨generatedConfig, generatedTimeline, Tracker.default, generatedTimeline.bytes, false⟩
      1000000000, [generatedTimeline], generatedFollower, 1000000000⟩

/-- A jump is scheduled 100 ms ahead. -/
def schedulingPass : Event :=
  .pass ⟨[(1001000000, .change (.seek (Position.fromFixed (100 * q32))) (some 1100000000))],
    ⟨1002000000, 0, 0⟩, by decide⟩

/-- The follower hears of it, and both apply it on their own. -/
def agreeingEvents : List Event :=
  [schedulingPass,
    .deliver (Machine.run step generatedSystem [schedulingPass]).leader.job.timeline 1003000000,
    .tick 1100500000 5000000000, .pass ⟨[], ⟨1101000000, 0, 0⟩, by decide⟩]

theorem follower_agrees_across_promotion :
    Machine.Along step AcceptsNewer generatedSystem agreeingEvents ∧
      (Machine.run step generatedSystem agreeingEvents).follower.view.timeline.at 1200000000 =
        (Machine.run step generatedSystem agreeingEvents).leader.job.timeline.at 1200000000 ∧
      (Machine.run step generatedSystem agreeingEvents).leader.job.timeline.discontinuity = 1 := by
  have hlaunched : generatedSystem.Launched :=
    ⟨generatedConfig, generatedSession, Bytes16.zero, 1000000000, _, [], generatedFollower, rfl,
      by decide, LeaderJob.new_ok _ _ _ (by decide), trivial, rfl⟩
  have hjoined : generatedSystem.Joined :=
    { reachable := ⟨_, _, _, generatedOps, rfl⟩
      initialized := by decide +kernel
      accepted := ⟨generatedTimeline, List.mem_singleton.mpr rfl, 0, Nat.zero_le _,
        by decide +kernel⟩ }
  have hadmits : Machine.Along step Admits generatedSystem agreeingEvents := by decide +kernel
  obtain ⟨haccepts, hreads⟩ := follower_agrees hlaunched hjoined hadmits
  exact ⟨haccepts, hreads (agreeingEvents.take 2) (agreeingEvents.drop 2) rfl (by decide +kernel)
    ⟨trivial, trivial, trivial⟩ 1200000000 (by decide +kernel), by decide +kernel⟩

end System

end Tidkod
