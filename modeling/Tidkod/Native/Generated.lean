import Mathlib.Tactic
import Tidkod.Native.LeaderPublication

/-!
Leaders of a generated source. Samples are refused, so everything that changes
the timeline is published in the same pass, and between two accepted controls
only promotions and session ids change it: from the end of a pass on, it reads
as before.
-/

namespace Tidkod

open TimedQueue Timeline

namespace Timeline

/-- `u` is a later timeline of the same leader. -/
structure Continues (t u : Timeline) : Prop where
  session : u.session = t.session
  format : u.format = t.format
  retains : Retains t u

theorem Continues.refl (t : Timeline) : Continues t t := ⟨rfl, rfl, .refl t⟩

theorem Continues.trans {t u v : Timeline} (htu : Continues t u) (huv : Continues u v) :
    Continues t v :=
  ⟨huv.session.trans htu.session, huv.format.trans htu.format, htu.retains.trans huv.retains⟩

/-- Reading either timeline at `n` or later gives the same. -/
def ReadsSame (n : Nat) (t u : Timeline) : Prop := ∀ time, n ≤ time → u.at time = t.at time

theorem ReadsSame.trans {m n : Nat} {t u v : Timeline} (htu : ReadsSame m t u) (hmn : m ≤ n)
    (huv : ReadsSame n u v) : ReadsSame n t v :=
  fun time htime => (huv time htime).trans (htu time (hmn.trans htime))

/-- Promoting what is due changes nothing for readers from then on. -/
theorem Ordered.readsSame_promoted {t : Timeline} (h : t.Ordered) (now : Nat) :
    ReadsSame now t (t.activateWhile (fun c => c.timeNs ≤ now)) :=
  fun _ htime => at_congr rfl (TimedQueue.Ordered.current_popWhile_due htime h)

end Timeline

/-- No sample has ever been accepted. -/
structure LeaderJob.Generated (job : LeaderJob) : Prop where
  kind : job.timeline.sourceKind = .generated
  configured : job.config.sourceKind = .generated
  clean : job.dirty = false

/-- The command is not an accepted control. -/
def LeaderPass.AcceptsNoChange (s : LeaderPass) : Nat × Command → Prop
  | (now, .change change effective) =>
      ∀ t, changeTimeline s.job.timeline change effective now ≠ .ok t
  | _ => True

namespace LeaderPass

variable {s : LeaderPass}

theorem command_generated (hgenerated : s.job.Generated) (hqueued : s.job.timeline.Queued)
    (c : Nat × Command) : (s.command c).1.job.Generated ∧
      Continues s.job.timeline (s.command c).1.job.timeline := by
  obtain ⟨now, c⟩ := c
  have hkind := hgenerated.kind
  have houtcome := s.command_outcome now c
  generalize s.command (now, c) = result at houtcome ⊢
  cases houtcome with
  | ignored => exact ⟨hgenerated, .refl _⟩
  | refused => exact ⟨hgenerated, .refl _⟩
  | unsampled => exact ⟨⟨hkind, hgenerated.configured, hgenerated.clean⟩, .refl _⟩
  | identified =>
      exact ⟨⟨hkind, hgenerated.configured, hgenerated.clean⟩, rfl, rfl, le_rfl,
        fun _ hs => Or.inl hs⟩
  | controlled _ _ t hchange =>
      obtain ⟨-, hevolves⟩ := hchange.evolves hqueued
      refine ⟨⟨hevolves.kind.trans hkind, hgenerated.configured, hgenerated.clean⟩, ?_, ?_,
        hevolves.retains⟩
      · cases hchange <;> rfl
      · cases hchange <;> rfl
  | sampled _ _ _ _ hsample =>
      cases hsample with
      | changed htracked => exact absurd (hkind.symm.trans htracked) (by decide)
      | refined htracked => exact absurd (hkind.symm.trans htracked) (by decide)

/-- Without an accepted control at most the session id changes. -/
theorem command_quiet (hgenerated : s.job.Generated) {c : Nat × Command}
    (hquiet : s.AcceptsNoChange c) :
    ∃ id, (s.command c).1.job.timeline = { s.job.timeline with sessionId := id } := by
  obtain ⟨now, c⟩ := c
  cases c with
  | reader => exact ⟨s.job.timeline.sessionId, rfl⟩
  | reconnect => exact ⟨s.job.timeline.sessionId, rfl⟩
  | sessionId id => exact ⟨some id, rfl⟩
  | change change effective =>
      refine ⟨s.job.timeline.sessionId, ?_⟩
      simp only [command]
      split
      · next t hchange => exact absurd hchange (hquiet t)
      · rfl
  | sample sample =>
      refine ⟨s.job.timeline.sessionId, ?_⟩
      have houtcome := s.command_outcome now (.sample sample)
      generalize s.command (now, .sample sample) = result at houtcome ⊢
      cases houtcome with
      | ignored _ hquiet => simp at hquiet
      | unsampled => rfl
      | sampled _ _ _ _ hsample =>
          have hkind := hgenerated.kind
          cases hsample with
          | changed htracked => exact absurd (hkind.symm.trans htracked) (by decide)
          | refined htracked => exact absurd (hkind.symm.trans htracked) (by decide)

/-- The commands of a pass, one after the other. -/
theorem run_generated (hgenerated : s.job.Generated) (hqueued : s.job.timeline.Queued)
    (commands : List (Nat × Command)) :
    (Machine.run command s commands).job.Generated ∧
      Continues s.job.timeline (Machine.run command s commands).job.timeline ∧
      (Machine.Along command AcceptsNoChange s commands →
        ∃ id, (Machine.run command s commands).job.timeline =
          { s.job.timeline with sessionId := id }) := by
  induction commands generalizing s with
  | nil => exact ⟨hgenerated, .refl _, fun _ => ⟨s.job.timeline.sessionId, rfl⟩⟩
  | cons c rest ih =>
      obtain ⟨hfirst, hcontinues⟩ := command_generated hgenerated hqueued c
      obtain ⟨hend, hrest, hsame⟩ := ih hfirst (command_queued hqueued c)
      refine ⟨hend, hcontinues.trans hrest, ?_⟩
      intro hquiet
      obtain ⟨first, hid⟩ := command_quiet hgenerated hquiet.1
      obtain ⟨id, hlast⟩ := hsame hquiet.2
      exact ⟨id, by rw [Machine.run_cons, hlast, hid]⟩

/-- The health check of a generated source does nothing. -/
theorem checkHealth_generated (hgenerated : s.job.Generated) (now : Nat) :
    s.checkHealth now = s := by
  unfold checkHealth
  dsimp only
  rw [if_neg]
  rintro ⟨htracked, -⟩
  exact absurd (hgenerated.configured.symm.trans htracked) (by decide)

theorem finish_generated (hgenerated : s.job.Generated) (hqueued : s.job.timeline.Queued)
    {r : PassEnd} {job : LeaderJob} {published : Bool}
    (hfinish : s.finish r = .ok (job, published)) :
    job.Generated ∧ Continues s.job.timeline job.timeline ∧
      ∃ revision, job.timeline =
        { s.job.timeline.activateWhile (fun c => c.timeNs ≤ r.now) with revision := revision } := by
  have hpromoted : (s.promote r.now).job.Generated :=
    ⟨hgenerated.kind, hgenerated.configured, hgenerated.clean⟩
  obtain ⟨-, hevolves⟩ := finish_evolves hqueued hfinish
  have houtcome := s.finish_outcome r
  rw [hfinish] at houtcome
  cases houtcome with
  | quiet =>
      rw [checkHealth_generated hpromoted] at hevolves ⊢
      exact ⟨hpromoted, ⟨rfl, rfl, hevolves.retains⟩, s.job.timeline.revision, rfl⟩
  | published bytes t ht =>
      rw [checkHealth_generated hpromoted] at ht ⊢
      obtain rfl := ht
      exact ⟨⟨hgenerated.kind, hgenerated.configured, rfl⟩, ⟨rfl, rfl, hevolves.retains⟩, _, rfl⟩

end LeaderPass

namespace LeaderJob

variable {job : LeaderJob} {payload : Timeline} {last : Nat} {p : Pass}

/-- A clean leader has its timeline as the payload. -/
theorem Current.eq_payload (h : Current payload job last) (hgenerated : job.Generated) :
    job.timeline = payload := by
  by_contra hne
  have hdirty := h.dirty hne
  rw [hgenerated.clean] at hdirty
  exact absurd hdirty (by decide)

/-- The controls of a pass, if any, were refused. -/
def AcceptsNoChange (job : LeaderJob) (p : Pass) : Prop :=
  Machine.Along LeaderPass.command LeaderPass.AcceptsNoChange ⟨job, false⟩ p.commands

/-- A pass of a generated leader: nothing changes, or what changes is published
under the next revision. -/
theorem Current.progress_generated (h : Current job.timeline job last)
    (hgenerated : job.Generated) (hclock : p.Chronological last) {next : LeaderJob}
    {published : Bool} (hprogress : job.progress p = .ok (next, published)) :
    Current next.timeline next p.ending.now ∧ next.Generated ∧
      Continues job.timeline next.timeline ∧
      (published = false → next.timeline = job.timeline) ∧
      (published = true → next.timeline.revision = job.timeline.revision + 1) ∧
      (job.AcceptsNoChange p → ReadsSame p.ending.now job.timeline next.timeline) := by
  have hqueued := h.valid.ordered.queued
  obtain ⟨hcommands, hcontinues, hsame⟩ :=
    LeaderPass.run_generated (s := ⟨job, false⟩) hgenerated hqueued p.commands
  have hmiddle := (h.commands hclock).queued
  obtain ⟨hnext, hfinished, revision, htimeline⟩ :=
    LeaderPass.finish_generated hcommands hmiddle hprogress
  obtain ⟨after, hafter, -, hkept, hpublished⟩ := h.progress hclock hprogress
  have heq := hafter.eq_payload hnext
  refine ⟨heq ▸ hafter, hnext, hcontinues.trans hfinished, fun hquiet => ?_, fun hwritten => ?_,
    fun hquiet => ?_⟩
  · rw [heq, hkept hquiet]
  · rw [heq, (hpublished hwritten).2]
  · obtain ⟨id, hid⟩ := hsame hquiet
    rw [htimeline, hid]
    exact h.valid.ordered.readsSame_promoted p.ending.now

end LeaderJob

end Tidkod
