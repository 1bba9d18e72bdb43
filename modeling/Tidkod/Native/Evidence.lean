import Mathlib.Tactic
import Tidkod.Native.LeaderIds
import Tidkod.Protocol.TrackerEvidence

/-!
The evidence behind tracked discontinuities. A sample without a flag or a new rate
hint starts a trajectory only when it is the first, or when samples in a row agree
that the source has jumped or has changed its speed. The tracker counts them; here
they are observations, listed since the trajectory last changed for any reason. The
counters are reset by the tracker's own discontinuities, while controls and
promotions change the trajectory without them.
-/

namespace Tidkod

open Observation

namespace LeaderWorker

/-- What is remembered of a run: the observations since the active trajectory last
changed, newest first, and whether any sample was processed. -/
structure History where
  since : List Observation
  sampled : Bool

/-- The observation of a sample that a step processes. -/
def observation (w : LeaderWorker) : LeaderStep → Option Observation
  | .command now (.sample s) =>
      if w.running && (w.step (.command now (.sample s))).2.isOk then
        some (w.pass.job.tracker.observe w.timeline s)
      else none
  | _ => none

/-- The step changes the active trajectory. -/
def Discontinuous (w : LeaderWorker) (a : LeaderStep) : Prop :=
  (w.step a).1.timeline.discontinuity ≠ w.timeline.discontinuity

instance (w : LeaderWorker) (a : LeaderStep) : Decidable (w.Discontinuous a) :=
  inferInstanceAs (Decidable (_ ≠ _))

def History.note (h : History) (w : LeaderWorker) (a : LeaderStep) : History where
  since := if w.Discontinuous a then [] else (w.observation a).toList ++ h.since
  sampled := h.sampled || (w.observation a).isSome

def history (w : LeaderWorker) (before : List LeaderStep) : History :=
  Machine.record step History.note ⟨[], false⟩ w before

/-- Controls that take effect at once, and promotions, come while the tracker holds
no evidence. -/
def Undisturbed (w : LeaderWorker) : LeaderStep → Prop
  | .command now (.change _ effective) =>
      w.running = true → effective.getD now ≤ now → effective.getD now ≤ i64Max →
        w.pass.job.tracker.Idle
  | .finish ending =>
      w.running = true → w.timeline.scheduled.head?.any (fun c => c.timeNs ≤ ending.now) = true →
        w.pass.job.tracker.Idle
  | _ => True

instance (w : LeaderWorker) (a : LeaderStep) : Decidable (w.Undisturbed a) :=
  match a with
  | .command _ (.change _ _) => inferInstanceAs (Decidable (_ → _ → _ → _))
  | .command _ (.sample _) => inferInstanceAs (Decidable True)
  | .command _ (.sessionId _) => inferInstanceAs (Decidable True)
  | .command _ .reader => inferInstanceAs (Decidable True)
  | .command _ .reconnect => inferInstanceAs (Decidable True)
  | .finish _ => inferInstanceAs (Decidable (_ → _ → _))

/-- A discontinuity that a sample introduces on its own account rests on its being
the first, or on three samples since the trajectory last changed. -/
def Justified (h : History) (w : LeaderWorker) : LeaderStep → Prop
  | .command now (.sample s) =>
      w.Discontinuous (.command now (.sample s)) → s.discontinuity = false →
        (∀ hint ∈ s.rateHint, hint = w.timeline.anchor.rate) →
          h.sampled = false ∨ Jumping 3 (w.pass.job.tracker.observe w.timeline s :: h.since) ∨
            Speeding 3 (w.pass.job.tracker.observe w.timeline s :: h.since)
  | _ => True

/-- The tracker's counters are backed by the history. -/
structure Recorded (h : History) (w : LeaderWorker) : Prop where
  backed : w.pass.job.tracker.Backed h.since
  first : w.pass.job.tracker.last = none → h.sampled = false

variable {h : History} {w : LeaderWorker}

theorem History.note_of_not_discontinuous (h : History) {a : LeaderStep}
    (hsame : ¬ w.Discontinuous a) :
    h.note w a = ⟨(w.observation a).toList ++ h.since, h.sampled || (w.observation a).isSome⟩ := by
  unfold History.note
  rw [if_neg hsame]

/-- A step that leaves the tracker and the active trajectory alone and processes no
sample leaves nothing to record. -/
theorem Recorded.quiet (hrecorded : Recorded h w) {a : LeaderStep}
    (htracker : (w.step a).1.pass.job.tracker = w.pass.job.tracker)
    (hdisc : (w.step a).1.timeline.discontinuity = w.timeline.discontinuity)
    (hnone : w.observation a = none) : Recorded (h.note w a) (w.step a).1 := by
  have hsame : ¬ w.Discontinuous a := not_not.mpr hdisc
  have hnote : h.note w a = h := by
    rw [h.note_of_not_discontinuous hsame, hnone]
    simp
  rw [hnote]
  exact ⟨htracker ▸ hrecorded.backed, fun hlast => hrecorded.first (htracker ▸ hlast)⟩

/-- A step that changes the trajectory while the tracker is idle. -/
theorem Recorded.idle (hrecorded : Recorded h w) {a : LeaderStep}
    (htracker : (w.step a).1.pass.job.tracker = w.pass.job.tracker)
    (hidle : w.pass.job.tracker.Idle) (hnone : w.observation a = none) :
    Recorded (h.note w a) (w.step a).1 := by
  refine ⟨?_, fun hlast => ?_⟩
  · rw [htracker]
    exact hidle.backed _
  · rw [htracker] at hlast
    simp only [History.note, hnone, Option.isSome_none, Bool.or_false]
    exact hrecorded.first hlast

/-- A control for later leaves the active trajectory alone. -/
theorem changeTimeline_later {t u : Timeline} {change : Change} {effective : Option Nat}
    {now : Nat} (hchange : changeTimeline t change effective now = .ok u)
    (hlater : ¬ (effective.getD now ≤ now ∧ effective.getD now ≤ i64Max)) :
    u.discontinuity = t.discontinuity := by
  unfold changeTimeline at hchange
  dsimp only at hchange
  split_ifs at hchange with htime hfull hscheduled
  · rw [← Except.ok.inj hchange]
  · exact absurd ⟨not_lt.mp hscheduled, not_lt.mp htime⟩ hlater

/-- The end of a pass keeps the tracker, and the trajectory unless an entry is due. -/
theorem finish_kept {s : LeaderPass} {r : PassEnd} {job : LeaderJob} {published : Bool}
    (hfinish : s.finish r = .ok (job, published)) :
    job.tracker = s.job.tracker ∧
      (s.job.timeline.scheduled.head?.any (fun c => c.timeNs ≤ r.now) = false →
        job.timeline.discontinuity = s.job.timeline.discontinuity) := by
  have htracker : ((s.promote r.now).checkHealth r.now).job.tracker = s.job.tracker := by
    unfold LeaderPass.checkHealth
    dsimp only
    split_ifs <;> rfl
  have hdisc (hhead : s.job.timeline.scheduled.head?.any (fun c => c.timeNs ≤ r.now) = false) :
      ((s.promote r.now).checkHealth r.now).job.timeline.discontinuity =
        s.job.timeline.discontinuity := by
    obtain ⟨health, hhealth⟩ := (s.promote r.now).checkHealth_timeline r.now
    rw [hhealth]
    change (s.job.timeline.activateWhile _).discontinuity = _
    rw [Timeline.activateWhile_of_head hhead]
  have houtcome := s.finish_outcome r
  rw [hfinish] at houtcome
  cases houtcome with
  | quiet => exact ⟨htracker, hdisc⟩
  | published bytes t ht =>
      rw [ht]
      exact ⟨htracker, hdisc⟩

/-- What a sample does to the history and the worker, in the worker's own terms. -/
theorem Recorded.sample (hrecorded : Recorded h w) (hrunning : w.running = true) (now : Nat)
    (s : SourceSample) :
    Recorded (h.note w (.command now (.sample s))) (w.step (.command now (.sample s))).1 ∧
      Justified h w (.command now (.sample s)) := by
  have hevidence := hrecorded.backed.sample w.timeline s now
  generalize hresult : w.pass.job.tracker.sample w.timeline s now = result at hevidence
  have hstep : w.step (.command now (.sample s)) =
      (⟨(w.pass.command (now, .sample s)).1, true⟩, (w.pass.command (now, .sample s)).2) :=
    if_pos hrunning
  have hcommand : w.pass.job.tracker.sample w.pass.job.timeline s now = result := hresult
  cases hevidence with
  | refused u e =>
      have houtcome := w.pass.job.tracker.sample_outcome w.timeline s now
      rw [hresult] at houtcome
      cases houtcome
      have hnext : (w.step (.command now (.sample s))).1.timeline = w.timeline := by
        rw [hstep]
        simp only [LeaderPass.command, hcommand]
        rfl
      refine ⟨hrecorded.quiet ?_ (congrArg Timeline.discontinuity hnext) ?_, fun hdisc => ?_⟩
      · rw [hstep]
        simp only [LeaderPass.command, hcommand]
      · simp only [observation, hstep, LeaderPass.command, hcommand, Except.isOk, Except.toBool,
          Bool.and_false, Bool.false_eq_true, if_false]
      · exact absurd (congrArg Timeline.discontinuity hnext) hdisc
  | changed next u hidle hlast hdisc hreason =>
      have hnext : (w.step (.command now (.sample s))).1.pass.job.tracker = next := by
        rw [hstep]
        simp only [LeaderPass.command, hcommand]
      refine ⟨⟨?_, fun hnone => ?_⟩, fun _ hflag hhint => ?_⟩
      · rw [hnext]
        exact hidle.backed _
      · rw [hnext, hlast] at hnone
        cases hnone
      · rcases hreason with hexplicit | ⟨hint, hmem, hne⟩ | hfirst | hjumping | hspeeding
        · rw [hflag] at hexplicit
          cases hexplicit
        · exact absurd (hhint hint hmem) hne
        · exact Or.inl (hrecorded.first hfirst)
        · exact Or.inr (Or.inl hjumping)
        · exact Or.inr (Or.inr hspeeding)
  | refined next u hbacked hlast hdisc =>
      have hnext : (w.step (.command now (.sample s))).1.pass.job.tracker = next := by
        rw [hstep]
        simp only [LeaderPass.command, hcommand]
      have hsame : (w.step (.command now (.sample s))).1.timeline.discontinuity =
          w.timeline.discontinuity := by
        rw [hstep]
        simp only [LeaderPass.command, hcommand]
        exact hdisc
      have hobservation : w.observation (.command now (.sample s)) =
          some (w.pass.job.tracker.observe w.timeline s) := by
        simp only [observation, hstep, LeaderPass.command, hcommand, Except.isOk, Except.toBool,
          hrunning, Bool.and_true, if_true]
      refine ⟨⟨?_, fun hnone => ?_⟩, fun hchanged => absurd hsame hchanged⟩
      · rw [h.note_of_not_discontinuous (not_not.mpr hsame), hobservation, hnext]
        exact hbacked
      · rw [hnext, hlast] at hnone
        cases hnone

theorem Recorded.step (hrecorded : Recorded h w) {a : LeaderStep} (hclean : w.Undisturbed a) :
    Recorded (h.note w a) (w.step a).1 := by
  by_cases hrunning : w.running = true
  · cases a with
    | finish ending =>
        cases hfinish : w.pass.finish ending with
        | error e =>
            apply hrecorded.quiet
            · simp [LeaderWorker.step, hrunning, hfinish]
            · simp [LeaderWorker.step, hrunning, hfinish, timeline]
            · rfl
        | ok result =>
            obtain ⟨job, published⟩ := result
            obtain ⟨htracker, hkept⟩ := finish_kept hfinish
            have hstep : (w.step (.finish ending)).1 = start job := by
              simp only [LeaderWorker.step, if_pos hrunning, hfinish]
            have hsame : (w.step (.finish ending)).1.pass.job.tracker = w.pass.job.tracker := by
              rw [hstep]
              exact htracker
            by_cases hhead : w.timeline.scheduled.head?.any (fun c => c.timeNs ≤ ending.now) = true
            · exact hrecorded.idle hsame (hclean hrunning hhead) rfl
            · apply hrecorded.quiet hsame
              · rw [hstep]
                exact hkept (Bool.not_eq_true _ ▸ hhead)
              · rfl
    | command now c =>
        have hstep : (w.step (.command now c)).1 = ⟨(w.pass.command (now, c)).1, true⟩ := by
          simp only [LeaderWorker.step, if_pos hrunning]
        cases c with
        | sample s => exact (hrecorded.sample hrunning now s).1
        | reader => exact hrecorded.quiet (by rw [hstep]; rfl) (by rw [hstep]; rfl) rfl
        | reconnect => exact hrecorded.quiet (by rw [hstep]; rfl) (by rw [hstep]; rfl) rfl
        | sessionId id => exact hrecorded.quiet (by rw [hstep]; rfl) (by rw [hstep]; rfl) rfl
        | change change effective =>
            have hsame : (w.step (.command now (.change change effective))).1.pass.job.tracker =
                w.pass.job.tracker := by
              rw [hstep]
              simp only [LeaderPass.command]
              split <;> rfl
            by_cases hnow : effective.getD now ≤ now ∧ effective.getD now ≤ i64Max
            · exact hrecorded.idle hsame (hclean hrunning hnow.1 hnow.2) rfl
            · apply hrecorded.quiet hsame _ rfl
              rw [hstep]
              simp only [LeaderPass.command, timeline]
              split
              · next t hchange => exact changeTimeline_later hchange hnow
              · rfl
  · have hstep : (w.step a).1 = w := by
      simp only [LeaderWorker.step, if_neg hrunning]
    apply hrecorded.quiet
    · rw [hstep]
    · rw [hstep]
    · cases a with
      | finish => rfl
      | command now c => cases c <;> simp [observation, hrunning]

theorem Recorded.justified (hrecorded : Recorded h w) (a : LeaderStep) : Justified h w a := by
  cases a with
  | finish => trivial
  | command now c =>
      cases c with
      | sample s =>
          by_cases hrunning : w.running = true
          · exact (hrecorded.sample hrunning now s).2
          · intro hchanged
            have hstep : (w.step (.command now (.sample s))).1 = w := by
              simp only [LeaderWorker.step, if_neg hrunning]
            exact absurd (by rw [hstep]) hchanged
      | _ => trivial

theorem recorded_start {config : LeaderConfig} {session generatedId : Bytes16} {now : Nat}
    {job : LeaderJob} (hnew : LeaderJob.new config session generatedId now = .ok job) :
    Recorded ⟨[], false⟩ (start job) := by
  obtain ⟨-, hjob⟩ := LeaderJob.new_eq_ok hnew
  refine ⟨?_, fun _ => rfl⟩
  rw [hjob]
  exact Tracker.Idle.backed ⟨rfl, rfl⟩ []

/-- In every run of a leader in which controls and promotions take effect only while
the tracker holds no evidence, a discontinuity that a sample introduces on its own
account rests on samples since the trajectory last changed. -/
theorem evidence_cleared {config : LeaderConfig} {session generatedId : Bytes16} {now : Nat}
    {job : LeaderJob} (hnew : LeaderJob.new config session generatedId now = .ok job)
    {as : List LeaderStep} (hclean : Machine.Along step Undisturbed (start job) as) :
    ∀ before a, before ++ [a] <+: as →
      Justified (history (start job) before) (Machine.run step (start job) before) a := by
  intro before a hinit
  have hbefore : before <+: as := (List.prefix_append before [a]).trans hinit
  have hrecorded : Recorded (history (start job) before) (Machine.run step (start job) before) :=
    Machine.recorded_invariant (fun _ _ _ hrecorded hguard => hrecorded.step hguard)
      (recorded_start hnew) (hclean.of_initial hbefore)
  exact hrecorded.justified a

/-- A sample ten frames ahead of the start, just after a time. -/
def jump (time : Nat) : LeaderStep :=
  .command (time + 1) (.sample ⟨time, Position.fromFixed (10 * q32), none, false⟩)

/-- A return to the start at once. -/
def seekStart (now : Nat) : LeaderStep := .command now (.change (.seek Position.zero) none)

/-- Three jumps after a control are a discontinuity. -/
theorem evidence_cleared_of_jumps : ∃ job,
    LeaderJob.new trackedConfig Bytes16.zero Bytes16.zero 1000 = .ok job ∧
      (Machine.run step (start job)
        [.command 1600 (.sample firstSample), seekStart 2000, jump 2500, jump 3500]).Discontinuous
          (jump 4500) ∧
      Justified
        (history (start job)
          [.command 1600 (.sample firstSample), seekStart 2000, jump 2500, jump 3500])
        (Machine.run step (start job)
          [.command 1600 (.sample firstSample), seekStart 2000, jump 2500, jump 3500])
        (jump 4500) := by
  have hnew := LeaderJob.new_ok trackedConfig Bytes16.zero Bytes16.zero (by decide : 1000 ≤ i64Max)
  refine ⟨_, hnew, by decide +kernel, ?_⟩
  apply evidence_cleared hnew _ _ _ List.prefix_rfl
  decide +kernel

/-- Two jumps, a control, and a single jump overrides the control. -/
theorem evidence_survives_control : ¬ ∀ (config : LeaderConfig) (session generatedId : Bytes16)
    (now : Nat) (job : LeaderJob), LeaderJob.new config session generatedId now = .ok job →
      ∀ as before a, before ++ [a] <+: as →
        Justified (history (start job) before) (Machine.run step (start job) before) a := by
  intro hclaim
  have hnew := LeaderJob.new_ok trackedConfig Bytes16.zero Bytes16.zero (by decide : 1000 ≤ i64Max)
  have hjustified := hclaim _ _ _ _ _ hnew
    [.command 1600 (.sample firstSample), jump 2500, jump 3500, seekStart 4000, jump 4500]
    [.command 1600 (.sample firstSample), jump 2500, jump 3500, seekStart 4000] (jump 4500)
    List.prefix_rfl
  rcases hjustified (by decide +kernel) rfl (by simp) with hfirst | hjumping | hspeeding
  · revert hfirst
    decide +kernel
  · have hweight := hjumping.le_sum
    revert hweight
    decide +kernel
  · have hweight := hspeeding.le_sum
    revert hweight
    decide +kernel

end LeaderWorker

end Tidkod
