import Mathlib.Tactic
import Tidkod.Native.LeaderSteps

/-!
Freshness of discontinuity ids along every run of a leader. A run lists the
commands one by one with the ends of the passes between them, so that ids are
compared in every state a local reader can observe, also before a promotion.
Controls look past the ids that the schedule reserves; a tracked discontinuity
counts on from the active id only, and is fresh exactly when nothing is
scheduled.
-/

namespace Tidkod

open Timeline

inductive LeaderStep where
  | command (now : Nat) (c : Command)
  | finish (ending : PassEnd)
  deriving DecidableEq

/-- A pass in progress; an error ends the worker. -/
structure LeaderWorker where
  pass : LeaderPass
  running : Bool
  deriving DecidableEq

namespace LeaderWorker

def start (job : LeaderJob) : LeaderWorker := ⟨⟨job, false⟩, true⟩

def timeline (w : LeaderWorker) : Timeline := w.pass.job.timeline

def step (w : LeaderWorker) (a : LeaderStep) : LeaderWorker × Except NativeError Unit :=
  if w.running then
    match a with
    | .command now c => (⟨(w.pass.command (now, c)).1, true⟩, (w.pass.command (now, c)).2)
    | .finish ending =>
        match w.pass.finish ending with
        | .ok (job, _) => (start job, .ok ())
        | .error e => (⟨w.pass, false⟩, .error e)
  else (w, .ok ())

/-- The id a step introduces. -/
def introduced (w : LeaderWorker) : LeaderStep → Option Nat
  | .command now c => if w.running then w.pass.introduced (now, c) else none
  | .finish _ => none

/-- No sample starts a trajectory over a schedule. -/
def KeepsReserved (w : LeaderWorker) : LeaderStep → Prop
  | .command now c => w.running = true → w.pass.KeepsReserved (now, c)
  | .finish _ => True

instance (w : LeaderWorker) (a : LeaderStep) : Decidable (w.KeepsReserved a) :=
  match a with
  | .command _ _ => inferInstanceAs (Decidable (_ → _))
  | .finish _ => inferInstanceAs (Decidable True)

/-- The commands of a pass and its end, one by one. -/
def steps (p : Pass) : List LeaderStep :=
  p.commands.map (fun c => .command c.1 c.2) ++ [.finish p.ending]

theorem run_commands (s : LeaderPass) (commands : List (Nat × Command)) :
    Machine.run step ⟨s, true⟩ (commands.map (fun c => .command c.1 c.2)) =
      ⟨Machine.run LeaderPass.command s commands, true⟩ := by
  induction commands generalizing s with
  | nil => rfl
  | cons c rest ih => exact ih (s.command c).1

/-- Step by step, a pass is `progress`. -/
theorem run_steps (job : LeaderJob) (p : Pass) :
    Machine.run step (start job) (steps p) =
      match job.progress p with
      | .ok (next, _) => start next
      | .error _ => ⟨Machine.run LeaderPass.command ⟨job, false⟩ p.commands, false⟩ := by
  rw [steps, Machine.run_append, start, run_commands, LeaderJob.progress, Machine.run_cons,
    Machine.run_nil]
  simp only [step, if_true]
  cases (Machine.run LeaderPass.command ⟨job, false⟩ p.commands).finish p.ending <;> rfl

theorem step_queued {w : LeaderWorker} (h : w.timeline.Queued) (a : LeaderStep) :
    (w.step a).1.timeline.Queued := by
  unfold step
  split_ifs
  · cases a with
    | command now c => exact LeaderPass.command_queued h (now, c)
    | finish ending =>
        dsimp only
        split
        · next hfinish => exact (LeaderPass.finish_evolves h hfinish).1
        · exact h
  · exact h

theorem step_evolves {w : LeaderWorker} (h : w.timeline.Queued) {a : LeaderStep}
    (hkeeps : w.KeepsReserved a) :
    Evolves w.timeline (w.step a).1.timeline (w.introduced a) := by
  have hsame : Evolves w.timeline w.timeline none := h.evolves_same rfl rfl rfl (.refl _ _)
  by_cases hrunning : w.running = true
  · cases a with
    | command now c =>
        simp only [step, introduced, if_pos hrunning]
        exact LeaderPass.command_evolves h (hkeeps hrunning)
    | finish ending =>
        simp only [step, introduced, if_pos hrunning]
        cases hfinish : w.pass.finish ending with
        | ok result => exact (LeaderPass.finish_evolves h hfinish).2
        | error e => exact hsame
  · cases a <;> simpa only [step, introduced, if_neg hrunning] using hsame

/-- The induction over a run that keeps reserved ids apart. -/
theorem run_past {w : LeaderWorker} (h : w.timeline.Queued) {as : List LeaderStep}
    (hkeeps : Machine.Along step KeepsReserved w as) :
    Past w.timeline (Machine.run step w as).timeline :=
  (Machine.along_of_invariant (P := fun x => x.timeline.Queued ∧ Past w.timeline x.timeline)
    (Q := fun _ _ => True)
    (fun _ a hx hguard =>
      ⟨trivial, step_queued hx.1 a, hx.2.evolves (step_evolves hx.1 hguard)⟩)
    ⟨h, .refl h⟩ hkeeps).2.2

section Claims

variable (w : LeaderWorker) (as : List LeaderStep)

/-- Every id introduced along the run lies above every id that was active or
reserved in any state before. -/
def FreshIds : Prop :=
  ∀ before a, before ++ [a] <+: as →
    ∀ d ∈ introduced (Machine.run step w before) a,
      ∀ earlier, earlier <+: before →
        ∀ e ∈ (Machine.run step w earlier).timeline.entries, e.discontinuity < d

/-- An id names the same trajectory in every state of the run that has it. -/
def NamesOnce : Prop :=
  ∀ later, later <+: as → ∀ earlier, earlier <+: later →
    ∀ e ∈ (Machine.run step w earlier).timeline.entries,
      ∀ f ∈ (Machine.run step w later).timeline.entries,
        e.discontinuity = f.discontinuity →
          SameTrajectory w.timeline.sourceKind e f

/-- Local readers at non-decreasing times, each with any view published so far
or later, see no lower discontinuity. -/
def ReadersForward : Prop :=
  ∀ later, later <+: as → ∀ earlier, earlier <+: later → ∀ m n, m ≤ n → ∀ i j,
    ((leaderView (Machine.run step w earlier).timeline i).evaluate m).discontinuity ≤
      ((leaderView (Machine.run step w later).timeline j).evaluate n).discontinuity

end Claims

/-- Views of a leader read their timeline at the local time. -/
theorem leaderView_discontinuity (t : Timeline) (i m : Nat) :
    ((leaderView t i).evaluate m).discontinuity =
      t.discontinuityAt (asU64 (max 0 (min (m : ℚ) i64Max))) := by
  have htime : (leaderView t i).evaluationTime m = asU64 (max 0 (min (m : ℚ) i64Max)) := by
    have hoffset : (leaderView t i).mapping.offsetAt m = 0 := by
      simp [leaderView, ClockMapping.offsetAt, ClockMapping.default]
    have hsync : (leaderView t i).sync ≠ .uninitialized := by simp [leaderView]
    rw [View.evaluationTime, if_neg hsync, ClockMapping.leaderTime, hoffset, add_zero]
  rw [← htime]
  rfl

theorem readersForward_of_past {u t : Timeline} (h : Past u t) {m n : Nat} (hmn : m ≤ n)
    (i j : Nat) : ((leaderView u i).evaluate m).discontinuity ≤
      ((leaderView t j).evaluate n).discontinuity := by
  rw [leaderView_discontinuity, leaderView_discontinuity]
  have hcast : (m : ℚ) ≤ n := by exact_mod_cast hmn
  exact h.reads _ _
    (Rounding.toUnsigned_mono _ (max_le_max le_rfl (min_le_min hcast le_rfl)))

theorem queued_start {config : LeaderConfig} {session generatedId : Bytes16} {now : Nat}
    {job : LeaderJob} (h : LeaderJob.new config session generatedId now = .ok job) :
    (start job).timeline.Queued := by
  obtain ⟨-, hjob⟩ := LeaderJob.new_eq_ok h
  rw [hjob]
  exact queued_of_nil rfl

/-- In every run of a leader, whatever commands are interleaved with its passes:
ids are fresh, name one trajectory and move readers forward if and only if no
sample starts a trajectory while a change is scheduled. -/
theorem ids_fresh_iff {config : LeaderConfig} {session generatedId : Bytes16} {now : Nat}
    {job : LeaderJob} (hnew : LeaderJob.new config session generatedId now = .ok job)
    (as : List LeaderStep) :
    (FreshIds (start job) as ∧ NamesOnce (start job) as ∧ ReadersForward (start job) as) ↔
      Machine.Along step KeepsReserved (start job) as := by
  have hqueued (before : List LeaderStep) : (Machine.run step (start job) before).timeline.Queued :=
    Machine.run_invariant (P := fun x : LeaderWorker => x.timeline.Queued)
      (fun _ a hx => step_queued hx a) (queued_start hnew) before
  constructor
  · rintro ⟨hfresh, -, -⟩
    apply (Machine.along_iff_initial step _ _ _).mpr
    intro before a hinit
    by_contra hkeeps
    -- The sample introduces an id that the schedule in front of it reserves.
    have hreserved : ∃ d, introduced (Machine.run step (start job) before) a = some d ∧
        ∃ e ∈ (Machine.run step (start job) before).timeline.entries, d ≤ e.discontinuity := by
      cases a with
      | finish => exact absurd trivial hkeeps
      | command now c =>
          obtain ⟨hrunning, hkeeps⟩ := Classical.not_imp.mp hkeeps
          rw [introduced, if_pos hrunning]
          exact LeaderPass.exists_reserved_of_not_keepsReserved (hqueued before) hkeeps
    obtain ⟨d, hd, e, he, hle⟩ := hreserved
    exact absurd hle (hfresh before a hinit d hd before List.prefix_rfl e he).not_ge
  · intro hkeeps
    have hpast (later : List LeaderStep) (hlater : later <+: as) (earlier : List LeaderStep)
        (hearlier : earlier <+: later) :
        Past (Machine.run step (start job) earlier).timeline
          (Machine.run step (start job) later).timeline := by
      obtain ⟨between, rfl⟩ := hearlier
      have hrest := ((Machine.along_append step _ _ _ _).mp (hkeeps.of_initial hlater)).2
      rw [Machine.run_append]
      exact run_past (hqueued earlier) hrest
    refine ⟨?_, ?_, ?_⟩
    · intro before a hinit d hd earlier hearlier e he
      have hstep := (Machine.along_iff_initial step _ _ _).mp hkeeps before a hinit
      have hbefore : before <+: as := (List.prefix_append before [a]).trans hinit
      obtain ⟨f, hf, hef⟩ := (hpast before hbefore earlier hearlier).retains.exists_ge he
      exact hef.trans_lt ((step_evolves (hqueued before) hstep).fresh d hd f hf)
    · intro later hlater earlier hearlier e he f hf hid
      have hkind := (hpast earlier (hearlier.trans hlater) [] List.nil_prefix).kind
      have hsame := (hpast later hlater earlier hearlier).names e he f hf hid
      rwa [hkind] at hsame
    · intro later hlater earlier hearlier m n hmn i j
      exact readersForward_of_past (hpast later hlater earlier hearlier) hmn i j

/-- A jump scheduled one millisecond ahead. -/
def scheduledJump : LeaderStep :=
  .command 2000 (.change (.set (Position.fromFixed (100 * q32)) Rate.normal) (some 1002000))

/-- Sample first, then schedule, then jump at once: three ids. -/
theorem ids_fresh_iff_of_sample_first : ∃ job,
    LeaderJob.new trackedConfig Bytes16.zero Bytes16.zero 1000 = .ok job ∧
      FreshIds (start job) [.command 1600 (.sample firstSample), scheduledJump,
        .command 3000 (.change (.seek Position.zero) none), .finish ⟨4000, 0, 0⟩] ∧
      NamesOnce (start job) [.command 1600 (.sample firstSample), scheduledJump,
        .command 3000 (.change (.seek Position.zero) none), .finish ⟨4000, 0, 0⟩] ∧
      ReadersForward (start job) [.command 1600 (.sample firstSample), scheduledJump,
        .command 3000 (.change (.seek Position.zero) none), .finish ⟨4000, 0, 0⟩] :=
  have hnew := LeaderJob.new_ok trackedConfig Bytes16.zero Bytes16.zero (by decide : 1000 ≤ i64Max)
  ⟨_, hnew, (ids_fresh_iff hnew _).mpr (by decide +kernel)⟩

/-- The jump reserves id 1, and the first sample after it takes id 1 again. -/
theorem ids_reused_by_sample : ¬ ∀ (config : LeaderConfig) (session generatedId : Bytes16)
    (now : Nat) (job : LeaderJob), LeaderJob.new config session generatedId now = .ok job →
      ∀ as, FreshIds (start job) as ∧ NamesOnce (start job) as ∧ ReadersForward (start job) as := by
  intro hclaim
  have hnew := LeaderJob.new_ok trackedConfig Bytes16.zero Bytes16.zero (by decide : 1000 ≤ i64Max)
  have hfresh := (hclaim _ _ _ _ _ hnew [scheduledJump, .command 3000 (.sample firstSample)]).1
  have hlt := hfresh [scheduledJump] (.command 3000 (.sample firstSample)) List.prefix_rfl 1
    (by decide +kernel) [scheduledJump] List.prefix_rfl
  exact absurd hlt (by decide +kernel)

end LeaderWorker

end Tidkod
