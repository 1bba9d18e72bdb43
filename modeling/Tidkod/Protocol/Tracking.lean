import Mathlib.Tactic
import Tidkod.Protocol.Timeline

/-!
Timestamped tracking of an external source (`tracking.rs`). A sample either
refines the position of the current trajectory or, when it carries or implies a
jump or a change of speed, starts a new one under the next discontinuity id and
drops the schedule. The tracker keeps what it learned before an error, so it is
returned next to the result.
-/

namespace Tidkod

open Rounding

structure SourceSample where
  timestampNs : Nat
  position : Position
  rateHint : Option Rate
  discontinuity : Bool
  deriving DecidableEq

structure Tracker where
  last : Option SourceSample
  candidate : Option (ℚ × Nat)
  jumps : Nat
  jumpsSign : Int
  deriving DecidableEq

namespace Tracker

def default : Tracker := ⟨none, none, 0, 0⟩

/-- Speed inferred from two samples at least a millisecond apart. -/
def inferred (tr : Tracker) (t : Timeline) (s : SourceSample) : Option ℚ :=
  tr.last.bind fun p =>
    let elapsed : ℚ := ((s.timestampNs - p.timestampNs : Nat) : ℚ) / 1000000000
    if 1 / 1000 ≤ elapsed then
      some (((s.position.fixed - p.position.fixed : Int) : ℚ) / q32 /
        (elapsed * t.format.fps))
    else none

def speed (tr : Tracker) (t : Timeline) (s : SourceSample) : ℚ :=
  max (-64) (min (((s.rateHint.map Rate.asF64).or (tr.inferred t s)).getD t.anchor.rate.asF64) 64)

/-- Distance of the sample from the trajectory, in frames. -/
def error (t : Timeline) (s : SourceSample) : ℚ :=
  ((s.position.fixed - (t.anchor.at s.timestampNs t.format).fixed : Int) : ℚ) / q32

/-- Consecutive jumps by more than a frame in one direction. -/
def countJumps (tr : Tracker) (error : ℚ) : Tracker :=
  if 1 < |error| then
    let sign : Int := if 0 < error then 1 else -1
    let jumps := if sign ≠ tr.jumpsSign then 0 else tr.jumps
    { tr with jumpsSign := sign, jumps := jumps + 1 }
  else { tr with jumps := 0 }

/-- The rate after the sample, and whether it is a change: a hint at once, an
inferred speed when three samples agree on it. -/
def decideRate (tr : Tracker) (t : Timeline) (s : SourceSample) (speed : ℚ) :
    Tracker × Except Error (Rate × Bool) :=
  match s.rateHint.filter (fun hint => hint ≠ t.anchor.rate) with
  | some hint => (tr, .ok (hint, true))
  | none =>
      if 1 / 50 < |speed - t.anchor.rate.asF64| then
        let count :=
          ((tr.candidate.filter (fun p => |p.1 - speed| < 1 / 20)).map (fun p => p.2 + 1)).getD 1
        if 3 ≤ count then
          match Rate.new (Rounding.round (speed * 10000)) 10000 with
          | .ok rate => ({ tr with candidate := none }, .ok (rate, true))
          | .error e => ({ tr with candidate := some (speed, count) }, .error e)
        else ({ tr with candidate := some (speed, count) }, .ok (t.anchor.rate, false))
      else ({ tr with candidate := none }, .ok (t.anchor.rate, false))

/-- A refining sample pulls the position a fifth of the way, at most a fiftieth
of a frame. -/
def refinedPosition (t : Timeline) (s : SourceSample) : Position :=
  Position.fromFixed ((t.anchor.at s.timestampNs t.format).fixed +
    asI128 (max (-1 / 10) (min (error t s) (1 / 10)) * (1 / 5) * q32))

/-- The reply says whether the sample introduced a discontinuity. -/
def sample (tr : Tracker) (t : Timeline) (s : SourceSample) (now : Nat) :
    (Tracker × Timeline) × Except Error Bool :=
  if t.sourceKind ≠ .tracked then ((tr, t), .error (.invalid "source is not tracked"))
  else if now < s.timestampNs ∨ tr.last.any (fun p => s.timestampNs ≤ p.timestampNs) then
    ((tr, t), .error (.invalid "source timestamps must increase and not be in the future"))
  else
    let speed := tr.speed t s
    let jumped := tr.countJumps (error t s)
    let changed := s.discontinuity || tr.last.isNone || decide (3 ≤ jumped.jumps)
    let jumped := { jumped with jumps := if 3 ≤ jumped.jumps then 0 else jumped.jumps }
    match jumped.decideRate t s speed with
    | (decided, .error e) => ((decided, t), .error e)
    | (decided, .ok (rate, rateChanged)) =>
        if changed || rateChanged then
          (({ decided with jumps := 0, jumpsSign := 0, candidate := none, last := some s },
            { t with
              anchor := ⟨s.timestampNs, s.position, rate⟩
              sourceHealth := .healthy
              discontinuity := t.discontinuity + 1
              scheduled := [] }), .ok true)
        else
          (({ decided with last := some s },
            { t with
              anchor := ⟨s.timestampNs, refinedPosition t s, rate⟩
              sourceHealth := .healthy }), .ok false)

def health (tr : Tracker) (now timeout : Nat) : SourceHealth :=
  if tr.last.all (fun s => timeout < now - s.timestampNs) then .degraded else .healthy

/-- The condition under which a sample starts a new trajectory. -/
def startsTrajectory (tr : Tracker) (t : Timeline) (s : SourceSample) (now : Nat) : Bool :=
  decide (t.sourceKind = .tracked) &&
    !decide (now < s.timestampNs ∨ tr.last.any (fun p => s.timestampNs ≤ p.timestampNs)) &&
    let jumped := tr.countJumps (error t s)
    let changed := s.discontinuity || tr.last.isNone || decide (3 ≤ jumped.jumps)
    let jumped := { jumped with jumps := if 3 ≤ jumped.jumps then 0 else jumped.jumps }
    match (jumped.decideRate t s (tr.speed t s)).2 with
    | .ok (_, rateChanged) => changed || rateChanged
    | .error _ => false

theorem sample_eq_true_iff (tr : Tracker) (t : Timeline) (s : SourceSample) (now : Nat) :
    (tr.sample t s now).2 = .ok true ↔ tr.startsTrajectory t s now = true := by
  unfold sample startsTrajectory
  split_ifs with htracked htime
  · simp [htracked]
  · simp [htime]
  · dsimp only
    split
    · next hdecided => simp [hdecided]
    · next decided rate rateChanged hdecided =>
        simp only [hdecided, not_not.mp htracked, htime, decide_true, decide_false, Bool.not_false,
          Bool.true_and]
        split_ifs with hchanged
        · simp [hchanged]
        · simp [hchanged]

/-- The possible effects of a sample on the timeline. -/
inductive SampleOutcome (tr : Tracker) (t : Timeline) (s : SourceSample) (now : Nat) :
    (Tracker × Timeline) × Except Error Bool → Prop where
  | failed (next : Tracker) (e : Error) : SampleOutcome tr t s now ((next, t), .error e)
  | changed (htracked : t.sourceKind = .tracked) (htime : s.timestampNs ≤ now) (next : Tracker)
      (hlast : next.last = some s) (rate : Rate) :
      SampleOutcome tr t s now
        ((next,
          { t with
            anchor := ⟨s.timestampNs, s.position, rate⟩
            sourceHealth := .healthy
            discontinuity := t.discontinuity + 1
            scheduled := [] }), .ok true)
  | refined (htracked : t.sourceKind = .tracked) (htime : s.timestampNs ≤ now) (next : Tracker)
      (hlast : next.last = some s) (position : Position) :
      SampleOutcome tr t s now
        ((next,
          { t with
            anchor := ⟨s.timestampNs, position, t.anchor.rate⟩
            sourceHealth := .healthy }), .ok false)

/-- Without a change of rate the decided rate is the present one. -/
theorem decideRate_unchanged {tr decided : Tracker} {t : Timeline} {s : SourceSample} {speed : ℚ}
    {rate : Rate} (h : tr.decideRate t s speed = (decided, .ok (rate, false))) :
    rate = t.anchor.rate := by
  unfold decideRate at h
  split at h
  · simp at h
  · dsimp only at h
    split_ifs at h
    · split at h <;> simp at h
    · simp only [Prod.mk.injEq, Except.ok.injEq, and_true] at h
      exact h.2.symm
    · simp only [Prod.mk.injEq, Except.ok.injEq, and_true] at h
      exact h.2.symm

theorem sample_outcome (tr : Tracker) (t : Timeline) (s : SourceSample) (now : Nat) :
    SampleOutcome tr t s now (tr.sample t s now) := by
  unfold sample
  split_ifs with htracked htime
  · exact .failed tr _
  · exact .failed tr _
  · have hkind : t.sourceKind = .tracked := not_not.mp htracked
    have hpast : s.timestampNs ≤ now := not_lt.mp (not_or.mp htime).1
    dsimp only
    split
    · exact .failed _ _
    · next decided rate rateChanged hdecided =>
        split_ifs with hchanged
        · exact .changed hkind hpast _ rfl rate
        · have hsame : rateChanged = false := by
            simp only [Bool.or_eq_true, not_or, Bool.not_eq_true] at hchanged
            exact hchanged.2
          rw [hsame] at hdecided
          rw [decideRate_unchanged hdecided]
          exact .refined hkind hpast _ rfl _

end Tracker

end Tidkod
