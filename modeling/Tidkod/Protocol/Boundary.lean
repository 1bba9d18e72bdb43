import Mathlib.Tactic
import Tidkod.Lib.Bisection
import Tidkod.Protocol.OutputMotion

/-!
Local deadlines evaluated against one reader snapshot (`boundary.rs`). The next
deadline is the next crossing of an integer position, unless a scheduled control takes
effect before it. Both are found by bisection over local nanoseconds. The values that
`next_boundary` names on its way are definitions here.
-/

namespace Tidkod

open Rounding Bisection

inductive BoundaryKind where
  /-- The next strictly future integer crossing in the playback direction. -/
  | frame
  /-- A scheduled control takes effect. -/
  | scheduledChange
  deriving DecidableEq

structure Boundary where
  localDeadlineNs : Nat
  position : Position
  discontinuity : Nat
  kind : BoundaryKind
  uncertaintyNs : WithTop ℚ
  deriving DecidableEq

/-- The next integer strictly beyond a position, in Q32 units: `target`. -/
def frameTarget (rate : Rate) (fixed : Int) : Int :=
  if 0 < rate.numerator then (fixed / q32 + 1) * q32
  else (fixed / q32 - (if fixed % q32 = 0 then 1 else 0)) * q32

namespace View

/-- The first entry of the schedule later than `leader_now`. -/
def unapplied (v : View) (localNs : Nat) : Option Scheduled :=
  v.timeline.scheduled.find? (fun s => v.mapping.leaderTime localNs < s.anchor.timeNs)

/-- When that entry takes effect: `scheduled`. -/
def changeDeadline (v : View) (localNs : Nat) : Option Nat :=
  (v.unapplied localNs).bind fun s =>
    first (fun t => s.anchor.timeNs ≤ v.mapping.leaderTime t) (localNs + 1) i64Max

def frameEnd (v : View) (localNs : Nat) : Nat :=
  (v.changeDeadline localNs).elim i64Max (fun t => t - 1)

/-- The output has reached `target` at a local time, in the direction of `rate`. -/
def reached (v : View) (rate : Rate) (target : Int) (localNs : Nat) : Bool :=
  if 0 < rate.numerator then target ≤ (v.evaluate localNs).position.fixed
  else (v.evaluate localNs).position.fixed ≤ target

def target (v : View) (localNs : Nat) : Int :=
  frameTarget (v.evaluate localNs).rate (v.evaluate localNs).position.fixed

/-- The search for the crossing: `frame`. -/
def frameDeadline (v : View) (localNs : Nat) : Option Nat :=
  if (v.evaluate localNs).rate.numerator = 0 then none
  else first (v.reached (v.evaluate localNs).rate (v.target localNs)) (localNs + 1)
    (v.frameEnd localNs)

/-- A slew reduces the phase velocity by at most a tenth; controls do not slew. -/
def deadlineUncertainty (v : View) (localNs deadline : Nat) (kind : BoundaryKind) : WithTop ℚ :=
  (if v.localClock then 0 else v.mapping.uncertaintyAt deadline).map (fun u =>
    u / (1 + v.mapping.drift -
      (if kind = .frame ∧ (v.evaluate localNs).status.correctionFrames ≠ 0 then 1 / 10 else 0)))

def boundaryAt (v : View) (localNs deadline : Nat) (kind : BoundaryKind) (position : Position) :
    Boundary where
  localDeadlineNs := deadline
  position := position
  discontinuity := (v.evaluate deadline).discontinuity
  kind := kind
  uncertaintyNs := v.deadlineUncertainty localNs deadline kind

def nextBoundary (v : View) (localNs : Nat) : Option Boundary :=
  -- `checked_add`
  if u64Max < localNs + 1 then none
  else if i64Max < localNs + 1 ∨
      (v.evaluate localNs).status.synchronization = .uninitialized then none
  else
    match v.frameDeadline localNs with
    | some t => some (v.boundaryAt localNs t .frame (Position.fromFixed (v.target localNs)))
    | none =>
        (v.changeDeadline localNs).map fun t =>
          v.boundaryAt localNs t .scheduledChange (v.evaluate t).position

variable {v : View} {localNs : Nat}

theorem nextBoundary_eq (hclock : v.Known) (htime : localNs < i64Max) :
    v.nextBoundary localNs =
      match v.frameDeadline localNs with
      | some t => some (v.boundaryAt localNs t .frame (Position.fromFixed (v.target localNs)))
      | none =>
          (v.changeDeadline localNs).map fun t =>
            v.boundaryAt localNs t .scheduledChange (v.evaluate t).position := by
  have hrange : ¬ u64Max < localNs + 1 := by
    simp only [u64Max, i64Max] at htime ⊢
    omega
  have hopen : ¬ (i64Max < localNs + 1 ∨
      (v.evaluate localNs).status.synchronization = .uninitialized) := by
    simp only [not_or, not_lt]
    exact ⟨htime, (v.known_iff localNs).mp hclock⟩
  rw [nextBoundary, if_neg hrange, if_neg hopen]

/-- Every result is one of the two kinds of deadline. -/
inductive BoundaryOutcome (v : View) (localNs : Nat) : Option Boundary → Prop where
  | frame (t : Nat) (hframe : v.frameDeadline localNs = some t) :
      BoundaryOutcome v localNs
        (some (v.boundaryAt localNs t .frame (Position.fromFixed (v.target localNs))))
  | change (t : Nat) (hframe : v.frameDeadline localNs = none)
      (hchange : v.changeDeadline localNs = some t) :
      BoundaryOutcome v localNs
        (some (v.boundaryAt localNs t .scheduledChange (v.evaluate t).position))
  | nothing (hframe : v.frameDeadline localNs = none)
      (hchange : v.changeDeadline localNs = none) : BoundaryOutcome v localNs none

theorem nextBoundary_outcome (hclock : v.Known) (htime : localNs < i64Max) :
    BoundaryOutcome v localNs (v.nextBoundary localNs) := by
  rw [nextBoundary_eq hclock htime]
  cases hframe : v.frameDeadline localNs with
  | some t => exact .frame t hframe
  | none =>
      cases hchange : v.changeDeadline localNs with
      | some t => exact .change t hframe hchange
      | none => exact .nothing hframe hchange

end View

end Tidkod
