import Mathlib.Tactic
import Mathlib.Data.List.Sort
import Mathlib.Algebra.Order.Monoid.WithTop
import Tidkod.Protocol.Timecode

/-!
The affine clock estimator (`clock.rs`). Floating-point values are exact
rationals; `f64::INFINITY` is the top element of `WithTop ℚ` where it can be
stored, and the start value of a fold elsewhere. Deques are lists with the
front at the head.
-/

namespace Tidkod

/-- Maximum complete exchange duration, including leader residence time. -/
def maxExchangeNs : Nat := 500000000

/-- Accepted history older than this, relative to the newest midpoint, expires. -/
def historyNs : ℚ := 32000000000

/-- Growth of uncertainty with age: ±500 ppm of oscillator change against a
fitted drift within ±500 ppm. -/
def holdoverGrowth : ℚ := 1 / 1000

/-- The ±500 ppm bound on relative clock rates and on fitted drift. -/
def maxDrift : ℚ := 1 / 2000

/-- The scheduling floor of the uncertainty and the timestamp allowance of the
offset evidence. -/
def timestampAllowance : ℚ := 100000

/-- Four monotonic nanosecond timestamps in the NTP convention. -/
structure Exchange where
  t1 : Nat
  t2 : Nat
  t3 : Nat
  t4 : Nat
  deriving DecidableEq, Repr

structure Sample where
  localNs : ℚ
  offset : ℚ
  delay : ℚ
  duration : ℚ
  deriving DecidableEq

structure OffsetEvidence where
  referenceNs : Nat
  lowerNs : ℚ
  upperNs : ℚ
  samples : Nat
  deriving DecidableEq

def OffsetEvidence.consistent (e : OffsetEvidence) : Bool := e.lowerNs ≤ e.upperNs

/-- The interval at another local time; an empty one stays empty. -/
def OffsetEvidence.at (e : OffsetEvidence) (localNs : Nat) : OffsetEvidence :=
  if e.consistent then
    let growth := |(localNs : ℚ) - e.referenceNs| * maxDrift
    { e with
      referenceNs := localNs
      lowerNs := e.lowerNs - growth
      upperNs := e.upperNs + growth }
  else e

/-- Leader time = local time + offset + (local - reference) * drift. -/
structure ClockMapping where
  referenceNs : Nat
  offsetNs : ℚ
  drift : ℚ
  uncertaintyNs : WithTop ℚ
  lastSampleNs : Nat
  converged : Bool
  acceptedObservations : Nat
  evidence : Option OffsetEvidence
  deriving DecidableEq

def ClockMapping.default : ClockMapping where
  referenceNs := 0
  offsetNs := 0
  drift := 0
  uncertaintyNs := ⊤
  lastSampleNs := 0
  converged := false
  acceptedObservations := 0
  evidence := none

def ClockMapping.offsetAt (m : ClockMapping) (localNs : Nat) : ℚ :=
  m.offsetNs + ((localNs : ℚ) - m.referenceNs) * m.drift

def ClockMapping.leaderTime (m : ClockMapping) (localNs : Nat) : Nat :=
  asU64 (max 0 (min (localNs + m.offsetAt localNs) i64Max))

def ClockMapping.uncertaintyAt (m : ClockMapping) (localNs : Nat) : WithTop ℚ :=
  m.uncertaintyNs + (((localNs - m.lastSampleNs : Nat) * holdoverGrowth : ℚ) : WithTop ℚ)

/-- One entry of the diagnostic trace. -/
structure ClockObservation where
  exchange : Exchange
  accepted : Bool
  publicationNs : Option Nat
  processingDelayNs : Nat
  mapping : ClockMapping
  deriving DecidableEq

structure ClockEstimator where
  samples : List Sample
  mapping : ClockMapping
  recovery : List Sample
  lastObserved : Option ℚ
  trace : List ClockObservation
  deriving DecidableEq

def ClockEstimator.default : ClockEstimator :=
  ⟨[], ClockMapping.default, [], none, []⟩

def ClockEstimator.recovering (c : ClockEstimator) : Bool := !c.recovery.isEmpty

/-- `pop_front` until at most `n` entries remain. -/
@[irreducible] def keepLast {α : Type} (n : Nat) (xs : List α) : List α := xs.drop (xs.length - n)

/-- `fold(f64::INFINITY, f64::min)`. -/
def foldMin (xs : List ℚ) : WithTop ℚ := xs.foldl (fun acc x => min acc (x : WithTop ℚ)) ⊤

/-- `fold(f64::NEG_INFINITY, f64::max)`. -/
def foldMax (xs : List ℚ) : WithBot ℚ := xs.foldl (fun acc x => max acc (x : WithBot ℚ)) ⊥

namespace Exchange

def delay (e : Exchange) : Int := ((e.t4 - e.t1 : Nat) : Int) - ((e.t3 - e.t2 : Nat) : Int)

def duration (e : Exchange) : Nat := e.t4 - e.t1

/-- Ordered timestamps in the supported range, a bounded duration and a
nonnegative bounded delay. -/
def admissible (e : Exchange) : Bool :=
  !(e.t4 < e.t1 || e.t3 < e.t2 || [e.t1, e.t2, e.t3, e.t4].any (fun x => i64Max < x)) &&
    !(maxExchangeNs < e.t4 - e.t1) &&
    (0 ≤ e.delay && e.delay ≤ 500000000)

def midpoint (e : Exchange) : ℚ := (e.t1 : ℚ) + ((e.t4 - e.t1 : Nat) : ℚ) / 2

def offset (e : Exchange) : ℚ :=
  ((((e.t2 : Int) - e.t1) + ((e.t3 : Int) - e.t4) : Int) : ℚ) / 2

def sample (e : Exchange) : Sample where
  localNs := e.midpoint
  offset := e.offset
  delay := e.delay
  duration := e.duration

end Exchange

/-- Lowest delay first; equal delays prefer the newest observation. -/
def Sample.before (a b : Sample) : Prop :=
  a.delay < b.delay ∨ a.delay = b.delay ∧ b.localNs ≤ a.localNs

instance (a b : Sample) : Decidable (a.before b) :=
  inferInstanceAs (Decidable (_ ∨ _))

/-- The lowest-delay half of the history, at least four where available. -/
def selectSamples (samples : List Sample) : List Sample :=
  (samples.insertionSort Sample.before).take
    (min (max (samples.length / 2) 4) samples.length)

namespace ClockEstimator

/-- `pop_front` while the front is older than the history bound. -/
def expire (samples : List Sample) (localNs : ℚ) : List Sample :=
  samples.dropWhile (fun s => historyNs < localNs - s.localNs)

def rejectedDelay (samples : List Sample) (s : Sample) : Bool :=
  8 ≤ samples.length &&
    decide (foldMin (samples.map Sample.delay) + ((20000000 : ℚ) : WithTop ℚ) < (s.delay : ℚ))

def rejectedOffset (c : ClockEstimator) (e : Exchange) : Bool :=
  !c.samples.isEmpty && c.mapping.converged &&
    decide (c.mapping.uncertaintyAt e.t4 + ((e.delay / 2 + 5000000 : ℚ) : WithTop ℚ) <
      (|e.offset - c.mapping.offsetAt (asU64 e.midpoint)| : ℚ))

/-- Agreement of an outlier with the first quarantined one. -/
def consistentWith (drift : ℚ) (first s : Sample) : Bool :=
  let phase := s.offset - first.offset - (s.localNs - first.localNs) * drift
  |phase| ≤ max (first.delay / 4) 2000000 &&
    |s.delay - first.delay| ≤ max (first.delay / 4) 5000000 &&
    s.localNs - first.localNs ≤ 5000000000

/-- The quarantine after an outlier: restarted when inconsistent, bounded to 16. -/
def quarantine (c : ClockEstimator) (s : Sample) : List Sample :=
  let kept :=
    match c.recovery.head? with
    | none => c.recovery
    | some first => if consistentWith c.mapping.drift first s then c.recovery else []
  keepLast 16 (kept ++ [s])

/-- Eight quarantined observations that span at least 500 ms. -/
def confirmed (recovery : List Sample) (s : Sample) : Bool :=
  8 ≤ recovery.length &&
    recovery.head?.any (fun first => 500000000 ≤ s.localNs - first.localNs)

/-- Drift of the selected samples, or the previous one when they are too few or
span too little time. Sums are centred at the newest midpoint. -/
def fitDrift (selected : List Sample) (localNs previous : ℚ) : ℚ :=
  let count : ℚ := selected.length
  let x := (selected.map (fun s => s.localNs - localNs)).sum / count
  let y := (selected.map Sample.offset).sum / count
  let xx := (selected.map (fun s => (s.localNs - localNs - x) ^ 2)).sum
  let xy := (selected.map (fun s => (s.localNs - localNs - x) * (s.offset - y))).sum
  let supportStart := (foldMin (selected.map Sample.localNs)).untopD 0
  let supportEnd := (foldMax (selected.map Sample.localNs)).unbotD 0
  if 8 ≤ selected.length ∧ 2000000000 ≤ supportEnd - supportStart ∧ 0 < xx then
    max (-maxDrift) (min (xy / xx) maxDrift)
  else previous

/-- The fitted offset at the newest midpoint. -/
def fitOffset (selected : List Sample) (localNs drift : ℚ) : ℚ :=
  let count : ℚ := selected.length
  let x := (selected.map (fun s => s.localNs - localNs)).sum / count
  let y := (selected.map Sample.offset).sum / count
  y - drift * x

/-- The largest distance of a selected sample from the fit. -/
def fitResidual (selected : List Sample) (localNs offset drift : ℚ) : ℚ :=
  (selected.map (fun s => |s.offset - (offset + drift * (s.localNs - localNs))|)).foldl max 0

/-- Half width of the offset interval of one sample, propagated to `t4`. -/
def evidenceRadius (t4 : Nat) (s : Sample) : ℚ :=
  s.delay / 2 + maxDrift * (|(t4 : ℚ) - s.localNs| + s.duration / 2) + timestampAllowance

/-- The mapping fitted to a history whose newest member is the observed
exchange. -/
def fit (samples : List Sample) (e : Exchange) (previousDrift : ℚ) (acceptedObservations : Nat) :
    ClockMapping :=
  let selected := selectSamples samples
  let drift := fitDrift selected e.midpoint previousDrift
  let offset := fitOffset selected e.midpoint drift
  let residual := fitResidual selected e.midpoint offset drift
  let span := (samples.getLast?.map Sample.localNs).getD 0 -
    (samples.head?.map Sample.localNs).getD 0
  { referenceNs := asU64 e.midpoint
    offsetNs := offset
    drift := drift
    uncertaintyNs :=
      foldMin (selected.map
        (fun s => s.delay / 2 + max ((e.t4 : ℚ) - s.localNs) 0 * holdoverGrowth)) +
        ((residual + timestampAllowance : ℚ) : WithTop ℚ)
    lastSampleNs := e.t4
    converged := 12 ≤ samples.length && decide (500000000 ≤ span)
    acceptedObservations := acceptedObservations
    evidence := some
      { referenceNs := e.t4
        lowerNs := (foldMax (samples.map (fun s => s.offset - evidenceRadius e.t4 s))).unbotD 0
        upperNs := (foldMin (samples.map (fun s => s.offset + evidenceRadius e.t4 s))).untopD 0
        samples := samples.length } }

/-- The history is bounded to 128 samples before it is fitted. -/
def refit (c : ClockEstimator) (e : Exchange) (acceptedObservations : Nat) : ClockEstimator :=
  let samples := keepLast 128 c.samples
  { c with
    samples := samples
    mapping := fit samples e c.mapping.drift acceptedObservations }

/-- The decision on an exchange with a new midpoint, after the history has
been expired: quarantine, promotion of the quarantine, or plain acceptance. -/
def decideSample (c : ClockEstimator) (e : Exchange) : ClockEstimator × Bool :=
  let s := e.sample
  if rejectedDelay c.samples s || c.rejectedOffset e then
    let recovery := c.quarantine s
    if confirmed recovery s then
      (refit { c with samples := recovery, recovery := [] } e recovery.length, true)
    else
      ({ c with recovery := recovery }, false)
  else
    let acceptedObservations :=
      if c.samples.isEmpty then 1 else min (c.mapping.acceptedObservations + 1) u64Max
    (refit { c with samples := c.samples ++ [s], recovery := [] } e acceptedObservations, true)

def observeInner (c : ClockEstimator) (e : Exchange) : ClockEstimator × Bool :=
  if !e.admissible then (c, false)
  else if c.lastObserved.any (fun last => e.midpoint ≤ last) then (c, false)
  else
    decideSample
      { c with
        lastObserved := some e.midpoint
        samples := expire c.samples e.midpoint } e

def observeTimed (c : ClockEstimator) (e : Exchange) (publicationNs : Option Nat)
    (processedNs : Nat) : ClockEstimator × Bool :=
  let (next, accepted) := c.observeInner e
  let kept := if next.trace.length = 128 then next.trace.drop 1 else next.trace
  ({ next with
      trace := kept ++
        [{ exchange := e
           accepted := accepted
           publicationNs := publicationNs
           processingDelayNs := processedNs - e.t4
           mapping := next.mapping }] }, accepted)

end ClockEstimator

end Tidkod
