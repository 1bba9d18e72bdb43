import Mathlib.Tactic
import Tidkod.Lib.Machine
import Tidkod.Protocol.TrackerSteps

/-!
How a tracker follows its source. A routine sample pulls the trajectory a fifth of the way
toward it, and a fiftieth of a frame at most. On a source that moves on a line at the
present rate the error therefore shrinks from sample to sample, until it is of the size
at which truncation to Q32 and the pull balance.
-/

namespace Tidkod

open Rounding

namespace Tracker

variable {tr : Tracker} {t : Timeline} {s : SourceSample} {now : Nat}

/-- Distance of a sample from the trajectory, in Q32 units. -/
def phase (t : Timeline) (s : SourceSample) : Int :=
  s.position.fixed - (t.anchor.at s.timestampNs t.format).fixed

/-- The pull of a routine sample, in Q32 units. -/
def pull (phase : Int) : Int :=
  asI128 (max (-1 / 10) (min ((phase : ℚ) / q32) (1 / 10)) * (1 / 5) * q32)

theorem refinedPosition_eq (t : Timeline) (s : SourceSample) :
    refinedPosition t s =
      Position.fromFixed ((t.anchor.at s.timestampNs t.format).fixed + pull (phase t s)) := rfl

theorem abs_error_le_one_iff (t : Timeline) (s : SourceSample) :
    |error t s| ≤ 1 ↔ |phase t s| ≤ q32 := by
  have hscale : |error t s| = ((|phase t s| : Int) : ℚ) / q32 := by
    rw [error, abs_div, abs_of_pos q32_pos, ← Int.cast_abs]
    rfl
  rw [hscale, div_le_one q32_pos]
  exact_mod_cast Iff.rfl

/-- A value clamped to a symmetric range keeps its sign and is no larger than the range. -/
theorem abs_clamped (x : ℚ) {bound : ℚ} (hbound : 0 ≤ bound) :
    |max (-bound) (min x bound)| = min |x| bound ∧ (0 ≤ x → 0 ≤ max (-bound) (min x bound)) ∧
      (x ≤ 0 → max (-bound) (min x bound) ≤ 0) := by
  rcases le_total 0 x with hx | hx
  · have hinside : 0 ≤ min x bound := le_min hx hbound
    rw [max_eq_right ((neg_nonpos.mpr hbound).trans hinside), abs_of_nonneg hinside,
      abs_of_nonneg hx]
    exact ⟨rfl, fun _ => hinside, fun hneg => (min_le_left x bound).trans hneg⟩
  · rw [min_eq_left (hx.trans hbound)]
    have hinside : max (-bound) x ≤ 0 := max_le (neg_nonpos.mpr hbound) hx
    refine ⟨?_, fun hpos => hpos.trans (le_max_right _ _), fun _ => hinside⟩
    rw [abs_of_nonpos hinside, abs_of_nonpos hx, ← min_neg_neg, neg_neg, min_comm]

/-- The pull is toward the sample, by a fifth of the distance and a fiftieth of a frame at
most, and by twelve units at least where the distance is sixty. -/
theorem pull_bounds (phase : Int) :
    5 * |pull phase| ≤ |phase| ∧ 50 * |pull phase| ≤ q32 ∧
      (0 ≤ phase → 0 ≤ pull phase) ∧ (phase ≤ 0 → pull phase ≤ 0) ∧
      (60 ≤ |phase| → 12 ≤ |pull phase|) := by
  have hq32 := q32_pos
  have htenth : 0 ≤ (q32 : ℚ) / 10 := by positivity
  obtain ⟨hsize, hup, hdown⟩ := abs_clamped (phase : ℚ) htenth
  generalize hclamped : max (-((q32 : ℚ) / 10)) (min (phase : ℚ) (q32 / 10)) = clamped
    at hsize hup hdown
  -- In Q32 units the clamp is at a tenth of a frame.
  have hscaled : max (-1 / 10) (min ((phase : ℚ) / q32) (1 / 10)) * (1 / 5) * q32 =
      clamped / 5 := by
    rw [← hclamped, mul_right_comm, max_mul_of_nonneg _ _ hq32.le, min_mul_of_nonneg _ _ hq32.le,
      div_mul_cancel₀ _ hq32.ne']
    ring_nf
  have hphase : ((|phase| : Int) : ℚ) = |(phase : ℚ)| := Int.cast_abs
  have hsmall : |clamped / 5| ≤ (q32 : ℚ) / 50 := by
    rw [abs_div, hsize]
    have hmin := min_le_right |(phase : ℚ)| ((q32 : ℚ) / 10)
    norm_num
    linarith
  have hpull : pull phase = trunc (clamped / 5) := by
    rw [pull, hscaled]
    apply asI128_eq_trunc
    exact hsmall.trans (by norm_num [q32])
  have hfifth : 5 * |(trunc (clamped / 5) : ℚ)| ≤ |(phase : ℚ)| := by
    have htrunc := abs_trunc_le (clamped / 5)
    have hmin := min_le_left |(phase : ℚ)| ((q32 : ℚ) / 10)
    rw [abs_div, hsize] at htrunc
    norm_num at htrunc
    linarith
  have hfiftieth : 50 * |(trunc (clamped / 5) : ℚ)| ≤ q32 := by
    have htrunc := abs_trunc_le (clamped / 5)
    linarith
  rw [hpull]
  refine ⟨?_, ?_, fun hpos => ?_, fun hneg => ?_, fun hfar => ?_⟩
  · exact_mod_cast hfifth
  · exact_mod_cast hfiftieth
  · exact trunc_nonneg (div_nonneg (hup (by exact_mod_cast hpos)) (by norm_num))
  · exact trunc_nonpos (div_nonpos_of_nonpos_of_nonneg (hdown (by exact_mod_cast hneg))
      (by norm_num))
  · have hlarge : (60 : ℚ) ≤ |clamped| := by
      rw [hsize]
      refine le_min ?_ (by norm_num [q32])
      rw [← hphase]
      exact_mod_cast hfar
    have htrunc := abs_lt_abs_trunc_add_one (clamped / 5)
    rw [abs_div] at htrunc
    norm_num at htrunc
    have hint : (11 : ℚ) < |(trunc (clamped / 5) : ℚ)| := by linarith
    have hcast : 11 < |trunc (clamped / 5)| := by exact_mod_cast hint
    omega

/-- A pulled position is representable: it is between the trajectory and the sample. -/
theorem fixed_refinedPosition (t : Timeline) (s : SourceSample) :
    (refinedPosition t s).fixed =
      (t.anchor.at s.timestampNs t.format).fixed + pull (phase t s) := by
  obtain ⟨hfifth, -, hup, hdown, -⟩ := pull_bounds (phase t s)
  have hfrom := (t.anchor.at s.timestampNs t.format).fixed_mem
  have hto := s.position.fixed_mem
  rw [refinedPosition_eq, Position.fixed_fromFixed]
  simp only [Int.abs_eq_natAbs] at hfifth
  unfold phase at *
  apply clamp_of_mem
  · omega
  · omega

/-- At its own time an anchor is where it is. -/
theorem anchor_at_self (time : Nat) (position : Position) (rate : Rate) (format : FrameFormat) :
    (⟨time, position, rate⟩ : Anchor).at time format = position := by
  apply Position.ext_fixed
  have helapsed : (⟨time, position, rate⟩ : Anchor).elapsed time = 0 := by
    simp only [Anchor.elapsed, sub_self]
    decide
  rw [Anchor.fixed_at, helapsed, Int.cast_zero, zero_mul, trunc_zero, add_zero]
  exact clamp_of_mem position.fixed_mem.1 position.fixed_mem.2

/-- A sample of a source on a line, in Q32 units, whose position was truncated. -/
def OnLine (velocity start : ℚ) (s : SourceSample) : Prop :=
  s.position.fixed = trunc (start + s.timestampNs * velocity)

section Line

variable {p : SourceSample} {start : ℚ}

/-- The estimate from two samples on a line, at least a millisecond apart. -/
theorem abs_estimate_sub_le {rate : Rate} {format : FrameFormat}
    (hlater : p.timestampNs < s.timestampNs) (hp : OnLine (velocity format rate) start p)
    (hs : OnLine (velocity format rate) start s)
    (hlong : 1 / 1000 ≤ ((s.timestampNs - p.timestampNs : Nat) : ℚ) / 1000000000) :
    |((s.position.fixed - p.position.fixed : Int) : ℚ) / q32 /
      (((s.timestampNs - p.timestampNs : Nat) : ℚ) / 1000000000 * format.fps) - rate.asF64| ≤
        1 / 50 := by
  have hq32 := q32_pos
  have hfps := format.one_le_fps
  have hspan : ((s.timestampNs - p.timestampNs : Nat) : ℚ) = s.timestampNs - p.timestampNs :=
    Nat.cast_sub hlater.le
  generalize hdistance : ((s.position.fixed - p.position.fixed : Int) : ℚ) = distance
  -- The distance is that of the line but for two truncations.
  have hrounded : |distance - ((s.timestampNs - p.timestampNs : Nat) : ℚ) *
      velocity format rate| ≤ 2 := by
    have hfrom := abs_sub_trunc_lt (start + p.timestampNs * velocity format rate)
    have hto := abs_sub_trunc_lt (start + s.timestampNs * velocity format rate)
    rw [← hp] at hfrom
    rw [← hs] at hto
    rw [← hdistance, Int.cast_sub, hspan, sub_mul]
    rw [abs_lt] at hfrom hto
    rw [abs_le]
    constructor <;> linarith
  generalize ((s.timestampNs - p.timestampNs : Nat) : ℚ) = span at hlong hrounded ⊢
  have helapsed : 1 / 1000 ≤ span / 1000000000 * format.fps := by
    calc (1 : ℚ) / 1000 = 1 / 1000 * 1 := (mul_one _).symm
      _ ≤ span / 1000000000 * format.fps := by gcongr
  have hpositive : 0 < span / 1000000000 * format.fps := lt_of_lt_of_le (by norm_num) helapsed
  have hrate : span * velocity format rate / q32 / (span / 1000000000 * format.fps) =
      rate.asF64 := by
    rw [velocity, ← mul_assoc, mul_div_cancel_right₀ _ hq32.ne', div_eq_iff hpositive.ne']
    ring
  calc |distance / q32 / (span / 1000000000 * format.fps) - rate.asF64|
      = |distance - span * velocity format rate| / q32 / (span / 1000000000 * format.fps) := by
        rw [← hrate, ← sub_div, ← sub_div, abs_div, abs_div, abs_of_pos hq32,
          abs_of_pos hpositive]
    _ ≤ 2 / q32 / (1 / 1000) := by gcongr
    _ ≤ 1 / 50 := by norm_num [q32]

/-- Two samples on the line of the present rate show that rate, but for the truncation. -/
theorem not_changed_of_onLine (hlast : tr.last = some p) (hlater : p.timestampNs < s.timestampNs)
    (hp : OnLine (velocity t.format t.anchor.rate) start p)
    (hs : OnLine (velocity t.format t.anchor.rate) start s) (hunhinted : Unhinted t s) :
    ¬ 1 / 50 < |tr.speed t s - t.anchor.rate.asF64| := by
  have hstill : ¬ 1 / 50 < |t.anchor.rate.asF64 - t.anchor.rate.asF64| := by
    rw [sub_self, abs_zero]
    norm_num
  unfold speed
  cases hhint : s.rateHint with
  | some hint =>
      rw [hunhinted hint hhint]
      change ¬ 1 / 50 < |max (-64) (min t.anchor.rate.asF64 64) - _|
      rwa [clamped_rate]
  | none =>
      unfold inferred
      rw [hlast, Option.bind_some]
      dsimp only
      split_ifs with hlong
      · have hestimate := abs_estimate_sub_le hlater hp hs hlong
        change ¬ 1 / 50 < |max (-64) (min _ 64) - _|
        rw [not_lt, ← clamped_rate t.anchor.rate, max_comm, max_comm (-64 : ℚ)]
        refine (abs_max_sub_max_le_abs _ _ _).trans ?_
        refine (abs_min_sub_min_le_max _ _ _ _).trans (max_le hestimate ?_)
        rw [sub_self, abs_zero]
        norm_num
      · change ¬ 1 / 50 < |max (-64) (min t.anchor.rate.asF64 64) - _|
        rwa [clamped_rate]

/-- The next error: what the pull leaves, but for a unit of rounding, and no more than that
where the trajectory reaches the end of the range of positions. -/
theorem phase_next {s' : SourceSample} {u : Timeline} {v : ℚ}
    (hs : OnLine v start s) (hs' : OnLine v start s')
    (hformat : velocity u.format u.anchor.rate = v) (htime : u.anchor.timeNs = s.timestampNs)
    (hposition : u.anchor.position = refinedPosition t s) (hlater : s.timestampNs < s'.timestampNs)
    (hgap : s'.timestampNs ≤ s.timestampNs + i64Max) :
    ∃ left, |left - (phase t s - pull (phase t s))| ≤ 1 ∧ |phase u s'| ≤ |left| ∧
      (0 ≤ left → 0 ≤ phase u s') ∧ (left ≤ 0 → phase u s' ≤ 0) ∧
      (Position.fixedMin + |left| ≤ s'.position.fixed →
        s'.position.fixed ≤ Position.fixedMax - |left| → phase u s' = left) := by
  have helapsed : u.anchor.elapsed s'.timestampNs =
      ((s'.timestampNs - s.timestampNs : Nat) : Int) := by
    simp only [Anchor.elapsed, htime, clamp, i64Min]
    omega
  have hline : start + (s'.timestampNs : ℚ) * v =
      start + s.timestampNs * v + ((s'.timestampNs - s.timestampNs : Nat) : ℚ) * v := by
    rw [Nat.cast_sub hlater.le]
    ring
  have hrounded := abs_trunc_add_sub_le (start + s.timestampNs * v)
    (((s'.timestampNs - s.timestampNs : Nat) : ℚ) * v)
  have hphase : phase t s = s.position.fixed - (t.anchor.at s.timestampNs t.format).fixed := rfl
  have hto := s'.position.fixed_mem
  rw [← hline, ← hs, ← hs'] at hrounded
  have hnext : phase u s' = s'.position.fixed - clamp Position.fixedMin Position.fixedMax
      ((t.anchor.at s.timestampNs t.format).fixed + pull (phase t s) +
        trunc (((s'.timestampNs - s.timestampNs : Nat) : ℚ) * v)) := by
    rw [phase, Anchor.fixed_at, hposition, fixed_refinedPosition, helapsed, hformat,
      Int.cast_natCast]
  rw [hnext]
  generalize trunc (((s'.timestampNs - s.timestampNs : Nat) : ℚ) * v) = moved at hrounded ⊢
  generalize (t.anchor.at s.timestampNs t.format).fixed = trajectory at hphase ⊢
  generalize pull (phase t s) = pulled at hphase ⊢
  refine ⟨s'.position.fixed - (trajectory + pulled + moved), ?_, ?_, ?_, ?_, ?_⟩
  all_goals
    simp only [Int.abs_eq_natAbs, clamp] at hrounded ⊢
    omega

end Line

/-- Samples of a source that goes on moving on the line of the present rate, without flags
and new hints, with the first of them at most a frame off. -/
structure Steady (tr : Tracker) (t : Timeline) (start : ℚ)
    (arrivals : List (SourceSample × Nat)) : Prop where
  tracked : t.sourceKind = .tracked
  last : ∃ p ∈ tr.last, OnLine (velocity t.format t.anchor.rate) start p ∧
    ∀ a ∈ arrivals.head?, p.timestampNs < a.1.timestampNs
  line : ∀ a ∈ arrivals, OnLine (velocity t.format t.anchor.rate) start a.1
  plain : ∀ a ∈ arrivals, a.1.discontinuity = false ∧ Unhinted t a.1
  past : ∀ a ∈ arrivals, a.1.timestampNs ≤ a.2
  order : (arrivals.map fun a => a.1.timestampNs).IsChain fun x y => x < y ∧ y ≤ x + i64Max
  close : ∀ a ∈ arrivals.head?, |phase t a.1| ≤ q32

/-- From one sample to the next an error of 64 units or more shrinks and does not change
sides, and a smaller one stays smaller. -/
def Settles (e e' : Int) : Prop :=
  (64 ≤ |e| → |e'| < |e| ∧ (0 < e → 0 ≤ e') ∧ (e < 0 → e' ≤ 0)) ∧ (|e| < 64 → |e'| < 64)

/-- An error of 64 units or more keeps its sign. -/
def KeepsSign (e e' : Int) : Prop := 64 ≤ |e| → (0 < e → 0 < e') ∧ (e < 0 → e' < 0)

/-- The position is at least a frame away from the ends of the range. -/
def Inside (s : SourceSample) : Prop :=
  Position.fixedMin + q32 ≤ s.position.fixed ∧ s.position.fixed ≤ Position.fixedMax - q32

/-- The timeline after a routine sample. -/
def followed (t : Timeline) (s : SourceSample) : Timeline :=
  { t with
    anchor := ⟨s.timestampNs, refinedPosition t s, t.anchor.rate⟩
    sourceHealth := .healthy }

theorem settles_followed {s' : SourceSample} {start : ℚ}
    (hs : OnLine (velocity t.format t.anchor.rate) start s)
    (hs' : OnLine (velocity t.format t.anchor.rate) start s')
    (hlater : s.timestampNs < s'.timestampNs) (hgap : s'.timestampNs ≤ s.timestampNs + i64Max)
    (hclose : |phase t s| ≤ q32) :
    Settles (phase t s) (phase (followed t s) s') ∧
      (Inside s' → KeepsSign (phase t s) (phase (followed t s) s')) ∧
      |phase (followed t s) s'| ≤ q32 := by
  obtain ⟨left, hleft, hsmaller, hup, hdown, hexact⟩ :=
    phase_next (u := followed t s) hs hs' rfl rfl rfl hlater hgap
  obtain ⟨hfifth, -, hpulledUp, hpulledDown, hfar⟩ := pull_bounds (phase t s)
  unfold Settles KeepsSign Inside
  generalize phase (followed t s) s' = e' at *
  generalize pull (phase t s) = pulled at *
  generalize phase t s = e at *
  simp only [Int.abs_eq_natAbs, q32] at *
  refine ⟨⟨fun hlarge => ⟨?_, ?_, ?_⟩, ?_⟩, fun hinside hlarge => ⟨?_, ?_⟩, ?_⟩
  all_goals omega

/-- The errors of a run of samples. -/
def phases (st : Tracker × Timeline) : List (SourceSample × Nat) → List Int
  | [] => []
  | a :: rest => phase st.2 a.1 :: phases (feed st a).1 rest

section Steady

variable {start : ℚ} {a : SourceSample × Nat} {rest : List (SourceSample × Nat)}

theorem Steady.accepts (h : Steady tr t start (a :: rest)) : tr.Accepts t a.1 a.2 := by
  obtain ⟨p, hp, -, hlater⟩ := h.last
  refine ⟨h.tracked, h.past a List.mem_cons_self, fun q hq => ?_⟩
  obtain rfl := Option.mem_unique hp hq
  exact hlater a rfl

theorem Steady.routine (h : Steady tr t start (a :: rest)) : ¬ tr.Introduces t a.1 := by
  obtain ⟨p, hp, honLine, hlater⟩ := h.last
  obtain ⟨hflag, hunhinted⟩ := h.plain a List.mem_cons_self
  rintro (hflagged | hfirst | hjumps | hchanged)
  · rw [hflag] at hflagged
    cases hflagged
  · rw [hfirst] at hp
    cases hp
  · have hsmall : ¬ 1 < |error t a.1| :=
      not_lt.mpr ((abs_error_le_one_iff t a.1).mpr (h.close a rfl))
    rw [countJumps, if_neg hsmall] at hjumps
    change 3 ≤ 0 at hjumps
    omega
  · exact not_changed_of_onLine hp (hlater a rfl) honLine (h.line a List.mem_cons_self)
      hunhinted hchanged.1

/-- One sample of a steady source. -/
theorem Steady.feed (h : Steady tr t start (a :: rest)) :
    (Tracker.feed (tr, t) a).2 = .ok false ∧
      Steady (Tracker.feed (tr, t) a).1.1 (Tracker.feed (tr, t) a).1.2 start rest ∧
      ∀ b ∈ rest.head?,
        Settles (phase t a.1) (phase (Tracker.feed (tr, t) a).1.2 b.1) ∧
          (Inside b.1 → KeepsSign (phase t a.1) (phase (Tracker.feed (tr, t) a).1.2 b.1)) := by
  have hfeed : Tracker.feed (tr, t) a = ((_, followed t a.1), .ok false) :=
    sample_of_not_introduces h.accepts (h.plain a List.mem_cons_self).2 h.routine
  rw [hfeed]
  have hsettled : ∀ b ∈ rest.head?, a.1.timestampNs < b.1.timestampNs ∧
      Settles (phase t a.1) (phase (followed t a.1) b.1) ∧
      (Inside b.1 → KeepsSign (phase t a.1) (phase (followed t a.1) b.1)) ∧
      |phase (followed t a.1) b.1| ≤ q32 := by
    intro b hb
    have horder := h.order
    cases rest with
    | nil => cases hb
    | cons c rest =>
        obtain rfl := Option.some.inj hb
        obtain ⟨⟨hlater, hgap⟩, -⟩ := List.isChain_cons_cons.mp horder
        exact ⟨hlater, settles_followed (h.line a List.mem_cons_self)
          (h.line c (List.mem_cons_of_mem a List.mem_cons_self)) hlater hgap (h.close a rfl)⟩
  refine ⟨rfl, ?_, fun b hb => ⟨(hsettled b hb).2.1, (hsettled b hb).2.2.1⟩⟩
  exact
    { tracked := h.tracked
      last := ⟨a.1, rfl, h.line a List.mem_cons_self, fun b hb => (hsettled b hb).1⟩
      line := fun b hb => h.line b (List.mem_cons_of_mem a hb)
      plain := fun b hb => h.plain b (List.mem_cons_of_mem a hb)
      past := fun b hb => h.past b (List.mem_cons_of_mem a hb)
      order := h.order.tail
      close := fun b hb => (hsettled b hb).2.2.2 }

/-- A steady source is followed without a discontinuity, and its error settles. -/
theorem Steady.run {arrivals : List (SourceSample × Nat)} (h : Steady tr t start arrivals) :
    (∀ reply ∈ Machine.outputs Tracker.feed (tr, t) arrivals, reply = .ok false) ∧
      (phases (tr, t) arrivals).IsChain Settles ∧
      ((∀ b ∈ arrivals, Inside b.1) → (phases (tr, t) arrivals).IsChain KeepsSign) := by
  induction arrivals generalizing tr t with
  | nil => exact ⟨by simp [Machine.outputs], .nil, fun _ => .nil⟩
  | cons a rest ih =>
      obtain ⟨hreply, hsteady, hsettles⟩ := h.feed
      obtain ⟨hreplies, hchain, hsigns⟩ := ih hsteady
      refine ⟨?_, ?_, fun hinside => ?_⟩
      · intro reply hmem
        rcases List.mem_cons.mp hmem with hfirst | hlater
        · exact hfirst.trans hreply
        · exact hreplies reply hlater
      · cases rest with
        | nil => exact .singleton _
        | cons b rest => exact List.isChain_cons_cons.mpr ⟨(hsettles b rfl).1, hchain⟩
      · have hlater : ∀ b ∈ rest, Inside b.1 := fun b hb =>
          hinside b (List.mem_cons_of_mem a hb)
        cases rest with
        | nil => exact .singleton _
        | cons b rest =>
            exact List.isChain_cons_cons.mpr
              ⟨(hsettles b rfl).2 (hlater b List.mem_cons_self), hsigns hlater⟩

end Steady

/-- The timeline after a discontinuity. -/
def restarted (t : Timeline) (s : SourceSample) (rate : Rate) : Timeline :=
  { t with
    anchor := ⟨s.timestampNs, s.position, rate⟩
    sourceHealth := .healthy
    discontinuity := t.discontinuity + 1
    scheduled := [] }

/-- What a sample does, whatever its hint. -/
theorem sample_cases (tr : Tracker) (t : Timeline) (s : SourceSample) (now : Nat) :
    (¬ tr.Accepts t s now ∧ ∃ e, tr.sample t s now = ((tr, t), .error e)) ∨
    (tr.Accepts t s now ∧ ∃ rate,
      tr.sample t s now = ((⟨some s, none, 0, 0⟩, restarted t s rate), .ok true)) ∨
    (tr.Accepts t s now ∧ ∃ next, tr.sample t s now = ((next, followed t s), .ok false)) := by
  by_cases haccepts : tr.Accepts t s now
  · refine Or.inr ?_
    by_cases hunhinted : Unhinted t s
    · by_cases hintroduces : tr.Introduces t s
      · exact Or.inl ⟨haccepts, sample_of_introduces haccepts hunhinted hintroduces⟩
      · exact Or.inr ⟨haccepts, _, sample_of_not_introduces haccepts hunhinted hintroduces⟩
    · simp only [Unhinted, not_forall] at hunhinted
      obtain ⟨hint, hmem, hnew⟩ := hunhinted
      exact Or.inl ⟨haccepts, hint, sample_of_hinted haccepts hmem hnew⟩
  · exact Or.inl ⟨haccepts, sample_of_not_accepts haccepts⟩

theorem not_accepts_iff (tr : Tracker) (t : Timeline) (s : SourceSample) (now : Nat) :
    ¬ tr.Accepts t s now ↔
      t.sourceKind ≠ .tracked ∨ now < s.timestampNs ∨
        ∃ p ∈ tr.last, s.timestampNs ≤ p.timestampNs := by
  simp only [Accepts, not_and_or, not_le, not_forall, not_lt, exists_prop, ne_eq]

/-- A routine update: everything but the position is kept, and at the time of the sample
the trajectory moves toward the sample by a fifth of its error at most, and by a tenth of
a frame at most, and not past it. -/
structure Nudges (t : Timeline) (s : SourceSample) (u : Timeline) : Prop where
  rate : u.anchor.rate = t.anchor.rate
  discontinuity : u.discontinuity = t.discontinuity
  scheduled : u.scheduled = t.scheduled
  session : u.session = t.session ∧ u.sessionId = t.sessionId
  format : u.format = t.format
  fifth : 5 * |(u.anchor.at s.timestampNs u.format).fixed -
    (t.anchor.at s.timestampNs t.format).fixed| ≤ |phase t s|
  tenth : 10 * |(u.anchor.at s.timestampNs u.format).fixed -
    (t.anchor.at s.timestampNs t.format).fixed| ≤ q32
  toward : |phase u s| ≤ |phase t s| ∧ (0 < phase t s → 0 ≤ phase u s) ∧
    (phase t s < 0 → phase u s ≤ 0)

/-- A discontinuity: the trajectory starts anew from the sample. -/
structure Restarts (t : Timeline) (s : SourceSample) (u : Timeline) : Prop where
  anchor : u.anchor.timeNs = s.timestampNs ∧ u.anchor.position = s.position
  discontinuity : u.discontinuity = t.discontinuity + 1
  scheduled : u.scheduled = []

theorem nudges_followed (t : Timeline) (s : SourceSample) : Nudges t s (followed t s) := by
  obtain ⟨hfifth, hfiftieth, hup, hdown, -⟩ := pull_bounds (phase t s)
  have hafter : ((followed t s).anchor.at s.timestampNs (followed t s).format).fixed =
      (t.anchor.at s.timestampNs t.format).fixed + pull (phase t s) := by
    rw [← fixed_refinedPosition]
    exact congrArg Position.fixed (anchor_at_self _ _ _ _)
  have hphase : phase (followed t s) s = phase t s - pull (phase t s) := by
    rw [phase, hafter, sub_add_eq_sub_sub]
    rfl
  refine ⟨rfl, rfl, rfl, ⟨rfl, rfl⟩, rfl, ?_, ?_, ?_⟩
  · rwa [hafter, add_sub_cancel_left]
  · rw [hafter, add_sub_cancel_left]
    have hnonneg := abs_nonneg (pull (phase t s))
    omega
  · rw [hphase]
    simp only [Int.abs_eq_natAbs] at hfifth ⊢
    omega

/-- Updates are atomic, bounded and convergent. A sample is refused exactly if the source is
not tracked or the time is wrong, and then nothing changes; it nudges the trajectory, or it
starts a new one. A source that goes on moving on the line of the present rate is followed
by nudges alone, and its error settles below 64 units. -/
theorem tracker_follows (tr : Tracker) (t : Timeline) (s : SourceSample) (now : Nat) :
    ((∃ e, (tr.sample t s now).2 = .error e) ↔
      t.sourceKind ≠ .tracked ∨ now < s.timestampNs ∨
        ∃ p ∈ tr.last, s.timestampNs ≤ p.timestampNs) ∧
    (∀ e, (tr.sample t s now).2 = .error e → (tr.sample t s now).1 = (tr, t)) ∧
    ((tr.sample t s now).2 = .ok false → Nudges t s (tr.sample t s now).1.2) ∧
    ((tr.sample t s now).2 = .ok true → Restarts t s (tr.sample t s now).1.2) ∧
    ∀ start arrivals, Steady tr t start arrivals →
      (∀ reply ∈ Machine.outputs feed (tr, t) arrivals, reply = .ok false) ∧
      (phases (tr, t) arrivals).IsChain Settles ∧
      (phases (tr, t) arrivals).Pairwise (fun e e' => |e| < 64 → |e'| < 64) ∧
      ((∀ a ∈ arrivals, Inside a.1) → (phases (tr, t) arrivals).IsChain KeepsSign) := by
  have hcases := sample_cases tr t s now
  generalize tr.sample t s now = result at hcases ⊢
  rw [← not_accepts_iff]
  refine ⟨?_, ?_, ?_, ?_, ?_⟩
  · rcases hcases with ⟨hrefused, e, rfl⟩ | ⟨haccepts, rate, rfl⟩ | ⟨haccepts, next, rfl⟩
    · exact ⟨fun _ => hrefused, fun _ => ⟨e, rfl⟩⟩
    · simp [haccepts]
    · simp [haccepts]
  · rcases hcases with ⟨-, e, rfl⟩ | ⟨-, rate, rfl⟩ | ⟨-, next, rfl⟩
    · exact fun _ _ => rfl
    · simp
    · simp
  · rcases hcases with ⟨-, e, rfl⟩ | ⟨-, rate, rfl⟩ | ⟨-, next, rfl⟩
    · simp
    · simp
    · exact fun _ => nudges_followed t s
  · rcases hcases with ⟨-, e, rfl⟩ | ⟨-, rate, rfl⟩ | ⟨-, next, rfl⟩
    · simp
    · exact fun _ => ⟨⟨rfl, rfl⟩, rfl, rfl⟩
    · simp
  · intro start arrivals hsteady
    obtain ⟨hreplies, hchain, hsigns⟩ := hsteady.run
    have htrans : Trans (fun e e' : Int => |e| < 64 → |e'| < 64)
        (fun e e' : Int => |e| < 64 → |e'| < 64) (fun e e' : Int => |e| < 64 → |e'| < 64) :=
      ⟨fun hfirst hsecond hsmall => hsecond (hfirst hsmall)⟩
    exact ⟨hreplies, hchain, (hchain.imp fun _ _ hsettles => hsettles.2).pairwise, hsigns⟩

/-- A timeline at a millionth of the normal speed. -/
def crawlingTimeline : Timeline :=
  { Timeline.default with
    sourceKind := .tracked
    anchor := ⟨0, Position.zero, ⟨1, 1000000, by decide, by decide⟩⟩ }

/-- A source that crawls along with it, a hundred Q32 units ahead. -/
def crawled (time : Nat) : SourceSample × Nat :=
  (⟨time, Position.fromFixed (trunc (100 + time * velocity crawlingTimeline.format
    crawlingTimeline.anchor.rate)), none, false⟩, time)

def crawlingTracker : Tracker := ⟨some (crawled 1000).1, none, 0, 0⟩

/-- Three samples of it, a second apart. -/
theorem crawling_steady : Steady crawlingTracker crawlingTimeline 100
    [crawled 1000000000, crawled 2000000000, crawled 3000000000] where
  tracked := rfl
  last := ⟨(crawled 1000).1, rfl, by unfold OnLine; decide +kernel, by decide +kernel⟩
  line := by
    unfold OnLine
    decide +kernel
  plain := by decide +kernel
  past := by decide +kernel
  order := by decide +kernel
  close := by decide +kernel

/-- They are followed without a discontinuity. -/
theorem tracker_follows_crawling :
    Machine.outputs feed (crawlingTracker, crawlingTimeline)
      [crawled 1000000000, crawled 2000000000, crawled 3000000000] =
        [.ok false, .ok false, .ok false] := by
  have hreplies := ((tracker_follows crawlingTracker crawlingTimeline (crawled 1000000000).1
    1000000000).2.2.2.2 _ _ crawling_steady).1
  exact List.eq_replicate_of_mem hreplies

/-- After more than 2^63 nanoseconds without a sample the elapsed time saturates, and the
trajectory is left behind. -/
theorem error_not_always_settles :
    ¬ ∀ (tr : Tracker) (t : Timeline) (start : ℚ) (arrivals : List (SourceSample × Nat)),
      t.sourceKind = .tracked →
      (∃ p ∈ tr.last, OnLine (velocity t.format t.anchor.rate) start p ∧
        ∀ a ∈ arrivals.head?, p.timestampNs < a.1.timestampNs) →
      (∀ a ∈ arrivals, OnLine (velocity t.format t.anchor.rate) start a.1) →
      (∀ a ∈ arrivals, a.1.discontinuity = false ∧ Unhinted t a.1) →
      (∀ a ∈ arrivals, a.1.timestampNs ≤ a.2 ∧ a.2 ≤ u64Max) →
      (arrivals.map fun a => a.1.timestampNs).IsChain (· < ·) →
      (∀ a ∈ arrivals.head?, |phase t a.1| ≤ q32) →
      (phases (tr, t) arrivals).IsChain Settles := by
  intro hclaim
  have hchain := hclaim crawlingTracker crawlingTimeline 100
    [crawled 1000000000, crawled 11000000000000000000] rfl
    ⟨(crawled 1000).1, rfl, by unfold OnLine; decide +kernel, by decide +kernel⟩
    (by unfold OnLine; decide +kernel) (by decide +kernel) (by decide +kernel)
    (by decide +kernel) (by decide +kernel)
  revert hchain
  unfold Settles
  decide +kernel

end Tracker

end Tidkod
