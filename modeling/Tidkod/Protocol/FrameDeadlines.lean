import Mathlib.Tactic
import Tidkod.Protocol.FirstCrossing

/-!
Frames enumerated by their deadlines. A client that calls `next_boundary` with the
deadline before is given frames in their order between two scheduled changes: wherever
in a crossing a deadline lies, the output there is at the frame returned and not yet at
the next one, so the next call is for the next frame. A frame is left out when a slew
takes the output back from it right before a change, because the search for a crossing
looks at the end of its range first.
-/

namespace Tidkod

open Rounding Bisection

/-- The direction of playback, in frames. -/
def Rate.heading (r : Rate) : Int := if 0 < r.numerator then 1 else -1

namespace View

/-- The results of up to `n` calls, each at the deadline of the one before. -/
def deadlines (v : View) : Nat → Nat → List Boundary
  | 0, _ => []
  | n + 1, localNs =>
      match v.nextBoundary localNs with
      | none => []
      | some b => b :: deadlines v n b.localDeadlineNs

/-- The rate at which the output plays at a deadline. -/
def rateAt (v : View) (b : Boundary) : Rate := (v.evaluate b.localDeadlineNs).rate

/-- At the deadline the output has just reached a whole frame, and not the next one. -/
def JustReached (v : View) (b : Boundary) : Prop :=
  ∃ k : Int, b.position.fixed = k * q32 ∧
    v.reached (v.rateAt b) (k * q32) b.localDeadlineNs = true ∧
    v.reached (v.rateAt b) ((k + (v.rateAt b).heading) * q32) b.localDeadlineNs = false ∧
    v.reached (v.rateAt b) (k * q32) (b.localDeadlineNs - 1) = false

/-- Two frames in a row are consecutive in the direction of playback. -/
def Follows (v : View) (b next : Boundary) : Prop :=
  b.kind = .frame → next.kind = .frame →
    next.position.fixed = b.position.fixed + (v.rateAt b).heading * q32 ∧
      v.rateAt next = v.rateAt b

/-- The local times of up to `n` calls. -/
def callTimes (v : View) : Nat → Nat → List Nat
  | 0, _ => []
  | n + 1, localNs =>
      localNs ::
        match v.nextBoundary localNs with
        | none => []
        | some b => callTimes v n b.localDeadlineNs

/-- A frame that the output reaches before the deadline, or ever if there is none, is the one
that the call returns. -/
def Unskipped (v : View) (localNs : Nat) (result : Option Boundary) : Prop :=
  (v.evaluate localNs).rate.numerator ≠ 0 →
    ∀ k, NextInteger (v.evaluate localNs).rate (v.evaluate localNs).position k →
      ∀ u, localNs < u → u < result.elim (i64Max + 1) Boundary.localDeadlineNs →
        v.reached (v.evaluate localNs).rate (k * q32) u = true →
          ∃ b ∈ result, b.kind = .frame ∧ b.position.fixed = k * q32

structure Enumerates (v : View) (n start : Nat) : Prop where
  increasing : (start :: (v.deadlines n start).map Boundary.localDeadlineNs).Pairwise (· < ·)
  consecutive : (v.deadlines n start).IsChain v.Follows
  reached : ∀ b ∈ v.deadlines n start, b.kind = .frame → v.JustReached b
  unskipped : ∀ t ∈ v.callTimes n start, v.Unskipped t (v.nextBoundary t)

/-- Where the output reaches the next integer before the next change, it has reached it, or
reached it again, at the last nanosecond before the change. -/
def KeepsFrame (v : View) (localNs : Nat) : Prop :=
  (v.evaluate localNs).rate.numerator ≠ 0 →
    ∀ k, NextInteger (v.evaluate localNs).rate (v.evaluate localNs).position k →
      ∀ e, v.LastQuiet localNs e → ∀ u, localNs < u → u ≤ e →
        v.reached (v.evaluate localNs).rate (k * q32) u = true →
          v.reached (v.evaluate localNs).rate (k * q32) e = true

variable {v : View} {localNs : Nat}

/-- A position is not beyond the next integer. -/
theorem not_reached_of_nextInteger {k : Int} {t : Nat}
    (h : NextInteger (v.evaluate localNs).rate (v.evaluate t).position k) :
    v.reached (v.evaluate localNs).rate (k * q32) t = false := by
  unfold NextInteger at h
  unfold reached
  split_ifs at h ⊢
  · exact decide_eq_false (not_le.mpr h.1)
  · exact decide_eq_false (not_le.mpr h.1)

/-- Between the frame that was reached and the next one lies no other. -/
theorem nextInteger_of_reached {rate : Rate} {k : Int} {t : Nat}
    (hreached : v.reached rate (k * q32) t = true)
    (hnext : v.reached rate ((k + rate.heading) * q32) t = false) :
    NextInteger rate (v.evaluate t).position (k + rate.heading) := by
  unfold reached at hreached hnext
  unfold NextInteger Rate.heading at *
  split_ifs at * with hforward
  · have hlo := of_decide_eq_true hreached
    have hhi := not_le.mp (of_decide_eq_false hnext)
    exact ⟨hhi, by rwa [add_sub_cancel_right]⟩
  · have hhi := of_decide_eq_true hreached
    have hlo := not_le.mp (of_decide_eq_false hnext)
    exact ⟨hlo, by rwa [neg_add_cancel_right]⟩

/-- What one call returns. -/
theorem nextBoundary_step (hclock : v.Known) (hdrift : |v.mapping.drift| ≤ maxDrift)
    (hvalid : v.timeline.Valid) (hslew : 0 ≤ v.slewFramesPerSecond) (htime : localNs < i64Max)
    {b : Boundary} (h : v.nextBoundary localNs = some b) :
    localNs < b.localDeadlineNs ∧ (b.kind = .frame →
      v.JustReached b ∧ v.rateAt b = (v.evaluate localNs).rate ∧
        b.position.fixed = v.target localNs) := by
  have houtcome := nextBoundary_outcome hclock htime
  rw [h] at houtcome
  cases houtcome with
  | change t hframe hchange =>
      exact ⟨(changeDeadline_spec hvalid hchange).1, fun hkind => by cases hkind⟩
  | frame t hframe =>
      obtain ⟨hmoving, hlo, hhi, hholds, hturn⟩ := frameDeadline_spec hframe
      refine ⟨hlo, fun _ => ?_⟩
      obtain ⟨-, -, hquiet, -⟩ := lastQuiet_frameEnd hvalid htime
      have hquiet' : v.Quiet localNs t := hquiet.anti hdrift hhi
      have hrate : (v.evaluate t).rate = (v.evaluate localNs).rate := by
        rw [evaluate_rate hclock.1, evaluate_rate hclock.1, hquiet'.entry hclock hdrift hlo.le]
      obtain ⟨k, hk, htarget⟩ := v.target_eq localNs
      have hposition := (fixed_target hholds).trans htarget
      -- One nanosecond earlier the output was before the frame.
      have hbefore : v.reached (v.evaluate localNs).rate (k * q32) (t - 1) = false := by
        rcases hturn with rfl | hturn
        · rw [Nat.add_sub_cancel]
          exact not_reached_of_nextInteger hk
        · rwa [htarget] at hturn
      obtain ⟨u, rfl⟩ : ∃ u, t = u + 1 := ⟨t - 1, by omega⟩
      rw [Nat.add_sub_cancel] at hbefore
      have hstep := hquiet'.abs_fixed_succ_sub_lt hclock hdrift hslew (by omega)
      have hnext : v.reached (v.evaluate localNs).rate
          ((k + (v.evaluate localNs).rate.heading) * q32) (u + 1) = false := by
        unfold reached at hbefore ⊢
        unfold Rate.heading
        rw [Int.abs_eq_natAbs] at hstep
        split_ifs at hbefore ⊢ with hforward
        · have hlt := not_le.mp (of_decide_eq_false hbefore)
          apply decide_eq_false
          rw [add_mul, one_mul]
          omega
        · have hlt := not_le.mp (of_decide_eq_false hbefore)
          apply decide_eq_false
          rw [add_mul, neg_one_mul]
          omega
      refine ⟨⟨k, hposition, ?_, ?_, ?_⟩, hrate, fixed_target hholds⟩
      · change v.reached (v.evaluate (u + 1)).rate _ (u + 1) = true
        rw [hrate, ← htarget]
        exact hholds
      · change v.reached (v.evaluate (u + 1)).rate (_ * _) (u + 1) = false
        rw [rateAt, boundaryAt, hrate]
        exact hnext
      · change v.reached (v.evaluate (u + 1)).rate _ u = false
        rw [hrate]
        exact hbefore

/-- Two calls in a row that both return frames return consecutive ones. -/
theorem follows_of_step (hclock : v.Known) (hdrift : |v.mapping.drift| ≤ maxDrift)
    (hvalid : v.timeline.Valid) (hslew : 0 ≤ v.slewFramesPerSecond) (htime : localNs < i64Max)
    {b next : Boundary} (hb : v.nextBoundary localNs = some b)
    (htime' : b.localDeadlineNs < i64Max) (hnext : v.nextBoundary b.localDeadlineNs = some next) :
    v.Follows b next := by
  intro hkind hkind'
  obtain ⟨-, hfirst⟩ := nextBoundary_step hclock hdrift hvalid hslew htime hb
  obtain ⟨-, hsecond⟩ := nextBoundary_step hclock hdrift hvalid hslew htime' hnext
  obtain ⟨⟨k, hposition, hreached, hbeyond, -⟩, -, -⟩ := hfirst hkind
  obtain ⟨-, hrate, htarget⟩ := hsecond hkind'
  refine ⟨?_, hrate⟩
  have hinteger := nextInteger_of_reached hreached hbeyond
  rw [htarget, hposition, ← add_mul]
  exact (nextInteger_iff _ _ _).mp hinteger

theorem nextBoundary_eq_none (htime : i64Max ≤ localNs) : v.nextBoundary localNs = none := by
  unfold nextBoundary
  split_ifs with hrange hopen
  · rfl
  · rfl
  · exact absurd (Or.inl (Nat.lt_succ_of_le htime)) hopen

/-- The deadlines increase, two frames in a row are consecutive, and each frame has just been
reached at its deadline. -/
theorem deadlines_ordered (hclock : v.Known) (hdrift : |v.mapping.drift| ≤ maxDrift)
    (hvalid : v.timeline.Valid) (hslew : 0 ≤ v.slewFramesPerSecond) (n start : Nat) :
    (start :: (v.deadlines n start).map Boundary.localDeadlineNs).Pairwise (· < ·) ∧
      (v.deadlines n start).IsChain v.Follows ∧
        ∀ b ∈ v.deadlines n start, b.kind = .frame → v.JustReached b := by
  induction n generalizing start with
  | zero => exact ⟨List.pairwise_singleton _ _, .nil, by simp [deadlines]⟩
  | succ n ih =>
      rw [deadlines]
      by_cases htime : start < i64Max
      · cases hb : v.nextBoundary start with
        | none => exact ⟨List.pairwise_singleton _ _, .nil, by simp⟩
        | some b =>
            obtain ⟨hlater, hframe⟩ := nextBoundary_step hclock hdrift hvalid hslew htime hb
            obtain ⟨hincreasing, hconsecutive, hreached⟩ := ih b.localDeadlineNs
            refine ⟨?_, ?_, ?_⟩
            · rw [List.map_cons]
              apply List.pairwise_cons.mpr
              refine ⟨fun d hd => ?_, hincreasing⟩
              rcases List.mem_cons.mp hd with rfl | hmem
              · exact hlater
              · exact hlater.trans ((List.pairwise_cons.mp hincreasing).1 d hmem)
            · apply List.isChain_cons.mpr
              refine ⟨fun next hnext => ?_, hconsecutive⟩
              -- The head of the rest is what the next call returns.
              have hcall : v.nextBoundary b.localDeadlineNs = some next := by
                cases n with
                | zero => cases hnext
                | succ n =>
                    rw [deadlines] at hnext
                    split at hnext
                    · cases hnext
                    · next hsome => rw [hsome]; exact hnext
              have htime' : b.localDeadlineNs < i64Max := by
                by_contra hend
                rw [nextBoundary_eq_none (not_lt.mp hend)] at hcall
                cases hcall
              exact follows_of_step hclock hdrift hvalid hslew htime hb htime' hcall
            · intro c hc hkind
              rcases List.mem_cons.mp hc with rfl | hmem
              · exact (hframe hkind).1
              · exact hreached c hmem hkind
      · rw [nextBoundary_eq_none (not_lt.mp htime)]
        exact ⟨List.pairwise_singleton _ _, .nil, by simp⟩

/-- The search for a crossing asks the end of its range first. -/
theorem frameDeadline_eq_none_iff (hmoving : (v.evaluate localNs).rate.numerator ≠ 0) {u : Nat}
    (hlo : localNs < u) (hhi : u ≤ v.frameEnd localNs) :
    v.frameDeadline localNs = none ↔
      v.reached (v.evaluate localNs).rate (v.target localNs) (v.frameEnd localNs) = false := by
  rw [frameDeadline, if_neg hmoving, first_eq_none_iff]
  constructor
  · rintro (hempty | hend)
    · omega
    · exact hend
  · exact Or.inr

/-- No call skips a frame that it can still see at the end of its range. -/
theorem unskipped_iff (hclock : v.Known) (hdrift : |v.mapping.drift| ≤ maxDrift)
    (hvalid : v.timeline.Valid) (localNs : Nat) :
    v.Unskipped localNs (v.nextBoundary localNs) ↔ v.KeepsFrame localNs := by
  by_cases htime : localNs < i64Max
  · have hlast := lastQuiet_frameEnd hvalid htime
    obtain ⟨j, hj, htarget⟩ := v.target_eq localNs
    have hsame {k : Int} (hk : NextInteger (v.evaluate localNs).rate
        (v.evaluate localNs).position k) : k * (q32 : Int) = v.target localNs :=
      ((nextInteger_iff _ _ _).mp hk).symm
    have houtcome := nextBoundary_outcome hclock htime
    generalize v.nextBoundary localNs = result at houtcome
    constructor
    · intro hunskipped hmoving k hk e he u hlo hhi hreached
      obtain rfl := he.unique hdrift hlast
      by_contra hleft
      rw [hsame hk, Bool.not_eq_true] at hleft
      have hnone := (frameDeadline_eq_none_iff hmoving hlo hhi).mpr hleft
      cases houtcome with
      | frame t hframe =>
          rw [hnone] at hframe
          cases hframe
      | change t hframe hchange =>
          obtain ⟨hbefore, -⟩ := changeDeadline_spec hvalid hchange
          have hend := frameEnd_of_change hchange
          have hdeadline : u < t := by omega
          obtain ⟨b, hb, hkind, -⟩ := hunskipped hmoving k hk u hlo hdeadline hreached
          obtain rfl := Option.some.inj hb
          cases hkind
      | nothing hframe hchange =>
          have hend := frameEnd_of_no_change hchange
          have hdeadline : u < i64Max + 1 := by omega
          obtain ⟨b, hb, -⟩ := hunskipped hmoving k hk u hlo hdeadline hreached
          cases hb
    · intro hkeeps hmoving k hk u hlo hu hreached
      have hfound (hhi : u ≤ v.frameEnd localNs) : v.frameDeadline localNs ≠ none := by
        intro hnone
        have hleft := (frameDeadline_eq_none_iff hmoving hlo hhi).mp hnone
        rw [← hsame hk, hkeeps hmoving k hk _ hlast u hlo hhi hreached] at hleft
        cases hleft
      cases houtcome with
      | frame t hframe =>
          obtain ⟨-, -, -, hholds, -⟩ := frameDeadline_spec hframe
          exact ⟨_, rfl, rfl, (fixed_target hholds).trans (hsame hk).symm⟩
      | change t hframe hchange =>
          have hend := frameEnd_of_change hchange
          change u < t at hu
          exact absurd hframe (hfound (by omega))
      | nothing hframe hchange =>
          have hend := frameEnd_of_no_change hchange
          change u < i64Max + 1 at hu
          exact absurd hframe (hfound (by omega))
  · -- Nothing lies beyond the range of local time.
    rw [nextBoundary_eq_none (not_lt.mp htime)]
    constructor
    · intro _ _ k _ e he u hlo hhi
      exact absurd he.2.1 (by omega)
    · intro _ _ k _ u hlo hu
      simp only [Option.elim_none] at hu
      omega

/-- A search that finds the first crossing skips none. -/
theorem keepsFrame_of_probesSound (h : v.ProbesSound localNs) : v.KeepsFrame localNs := by
  intro hmoving k hk e he u hlo hhi hreached
  obtain ⟨c, hc, -⟩ := exists_isFirst hlo hhi hreached
  exact (h hmoving k hk e he c hc).1

/-- For a view with a known clock, a bounded drift, a valid timeline and a slew that
runs forward, from every start and for any number of calls: the deadlines increase,
two frames in a row are consecutive integers in the direction of playback, and each
frame has just been reached at its deadline, while the next one has not. No frame is
skipped if and only if, at every call, the output is still at the next frame right
before the next change if it has reached that frame at all. -/
theorem frame_deadlines_enumerate_iff (hclock : v.Known) (hdrift : |v.mapping.drift| ≤ maxDrift)
    (hvalid : v.timeline.Valid) (hslew : 0 ≤ v.slewFramesPerSecond) (n start : Nat) :
    v.Enumerates n start ↔ ∀ t ∈ v.callTimes n start, v.KeepsFrame t := by
  constructor
  · intro h t ht
    exact (unskipped_iff hclock hdrift hvalid t).mp (h.unskipped t ht)
  · intro hkeeps
    obtain ⟨hincreasing, hconsecutive, hreached⟩ :=
      deadlines_ordered hclock hdrift hvalid hslew n start
    refine ⟨hincreasing, hconsecutive, hreached, fun t ht => ?_⟩
    exact (unskipped_iff hclock hdrift hvalid t).mpr (hkeeps t ht)

/-- Also where the first deadline is not the first crossing. -/
theorem frame_deadlines_enumerate_of_slow :
    slowView.Enumerates 3 0 ∧
      (slowView.deadlines 3 0).map (fun b => b.position.frames) = [1, 2, 3] := by
  have hclock : slowView.Known := by decide
  have hdrift : |slowView.mapping.drift| ≤ maxDrift := by decide +kernel
  have hvalid : slowView.timeline.Valid := by decide
  have hfound : ∀ t ∈ slowView.callTimes 3 0,
      (slowView.frameDeadline t).isSome = true ∧ t < i64Max := by
    decide +kernel
  refine ⟨(frame_deadlines_enumerate_iff hclock hdrift hvalid (by decide +kernel) 3 0).mpr ?_,
    by decide +kernel⟩
  intro t ht
  obtain ⟨hsome, htime⟩ := hfound t ht
  intro hmoving k hk e he u hlo hhi _
  obtain rfl := he.unique hdrift (lastQuiet_frameEnd hvalid htime)
  by_contra hleft
  rw [← (nextInteger_iff _ _ _).mp hk] at hleft
  have hnone := (frameDeadline_eq_none_iff hmoving hlo hhi).mpr
    (Bool.eq_false_iff.mpr hleft)
  rw [hnone] at hsome
  cases hsome

/-- The slow shuttle between two changes. Its correction begins with the first, at 50 ns. -/
def skippingView : View :=
  { slowView with
    timeline :=
      { slowView.timeline with
        scheduled :=
          [⟨1, ⟨50, Position.zero, ⟨1, 10000, slow_admitted, slow_reduced⟩⟩⟩,
            ⟨2, ⟨170, Position.zero, ⟨1, 10000, slow_admitted, slow_reduced⟩⟩⟩] }
    correctionAt := 50
    correctionDiscontinuity := 1 }

/-- It shows frame 1 from 128 to 165 ns, and the call at 50 ns returns the change at 170 ns. -/
theorem frame_deadlines_skip_frame : ¬ ∀ (v : View) (n start : Nat), v.Known →
    |v.mapping.drift| ≤ maxDrift → v.timeline.Valid → 0 ≤ v.slewFramesPerSecond →
      v.Enumerates n start := by
  intro hclaim
  have hunskipped := (hclaim skippingView 2 0 (by decide) (by decide +kernel) (by decide)
    (by decide +kernel)).unskipped 50 (by decide +kernel)
  have hchange : (skippingView.nextBoundary 50).map (fun b => (b.localDeadlineNs, b.kind)) =
      some (170, .scheduledChange) := by
    decide +kernel
  obtain ⟨b, hb, hresult⟩ := Option.map_eq_some_iff.mp hchange
  obtain ⟨hdeadline, hkind⟩ := Prod.mk.inj hresult
  rw [hb] at hunskipped
  have hnext : NextInteger (skippingView.evaluate 50).rate (skippingView.evaluate 50).position 1 :=
    (nextInteger_iff _ _ _).mpr (by decide +kernel)
  obtain ⟨c, hc, hframe, -⟩ := hunskipped (by decide +kernel) 1 hnext 128 (by decide)
    (by rw [Option.elim_some, hdeadline]; decide) (by decide +kernel)
  obtain rfl := Option.some.inj hc
  rw [hkind] at hframe
  cases hframe

end View

end Tidkod
