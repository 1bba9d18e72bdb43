import Mathlib.Tactic
import Tidkod.Lib.Streak
import Tidkod.Protocol.Tracking

/-!
The evidence that a tracker counts. Samples in a row may agree that the source has jumped
or that it has changed its speed; here they are observations, listed newest first since
the counters were last cleared, and the counters stand for what the list confirms.
-/

namespace Tidkod

open Streak

/-- What a sample says about the trajectory in force when it is processed. -/
structure Observation where
  error : ℚ
  speed : ℚ
  rate : ℚ
  deriving DecidableEq

namespace Observation

/-- The position is off by more than a frame. -/
def Off (o : Observation) : Prop := 1 < |o.error|

def direction (o : Observation) : Int := if 0 < o.error then 1 else -1

def SameDirection (newer older : Observation) : Prop := newer.direction = older.direction

def ChangedSpeed (o : Observation) : Prop := 1 / 50 < |o.speed - o.rate|

def SameSpeed (newer older : Observation) : Prop := |older.speed - newer.speed| < 1 / 20

/-- The last `n` observations found jumps in one direction. -/
def Jumping (n : Nat) (since : List Observation) : Prop :=
  Confirmed Off SameDirection (fun _ => 1) n since

/-- The last `n` observations found one new speed. -/
def Speeding (n : Nat) (since : List Observation) : Prop :=
  Confirmed ChangedSpeed SameSpeed (fun _ => 1) n since

end Observation

open Observation

namespace Tracker

def observe (tr : Tracker) (t : Timeline) (s : SourceSample) : Observation :=
  ⟨error t s, tr.speed t s, t.anchor.rate.asF64⟩

/-- No jump and no candidate speed is being confirmed. -/
def Idle (tr : Tracker) : Prop := tr.jumps = 0 ∧ tr.candidate = none

instance (tr : Tracker) : Decidable tr.Idle := inferInstanceAs (Decidable (_ ∧ _))

/-- The counters stand for observations that were made. -/
structure Backed (tr : Tracker) (since : List Observation) : Prop where
  jumps : Jumping tr.jumps since
  direction : tr.jumps ≠ 0 → ∀ o ∈ since.head?, o.direction = tr.jumpsSign
  candidate : ∀ c ∈ tr.candidate, Speeding c.2 since ∧ ∀ o ∈ since.head?, o.speed = c.1

variable {tr : Tracker} {t : Timeline} {s : SourceSample} {since : List Observation}

theorem Idle.backed (h : tr.Idle) (since : List Observation) : tr.Backed since where
  jumps := by
    rw [h.1]
    exact confirmed_zero since
  direction := fun hjumps => absurd h.1 hjumps
  candidate := by
    intro c hc
    rw [h.2] at hc
    cases hc

theorem abs_speed_le (tr : Tracker) (t : Timeline) (s : SourceSample) : |tr.speed t s| ≤ 64 := by
  unfold speed
  apply abs_le.mpr
  exact ⟨le_max_left _ _, max_le (by norm_num) (min_le_right _ _)⟩

/-- A confirmed speed is a rate. -/
theorem exists_rate {speed : ℚ} (h : |speed| ≤ 64) :
    ∃ rate, Rate.new (Rounding.round (speed * 10000)) 10000 = .ok rate := by
  have hscaled : |speed * 10000| ≤ (640000 : ℕ) := by
    rw [abs_mul]
    norm_num
    linarith
  have hnum := Rounding.natAbs_round_le hscaled
  apply (Rate.new_ok_iff _ _).mpr
  exact ⟨by norm_num, by norm_num, hnum.trans (by norm_num), hnum⟩

theorem countJumps_candidate (tr : Tracker) (error : ℚ) :
    (tr.countJumps error).candidate = tr.candidate := by
  unfold countJumps
  split_ifs <;> rfl

/-- Counting a sample's error counts its observation. -/
theorem Backed.countJumps (h : tr.Backed since) (t : Timeline) (s : SourceSample) :
    Jumping (tr.countJumps (error t s)).jumps (tr.observe t s :: since) ∧
      ((tr.countJumps (error t s)).jumps ≠ 0 →
        (tr.observe t s).direction = (tr.countJumps (error t s)).jumpsSign) := by
  unfold Tracker.countJumps
  by_cases hoff : 1 < |error t s|
  · have hkind : (tr.observe t s).Off := hoff
    rw [if_pos hoff]
    refine ⟨?_, fun _ => rfl⟩
    change Jumping
      ((if (tr.observe t s).direction ≠ tr.jumpsSign then 0 else tr.jumps) + 1) _
    split_ifs with hsign
    · exact Confirmed.start hkind since
    · by_cases hjumps : tr.jumps = 0
      · rw [hjumps]
        exact Confirmed.start hkind since
      · rw [Nat.add_comm]
        apply h.jumps.cons hkind
        intro o ho
        exact (not_not.mp hsign).trans (h.direction hjumps o ho).symm
  · rw [if_neg hoff]
    exact ⟨confirmed_zero _, fun hjumps => absurd rfl hjumps⟩

/-- The candidate's count after a sample of changed speed. -/
theorem Backed.candidateCount (h : tr.Backed since)
    (hchanged : 1 / 50 < |tr.speed t s - t.anchor.rate.asF64|) :
    Speeding (((tr.candidate.filter (fun p => |p.1 - tr.speed t s| < 1 / 20)).map
      (fun p => p.2 + 1)).getD 1) (tr.observe t s :: since) := by
  have hkind : (tr.observe t s).ChangedSpeed := hchanged
  cases hcandidate : tr.candidate with
  | none => exact Confirmed.start hkind since
  | some c =>
      obtain ⟨hcount, hspeed⟩ := h.candidate c hcandidate
      by_cases hclose : |c.1 - tr.speed t s| < 1 / 20
      · simp only [Option.filter, hclose, decide_true, if_true, Option.map_some, Option.getD_some]
        rw [Nat.add_comm]
        apply hcount.cons hkind
        intro o ho
        unfold SameSpeed
        rw [hspeed o ho]
        exact hclose
      · simp only [Option.filter, hclose, decide_false, Bool.false_eq_true, if_false,
          Option.map_none, Option.getD_none]
        exact Confirmed.start hkind since

/-- Without a new hint the rate changes only for a confirmed speed, and the candidate
kept afterwards is backed by the sample's observation too. -/
theorem Backed.decideRate (h : tr.Backed since) (t : Timeline) (s : SourceSample)
    {jumped : Tracker} (hjumped : jumped.candidate = tr.candidate) {decided : Tracker}
    {rate : Rate} {changed : Bool}
    (hdecided : jumped.decideRate t s (tr.speed t s) = (decided, .ok (rate, changed))) :
    decided.jumps = jumped.jumps ∧ decided.jumpsSign = jumped.jumpsSign ∧
      (changed = true → (∃ hint ∈ s.rateHint, hint ≠ t.anchor.rate) ∨
        Speeding 3 (tr.observe t s :: since)) ∧
      (changed = false → ∀ c ∈ decided.candidate, Speeding c.2 (tr.observe t s :: since) ∧
        (tr.observe t s).speed = c.1) := by
  unfold Tracker.decideRate at hdecided
  rw [hjumped] at hdecided
  split at hdecided
  · next hint hhint =>
      simp only [Option.filter_eq_some_iff, decide_eq_true_eq] at hhint
      simp only [Prod.mk.injEq, Except.ok.injEq] at hdecided
      obtain ⟨rfl, -, rfl⟩ := hdecided
      exact ⟨rfl, rfl, fun _ => Or.inl ⟨hint, hhint⟩, by simp⟩
  · dsimp only at hdecided
    split_ifs at hdecided with hchanged hcount
    · have hconfirmed := (h.candidateCount hchanged).mono hcount
      split at hdecided
      · simp only [Prod.mk.injEq, Except.ok.injEq] at hdecided
        obtain ⟨rfl, -, rfl⟩ := hdecided
        exact ⟨rfl, rfl, fun _ => Or.inr hconfirmed, by simp⟩
      · simp at hdecided
    · simp only [Prod.mk.injEq, Except.ok.injEq] at hdecided
      obtain ⟨rfl, -, rfl⟩ := hdecided
      refine ⟨rfl, rfl, by simp, ?_⟩
      intro _ c hc
      obtain rfl := Option.some.inj hc
      exact ⟨h.candidateCount hchanged, rfl⟩
    · simp only [Prod.mk.injEq, Except.ok.injEq] at hdecided
      obtain ⟨rfl, -, rfl⟩ := hdecided
      exact ⟨rfl, rfl, by simp, by simp⟩

/-- The clamp on the speed keeps the change of rate from failing. -/
theorem decideRate_ne_error (jumped : Tracker) (tr : Tracker) (t : Timeline) (s : SourceSample)
    (e : Error) : (jumped.decideRate t s (tr.speed t s)).2 ≠ .error e := by
  obtain ⟨rate, hrate⟩ := exists_rate (abs_speed_le tr t s)
  unfold decideRate
  split
  · simp
  · dsimp only
    split_ifs
    · rw [hrate]
      simp
    · simp
    · simp

/-- What a processed sample leaves behind, and what a discontinuity it introduces
rests on. -/
inductive SampleEvidence (tr : Tracker) (t : Timeline) (s : SourceSample)
    (since : List Observation) : (Tracker × Timeline) × Except Error Bool → Prop where
  | refused (u : Timeline) (e : Error) : SampleEvidence tr t s since ((tr, u), .error e)
  | changed (next : Tracker) (u : Timeline) (hidle : next.Idle) (hlast : next.last = some s)
      (hdisc : u.discontinuity = t.discontinuity + 1)
      (hreason : s.discontinuity = true ∨ (∃ hint ∈ s.rateHint, hint ≠ t.anchor.rate) ∨
        tr.last = none ∨ Jumping 3 (tr.observe t s :: since) ∨
        Speeding 3 (tr.observe t s :: since)) :
      SampleEvidence tr t s since ((next, u), .ok true)
  | refined (next : Tracker) (u : Timeline) (hbacked : next.Backed (tr.observe t s :: since))
      (hlast : next.last = some s) (hdisc : u.discontinuity = t.discontinuity) :
      SampleEvidence tr t s since ((next, u), .ok false)

theorem Backed.sample (h : tr.Backed since) (t : Timeline) (s : SourceSample) (now : Nat) :
    SampleEvidence tr t s since (tr.sample t s now) := by
  obtain ⟨hjumps, hdirection⟩ := h.countJumps t s
  unfold Tracker.sample
  split_ifs with htracked htime
  · exact .refused t _
  · exact .refused t _
  · dsimp only
    split
    · next e hdecided =>
        have herror := decideRate_ne_error _ tr t s e (congrArg Prod.snd hdecided)
        exact herror.elim
    · next decided rate rateChanged hdecided =>
        obtain ⟨hcount, hsign, hspeed, hcandidate⟩ :=
          h.decideRate t s (by exact countJumps_candidate tr _) hdecided
        split_ifs with hchanged
        · refine .changed _ _ ⟨rfl, rfl⟩ rfl rfl ?_
          simp only [Bool.or_eq_true, decide_eq_true_eq, Option.isNone_iff_eq_none] at hchanged
          rcases hchanged with ((hflag | hfirst) | hjumped) | hrate
          · exact Or.inl hflag
          · exact Or.inr (Or.inr (Or.inl hfirst))
          · exact Or.inr (Or.inr (Or.inr (Or.inl (hjumps.mono hjumped))))
          · rcases hspeed hrate with hhint | hconfirmed
            · exact Or.inr (Or.inl hhint)
            · exact Or.inr (Or.inr (Or.inr (Or.inr hconfirmed)))
        · simp only [Bool.or_eq_true, decide_eq_true_eq, not_or, Bool.not_eq_true] at hchanged
          obtain ⟨⟨-, hfew⟩, hsame⟩ := hchanged
          simp only [if_neg hfew] at hcount hsign
          refine .refined _ _ ⟨?_, ?_, ?_⟩ rfl rfl
          · change Jumping decided.jumps _
            rw [hcount]
            exact hjumps
          · change decided.jumps ≠ 0 → _
            intro hne o ho
            obtain rfl := Option.some.inj ho
            change _ = decided.jumpsSign
            rw [hsign]
            exact hdirection (hcount ▸ hne)
          · intro c hc
            obtain ⟨hconfirmed, hagrees⟩ := hcandidate hsame c hc
            refine ⟨hconfirmed, fun o ho => ?_⟩
            obtain rfl := Option.some.inj ho
            exact hagrees

end Tracker

end Tidkod
