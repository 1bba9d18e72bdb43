import Mathlib.Tactic
import Tidkod.Protocol.CheckedTimeline
import Tidkod.Protocol.OutputMotion

/-!
The exactness of `advance`. The movement is the exact rational one, truncated once and
held in the range of positions, and nothing on the way to it overflows. Two movements in
a row are as good as one, unless the first is held at a bound that the second leads away
from: what was cut off there does not come back.
-/

namespace Tidkod

open Rounding

namespace Position

/-- The movement in Q32 units before it is rounded. -/
def exactDelta (elapsedNs : Int) (format : FrameFormat) (rate : Rate) : ℚ :=
  elapsedNs * format.numerator * rate.numerator * 2 ^ 32 /
    (10 ^ 9 * format.denominator * rate.denominator)

/-- The position moved to is representable. -/
def Unclamped (p : Position) (elapsedNs : Int) (format : FrameFormat) (rate : Rate) : Prop :=
  fixedMin ≤ p.fixed + trunc (exactDelta elapsedNs format rate) ∧
    p.fixed + trunc (exactDelta elapsedNs format rate) ≤ fixedMax

instance (p : Position) (elapsedNs : Int) (format : FrameFormat) (rate : Rate) :
    Decidable (p.Unclamped elapsedNs format rate) :=
  inferInstanceAs (Decidable (_ ∧ _))

variable {p : Position} {format : FrameFormat} {rate : Rate}

theorem exactDelta_eq (elapsedNs : Int) (format : FrameFormat) (rate : Rate) :
    exactDelta elapsedNs format rate = elapsedNs * velocity format rate := by
  have hformat : (format.denominator : ℚ) ≠ 0 := by exact_mod_cast format.denominator_pos.ne'
  have hrate : (rate.denominator : ℚ) ≠ 0 := by exact_mod_cast rate.denominator_pos.ne'
  rw [exactDelta, velocity, FrameFormat.fps, Rate.asF64, q32]
  push_cast
  field_simp
  ring

theorem fixed_advance_exact (p : Position) (elapsedNs : Int) (format : FrameFormat)
    (rate : Rate) :
    (p.advance elapsedNs format rate).fixed =
      clamp fixedMin fixedMax (p.fixed + trunc (exactDelta elapsedNs format rate)) := by
  rw [fixed_advance, exactDelta_eq]

/-- A movement stays below `2 ^ 87` units, so the addition to a position never saturates. -/
theorem has_fixed_add_delta (p : Position) {elapsedNs : Int} (h : i64.Has elapsedNs)
    (format : FrameFormat) (rate : Rate) :
    i128.Has (p.fixed + trunc (exactDelta elapsedNs format rate)) := by
  have hnum := natAbs_num_le h format rate
  have hpos : (0 : ℚ) < 10 ^ 9 * format.denominator * rate.denominator := by
    exact_mod_cast (den_bounds format rate).1
  have hsize : |exactDelta elapsedNs format rate| ≤ ((2 ^ 87 : Nat) : ℚ) := by
    have hcast : |((elapsedNs * format.numerator * rate.numerator : Int) : ℚ)| ≤
        2 ^ 55 * (10 ^ 9 * format.denominator * rate.denominator) := by
      rw [← Int.cast_abs, Int.abs_eq_natAbs]
      exact_mod_cast hnum
    push_cast at hcast ⊢
    rw [exactDelta, abs_div, abs_mul, abs_of_pos hpos, div_le_iff₀ hpos,
      abs_of_pos (by norm_num : (0 : ℚ) < 2 ^ 32)]
    linarith
  have htrunc := natAbs_trunc_le hsize
  have hfixed := p.natAbs_fixed_le
  exact i128_has (by omega)

/-- Time moves a position in the direction of the rate. -/
theorem advance_mono (p : Position) (format : FrameFormat) (rate : Rate) {a b : Int}
    (hab : a ≤ b) :
    (0 ≤ rate.numerator → (p.advance a format rate).fixed ≤ (p.advance b format rate).fixed) ∧
    (rate.numerator ≤ 0 → (p.advance b format rate).fixed ≤ (p.advance a format rate).fixed) := by
  have hcast : (a : ℚ) ≤ b := by exact_mod_cast hab
  rw [fixed_advance, fixed_advance]
  constructor
  · intro hrate
    have hvelocity : 0 ≤ velocity format rate := velocity_nonneg hrate
    have hmoved := trunc_mono (mul_le_mul_of_nonneg_right hcast hvelocity)
    exact clamp_mono _ _ (by omega)
  · intro hrate
    have hvelocity : velocity format rate ≤ 0 := velocity_nonpos hrate
    have hmoved := trunc_mono (mul_le_mul_of_nonpos_right hcast hvelocity)
    exact clamp_mono _ _ (by omega)

theorem abs_advance_sub_lt {elapsedNs : Int} (h : p.Unclamped elapsedNs format rate) :
    |((p.advance elapsedNs format rate).fixed : ℚ) -
      (p.fixed + exactDelta elapsedNs format rate)| < 1 := by
  rw [fixed_advance_exact, clamp_of_mem h.1 h.2]
  push_cast
  rw [add_sub_add_left_eq_sub, abs_sub_comm]
  exact abs_sub_trunc_lt _

/-- Movements in one direction have truncations of one sign. -/
theorem trunc_exactDelta_sign {a b : Int} (h : 0 ≤ a * b) (format : FrameFormat) (rate : Rate) :
    0 ≤ trunc (exactDelta a format rate) ∧ 0 ≤ trunc (exactDelta b format rate) ∨
      trunc (exactDelta a format rate) ≤ 0 ∧ trunc (exactDelta b format rate) ≤ 0 := by
  have hproduct : 0 ≤ exactDelta a format rate * exactDelta b format rate := by
    rw [exactDelta_eq, exactDelta_eq, mul_mul_mul_comm]
    exact mul_nonneg (by exact_mod_cast h) (mul_self_nonneg _)
  rcases mul_nonneg_iff.mp hproduct with ⟨ha, hb⟩ | ⟨ha, hb⟩
  · exact Or.inl ⟨trunc_nonneg ha, trunc_nonneg hb⟩
  · exact Or.inr ⟨trunc_nonpos ha, trunc_nonpos hb⟩

/-- Two movements and the one of both times together differ by a unit at most, when the
first is not clamped or the second goes on in its direction. -/
theorem abs_advance_advance_sub_le {a b : Int} (h : p.Unclamped a format rate ∨ 0 ≤ a * b) :
    |((p.advance a format rate).advance b format rate).fixed -
      (p.advance (a + b) format rate).fixed| ≤ 1 := by
  have hsum : exactDelta (a + b) format rate =
      exactDelta a format rate + exactDelta b format rate := by
    rw [exactDelta_eq, exactDelta_eq, exactDelta_eq]
    push_cast
    ring
  have hrounded := abs_trunc_add_sub_le (exactDelta a format rate) (exactDelta b format rate)
  have hmem := p.fixed_mem
  have hcases := h.imp_right (fun hsame => trunc_exactDelta_sign hsame format rate)
  unfold Unclamped at hcases
  rw [fixed_advance_exact, fixed_advance_exact, fixed_advance_exact, hsum]
  generalize trunc (exactDelta a format rate + exactDelta b format rate) = both at *
  generalize trunc (exactDelta a format rate) = first at *
  generalize trunc (exactDelta b format rate) = second at *
  rcases hcases with ⟨hlo, hhi⟩ | ⟨hfirst, hsecond⟩ | ⟨hfirst, hsecond⟩
  · rw [clamp_of_mem hlo hhi]
    refine (abs_clamp_sub_le _ _ _ _).trans ?_
    rw [add_assoc, add_sub_add_left_eq_sub, abs_sub_comm, ← sub_sub]
    exact hrounded
  -- Clamped upwards the second movement stays at the bound, and so does the sum.
  · simp only [clamp, Int.abs_eq_natAbs] at hrounded ⊢
    omega
  · simp only [clamp, Int.abs_eq_natAbs] at hrounded ⊢
    omega

/-- What `advance` amounts to: exact up to one truncation and the clamp, without an
overflow, monotone in time, less than a unit from the exact position, and additive up to
less than two units while no clamped movement is taken back. -/
theorem advance_exact (format : FrameFormat) (rate : Rate) (p : Position) :
    (∀ elapsedNs, i64.Has elapsedNs →
      p.advanceM elapsedNs format rate = .ok (p.advance elapsedNs format rate) ∧
      i128.Has (p.fixed + trunc (exactDelta elapsedNs format rate)) ∧
      (p.advance elapsedNs format rate).fixed =
        clamp fixedMin fixedMax (p.fixed + trunc (exactDelta elapsedNs format rate))) ∧
    (∀ a b, a ≤ b →
      (0 ≤ rate.numerator → (p.advance a format rate).fixed ≤ (p.advance b format rate).fixed) ∧
      (rate.numerator ≤ 0 → (p.advance b format rate).fixed ≤ (p.advance a format rate).fixed)) ∧
    (∀ elapsedNs, p.Unclamped elapsedNs format rate →
      |((p.advance elapsedNs format rate).fixed : ℚ) -
        (p.fixed + exactDelta elapsedNs format rate)| < 1) ∧
    ∀ a b, p.Unclamped a format rate ∨ 0 ≤ a * b →
      |((p.advance a format rate).advance b format rate).fixed -
        (p.advance (a + b) format rate).fixed| < 2 := by
  refine ⟨fun elapsedNs helapsed => ⟨p.advanceM_eq helapsed format rate,
      p.has_fixed_add_delta helapsed format rate, ?_⟩,
    fun _ _ => p.advance_mono format rate, fun _ => abs_advance_sub_lt, fun a b h => ?_⟩
  · exact p.fixed_advance_exact elapsedNs format rate
  · exact (abs_advance_advance_sub_le h).trans_lt (by decide)

/-- A second forwards from the last position and a second back lead thirty frames away
from it. -/
theorem advance_not_always_additive :
    ¬ ∀ (format : FrameFormat) (rate : Rate) (p : Position) (a b : Int),
      i64.Has a → i64.Has b → i64.Has (a + b) →
      |((p.advance a format rate).advance b format rate).fixed -
        (p.advance (a + b) format rate).fixed| < 2 := by
  intro hclaim
  have hadditive := hclaim FrameFormat.default Rate.normal (fromFixed fixedMax) 1000000000
    (-1000000000) (by decide) (by decide) (by decide)
  revert hadditive
  decide +kernel

end Position

end Tidkod
