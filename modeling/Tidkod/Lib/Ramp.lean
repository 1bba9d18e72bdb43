import Mathlib.Tactic
import Mathlib.Algebra.Order.Field.Basic

/-!
A quantity that runs down to zero at a constant speed. Reading what is left and going on
from there is the same as never having looked, however often it is done. A speed that
is chosen anew from what is left, so that it would take a fixed time from there, gives a
hyperbola instead, which bounds every schedule of such choices.
-/

namespace Ramp

variable {K : Type*} [Field K] [LinearOrder K] [IsStrictOrderedRing K]

/-- What is left of a size after running down for some time. -/
def left (size speed elapsed : K) : K := max (size - elapsed * speed) 0

/-- One value is left of another: no larger, and on the same side of zero. -/
def Shrinks (a b : K) : Prop := |b| ≤ |a| ∧ 0 ≤ a * b

theorem Shrinks.refl (a : K) : Shrinks a a := ⟨le_rfl, mul_self_nonneg a⟩

theorem Shrinks.of_zero {a b : K} (h : Shrinks a b) (ha : a = 0) : b = 0 := by
  have hsmall := h.1
  rw [ha, abs_zero] at hsmall
  exact abs_nonpos_iff.mp hsmall

theorem Shrinks.same_side {a b c : K} (hb : Shrinks a b) (hc : Shrinks a c) : 0 ≤ b * c := by
  rcases lt_trichotomy a 0 with hneg | hzero | hpos
  · exact mul_nonneg_of_nonpos_of_nonpos (nonpos_of_mul_nonneg_right hb.2 hneg)
      (nonpos_of_mul_nonneg_right hc.2 hneg)
  · rw [hb.of_zero hzero, zero_mul]
  · exact mul_nonneg (nonneg_of_mul_nonneg_right hb.2 hpos) (nonneg_of_mul_nonneg_right hc.2 hpos)

theorem Shrinks.trans {a b c : K} (hb : Shrinks a b) (hc : Shrinks b c) : Shrinks a c := by
  refine ⟨hc.1.trans hb.1, ?_⟩
  rcases lt_trichotomy b 0 with hneg | hzero | hpos
  · exact mul_nonneg_of_nonpos_of_nonpos (nonpos_of_mul_nonneg_left hb.2 hneg)
      (nonpos_of_mul_nonneg_right hc.2 hneg)
  · rw [hc.of_zero hzero, mul_zero]
  · exact mul_nonneg (nonneg_of_mul_nonneg_left hb.2 hpos) (nonneg_of_mul_nonneg_right hc.2 hpos)

variable {size speed elapsed : K}

theorem left_le (hsize : 0 ≤ size) (hspeed : 0 ≤ speed) (helapsed : 0 ≤ elapsed) :
    left size speed elapsed ≤ size :=
  max_le (sub_le_self size (mul_nonneg helapsed hspeed)) hsize

/-- A smaller size leaves less, by the difference of the sizes at most. -/
theorem left_mono {smaller : K} (h : smaller ≤ size) (speed elapsed : K) :
    left smaller speed elapsed ≤ left size speed elapsed ∧
      left size speed elapsed - left smaller speed elapsed ≤ size - smaller := by
  unfold left
  constructor
  · gcongr
  · rw [sub_le_iff_le_add]
    apply max_le
    · have hmax := le_max_left (smaller - elapsed * speed) 0
      linarith
    · have hmax := le_max_right (smaller - elapsed * speed) 0
      linarith

/-- Going on from what is left. -/
theorem left_left (hspeed : 0 ≤ speed) {first second : K} (hsecond : 0 ≤ second) :
    left (left size speed first) speed second = left size speed (first + second) := by
  have hspent : 0 ≤ second * speed := mul_nonneg hsecond hspeed
  unfold left
  rw [add_mul]
  rcases le_total 0 (size - first * speed) with hrunning | hdone
  · rw [max_eq_left hrunning, sub_sub]
  · rw [max_eq_right hdone, max_eq_right (by linarith), max_eq_right (by linarith)]

/-- A size below the hyperbola that runs down within the settle time stays below it. -/
theorem left_hyperbola {bound past settle : K} (hsize : 0 ≤ size) (hsettle : 0 < settle)
    (hpast : 0 ≤ past) (helapsed : 0 ≤ elapsed) (h : size * (1 + past / settle) ≤ bound) :
    left size (size / settle) elapsed * (1 + (past + elapsed) / settle) ≤ bound := by
  have hbefore : 0 ≤ past / settle := div_nonneg hpast hsettle.le
  have hsince : 0 ≤ elapsed / settle := div_nonneg helapsed hsettle.le
  rw [add_div, left, mul_div_left_comm]
  rcases le_total 0 (size - size * (elapsed / settle)) with hrunning | hdone
  · rw [max_eq_left hrunning]
    have hspent : 0 ≤ size * (elapsed / settle) * (past / settle + elapsed / settle) := by
      positivity
    calc (size - size * (elapsed / settle)) * (1 + (past / settle + elapsed / settle))
        = size * (1 + past / settle) -
            size * (elapsed / settle) * (past / settle + elapsed / settle) := by ring
      _ ≤ bound := by linarith
  · rw [max_eq_right hdone, zero_mul]
    have hpositive : 0 ≤ size * (1 + past / settle) := by positivity
    exact hpositive.trans h

end Ramp
