import Mathlib.Tactic
import Mathlib.Data.Rat.Floor
import Tidkod.Protocol.Validity

/-!
Playback as exact motion that is rounded once. The integer steps of `advance`
amount to truncating the product of the elapsed time and a rational velocity in
Q32 units, after which the position is held at the bounds of its range. What is
monotone or bounded about the product is therefore monotone or bounded about the
position, up to one unit.
-/

namespace Tidkod

open Rounding

theorem FrameFormat.denominator_pos (f : FrameFormat) : 0 < f.denominator := by
  have hrates : ∀ r ∈ frameRates, 0 < r.2 := by decide
  exact hrates _ f.supported.1

theorem FrameFormat.fps_pos (f : FrameFormat) : 0 < f.fps := by
  have hrates : ∀ r ∈ frameRates, 0 < r.1 := by decide
  have hnum : 0 < f.numerator := hrates _ f.supported.1
  have hden := f.denominator_pos
  unfold fps
  positivity

theorem FrameFormat.one_le_fps (f : FrameFormat) : 1 ≤ f.fps := by
  have hrates : ∀ r ∈ frameRates, r.2 ≤ r.1 := by decide
  have hden : (0 : ℚ) < f.denominator := by exact_mod_cast f.denominator_pos
  unfold fps
  rw [le_div_iff₀ hden, one_mul]
  exact_mod_cast hrates _ f.supported.1

theorem q32_pos : (0 : ℚ) < q32 := by norm_num [q32]

/-- The cast only truncates where the value is small. -/
theorem asI128_eq_trunc {x : ℚ} (h : |x| ≤ ((2 ^ 126 : Nat) : ℚ)) : asI128 x = trunc x := by
  have htrunc := natAbs_trunc_le h
  rw [asI128, toSigned, clamp_of_mem]
  · simp only [i128Min]
    omega
  · simp only [i128Max]
    omega

theorem Rate.denominator_pos (r : Rate) : 0 < r.denominator := Nat.pos_of_ne_zero r.admitted.1

theorem Rate.abs_asF64_le (r : Rate) : |r.asF64| ≤ 64 := by
  have hpos : (0 : ℚ) < r.denominator := by exact_mod_cast r.denominator_pos
  unfold Rate.asF64
  rw [abs_div, abs_of_pos hpos, div_le_iff₀ hpos, ← Int.cast_abs, Int.abs_eq_natAbs]
  have hadmitted := r.admitted.2.2.2
  rw [mul_comm]
  exact_mod_cast hadmitted

/-- Q32 units for each nanosecond of leader time. -/
def velocity (format : FrameFormat) (rate : Rate) : ℚ :=
  format.fps * rate.asF64 / 1000000000 * q32

theorem abs_velocity (format : FrameFormat) (rate : Rate) :
    |velocity format rate| = format.fps * |rate.asF64| / 1000000000 * q32 := by
  rw [velocity, abs_mul, abs_div, abs_mul, abs_of_pos format.fps_pos, abs_of_pos q32_pos,
    abs_of_pos (by norm_num : (0 : ℚ) < 1000000000)]

/-- The remainder is scaled separately, which loses nothing. -/
theorem Position.fixed_advance (p : Position) (elapsedNs : Int) (format : FrameFormat)
    (rate : Rate) :
    (p.advance elapsedNs format rate).fixed =
      clamp fixedMin fixedMax (p.fixed + trunc (elapsedNs * velocity format rate)) := by
  have hden : (0 : Int) < 1000000000 * format.denominator * rate.denominator := by
    have hformat := format.denominator_pos
    have hrate := rate.denominator_pos
    positivity
  have hdelta : (elapsedNs * format.numerator * rate.numerator * q32).tdiv
      (1000000000 * format.denominator * rate.denominator) =
        trunc (elapsedNs * velocity format rate) := by
    have hquotient := trunc_div (elapsedNs * format.numerator * rate.numerator * q32)
      (1000000000 * format.denominator * rate.denominator)
    push_cast at hquotient
    rw [← hquotient, velocity, FrameFormat.fps, Rate.asF64]
    congr 1
    field_simp
  rw [advance, fixed_fromFixed, clamp_clamp (by decide) (by decide) (by decide)]
  rw [tdiv_mul_add_tmod _ hden (by decide), hdelta]

/-- The elapsed time of an anchor, held in the range of a signed 64-bit integer. -/
def Anchor.elapsed (a : Anchor) (time : Nat) : Int := clamp i64Min i64Max ((time : Int) - a.timeNs)

theorem Anchor.fixed_at (a : Anchor) (time : Nat) (format : FrameFormat) :
    (a.at time format).fixed =
      clamp Position.fixedMin Position.fixedMax
        (a.position.fixed + trunc (a.elapsed time * velocity format a.rate)) :=
  a.position.fixed_advance _ format a.rate

/-- Two leader times apart by `n` are at most `n` nanoseconds of playback apart,
and one unit of rounding. -/
theorem Anchor.abs_fixed_at_sub_le (a : Anchor) (format : FrameFormat) (s t : Nat) :
    |(((a.at s format).fixed - (a.at t format).fixed : Int) : ℚ)| ≤
      |(s : ℚ) - t| * |velocity format a.rate| + 1 := by
  have helapsed : |((a.elapsed s : Int) : ℚ) - a.elapsed t| ≤ |(s : ℚ) - t| := by
    have hclamp := abs_clamp_sub_le i64Min i64Max ((s : Int) - a.timeNs) ((t : Int) - a.timeNs)
    rw [sub_sub_sub_cancel_right] at hclamp
    change |a.elapsed s - a.elapsed t| ≤ _ at hclamp
    exact_mod_cast hclamp
  have htrunc := abs_trunc_sub_le (a.elapsed s * velocity format a.rate)
    (a.elapsed t * velocity format a.rate)
  rw [← sub_mul, abs_mul] at htrunc
  have hposition : |(((a.at s format).fixed - (a.at t format).fixed : Int) : ℚ)| ≤
      |((trunc (a.elapsed s * velocity format a.rate) : Int) : ℚ) -
        trunc (a.elapsed t * velocity format a.rate)| := by
    have hclamp := abs_clamp_sub_le Position.fixedMin Position.fixedMax
      (a.position.fixed + trunc (a.elapsed s * velocity format a.rate))
      (a.position.fixed + trunc (a.elapsed t * velocity format a.rate))
    rw [add_sub_add_left_eq_sub, ← a.fixed_at, ← a.fixed_at] at hclamp
    exact_mod_cast hclamp
  calc
    |(((a.at s format).fixed - (a.at t format).fixed : Int) : ℚ)| ≤ _ := hposition
    _ ≤ |((a.elapsed s : Int) : ℚ) - a.elapsed t| * |velocity format a.rate| + 1 := htrunc
    _ ≤ |(s : ℚ) - t| * |velocity format a.rate| + 1 := by gcongr

end Tidkod
