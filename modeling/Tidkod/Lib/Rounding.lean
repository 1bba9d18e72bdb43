import Mathlib.Tactic
import Mathlib.Data.Rat.Floor

/-!
Conversion of exact rationals to machine integers. A float-to-integer cast
rounds toward zero and saturates at the bounds of the target type; the two
steps are kept apart because most arguments only need the rounding.
-/

namespace Rounding

/-- Rounding toward zero. -/
def trunc (x : ℚ) : ℤ := x.num.tdiv x.den

/-- Rounding to the nearest integer, halves away from zero. -/
def round (x : ℚ) : ℤ := if 0 ≤ x then ⌊x + 1 / 2⌋ else ⌈x - 1 / 2⌉

/-- Clamping of an integer to a closed range. -/
def clamp (lo hi x : ℤ) : ℤ := max lo (min x hi)

/-- Saturating cast to an unsigned type whose largest value is `limit`. -/
def toUnsigned (limit : ℕ) (x : ℚ) : ℕ := min (trunc x).toNat limit

/-- Saturating cast to a signed type with the range `lo..=hi`. -/
def toSigned (lo hi : ℤ) (x : ℚ) : ℤ := clamp lo hi (trunc x)

theorem trunc_of_nonneg {x : ℚ} (h : 0 ≤ x) : trunc x = ⌊x⌋ := by
  rw [trunc, Int.tdiv_eq_ediv_of_nonneg (Rat.num_nonneg.mpr h), Rat.floor_def']

theorem trunc_neg (x : ℚ) : trunc (-x) = -trunc x := by
  simp [trunc, Int.neg_tdiv]

@[simp] theorem trunc_intCast (n : ℤ) : trunc (n : ℚ) = n := by
  simp [trunc]

@[simp] theorem trunc_natCast (n : ℕ) : trunc (n : ℚ) = n := by
  simpa using trunc_intCast (n : ℤ)

@[simp] theorem trunc_zero : trunc 0 = 0 := by
  simp [trunc]

theorem trunc_nonneg {x : ℚ} (h : 0 ≤ x) : 0 ≤ trunc x := by
  rw [trunc_of_nonneg h]
  exact Int.floor_nonneg.mpr h

theorem trunc_nonpos {x : ℚ} (h : x ≤ 0) : trunc x ≤ 0 := by
  have hneg := trunc_nonneg (neg_nonneg.mpr h)
  rw [trunc_neg] at hneg
  omega

/-- Truncation moves a nonnegative value down by less than one unit. -/
theorem trunc_bounds {x : ℚ} (h : 0 ≤ x) : (trunc x : ℚ) ≤ x ∧ x < trunc x + 1 := by
  rw [trunc_of_nonneg h]
  exact ⟨Int.floor_le x, Int.lt_floor_add_one x⟩

theorem trunc_mono {x y : ℚ} (h : x ≤ y) : trunc x ≤ trunc y := by
  rcases le_total 0 x with hx | hx
  · rw [trunc_of_nonneg hx, trunc_of_nonneg (hx.trans h)]
    exact Int.floor_le_floor h
  · rcases le_total 0 y with hy | hy
    · exact (trunc_nonpos hx).trans (trunc_nonneg hy)
    · have hneg : trunc (-y) ≤ trunc (-x) := by
        rw [trunc_of_nonneg (neg_nonneg.mpr hy), trunc_of_nonneg (neg_nonneg.mpr hx)]
        exact Int.floor_le_floor (neg_le_neg h)
      rw [trunc_neg, trunc_neg] at hneg
      omega

/-- Truncation of a quotient is the division that rounds toward zero. -/
theorem trunc_div (a : ℤ) (b : ℕ) : trunc ((a : ℚ) / b) = a.tdiv b := by
  have hnonneg {n : ℤ} (hn : 0 ≤ n) : trunc ((n : ℚ) / b) = n.tdiv b := by
    have hcast : (0 : ℚ) ≤ n := by exact_mod_cast hn
    rw [trunc_of_nonneg (by positivity), Int.tdiv_eq_ediv_of_nonneg hn,
      Rat.floor_intCast_div_natCast]
  rcases le_total 0 a with ha | ha
  · exact hnonneg ha
  · have hneg := hnonneg (neg_nonneg.mpr ha)
    rw [Int.cast_neg, neg_div, trunc_neg, Int.neg_tdiv] at hneg
    exact neg_inj.mp hneg

/-- Splitting off the quotient before scaling loses nothing. -/
theorem tdiv_mul_add_tmod (a : ℤ) {b scale : ℤ} (hb : 0 < b) (hscale : 0 ≤ scale) :
    a.tdiv b * scale + (a.tmod b * scale).tdiv b = (a * scale).tdiv b := by
  have hnonneg {n : ℤ} (hn : 0 ≤ n) :
      n.tdiv b * scale + (n.tmod b * scale).tdiv b = (n * scale).tdiv b := by
    have hrem : 0 ≤ n % b := Int.emod_nonneg n hb.ne'
    have hsplit : n * scale = n % b * scale + b * (n / b * scale) := by
      calc n * scale = (n % b + b * (n / b)) * scale := by rw [Int.emod_add_mul_ediv]
        _ = n % b * scale + b * (n / b * scale) := by ring
    rw [Int.tdiv_eq_ediv_of_nonneg hn, Int.tmod_eq_emod_of_nonneg hn,
      Int.tdiv_eq_ediv_of_nonneg (mul_nonneg hrem hscale),
      Int.tdiv_eq_ediv_of_nonneg (mul_nonneg hn hscale), hsplit,
      Int.add_mul_ediv_left _ _ hb.ne']
    ring
  rcases le_total 0 a with ha | ha
  · exact hnonneg ha
  · have hneg := hnonneg (neg_nonneg.mpr ha)
    simp only [Int.neg_tdiv, Int.neg_tmod, neg_mul] at hneg
    linarith

/-- Truncation stretches a distance by less than one unit. -/
theorem trunc_sub_lt {x y : ℚ} (h : x ≤ y) : (trunc y : ℚ) - trunc x < y - x + 1 := by
  rcases le_total 0 x with hx | hx
  · have hlo := trunc_bounds hx
    have hhi := trunc_bounds (hx.trans h)
    linarith
  · have hlo := trunc_bounds (neg_nonneg.mpr hx)
    rw [trunc_neg, Int.cast_neg] at hlo
    rcases le_total 0 y with hy | hy
    · have hhi := trunc_bounds hy
      linarith
    · have hhi := trunc_bounds (neg_nonneg.mpr hy)
      rw [trunc_neg, Int.cast_neg] at hhi
      linarith

/-- Truncation shortens a distance by less than two units, and by less than one on
either side of zero. -/
theorem lt_trunc_sub {x y : ℚ} (h : x ≤ y) :
    y - x - 2 < (trunc y : ℚ) - trunc x ∧
      (0 ≤ x ∨ y ≤ 0 → y - x - 1 < (trunc y : ℚ) - trunc x) := by
  rcases le_total 0 x with hx | hx
  · have hlo := trunc_bounds hx
    have hhi := trunc_bounds (hx.trans h)
    exact ⟨by linarith, fun _ => by linarith⟩
  · have hlo := trunc_bounds (neg_nonneg.mpr hx)
    rw [trunc_neg, Int.cast_neg] at hlo
    rcases le_total 0 y with hy | hy
    · have hhi := trunc_bounds hy
      refine ⟨by linarith, ?_⟩
      rintro (hpos | hneg)
      · obtain rfl : x = 0 := le_antisymm hx hpos
        rw [trunc_zero, Int.cast_zero] at hlo ⊢
        linarith
      · obtain rfl : y = 0 := le_antisymm hneg hy
        rw [trunc_zero, Int.cast_zero] at hhi ⊢
        linarith
    · have hhi := trunc_bounds (neg_nonneg.mpr hy)
      rw [trunc_neg, Int.cast_neg] at hhi
      exact ⟨by linarith, fun _ => by linarith⟩

/-- Truncation of a sum and the sum of the truncations differ by at most a unit. -/
theorem abs_trunc_add_sub_le (x y : ℚ) : |trunc (x + y) - trunc x - trunc y| ≤ 1 := by
  have hsmall {n : ℤ} (hlo : (-2 : ℚ) < n) (hhi : (n : ℚ) < 2) : |n| ≤ 1 := by
    have hlo' : -2 < n := by exact_mod_cast hlo
    have hhi' : n < 2 := by exact_mod_cast hhi
    rw [Int.abs_eq_natAbs]
    omega
  have hnonneg {x y : ℚ} (hx : 0 ≤ x) (hy : 0 ≤ y) : |trunc (x + y) - trunc x - trunc y| ≤ 1 := by
    have hboundsX := trunc_bounds hx
    have hboundsY := trunc_bounds hy
    have hboundsSum := trunc_bounds (add_nonneg hx hy)
    apply hsmall
    · push_cast
      linarith
    · push_cast
      linarith
  have hmixed {x y : ℚ} (hx : 0 ≤ x) (hy : y ≤ 0) : |trunc (x + y) - trunc x - trunc y| ≤ 1 := by
    have hboundsX := trunc_bounds hx
    have hboundsY := trunc_bounds (neg_nonneg.mpr hy)
    rw [trunc_neg, Int.cast_neg] at hboundsY
    have hsum : (trunc (x + y) : ℚ) < x + y + 1 ∧ x + y < trunc (x + y) + 1 := by
      rcases le_total 0 (x + y) with hpos | hneg
      · have hbounds := trunc_bounds hpos
        exact ⟨by linarith, hbounds.2⟩
      · have hbounds := trunc_bounds (neg_nonneg.mpr hneg)
        rw [trunc_neg, Int.cast_neg] at hbounds
        exact ⟨by linarith, by linarith⟩
    apply hsmall
    · push_cast
      linarith
    · push_cast
      linarith
  rcases le_total 0 x with hx | hx
  · rcases le_total 0 y with hy | hy
    · exact hnonneg hx hy
    · exact hmixed hx hy
  · rcases le_total 0 y with hy | hy
    · have hswapped := hmixed hy hx
      rwa [add_comm, sub_right_comm] at hswapped
    · have hflipped := hnonneg (neg_nonneg.mpr hx) (neg_nonneg.mpr hy)
      rw [← neg_add, trunc_neg, trunc_neg, trunc_neg, sub_neg_eq_add, sub_neg_eq_add,
        ← abs_neg] at hflipped
      convert hflipped using 2
      ring

theorem abs_trunc_sub_le (x y : ℚ) : |(trunc x : ℚ) - trunc y| ≤ |x - y| + 1 := by
  rcases le_total x y with h | h
  · have hint : (trunc x : ℚ) ≤ trunc y := by exact_mod_cast trunc_mono h
    rw [abs_sub_comm, abs_sub_comm x, abs_of_nonneg (sub_nonneg.mpr hint),
      abs_of_nonneg (sub_nonneg.mpr h)]
    exact (trunc_sub_lt h).le
  · have hint : (trunc y : ℚ) ≤ trunc x := by exact_mod_cast trunc_mono h
    rw [abs_of_nonneg (sub_nonneg.mpr hint), abs_of_nonneg (sub_nonneg.mpr h)]
    exact (trunc_sub_lt h).le

theorem trunc_le_trunc_add {x y : ℚ} {n : ℕ} (hy : 0 ≤ y) (h : x ≤ y + n) :
    trunc x ≤ trunc y + n := by
  have hsum : trunc (y + n) = trunc y + n := by
    rw [trunc_of_nonneg (add_nonneg hy (Nat.cast_nonneg n)), trunc_of_nonneg hy,
      Int.floor_add_natCast]
  exact hsum ▸ trunc_mono h

/-- Sizes on one side of zero that are a whole number apart stay so. -/
theorem abs_trunc_sub_le_natCast {x y : ℚ} {n : ℕ} (hside : 0 ≤ x * y) (hle : |y| ≤ |x|)
    (h : |x| ≤ |y| + n) : |trunc x - trunc y| ≤ n := by
  have hnonneg {x y : ℚ} (hx : 0 ≤ x) (hy : 0 ≤ y) (hle : y ≤ x) (h : x ≤ y + n) :
      |trunc x - trunc y| ≤ n := by
    have hlow := trunc_mono hle
    have hhigh := trunc_le_trunc_add hy h
    rw [abs_of_nonneg (by omega)]
    omega
  rcases lt_trichotomy x 0 with hneg | hzero | hpos
  · have hy := nonpos_of_mul_nonneg_right hside hneg
    rw [abs_of_neg hneg, abs_of_nonpos hy] at hle h
    have hflipped := hnonneg (neg_nonneg.mpr hneg.le) (neg_nonneg.mpr hy) hle h
    rwa [trunc_neg, trunc_neg, neg_sub_neg, abs_sub_comm] at hflipped
  · rw [hzero, abs_zero] at hle
    obtain rfl := abs_nonpos_iff.mp hle
    rw [hzero, sub_self, abs_zero]
    exact Int.natCast_nonneg n
  · have hy := nonneg_of_mul_nonneg_right hside hpos
    rw [abs_of_pos hpos, abs_of_nonneg hy] at hle h
    exact hnonneg hpos.le hy hle h

theorem abs_trunc_le (x : ℚ) : |(trunc x : ℚ)| ≤ |x| := by
  rcases le_total 0 x with hx | hx
  · have hint : (0 : ℚ) ≤ trunc x := by exact_mod_cast trunc_nonneg hx
    rw [abs_of_nonneg hint, abs_of_nonneg hx]
    exact (trunc_bounds hx).1
  · have hint : (trunc x : ℚ) ≤ 0 := by exact_mod_cast trunc_nonpos hx
    have hbound := trunc_bounds (neg_nonneg.mpr hx)
    rw [trunc_neg, Int.cast_neg] at hbound
    rw [abs_of_nonpos hint, abs_of_nonpos hx]
    exact hbound.1

/-- Truncation moves a value by less than a unit. -/
theorem abs_sub_trunc_lt (x : ℚ) : |x - trunc x| < 1 := by
  rw [abs_lt]
  rcases le_total 0 x with hx | hx
  · have hbounds := trunc_bounds hx
    constructor <;> linarith
  · have hbounds := trunc_bounds (neg_nonneg.mpr hx)
    rw [trunc_neg, Int.cast_neg] at hbounds
    constructor <;> linarith

theorem abs_lt_abs_trunc_add_one (x : ℚ) : |x| < |(trunc x : ℚ)| + 1 := by
  have hsplit := abs_sub_abs_le_abs_sub x (trunc x)
  linarith [abs_sub_trunc_lt x]

theorem natAbs_trunc_le {x : ℚ} {n : ℕ} (h : |x| ≤ n) : (trunc x).natAbs ≤ n := by
  have hle := (abs_trunc_le x).trans h
  have hint : |trunc x| ≤ (n : ℤ) := by exact_mod_cast hle
  rw [Int.abs_eq_natAbs] at hint
  exact_mod_cast hint

/-- Rounding keeps a value within integer bounds. -/
theorem natAbs_round_le {x : ℚ} {n : ℕ} (h : |x| ≤ n) : (round x).natAbs ≤ n := by
  obtain ⟨hlo, hhi⟩ := abs_le.mp h
  unfold round
  split_ifs with hx
  · have hle : ⌊x + 1 / 2⌋ ≤ n := by
      apply Int.lt_add_one_iff.mp
      apply Int.floor_lt.mpr
      push_cast
      linarith
    have hnonneg : 0 ≤ ⌊x + 1 / 2⌋ := Int.floor_nonneg.mpr (by linarith)
    omega
  · have hge : -(n : ℤ) ≤ ⌈x - 1 / 2⌉ := by
      apply Int.sub_one_lt_iff.mp
      apply Int.lt_ceil.mpr
      push_cast
      linarith
    have hnonpos : ⌈x - 1 / 2⌉ ≤ 0 := Int.ceil_le.mpr (by push_cast; linarith)
    omega

theorem clamp_of_mem {lo hi x : ℤ} (hlo : lo ≤ x) (hhi : x ≤ hi) : clamp lo hi x = x := by
  simp [clamp, hlo, hhi]

theorem clamp_mem {lo hi : ℤ} (h : lo ≤ hi) (x : ℤ) :
    lo ≤ clamp lo hi x ∧ clamp lo hi x ≤ hi := by
  simp only [clamp]
  omega

theorem clamp_mono (lo hi : ℤ) {x y : ℤ} (h : x ≤ y) : clamp lo hi x ≤ clamp lo hi y := by
  simp only [clamp]
  omega

/-- Clamping brings values no further apart. -/
theorem abs_clamp_sub_le (lo hi x y : ℤ) : |clamp lo hi x - clamp lo hi y| ≤ |x - y| := by
  simp only [clamp, Int.abs_eq_natAbs]
  omega

/-- Clamping to a wider range first changes nothing. -/
theorem clamp_clamp {lo hi wideLo wideHi : ℤ} (hlo : wideLo ≤ lo) (hrange : lo ≤ hi)
    (hhi : hi ≤ wideHi) (x : ℤ) : clamp lo hi (clamp wideLo wideHi x) = clamp lo hi x := by
  simp only [clamp]
  omega

theorem toUnsigned_mono (limit : ℕ) {x y : ℚ} (h : x ≤ y) :
    toUnsigned limit x ≤ toUnsigned limit y := by
  have hint := trunc_mono h
  simp only [toUnsigned]
  omega

/-- A nonnegative value below the limit is only rounded down. -/
theorem toUnsigned_bounds {limit : ℕ} {x : ℚ} (h : 0 ≤ x) (hlimit : x ≤ limit) :
    (toUnsigned limit x : ℚ) ≤ x ∧ x < toUnsigned limit x + 1 := by
  have hnonneg := trunc_nonneg h
  have hle : trunc x ≤ limit := by
    have := trunc_mono hlimit
    simpa using this
  have heq : (toUnsigned limit x : ℤ) = trunc x := by
    simp only [toUnsigned]
    omega
  have hcast : (toUnsigned limit x : ℚ) = (trunc x : ℚ) := by
    exact_mod_cast heq
  rw [hcast]
  exact trunc_bounds h

theorem toSigned_intCast {lo hi n : ℤ} (hlo : lo ≤ n) (hhi : n ≤ hi) :
    toSigned lo hi (n : ℚ) = n := by
  rw [toSigned, trunc_intCast, clamp_of_mem hlo hhi]

/-- A saturating cast moves a value no further from zero. -/
theorem abs_toSigned_le {lo hi : ℤ} (hlo : lo ≤ 0) (hhi : 0 ≤ hi) (x : ℚ) :
    |(toSigned lo hi x : ℚ)| ≤ |x| := by
  have hclamp : |clamp lo hi (trunc x)| ≤ |trunc x| := by
    simp only [clamp, Int.abs_eq_natAbs]
    omega
  have hcast : |(clamp lo hi (trunc x) : ℚ)| ≤ |(trunc x : ℚ)| := by exact_mod_cast hclamp
  exact hcast.trans (abs_trunc_le x)

end Rounding
