import Mathlib.Tactic
import Mathlib.Algebra.Order.BigOperators.Group.List

/-!
A line fitted to finitely many points by least squares. Centring at the means splits
the squared error into a parabola in the slope and a square in the intercept, so a
slope confined to an interval is the free slope clamped to it, and the best intercept
belongs to whatever slope is taken.
-/

namespace LeastSquares

variable {ι K : Type*} [Field K]

/-- Sum of the squared residuals of `y = intercept + slope * x` over `points`. -/
def squaredError (x y : ι → K) (points : List ι) (intercept slope : K) : K :=
  (points.map (fun i => (y i - intercept - slope * x i) ^ 2)).sum

def mean (x : ι → K) (points : List ι) : K := (points.map x).sum / points.length

/-- Sum of the squared distances from the mean. -/
def spread (x : ι → K) (points : List ι) : K :=
  (points.map (fun i => (x i - mean x points) ^ 2)).sum

def covariation (x y : ι → K) (points : List ι) : K :=
  (points.map (fun i => (x i - mean x points) * (y i - mean y points))).sum

theorem squaredError_expand (x y : ι → K) (points : List ι) (intercept slope a b : K) :
    squaredError x y points intercept slope =
      (points.map (fun i => (y i - b) ^ 2)).sum -
        2 * slope * (points.map (fun i => (x i - a) * (y i - b))).sum +
        slope ^ 2 * (points.map (fun i => (x i - a) ^ 2)).sum +
        2 * (b - slope * a - intercept) *
          ((points.map (fun i => y i - b)).sum - slope * (points.map (fun i => x i - a)).sum) +
        points.length * (b - slope * a - intercept) ^ 2 := by
  unfold squaredError
  induction points with
  | nil => simp
  | cons i rest ih =>
      simp only [List.map_cons, List.sum_cons, List.length_cons, Nat.cast_succ]
      rw [ih]
      ring

theorem sum_sub (x : ι → K) (points : List ι) (a : K) :
    (points.map (fun i => x i - a)).sum = (points.map x).sum - points.length * a := by
  induction points with
  | nil => simp
  | cons i rest ih =>
      simp only [List.map_cons, List.sum_cons, List.length_cons, Nat.cast_succ]
      rw [ih]
      ring

/-- Moving all points up moves their mean. -/
theorem mean_add [CharZero K] {y : ι → K} {points : List ι} (h : points ≠ []) (a : K) :
    mean (fun i => y i + a) points = mean y points + a := by
  have hcount : (points.length : K) ≠ 0 := by
    exact_mod_cast (List.length_pos_iff.mpr h).ne'
  have hsum := sum_sub y points (-a)
  simp only [sub_neg_eq_add] at hsum
  rw [mean, mean, hsum, mul_neg, sub_neg_eq_add, add_div, mul_div_cancel_left₀ _ hcount]

section Ordered

variable [LinearOrder K] [IsStrictOrderedRing K] {x y : ι → K} {points : List ι}

theorem sum_sub_mean (h : points ≠ []) :
    (points.map (fun i => x i - mean x points)).sum = 0 := by
  have hcount : (points.length : K) ≠ 0 := by
    exact_mod_cast (List.length_pos_iff.mpr h).ne'
  rw [sum_sub, mean, mul_div_cancel₀ _ hcount, sub_self]

/-- The squared error, centred. -/
theorem squaredError_eq (h : points ≠ []) (intercept slope : K) :
    squaredError x y points intercept slope =
      spread y points - 2 * slope * covariation x y points + slope ^ 2 * spread x points +
        points.length * (mean y points - slope * mean x points - intercept) ^ 2 := by
  rw [squaredError_expand x y points intercept slope (mean x points) (mean y points),
    sum_sub_mean h, sum_sub_mean h]
  simp only [spread, covariation]
  ring

/-- For every slope the best line passes through the means. -/
theorem squaredError_mean_le (h : points ≠ []) (intercept slope : K) :
    squaredError x y points (mean y points - slope * mean x points) slope ≤
      squaredError x y points intercept slope := by
  rw [squaredError_eq h, squaredError_eq h, sub_self]
  have hsquare : 0 ≤ (points.length : K) *
      (mean y points - slope * mean x points - intercept) ^ 2 := by positivity
  linarith

/-- Of an interval the clamped value is the nearest. -/
theorem sq_clamp_sub_le {lo hi slope : K} (hlo : lo ≤ slope) (hhi : slope ≤ hi) (best : K) :
    (max lo (min best hi) - best) ^ 2 ≤ (slope - best) ^ 2 := by
  rw [sq_le_sq]
  rcases le_total best lo with hbelow | habove
  · rw [min_eq_left (hbelow.trans (hlo.trans hhi)), max_eq_left hbelow,
      abs_of_nonneg (sub_nonneg.mpr hbelow), abs_of_nonneg (sub_nonneg.mpr (hbelow.trans hlo))]
    exact sub_le_sub_right hlo best
  · rcases le_total best hi with hinside | hbeyond
    · rw [min_eq_left hinside, max_eq_right habove, sub_self, abs_zero]
      exact abs_nonneg _
    · rw [min_eq_right hbeyond, max_eq_right (hlo.trans hhi),
        abs_of_nonpos (sub_nonpos.mpr hbeyond),
        abs_of_nonpos (sub_nonpos.mpr (hhi.trans hbeyond))]
      exact neg_le_neg (sub_le_sub_right hhi best)

/-- The clamped slope with its line through the means is the best of all lines whose
slope is in the interval. -/
theorem squaredError_clamp_le (h : points ≠ []) (hspread : 0 < spread x points)
    {lo hi slope : K} (hlo : lo ≤ slope) (hhi : slope ≤ hi) (intercept : K) :
    squaredError x y points
        (mean y points -
          max lo (min (covariation x y points / spread x points) hi) * mean x points)
        (max lo (min (covariation x y points / spread x points) hi)) ≤
      squaredError x y points intercept slope := by
  refine le_trans ?_ (squaredError_mean_le h intercept slope)
  generalize hfree : covariation x y points / spread x points = free
  have hcovariation : covariation x y points = free * spread x points := by
    rw [← hfree, div_mul_cancel₀ _ hspread.ne']
  have hnearest := mul_le_mul_of_nonneg_left (sq_clamp_sub_le hlo hhi free) hspread.le
  rw [squaredError_eq h, squaredError_eq h, hcovariation]
  linarith

theorem squaredError_nonneg (x y : ι → K) (points : List ι) (intercept slope : K) :
    0 ≤ squaredError x y points intercept slope := by
  apply List.sum_nonneg
  intro square hsquare
  obtain ⟨i, -, rfl⟩ := List.mem_map.mp hsquare
  exact sq_nonneg _

/-- Only a line through all points has no error. -/
theorem squaredError_eq_zero_iff (intercept slope : K) :
    squaredError x y points intercept slope = 0 ↔
      ∀ i ∈ points, y i = intercept + slope * x i := by
  have hresidual (i : ι) :
      (y i - intercept - slope * x i) ^ 2 = 0 ↔ y i = intercept + slope * x i := by
    rw [sq_eq_zero_iff, sub_sub, sub_eq_zero]
  induction points with
  | nil => simp [squaredError]
  | cons i rest ih =>
      have hsplit : squaredError x y (i :: rest) intercept slope =
          (y i - intercept - slope * x i) ^ 2 + squaredError x y rest intercept slope := by
        simp [squaredError]
      rw [hsplit, add_eq_zero_iff_of_nonneg (sq_nonneg _) (squaredError_nonneg x y rest _ _),
        hresidual, List.forall_mem_cons]
      exact and_congr_right' ih

/-- Points at different places are spread out. -/
theorem spread_pos {i j : ι} (hi : i ∈ points) (hj : j ∈ points) (hne : x i ≠ x j) :
    0 < spread x points := by
  have hspread : spread x points = squaredError (fun _ => 0) x points (mean x points) 0 := by
    simp [spread, squaredError]
  rw [hspread]
  apply lt_of_le_of_ne (squaredError_nonneg _ _ _ _ _)
  intro hzero
  have hmean := (squaredError_eq_zero_iff _ _).mp hzero.symm
  exact hne ((hmean i hi).trans (hmean j hj).symm)

/-- The mean is no further from a value than the points are. -/
theorem abs_sub_mean_le (h : points ≠ []) {a bound : K} (hnear : ∀ i ∈ points, |a - y i| ≤ bound) :
    |a - mean y points| ≤ bound := by
  have hcount : (0 : K) < points.length := by
    exact_mod_cast List.length_pos_iff.mpr h
  have hbelow : (points.map y).sum ≤ points.length * (a + bound) := by
    have hsum := List.sum_le_card_nsmul (points.map y) (a + bound) fun v hv => by
      obtain ⟨i, hi, rfl⟩ := List.mem_map.mp hv
      linarith [(abs_le.mp (hnear i hi)).1]
    rwa [List.length_map, nsmul_eq_mul] at hsum
  have habove : points.length * (a - bound) ≤ (points.map y).sum := by
    have hsum := List.card_nsmul_le_sum (points.map y) (a - bound) fun v hv => by
      obtain ⟨i, hi, rfl⟩ := List.mem_map.mp hv
      linarith [(abs_le.mp (hnear i hi)).2]
    rwa [List.length_map, nsmul_eq_mul] at hsum
  have hhigh : mean y points ≤ a + bound := by
    rw [mean, div_le_iff₀ hcount]
    linarith
  have hlow : a - bound ≤ mean y points := by
    rw [mean, le_div_iff₀ hcount]
    linarith
  rw [abs_le]
  constructor <;> linarith

end Ordered

end LeastSquares
