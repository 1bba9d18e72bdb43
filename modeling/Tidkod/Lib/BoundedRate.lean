import Mathlib.Tactic
import Mathlib.Algebra.Order.Field.Basic

/-!
A remote clock read through request and reply messages. Nothing is assumed
about the clock but a bound on its rate relative to the local time base, and
nothing about the paths but that messages take nonnegative time. Readings may
be truncated by less than one grain.
-/

namespace BoundedRate

variable {K : Type*} [Field K] [LinearOrder K] [IsStrictOrderedRing K]

/-- Distance of a clock from the time base it is a function of. -/
def offset (clock : K → K) (x : K) : K := clock x - x

/-- The relative rate of the clock stays within `±rate`. -/
def Within (rate : K) (clock : K → K) : Prop :=
  ∀ x y, |offset clock x - offset clock y| ≤ rate * |x - y|

/-- `reading` is the clock at `x`, exact or rounded down by less than `grain`. -/
def Reads (grain : K) (clock : K → K) (x reading : K) : Prop :=
  reading ≤ clock x ∧ clock x < reading + grain

/-- A request sent at `t1` and received at some `a`, a reply sent at some `b`
and received at `t4`; `t2` and `t3` are the remote clock at `a` and `b`. -/
def TwoWay (grain : K) (clock : K → K) (t1 t2 t3 t4 : K) : Prop :=
  ∃ a b, t1 ≤ a ∧ a ≤ b ∧ b ≤ t4 ∧ Reads grain clock a t2 ∧ Reads grain clock b t3

theorem abs_sub_midpoint_le {t1 t4 x : K} (h1 : t1 ≤ x) (h4 : x ≤ t4) :
    |(t1 + t4) / 2 - x| ≤ (t4 - t1) / 2 := by
  rw [abs_le]
  constructor <;> linarith

/-- The drift between `y` and an instant inside the exchange. -/
theorem Within.near_midpoint {rate : K} (hrate : 0 ≤ rate) {clock : K → K}
    (h : Within rate clock) {t1 t4 x : K} (h1 : t1 ≤ x) (h4 : x ≤ t4) (y : K) :
    |offset clock y - offset clock x| ≤ rate * (|y - (t1 + t4) / 2| + (t4 - t1) / 2) := by
  have htriangle : |y - x| ≤ |y - (t1 + t4) / 2| + |(t1 + t4) / 2 - x| :=
    abs_sub_le y ((t1 + t4) / 2) x
  have hmid := abs_sub_midpoint_le h1 h4
  calc
    |offset clock y - offset clock x| ≤ rate * |y - x| := h y x
    _ ≤ rate * (|y - (t1 + t4) / 2| + (t4 - t1) / 2) :=
        mul_le_mul_of_nonneg_left (by linarith) hrate

/-- The two one-way constraints, symmetric about the midpoint offset: the true
offset at any `y` is within half the path delay of the measured one, up to the
drift since the exchange, the drift during it, and the grain. -/
theorem TwoWay.offset_bound {rate grain : K} (hrate : 0 ≤ rate) {clock : K → K}
    (h : Within rate clock) {t1 t2 t3 t4 : K} (hx : TwoWay grain clock t1 t2 t3 t4) (y : K) :
    |offset clock y - ((t2 - t1) + (t3 - t4)) / 2| ≤
      ((t4 - t1) - (t3 - t2)) / 2 +
        rate * (|y - (t1 + t4) / 2| + (t4 - t1) / 2) + grain := by
  obtain ⟨a, b, h1a, hab, hb4, ⟨ht2, ht2'⟩, ⟨ht3, ht3'⟩⟩ := hx
  have ha := (abs_le.mp (h.near_midpoint hrate h1a (hab.trans hb4) y)).2
  have hb := (abs_le.mp (h.near_midpoint hrate (h1a.trans hab) hb4 y)).1
  have hupper : offset clock a ≤ t2 + grain - t1 := by
    simp only [offset]
    linarith
  have hlower : t3 - t4 ≤ offset clock b := by
    simp only [offset]
    linarith
  have hgrain : 0 < grain := by linarith
  rw [abs_le]
  constructor <;> linarith

/-- A line extrapolated from `s` departs from the clock by the mismatch of the
two rates. -/
theorem Within.line_bound {rate : K} {clock : K → K} (h : Within rate clock)
    (value slope s x : K) :
    |value + slope * (x - s) - offset clock x| ≤
      |value - offset clock s| + (|slope| + rate) * |x - s| := by
  have hsplit : value + slope * (x - s) - offset clock x =
      (value - offset clock s) + (slope * (x - s) - (offset clock x - offset clock s)) := by
    ring
  have hslope : |slope * (x - s) - (offset clock x - offset clock s)| ≤
      |slope| * |x - s| + rate * |x - s| := by
    calc
      |slope * (x - s) - (offset clock x - offset clock s)| ≤
          |slope * (x - s)| + |offset clock x - offset clock s| := abs_sub _ _
      _ ≤ |slope| * |x - s| + rate * |x - s| := by
          rw [abs_mul]
          exact add_le_add le_rfl (h x s)
  calc
    |value + slope * (x - s) - offset clock x| ≤
        |value - offset clock s| + |slope * (x - s) - (offset clock x - offset clock s)| := by
          rw [hsplit]
          exact abs_add_le _ _
    _ ≤ |value - offset clock s| + (|slope| + rate) * |x - s| := by
        rw [add_mul]
        exact add_le_add le_rfl hslope

/-- The clock itself never runs backwards when the rate bound is below one. -/
theorem Within.mono {rate : K} (hrate : rate ≤ 1) {clock : K → K} (h : Within rate clock)
    {x y : K} (hxy : x ≤ y) : clock x ≤ clock y := by
  have hbound := (abs_le.mp (h x y)).2
  have hdist : |x - y| = y - x := by
    rw [abs_sub_comm]
    exact abs_of_nonneg (sub_nonneg.mpr hxy)
  have hle : rate * |x - y| ≤ y - x := by
    rw [hdist]
    exact mul_le_of_le_one_left (sub_nonneg.mpr hxy) hrate
  simp only [offset] at hbound
  linarith

end BoundedRate
