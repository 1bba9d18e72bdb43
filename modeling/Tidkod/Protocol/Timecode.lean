import Mathlib.Tactic
import Mathlib.Data.Rat.Floor
import Tidkod.Lib.Rounding

/-!
Frame formats, fixed-point positions and playback rates (`timecode.rs`). The
private fields of the source types are kept valid by their constructors; here
the same facts are fields of the structures. Fixed-width integers are unbounded
integers with the ranges of their types stated where a value is stored, and
`f64` values are exact rationals.
-/

namespace Tidkod

open Rounding

/-- The errors of the protocol crate; malformed protobuf carries no text here. -/
inductive Error where
  | invalid (what : String)
  | version (found : Nat)
  | size
  | decode
  deriving DecidableEq, Repr

def i64Min : Int := -2 ^ 63
def i64Max : Nat := 2 ^ 63 - 1
def u64Max : Nat := 2 ^ 64 - 1
def i128Min : Int := -2 ^ 127
def i128Max : Int := 2 ^ 127 - 1

/-- `f64 as u64`. -/
def asU64 (x : ℚ) : Nat := toUnsigned u64Max x

/-- `f64 as i128`. -/
def asI128 (x : ℚ) : Int := toSigned i128Min i128Max x

/-- One frame in Q32 units. -/
def q32 : Int := 2 ^ 32

/-- The exact frame rates of the protocol. -/
def frameRates : List (Nat × Nat) :=
  [(24000, 1001), (24, 1), (25, 1), (30000, 1001), (30, 1), (48000, 1001), (48, 1), (50, 1),
    (60000, 1001), (60, 1)]

/-- The frame rates that have drop-frame labels. -/
def dropFrameRates : List (Nat × Nat) := [(30000, 1001), (60000, 1001)]

/-- The combinations that `FrameFormat::new` accepts. -/
def SupportedFormat (numerator denominator : Nat) (dropFrame : Bool) : Prop :=
  (numerator, denominator) ∈ frameRates ∧
    (dropFrame = true → (numerator, denominator) ∈ dropFrameRates)

instance (numerator denominator : Nat) (dropFrame : Bool) :
    Decidable (SupportedFormat numerator denominator dropFrame) :=
  inferInstanceAs (Decidable (_ ∧ _))

structure FrameFormat where
  numerator : Nat
  denominator : Nat
  dropFrame : Bool
  supported : SupportedFormat numerator denominator dropFrame
  deriving DecidableEq

def FrameFormat.new (numerator denominator : Nat) (dropFrame : Bool) :
    Except Error FrameFormat :=
  if h : SupportedFormat numerator denominator dropFrame then
    .ok ⟨numerator, denominator, dropFrame, h⟩
  else
    .error (.invalid "frame format")

/-- `FrameFormat::default`: 30 frames per second. -/
def FrameFormat.default : FrameFormat := ⟨30, 1, false, by decide⟩

def FrameFormat.fps (f : FrameFormat) : ℚ := f.numerator / f.denominator

/-- Signed unwrapped frames with Q32 subframes. -/
structure Position where
  frames : Int
  subframe : Nat
  frames_mem : i64Min ≤ frames ∧ frames ≤ i64Max
  subframe_lt : subframe < 2 ^ 32
  deriving DecidableEq

def Position.zero : Position := ⟨0, 0, by decide, by decide⟩

def Position.fixed (p : Position) : Int := p.frames * q32 + p.subframe

def Position.fixedMin : Int := i64Min * q32
def Position.fixedMax : Int := i64Max * q32 + (q32 - 1)

/-- Clamping to the representable range, then splitting at the binary point. -/
def Position.fromFixed (value : Int) : Position :=
  let v := clamp fixedMin fixedMax value
  { frames := v / q32
    subframe := (v % q32).toNat
    frames_mem := by
      have hv := clamp_mem (by decide : fixedMin ≤ fixedMax) value
      have hlo : fixedMin ≤ v := hv.1
      have hhi : v ≤ fixedMax := hv.2
      simp only [fixedMin, fixedMax, i64Min, i64Max, q32] at hlo hhi ⊢
      omega
    subframe_lt := by
      simp only [q32]
      omega }

/-- The Euclidean loop of `Rate::new`. -/
def euclid (a b : Nat) : Nat :=
  if _h : b = 0 then a else euclid b (a % b)
termination_by b
decreasing_by exact Nat.mod_lt _ (Nat.pos_of_ne_zero _h)

theorem euclid_eq_gcd (a b : Nat) : euclid a b = Nat.gcd a b := by
  induction a, b using euclid.induct with
  | case1 a => rw [euclid]; simp
  | case2 a b h ih =>
      rw [euclid, dif_neg h, ih, Nat.gcd_comm a b]
      exact (Nat.gcd_rec b a).symm ▸ Nat.gcd_comm b (a % b)

/-- What `Rate::new` requires of its arguments. -/
def AdmittedRate (numerator : Int) (denominator : Nat) : Prop :=
  denominator ≠ 0 ∧ denominator ≤ 1000000 ∧ numerator.natAbs ≤ 1000000 ∧
    numerator.natAbs ≤ denominator * 64

instance (numerator : Int) (denominator : Nat) : Decidable (AdmittedRate numerator denominator) :=
  inferInstanceAs (Decidable (_ ∧ _))

/-- Signed rational playback multiplier in lowest terms. -/
structure Rate where
  numerator : Int
  denominator : Nat
  admitted : AdmittedRate numerator denominator
  reduced : Nat.gcd numerator.natAbs denominator = 1
  deriving DecidableEq

def Rate.paused : Rate := ⟨0, 1, by decide, by decide⟩
def Rate.normal : Rate := ⟨1, 1, by decide, by decide⟩

private theorem reduce_admitted {numerator : Int} {denominator : Nat}
    (h : AdmittedRate numerator denominator) :
    AdmittedRate (numerator.tdiv (euclid numerator.natAbs denominator))
      (denominator / euclid numerator.natAbs denominator) := by
  obtain ⟨hpos, hden, hnum, hratio⟩ := h
  rw [euclid_eq_gcd]
  have hg : 0 < Nat.gcd numerator.natAbs denominator :=
    Nat.gcd_pos_of_pos_right _ (Nat.pos_of_ne_zero hpos)
  have habs : (numerator.tdiv (Nat.gcd numerator.natAbs denominator : Nat)).natAbs =
      numerator.natAbs / Nat.gcd numerator.natAbs denominator := by
    rw [Int.natAbs_tdiv, Int.natAbs_natCast]
    rfl
  refine ⟨?_, (Nat.div_le_self _ _).trans hden, ?_, ?_⟩
  · have hle := Nat.le_of_dvd (Nat.pos_of_ne_zero hpos)
      (Nat.gcd_dvd_right numerator.natAbs denominator)
    exact (Nat.div_pos hle hg).ne'
  · rw [habs]
    exact (Nat.div_le_self _ _).trans hnum
  · rw [habs]
    obtain ⟨d, hd⟩ := Nat.gcd_dvd_right numerator.natAbs denominator
    obtain ⟨n, hn⟩ := Nat.gcd_dvd_left numerator.natAbs denominator
    generalize Nat.gcd numerator.natAbs denominator = g at *
    rw [hn, hd, Nat.mul_div_cancel_left _ hg, Nat.mul_div_cancel_left _ hg]
    rw [hn, hd, Nat.mul_assoc] at hratio
    exact Nat.le_of_mul_le_mul_left hratio hg

private theorem reduce_reduced {numerator : Int} {denominator : Nat}
    (h : AdmittedRate numerator denominator) :
    Nat.gcd (numerator.tdiv (euclid numerator.natAbs denominator)).natAbs
      (denominator / euclid numerator.natAbs denominator) = 1 := by
  rw [euclid_eq_gcd, Int.natAbs_tdiv, Int.natAbs_natCast]
  exact Nat.coprime_div_gcd_div_gcd
    (Nat.gcd_pos_of_pos_right _ (Nat.pos_of_ne_zero h.1))

def Rate.new (numerator : Int) (denominator : Nat) : Except Error Rate :=
  if h : AdmittedRate numerator denominator then
    let a := euclid numerator.natAbs denominator
    .ok ⟨numerator.tdiv a, denominator / a, reduce_admitted h, reduce_reduced h⟩
  else
    .error (.invalid "rate (maximum magnitude 64)")

def Rate.asF64 (r : Rate) : ℚ := r.numerator / r.denominator

/-- `Position::advance`: the delta is split into quotient and remainder. -/
def Position.advance (p : Position) (elapsedNs : Int) (format : FrameFormat) (rate : Rate) :
    Position :=
  let num := elapsedNs * format.numerator * rate.numerator
  let den : Int := 1000000000 * format.denominator * rate.denominator
  let delta := num.tdiv den * q32 + (num.tmod den * q32).tdiv den
  fromFixed (clamp i128Min i128Max (p.fixed + delta))

theorem Position.fixed_mem (p : Position) : fixedMin ≤ p.fixed ∧ p.fixed ≤ fixedMax := by
  have hframes := p.frames_mem
  have hsub := p.subframe_lt
  simp only [fixedMin, fixedMax, fixed, i64Min, i64Max, q32] at hframes ⊢
  omega

@[simp] theorem Position.fixed_fromFixed (value : Int) :
    (fromFixed value).fixed = clamp fixedMin fixedMax value := by
  have hmod := Int.emod_nonneg (clamp fixedMin fixedMax value) (by decide : q32 ≠ 0)
  simp only [fixed, fromFixed, Int.toNat_of_nonneg hmod]
  exact Int.ediv_mul_add_emod (clamp fixedMin fixedMax value) q32

@[ext] theorem Position.ext_fixed {p q : Position} (h : p.fixed = q.fixed) : p = q := by
  obtain ⟨pf, ps, hpf, hps⟩ := p
  obtain ⟨qf, qs, hqf, hqs⟩ := q
  simp only [fixed, q32] at h
  have hframes : pf = qf := by omega
  have hsub : ps = qs := by omega
  subst hframes hsub
  rfl

@[simp] theorem Position.fromFixed_fixed (p : Position) : fromFixed p.fixed = p :=
  ext_fixed (by rw [fixed_fromFixed, clamp_of_mem p.fixed_mem.1 p.fixed_mem.2])

theorem Rate.new_ok_iff (numerator : Int) (denominator : Nat) :
    (∃ r, Rate.new numerator denominator = .ok r) ↔ AdmittedRate numerator denominator := by
  unfold Rate.new
  by_cases h : AdmittedRate numerator denominator <;> simp [h]

theorem FrameFormat.new_ok_iff (numerator denominator : Nat) (dropFrame : Bool) :
    (∃ f, FrameFormat.new numerator denominator dropFrame = .ok f) ↔
      SupportedFormat numerator denominator dropFrame := by
  unfold FrameFormat.new
  by_cases h : SupportedFormat numerator denominator dropFrame <;> simp [h]

end Tidkod
