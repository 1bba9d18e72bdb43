import Mathlib.Tactic
import Mathlib.Data.Rat.Lemmas
import Tidkod.Protocol.CheckedTimeline

/-!
Rates as canonical fractions. Whatever fraction a rate is made from, it stands for the
value of that fraction in lowest terms, so that comparing the parts of two rates compares
their values.
-/

namespace Tidkod

namespace Rate

/-- A rate has no other parts than those of its value in lowest terms. -/
theorem asF64_parts (r : Rate) :
    r.asF64.num = r.numerator ∧ (r.asF64.den : Int) = r.denominator := by
  have hpos : (0 : Int) < r.denominator := by exact_mod_cast r.denominator_pos
  have hcoprime : Nat.Coprime r.numerator.natAbs (r.denominator : Int).natAbs := r.reduced
  have hvalue : r.asF64 = (r.numerator : ℚ) / ((r.denominator : Int) : ℚ) := by
    rw [asF64, Int.cast_natCast]
  rw [hvalue]
  exact ⟨Rat.num_div_eq_of_coprime hpos hcoprime, Rat.den_div_eq_of_coprime hpos hcoprime⟩

theorem ext_parts {r s : Rate} (hnumerator : r.numerator = s.numerator)
    (hdenominator : r.denominator = s.denominator) : r = s := by
  cases r
  cases s
  cases hnumerator
  cases hdenominator
  rfl

/-- Structural equality is equality of values. -/
theorem eq_iff_asF64_eq (r s : Rate) : r = s ↔ r.asF64 = s.asF64 := by
  constructor
  · intro h
    rw [h]
  · intro h
    obtain ⟨hnumerator, hdenominator⟩ := r.asF64_parts
    obtain ⟨hnumerator', hdenominator'⟩ := s.asF64_parts
    rw [h] at hnumerator hdenominator
    apply ext_parts
    · exact hnumerator.symm.trans hnumerator'
    · exact_mod_cast hdenominator.symm.trans hdenominator'

/-- The common divisor cancels. -/
theorem asF64_of_new {numerator : Int} {denominator : Nat} {r : Rate}
    (h : Rate.new numerator denominator = .ok r) :
    r.asF64 = (numerator : ℚ) / denominator := by
  have hadmitted : AdmittedRate numerator denominator := (new_ok_iff _ _).mp ⟨r, h⟩
  rw [Rate.new, dif_pos hadmitted] at h
  obtain rfl := Except.ok.inj h
  have hpos : 0 < Nat.gcd numerator.natAbs denominator :=
    Nat.gcd_pos_of_pos_right _ (Nat.pos_of_ne_zero hadmitted.1)
  have hdvd : ((Nat.gcd numerator.natAbs denominator : Nat) : Int) ∣ numerator :=
    Int.natCast_dvd.mpr (Nat.gcd_dvd_left _ _)
  have hne : ((Nat.gcd numerator.natAbs denominator : Nat) : ℚ) ≠ 0 := by
    exact_mod_cast hpos.ne'
  simp only [asF64, euclid_eq_gcd, Int.tdiv_eq_ediv_of_dvd hdvd]
  rw [Int.cast_div hdvd (by exact_mod_cast hne), Nat.cast_div (Nat.gcd_dvd_right _ _) hne,
    Int.cast_natCast, div_div_div_cancel_right₀ hne]

/-- Normalising a rate once more changes nothing. -/
theorem new_parts (r : Rate) : Rate.new r.numerator r.denominator = .ok r := by
  obtain ⟨s, hs⟩ := (new_ok_iff _ _).mpr r.admitted
  have hvalue : s.asF64 = r.asF64 := asF64_of_new hs
  rw [hs, (eq_iff_asF64_eq s r).mpr hvalue]

theorem admittedRate_iff (numerator : Int) (denominator : Nat) :
    AdmittedRate numerator denominator ↔
      1 ≤ denominator ∧ denominator ≤ 1000000 ∧ |numerator| ≤ 1000000 ∧
        |numerator| ≤ 64 * denominator := by
  simp only [AdmittedRate, Int.abs_eq_natAbs]
  omega

theorem eq_paused_of_new {denominator : Nat} {r : Rate} (h : Rate.new 0 denominator = .ok r) :
    r = Rate.paused := by
  apply (eq_iff_asF64_eq r Rate.paused).mpr
  rw [asF64_of_new h, Int.cast_zero, zero_div, asF64]
  simp [Rate.paused]

/-- A rate is a canonical form. The constructor never panics, accepts just the admitted
fractions and keeps their value in lowest terms; two rates are equal if their values are;
and fractions of one value play alike. -/
theorem new_canonical :
    (∀ (numerator : Int) (denominator : Nat),
      euclidM numerator.natAbs denominator = .ok (Nat.gcd numerator.natAbs denominator) ∧
      newM numerator denominator = returned (Rate.new numerator denominator) ∧
      ((∃ r, Rate.new numerator denominator = .ok r) ↔
        1 ≤ denominator ∧ denominator ≤ 1000000 ∧ |numerator| ≤ 1000000 ∧
          |numerator| ≤ 64 * denominator) ∧
      ∀ r, Rate.new numerator denominator = .ok r →
        r.asF64 = (numerator : ℚ) / denominator ∧ 0 < r.denominator ∧
          Nat.Coprime r.numerator.natAbs r.denominator ∧ (numerator = 0 → r = Rate.paused)) ∧
    (∀ r s : Rate, r = s ↔ r.asF64 = s.asF64) ∧
    (∀ r : Rate, Rate.new r.numerator r.denominator = .ok r) ∧
    ∀ (n n' : Int) (d d' : Nat) (r r' : Rate), Rate.new n d = .ok r → Rate.new n' d' = .ok r' →
      (n : ℚ) / d = (n' : ℚ) / d' →
      ∀ (p : Position) (elapsedNs : Int) (format : FrameFormat),
        p.advance elapsedNs format r = p.advance elapsedNs format r' := by
  refine ⟨fun numerator denominator => ⟨?_, newM_eq numerator denominator, ?_, fun r h => ?_⟩,
    eq_iff_asF64_eq, new_parts, ?_⟩
  · rw [euclidM_eq, euclid_eq_gcd]
  · rw [new_ok_iff, admittedRate_iff]
  · refine ⟨asF64_of_new h, r.denominator_pos, r.reduced, ?_⟩
    rintro rfl
    exact eq_paused_of_new h
  · intro n n' d d' r r' hr hr' hvalue p elapsedNs format
    have hsame : r = r' := (eq_iff_asF64_eq r r').mpr (by
      rw [asF64_of_new hr, asF64_of_new hr', hvalue])
    rw [hsame]

end Rate

end Tidkod
