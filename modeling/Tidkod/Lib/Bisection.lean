import Mathlib.Tactic

/-!
Bisection of a range of naturals for the first element that satisfies a predicate.
For a predicate that stays true once it is true, the result is the first. In general
it is a place where the predicate turns true, and it is the first one exactly when the
predicate holds at every midpoint that the search for the first would meet behind it.
-/

namespace Bisection

variable (p : Nat → Bool)

def middle (lo hi : Nat) : Nat := lo + (hi - lo) / 2

/-- `while lo < hi`, which takes at most `fuel = hi - lo` rounds. -/
def narrow : Nat → Nat → Nat → Nat
  | 0, lo, _ => lo
  | fuel + 1, lo, hi =>
      if lo < hi then
        if p (middle lo hi) then narrow fuel lo (middle lo hi)
        else narrow fuel (middle lo hi + 1) hi
      else lo

def first (lo hi : Nat) : Option Nat :=
  if hi < lo ∨ p hi = false then none else some (narrow p (hi - lo) lo hi)

/-- The midpoints met while halving `lo..=hi` down to `c`. -/
def midpoints (c : Nat) : Nat → Nat → Nat → List Nat
  | 0, _, _ => []
  | fuel + 1, lo, hi =>
      if lo < hi then
        middle lo hi ::
          if c ≤ middle lo hi then midpoints c fuel lo (middle lo hi)
          else midpoints c fuel (middle lo hi + 1) hi
      else []

/-- The first element of `lo..=hi` that satisfies the predicate. -/
structure IsFirst (lo hi c : Nat) : Prop where
  le : lo ≤ c
  le_end : c ≤ hi
  holds : p c = true
  first : ∀ t, lo ≤ t → t < c → p t = false

/-- Every probe behind the first element is answered as by a predicate that stays
true. -/
def Sound (lo hi c : Nat) : Prop :=
  p hi = true ∧ ∀ m ∈ midpoints c (hi - lo) lo hi, c ≤ m → p m = true

variable {p}

theorem middle_mem {lo hi : Nat} (h : lo < hi) : lo ≤ middle lo hi ∧ middle lo hi < hi := by
  unfold middle
  omega

/-- The search ends in the range, where the predicate has just turned true. -/
theorem narrow_spec {fuel lo hi : Nat} (hle : lo ≤ hi) (hfuel : hi - lo ≤ fuel)
    (hend : p hi = true) :
    lo ≤ narrow p fuel lo hi ∧ narrow p fuel lo hi ≤ hi ∧ p (narrow p fuel lo hi) = true ∧
      (narrow p fuel lo hi = lo ∨ p (narrow p fuel lo hi - 1) = false) := by
  induction fuel generalizing lo hi with
  | zero =>
      obtain rfl : lo = hi := by omega
      exact ⟨le_rfl, le_rfl, hend, Or.inl rfl⟩
  | succ fuel ih =>
      by_cases hlt : lo < hi
      · obtain ⟨hmiddle, hmiddle'⟩ := middle_mem hlt
        rw [narrow, if_pos hlt]
        by_cases hmid : p (middle lo hi) = true
        · obtain ⟨hlo, hhi, hrest⟩ := ih hmiddle (by omega) hmid
          rw [if_pos hmid]
          exact ⟨hlo, by omega, hrest⟩
        · have hnext : middle lo hi + 1 ≤ hi := hmiddle'
          obtain ⟨hlo, hhi, hholds, hturn⟩ := ih hnext (by omega) hend
          rw [if_neg hmid]
          refine ⟨by omega, hhi, hholds, Or.inr ?_⟩
          rcases hturn with hstart | hturn
          · rw [hstart, Nat.add_sub_cancel]
            exact Bool.not_eq_true _ ▸ hmid
          · exact hturn
      · obtain rfl : lo = hi := by omega
        rw [narrow, if_neg hlt]
        exact ⟨le_rfl, le_rfl, hend, Or.inl rfl⟩

theorem first_eq_none_iff {lo hi : Nat} : first p lo hi = none ↔ hi < lo ∨ p hi = false := by
  unfold first
  split_ifs with h <;> simp [h]

/-- What a search returns, whatever the predicate. -/
theorem first_spec {lo hi d : Nat} (h : first p lo hi = some d) :
    lo ≤ d ∧ d ≤ hi ∧ p d = true ∧ (d = lo ∨ p (d - 1) = false) := by
  unfold first at h
  split_ifs at h with hnone
  obtain rfl := Option.some.inj h
  simp only [not_or, not_lt, Bool.not_eq_false] at hnone
  exact narrow_spec hnone.1 le_rfl hnone.2

theorem narrow_eq_iff {fuel lo hi c : Nat} (hfuel : hi - lo ≤ fuel) (hc : IsFirst p lo hi c)
    (hend : p hi = true) :
    narrow p fuel lo hi = c ↔ ∀ m ∈ midpoints c fuel lo hi, c ≤ m → p m = true := by
  induction fuel generalizing lo hi with
  | zero =>
      have hlo := hc.le
      have hhi := hc.le_end
      have heq : narrow p 0 lo hi = c := by
        rw [narrow]
        omega
      exact ⟨fun _ m hm => absurd hm List.not_mem_nil, fun _ => heq⟩
  | succ fuel ih =>
      by_cases hlt : lo < hi
      · obtain ⟨hmiddle, hmiddle'⟩ := middle_mem hlt
        rw [narrow, if_pos hlt, midpoints, if_pos hlt, List.forall_mem_cons]
        by_cases hmid : p (middle lo hi) = true
        · -- The first element is not behind a midpoint that satisfies the predicate.
          have hbefore : c ≤ middle lo hi := by
            by_contra hbehind
            have hfalse := hc.first (middle lo hi) hmiddle (by omega)
            rw [hmid] at hfalse
            cases hfalse
          rw [if_pos hmid, if_pos hbefore,
            ih (by omega) ⟨hc.le, hbefore, hc.holds, hc.first⟩ hmid]
          exact ⟨fun h => ⟨fun _ => hmid, h⟩, fun h => h.2⟩
        · rw [if_neg hmid]
          by_cases hbefore : c ≤ middle lo hi
          · -- The search leaves the half that holds the first element.
            have hnext : middle lo hi + 1 ≤ hi := hmiddle'
            have hrest : hi - (middle lo hi + 1) ≤ fuel := by omega
            obtain ⟨hbehind, -⟩ := narrow_spec (p := p) hnext hrest hend
            constructor
            · intro heq
              omega
            · intro h
              exact absurd (h.1 hbefore) hmid
          · have hrest : IsFirst p (middle lo hi + 1) hi c :=
              ⟨by omega, hc.le_end, hc.holds, fun t ht => hc.first t (by omega)⟩
            rw [if_neg hbefore, ih (by omega) hrest hend]
            exact ⟨fun h => ⟨fun hle => absurd hle hbefore, h⟩, fun h => h.2⟩
      · have hlo := hc.le
        have hhi := hc.le_end
        rw [narrow, if_neg hlt, midpoints, if_neg hlt]
        exact ⟨fun _ m hm => absurd hm List.not_mem_nil, fun _ => by omega⟩

/-- The search finds the first element exactly when its probes are sound. -/
theorem first_eq_iff {lo hi c : Nat} (hc : IsFirst p lo hi c) :
    first p lo hi = some c ↔ Sound p lo hi c := by
  have hle : ¬ hi < lo := not_lt.mpr (hc.le.trans hc.le_end)
  unfold first Sound
  by_cases hend : p hi = true
  · have hsome : ¬ (hi < lo ∨ p hi = false) := by simp [hle, hend]
    rw [if_neg hsome, Option.some.injEq, narrow_eq_iff le_rfl hc hend]
    exact ⟨fun h => ⟨hend, h⟩, fun h => h.2⟩
  · have hnone : hi < lo ∨ p hi = false := Or.inr (Bool.not_eq_true _ ▸ hend)
    rw [if_pos hnone]
    constructor
    · intro h
      cases h
    · intro h
      exact absurd h.1 hend

theorem midpoints_le {fuel lo hi c : Nat} : ∀ m ∈ midpoints c fuel lo hi, m ≤ hi := by
  induction fuel generalizing lo hi with
  | zero => exact fun m hm => absurd hm List.not_mem_nil
  | succ fuel ih =>
      by_cases hlt : lo < hi
      · obtain ⟨-, hmiddle⟩ := middle_mem hlt
        rw [midpoints, if_pos hlt, List.forall_mem_cons]
        refine ⟨hmiddle.le, fun m hm => ?_⟩
        split_ifs at hm
        · exact (ih m hm).trans hmiddle.le
        · exact ih m hm
      · rw [midpoints, if_neg hlt]
        exact fun m hm => absurd hm List.not_mem_nil

/-- A predicate that stays true answers every probe soundly. -/
theorem sound_of_steady {lo hi c : Nat} (hc : IsFirst p lo hi c)
    (hsteady : ∀ t, c ≤ t → t ≤ hi → p t = true) : Sound p lo hi c :=
  ⟨hsteady hi hc.le_end le_rfl, fun m hm hle => hsteady m hle (midpoints_le m hm)⟩

/-- Where the predicate holds somewhere, it holds somewhere first. -/
theorem exists_isFirst {lo hi t : Nat} (hlo : lo ≤ t) (hhi : t ≤ hi) (ht : p t = true) :
    ∃ c, IsFirst p lo hi c ∧ c ≤ t := by
  have hexists : ∃ c, lo ≤ c ∧ p c = true := ⟨t, hlo, ht⟩
  classical
  refine ⟨Nat.find hexists, ⟨(Nat.find_spec hexists).1, ?_, (Nat.find_spec hexists).2, ?_⟩, ?_⟩
  · exact (Nat.find_min' hexists ⟨hlo, ht⟩).trans hhi
  · intro s hs hlt
    by_contra hne
    exact Nat.find_min hexists hlt ⟨hs, Bool.not_eq_false _ ▸ hne⟩
  · exact Nat.find_min' hexists ⟨hlo, ht⟩

/-- Up to a bound where it holds, a property that stays true holds from one place on. -/
theorem existsUnique_from {q : Nat → Prop} (hsteady : ∀ x y, x ≤ y → q x → q y) {hi : Nat}
    (hq : q hi) : ∃! c, c ≤ hi ∧ ∀ t ≤ hi, q t ↔ c ≤ t := by
  classical
  obtain ⟨c, hc, -⟩ := exists_isFirst (p := fun t => decide (q t)) (Nat.zero_le hi) le_rfl
    (decide_eq_true hq)
  have hholds : q c := of_decide_eq_true hc.holds
  have hfirst : ∀ t, q t → c ≤ t := by
    intro t ht
    by_contra hlt
    exact of_decide_eq_false (hc.first t (Nat.zero_le t) (not_le.mp hlt)) ht
  refine ⟨c, ⟨hc.le_end, fun t _ => ⟨hfirst t, fun hle => hsteady c t hle hholds⟩⟩, ?_⟩
  rintro d ⟨hd, hiff⟩
  exact le_antisymm ((hiff c hc.le_end).mp hholds) (hfirst d ((hiff d hd).mpr le_rfl))

end Bisection
