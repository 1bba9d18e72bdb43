import Mathlib.Tactic
import Tidkod.Lib.Machine
import Tidkod.Protocol.Clock

/-!
What one observation can do to the estimator. `observeInner_outcome` lists the
four possibilities once; every invariant of the estimator is a case analysis on
them.
-/

namespace Tidkod

open Rounding

theorem Exchange.le_of_admissible {e : Exchange} (h : e.admissible = true) :
    e.t1 ≤ e.t4 ∧ e.t2 ≤ e.t3 ∧ e.t1 ≤ i64Max ∧ e.t4 ≤ i64Max ∧
      e.t4 - e.t1 ≤ maxExchangeNs := by
  simp only [admissible, List.any_cons, List.any_nil, Bool.and_eq_true, Bool.not_eq_true',
    Bool.or_eq_false_iff, decide_eq_false_iff_not, not_lt, Bool.or_false] at h
  omega

theorem Exchange.midpoint_eq {e : Exchange} (h : e.t1 ≤ e.t4) :
    e.midpoint = ((e.t1 : ℚ) + e.t4) / 2 := by
  rw [midpoint, Nat.cast_sub h]
  ring

theorem Exchange.midpoint_le (e : Exchange) (h : e.t1 ≤ e.t4) : e.midpoint ≤ e.t4 := by
  have hcast : (e.t1 : ℚ) ≤ e.t4 := by exact_mod_cast h
  rw [midpoint_eq h]
  linarith

theorem Exchange.midpoint_nonneg (e : Exchange) : 0 ≤ e.midpoint := by
  unfold midpoint
  positivity

theorem keepLast_suffix {α : Type} (n : Nat) (xs : List α) : keepLast n xs <:+ xs := by
  unfold keepLast
  exact List.drop_suffix _ _

theorem length_keepLast {α : Type} (n : Nat) (xs : List α) :
    (keepLast n xs).length = min n xs.length := by
  unfold keepLast
  rw [List.length_drop]
  omega

theorem getLast_mem_keepLast {α : Type} {n : Nat} (hn : 0 < n) (xs : List α) (x : α) :
    x ∈ keepLast n (xs ++ [x]) := by
  have hdrop : (xs ++ [x]).length - n ≤ xs.length := by
    simp only [List.length_append, List.length_singleton]
    omega
  rw [keepLast, List.drop_append_of_le_length hdrop]
  simp

section Greatest

variable {β : Type} [LinearOrder β]

theorem le_foldl_max (xs : List β) (start : β) :
    start ≤ xs.foldl max start ∧ ∀ x ∈ xs, x ≤ xs.foldl max start := by
  induction xs generalizing start with
  | nil => simp
  | cons y rest ih =>
      obtain ⟨hstart, hrest⟩ := ih (max start y)
      refine ⟨(le_max_left _ _).trans hstart, ?_⟩
      intro x hx
      rcases List.mem_cons.mp hx with rfl | hmem
      · exact (le_max_right _ _).trans hstart
      · exact hrest x hmem

theorem foldl_max_attained (xs : List β) (start : β) :
    xs.foldl max start = start ∨ xs.foldl max start ∈ xs := by
  induction xs generalizing start with
  | nil => exact Or.inl rfl
  | cons y rest ih =>
      rcases ih (max start y) with heq | hmem
      · rcases max_choice start y with hmax | hmax
        · exact Or.inl (heq.trans hmax)
        · exact Or.inr (List.mem_cons.mpr (Or.inl (heq.trans hmax)))
      · exact Or.inr (List.mem_cons_of_mem y hmem)

/-- From below all of a nonempty list the fold comes to its greatest value. -/
theorem foldl_max_map {α : Type} (f : α → β) {xs : List α} {start : β} (hne : xs ≠ [])
    (hstart : ∀ x, start < f x) :
    ∃ x ∈ xs, (xs.map f).foldl max start = f x ∧ ∀ y ∈ xs, f y ≤ f x := by
  have hle := (le_foldl_max (xs.map f) start).2
  rcases foldl_max_attained (xs.map f) start with hnone | hmem
  · obtain ⟨y, hy⟩ := List.exists_mem_of_ne_nil xs hne
    exact absurd (hnone ▸ hle (f y) (List.mem_map_of_mem hy)) (hstart y).not_ge
  · obtain ⟨x, hx, heq⟩ := List.mem_map.mp hmem
    exact ⟨x, hx, heq.symm, fun y hy => heq ▸ hle (f y) (List.mem_map_of_mem hy)⟩

end Greatest

/-- The fold of a nonempty list is its greatest element. -/
theorem foldMax_spec {xs : List ℚ} (h : xs ≠ []) :
    ∃ x ∈ xs, foldMax xs = x ∧ ∀ y ∈ xs, y ≤ x := by
  obtain ⟨x, hmem, heq, hgreatest⟩ := foldl_max_map WithBot.some h WithBot.bot_lt_coe
  refine ⟨x, hmem, ?_, fun y hy => WithBot.coe_le_coe.mp (hgreatest y hy)⟩
  rw [← heq, ← List.flatMap_pure_eq_map]
  rfl

/-- The fold of a nonempty list is its least element, the greatest one of the dual order. -/
theorem foldMin_spec {xs : List ℚ} (h : xs ≠ []) :
    ∃ x ∈ xs, foldMin xs = x ∧ ∀ y ∈ xs, x ≤ y := by
  obtain ⟨x, hmem, heq, hleast⟩ := foldl_max_map (OrderDual.toDual ∘ WithTop.some) h
    (fun x => OrderDual.toDual_lt_toDual.mpr (WithTop.coe_lt_top x))
  refine ⟨x, hmem, ?_, fun y hy => WithTop.coe_le_coe.mp (hleast y hy)⟩
  rw [← List.flatMap_pure_eq_map] at heq
  exact heq

theorem selectSamples_subset (samples : List Sample) : selectSamples samples ⊆ samples := by
  intro s hs
  exact (List.mem_insertionSort _).mp (List.mem_of_mem_take hs)

theorem selectSamples_ne_nil {samples : List Sample} (h : samples ≠ []) :
    selectSamples samples ≠ [] := by
  have hlen : 0 < samples.length := List.length_pos_iff.mpr h
  intro hnil
  have hzero := congrArg List.length hnil
  simp only [selectSamples, List.length_take, List.length_insertionSort, List.length_nil] at hzero
  omega

/-- A mapping with bounded drift never runs backwards. -/
theorem ClockMapping.leaderTime_mono {m : ClockMapping} (hdrift : |m.drift| ≤ maxDrift) {x y : Nat}
    (hxy : x ≤ y) : m.leaderTime x ≤ m.leaderTime y := by
  have hle : (x : ℚ) ≤ y := by exact_mod_cast hxy
  have hline : (x : ℚ) + m.offsetAt x ≤ y + m.offsetAt y := by
    have hbelow : -1 ≤ m.drift := by
      have hbound := (abs_le.mp hdrift).1
      norm_num [maxDrift] at hbound
      linarith
    simp only [offsetAt]
    nlinarith [mul_le_mul_of_nonneg_left hbelow (sub_nonneg.mpr hle)]
  exact Rounding.toUnsigned_mono _ (max_le_max le_rfl (min_le_min hline le_rfl))

namespace ClockEstimator

/-- The fitted drift is clamped or carried over, so it stays in range. -/
theorem abs_fitDrift_le (selected : List Sample) (localNs : ℚ) {previous : ℚ}
    (h : |previous| ≤ maxDrift) : |fitDrift selected localNs previous| ≤ maxDrift := by
  unfold fitDrift
  dsimp only
  split_ifs
  · have hpos : (-maxDrift : ℚ) ≤ maxDrift := by norm_num [maxDrift]
    exact abs_le.mpr ⟨le_max_left _ _, max_le hpos (min_le_right _ _)⟩
  · exact h

section Refit

variable (c : ClockEstimator) (e : Exchange) (count : Nat)

@[simp] theorem refit_samples : (c.refit e count).samples = keepLast 128 c.samples := rfl

@[simp] theorem refit_recovery : (c.refit e count).recovery = c.recovery := rfl

@[simp] theorem refit_lastObserved : (c.refit e count).lastObserved = c.lastObserved := rfl

@[simp] theorem refit_mapping : (c.refit e count).mapping =
    fit (c.refit e count).samples e c.mapping.drift count := rfl

end Refit

theorem expire_suffix (samples : List Sample) (localNs : ℚ) :
    expire samples localNs <:+ samples :=
  List.dropWhile_suffix _

theorem mem_quarantine {c : ClockEstimator} {s t : Sample} (h : t ∈ c.quarantine s) :
    t ∈ c.recovery ∨ t = s := by
  have hmem := (keepLast_suffix 16 _).subset h
  rcases List.mem_append.mp hmem with hkept | hlast
  · left
    split at hkept
    · exact hkept
    · split_ifs at hkept with hconsistent
      · exact hkept
      · exact absurd hkept List.not_mem_nil
  · exact Or.inr (List.mem_singleton.mp hlast)

/-- The estimator once an exchange has passed the basic checks: its midpoint is
recorded and the history expired. -/
def arrived (c : ClockEstimator) (e : Exchange) : ClockEstimator :=
  { c with
    lastObserved := some e.midpoint
    samples := expire c.samples e.midpoint }

/-- An exchange that passes the basic checks is decided on. -/
theorem observeInner_of_new {c : ClockEstimator} {e : Exchange}
    (hadmissible : e.admissible = true) (hnew : ∀ last ∈ c.lastObserved, last < e.midpoint) :
    c.observeInner e = decideSample (c.arrived e) e := by
  have hfresh : c.lastObserved.any (fun last => e.midpoint ≤ last) = false := by
    rw [Option.any_eq_false_iff_get]
    intro hsome
    simpa using hnew _ (Option.get_mem hsome)
  simp only [observeInner, hadmissible, hfresh, Bool.not_true, Bool.false_eq_true, if_false]
  rfl

/-- The four things an observation can do. -/
inductive Outcome (c : ClockEstimator) (e : Exchange) : ClockEstimator × Bool → Prop where
  | ignored (h : e.admissible = false ∨ ∃ last ∈ c.lastObserved, e.midpoint ≤ last) :
      Outcome c e (c, false)
  | quarantined (hadmissible : e.admissible = true)
      (hnew : ∀ last ∈ c.lastObserved, last < e.midpoint) :
      Outcome c e ({ c.arrived e with recovery := (c.arrived e).quarantine e.sample }, false)
  | promoted (hadmissible : e.admissible = true)
      (hnew : ∀ last ∈ c.lastObserved, last < e.midpoint) :
      Outcome c e
        (refit { c.arrived e with
            samples := (c.arrived e).quarantine e.sample, recovery := [] } e
          ((c.arrived e).quarantine e.sample).length, true)
  | accepted (hadmissible : e.admissible = true)
      (hnew : ∀ last ∈ c.lastObserved, last < e.midpoint) (count : Nat) :
      Outcome c e
        (refit { c.arrived e with
            samples := (c.arrived e).samples ++ [e.sample], recovery := [] } e count, true)

theorem observeInner_outcome (c : ClockEstimator) (e : Exchange) :
    Outcome c e (c.observeInner e) := by
  unfold observeInner
  split_ifs with hadmissible hstale
  · exact .ignored (Or.inl (by simpa using hadmissible))
  · exact .ignored (Or.inr (by simpa [Option.any_eq_true] using hstale))
  · have hok : e.admissible = true := by simpa using hadmissible
    have hnew : ∀ last ∈ c.lastObserved, last < e.midpoint := by
      simpa [Option.any_eq_true] using hstale
    change Outcome c e (decideSample (c.arrived e) e)
    unfold decideSample
    simp only
    split_ifs with hrejected hconfirmed
    · exact .promoted hok hnew
    · exact .quarantined hok hnew
    · exact .accepted hok hnew _
    · exact .accepted hok hnew _

/-- A property of every sample that can still contribute to a fit. -/
def Retains (P : Sample → Prop) (c : ClockEstimator) : Prop :=
  (∀ s ∈ c.samples, P s) ∧ ∀ s ∈ c.recovery, P s

theorem retains_default (P : Sample → Prop) : Retains P default := by
  simp [Retains, default]

/-- Samples come from admissible exchanges only, and none is altered. -/
theorem Retains.observeInner {P : Sample → Prop} {c : ClockEstimator} {e : Exchange}
    (h : Retains P c) (he : e.admissible = true → P e.sample) :
    Retains P (c.observeInner e).1 := by
  have harrived : ∀ s ∈ (c.arrived e).samples, P s := fun s hs =>
    h.1 s ((expire_suffix _ _).subset hs)
  have hquarantine (hok : e.admissible = true) :
      ∀ s ∈ (c.arrived e).quarantine e.sample, P s := by
    intro s hs
    rcases mem_quarantine hs with hold | rfl
    · exact h.2 s hold
    · exact he hok
  have houtcome := observeInner_outcome c e
  generalize c.observeInner e = result at houtcome ⊢
  cases houtcome with
  | ignored => exact h
  | quarantined hok => exact ⟨harrived, hquarantine hok⟩
  | promoted hok =>
      refine ⟨fun s hs => ?_, by simp⟩
      rw [refit_samples] at hs
      exact hquarantine hok s ((keepLast_suffix 128 _).subset hs)
  | accepted hok =>
      refine ⟨fun s hs => ?_, by simp⟩
      rw [refit_samples] at hs
      rcases List.mem_append.mp ((keepLast_suffix 128 _).subset hs) with hold | hlast
      · exact harrived s hold
      · exact List.mem_singleton.mp hlast ▸ he hok

/-- A rejected observation does not move the mapping. -/
theorem observeInner_mapping_of_rejected {c : ClockEstimator} {e : Exchange}
    (h : (c.observeInner e).2 = false) : (c.observeInner e).1.mapping = c.mapping := by
  have houtcome := observeInner_outcome c e
  generalize c.observeInner e = result at houtcome h ⊢
  revert h
  cases houtcome with
  | ignored => exact fun _ => rfl
  | quarantined => exact fun _ => rfl
  | promoted => exact fun h => absurd h (by simp)
  | accepted => exact fun h => absurd h (by simp)

/-- An accepted observation is fitted with the quarantine it confirms, or with the history
it extends. -/
theorem observeInner_of_accepted {c : ClockEstimator} {e : Exchange}
    (h : (c.observeInner e).2 = true) :
    e.admissible = true ∧ (∀ last ∈ c.lastObserved, last < e.midpoint) ∧
      ∃ samples count,
        (samples = (c.arrived e).quarantine e.sample ∨
          samples = (c.arrived e).samples ++ [e.sample]) ∧
        (c.observeInner e).1 =
          refit { c.arrived e with samples := samples, recovery := [] } e count := by
  have houtcome := observeInner_outcome c e
  generalize c.observeInner e = result at houtcome h ⊢
  revert h
  cases houtcome with
  | ignored => exact fun h => absurd h (by simp)
  | quarantined => exact fun h => absurd h (by simp)
  | promoted hok hnew => exact fun _ => ⟨hok, hnew, _, _, Or.inl rfl, rfl⟩
  | accepted hok hnew count => exact fun _ => ⟨hok, hnew, _, count, Or.inr rfl, rfl⟩

theorem sample_mem_keepLast_quarantine (c : ClockEstimator) (s : Sample) :
    s ∈ keepLast 128 (c.quarantine s) := by
  obtain ⟨kept, hkept⟩ : ∃ kept, c.quarantine s = keepLast 16 (kept ++ [s]) := ⟨_, rfl⟩
  have hlength : (keepLast 16 (kept ++ [s])).length - 128 = 0 := by
    simp only [keepLast, List.length_drop]
    omega
  rw [hkept, keepLast, hlength, List.drop_zero]
  exact getLast_mem_keepLast (by decide) kept s

/-- An accepted observation fits the retained history, of which it is part. -/
theorem observeInner_fit_of_accepted {c : ClockEstimator} {e : Exchange}
    (h : (c.observeInner e).2 = true) :
    e.admissible = true ∧ e.sample ∈ (c.observeInner e).1.samples ∧
      (c.observeInner e).1.lastObserved = some e.midpoint ∧
      ∃ count, (c.observeInner e).1.mapping =
        fit (c.observeInner e).1.samples e c.mapping.drift count := by
  obtain ⟨hok, -, samples, count, hsamples, hnext⟩ := observeInner_of_accepted h
  rw [hnext]
  refine ⟨hok, ?_, rfl, count, rfl⟩
  rw [refit_samples]
  rcases hsamples with rfl | rfl
  · exact sample_mem_keepLast_quarantine _ _
  · exact getLast_mem_keepLast (by decide) _ e.sample

theorem observeInner_lastObserved_of_some {c : ClockEstimator} {e : Exchange} {last : ℚ}
    (h : c.lastObserved = some last) :
    ∃ next, (c.observeInner e).1.lastObserved = some next ∧ last ≤ next := by
  have houtcome := observeInner_outcome c e
  generalize c.observeInner e = result at houtcome ⊢
  cases houtcome with
  | ignored => exact ⟨last, h, le_rfl⟩
  | quarantined _ hnew => exact ⟨e.midpoint, rfl, (hnew last h).le⟩
  | promoted _ hnew => exact ⟨e.midpoint, rfl, (hnew last h).le⟩
  | accepted _ hnew => exact ⟨e.midpoint, rfl, (hnew last h).le⟩

/-- The drift of the mapping stays within ±500 ppm. -/
theorem abs_drift_observeInner {c : ClockEstimator} (h : |c.mapping.drift| ≤ maxDrift)
    (e : Exchange) : |(c.observeInner e).1.mapping.drift| ≤ maxDrift := by
  by_cases haccepted : (c.observeInner e).2 = true
  · obtain ⟨-, -, -, count, hmapping⟩ := observeInner_fit_of_accepted haccepted
    rw [hmapping]
    exact abs_fitDrift_le _ _ h
  · rw [observeInner_mapping_of_rejected (by simpa using haccepted)]
    exact h

/-- After the first observation every accepted receipt is later than time zero. -/
theorem lastSampleNs_of_accepted {c : ClockEstimator} {e : Exchange} {last : ℚ}
    (hlast : last ∈ c.lastObserved) (hnonneg : 0 ≤ last) (h : (c.observeInner e).2 = true) :
    (c.observeInner e).1.mapping.lastSampleNs ≠ 0 := by
  obtain ⟨hadmissible, hnew, samples, count, -, hnext⟩ := observeInner_of_accepted h
  have hmid := e.midpoint_le (Exchange.le_of_admissible hadmissible).1
  have hpos : (0 : ℚ) < e.t4 := (hnonneg.trans_lt (hnew last hlast)).trans_le hmid
  have hreceipt : e.t4 ≠ 0 := by exact_mod_cast hpos.ne'
  rw [hnext]
  exact hreceipt

/-- What is known of the observations behind a mapping: its drift is bounded, and
once it has a receipt time other than zero, an exchange has been observed. -/
structure Regular (c : ClockEstimator) : Prop where
  drift : |c.mapping.drift| ≤ maxDrift
  observed : c.mapping.lastSampleNs ≠ 0 → ∃ last ∈ c.lastObserved, 0 ≤ last

theorem regular_default : Regular default where
  drift := by norm_num [default, ClockMapping.default, maxDrift]
  observed := fun h => absurd rfl h

theorem Regular.observeInner {c : ClockEstimator} (h : c.Regular) (e : Exchange) :
    (c.observeInner e).1.Regular where
  drift := abs_drift_observeInner h.drift e
  observed := by
    intro hclock
    by_cases haccepted : (c.observeInner e).2 = true
    · obtain ⟨-, -, hlast, -⟩ := observeInner_fit_of_accepted haccepted
      exact ⟨e.midpoint, hlast, e.midpoint_nonneg⟩
    · rw [observeInner_mapping_of_rejected (by simpa using haccepted)] at hclock
      obtain ⟨last, hlast, hnonneg⟩ := h.observed hclock
      obtain ⟨next, hnext, hle⟩ := observeInner_lastObserved_of_some hlast
      exact ⟨next, hnext, hnonneg.trans hle⟩

/-- The diagnostic trace takes no part in the decision. -/
theorem Regular.observeTimed {c : ClockEstimator} (h : c.Regular) (e : Exchange)
    (publicationNs : Option Nat) (processedNs : Nat) :
    (c.observeTimed e publicationNs processedNs).1.Regular where
  drift := (h.observeInner e).drift
  observed := (h.observeInner e).observed

end ClockEstimator

end Tidkod
