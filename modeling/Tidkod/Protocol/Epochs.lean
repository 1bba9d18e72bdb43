import Mathlib.Tactic
import Tidkod.Protocol.ClockFit

/-!
Clocks with other epochs. Moving all local timestamps of a sequence of exchanges by one
amount and all leader timestamps by another changes no decision of the estimator and
moves its mapping accordingly: everything it computes is a difference of local times, a
difference of leader times or an offset.
-/

namespace Tidkod

open Rounding LeastSquares

/-- The exchange with the clocks' epochs moved by `c` and `d`, all timestamps before and
after being positive and in the supported range. -/
structure Exchange.Moved (c d : Int) (e f : Exchange) : Prop where
  t1 : (f.t1 : Int) = e.t1 + c
  t2 : (f.t2 : Int) = e.t2 + d
  t3 : (f.t3 : Int) = e.t3 + d
  t4 : (f.t4 : Int) = e.t4 + c
  original : ∀ t ∈ [e.t1, e.t2, e.t3, e.t4], 1 ≤ t ∧ t ≤ i64Max
  moved : ∀ t ∈ [f.t1, f.t2, f.t3, f.t4], 1 ≤ t ∧ t ≤ i64Max

instance (c d : Int) (e f : Exchange) : Decidable (e.Moved c d f) :=
  decidable_of_iff
    (((f.t1 : Int) = e.t1 + c ∧ (f.t2 : Int) = e.t2 + d ∧ (f.t3 : Int) = e.t3 + d ∧
      (f.t4 : Int) = e.t4 + c) ∧
      (∀ t ∈ [e.t1, e.t2, e.t3, e.t4], 1 ≤ t ∧ t ≤ i64Max) ∧
      ∀ t ∈ [f.t1, f.t2, f.t3, f.t4], 1 ≤ t ∧ t ≤ i64Max)
    ⟨fun ⟨⟨h1, h2, h3, h4⟩, h, h'⟩ => ⟨h1, h2, h3, h4, h, h'⟩,
      fun h => ⟨⟨h.t1, h.t2, h.t3, h.t4⟩, h.original, h.moved⟩⟩

/-- A sample seen from the moved epochs. -/
def Sample.move (c d : Int) (s : Sample) : Sample :=
  { s with localNs := s.localNs + c, offset := s.offset + (d - c : Int) }

/-- A fitted mapping seen from the moved epochs. -/
structure ClockMapping.Moved (c d : Int) (m n : ClockMapping) : Prop where
  referenceNs : (n.referenceNs : Int) = m.referenceNs + c
  offsetNs : n.offsetNs = m.offsetNs + (d - c : Int)
  drift : n.drift = m.drift
  uncertaintyNs : n.uncertaintyNs = m.uncertaintyNs
  lastSampleNs : (n.lastSampleNs : Int) = m.lastSampleNs + c
  converged : n.converged = m.converged
  acceptedObservations : n.acceptedObservations = m.acceptedObservations
  evidence : ∃ ev fv, m.evidence = some ev ∧ n.evidence = some fv ∧
    (fv.referenceNs : Int) = ev.referenceNs + c ∧ fv.lowerNs = ev.lowerNs + (d - c : Int) ∧
    fv.upperNs = ev.upperNs + (d - c : Int) ∧ fv.samples = ev.samples

section Exchanges

variable {c d : Int} {e f : Exchange}

theorem Exchange.Moved.duration_eq (h : e.Moved c d f) : f.duration = e.duration := by
  have h1 := h.t1
  have h4 := h.t4
  unfold duration
  omega

theorem Exchange.Moved.delay_eq (h : e.Moved c d f) : f.delay = e.delay := by
  obtain ⟨h1, h2, h3, h4, -, -⟩ := h
  unfold delay
  omega

theorem Exchange.Moved.midpoint_eq (h : e.Moved c d f) : f.midpoint = e.midpoint + c := by
  have h1 : (f.t1 : ℚ) = e.t1 + c := by exact_mod_cast h.t1
  have hduration := h.duration_eq
  unfold duration at hduration
  rw [midpoint, midpoint, hduration, h1]
  ring

theorem Exchange.Moved.offset_eq (h : e.Moved c d f) : f.offset = e.offset + (d - c : Int) := by
  have h1 : (f.t1 : ℚ) = e.t1 + c := by exact_mod_cast h.t1
  have h2 : (f.t2 : ℚ) = e.t2 + d := by exact_mod_cast h.t2
  have h3 : (f.t3 : ℚ) = e.t3 + d := by exact_mod_cast h.t3
  have h4 : (f.t4 : ℚ) = e.t4 + c := by exact_mod_cast h.t4
  simp only [offset]
  push_cast
  rw [h1, h2, h3, h4]
  ring

theorem Exchange.Moved.sample_eq (h : e.Moved c d f) : f.sample = e.sample.move c d := by
  simp only [sample, Sample.move, h.midpoint_eq, h.offset_eq, h.delay_eq, h.duration_eq]

theorem Exchange.Moved.admissible_eq (h : e.Moved c d f) : f.admissible = e.admissible := by
  have hdelay := h.delay_eq
  have hduration := h.duration_eq
  obtain ⟨h1, h2, h3, h4, horiginal, hmoved⟩ := h
  have hrange (g : Exchange) (hg : ∀ t ∈ [g.t1, g.t2, g.t3, g.t4], 1 ≤ t ∧ t ≤ i64Max) :
      [g.t1, g.t2, g.t3, g.t4].any (fun x => i64Max < x) = false := by
    rw [List.any_eq_false]
    intro t ht
    simpa using (hg t ht).2
  have horder : (decide (f.t4 < f.t1) || decide (f.t3 < f.t2)) =
      (decide (e.t4 < e.t1) || decide (e.t3 < e.t2)) := by
    have hlocal : f.t4 < f.t1 ↔ e.t4 < e.t1 := by omega
    have hleader : f.t3 < f.t2 ↔ e.t3 < e.t2 := by omega
    simp only [hlocal, hleader]
  unfold duration at hduration
  simp only [admissible, hrange e horiginal, hrange f hmoved, horder, hdelay, hduration]

/-- Truncation of a half-integer midpoint moves with it. -/
theorem Exchange.Moved.reference_eq (h : e.Moved c d f) :
    (asU64 f.midpoint : Int) = asU64 e.midpoint + c := by
  have hread {g : Exchange} (hg : ∀ t ∈ [g.t1, g.t2, g.t3, g.t4], 1 ≤ t ∧ t ≤ i64Max) :
      (asU64 g.midpoint : ℚ) ≤ g.midpoint ∧ g.midpoint < asU64 g.midpoint + 1 := by
    have h1 := (hg g.t1 (by simp)).2
    have h4 := (hg g.t4 (by simp)).2
    have hlimit : g.midpoint ≤ u64Max := by
      have hsum : (g.t1 : ℚ) + (g.t4 - g.t1 : Nat) ≤ (i64Max + i64Max : Nat) := by
        exact_mod_cast (by omega : g.t1 + (g.t4 - g.t1) ≤ i64Max + i64Max)
      have hbound : ((i64Max + i64Max : Nat) : ℚ) ≤ u64Max := by
        exact_mod_cast (by decide : i64Max + i64Max ≤ u64Max)
      have hhalf : (0 : ℚ) ≤ (g.t4 - g.t1 : Nat) := Nat.cast_nonneg _
      unfold midpoint
      linarith
    exact toUnsigned_bounds g.midpoint_nonneg hlimit
  obtain ⟨hlo, hhi⟩ := hread h.original
  obtain ⟨hlo', hhi'⟩ := hread h.moved
  rw [h.midpoint_eq] at hlo' hhi'
  have hbelow : ((asU64 f.midpoint : Int) : ℚ) < ((asU64 e.midpoint + c + 1 : Int) : ℚ) := by
    rw [h.midpoint_eq]
    push_cast
    linarith
  have habove : ((asU64 e.midpoint + c : Int) : ℚ) < ((asU64 f.midpoint + 1 : Int) : ℚ) := by
    rw [h.midpoint_eq]
    push_cast
    linarith
  have hupper : (asU64 f.midpoint : Int) < asU64 e.midpoint + c + 1 := by exact_mod_cast hbelow
  have hlower : (asU64 e.midpoint : Int) + c < asU64 f.midpoint + 1 := by exact_mod_cast habove
  omega

end Exchanges

section Samples

variable (c d : Int)

@[simp] theorem Sample.move_localNs (s : Sample) : (s.move c d).localNs = s.localNs + c := rfl

@[simp] theorem Sample.move_offset (s : Sample) :
    (s.move c d).offset = s.offset + (d - c : Int) := rfl

@[simp] theorem Sample.move_delay (s : Sample) : (s.move c d).delay = s.delay := rfl

@[simp] theorem Sample.move_duration (s : Sample) : (s.move c d).duration = s.duration := rfl

theorem keepLast_map {α β : Type} (n : Nat) (g : α → β) (xs : List α) :
    keepLast n (xs.map g) = (keepLast n xs).map g := by
  rw [keepLast, keepLast, List.length_map, List.map_drop]

theorem foldMin_add (xs : List ℚ) (a : ℚ) :
    foldMin (xs.map (fun x => x + a)) = foldMin xs + (a : WithTop ℚ) := by
  have hstart (start : WithTop ℚ) :
      (xs.map (fun x => x + a)).foldl (fun acc x => min acc (x : WithTop ℚ))
          (start + (a : WithTop ℚ)) =
        xs.foldl (fun acc x => min acc (x : WithTop ℚ)) start + (a : WithTop ℚ) := by
    induction xs generalizing start with
    | nil => rfl
    | cons x rest ih =>
        have hnext := ih (min start (x : WithTop ℚ))
        rw [← min_add_add_right, ← WithTop.coe_add] at hnext
        exact hnext
  exact hstart ⊤

theorem foldMax_add (xs : List ℚ) (a : ℚ) :
    foldMax (xs.map (fun x => x + a)) = foldMax xs + (a : WithBot ℚ) := by
  have hstart (start : WithBot ℚ) :
      (xs.map (fun x => x + a)).foldl (fun acc x => max acc (x : WithBot ℚ))
          (start + (a : WithBot ℚ)) =
        xs.foldl (fun acc x => max acc (x : WithBot ℚ)) start + (a : WithBot ℚ) := by
    induction xs generalizing start with
    | nil => rfl
    | cons x rest ih =>
        have hnext := ih (max start (x : WithBot ℚ))
        rw [← max_add_add_right, ← WithBot.coe_add] at hnext
        exact hnext
  exact hstart ⊥

theorem Sample.before_move (s t : Sample) : s.before t ↔ (s.move c d).before (t.move c d) := by
  simp only [Sample.before, move_delay, move_localNs, add_le_add_iff_right]

theorem selectSamples_move (samples : List Sample) :
    selectSamples (samples.map (Sample.move c d)) =
      (selectSamples samples).map (Sample.move c d) := by
  rw [selectSamples, selectSamples, List.length_map, List.map_take,
    List.map_insertionSort Sample.before Sample.before (Sample.move c d) samples
      (fun s _ t _ => Sample.before_move c d s t)]

theorem supported_move (selected : List Sample) :
    Supported (selected.map (Sample.move c d)) ↔ Supported selected := by
  simp only [Supported, List.length_map, List.mem_map, exists_exists_and_eq_and,
    Sample.move_localNs, add_sub_add_right_eq_sub]

end Samples

namespace ClockEstimator

variable (c d : Int)

theorem expire_move (samples : List Sample) (localNs : ℚ) :
    expire (samples.map (Sample.move c d)) (localNs + c) =
      (expire samples localNs).map (Sample.move c d) := by
  rw [expire, expire, List.dropWhile_map]
  congr 2
  funext s
  simp only [Function.comp, Sample.move_localNs, add_sub_add_right_eq_sub]

theorem rejectedDelay_move (samples : List Sample) (s : Sample) :
    rejectedDelay (samples.map (Sample.move c d)) (s.move c d) = rejectedDelay samples s := by
  rw [rejectedDelay, rejectedDelay, List.length_map, List.map_map]
  rfl

theorem consistentWith_move (drift : ℚ) (first s : Sample) :
    consistentWith drift (first.move c d) (s.move c d) = consistentWith drift first s := by
  simp only [consistentWith, Sample.move_offset, Sample.move_localNs, Sample.move_delay,
    add_sub_add_right_eq_sub]
  rfl

theorem confirmed_move (recovery : List Sample) (s : Sample) :
    confirmed (recovery.map (Sample.move c d)) (s.move c d) = confirmed recovery s := by
  simp only [confirmed, List.length_map, List.head?_map, Option.any_map, Sample.move_localNs,
    add_sub_add_right_eq_sub]

section Fit

variable {selected : List Sample} (localNs : ℚ)

theorem distances_move (selected : List Sample) :
    (selected.map (Sample.move c d)).map (fun s => s.localNs - (localNs + c)) =
      selected.map (fun s => s.localNs - localNs) := by
  rw [List.map_map]
  apply List.map_congr_left
  intro s _
  simp

theorem mean_distance_move (selected : List Sample) :
    mean (fun s => s.localNs - (localNs + c)) (selected.map (Sample.move c d)) =
      mean (fun s => s.localNs - localNs) selected := by
  rw [mean, mean, distances_move, List.length_map]

theorem mean_offset_move (hne : selected ≠ []) :
    mean Sample.offset (selected.map (Sample.move c d)) =
      mean Sample.offset selected + (d - c : Int) := by
  have hmean := mean_add (y := Sample.offset) hne ((d - c : Int) : ℚ)
  rw [← hmean, mean, mean, List.map_map, List.length_map]
  rfl

theorem spread_move (selected : List Sample) :
    spread (fun s => s.localNs - (localNs + c)) (selected.map (Sample.move c d)) =
      spread (fun s => s.localNs - localNs) selected := by
  rw [spread, spread, mean_distance_move, List.map_map]
  simp only [Function.comp_def, Sample.move_localNs, add_sub_add_right_eq_sub]

theorem covariation_move (hne : selected ≠ []) :
    covariation (fun s => s.localNs - (localNs + c)) Sample.offset
        (selected.map (Sample.move c d)) =
      covariation (fun s => s.localNs - localNs) Sample.offset selected := by
  rw [covariation, covariation, mean_distance_move, mean_offset_move c d hne, List.map_map]
  simp only [Function.comp_def, Sample.move_localNs, Sample.move_offset, add_sub_add_right_eq_sub]

theorem fitDrift_move (hne : selected ≠ []) (previous : ℚ) :
    fitDrift (selected.map (Sample.move c d)) (localNs + c) previous =
      fitDrift selected localNs previous := by
  by_cases hsupported : Supported selected
  · rw [fitDrift_of_supported hsupported,
      fitDrift_of_supported ((supported_move c d selected).mpr hsupported),
      covariation_move c d localNs hne, spread_move]
  · have hne' : selected.map (Sample.move c d) ≠ [] := by simpa using hne
    rw [fitDrift_of_not_supported hne hsupported, fitDrift_of_not_supported hne'
      (fun h => hsupported ((supported_move c d selected).mp h))]

theorem fitOffset_move (hne : selected ≠ []) (drift : ℚ) :
    fitOffset (selected.map (Sample.move c d)) (localNs + c) drift =
      fitOffset selected localNs drift + (d - c : Int) := by
  have hmean (samples : List Sample) (time : ℚ) : fitOffset samples time drift =
      mean Sample.offset samples - drift * mean (fun s => s.localNs - time) samples := rfl
  rw [hmean, hmean, mean_offset_move c d hne, mean_distance_move]
  ring

theorem fitResidual_move (selected : List Sample) (offset drift : ℚ) :
    fitResidual (selected.map (Sample.move c d)) (localNs + c) (offset + (d - c : Int)) drift =
      fitResidual selected localNs offset drift := by
  rw [fitResidual, fitResidual, List.map_map]
  congr 1
  apply List.map_congr_left
  intro s _
  simp only [Function.comp, Sample.move_localNs, Sample.move_offset, add_sub_add_right_eq_sub]
  congr 1
  ring

theorem Exchange.Moved.distance_eq {e f : Exchange} (h : e.Moved c d f) (s : Sample) :
    (f.t4 : ℚ) - (s.move c d).localNs = e.t4 - s.localNs := by
  have h4 : (f.t4 : ℚ) = e.t4 + c := by exact_mod_cast h.t4
  rw [h4, Sample.move_localNs, add_sub_add_right_eq_sub]

theorem evidenceRadius_move {e f : Exchange} (h : e.Moved c d f) (s : Sample) :
    evidenceRadius f.t4 (s.move c d) = evidenceRadius e.t4 s := by
  rw [evidenceRadius, evidenceRadius, Exchange.Moved.distance_eq c d h]
  rfl

/-- One end of the intervals of all samples, above or below their offsets. -/
theorem interval_ends_move {e f : Exchange} (h : e.Moved c d f) (samples : List Sample)
    (side : ℚ) :
    (samples.map (Sample.move c d)).map (fun s => s.offset + side * evidenceRadius f.t4 s) =
      (samples.map (fun s => s.offset + side * evidenceRadius e.t4 s)).map
        (fun x : ℚ => x + (d - c : Int)) := by
  rw [List.map_map, List.map_map]
  apply List.map_congr_left
  intro s _
  simp only [Function.comp, evidenceRadius_move c d h, Sample.move_offset]
  ring

/-- The interval of the offset evidence moves with the offsets. -/
theorem evidence_bounds_move {e f : Exchange} (h : e.Moved c d f) {samples : List Sample}
    (hne : samples ≠ []) :
    (foldMax ((samples.map (Sample.move c d)).map
        (fun s => s.offset - evidenceRadius f.t4 s))).unbotD 0 =
      (foldMax (samples.map (fun s => s.offset - evidenceRadius e.t4 s))).unbotD 0 +
        (d - c : Int) ∧
    (foldMin ((samples.map (Sample.move c d)).map
        (fun s => s.offset + evidenceRadius f.t4 s))).untopD 0 =
      (foldMin (samples.map (fun s => s.offset + evidenceRadius e.t4 s))).untopD 0 +
        (d - c : Int) := by
  have hlower := interval_ends_move c d h samples (-1)
  have hupper := interval_ends_move c d h samples 1
  simp only [neg_mul, one_mul, ← sub_eq_add_neg] at hlower hupper
  rw [hlower, hupper, foldMin_add, foldMax_add]
  obtain ⟨x, -, hx, -⟩ := foldMax_spec
    (List.map_eq_nil_iff.not.mpr hne : samples.map (fun s => s.offset - evidenceRadius e.t4 s) ≠ [])
  obtain ⟨y, -, hy, -⟩ := foldMin_spec
    (List.map_eq_nil_iff.not.mpr hne : samples.map (fun s => s.offset + evidenceRadius e.t4 s) ≠ [])
  rw [hx, hy, ← WithBot.coe_add, ← WithTop.coe_add]
  exact ⟨rfl, rfl⟩

theorem fit_moved {e f : Exchange} (h : e.Moved c d f) {samples : List Sample}
    (hne : samples ≠ []) (previous : ℚ) (count : Nat) :
    (fit samples e previous count).Moved c d
      (fit (samples.map (Sample.move c d)) f previous count) := by
  have hselected := selectSamples_ne_nil hne
  have hdrift : fitDrift (selectSamples (samples.map (Sample.move c d))) f.midpoint previous =
      fitDrift (selectSamples samples) e.midpoint previous := by
    rw [selectSamples_move, h.midpoint_eq, fitDrift_move c d _ hselected]
  have hoffset (drift : ℚ) :
      fitOffset (selectSamples (samples.map (Sample.move c d))) f.midpoint drift =
        fitOffset (selectSamples samples) e.midpoint drift + (d - c : Int) := by
    rw [selectSamples_move, h.midpoint_eq, fitOffset_move c d _ hselected]
  obtain ⟨hlower, hupper⟩ := evidence_bounds_move c d h hne
  refine ⟨h.reference_eq, ?_, hdrift, ?_, h.t4, ?_, rfl,
    _, _, rfl, rfl, h.t4, hlower, hupper, List.length_map _⟩
  · have hmoved := hoffset (fitDrift (selectSamples samples) e.midpoint previous)
    rw [← hdrift] at hmoved
    simp only [fit]
    rw [hmoved, hdrift]
  · have hspread : (selectSamples (samples.map (Sample.move c d))).map
        (fun s => s.delay / 2 + max ((f.t4 : ℚ) - s.localNs) 0 * holdoverGrowth) =
          (selectSamples samples).map
            (fun s => s.delay / 2 + max ((e.t4 : ℚ) - s.localNs) 0 * holdoverGrowth) := by
      rw [selectSamples_move, List.map_map]
      apply List.map_congr_left
      intro s _
      simp only [Function.comp, Exchange.Moved.distance_eq c d h, Sample.move_delay]
    simp only [fit]
    rw [hspread, hdrift, hoffset, selectSamples_move, h.midpoint_eq, fitResidual_move]
  · simp only [fit, List.length_map, List.getLast?_map, List.head?_map, Option.map_map]
    cases hlast : samples.getLast? with
    | none => exact absurd (List.getLast?_eq_none_iff.mp hlast) hne
    | some last =>
        cases hfirst : samples.head? with
        | none => exact absurd (List.head?_eq_none_iff.mp hfirst) hne
        | some first =>
            simp only [Option.map_some, Option.getD_some, Function.comp, Sample.move_localNs,
              add_sub_add_right_eq_sub]

end Fit

/-- The two estimators have seen the same exchanges, one of them from the moved epochs:
either nothing has been accepted yet, or their mappings are the same but for the epochs. -/
structure Moved (s t : ClockEstimator) : Prop where
  samples : t.samples = s.samples.map (Sample.move c d)
  recovery : t.recovery = s.recovery.map (Sample.move c d)
  lastObserved : t.lastObserved = s.lastObserved.map (fun last : ℚ => last + c)
  mapping : s.mapping.Moved c d t.mapping ∨
    s.mapping = ClockMapping.default ∧ t.mapping = ClockMapping.default ∧ s.samples = []

variable {c d} {s t : ClockEstimator} {e f : Exchange}

theorem Moved.drift_eq (h : Moved c d s t) : t.mapping.drift = s.mapping.drift := by
  rcases h.mapping with hmoved | ⟨hs, ht, -⟩
  · exact hmoved.drift
  · rw [hs, ht]

theorem Moved.arrived (h : Moved c d s t) (he : e.Moved c d f) :
    Moved c d (s.arrived e) (t.arrived f) where
  samples := by
    change expire t.samples f.midpoint = _
    rw [h.samples, he.midpoint_eq, expire_move]
    rfl
  recovery := h.recovery
  lastObserved := congrArg some he.midpoint_eq
  mapping := by
    rcases h.mapping with hmoved | ⟨hs, ht, hnone⟩
    · exact Or.inl hmoved
    · refine Or.inr ⟨hs, ht, ?_⟩
      change expire s.samples e.midpoint = []
      rw [hnone]
      rfl

theorem Moved.rejectedOffset_eq (h : Moved c d s t) (he : e.Moved c d f) :
    t.rejectedOffset f = s.rejectedOffset e := by
  rcases h.mapping with hmoved | ⟨hs, ht, -⟩
  · have hempty : t.samples.isEmpty = s.samples.isEmpty := by rw [h.samples, List.isEmpty_map]
    have huncertainty : t.mapping.uncertaintyAt f.t4 = s.mapping.uncertaintyAt e.t4 := by
      have h4 := he.t4
      have hlast := hmoved.lastSampleNs
      have hage : f.t4 - t.mapping.lastSampleNs = e.t4 - s.mapping.lastSampleNs := by omega
      rw [ClockMapping.uncertaintyAt, ClockMapping.uncertaintyAt, hmoved.uncertaintyNs, hage]
    have hoffset : f.offset - t.mapping.offsetAt (asU64 f.midpoint) =
        e.offset - s.mapping.offsetAt (asU64 e.midpoint) := by
      have hreference : (t.mapping.referenceNs : ℚ) = s.mapping.referenceNs + c := by
        exact_mod_cast hmoved.referenceNs
      have hread : (asU64 f.midpoint : ℚ) = asU64 e.midpoint + c := by
        exact_mod_cast he.reference_eq
      rw [ClockMapping.offsetAt, ClockMapping.offsetAt, he.offset_eq, hmoved.offsetNs, hread,
        hreference, hmoved.drift]
      ring
    rw [rejectedOffset, rejectedOffset, hempty, hmoved.converged, huncertainty, hoffset,
      he.delay_eq]
  · simp only [rejectedOffset, hs, ht, ClockMapping.default, Bool.and_false, Bool.false_and]

theorem Moved.quarantine_eq (h : Moved c d s t) (he : e.Moved c d f) :
    t.quarantine f.sample = (s.quarantine e.sample).map (Sample.move c d) := by
  rw [quarantine, quarantine, h.recovery, List.head?_map, h.drift_eq, he.sample_eq,
    ← keepLast_map]
  cases s.recovery.head? with
  | none => simp
  | some first =>
      simp only [Option.map_some, consistentWith_move]
      split_ifs <;> simp

/-- A refit depends on the mapping only through its drift. -/
theorem refit_moved (hsamples : t.samples = s.samples.map (Sample.move c d))
    (hrecovery : t.recovery = s.recovery.map (Sample.move c d))
    (hlast : t.lastObserved = s.lastObserved.map (fun last : ℚ => last + c))
    (hdrift : t.mapping.drift = s.mapping.drift) (he : e.Moved c d f) (hne : s.samples ≠ [])
    (count : Nat) : Moved c d (s.refit e count) (t.refit f count) where
  samples := by rw [refit_samples, refit_samples, hsamples, keepLast_map]
  recovery := hrecovery
  lastObserved := hlast
  mapping := by
    left
    have hkept : keepLast 128 s.samples ≠ [] := by
      intro hnil
      have hlength := congrArg List.length hnil
      have hpos := List.length_pos_iff.mpr hne
      simp only [keepLast, List.length_drop, List.length_nil] at hlength
      omega
    rw [refit_mapping, refit_mapping, refit_samples, refit_samples, hsamples, keepLast_map, hdrift]
    exact fit_moved c d he hkept _ count

theorem Moved.rejected_eq (h : Moved c d s t) (he : e.Moved c d f) :
    (rejectedDelay t.samples f.sample || t.rejectedOffset f) =
      (rejectedDelay s.samples e.sample || s.rejectedOffset e) := by
  rw [h.samples, he.sample_eq, rejectedDelay_move, h.rejectedOffset_eq he]

/-- Nothing is an outlier before an observation has been accepted. -/
theorem rejected_of_default (hmapping : s.mapping = ClockMapping.default)
    (hsamples : s.samples = []) :
    (rejectedDelay s.samples e.sample || s.rejectedOffset e) = false := by
  simp [rejectedDelay, rejectedOffset, hsamples, hmapping, ClockMapping.default]

theorem Moved.decideSample (h : Moved c d s t) (he : e.Moved c d f) :
    (s.decideSample e).2 = (t.decideSample f).2 ∧
      Moved c d (s.decideSample e).1 (t.decideSample f).1 := by
  have hquarantine := h.quarantine_eq he
  have hconfirmed : confirmed (t.quarantine f.sample) f.sample =
      confirmed (s.quarantine e.sample) e.sample := by
    rw [hquarantine, he.sample_eq, confirmed_move]
  have hlength : (t.quarantine f.sample).length = (s.quarantine e.sample).length := by
    rw [hquarantine, List.length_map]
  have hcount : (if t.samples.isEmpty then 1
      else min (t.mapping.acceptedObservations + 1) u64Max) =
        if s.samples.isEmpty then 1 else min (s.mapping.acceptedObservations + 1) u64Max := by
    rw [h.samples, List.isEmpty_map]
    rcases h.mapping with hmoved | ⟨-, -, hnone⟩
    · rw [hmoved.acceptedObservations]
    · rw [hnone]
      rfl
  unfold ClockEstimator.decideSample
  dsimp only
  rw [h.rejected_eq he, hconfirmed, hlength, hcount]
  generalize (if s.samples.isEmpty then 1 else min (s.mapping.acceptedObservations + 1) u64Max) =
    count
  split_ifs with hrejected hpromoted
  · refine ⟨rfl, refit_moved ?_ ?_ ?_ ?_ he ?_ _⟩
    · exact hquarantine
    · rfl
    · exact h.lastObserved
    · exact h.drift_eq
    · intro hnil
      simp [confirmed, show s.quarantine e.sample = [] from hnil] at hpromoted
  · refine ⟨rfl, h.samples, hquarantine, h.lastObserved, ?_⟩
    rcases h.mapping with hmoved | ⟨hs, -, hnone⟩
    · exact Or.inl hmoved
    · rw [rejected_of_default hs hnone] at hrejected
      exact absurd hrejected (by decide)
  · refine ⟨rfl, refit_moved ?_ ?_ ?_ ?_ he (by simp) _⟩
    · simp only [h.samples, he.sample_eq, List.map_append, List.map_singleton]
    · rfl
    · exact h.lastObserved
    · exact h.drift_eq

/-- One exchange, seen by two estimators with different epochs. -/
theorem Moved.observeInner (h : Moved c d s t) (he : e.Moved c d f) :
    (s.observeInner e).2 = (t.observeInner f).2 ∧
      Moved c d (s.observeInner e).1 (t.observeInner f).1 := by
  have hstale : t.lastObserved.any (fun last => f.midpoint ≤ last) =
      s.lastObserved.any (fun last => e.midpoint ≤ last) := by
    rw [h.lastObserved, Option.any_map, he.midpoint_eq]
    congr 1
    funext last
    simp only [add_le_add_iff_right]
  unfold ClockEstimator.observeInner
  rw [he.admissible_eq, hstale]
  split_ifs
  · exact ⟨rfl, h⟩
  · exact ⟨rfl, h⟩
  · exact (h.arrived he).decideSample he

theorem Moved.feed (h : Moved c d s t) {a b : Arrival} (he : a.exchange.Moved c d b.exchange) :
    (s.feed a).2 = (t.feed b).2 ∧ Moved c d (s.feed a).1 (t.feed b).1 := by
  obtain ⟨haccepted, hmoved⟩ := h.observeInner he
  exact ⟨haccepted, hmoved.samples, hmoved.recovery, hmoved.lastObserved, hmoved.mapping⟩

theorem moved_default : Moved c d default default where
  samples := rfl
  recovery := rfl
  lastObserved := rfl
  mapping := Or.inr ⟨rfl, rfl, rfl⟩

/-- Without an accepted observation the mapping stays as it was. -/
theorem mapping_of_none_accepted {history : List Arrival} {s : ClockEstimator}
    (h : true ∉ Machine.outputs feed s history) :
    (Machine.run feed s history).mapping = s.mapping := by
  induction history generalizing s with
  | nil => rfl
  | cons a rest ih =>
      rw [Machine.outputs, List.mem_cons, not_or] at h
      have hrejected : (s.observeInner a.exchange).2 = false := by
        have hoff : ¬ (s.feed a).2 = true := fun haccepted => h.1 haccepted.symm
        simpa [ClockEstimator.feed, observeTimed] using hoff
      rw [Machine.run_cons, ih h.2]
      exact observeInner_mapping_of_rejected hrejected

theorem evidence_feed {s : ClockEstimator} (a : Arrival)
    (h : s.mapping.evidence ≠ none ∨ (s.feed a).2 = true) :
    (s.feed a).1.mapping.evidence ≠ none := by
  change (s.observeInner a.exchange).1.mapping.evidence ≠ none
  by_cases haccepted : (s.observeInner a.exchange).2 = true
  · obtain ⟨-, -, -, count, hmapping⟩ := observeInner_fit_of_accepted haccepted
    rw [hmapping]
    exact Option.some_ne_none _
  · rw [observeInner_mapping_of_rejected (by simpa using haccepted)]
    exact h.resolve_right haccepted

/-- An accepted observation leaves evidence for good. -/
theorem evidence_of_accepted {history : List Arrival} {s : ClockEstimator}
    (h : true ∈ Machine.outputs feed s history) :
    (Machine.run feed s history).mapping.evidence ≠ none := by
  induction history generalizing s with
  | nil => exact absurd h List.not_mem_nil
  | cons a rest ih =>
      rcases List.mem_cons.mp h with hfirst | hlater
      · exact Machine.run_invariant (P := fun t : ClockEstimator => t.mapping.evidence ≠ none)
          (fun _ b h => evidence_feed b (Or.inl h)) (evidence_feed a (Or.inr hfirst.symm)) rest
      · exact ih hlater

end ClockEstimator

/-- Two fresh estimators are fed the same exchanges, one of them from the moved epochs.
They accept the same ones, and at every point after the first accepted one their mappings
are the same but for the epochs. Until then both have the default mapping. -/
theorem epochs_irrelevant {c d : Int} {history moved : List Arrival}
    (h : List.Forall₂ (fun a b : Arrival => a.exchange.Moved c d b.exchange) history moved) :
    Machine.outputs ClockEstimator.feed ClockEstimator.default history =
      Machine.outputs ClockEstimator.feed ClockEstimator.default moved ∧
    ∀ n,
      (true ∈ Machine.outputs ClockEstimator.feed ClockEstimator.default (history.take n) →
        (Machine.run ClockEstimator.feed ClockEstimator.default
          (history.take n)).mapping.Moved c d
            (Machine.run ClockEstimator.feed ClockEstimator.default (moved.take n)).mapping) ∧
      (true ∉ Machine.outputs ClockEstimator.feed ClockEstimator.default (history.take n) →
        (Machine.run ClockEstimator.feed ClockEstimator.default (history.take n)).mapping =
            ClockMapping.default ∧
          (Machine.run ClockEstimator.feed ClockEstimator.default (moved.take n)).mapping =
            ClockMapping.default) := by
  have hruns {as bs : List Arrival}
      (has : List.Forall₂ (fun a b : Arrival => a.exchange.Moved c d b.exchange) as bs) :=
    Machine.related_runs (R := ClockEstimator.Moved c d)
      (S := fun a b : Arrival => a.exchange.Moved c d b.exchange)
      (fun _ _ _ _ hs ha => ClockEstimator.Moved.feed hs ha) ClockEstimator.moved_default has
  refine ⟨(hruns h).1, fun n => ?_⟩
  obtain ⟨houtputs, hend⟩ := hruns (List.forall₂_take n h)
  constructor
  · intro haccepted
    rcases hend.mapping with hmoved | ⟨hdefault, -⟩
    · exact hmoved
    · have hevidence := ClockEstimator.evidence_of_accepted haccepted
      rw [hdefault] at hevidence
      exact absurd rfl hevidence
  · intro hnone
    refine ⟨ClockEstimator.mapping_of_none_accepted hnone, ?_⟩
    rw [houtputs] at hnone
    exact ClockEstimator.mapping_of_none_accepted hnone

/-- Two exchanges with half-integer midpoints, and the same from a local clock that
started later and a leader clock that started earlier. -/
theorem epochs_irrelevant_of_two :
    (Machine.run ClockEstimator.feed ClockEstimator.default
      [⟨⟨1000, 5002, 5004, 1007⟩, none, 1007⟩,
        ⟨⟨2000, 6002, 6004, 2005⟩, none, 2005⟩]).mapping.Moved (-900) 50000
      (Machine.run ClockEstimator.feed ClockEstimator.default
        [⟨⟨100, 55002, 55004, 107⟩, none, 107⟩,
          ⟨⟨1100, 56002, 56004, 1105⟩, none, 1105⟩]).mapping := by
  have hpairs : List.Forall₂ (fun a b : Arrival => a.exchange.Moved (-900) 50000 b.exchange)
      [⟨⟨1000, 5002, 5004, 1007⟩, none, 1007⟩, ⟨⟨2000, 6002, 6004, 2005⟩, none, 2005⟩]
      [⟨⟨100, 55002, 55004, 107⟩, none, 107⟩, ⟨⟨1100, 56002, 56004, 1105⟩, none, 1105⟩] :=
    .cons (by decide) (.cons (by decide) .nil)
  exact ((epochs_irrelevant hpairs).2 2).1 (by decide +kernel)

/-- After an exchange that is not accepted both offsets are zero. -/
theorem epochs_not_always_moved :
    ¬ ∀ (c d : Int) (history moved : List Arrival),
      List.Forall₂ (fun a b : Arrival => a.exchange.Moved c d b.exchange) history moved →
      (Machine.run ClockEstimator.feed ClockEstimator.default moved).mapping.offsetNs =
        (Machine.run ClockEstimator.feed ClockEstimator.default history).mapping.offsetNs +
          (d - c : Int) := by
  intro hclaim
  have hoffset := hclaim 0 1 [⟨⟨2, 1, 1, 1⟩, none, 2⟩] [⟨⟨2, 2, 2, 1⟩, none, 2⟩]
    (.cons (by decide) .nil)
  revert hoffset
  decide +kernel

end Tidkod
