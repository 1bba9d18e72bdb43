import Mathlib.Tactic
import Tidkod.Protocol.ClockSteps
import Tidkod.Protocol.Probes
import Tidkod.Protocol.CheckedTimeline

/-!
The clock estimator and the matching of probes with every operation that can panic made
explicit. Nothing is asked of an exchange or of a reply: the subtractions are behind the
checks of the same function, and what is unwrapped has been put there before.
-/

namespace Tidkod

open Rounding Panics RecentRing Proto3

namespace ClockEstimator

def fitDriftM (selected : List Sample) (localNs previous : ℚ) : Checked ℚ := do
  let count : ℚ := selected.length
  let x ← divide (selected.map (fun s => s.localNs - localNs)).sum count
  let y ← divide (selected.map Sample.offset).sum count
  let xx := (selected.map (fun s => (s.localNs - localNs - x) ^ 2)).sum
  let xy := (selected.map (fun s => (s.localNs - localNs - x) * (s.offset - y))).sum
  let supportStart := (foldMin (selected.map Sample.localNs)).untopD 0
  let supportEnd := (foldMax (selected.map Sample.localNs)).unbotD 0
  if 8 ≤ selected.length ∧ 2000000000 ≤ supportEnd - supportStart ∧ 0 < xx then
    let slope ← divide xy xx
    pure (max (-maxDrift) (min slope maxDrift))
  else pure previous

def fitOffsetM (selected : List Sample) (localNs drift : ℚ) : Checked ℚ := do
  let count : ℚ := selected.length
  let x ← divide (selected.map (fun s => s.localNs - localNs)).sum count
  let y ← divide (selected.map Sample.offset).sum count
  pure (y - drift * x)

def fitM (samples : List Sample) (e : Exchange) (previousDrift : ℚ) (acceptedObservations : Nat) :
    Checked ClockMapping := do
  let selected := selectSamples samples
  let drift ← fitDriftM selected e.midpoint previousDrift
  let offset ← fitOffsetM selected e.midpoint drift
  let residual := fitResidual selected e.midpoint offset drift
  let last ← unwrapSome samples.getLast?
  let first ← unwrapSome samples.head?
  pure
    { referenceNs := asU64 e.midpoint
      offsetNs := offset
      drift := drift
      uncertaintyNs :=
        foldMin (selected.map
          (fun s => s.delay / 2 + max ((e.t4 : ℚ) - s.localNs) 0 * holdoverGrowth)) +
          ((residual + timestampAllowance : ℚ) : WithTop ℚ)
      lastSampleNs := e.t4
      converged := 12 ≤ samples.length && decide (500000000 ≤ last.localNs - first.localNs)
      acceptedObservations := acceptedObservations
      evidence := some
        { referenceNs := e.t4
          lowerNs := (foldMax (samples.map (fun s => s.offset - evidenceRadius e.t4 s))).unbotD 0
          upperNs := (foldMin (samples.map (fun s => s.offset + evidenceRadius e.t4 s))).untopD 0
          samples := samples.length } }

def refitM (c : ClockEstimator) (e : Exchange) (acceptedObservations : Nat) :
    Checked ClockEstimator := do
  let samples := keepLast 128 c.samples
  let mapping ← fitM samples e c.mapping.drift acceptedObservations
  pure { c with samples := samples, mapping := mapping }

/-- The length is compared first, so that the front is there to be unwrapped. -/
def confirmedM (recovery : List Sample) (s : Sample) : Checked Bool :=
  if recovery.length < 8 then pure false
  else do
    let first ← unwrapSome recovery.head?
    pure (500000000 ≤ s.localNs - first.localNs)

def decideSampleM (c : ClockEstimator) (e : Exchange) (s : Sample) :
    Checked (ClockEstimator × Bool) :=
  if rejectedDelay c.samples s || c.rejectedOffset e then do
    let recovery := c.quarantine s
    let settled ← confirmedM recovery s
    if settled then
      let next ← refitM { c with samples := recovery, recovery := [] } e recovery.length
      pure (next, true)
    else pure ({ c with recovery := recovery }, false)
  else do
    let acceptedObservations :=
      if c.samples.isEmpty then 1 else min (c.mapping.acceptedObservations + 1) u64Max
    let next ← refitM { c with samples := c.samples ++ [s], recovery := [] } e acceptedObservations
    pure (next, true)

def observeInnerM (c : ClockEstimator) (e : Exchange) : Checked (ClockEstimator × Bool) :=
  if e.t4 < e.t1 || e.t3 < e.t2 || [e.t1, e.t2, e.t3, e.t4].any (fun x => i64Max < x) then
    pure (c, false)
  else do
    let duration ← u64.sub e.t4 e.t1
    if maxExchangeNs < duration then pure (c, false)
    else
      let residence ← u64.sub e.t3 e.t2
      let delay ← i128.sub duration residence
      if ¬ (0 ≤ delay ∧ delay ≤ 500000000) then pure (c, false)
      else
        let localNs : ℚ := e.t1 + duration / 2
        if c.lastObserved.any (fun last => localNs ≤ last) then pure (c, false)
        else
          let request ← i128.sub e.t2 e.t1
          let response ← i128.sub e.t3 e.t4
          let doubled ← i128.add request response
          decideSampleM
            { c with
              lastObserved := some localNs
              samples := expire c.samples localNs } e
            { localNs := localNs
              offset := doubled / 2
              delay := delay
              duration := duration }

def observeTimedM (c : ClockEstimator) (e : Exchange) (publicationNs : Option Nat)
    (processedNs : Nat) : Checked (ClockEstimator × Bool) := do
  let (next, accepted) ← c.observeInnerM e
  let kept := if next.trace.length = 128 then next.trace.drop 1 else next.trace
  pure
    ({ next with
        trace := kept ++
          [{ exchange := e
             accepted := accepted
             publicationNs := publicationNs
             processingDelayNs := processedNs - e.t4
             mapping := next.mapping }] }, accepted)

theorem count_ne_zero {selected : List Sample} (h : selected ≠ []) :
    (selected.length : ℚ) ≠ 0 := by
  exact_mod_cast (List.length_pos_iff.mpr h).ne'

theorem fitDriftM_eq {selected : List Sample} (h : selected ≠ []) (localNs previous : ℚ) :
    fitDriftM selected localNs previous = .ok (fitDrift selected localNs previous) := by
  simp only [fitDriftM, divide_ok (count_ne_zero h), bind_ok, fitDrift]
  split_ifs with hspread
  · rw [divide_ok hspread.2.2.ne', bind_ok]
    rfl
  · rfl

theorem fitOffsetM_eq {selected : List Sample} (h : selected ≠ []) (localNs drift : ℚ) :
    fitOffsetM selected localNs drift = .ok (fitOffset selected localNs drift) := by
  simp only [fitOffsetM, divide_ok (count_ne_zero h), bind_ok]
  rfl

/-- A history that is fitted has a first and a last sample. -/
theorem fitM_eq {samples : List Sample} (h : samples ≠ []) (e : Exchange) (previousDrift : ℚ)
    (acceptedObservations : Nat) :
    fitM samples e previousDrift acceptedObservations =
      .ok (fit samples e previousDrift acceptedObservations) := by
  have hselected := selectSamples_ne_nil h
  obtain ⟨first, rest, rfl⟩ := List.exists_cons_of_ne_nil h
  have hlast : (first :: rest).getLast? = some ((first :: rest).getLast h) :=
    List.getLast?_eq_some_getLast h
  rw [fitM, fitDriftM_eq hselected, bind_ok, fitOffsetM_eq hselected, bind_ok, hlast,
    unwrapSome_some, bind_ok, List.head?_cons, unwrapSome_some, bind_ok]
  simp only [fit, hlast, List.head?_cons, Option.map_some, Option.getD_some]
  rfl

theorem keepLast_ne_nil {α : Type} {n : Nat} (hn : 0 < n) {xs : List α} (h : xs ≠ []) :
    keepLast n xs ≠ [] := by
  have hmem := getLast_mem_keepLast hn xs.dropLast (xs.getLast h)
  rw [List.dropLast_append_getLast h] at hmem
  exact List.ne_nil_of_mem hmem

theorem refitM_eq {c : ClockEstimator} (h : c.samples ≠ []) (e : Exchange)
    (acceptedObservations : Nat) :
    c.refitM e acceptedObservations = .ok (c.refit e acceptedObservations) := by
  rw [refitM, fitM_eq (keepLast_ne_nil (by decide) h), bind_ok]
  rfl

theorem confirmedM_eq (recovery : List Sample) (s : Sample) :
    confirmedM recovery s = .ok (confirmed recovery s) := by
  unfold confirmedM confirmed
  by_cases hfew : recovery.length < 8
  · rw [if_pos hfew, decide_eq_false (Nat.not_le.mpr hfew)]
    rfl
  · rw [if_neg hfew, decide_eq_true (Nat.not_lt.mp hfew)]
    cases recovery with
    | nil => exact absurd (by decide) hfew
    | cons first rest => rfl

theorem decideSampleM_eq (c : ClockEstimator) (e : Exchange) :
    c.decideSampleM e e.sample = .ok (c.decideSample e) := by
  simp only [decideSampleM, decideSample, confirmedM_eq, bind_ok]
  by_cases hrejected : (rejectedDelay c.samples e.sample || c.rejectedOffset e) = true
  · rw [if_pos hrejected, if_pos hrejected]
    by_cases hconfirmed : confirmed (c.quarantine e.sample) e.sample = true
    · have hfull : c.quarantine e.sample ≠ [] := by
        intro hnil
        rw [hnil] at hconfirmed
        cases hconfirmed
      rw [if_pos hconfirmed, if_pos hconfirmed, refitM_eq hfull, bind_ok]
      rfl
    · rw [if_neg hconfirmed, if_neg hconfirmed]
      rfl
  · rw [if_neg hrejected, if_neg hrejected,
      refitM_eq (List.append_ne_nil_of_right_ne_nil _ (by simp)), bind_ok]
    rfl

/-- Each subtraction stands behind the comparison that makes it safe. -/
theorem observeInnerM_eq (c : ClockEstimator) (e : Exchange) :
    c.observeInnerM e = .ok (c.observeInner e) := by
  have hrefused (h : e.admissible = false) : c.observeInner e = (c, false) := by
    rw [observeInner, if_pos (by rw [h]; rfl)]
  unfold observeInnerM
  by_cases hordered : (e.t4 < e.t1 || e.t3 < e.t2 ||
      [e.t1, e.t2, e.t3, e.t4].any (fun x => i64Max < x)) = true
  · rw [if_pos hordered, hrefused (by rw [Exchange.admissible, hordered]; rfl)]
    rfl
  have hbounds : (e.t1 ≤ e.t4 ∧ e.t2 ≤ e.t3) ∧
      e.t1 ≤ i64Max ∧ e.t2 ≤ i64Max ∧ e.t3 ≤ i64Max ∧ e.t4 ≤ i64Max := by
    simpa using hordered
  obtain ⟨⟨hexchange, hresidence⟩, ht1, ht2, ht3, ht4⟩ := hbounds
  simp only [i64Max] at ht1 ht2 ht3 ht4
  rw [if_neg hordered, Unsigned.sub_ok hexchange, bind_ok]
  by_cases hlong : maxExchangeNs < e.t4 - e.t1
  · have hinadmissible : e.admissible = false := by
      rw [Exchange.admissible, decide_eq_true hlong, Bool.not_true, Bool.and_false, Bool.false_and]
    rw [if_pos hlong, hrefused hinadmissible]
    rfl
  have hdelay : i128.sub (e.t4 - e.t1 : Nat) (e.t3 - e.t2 : Nat) = .ok e.delay :=
    Signed.sub_ok (i128_has (by omega))
  rw [if_neg hlong, Unsigned.sub_ok hresidence, bind_ok, hdelay, bind_ok]
  by_cases hrange : 0 ≤ e.delay ∧ e.delay ≤ 500000000
  · have hadmissible : e.admissible = true := by
      rw [Exchange.admissible, Bool.eq_false_iff.mpr hordered, decide_eq_false hlong,
        decide_eq_true hrange.1, decide_eq_true hrange.2]
      rfl
    have hobserve : c.observeInner e =
        if c.lastObserved.any (fun last => e.midpoint ≤ last) then (c, false)
        else
          decideSample
            { c with
              lastObserved := some e.midpoint
              samples := expire c.samples e.midpoint } e := by
      rw [observeInner, hadmissible]
      rfl
    rw [if_neg (not_not.mpr hrange), hobserve]
    by_cases hstale : c.lastObserved.any (fun last => e.midpoint ≤ last) = true
    · rw [if_pos hstale]
      exact if_pos hstale
    · have hrequest : i128.Has ((e.t2 : Int) - e.t1) := i128_has (by omega)
      have hresponse : i128.Has ((e.t3 : Int) - e.t4) := i128_has (by omega)
      have hdoubled : i128.Has (((e.t2 : Int) - e.t1) + ((e.t3 : Int) - e.t4)) :=
        i128_has (by omega)
      rw [if_neg hstale, ← decideSampleM_eq]
      refine (if_neg hstale).trans ?_
      rw [Signed.sub_ok hrequest, bind_ok, Signed.sub_ok hresponse, bind_ok,
        Signed.add_ok hdoubled, bind_ok]
      rfl
  · have hinadmissible : e.admissible = false := by
      by_contra hadmissible
      rw [Bool.not_eq_false, Exchange.admissible, Bool.and_eq_true, Bool.and_eq_true (decide _),
        decide_eq_true_eq, decide_eq_true_eq] at hadmissible
      exact hrange hadmissible.2
    rw [if_pos hrange, hrefused hinadmissible]
    rfl

theorem observeTimedM_eq (c : ClockEstimator) (e : Exchange) (publicationNs : Option Nat)
    (processedNs : Nat) :
    c.observeTimedM e publicationNs processedNs =
      .ok (c.observeTimed e publicationNs processedNs) := by
  rw [observeTimedM, observeInnerM_eq, bind_ok]
  rfl

end ClockEstimator

namespace Probes

/-- `sequence as usize % 128`, as an index of an array of 128. -/
def slotM (sequence : Nat) : Checked (Fin 128) := do
  let i ← u64.rem sequence 128
  index 128 i

def requestM (p : Probes) (now : Nat) : Checked (Probes × Except Error Bytes) :=
  if i64Max < now then pure (p, .error (.invalid "timestamp"))
  else if u64Max < p.sequence + 1 then pure (p, .error (.invalid "probe sequence exhausted"))
  else
    let p := { p with sequence := p.sequence + 1 }
    match encodeProbe ⟨1, p.sequence, now, 0, 0⟩ with
    | .error e => pure (p, .error e)
    | .ok bytes => do
        let i ← slotM p.sequence
        pure
          ({ p with
              publication := p.publication.set i none
              outstanding := p.outstanding.set i (p.sequence, now) }, .ok bytes)

def publicationFinishedM (p : Probes) (now : Nat) : Checked Probes := do
  let i ← slotM p.sequence
  if (p.outstanding.get i).1 = p.sequence ∧ p.sequence ≠ 0 then
    pure
      { p with
        publication := p.publication.set i (checkedSub now (p.outstanding.get i).2) }
  else pure p

def replyM (p : Probes) (bytes : Bytes) (now : Nat) :
    Checked (Probes × Except Error (Option Exchange)) :=
  let p := { p with lastPublication := none }
  match decodeProbe bytes with
  | .error e => pure (p, .error e)
  | .ok q => do
      let i ← slotM q.sequence
      if q.sequence = 0 ∨ p.outstanding.get i ≠ (q.sequence, q.t1) ∨ q.t2 = 0 then
        pure (p, .ok none)
      else if now < q.t1 then pure (p, .ok none)
      else
        let residence ← u64.sub q.t3 q.t2
        let exchange ← u64.sub now q.t1
        if exchange < residence then pure (p, .ok none)
        else if maxExchangeNs < exchange then
          pure ({ p with outstanding := p.outstanding.set i (0, 0) }, .ok none)
        else
          pure
            ({ p with
                outstanding := p.outstanding.set i (0, 0)
                lastPublication := p.publication.get i }, .ok (some ⟨q.t1, q.t2, q.t3, now⟩))

theorem slotM_eq (sequence : Nat) : slotM sequence = .ok (slot 128 sequence) := by
  rw [slotM, Unsigned.rem_ok (by decide), bind_ok, index_ok (Nat.mod_lt _ (by decide))]
  rfl

theorem requestM_eq (p : Probes) (now : Nat) : p.requestM now = .ok (p.request now) := by
  unfold requestM request
  split_ifs
  · rfl
  · rfl
  · cases hencode : encodeProbe ⟨1, p.sequence + 1, now, 0, 0⟩ with
    | error e => simp only [hencode]; rfl
    | ok bytes => simp only [hencode, slotM_eq, bind_ok]; rfl

theorem publicationFinishedM_eq (p : Probes) (now : Nat) :
    p.publicationFinishedM now = .ok (p.publicationFinished now) := by
  simp only [publicationFinishedM, slotM_eq, bind_ok, publicationFinished]
  split_ifs <;> rfl

/-- `decode_probe` has put the two leader times in order. -/
theorem replyM_eq (p : Probes) (bytes : Bytes) (now : Nat) :
    p.replyM bytes now = .ok (p.reply bytes now) := by
  unfold replyM reply
  cases hdecode : decodeProbe bytes with
  | error e => rfl
  | ok q =>
      have hordered := (decodeProbe_ok_iff.mp hdecode).2.2.ordered
      simp only [slotM_eq, bind_ok, Unsigned.sub_ok hordered]
      by_cases hunmatched : q.sequence = 0 ∨
          p.outstanding.get (slot 128 q.sequence) ≠ (q.sequence, q.t1) ∨ q.t2 = 0
      · rw [if_pos hunmatched, if_pos hunmatched]
        rfl
      · rw [if_neg hunmatched, if_neg hunmatched]
        by_cases hearly : now < q.t1
        · rw [if_pos hearly, if_pos (Or.inl hearly)]
          rfl
        · rw [if_neg hearly, Unsigned.sub_ok (Nat.not_lt.mp hearly), bind_ok]
          by_cases hshort : now - q.t1 < q.t3 - q.t2
          · rw [if_pos hshort, if_pos (Or.inr hshort)]
            rfl
          · rw [if_neg hshort, if_neg (not_or.mpr ⟨hearly, hshort⟩)]
            split_ifs <;> rfl

end Probes

end Tidkod
