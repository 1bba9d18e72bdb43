import Mathlib.Tactic
import Tidkod.Lib.AgreementWindow
import Tidkod.Protocol.ClockFit
import Tidkod.Protocol.Quarantine

/-!
What has been observed when an estimator gives up its history. The observations that
replace it are the last sixteen valid ones of a stretch in which nothing was accepted.
Each of them was compared with the oldest one in quarantine when it arrived. In a stretch
of more than sixteen that one has been given up since, and the observations need not agree
with the oldest one that is left.
-/

namespace Tidkod

open AgreementWindow

/-- Agreement in offset, once drift is compensated, in delay and in time, within bounds
that the delay of the earlier sample sets. -/
structure Sample.Agrees (drift : ℚ) (first s : Sample) : Prop where
  offset : |s.offset - first.offset - (s.localNs - first.localNs) * drift| ≤
    max 2000000 (first.delay / 4)
  delay : |s.delay - first.delay| ≤ max 5000000 (first.delay / 4)
  elapsed : s.localNs - first.localNs ≤ 5000000000

theorem Sample.agrees_self (drift : ℚ) (s : Sample) : s.Agrees drift s where
  offset := by simp
  delay := by simp
  elapsed := by norm_num

namespace ClockEstimator

theorem consistentWith_iff (drift : ℚ) (first s : Sample) :
    consistentWith drift first s = true ↔ first.Agrees drift s := by
  simp only [consistentWith, Bool.and_eq_true, decide_eq_true_eq, max_comm (first.delay / 4)]
  exact ⟨fun ⟨⟨a, b⟩, d⟩ => ⟨a, b, d⟩, fun h => ⟨⟨h.offset, h.delay⟩, h.elapsed⟩⟩

instance (drift : ℚ) : DecidableRel (Sample.Agrees drift) :=
  fun first s => decidable_of_iff _ (consistentWith_iff drift first s)

/-- The exchange is valid and later than what was observed before. -/
def Valid (c : ClockEstimator) (e : Exchange) : Prop :=
  e.admissible = true ∧ ∀ last ∈ c.lastObserved, last < e.midpoint

instance (c : ClockEstimator) (e : Exchange) : Decidable (c.Valid e) :=
  inferInstanceAs (Decidable (_ ∧ _))

/-- A valid observation is noted down. -/
def noteValid (noted : List Sample) (c : ClockEstimator) (a : Arrival) : List Sample :=
  if c.Valid a.exchange then noted ++ [a.exchange.sample] else noted

/-- The valid observations among the arrivals. -/
def validSamples (c : ClockEstimator) (arrivals : List Arrival) : List Sample :=
  Machine.record feed noteValid [] c arrivals

/-- The arrival is rejected, and it is an outlier unless it is not valid at all. -/
structure Rejects (c : ClockEstimator) (a : Arrival) : Prop where
  refused : (c.feed a).2 = false
  outlier : c.Valid a.exchange → c.Outlier a.exchange

/-- The samples that replace the history when an arrival is accepted out of quarantine.
They end a stretch without an accepted observation that began in state `c`. -/
structure Reacquired (c : ClockEstimator) (stretch : List Arrival) (a : Arrival)
    (samples : List Sample) : Prop where
  rejected : Machine.Along feed Rejects c stretch
  consecutive : samples = keepLast 16 (c.validSamples (stretch ++ [a]))
  newest : samples.getLast? = some a.exchange.sample
  length_ge : 8 ≤ samples.length
  length_le : samples.length ≤ 16
  increasing : samples.Pairwise (fun s t => s.localNs < t.localNs)
  spans : ∀ oldest ∈ samples.head?, 500000000 ≤ a.exchange.midpoint - oldest.localNs ∧
    a.exchange.midpoint - oldest.localNs ≤ 5000000000
  coherent : Coherent (Sample.Agrees c.mapping.drift) 16 (c.validSamples (stretch ++ [a]))
  agrees_oldest : (c.validSamples (stretch ++ [a])).length ≤ 16 →
    ∀ oldest ∈ samples.head?, ∀ s ∈ samples, oldest.Agrees c.mapping.drift s
  not_alternating : ¬ (c.validSamples (stretch ++ [a])).IsChain
    (fun s t => ¬ s.Agrees c.mapping.drift t)

section Notes

variable (c : ClockEstimator) (arrivals : List Arrival) {a : Arrival}

theorem validSamples_concat_of_valid (h : (Machine.run feed c arrivals).Valid a.exchange) :
    c.validSamples (arrivals ++ [a]) = c.validSamples arrivals ++ [a.exchange.sample] := by
  rw [validSamples, Machine.record_append]
  exact if_pos h

theorem validSamples_concat_of_not_valid
    (h : ¬ (Machine.run feed c arrivals).Valid a.exchange) :
    c.validSamples (arrivals ++ [a]) = c.validSamples arrivals := by
  rw [validSamples, Machine.record_append]
  exact if_neg h

end Notes

variable {c : ClockEstimator} {a : Arrival}

theorem Outlier.valid {e : Exchange} (h : c.Outlier e) : c.Valid e := ⟨h.admissible, h.new⟩

/-- What is not valid has no effect. -/
theorem observeInner_of_not_valid {e : Exchange} (h : ¬ c.Valid e) :
    c.observeInner e = (c, false) := by
  have houtcome := observeInner_outcome c e
  generalize c.observeInner e = result at houtcome ⊢
  cases houtcome with
  | ignored => rfl
  | quarantined hadmissible hnew => exact absurd ⟨hadmissible, hnew⟩ h
  | promoted hadmissible hnew => exact absurd ⟨hadmissible, hnew⟩ h
  | accepted hadmissible hnew => exact absurd ⟨hadmissible, hnew⟩ h

/-- A valid observation that is rejected is an outlier. -/
theorem outlier_of_refused (hvalid : c.Valid a.exchange) (h : (c.feed a).2 = false) :
    c.Outlier a.exchange := by
  refine ⟨hvalid.1, hvalid.2, ?_⟩
  by_contra hordinary
  have haccepted : (c.observeInner a.exchange).2 = true := by
    rw [observeInner_of_new hvalid.1 hvalid.2, decideSample]
    simp only [if_neg hordinary]
  exact absurd (haccepted.symm.trans h) (by decide)

theorem rejects_iff : c.Rejects a ↔ (c.feed a).2 = false :=
  ⟨Rejects.refused, fun h => ⟨h, fun hvalid => outlier_of_refused hvalid h⟩⟩

/-- A rejected observation never changes the mapping. -/
theorem mapping_of_refused (h : (c.feed a).2 = false) : (c.feed a).1.mapping = c.mapping :=
  observeInner_mapping_of_rejected h

theorem mapping_of_rejected_run {stretch : List Arrival}
    (h : Machine.Along feed Rejects c stretch) :
    (Machine.run feed c stretch).mapping = c.mapping :=
  (Machine.along_of_invariant (P := fun d => d.mapping = c.mapping) (Q := fun _ _ => True)
    (fun _ _ hsame hrejects => ⟨trivial, (mapping_of_refused hrejects.refused).trans hsame⟩)
    rfl h).2

/-- The quarantine is a window on outliers that agree. -/
theorem quarantine_eq_push (c : ClockEstimator) (s : Sample) :
    c.quarantine s = push (Sample.Agrees c.mapping.drift) 16 c.recovery s := by
  have hfits : (c.recovery.head?.all (fun f => consistentWith c.mapping.drift f s) = true) ↔
      Fits (Sample.Agrees c.mapping.drift) c.recovery s := by
    rw [Option.all_eq_true]
    simp only [Fits, consistentWith_iff, Option.mem_def]
  rw [quarantine_eq rfl rfl, keepLast_eq_rtake, push]
  simp only [hfits]

/-- Since state `c` nothing has been accepted, and the quarantine holds the last of the
valid observations made since. -/
structure Gathers (c : ClockEstimator) (stretch : List Arrival) : Prop where
  rejected : Machine.Along feed Rejects c stretch
  recovery : (Machine.run feed c stretch).recovery = keepLast 16 (c.validSamples stretch)
  coherent : Coherent (Sample.Agrees c.mapping.drift) 16 (c.validSamples stretch)

/-- The same with one more outlier. -/
structure Gathering (c : ClockEstimator) (stretch : List Arrival) (a : Arrival) : Prop where
  rejected : Machine.Along feed Rejects c stretch
  quarantine : (Machine.run feed c stretch).quarantine a.exchange.sample =
    keepLast 16 (c.validSamples (stretch ++ [a]))
  coherent : Coherent (Sample.Agrees c.mapping.drift) 16 (c.validSamples (stretch ++ [a]))

theorem gathers_nil (h : c.recovery = []) : c.Gathers [] where
  rejected := trivial
  recovery := by
    rw [keepLast_eq_rtake]
    exact h
  coherent := coherent_nil

/-- An outlier continues the stretch, or begins one of its own. -/
theorem Gathers.next {stretch : List Arrival} (h : c.Gathers stretch)
    (houtlier : (Machine.run feed c stretch).Outlier a.exchange) :
    c.Gathering stretch a ∨ (Machine.run feed c stretch).Gathering [] a := by
  have hmapping := mapping_of_rejected_run h.rejected
  have hquarantine : (Machine.run feed c stretch).quarantine a.exchange.sample =
      push (Sample.Agrees c.mapping.drift) 16 ((c.validSamples stretch).rtake 16)
        a.exchange.sample := by
    rw [← keepLast_eq_rtake, ← h.recovery, quarantine_eq_push, hmapping]
  rcases h.coherent.push (by decide) a.exchange.sample with
    ⟨-, hcoherent, hpush⟩ | ⟨hcoherent, hpush⟩
  · have hvalid := validSamples_concat_of_valid c stretch houtlier.valid
    refine Or.inl ⟨h.rejected, ?_, ?_⟩
    · rw [hquarantine, hpush, hvalid, keepLast_eq_rtake]
    · rw [hvalid]
      exact hcoherent
  · have hvalid : (Machine.run feed c stretch).validSamples ([] ++ [a]) =
        [a.exchange.sample] :=
      validSamples_concat_of_valid (Machine.run feed c stretch) [] houtlier.valid
    refine Or.inr ⟨trivial, ?_, ?_⟩
    · rw [Machine.run_nil, hquarantine, hpush, hvalid, keepLast_eq_rtake]
    · rw [hvalid, hmapping]
      exact hcoherent

/-- An outlier that does not confirm the quarantine stays in it. -/
theorem Gathering.gathers {stretch : List Arrival} (h : c.Gathering stretch a)
    (houtlier : (Machine.run feed c stretch).Outlier a.exchange)
    (hrefused : ((Machine.run feed c stretch).feed a).2 = false) :
    c.Gathers (stretch ++ [a]) where
  rejected := by
    rw [Machine.along_append]
    exact ⟨h.rejected, rejects_iff.mpr hrefused, trivial⟩
  recovery := by
    obtain ⟨hconfirmed, hkept, -⟩ := feed_of_outlier houtlier
    rw [Machine.run_append, Machine.run_cons, Machine.run_nil, ← h.quarantine]
    exact (hkept (hconfirmed.symm.trans hrefused)).2
  coherent := h.coherent

/-- What is not valid passes without notice. -/
theorem Gathers.concat_of_not_valid {stretch : List Arrival} (h : c.Gathers stretch)
    (hvalid : ¬ (Machine.run feed c stretch).Valid a.exchange) :
    c.Gathers (stretch ++ [a]) where
  rejected := by
    have hrefused : ((Machine.run feed c stretch).feed a).2 = false :=
      congrArg Prod.snd (observeInner_of_not_valid hvalid)
    rw [Machine.along_append]
    exact ⟨h.rejected, rejects_iff.mpr hrefused, trivial⟩
  recovery := by
    have hsame : ((Machine.run feed c stretch).feed a).1.recovery =
        (Machine.run feed c stretch).recovery :=
      congrArg (fun result => result.1.recovery) (observeInner_of_not_valid hvalid)
    rw [Machine.run_append, Machine.run_cons, Machine.run_nil, hsame,
      validSamples_concat_of_not_valid c stretch hvalid]
    exact h.recovery
  coherent := by
    rw [validSamples_concat_of_not_valid c stretch hvalid]
    exact h.coherent

/-- The history ends in a stretch whose valid observations the quarantine holds. -/
def Gathered (history : List Arrival) : Prop :=
  ∃ earlier stretch, history = earlier ++ stretch ∧
    (Machine.run feed default earlier).Gathers stretch

theorem Gathered.next {history : List Arrival} (h : Gathered history)
    (houtlier : (Machine.run feed default history).Outlier a.exchange) :
    ∃ earlier stretch, history = earlier ++ stretch ∧
      (Machine.run feed default earlier).Gathering stretch a := by
  obtain ⟨earlier, stretch, rfl, hgathers⟩ := h
  rw [Machine.run_append] at houtlier
  rcases hgathers.next houtlier with hcontinued | hrestarted
  · exact ⟨earlier, stretch, rfl, hcontinued⟩
  · refine ⟨earlier ++ stretch, [], (List.append_nil _).symm, ?_⟩
    rw [Machine.run_append]
    exact hrestarted

theorem Gathered.concat {history : List Arrival} (h : Gathered history) (a : Arrival) :
    Gathered (history ++ [a]) := by
  by_cases hvalid : (Machine.run feed default history).Valid a.exchange
  · cases hdecision : ((Machine.run feed default history).feed a).2 with
    | false =>
        have houtlier := outlier_of_refused hvalid hdecision
        obtain ⟨earlier, stretch, rfl, hgathering⟩ := h.next houtlier
        rw [Machine.run_append] at houtlier hdecision
        exact ⟨earlier, stretch ++ [a], List.append_assoc _ _ _,
          hgathering.gathers houtlier hdecision⟩
    | true =>
        refine ⟨history ++ [a], [], (List.append_nil _).symm, gathers_nil ?_⟩
        rw [Machine.run_append]
        exact recovery_of_accepted hdecision
  · obtain ⟨earlier, stretch, rfl, hgathers⟩ := h
    rw [Machine.run_append] at hvalid
    exact ⟨earlier, stretch ++ [a], List.append_assoc _ _ _, hgathers.concat_of_not_valid hvalid⟩

theorem gathered (history : List Arrival) : Gathered history := by
  induction history using List.reverseRecOn with
  | nil => exact ⟨[], [], rfl, gathers_nil rfl⟩
  | append_singleton history a ih => exact ih.concat a

/-- The newest observation was compared with the oldest one before it, and the oldest one
that is left is not earlier than that. -/
theorem Chronological.quarantine_elapsed {e : Exchange} (h : c.Chronological) :
    ∀ oldest ∈ (c.quarantine e.sample).head?,
      e.midpoint - oldest.localNs ≤ 5000000000 := by
  intro oldest holdest
  have hself : e.midpoint - e.sample.localNs ≤ 5000000000 := by
    simp [Exchange.sample]
  rw [quarantine_eq_push, push] at holdest
  have hmem := (List.drop_suffix _ _).subset (List.mem_of_mem_head? holdest)
  split_ifs at hmem with hfits
  · rcases List.mem_append.mp hmem with hkept | hlast
    · obtain ⟨first, rest, hrecovery⟩ := List.exists_cons_of_ne_nil (List.ne_nil_of_mem hkept)
      have hagrees : first.Agrees c.mapping.drift e.sample := hfits first (by rw [hrecovery]; rfl)
      have helapsed : e.midpoint - first.localNs ≤ 5000000000 := hagrees.elapsed
      have hordered := h.recovery
      rw [hrecovery] at hkept hordered
      rcases List.mem_cons.mp hkept with rfl | hlater
      · exact helapsed
      · have hle := (List.pairwise_cons.mp hordered).1 oldest hlater
        linarith
    · rw [List.mem_singleton.mp hlast]
      exact hself
  · rw [List.nil_append] at hmem
    rw [List.mem_singleton.mp hmem]
    exact hself

theorem length_quarantine_le (c : ClockEstimator) (s : Sample) : (c.quarantine s).length ≤ 16 := by
  unfold quarantine keepLast
  rw [List.length_drop]
  omega

theorem getLast_quarantine (c : ClockEstimator) (s : Sample) :
    (c.quarantine s).getLast? = some s := by
  rw [quarantine_eq_push, push, List.rtake_concat_succ, List.getLast?_concat]

/-- The quarantine that an outlier confirms is sound evidence of a change. -/
theorem Gathering.reacquired {stretch : List Arrival} (h : c.Gathering stretch a)
    (hchronological : (Machine.run feed c stretch).Chronological)
    (houtlier : (Machine.run feed c stretch).Outlier a.exchange)
    (haccepted : ((Machine.run feed c stretch).feed a).2 = true) :
    c.Reacquired stretch a ((Machine.run feed c stretch).feed a).1.samples := by
  obtain ⟨hdecision, -, hpromoted⟩ := feed_of_outlier houtlier
  have hconfirmed := hdecision.symm.trans haccepted
  have hlength := length_quarantine_le (Machine.run feed c stretch) a.exchange.sample
  have hsamples : ((Machine.run feed c stretch).feed a).1.samples =
      (Machine.run feed c stretch).quarantine a.exchange.sample := by
    rw [hpromoted hconfirmed]
    exact keepLast_of_length_le (hlength.trans (by decide))
  simp only [confirmed, Bool.and_eq_true, decide_eq_true_eq] at hconfirmed
  obtain ⟨hcount, hspan⟩ := hconfirmed
  rw [hsamples]
  refine
    { rejected := h.rejected
      consecutive := h.quarantine
      newest := getLast_quarantine _ _
      length_ge := hcount
      length_le := hlength
      increasing := hchronological.quarantine houtlier.new
      spans := ?_
      coherent := h.coherent
      agrees_oldest := ?_
      not_alternating := ?_ }
  · intro oldest holdest
    refine ⟨?_, hchronological.quarantine_elapsed oldest holdest⟩
    rw [Option.mem_def.mp holdest] at hspan
    exact of_decide_eq_true hspan
  · intro hshort oldest holdest
    rw [h.quarantine, keepLast_of_length_le hshort] at holdest ⊢
    exact h.coherent.agrees_first hshort (oldest.agrees_self _) holdest
  · intro halternating
    have hone := h.coherent.length_le_one (by decide) halternating
    have hkept := (keepLast_suffix 16 (c.validSamples (stretch ++ [a]))).length_le
    rw [← h.quarantine] at hkept
    omega

/-- A rejected observation leaves the mapping as it is. An outlier is accepted only with
eight to sixteen observations behind it that follow each other without an accepted one
between them, span 500 ms to five seconds, and each agreed with the oldest in quarantine
when it arrived. -/
theorem reacquisition_is_coherent (history : List Arrival) (a : Arrival) :
    (((Machine.run feed default history).feed a).2 = false →
      ((Machine.run feed default history).feed a).1.mapping =
        (Machine.run feed default history).mapping) ∧
    ((Machine.run feed default history).Outlier a.exchange →
      ((Machine.run feed default history).feed a).2 = true →
      ∃ earlier stretch, history = earlier ++ stretch ∧
        (Machine.run feed default earlier).Reacquired stretch a
          ((Machine.run feed default history).feed a).1.samples) := by
  refine ⟨mapping_of_refused, ?_⟩
  intro houtlier haccepted
  obtain ⟨earlier, stretch, rfl, hgathering⟩ := (gathered history).next houtlier
  have hchronological := chronological_run (earlier ++ stretch)
  rw [Machine.run_append] at houtlier haccepted hchronological ⊢
  exact ⟨earlier, stretch, rfl, hgathering.reacquired hchronological houtlier haccepted⟩

end ClockEstimator

/-- The step of the leader that is recovered from at the eleventh observation. -/
theorem reacquisition_is_coherent_of_step :
    ∃ earlier stretch, convergedHistory ++ steppedSequence 50000000 10 = earlier ++ stretch ∧
      (Machine.run ClockEstimator.feed ClockEstimator.default earlier).Reacquired stretch
        ⟨⟨2500000000, 8500500000, 8500500000, 2501000000⟩, none, 2501000000⟩
        ((Machine.run ClockEstimator.feed ClockEstimator.default
          (convergedHistory ++ steppedSequence 50000000 10)).feed
            ⟨⟨2500000000, 8500500000, 8500500000, 2501000000⟩, none, 2501000000⟩).1.samples :=
  (ClockEstimator.reacquisition_is_coherent _ _).2 (by decide +kernel) (by decide +kernel)

/-- Sixteen exchanges within 150 ms after the leader has stepped by a second. The second
reads 2 ms less than the first, the others 2 ms more. -/
def wanderingSequence : List Arrival :=
  (List.range 16).map (fun i =>
    let sent := 2000000000 + 10000000 * i
    let ahead := if i = 0 then 6000500000 else if i = 1 then 5998500000 else 6002500000
    ⟨⟨sent, sent + ahead, sent + ahead, sent + 1000000⟩, none, sent + 1000000⟩)

/-- One more observation, half a second later, gives up the first and confirms the rest,
which differ by 4 ms from the oldest of them. -/
theorem evidence_can_disagree_with_oldest :
    ¬ ∀ (history : List Arrival) (a : Arrival),
      (Machine.run ClockEstimator.feed ClockEstimator.default history).Outlier a.exchange →
      ((Machine.run ClockEstimator.feed ClockEstimator.default history).feed a).2 = true →
      ∀ oldest ∈ ((Machine.run ClockEstimator.feed ClockEstimator.default history).feed
        a).1.samples.head?,
      ∀ s ∈ ((Machine.run ClockEstimator.feed ClockEstimator.default history).feed a).1.samples,
        oldest.Agrees (Machine.run ClockEstimator.feed ClockEstimator.default
          history).mapping.drift s := by
  intro hclaim
  have hagrees := hclaim (convergedHistory ++ wanderingSequence)
    ⟨⟨2600000000, 8602500000, 8602500000, 2601000000⟩, none, 2601000000⟩
    (by decide +kernel) (by decide +kernel)
  revert hagrees
  decide +kernel

end Tidkod
