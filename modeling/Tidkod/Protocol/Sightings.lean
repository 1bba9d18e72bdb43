import Mathlib.Tactic
import Tidkod.Lib.Machine
import Tidkod.Protocol.TrackerSteps

/-!
When a tracker confirms a discontinuity. The samples since the last discontinuity are
listed with the error and the speed that each of them showed, and what three of them in a
row agree on is read off the list. A sample within a millisecond of its predecessor shows
no speed: to the list it is silent, but the tracker takes the present rate in its place
and forgets the speeds before it.
-/

namespace Tidkod

open Streak Observation

/-- An accepted sample: what it says about the trajectory, and whether its speed is an
estimate or stands in for a missing one. -/
structure Sighting where
  observation : Observation
  estimated : Bool
  deriving DecidableEq

/-- What is remembered of a run: the sightings since the last discontinuity, newest first,
and whether any sample was accepted. -/
structure Sightings where
  since : List Sighting
  sampled : Bool
  deriving DecidableEq

namespace Sightings

def observations (g : Sightings) : List Observation := g.since.map Sighting.observation

/-- The speed estimates among the observations. -/
def estimates (g : Sightings) : List Observation :=
  (g.since.filter Sighting.estimated).map Sighting.observation

def add (g : Sightings) (sighting : Sighting) : Sightings := ⟨sighting :: g.since, true⟩

@[simp] theorem observations_add (g : Sightings) (sighting : Sighting) :
    (g.add sighting).observations = sighting.observation :: g.observations := rfl

theorem estimates_add_of_estimated (g : Sightings) {sighting : Sighting}
    (h : sighting.estimated = true) :
    (g.add sighting).estimates = sighting.observation :: g.estimates := by
  rw [estimates, add, List.filter_cons_of_pos h, List.map_cons]
  rfl

theorem estimates_add_of_not_estimated (g : Sightings) {sighting : Sighting}
    (h : sighting.estimated = false) : (g.add sighting).estimates = g.estimates := by
  rw [estimates, add, List.filter_cons_of_neg (by simp [h])]
  rfl

end Sightings

namespace Observation

instance : DecidablePred Off := fun o => inferInstanceAs (Decidable (1 < |o.error|))

instance : DecidableRel SameDirection :=
  fun newer older => inferInstanceAs (Decidable (newer.direction = older.direction))

instance : DecidablePred ChangedSpeed :=
  fun o => inferInstanceAs (Decidable (1 / 50 < |o.speed - o.rate|))

instance : DecidableRel SameSpeed :=
  fun newer older => inferInstanceAs (Decidable (|older.speed - newer.speed| < 1 / 20))

instance (n : Nat) (since : List Observation) : Decidable (Jumping n since) :=
  decidable_of_iff _ confirmed_iff_le_length.symm

instance (n : Nat) (since : List Observation) : Decidable (Speeding n since) :=
  decidable_of_iff _ confirmed_iff_le_length.symm

end Observation

namespace Tracker

def sight (tr : Tracker) (t : Timeline) (s : SourceSample) : Sighting :=
  ⟨tr.observe t s, (tr.inferred t s).isSome⟩

/-- A sample that follows its predecessor within a millisecond. -/
def Close (tr : Tracker) (s : SourceSample) : Prop :=
  ∃ p ∈ tr.last, s.timestampNs < p.timestampNs + 1000000

instance (tr : Tracker) (s : SourceSample) : Decidable (tr.Close s) :=
  match h : tr.last with
  | none => isFalse (by simp [Close, h])
  | some p => decidable_of_iff (s.timestampNs < p.timestampNs + 1000000) (by simp [Close, h])

/-- A discontinuity starts the list anew, and a refused sample is not in it. -/
def note (g : Sightings) (st : Tracker × Timeline) (a : SourceSample × Nat) : Sightings :=
  match (feed st a).2 with
  | .ok true => ⟨[], true⟩
  | .ok false => g.add (st.1.sight st.2 a.1)
  | .error _ => g

def sightings (t : Timeline) (before : List (SourceSample × Nat)) : Sightings :=
  Machine.record feed note ⟨[], false⟩ (default, t) before

/-- The sample is flagged or the first, or it completes three errors in one direction or
three changed speeds. -/
def Confirmed (g : Sightings) (st : Tracker × Timeline) (s : SourceSample) : Prop :=
  s.discontinuity = true ∨ g.sampled = false ∨
    Jumping 3 (g.add (st.1.sight st.2 s)).observations ∨
    ((st.1.sight st.2 s).estimated = true ∧ Speeding 3 (g.add (st.1.sight st.2 s)).estimates)

instance (g : Sightings) (st : Tracker × Timeline) (s : SourceSample) :
    Decidable (Confirmed g st s) :=
  inferInstanceAs (Decidable (_ ∨ _ ∨ _ ∨ _ ∧ _))

/-- An accepted sample introduces a discontinuity exactly if it is confirmed, and a close
one that does not leaves the evidence for a changed speed as it was. -/
structure ConfirmedExactly (g : Sightings) (st : Tracker × Timeline) (a : SourceSample × Nat) :
    Prop where
  refused : ¬ st.1.Accepts st.2 a.1 a.2 → ∃ e, feed st a = (st, .error e)
  confirmed : st.1.Accepts st.2 a.1 a.2 →
    (feed st a).2 = .ok (decide (Confirmed g st a.1))
  kept : st.1.Accepts st.2 a.1 a.2 → st.1.Close a.1 → (feed st a).2 = .ok false →
    (feed st a).1.1.candidate = st.1.candidate

/-- A close sample comes while no changed speed is being confirmed, or introduces a
discontinuity by its flag or as the third jump. -/
def KeepsEvidence (st : Tracker × Timeline) (a : SourceSample × Nat) : Prop :=
  st.1.Accepts st.2 a.1 a.2 → st.1.Close a.1 →
    st.1.candidate = none ∨ a.1.discontinuity = true ∨
      3 ≤ (st.1.countJumps (error st.2 a.1)).jumps

instance (st : Tracker × Timeline) (a : SourceSample × Nat) : Decidable (KeepsEvidence st a) :=
  inferInstanceAs (Decidable (_ → _ → _ ∨ _ ∨ _))

variable {tr : Tracker} {t : Timeline} {s : SourceSample} {g : Sightings}

theorem inferred_eq_none_iff (tr : Tracker) (t : Timeline) (s : SourceSample) :
    tr.inferred t s = none ↔ tr.last = none ∨ tr.Close s := by
  unfold inferred Close
  cases hlast : tr.last with
  | none => simp
  | some p =>
      have hscale : 1 / 1000 ≤ ((s.timestampNs - p.timestampNs : Nat) : ℚ) / 1000000000 ↔
          p.timestampNs + 1000000 ≤ s.timestampNs := by
        rw [div_le_div_iff₀ (by norm_num) (by norm_num)]
        constructor
        · intro hlong
          have hnat : 1 * 1000000000 ≤ (s.timestampNs - p.timestampNs) * 1000 := by
            exact_mod_cast hlong
          omega
        · intro hlong
          exact_mod_cast (by omega : 1 * 1000000000 ≤ (s.timestampNs - p.timestampNs) * 1000)
      simp only [Option.bind_some, hscale, reduceCtorEq, false_or, Option.mem_some_iff,
        exists_eq_left', ite_eq_right_iff, imp_false, not_le]

/-- Without a hint and an estimate the present rate stands in for the speed. -/
theorem speed_of_not_estimated (hhint : s.rateHint = none) (h : tr.inferred t s = none) :
    tr.speed t s = t.anchor.rate.asF64 := by
  rw [speed, hhint, h]
  exact clamped_rate t.anchor.rate

theorem not_changed_of_not_estimated (hhint : s.rateHint = none) (h : tr.inferred t s = none) :
    ¬ 1 / 50 < |tr.speed t s - t.anchor.rate.asF64| := by
  rw [speed_of_not_estimated hhint h, sub_self, abs_zero]
  norm_num

/-- The counters of the tracker are the lengths of the stretches that the list ends in. -/
structure Exact (g : Sightings) (tr : Tracker) : Prop where
  sampled : g.sampled = false ↔ tr.last = none
  jumps : tr.jumps = length Off SameDirection g.observations
  direction : tr.jumps ≠ 0 → ∀ o ∈ g.observations.head?, o.direction = tr.jumpsSign
  candidate : tr.candidate =
    if length ChangedSpeed SameSpeed g.estimates = 0 then none
    else g.estimates.head?.map fun o => (o.speed, length ChangedSpeed SameSpeed g.estimates)

theorem exact_default : Exact ⟨[], false⟩ default where
  sampled := ⟨fun _ => rfl, fun _ => rfl⟩
  jumps := rfl
  direction := fun h => absurd rfl h
  candidate := rfl

theorem exact_cleared (s : SourceSample) : Exact ⟨[], true⟩ ⟨some s, none, 0, 0⟩ where
  sampled := by simp
  jumps := rfl
  direction := fun h => absurd rfl h
  candidate := rfl

theorem Exact.countJumps (h : Exact g tr) (t : Timeline) (s : SourceSample) :
    (tr.countJumps (error t s)).jumps =
        length Off SameDirection (tr.observe t s :: g.observations) ∧
      ((tr.countJumps (error t s)).jumps ≠ 0 →
        (tr.observe t s).direction = (tr.countJumps (error t s)).jumpsSign) := by
  unfold Tracker.countJumps
  by_cases hoff : 1 < |error t s|
  · have hkind : (tr.observe t s).Off := hoff
    rw [if_pos hoff]
    refine ⟨?_, fun _ => rfl⟩
    change (if (tr.observe t s).direction ≠ tr.jumpsSign then 0 else tr.jumps) + 1 = _
    by_cases hzero : tr.jumps = 0
    · have hnone := h.jumps.symm.trans hzero
      rw [hzero, ite_self, length_cons_of_alone hkind (Or.inl hnone)]
    · -- A stretch that is not empty has a latest finding, whose direction is the sign.
      obtain ⟨o, ho⟩ : ∃ o, o ∈ g.observations.head? := by
        cases hlist : g.observations with
        | nil => exact absurd (h.jumps.trans (by rw [hlist]; rfl)) hzero
        | cons o rest => exact ⟨o, rfl⟩
      have hsign := h.direction hzero o ho
      split_ifs with hturned
      · have hdiffers : ¬ SameDirection (tr.observe t s) o := fun hsame =>
          hturned (hsame.trans hsign)
        rw [length_cons_of_alone hkind (Or.inr ⟨o, ho, hdiffers⟩)]
      · rw [h.jumps, length_cons_of_agrees hkind]
        intro b hb
        obtain rfl := Option.mem_unique ho hb
        exact (not_not.mp hturned).trans hsign.symm
  · have hsmall : ¬ (tr.observe t s).Off := hoff
    rw [if_neg hoff, length_cons_of_not hsmall]
    exact ⟨rfl, fun hne => absurd rfl hne⟩

theorem Exact.candidateCount (h : Exact g tr)
    (hchanged : 1 / 50 < |tr.speed t s - t.anchor.rate.asF64|) :
    tr.candidateCount (tr.speed t s) =
      length ChangedSpeed SameSpeed (tr.observe t s :: g.estimates) := by
  have hkind : (tr.observe t s).ChangedSpeed := hchanged
  have hcandidate := h.candidate
  unfold Tracker.candidateCount
  by_cases hzero : length ChangedSpeed SameSpeed g.estimates = 0
  · rw [if_pos hzero] at hcandidate
    rw [hcandidate, length_cons_of_alone hkind (Or.inl hzero)]
    rfl
  · rw [if_neg hzero] at hcandidate
    cases hlist : g.estimates with
    | nil => exact absurd (by rw [hlist]; rfl) hzero
    | cons o rest =>
        rw [hlist] at hcandidate
        rw [hcandidate, List.head?_cons, Option.map_some]
        by_cases hclose : |o.speed - tr.speed t s| < 1 / 20
        · have hagrees : ∀ b ∈ (o :: rest).head?, SameSpeed (tr.observe t s) b := by
            intro b hb
            obtain rfl := Option.some.inj hb
            exact hclose
          rw [length_cons_of_agrees hkind hagrees]
          simp only [Option.filter, hclose, decide_true, if_true, Option.map_some, Option.getD_some]
        · rw [length_cons_of_alone hkind (Or.inr ⟨o, rfl, hclose⟩)]
          simp only [Option.filter, hclose, decide_false, Bool.false_eq_true, if_false,
            Option.map_none, Option.getD_none]

/-- The tracker's decision is the one that the list calls for. -/
theorem Exact.introduces_iff (h : Exact g tr) (hhint : s.rateHint = none) :
    tr.Introduces t s ↔ Confirmed g (tr, t) s := by
  have hjumps : 3 ≤ (tr.countJumps (error t s)).jumps ↔
      Jumping 3 (g.add (tr.sight t s)).observations := by
    rw [(h.countJumps t s).1]
    exact confirmed_iff_le_length.symm
  have hspeed : 1 / 50 < |tr.speed t s - t.anchor.rate.asF64| ∧
      3 ≤ tr.candidateCount (tr.speed t s) ↔
        (tr.sight t s).estimated = true ∧ Speeding 3 (g.add (tr.sight t s)).estimates := by
    by_cases hestimated : (tr.sight t s).estimated = true
    · rw [Sightings.estimates_add_of_estimated g hestimated]
      constructor
      · rintro ⟨hchanged, hcount⟩
        rw [h.candidateCount hchanged] at hcount
        exact ⟨hestimated, confirmed_iff_le_length.mpr hcount⟩
      · rintro ⟨-, hconfirmed⟩
        have hcount := confirmed_iff_le_length.mp hconfirmed
        have hchanged : (tr.observe t s).ChangedSpeed := by
          by_contra hsame
          rw [show (tr.sight t s).observation = tr.observe t s from rfl,
            length_cons_of_not hsame] at hcount
          omega
        exact ⟨hchanged, by rwa [h.candidateCount hchanged]⟩
    · have hnone : tr.inferred t s = none := Option.not_isSome_iff_eq_none.mp hestimated
      have hsame := not_changed_of_not_estimated hhint hnone
      exact ⟨fun hchanged => absurd hchanged.1 hsame, fun hconfirmed =>
        absurd hconfirmed.1 hestimated⟩
  unfold Introduces Confirmed
  rw [h.sampled, hjumps, hspeed]

/-- The evidence after a sample that refines the position. -/
theorem Exact.refine (h : Exact g tr) (hhint : s.rateHint = none) (hlast : tr.last ≠ none)
    (hkeeps : tr.Close s → tr.candidate = none) :
    Exact (g.add (tr.sight t s))
      { tr.countJumps (error t s) with
        candidate :=
          if 1 / 50 < |tr.speed t s - t.anchor.rate.asF64| then
            some (tr.speed t s, tr.candidateCount (tr.speed t s))
          else none
        last := some s } := by
  obtain ⟨hjumps, hdirection⟩ := h.countJumps t s
  refine ⟨by simp [Sightings.add], hjumps, ?_, ?_⟩
  · intro hne o ho
    obtain rfl := Option.some.inj ho
    exact hdirection hne
  · change (if _ then _ else _) = _
    by_cases hestimated : (tr.sight t s).estimated = true
    · rw [Sightings.estimates_add_of_estimated g hestimated]
      by_cases hchanged : 1 / 50 < |tr.speed t s - t.anchor.rate.asF64|
      · have hcount := h.candidateCount hchanged
        have hpositive : length ChangedSpeed SameSpeed
            ((tr.sight t s).observation :: g.estimates) ≠ 0 := by
          have hkind : (tr.sight t s).observation.ChangedSpeed := hchanged
          rw [length, if_pos hkind]
          split_ifs <;> simp
        rw [if_pos hchanged, if_neg hpositive, hcount]
        rfl
      · have hkind : ¬ (tr.sight t s).observation.ChangedSpeed := hchanged
        rw [if_neg hchanged, length_cons_of_not hkind, if_pos rfl]
    · have hnone : tr.inferred t s = none := Option.not_isSome_iff_eq_none.mp hestimated
      have hclose := ((inferred_eq_none_iff tr t s).mp hnone).resolve_left hlast
      have hforgot := h.candidate.symm.trans (hkeeps hclose)
      rw [Sightings.estimates_add_of_not_estimated g (Bool.not_eq_true _ ▸ hestimated),
        if_neg (not_changed_of_not_estimated hhint hnone)]
      exact hforgot.symm

variable {st : Tracker × Timeline} {a : SourceSample × Nat}

/-- Where no evidence is lost, one sample keeps the counters exact. -/
theorem Exact.feed (h : Exact g st.1) (hhint : a.1.rateHint = none) (hkeeps : KeepsEvidence st a) :
    Exact (note g st a) (feed st a).1.1 ∧ ConfirmedExactly g st a := by
  have hunhinted := unhinted_of_no_hint st.2 hhint
  by_cases haccepts : st.1.Accepts st.2 a.1 a.2
  · by_cases hintroduces : st.1.Introduces st.2 a.1
    · obtain ⟨rate, hsample⟩ := sample_of_introduces haccepts hunhinted hintroduces
      have hfeed : Tracker.feed st a = _ := hsample
      unfold note
      rw [hfeed]
      refine ⟨exact_cleared a.1, absurd haccepts, fun _ => ?_, fun _ _ hfalse => ?_⟩
      · rw [hfeed, decide_eq_true ((h.introduces_iff hhint).mp hintroduces)]
      · rw [hfeed] at hfalse
        simp at hfalse
    · have hsample := sample_of_not_introduces haccepts hunhinted hintroduces
      have hfeed : Tracker.feed st a = _ := hsample
      have hlost : st.1.Close a.1 → st.1.candidate = none := fun hclose =>
        (hkeeps haccepts hclose).resolve_right fun hother => hintroduces
          (hother.imp_right fun hjumps => Or.inr (Or.inl hjumps))
      have hlast : st.1.last ≠ none := fun hfirst => hintroduces (Or.inr (Or.inl hfirst))
      unfold note
      rw [hfeed]
      refine ⟨h.refine hhint hlast hlost, absurd haccepts, fun _ => ?_, fun _ hclose _ => ?_⟩
      · rw [hfeed, decide_eq_false ((h.introduces_iff hhint).not.mp hintroduces)]
      · have hnone := (inferred_eq_none_iff st.1 st.2 a.1).mpr (Or.inr hclose)
        rw [hfeed, hlost hclose]
        exact if_neg (not_changed_of_not_estimated hhint hnone)
  · obtain ⟨e, hsample⟩ := sample_of_not_accepts haccepts
    have hfeed : Tracker.feed st a = (st, .error e) := hsample
    unfold note
    rw [hfeed]
    exact ⟨h, fun _ => ⟨e, hfeed⟩, fun h => absurd h haccepts, fun h => absurd h haccepts⟩

/-- A close sample that leaves the evidence as it was had none to forget, or introduced a
discontinuity. -/
theorem ConfirmedExactly.keepsEvidence (h : ConfirmedExactly g st a)
    (hhint : a.1.rateHint = none) : KeepsEvidence st a := by
  intro haccepts hclose
  by_contra hlost
  simp only [not_or, Bool.not_eq_true, not_le] at hlost
  obtain ⟨hcandidate, hflag, hjumps⟩ := hlost
  have hunhinted := unhinted_of_no_hint st.2 hhint
  have hnone := (inferred_eq_none_iff st.1 st.2 a.1).mpr (Or.inr hclose)
  have hsame := not_changed_of_not_estimated hhint hnone
  have hroutine : ¬ st.1.Introduces st.2 a.1 := by
    rintro (hflagged | hfirst | hjumped | hchanged)
    · rw [hflag] at hflagged
      cases hflagged
    · obtain ⟨p, hp, -⟩ := hclose
      rw [hfirst] at hp
      cases hp
    · exact absurd hjumped (not_le.mpr hjumps)
    · exact hsame hchanged.1
  have hfeed : Tracker.feed st a = _ := sample_of_not_introduces haccepts hunhinted hroutine
  have hkept := h.kept haccepts hclose (congrArg Prod.snd hfeed)
  rw [hfeed] at hkept
  apply hcandidate
  rw [← hkept]
  exact if_neg hsame

/-- In a run of samples without rate hints, a tracker confirms discontinuities exactly if
and only if no close sample makes it forget a changed speed. -/
theorem confirmed_exactly_iff (t : Timeline) {arrivals : List (SourceSample × Nat)}
    (hhints : ∀ a ∈ arrivals, a.1.rateHint = none) :
    (∀ before a, before ++ [a] <+: arrivals →
      ConfirmedExactly (sightings t before) (Machine.run feed (default, t) before) a) ↔
    Machine.Along feed KeepsEvidence (default, t) arrivals := by
  have hhint {before : List (SourceSample × Nat)} {a : SourceSample × Nat}
      (hinit : before ++ [a] <+: arrivals) : a.1.rateHint = none :=
    hhints a (hinit.subset (List.mem_append_right before List.mem_cons_self))
  constructor
  · intro hexactly
    apply (Machine.along_iff_initial feed _ _ _).mpr
    intro before a hinit
    exact (hexactly before a hinit).keepsEvidence (hhint hinit)
  · intro hkeeps before a hinit
    have hunhinted : Machine.Along feed (fun _ a => a.1.rateHint = none) (default, t) arrivals :=
      (Machine.along_iff_initial feed _ _ _).mpr (fun _ _ hinit => hhint hinit)
    have hbefore : before <+: arrivals := (List.prefix_append before [a]).trans hinit
    have hstep (g : Sightings) (st : Tracker × Timeline) (a : SourceSample × Nat)
        (h : Exact g st.1) (hguard : a.1.rateHint = none ∧ KeepsEvidence st a) :
        Exact (note g st a) (feed st a).1.1 := (h.feed hguard.1 hguard.2).1
    have hexact : Exact (sightings t before) (Machine.run feed (default, t) before).1 :=
      Machine.recorded_invariant
        (P := fun (g : Sightings) (st : Tracker × Timeline) => Exact g st.1) hstep exact_default
        ((hunhinted.and hkeeps).of_initial hbefore)
    exact (hexact.feed (hhint hinit)
      ((Machine.along_iff_initial feed _ _ _).mp hkeeps before a hinit)).2

/-- A timeline at normal speed. -/
def normalTimeline : Timeline :=
  { Timeline.default with
    sourceKind := .tracked
    anchor := ⟨0, Position.zero, Rate.normal⟩ }

/-- A source at twice that speed, seen as soon as it is there. -/
def doubled (time : Nat) : SourceSample × Nat :=
  (⟨time, Position.fromFixed (time * 60 * q32 / 1000000000), none, false⟩, time)

/-- The third estimate after the first sample is a discontinuity. -/
theorem confirmed_exactly_of_doubled :
    (feed (Machine.run feed (default, normalTimeline)
      [doubled 10000000, doubled 20000000, doubled 30000000]) (doubled 40000000)).2 = .ok true := by
  have hhints : ∀ a ∈ [doubled 10000000, doubled 20000000, doubled 30000000, doubled 40000000],
      a.1.rateHint = none := by decide
  have hexactly := (confirmed_exactly_iff normalTimeline hhints).mpr (by decide +kernel)
  have hlast := (hexactly [doubled 10000000, doubled 20000000, doubled 30000000]
    (doubled 40000000) List.prefix_rfl).confirmed (by decide +kernel)
  rw [hlast]
  decide +kernel

/-- A sample half a millisecond after the second estimate makes the tracker forget both,
so that the third is not a discontinuity. -/
theorem close_sample_erases_evidence :
    ¬ ∀ (t : Timeline) (arrivals before : List (SourceSample × Nat)) (a : SourceSample × Nat),
      (∀ b ∈ arrivals, b.1.rateHint = none) → before ++ [a] <+: arrivals →
        (Machine.run feed (default, t) before).1.Accepts
          (Machine.run feed (default, t) before).2 a.1 a.2 →
        ((feed (Machine.run feed (default, t) before) a).2 = .ok true ↔
          Confirmed (sightings t before) (Machine.run feed (default, t) before) a.1) := by
  intro hclaim
  have hconfirmed := hclaim normalTimeline
    [doubled 10000000, doubled 20000000, doubled 30000000, doubled 30500000, doubled 40500000]
    [doubled 10000000, doubled 20000000, doubled 30000000, doubled 30500000] (doubled 40500000)
    (by decide) List.prefix_rfl (by decide +kernel)
  revert hconfirmed
  decide +kernel

end Tracker

end Tidkod
