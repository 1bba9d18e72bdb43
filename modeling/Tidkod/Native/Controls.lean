import Mathlib.Tactic
import Tidkod.Native.LeaderSteps
import Tidkod.Protocol.Follower
import Tidkod.Protocol.Motion

/-!
What a control does to the trajectory (`change_timeline` of `network.rs`). A control has
one time, now or later or already past. Before that time nothing changes, from it on the
trajectory is the one the control asks for, and a control that is refused leaves no trace.
-/

namespace Tidkod

open Rounding TimedQueue

theorem Anchor.at_self (a : Anchor) (format : FrameFormat) :
    a.at a.timeNs format = a.position := by
  have helapsed : a.elapsed a.timeNs = 0 := by
    rw [Anchor.elapsed, sub_self]
    decide
  apply Position.ext_fixed
  rw [a.fixed_at, helapsed, Int.cast_zero, zero_mul, trunc_zero, add_zero]
  exact clamp_of_mem a.position.fixed_mem.1 a.position.fixed_mem.2

namespace Timeline

/-- A control at `time` is refused: its time is out of range, or it is for later and the
schedule has no place for it. -/
def Refuses (t : Timeline) (now time : Nat) : Prop :=
  i64Max < time ∨ now < time ∧
    (t.scheduled.length = 4 ∨ ∃ s ∈ t.scheduled.getLast?, time ≤ s.timeNs)

/-- The trajectory a control asks for. -/
def controlAnchor (t : Timeline) (change : Change) (time : Nat) : Anchor :=
  ⟨time, (target change (t.at time).1 (t.at time).2.1).1,
    (target change (t.at time).1 (t.at time).2.1).2⟩

variable {t u : Timeline} {change : Change} {effective : Option Nat} {now : Nat}

theorem changeTimeline_error_iff (t : Timeline) (change : Change) (effective : Option Nat)
    (now : Nat) : (∃ e, changeTimeline t change effective now = .error e) ↔
      t.Refuses now (effective.getD now) := by
  have hlast : t.scheduled.getLast?.any (fun s => effective.getD now ≤ s.anchor.timeNs) = true ↔
      ∃ s ∈ t.scheduled.getLast?, effective.getD now ≤ s.timeNs := by
    simp [Option.any_eq_true, Scheduled.timeNs]
  unfold Refuses
  rw [← hlast]
  unfold changeTimeline
  dsimp only
  split_ifs with htime hfull hlater
  · simp [htime]
  · simp [hfull]
  · simp [htime, hfull]
  · simp [htime, hlater]

/-- An accepted control appends its trajectory to the schedule, or replaces the active
one and the schedule. -/
theorem changeTimeline_eq_ok (h : changeTimeline t change effective now = .ok u) :
    ¬ t.Refuses now (effective.getD now) ∧
      (now < effective.getD now → u =
        { t with
          scheduled := t.scheduled ++
            [⟨t.nextDiscontinuity (effective.getD now),
              t.controlAnchor change (effective.getD now)⟩] }) ∧
      (effective.getD now ≤ now → u =
        { t with
          anchor := t.controlAnchor change (effective.getD now)
          discontinuity := t.nextDiscontinuity (effective.getD now)
          scheduled := [] }) := by
  have haccepted : ¬ t.Refuses now (effective.getD now) := by
    rw [← changeTimeline_error_iff t change effective now, h]
    simp
  refine ⟨haccepted, ?_⟩
  unfold changeTimeline at h
  dsimp only at h
  split_ifs at h with htime hfull hlater
  · refine ⟨fun _ => (Except.ok.inj h).symm, fun hpast => absurd hlater (not_lt.mpr hpast)⟩
  · exact ⟨fun hfuture => absurd hfuture hlater, fun _ => (Except.ok.inj h).symm⟩

/-- An entry in effect at a time later than all others is read from that time on. -/
theorem at_append (t : Timeline) (s : Scheduled) (x : Nat) :
    ({ t with scheduled := t.scheduled ++ [s] } : Timeline).at x =
      if s.timeNs ≤ x then (s.anchor.at x t.format, s.anchor.rate, s.discontinuity)
      else t.at x := by
  rw [at_eq_current, at_eq_current]
  simp only [current, active, current_append_singleton]
  split_ifs <;> rfl

/-- Ids above all that are active or reserved are fresh. -/
theorem Valid.lt_nextDiscontinuity (h : t.Valid) (time : Nat) :
    ∀ s ∈ t.active :: t.scheduled, s.discontinuity < t.nextDiscontinuity time := by
  have hfresh := h.ordered.queued.lt_succ_newestId
  rw [← h.ordered.queued.nextDiscontinuity_eq time] at hfresh
  exact hfresh

theorem Valid.append (h : t.Valid) {s : Scheduled} (htime : s.timeNs ≤ i64Max)
    (hroom : t.scheduled.length ≠ 4) (hanchor : t.anchor.timeNs < s.timeNs)
    (hlast : ∀ e ∈ t.scheduled.getLast?, e.timeNs < s.timeNs)
    (hfresh : ∀ e ∈ t.active :: t.scheduled, e.discontinuity < s.discontinuity) :
    Valid { t with scheduled := t.scheduled ++ [s] } where
  revision_pos := h.revision_pos
  time_le := by
    intro e he
    rcases List.mem_cons.mp he with rfl | hmem
    · exact h.time_le _ List.mem_cons_self
    · rcases List.mem_append.mp hmem with hold | hnew
      · exact h.time_le e (List.mem_cons_of_mem _ hold)
      · rw [List.mem_singleton.mp hnew]
        exact htime
  capacity := by
    have hcapacity := h.capacity
    simp only [List.length_append, List.length_singleton]
    omega
  ordered := by
    have hqueued := h.ordered.queued.append (Nat.zero_lt_of_lt hanchor) hlast hfresh
    apply hqueued.ordered
    intro e he
    rcases List.mem_append.mp he with hold | hnew
    · exact (h.ordered.head_lt hold).1
    · rw [List.mem_singleton.mp hnew]
      exact hanchor

/-- A control that asks for a trajectory from its time on. -/
def Meets (change : Change) (before after : Position × Rate × Nat) : Prop :=
  match change with
  | .rate r => after.1 = before.1 ∧ after.2.1 = r
  | .seek p => after.1 = p ∧ after.2.1 = before.2.1
  | .set p r => after.1 = p ∧ after.2.1 = r

theorem controlAnchor_meets (t : Timeline) (change : Change) (time : Nat) (id : Nat) :
    Meets change (t.at time)
      ((t.controlAnchor change time).at time t.format, (t.controlAnchor change time).rate, id) := by
  have hself := (t.controlAnchor change time).at_self t.format
  change (t.controlAnchor change time).at time t.format = _ at hself
  rw [hself]
  cases change <;> exact ⟨rfl, rfl⟩

/-- `change_timeline` on a leader's timeline. -/
theorem changeTimeline_spec (h : t.Valid) (hanchor : t.anchor.timeNs ≤ now) (change : Change)
    (effective : Option Nat) :
    ((∃ e, changeTimeline t change effective now = .error e) ↔
      i64Max < effective.getD now ∨ now < effective.getD now ∧
        (t.scheduled.length = 4 ∨ ∃ s ∈ t.scheduled.getLast?, effective.getD now ≤ s.timeNs)) ∧
    (∀ e, changeTimeline t change effective now = .error e → ∀ s : LeaderPass,
      s.job.timeline = t →
        s.command (now, .change change effective) = (s, .error e)) ∧
    ∀ u, changeTimeline t change effective now = .ok u →
      u.Valid ∧
      ∃ (anchor : Anchor) (id : Nat), anchor.timeNs = effective.getD now ∧
        (∀ s ∈ t.active :: t.scheduled, s.discontinuity < id) ∧
        (∀ x, effective.getD now ≤ x → u.at x = (anchor.at x t.format, anchor.rate, id)) ∧
        Meets change (t.at (effective.getD now)) (u.at (effective.getD now)) ∧
        (now < effective.getD now →
          u = { t with scheduled := t.scheduled ++ [⟨id, anchor⟩] } ∧
            ∀ x < effective.getD now, u.at x = t.at x) ∧
        (effective.getD now ≤ now →
          u = { t with anchor := anchor, discontinuity := id, scheduled := [] }) := by
  refine ⟨changeTimeline_error_iff t change effective now, fun e he s hs => ?_, fun u hu => ?_⟩
  · simp only [LeaderPass.command, hs, he]
  · obtain ⟨haccepted, hscheduled, hreplaced⟩ := changeTimeline_eq_ok hu
    generalize htime : effective.getD now = time at *
    simp only [Refuses, not_or, not_and, not_exists] at haccepted
    obtain ⟨hrange, hopen⟩ := haccepted
    have hfresh := h.lt_nextDiscontinuity time
    have hmeets := t.controlAnchor_meets change time (t.nextDiscontinuity time)
    rcases Nat.lt_or_ge now time with hfuture | hpast
    · obtain rfl := hscheduled hfuture
      obtain ⟨hroom, hlast⟩ := hopen hfuture
      have hread (x : Nat) := t.at_append
        ⟨t.nextDiscontinuity time, t.controlAnchor change time⟩ x
      refine ⟨?_, _, _, rfl, hfresh, fun x hx => (hread x).trans (if_pos hx), ?_, fun _ => ?_,
        fun hpast => absurd hfuture (not_lt.mpr hpast)⟩
      · exact h.append (not_lt.mp hrange) hroom (hanchor.trans_lt hfuture)
          (fun s hs => not_le.mp (hlast s hs)) hfresh
      · have hself := (hread time).trans (if_pos (le_refl time))
        rw [hself]
        exact hmeets
      · exact ⟨rfl, fun x hx => (hread x).trans (if_neg (not_le.mpr hx))⟩
    · obtain rfl := hreplaced hpast
      refine ⟨?_, _, _, rfl, hfresh, fun x _ => rfl, hmeets,
        fun hfuture => absurd hfuture (not_lt.mpr hpast), fun _ => rfl⟩
      refine ⟨h.revision_pos, fun s hs => ?_, Nat.zero_le 4, List.pairwise_singleton _ _⟩
      rw [List.mem_singleton.mp hs]
      exact not_lt.mp hrange

/-- The sample leader is paused 50 ms after its scheduled jump, by a control sent before
the jump: the position the pause keeps is the one the jump leads to. -/
theorem changeTimeline_spec_of_sample :
    ∃ u, changeTimeline sampleTimeline (.rate Rate.paused) (some 1150000000) 1050000000 = .ok u ∧
      u.Valid ∧ (u.at 1150000000).1 = (sampleTimeline.at 1150000000).1 ∧
      ∀ x < 1150000000, u.at x = sampleTimeline.at x := by
  have hvalid : sampleTimeline.Valid := by decide
  obtain ⟨hrefused, -, haccepted⟩ :=
    changeTimeline_spec hvalid (by decide : sampleTimeline.anchor.timeNs ≤ 1050000000)
      (.rate Rate.paused) (some 1150000000)
  cases hresult :
      changeTimeline sampleTimeline (.rate Rate.paused) (some 1150000000) 1050000000 with
  | error e =>
      have hrefuses := hrefused.mp ⟨e, hresult⟩
      exact absurd hrefuses (by decide)
  | ok u =>
      obtain ⟨hu, anchor, id, -, -, -, hmeets, hfuture, -⟩ := haccepted u hresult
      exact ⟨u, rfl, hu, hmeets.1, (hfuture (by decide)).2⟩

end Timeline

end Tidkod
