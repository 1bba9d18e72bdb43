import Mathlib.Tactic
import Tidkod.Protocol.Timeline

/-!
What a validated snapshot guarantees about its timeline, and how reading,
latching and promotion act on a timeline whose schedule is ordered. Each
statement is the corresponding law of `TimedQueue` at the entries of a
schedule.
-/

namespace Tidkod

open TimedQueue

namespace Timeline

/-- Effective times and discontinuity ids increase strictly from the active
trajectory on. -/
def Ordered (t : Timeline) : Prop :=
  TimedQueue.Ordered Scheduled.timeNs Scheduled.discontinuity t.active t.scheduled

/-- The live fields of a timeline that passed snapshot validation. -/
structure Valid (t : Timeline) : Prop where
  revision_pos : 0 < t.revision
  time_le : ∀ s ∈ t.active :: t.scheduled, s.timeNs ≤ i64Max
  capacity : t.scheduled.length ≤ 4
  ordered : t.Ordered

instance (t : Timeline) : Decidable t.Ordered :=
  inferInstanceAs (Decidable (List.Pairwise _ _))

theorem valid_iff (t : Timeline) : t.Valid ↔
    0 < t.revision ∧ (∀ s ∈ t.active :: t.scheduled, s.timeNs ≤ i64Max) ∧
      t.scheduled.length ≤ 4 ∧ t.Ordered :=
  ⟨fun h => ⟨h.1, h.2, h.3, h.4⟩, fun ⟨a, b, c, d⟩ => ⟨a, b, c, d⟩⟩

instance (t : Timeline) : Decidable t.Valid := decidable_of_iff _ t.valid_iff.symm

/-- The entry in effect at a leader time. -/
def current (t : Timeline) (time : Nat) : Scheduled :=
  TimedQueue.current Scheduled.timeNs time t.active t.scheduled

/-- The discontinuity in effect at a leader time. -/
def discontinuityAt (t : Timeline) (time : Nat) : Nat := (t.at time).2.2

/-- The loop of `at` finds the entry in effect. -/
theorem foldl_eq_current (time : Nat) (queue : List Scheduled) (entry : Scheduled) :
    queue.foldl (fun (x : Anchor × Nat) s =>
      if s.anchor.timeNs ≤ time then (s.anchor, s.discontinuity) else x)
      (entry.anchor, entry.discontinuity) =
    ((TimedQueue.current Scheduled.timeNs time entry queue).anchor,
      (TimedQueue.current Scheduled.timeNs time entry queue).discontinuity) := by
  induction queue generalizing entry with
  | nil => rfl
  | cons next rest ih =>
      by_cases hdue : next.timeNs ≤ time
      · rw [current_cons_of_due entry rest hdue, ← ih next]
        simp only [List.foldl_cons]
        rw [if_pos (show next.anchor.timeNs ≤ time from hdue)]
      · have hskip : TimedQueue.current Scheduled.timeNs time entry (next :: rest) =
            TimedQueue.current Scheduled.timeNs time entry rest := by
          simp [TimedQueue.current, hdue]
        rw [hskip, ← ih entry]
        simp only [List.foldl_cons]
        rw [if_neg (show ¬ next.anchor.timeNs ≤ time from hdue)]

theorem at_eq_current (t : Timeline) (time : Nat) :
    t.at time = ((t.current time).anchor.at time t.format, (t.current time).anchor.rate,
      (t.current time).discontinuity) := by
  have hloop := foldl_eq_current time t.scheduled t.active
  simp only [active] at hloop
  simp only [«at», hloop, current, active]

theorem discontinuityAt_eq (t : Timeline) (time : Nat) :
    t.discontinuityAt time = (t.current time).discontinuity := by
  rw [discontinuityAt, at_eq_current]

/-- Timelines with one format and the same entry in effect read the same. -/
theorem at_congr {t u : Timeline} {time : Nat} (hformat : t.format = u.format)
    (hcurrent : t.current time = u.current time) : t.at time = u.at time := by
  rw [at_eq_current, at_eq_current, hformat, hcurrent]

@[simp] theorem active_discontinuity (t : Timeline) : t.active.discontinuity = t.discontinuity :=
  rfl

section ActivateWhile

variable (p : Scheduled → Bool) (t : Timeline)

@[simp] theorem activateWhile_active :
    (t.activateWhile p).active = (popWhile p t.active t.scheduled).1 := rfl

@[simp] theorem activateWhile_scheduled :
    (t.activateWhile p).scheduled = (popWhile p t.active t.scheduled).2 := rfl

@[simp] theorem activateWhile_session : (t.activateWhile p).session = t.session := rfl

@[simp] theorem activateWhile_sessionId : (t.activateWhile p).sessionId = t.sessionId := rfl

@[simp] theorem activateWhile_revision : (t.activateWhile p).revision = t.revision := rfl

@[simp] theorem activateWhile_format : (t.activateWhile p).format = t.format := rfl

@[simp] theorem activateWhile_sourceKind : (t.activateWhile p).sourceKind = t.sourceKind := rfl

@[simp] theorem activateWhile_sourceHealth :
    (t.activateWhile p).sourceHealth = t.sourceHealth := rfl

/-- With no matching entry nothing moves. -/
theorem activateWhile_none {p : Scheduled → Bool} {t : Timeline}
    (h : ∀ s ∈ t.scheduled, p s = false) : t.activateWhile p = t := by
  rw [activateWhile, popWhile_none t.active h]
  rfl

/-- A queue whose front entry does not match stays as it is. -/
theorem activateWhile_of_head {p : Scheduled → Bool} {t : Timeline}
    (h : t.scheduled.head?.any p = false) : t.activateWhile p = t := by
  obtain ⟨session, id, revision, disc, format, anchor, kind, health, scheduled⟩ := t
  cases scheduled with
  | nil => rfl
  | cons next rest =>
      have hnext : p next = false := by simpa using h
      simp only [activateWhile, active, TimedQueue.popWhile_cons_of_neg _ rest hnext]

theorem Ordered.activateWhile {t : Timeline} (h : t.Ordered) : (t.activateWhile p).Ordered :=
  TimedQueue.Ordered.popWhile p h

end ActivateWhile

/-- Latching below every retained id changes nothing. -/
theorem latch_of_lt {t : Timeline} {d : Nat} (h : ∀ s ∈ t.scheduled, d < s.discontinuity) :
    t.latch d = t :=
  activateWhile_none (fun s hmem => by simpa using h s hmem)

theorem Ordered.le_discontinuityAt {t : Timeline} (h : t.Ordered) (time : Nat) :
    t.discontinuity ≤ t.discontinuityAt time := by
  rw [discontinuityAt_eq]
  exact TimedQueue.Ordered.le_current time h

/-- The discontinuity in effect never decreases with leader time. -/
theorem Ordered.discontinuityAt_mono {t : Timeline} (h : t.Ordered) {m n : Nat} (hmn : m ≤ n) :
    t.discontinuityAt m ≤ t.discontinuityAt n := by
  rw [discontinuityAt_eq, discontinuityAt_eq]
  exact TimedQueue.Ordered.current_mono hmn h

/-- While nothing retained is due, the active trajectory is in effect. -/
theorem current_of_pending {t : Timeline} {time : Nat}
    (h : ∀ s ∈ t.scheduled, time < s.timeNs) : t.current time = t.active := by
  rcases current_due time t.active t.scheduled with heq | ⟨hmem, hdue⟩
  · exact heq
  · exact absurd hdue (h _ hmem).not_ge

theorem discontinuityAt_of_pending {t : Timeline} {time : Nat}
    (h : ∀ s ∈ t.scheduled, time < s.timeNs) : t.discontinuityAt time = t.discontinuity := by
  rw [discontinuityAt_eq, current_of_pending h, active_discontinuity]

/-- Latching up to the id in effect at `n` is invisible to readers from `n` on. -/
theorem Ordered.at_latch {t : Timeline} (h : t.Ordered) {n time d : Nat} (hn : n ≤ time)
    (hd : d ≤ t.discontinuityAt n) : (t.latch d).at time = t.at time := by
  rw [discontinuityAt_eq] at hd
  exact at_congr rfl (TimedQueue.Ordered.current_popWhile_key hn h hd)

theorem Ordered.discontinuityAt_latch {t : Timeline} (h : t.Ordered) {n time d : Nat}
    (hn : n ≤ time) (hd : d ≤ t.discontinuityAt n) :
    (t.latch d).discontinuityAt time = t.discontinuityAt time := by
  rw [discontinuityAt, h.at_latch hn hd, discontinuityAt]

end Timeline

end Tidkod
