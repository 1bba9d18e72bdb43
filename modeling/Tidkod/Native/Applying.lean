import Mathlib.Tactic
import Tidkod.Native.Network
import Tidkod.Protocol.Follower

/-!
The three ways of applying a schedule. A reader selects an entry by effective
time and leaves the schedule alone, a follower activates entries up to a
discontinuity id, and the leader activates entries by time. On an ordered
schedule they are the same, however often and in whatever order the last two
are used.
-/

namespace Tidkod

open TimedQueue

namespace Timeline

/-- The promotion loop of the leader on its timeline. -/
def promote (t : Timeline) (now : Nat) : Timeline :=
  t.activateWhile (fun s => s.timeNs ≤ now)

/-- A promotion, or a latch up to the id that a reader finds in effect. -/
inductive Application where
  | promotion (now : Nat)
  | latching (now : Nat)

def Application.timeNs : Application → Nat
  | .promotion now => now
  | .latching now => now

def apply (t : Timeline) : Application → Timeline
  | .promotion now => t.promote now
  | .latching now => t.latch (t.at now).2.2

def applyAll (t : Timeline) (applications : List Application) : Timeline :=
  applications.foldl apply t

theorem Valid.activateWhile {t : Timeline} (h : t.Valid) (p : Scheduled → Bool) :
    (t.activateWhile p).Valid where
  revision_pos := h.revision_pos
  time_le := by
    intro s hs
    exact h.time_le s ((popWhile_suffix p t.active t.scheduled).subset hs)
  capacity := by
    have hsuffix := (popWhile_suffix p t.active t.scheduled).length_le
    simp only [List.length_cons] at hsuffix
    have hcapacity := h.capacity
    rw [activateWhile_scheduled]
    omega
  ordered := h.ordered.activateWhile p

/-- A latch up to the id in effect is a promotion. -/
theorem Ordered.latch_eq_promote {t : Timeline} (h : t.Ordered) (n : Nat) :
    t.latch (t.at n).2.2 = t.promote n := by
  have hpop := TimedQueue.Ordered.popWhile_key_eq_due (n := n) h
  have hid : (t.at n).2.2 = (t.current n).discontinuity := t.discontinuityAt_eq n
  rw [latch, promote, hid, Timeline.activateWhile, Timeline.activateWhile, current, hpop]

theorem Ordered.at_promote {t : Timeline} (h : t.Ordered) {n time : Nat} (hn : n ≤ time) :
    (t.promote n).at time = t.at time :=
  at_congr rfl (TimedQueue.Ordered.current_popWhile_due hn h)

/-- One application keeps the order, the validity and every later reading. -/
theorem Ordered.apply {t : Timeline} (h : t.Ordered) (a : Application) :
    (t.apply a).Ordered ∧ (t.Valid → (t.apply a).Valid) ∧
      ∀ time, a.timeNs ≤ time → (t.apply a).at time = t.at time := by
  cases a with
  | promotion n =>
      exact
        ⟨h.activateWhile _, fun hvalid => hvalid.activateWhile _, fun time hn => h.at_promote hn⟩
  | latching n =>
      refine ⟨h.activateWhile _, fun hvalid => hvalid.activateWhile _, fun time hn => ?_⟩
      exact h.at_latch hn le_rfl

theorem Ordered.applyAll {t : Timeline} (h : t.Ordered) (applications : List Application) :
    (t.applyAll applications).Ordered ∧ (t.Valid → (t.applyAll applications).Valid) ∧
      ∀ time, (∀ a ∈ applications, a.timeNs ≤ time) →
        (t.applyAll applications).at time = t.at time := by
  induction applications generalizing t with
  | nil => exact ⟨h, id, fun _ _ => rfl⟩
  | cons a rest ih =>
      obtain ⟨hordered, hvalid, hreading⟩ := h.apply a
      obtain ⟨hordered', hvalid', hreading'⟩ := ih hordered
      refine ⟨hordered', fun ht => hvalid' (hvalid ht), ?_⟩
      intro time htimes
      have hrest := hreading' time (fun b hb => htimes b (List.mem_cons_of_mem a hb))
      exact hrest.trans (hreading time (htimes a List.mem_cons_self))

end Timeline

theorem LeaderPass.promote_timeline (s : LeaderPass) (now : Nat) :
    (s.promote now).job.timeline = s.job.timeline.promote now := rfl

/-- The array in which the source keeps a schedule: four slots, the live ones in
front. -/
structure Slots where
  slots : List Scheduled
  live : Nat
  length_eq : slots.length = 4
  live_le : live ≤ 4

/-- The slots hold the schedule of a timeline. -/
def Slots.Hold (a : Slots) (t : Timeline) : Prop := a.slots.take a.live = t.scheduled

/-- Reader, latch and promotion agree on an ordered schedule: applying it by the
leader's loop or by the follower's latch at a time `n` is invisible from `n` on,
gives one and the same timeline, and keeps it valid; so does any sequence of
such applications. Either loop, run over the array with rotation, leaves the same
active and live entries, and the id in effect never decreases. -/
theorem schedule_applications_agree {t : Timeline} (h : t.Ordered) {n time : Nat}
    (hn : n ≤ time) :
    (∀ s : LeaderPass, s.job.timeline = t →
      (s.promote n).job.timeline.at time = t.at time ∧
        (s.promote n).job.timeline = t.latch (t.at n).2.2) ∧
    (t.latch (t.at n).2.2).at time = t.at time ∧
    (∀ applications : List Timeline.Application, (∀ a ∈ applications, a.timeNs ≤ time) →
      (t.applyAll applications).at time = t.at time ∧ (t.applyAll applications).Ordered ∧
        (t.Valid → (t.applyAll applications).Valid)) ∧
    (∀ (a : Slots) (p : Scheduled → Bool), a.Hold t →
      (popRotating p a.live t.active a.slots).1 = (t.activateWhile p).active ∧
        (popRotating p a.live t.active a.slots).2.1.take
          (popRotating p a.live t.active a.slots).2.2 = (t.activateWhile p).scheduled) ∧
    (t.at n).2.2 ≤ (t.at time).2.2 := by
  refine ⟨?_, h.at_latch hn le_rfl, ?_, ?_, h.discontinuityAt_mono hn⟩
  · rintro s rfl
    rw [s.promote_timeline]
    exact ⟨h.at_promote hn, (h.latch_eq_promote n).symm⟩
  · intro applications htimes
    obtain ⟨hordered, hvalid, hreading⟩ := h.applyAll applications
    exact ⟨hreading time htimes, hordered, hvalid⟩
  · intro a p hhold
    have hlive : a.live ≤ a.slots.length := a.length_eq.symm ▸ a.live_le
    have hrotating := (popRotating_live p t.active hlive).1
    rw [hhold] at hrotating
    exact Prod.mk.inj hrotating

/-- The scheduled jump of the sample timeline: latched 50 ms after it came into
effect, read 50 ms later. -/
theorem schedule_applications_agree_of_sample :
    (sampleTimeline.latch (sampleTimeline.at 1150000000).2.2).at 1200000000 =
        sampleTimeline.at 1200000000 ∧
      (sampleTimeline.at 1150000000).2.2 ≤ (sampleTimeline.at 1200000000).2.2 := by
  have hordered : sampleTimeline.Ordered := by decide
  obtain ⟨-, hlatch, -, -, hmono⟩ := schedule_applications_agree hordered
    (by decide : 1150000000 ≤ 1200000000)
  exact ⟨hlatch, hmono⟩

end Tidkod
