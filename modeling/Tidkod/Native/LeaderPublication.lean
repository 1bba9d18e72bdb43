import Mathlib.Tactic
import Tidkod.Native.LeaderSteps

/-!
The publication invariant of a leader. Within a pass the active anchor may lie
beyond changes that are due, and the flag remembers whether anything but a
refinement happened since the payload was encoded. The promotion restores the
order, and what was flagged is published, so at the end of each pass the
timeline is valid, its encoding fits into a message, and the payload decodes to
a snapshot of the current revision that differs at most by refinements.
-/

namespace Tidkod

open Proto3 Timeline

namespace Timeline

/-- Only time and position of the anchor differ. -/
def Refines (payload t : Timeline) : Prop :=
  t = { payload with
    anchor := { payload.anchor with
      timeNs := t.anchor.timeNs
      position := t.anchor.position } }

theorem Refines.refl (t : Timeline) : Refines t t := rfl

/-- Refining leaves the counters alone. -/
theorem Refines.countable {payload t : Timeline} (h : Refines payload t)
    (hrevision : t.revision = payload.revision) (hcount : t.Countable) : payload.Countable where
  revision_lt := hrevision.symm.trans_lt hcount.revision_lt
  discontinuity_lt := by
    have hdisc : t.discontinuity = payload.discontinuity := by rw [h]
    have hscheduled : t.scheduled = payload.scheduled := by rw [h]
    intro s hs
    rcases List.mem_cons.mp hs with rfl | hmem
    · exact hdisc.symm.trans_lt (hcount.discontinuity_lt t.active List.mem_cons_self)
    · exact hcount.discontinuity_lt s (List.mem_cons_of_mem _ (hscheduled ▸ hmem))

theorem newestId_congr {t u : Timeline} (hdisc : u.discontinuity = t.discontinuity)
    (hscheduled : u.scheduled = t.scheduled) : u.newestId = t.newestId := by
  rw [newestId, newestId, hscheduled]
  cases t.scheduled.getLast? with
  | none => exact hdisc
  | some s => rfl

theorem Queued.newestId_activateWhile_le {t : Timeline} (h : t.Queued) (p : Scheduled → Bool) :
    (t.activateWhile p).newestId ≤ t.newestId := by
  obtain ⟨e, he, hid⟩ := (t.activateWhile p).newestId_mem
  rw [← hid]
  exact h.le_newestId ((TimedQueue.popWhile_suffix p t.active t.scheduled).subset he)

/-- Ids below the newest one fit into 64 bits with it. -/
theorem Queued.countable {t : Timeline} (h : t.Queued) (hrevision : t.revision < 2 ^ 64)
    (hnewest : t.newestId < 2 ^ 64) : t.Countable :=
  ⟨hrevision, fun _ hs => (h.le_newestId hs).trans_lt hnewest⟩

end Timeline

/-- The commands of a pass run between its readings of the clock. -/
def Pass.Chronological (last : Nat) (p : Pass) : Prop :=
  (last :: p.commands.map Prod.fst ++ [p.ending.now]).Pairwise (· ≤ ·) ∧ p.ending.now ≤ i64Max

/-- Within a pass that began with a payload, at a reading of the clock. -/
structure LeaderPass.InPass (payload : Timeline) (s : LeaderPass) (now bound : Nat) : Prop where
  revision_eq : s.job.timeline.revision = payload.revision
  bytes_eq : s.job.bytes = payload.bytes
  queued : s.job.timeline.Queued
  anchor_le : s.job.timeline.anchor.timeNs ≤ now
  time_le : ∀ c ∈ s.job.timeline.scheduled, c.timeNs ≤ i64Max
  capacity : s.job.timeline.scheduled.length ≤ 4
  newest_le : s.job.timeline.newestId ≤ bound
  unpublished : s.publish = false →
    Refines payload s.job.timeline ∧ (s.job.timeline ≠ payload → s.job.dirty = true)

/-- At the end of a pass: the timeline is valid with nothing due, and the payload
is current up to refinements. -/
structure LeaderJob.Current (payload : Timeline) (job : LeaderJob) (now : Nat) : Prop where
  valid : job.timeline.Valid
  anchor_le : job.timeline.anchor.timeNs ≤ now
  pending : ∀ c ∈ job.timeline.scheduled, now < c.timeNs
  payload_valid : payload.Valid
  bytes_eq : job.bytes = payload.bytes
  revision_eq : job.timeline.revision = payload.revision
  refines : Refines payload job.timeline
  dirty : job.timeline ≠ payload → job.dirty = true

namespace LeaderPass

variable {payload : Timeline} {s : LeaderPass} {last now bound : Nat}

/-- A pass goes on from a published timeline without scheduled changes. -/
theorem InPass.restarted {r : LeaderPass} (h : InPass payload s last bound)
    (hrevision : r.job.timeline.revision = s.job.timeline.revision)
    (hbytes : r.job.bytes = s.job.bytes) (hanchor : r.job.timeline.anchor.timeNs ≤ now)
    (hscheduled : r.job.timeline.scheduled = []) (hqueued : r.job.timeline.Queued)
    (hid : r.job.timeline.discontinuity ≤ bound) (hpublish : r.publish = true) :
    InPass payload r now bound where
  revision_eq := hrevision.trans h.revision_eq
  bytes_eq := hbytes.trans h.bytes_eq
  queued := hqueued
  anchor_le := hanchor
  time_le := by simp [hscheduled]
  capacity := by simp [hscheduled]
  newest_le := by
    rw [newestId, hscheduled, List.getLast?_nil, Option.getD_none]
    exact hid
  unpublished := fun hquiet => by
    rw [hpublish] at hquiet
    cases hquiet

theorem InPass.later (h : InPass payload s last bound) (hnow : last ≤ now) :
    InPass payload s now (bound + 1) :=
  { h with anchor_le := h.anchor_le.trans hnow, newest_le := h.newest_le.trans (Nat.le_succ _) }

/-- An accepted control goes into the schedule or takes the place of all of it. -/
theorem InPass.controlled (h : InPass payload s last bound) (hnow : last ≤ now) {t : Timeline}
    (hqueued : t.Queued) (hchange : ChangeOutcome s.job.timeline now t) :
    InPass payload ⟨{ s.job with timeline := t }, true⟩ now (bound + 1) := by
  have hnewest := h.newest_le
  cases hchange with
  | scheduled anchor hlater htime hroom hlast =>
      refine { h.later hnow with
        queued := hqueued
        time_le := ?_
        capacity := ?_
        newest_le := ?_
        unpublished := fun hquiet => absurd hquiet (by simp) }
      · intro c hc
        rcases List.mem_append.mp hc with hold | hnew
        · exact h.time_le c hold
        · rw [List.mem_singleton.mp hnew]
          exact htime
      · have hcapacity := h.capacity
        simp only [List.length_append, List.length_singleton]
        omega
      · have hnext := h.queued.nextDiscontinuity_eq anchor.timeNs
        simp only [newestId, List.getLast?_concat, Option.getD_some]
        omega
  | replaced anchor hdue htime =>
      refine (h.later hnow).restarted rfl rfl hdue rfl hqueued ?_ rfl
      have hnext := h.queued.nextDiscontinuity_eq anchor.timeNs
      simp only
      omega

/-- A sample that is not a refinement is published. -/
theorem InPass.sampled (h : InPass payload s last bound) (hnow : last ≤ now)
    {sample : SourceSample} {tracker : Tracker} {t : Timeline} {immediate : Bool}
    (hqueued : t.Queued)
    (hsample : Tracker.SampleOutcome s.job.tracker s.job.timeline sample now
      ((tracker, t), .ok immediate)) :
    InPass payload
      ⟨{ s.job with tracker := tracker, timeline := t, dirty := true },
        s.publish || immediate || s.job.timeline.sourceHealth ≠ t.sourceHealth⟩ now
      (bound + 1) := by
  have hnewest := h.newest_le
  cases hsample with
  | changed htracked htime next hlast rate =>
      refine (h.later hnow).restarted rfl rfl htime rfl hqueued ?_ (by simp)
      have hactive := h.queued.le_newestId (e := s.job.timeline.active) List.mem_cons_self
      simp only [active_discontinuity] at hactive ⊢
      omega
  | refined htracked htime next hlast position =>
      have hsame : newestId
          { s.job.timeline with
            anchor := ⟨sample.timestampNs, position, s.job.timeline.anchor.rate⟩
            sourceHealth := .healthy } = s.job.timeline.newestId := newestId_congr rfl rfl
      refine { h.later hnow with
        queued := hqueued
        anchor_le := htime
        newest_le := hsame.trans_le (h.later hnow).newest_le
        unpublished := fun hquiet => ⟨?_, fun _ => rfl⟩ }
      simp only [Bool.or_false, Bool.or_eq_false_iff, decide_eq_false_iff_not, not_not] at hquiet
      have hrefines := (h.unpublished hquiet.1).1
      unfold Refines at hrefines ⊢
      rw [← hquiet.2]
      rw [hrefines]

/-- Commands keep what the promotion needs; the flag is set by everything but
refinements. -/
theorem InPass.command (h : InPass payload s last bound) (hnow : last ≤ now) (c : Command) :
    InPass payload (s.command (now, c)).1 now (bound + 1) := by
  have hweaker := h.later hnow
  have hqueued := command_queued h.queued (now, c)
  have houtcome := s.command_outcome now c
  generalize s.command (now, c) = result at houtcome hqueued ⊢
  cases houtcome with
  | ignored => exact hweaker
  | refused => exact hweaker
  | unsampled => exact { hweaker with queued := hqueued }
  | identified id =>
      refine { hweaker with queued := hqueued, newest_le := ?_, unpublished := fun hquiet => ?_ }
      · exact (newestId_congr rfl rfl).trans_le hweaker.newest_le
      · simp only [Bool.or_eq_false_iff, decide_eq_false_iff_not, not_not] at hquiet
        have hsame : { s.job.timeline with sessionId := some id } = s.job.timeline := by
          rw [← hquiet.2]
        simp only [hsame]
        exact h.unpublished hquiet.1
  | controlled _ _ t hchange => exact h.controlled hnow hqueued hchange
  | sampled sample tracker t immediate hsample => exact h.sampled hnow hqueued hsample

/-- The commands of a pass, one after the other. -/
theorem InPass.commands {commands : List (Nat × Command)} (h : InPass payload s last bound)
    (hclock : (last :: commands.map Prod.fst ++ [now]).Pairwise (· ≤ ·)) :
    InPass payload (Machine.run LeaderPass.command s commands) now (bound + commands.length) := by
  induction commands generalizing s last bound with
  | nil =>
      have hnow : last ≤ now := by simpa using hclock
      exact { h with anchor_le := h.anchor_le.trans hnow }
  | cons c rest ih =>
      obtain ⟨reading, c⟩ := c
      simp only [List.map_cons, List.cons_append, List.pairwise_cons] at hclock
      have hfirst : last ≤ reading := hclock.1 reading List.mem_cons_self
      have hrest := ih (h.command hfirst c) (List.pairwise_cons.mpr hclock.2)
      rw [List.length_cons, Nat.add_comm rest.length, ← Nat.add_assoc]
      exact hrest

/-- The promotion leaves nothing due, whatever health and revision are set after
it. -/
theorem InPass.promoted (h : InPass payload s last bound) (hnow : last ≤ now) (hmax : now ≤ i64Max)
    (health : SourceHealth) {revision : Nat} (hrevision : 0 < revision) {t : Timeline}
    (ht : t = { (s.promote now).job.timeline with sourceHealth := health, revision := revision }) :
    t.Valid ∧ t.anchor.timeNs ≤ now ∧ (∀ c ∈ t.scheduled, now < c.timeNs) ∧
      t.newestId ≤ bound := by
  have hsuffix := TimedQueue.popWhile_suffix (fun c : Scheduled => decide (c.timeNs ≤ now))
    s.job.timeline.active s.job.timeline.scheduled
  have hpending : ∀ c ∈ t.scheduled, now < c.timeNs := by
    rw [ht]
    exact fun c hc => h.queued.lt_of_mem_promoted hc
  have hanchor : t.anchor.timeNs ≤ now := by
    have hactive := TimedQueue.popWhile_active (fun c : Scheduled => decide (c.timeNs ≤ now))
      s.job.timeline.active s.job.timeline.scheduled
    rw [ht]
    rcases hactive with hsame | ⟨-, hdue⟩
    · exact (congrArg Scheduled.timeNs hsame).trans_le (h.anchor_le.trans hnow)
    · exact of_decide_eq_true hdue
  have hqueued : t.Queued := by
    rw [ht]
    exact (h.queued.activateWhile _).congr rfl rfl
  refine ⟨⟨?_, ?_, ?_, hqueued.ordered (fun c hc => hanchor.trans_lt (hpending c hc))⟩, hanchor,
    hpending, ?_⟩
  · rw [ht]
    exact hrevision
  · intro c hc
    rcases List.mem_cons.mp hc with rfl | hmem
    · exact hanchor.trans hmax
    · rw [ht] at hmem
      exact h.time_le c (TimedQueue.popWhile_rest_subset _ _ _ hmem)
  · have hlength := hsuffix.length_le
    have hcapacity := h.capacity
    rw [List.length_cons, List.length_cons] at hlength
    rw [ht]
    simp only [promote, activateWhile_scheduled]
    omega
  · have hnewest : t.newestId = (s.promote now).job.timeline.newestId := by
      rw [ht]
      exact newestId_congr rfl rfl
    exact hnewest.trans_le ((h.queued.newestId_activateWhile_le _).trans h.newest_le)

/-- A pass that has nothing to publish ends as it is. -/
theorem quiet_closing {r : PassEnd}
    (hquiet : ((s.promote r.now).checkHealth r.now).due r = false) :
    s.publish = false ∧ (s.promote r.now).checkHealth r.now = s := by
  have hflag : ((s.promote r.now).checkHealth r.now).publish = false := by
    simp only [due, Bool.or_eq_false_iff] at hquiet
    exact hquiet.1.1
  have hhealth : (s.promote r.now).checkHealth r.now = s.promote r.now := by
    unfold checkHealth at hflag ⊢
    dsimp only at hflag ⊢
    split_ifs at hflag ⊢ with hchanged
    rfl
  rw [hhealth] at hflag ⊢
  simp only [promote, Bool.or_eq_false_iff] at hflag
  refine ⟨hflag.1, ?_⟩
  have hsame := activateWhile_of_head hflag.2
  obtain ⟨⟨config, timeline, tracker, bytes, dirty⟩, publish⟩ := s
  simp only [promote]
  rw [hsame, hflag.2, Bool.or_false]

theorem InPass.closing_revision (h : InPass payload s last bound) (now : Nat) :
    ((s.promote now).checkHealth now).job.timeline.revision = payload.revision := by
  obtain ⟨health, hhealth⟩ := (s.promote now).checkHealth_timeline now
  rw [hhealth]
  exact h.revision_eq

/-- The timeline a pass would publish is valid. -/
theorem InPass.published (h : InPass payload s last bound) {r : PassEnd} (hnow : last ≤ r.now)
    (hmax : r.now ≤ i64Max) {t : Timeline}
    (ht : t =
      { ((s.promote r.now).checkHealth r.now).job.timeline with
        revision := ((s.promote r.now).checkHealth r.now).job.timeline.revision + 1 }) :
    t.Valid ∧ t.anchor.timeNs ≤ r.now ∧ (∀ c ∈ t.scheduled, r.now < c.timeNs) ∧
      t.newestId ≤ bound ∧ t.revision = payload.revision + 1 := by
  obtain ⟨health, hhealth⟩ := (s.promote r.now).checkHealth_timeline r.now
  have hrevision : t.revision = payload.revision + 1 := by rw [ht, h.closing_revision]
  obtain ⟨hvalid, hanchor, hpending, hnewest⟩ := h.promoted hnow hmax health
    (Nat.succ_pos payload.revision) (t := t) (by rw [ht, h.closing_revision, hhealth])
  exact ⟨hvalid, hanchor, hpending, hnewest, hrevision⟩

/-- What the end of a pass leaves: the payload before it when nothing was
published, and the live timeline otherwise. -/
theorem InPass.finish (h : InPass payload s last bound) (hpayload : payload.Valid) {r : PassEnd}
    (hnow : last ≤ r.now) (hmax : r.now ≤ i64Max) {job : LeaderJob} {published : Bool}
    (hfinish : s.finish r = .ok (job, published)) :
    ∃ next, LeaderJob.Current next job r.now ∧ job.timeline.newestId ≤ bound ∧
      (published = false → next = payload) ∧
      (published = true → next = job.timeline ∧ next.revision = payload.revision + 1) := by
  have houtcome := s.finish_outcome r
  rw [hfinish] at houtcome
  cases houtcome with
  | quiet hquiet =>
      obtain ⟨health, hhealth⟩ := (s.promote r.now).checkHealth_timeline r.now
      have hrevision := h.closing_revision r.now
      obtain ⟨hvalid, hanchor, hpending, hnewest⟩ := h.promoted hnow hmax health
        hpayload.revision_pos (t := ((s.promote r.now).checkHealth r.now).job.timeline)
        (by rw [← hrevision, hhealth])
      obtain ⟨hpublish, hsame⟩ := quiet_closing hquiet
      obtain ⟨hrefines, hdirty⟩ := h.unpublished hpublish
      rw [hsame] at hvalid hanchor hpending hnewest ⊢
      refine ⟨payload, ?_, hnewest, fun _ => rfl, fun hpublished => absurd hpublished (by simp)⟩
      exact
        { valid := hvalid
          anchor_le := hanchor
          pending := hpending
          payload_valid := hpayload
          bytes_eq := h.bytes_eq
          revision_eq := h.revision_eq
          refines := hrefines
          dirty := hdirty }
  | published bytes t ht hencode =>
      obtain ⟨hvalid, hanchor, hpending, hnewest, hrevision⟩ := h.published hnow hmax ht
      refine ⟨t, ?_, hnewest, fun hquiet => absurd hquiet (by simp), fun _ => ⟨rfl, hrevision⟩⟩
      exact
        { valid := hvalid
          anchor_le := hanchor
          pending := hpending
          payload_valid := hvalid
          bytes_eq := (eq_of_encode hencode).symm
          revision_eq := rfl
          refines := .refl t
          dirty := fun hne => absurd rfl hne }

/-- While the counters have room the encoding cannot fail. -/
theorem InPass.finish_succeeds (h : InPass payload s last bound) {r : PassEnd}
    (hnow : last ≤ r.now) (hmax : r.now ≤ i64Max) (hbound : bound < 2 ^ 64)
    (hrevision : payload.revision + 1 < 2 ^ 64) :
    ∃ job published, s.finish r = .ok (job, published) := by
  have houtcome := s.finish_outcome r
  generalize s.finish r = result at houtcome
  cases houtcome with
  | quiet => exact ⟨_, _, rfl⟩
  | published => exact ⟨_, _, rfl⟩
  | failed t ht e hencode =>
      obtain ⟨hvalid, -, -, hnewest, hnext⟩ := h.published hnow hmax ht
      have hcount := hvalid.ordered.queued.countable (hnext.trans_lt hrevision)
        (hnewest.trans_lt hbound)
      rw [encode_wire hvalid hcount] at hencode
      exact absurd hencode (by simp)

end LeaderPass

/-- A leader between passes, with the clock at the end of the last one. An error
ends its worker. -/
structure LeaderRun where
  job : LeaderJob
  time : Nat
  running : Bool
  deriving DecidableEq

namespace LeaderRun

def start (job : LeaderJob) (now : Nat) : LeaderRun := ⟨job, now, true⟩

/-- One pass, with the payload that is written to the peers. -/
def pass (l : LeaderRun) (p : Pass) : LeaderRun × Option Bytes :=
  if l.running then
    match l.job.progress p with
    | .ok (job, published) =>
        (⟨job, p.ending.now, true⟩, if published then some job.bytes else none)
    | .error _ => ({ l with running := false }, none)
  else (l, none)

/-- The three effects of a pass: the worker has ended or ends now, nothing is
written, or the new payload is. -/
theorem pass_cases (l : LeaderRun) (p : Pass) :
    (∃ running, l.pass p = ({ l with running := running }, none)) ∨
      (∃ job, l.job.progress p = .ok (job, false) ∧
        l.pass p = (⟨job, p.ending.now, true⟩, none)) ∨
      ∃ job, l.job.progress p = .ok (job, true) ∧
        l.pass p = (⟨job, p.ending.now, true⟩, some job.bytes) := by
  by_cases hrunning : l.running = true
  · cases hprogress : l.job.progress p with
    | error e => exact Or.inl ⟨false, by rw [pass, if_pos hrunning, hprogress]⟩
    | ok result =>
        obtain ⟨job, published⟩ := result
        right
        cases published with
        | false => exact Or.inl ⟨job, rfl, by rw [pass, if_pos hrunning, hprogress]; rfl⟩
        | true => exact Or.inr ⟨job, rfl, by rw [pass, if_pos hrunning, hprogress]; rfl⟩
  · exact Or.inl ⟨l.running, by rw [pass, if_neg hrunning]⟩

/-- A pass after the last one, with room left in both counters. -/
structure Admits (l : LeaderRun) (p : Pass) : Prop where
  chronological : p.Chronological l.time
  revision : l.job.timeline.revision + 1 < 2 ^ 64
  discontinuity : l.job.timeline.newestId + p.commands.length < 2 ^ 64

instance (last : Nat) (p : Pass) : Decidable (p.Chronological last) :=
  inferInstanceAs (Decidable (_ ∧ _))

theorem admits_iff (l : LeaderRun) (p : Pass) : l.Admits p ↔
    p.Chronological l.time ∧ l.job.timeline.revision + 1 < 2 ^ 64 ∧
      l.job.timeline.newestId + p.commands.length < 2 ^ 64 :=
  ⟨fun h => ⟨h.1, h.2, h.3⟩, fun ⟨a, b, c⟩ => ⟨a, b, c⟩⟩

instance (l : LeaderRun) (p : Pass) : Decidable (l.Admits p) :=
  decidable_of_iff _ (l.admits_iff p).symm

/-- The worker runs, its payload is current, and its counters fit into 64 bits. -/
structure Live (l : LeaderRun) (payload : Timeline) : Prop where
  running : l.running = true
  current : LeaderJob.Current payload l.job l.time
  countable : l.job.timeline.Countable

end LeaderRun

namespace LeaderJob

/-- A leader starts with its timeline as the payload. -/
theorem current_of_new {config : LeaderConfig} {session generatedId : Bytes16} {now : Nat}
    {job : LeaderJob} (hnow : now ≤ i64Max)
    (hnew : LeaderJob.new config session generatedId now = .ok job) :
    Current job.timeline job now ∧ job.timeline.Countable := by
  rw [LeaderJob.new_ok config session generatedId hnow] at hnew
  obtain rfl := Except.ok.inj hnew
  have hvalid := initialTimeline_valid config session generatedId hnow
  refine ⟨?_, initialTimeline_countable config session generatedId now⟩
  exact
    { valid := hvalid
      anchor_le := le_rfl
      pending := fun c hc => absurd hc List.not_mem_nil
      payload_valid := hvalid
      bytes_eq := rfl
      revision_eq := rfl
      refines := .refl _
      dirty := fun hne => absurd rfl hne }

variable {payload : Timeline} {job : LeaderJob} {last : Nat} {p : Pass}

/-- After the commands of a pass. -/
theorem Current.commands (h : Current payload job last) (hclock : p.Chronological last) :
    LeaderPass.InPass payload (Machine.run LeaderPass.command ⟨job, false⟩ p.commands)
      p.ending.now (job.timeline.newestId + p.commands.length) := by
  refine LeaderPass.InPass.commands ?_ hclock.1
  exact
    { revision_eq := h.revision_eq
      bytes_eq := h.bytes_eq
      queued := h.valid.ordered.queued
      anchor_le := h.anchor_le
      time_le := fun c hc => h.valid.time_le c (List.mem_cons_of_mem _ hc)
      capacity := h.valid.capacity
      newest_le := le_rfl
      unpublished := fun _ => ⟨h.refines, h.dirty⟩ }

/-- A pass keeps the payload or publishes the live timeline under the next
revision. -/
theorem Current.progress (h : Current payload job last) (hclock : p.Chronological last)
    {next : LeaderJob} {published : Bool} (hprogress : job.progress p = .ok (next, published)) :
    ∃ after, Current after next p.ending.now ∧
      next.timeline.newestId ≤ job.timeline.newestId + p.commands.length ∧
      (published = false → after = payload) ∧
      (published = true → after = next.timeline ∧ after.revision = payload.revision + 1) :=
  (h.commands hclock).finish h.payload_valid le_rfl hclock.2 hprogress

end LeaderJob

namespace LeaderRun

variable {l : LeaderRun} {payload : Timeline}

theorem Live.pass (h : l.Live payload) {p : Pass} (hadmits : l.Admits p) :
    ∃ after, (l.pass p).1.Live after ∧
      (after.revision = payload.revision ∧ (l.pass p).1.job.bytes = l.job.bytes ∨
        after.revision = payload.revision + 1) := by
  have hcurrent := h.current
  have hrevision := hadmits.revision
  rw [hcurrent.revision_eq] at hrevision
  obtain ⟨next, published, hprogress⟩ := (hcurrent.commands hadmits.chronological).finish_succeeds
    le_rfl hadmits.chronological.2 hadmits.discontinuity hrevision
  obtain ⟨after, hafter, hnewest, hkept, hpublished⟩ :=
    hcurrent.progress hadmits.chronological hprogress
  have hpass : l.pass p =
      (⟨next, p.ending.now, true⟩, if published then some next.bytes else none) := by
    have hok : l.job.progress p = .ok (next, published) := hprogress
    simp only [LeaderRun.pass, if_pos h.running, hok]
  have hcount (hlt : after.revision < 2 ^ 64) : next.timeline.Countable :=
    hafter.valid.ordered.queued.countable (hafter.revision_eq.trans_lt hlt)
      (hnewest.trans_lt hadmits.discontinuity)
  rw [hpass]
  cases published with
  | false =>
      obtain rfl := hkept rfl
      exact ⟨after, ⟨rfl, hafter, hcount ((Nat.lt_succ_self _).trans hrevision)⟩,
        Or.inl ⟨rfl, hafter.bytes_eq.trans hcurrent.bytes_eq.symm⟩⟩
  | true =>
      obtain ⟨-, hnext⟩ := hpublished rfl
      exact ⟨after, ⟨rfl, hafter, hcount (hnext.trans_lt hrevision)⟩, Or.inr hnext⟩

/-- Along a run revisions never fall, and while the revision stays so does the
payload. -/
theorem Live.run (h : l.Live payload) {passes : List Pass}
    (hadmits : Machine.Along LeaderRun.pass Admits l passes) :
    ∃ after, (Machine.run LeaderRun.pass l passes).Live after ∧
      payload.revision ≤ after.revision ∧
      (after.revision = payload.revision →
        (Machine.run LeaderRun.pass l passes).job.bytes = l.job.bytes) := by
  induction passes generalizing l payload with
  | nil => exact ⟨payload, h, le_rfl, fun _ => rfl⟩
  | cons p rest ih =>
      obtain ⟨middle, hlive, hstep⟩ := h.pass hadmits.1
      obtain ⟨after, hend, hle, hsame⟩ := ih hlive hadmits.2
      refine ⟨after, hend, ?_⟩
      simp only [Machine.run_cons]
      rcases hstep with ⟨hrevision, hbytes⟩ | hrevision
      · rw [hrevision] at hle hsame
        exact ⟨hle, fun heq => (hsame heq).trans hbytes⟩
      · exact ⟨by omega, fun heq => absurd heq (by omega)⟩

end LeaderRun

/-- At the end of each pass of a leader: its worker still runs, so no encoding
has failed; the timeline passes validation and encodes within a message; the
payload decodes to a snapshot of the current revision, shares its revision with
no other payload, and differs from the timeline only by refinements that are
marked dirty. -/
theorem leader_publication {config : LeaderConfig} {session generatedId : Bytes16} {now : Nat}
    {job : LeaderJob} (hnow : now ≤ i64Max)
    (hnew : LeaderJob.new config session generatedId now = .ok job) {passes : List Pass}
    (hadmits : Machine.Along LeaderRun.pass LeaderRun.Admits (.start job now) passes) :
    (Machine.run LeaderRun.pass (.start job now) passes).running = true ∧
      ∀ final, final = (Machine.run LeaderRun.pass (.start job now) passes).job →
        validateSnapshot final.timeline.wire = .ok () ∧ final.timeline.Valid ∧
        (serialize final.timeline.wire.fields).length ≤ maxMessage ∧
        encode final.timeline.wire = .ok (serialize final.timeline.wire.fields) ∧
        (∃ payload, decodeSnapshot final.bytes = .ok payload.wire ∧
          fromWire payload.wire = .ok payload ∧
          payload.revision = final.timeline.revision ∧
          (final.timeline ≠ payload → final.dirty = true ∧ Refines payload final.timeline)) ∧
        ∀ earlier, earlier <+: passes →
          (Machine.run LeaderRun.pass (.start job now) earlier).job.timeline.revision =
            final.timeline.revision →
          (Machine.run LeaderRun.pass (.start job now) earlier).job.bytes = final.bytes := by
  obtain ⟨hcurrent, hcount⟩ := LeaderJob.current_of_new hnow hnew
  have hstart : (LeaderRun.start job now).Live job.timeline := ⟨rfl, hcurrent, hcount⟩
  obtain ⟨payload, hlive, -⟩ := hstart.run hadmits
  refine ⟨hlive.running, ?_⟩
  have hend := hlive.current
  have hpayload : payload.Countable :=
    hend.refines.countable hend.revision_eq hlive.countable
  rintro final rfl
  refine ⟨(validateSnapshot_ok_iff _).mpr ((wire_wellFormed_iff _).mpr hend.valid), hend.valid,
    bytes_length_le hend.valid hlive.countable, encode_wire hend.valid hlive.countable,
    ⟨payload, ?_, fromWire_wire hend.payload_valid, hend.revision_eq.symm,
      fun hne => ⟨hend.dirty hne, hend.refines⟩⟩, ?_⟩
  · rw [hend.bytes_eq]
    exact decodeSnapshot_bytes hend.payload_valid hpayload
  · rintro earlier ⟨rest, rfl⟩ hrevision
    obtain ⟨hbefore, hafter⟩ := (Machine.along_append LeaderRun.pass _ _ _ _).mp hadmits
    obtain ⟨middle, hmiddle, -⟩ := hstart.run hbefore
    obtain ⟨last, hlast, -, hsame⟩ := hmiddle.run hafter
    rw [Machine.run_append] at hrevision ⊢
    refine (hsame ?_).symm
    rw [← hlast.current.revision_eq, ← hrevision, hmiddle.current.revision_eq]

/-- A first sample, a scheduled jump, and a sample one frame later. -/
def refiningPasses : List Pass :=
  [⟨[(1600, .sample firstSample)], ⟨1700, 0, 0⟩, by decide⟩,
    ⟨[(2000, .change (.set (Position.fromFixed (100 * q32)) Rate.normal) (some 1002000000))],
      ⟨2100, 0, 0⟩, by decide⟩,
    ⟨[(34000000, .sample ⟨33336000, Position.fromFixed q32, none, false⟩)], ⟨34100000, 0, 0⟩,
      by decide⟩]

/-- The refinement waits behind the payload of revision three. -/
theorem leader_publication_of_refinement : ∃ job,
    LeaderJob.new trackedConfig Bytes16.zero Bytes16.zero 1000 = .ok job ∧
      ∃ final payload, final = (Machine.run LeaderRun.pass (.start job 1000) refiningPasses).job ∧
        validateSnapshot final.timeline.wire = .ok () ∧
        decodeSnapshot final.bytes = .ok payload.wire ∧ fromWire payload.wire = .ok payload ∧
        payload.revision = final.timeline.revision ∧ final.timeline.revision = 3 ∧
        final.dirty = true := by
  have hnow : 1000 ≤ i64Max := by decide
  have hnew := LeaderJob.new_ok trackedConfig Bytes16.zero Bytes16.zero hnow
  obtain ⟨-, hfinal⟩ :=
    leader_publication hnow hnew
      (show Machine.Along LeaderRun.pass LeaderRun.Admits _ refiningPasses by decide +kernel)
  obtain ⟨hvalid, -, -, -, ⟨payload, hdecode, hwire, hrevision, -⟩, -⟩ := hfinal _ rfl
  exact ⟨_, hnew, _, payload, rfl, hvalid, hdecode, hwire, hrevision, by decide +kernel,
    by decide +kernel⟩

end Tidkod
