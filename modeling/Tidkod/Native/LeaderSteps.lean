import Mathlib.Tactic
import Tidkod.Native.Network

/-!
What one action of a leader does to the ids of its timeline. Between two
promotions the active anchor may move past scheduled changes that are due, so
the schedule is ordered whatever the time of the active anchor. An action either
introduces one new id, above all ids in use, or carries entries over; readers
never see a lower id than before.
-/

namespace Tidkod

open TimedQueue

namespace Timeline

/-- The timeline with its active trajectory in effect from the very beginning. -/
def rewound (t : Timeline) : Timeline := { t with anchor := { t.anchor with timeNs := 0 } }

/-- The schedule is ordered, whatever the time of the active anchor. -/
def Queued (t : Timeline) : Prop := t.rewound.Ordered

def entries (t : Timeline) : List Scheduled := t.active :: t.scheduled

/-- The highest id in use. -/
def newestId (t : Timeline) : Nat := (t.scheduled.getLast?.getD t.active).discontinuity

theorem queued_iff (t : Timeline) : t.Queued ↔
    (∀ s ∈ t.scheduled, 0 < s.timeNs ∧ t.discontinuity < s.discontinuity) ∧
      t.scheduled.Pairwise (fun a b => a.timeNs < b.timeNs ∧ a.discontinuity < b.discontinuity) :=
  List.pairwise_cons

/-- Ids increase strictly from the active one on. -/
theorem Queued.entries_pairwise {t : Timeline} (h : t.Queued) :
    t.entries.Pairwise (fun a b => a.discontinuity < b.discontinuity) := by
  obtain ⟨hids, hpairwise⟩ := (queued_iff t).mp h
  exact List.pairwise_cons.mpr ⟨fun s hs => (hids s hs).2, hpairwise.imp (fun hlt => hlt.2)⟩

theorem queued_of_nil {t : Timeline} (h : t.scheduled = []) : t.Queued := by
  rw [queued_iff, h]
  simp

/-- Only the active id and the schedule matter. -/
theorem Queued.congr {t u : Timeline} (h : t.Queued) (hdisc : u.discontinuity = t.discontinuity)
    (hscheduled : u.scheduled = t.scheduled) : u.Queued := by
  rw [queued_iff] at h ⊢
  rwa [hdisc, hscheduled]

theorem Ordered.queued {t : Timeline} (h : t.Ordered) : t.Queued :=
  (queued_iff t).mpr
    ⟨fun _ hs => ⟨(Nat.zero_le _).trans_lt (h.head_lt hs).1, (h.head_lt hs).2⟩,
      (List.pairwise_cons.mp h).2⟩

/-- An anchor before the whole schedule completes the order. -/
theorem Queued.ordered {t : Timeline} (h : t.Queued)
    (hpending : ∀ s ∈ t.scheduled, t.anchor.timeNs < s.timeNs) : t.Ordered := by
  obtain ⟨hids, hpairwise⟩ := (queued_iff t).mp h
  exact List.pairwise_cons.mpr ⟨fun s hs => ⟨hpending s hs, (hids s hs).2⟩, hpairwise⟩

theorem discontinuityAt_congr {t u : Timeline} (hdisc : t.discontinuity = u.discontinuity)
    (hscheduled : t.scheduled = u.scheduled) (time : Nat) :
    t.discontinuityAt time = u.discontinuityAt time := by
  rw [discontinuityAt_eq, discontinuityAt_eq, current, current, hscheduled]
  exact current_congr Scheduled.discontinuity time hdisc u.scheduled

theorem discontinuityAt_rewound (t : Timeline) (time : Nat) :
    t.rewound.discontinuityAt time = t.discontinuityAt time := by
  have hdisc : t.rewound.discontinuity = t.discontinuity := rfl
  exact discontinuityAt_congr hdisc rfl time

theorem Queued.discontinuityAt_mono {t : Timeline} (h : t.Queued) {m n : Nat} (hmn : m ≤ n) :
    t.discontinuityAt m ≤ t.discontinuityAt n := by
  rw [← t.discontinuityAt_rewound m, ← t.discontinuityAt_rewound n]
  exact Ordered.discontinuityAt_mono h hmn

/-- What readers see is the id of an entry. -/
theorem exists_entry_discontinuityAt (t : Timeline) (time : Nat) :
    ∃ e ∈ t.entries, t.discontinuityAt time = e.discontinuity :=
  ⟨t.current time, current_mem time t.active t.scheduled, t.discontinuityAt_eq time⟩

theorem newestId_mem (t : Timeline) : ∃ e ∈ t.entries, e.discontinuity = t.newestId := by
  cases hlast : t.scheduled.getLast? with
  | none => exact ⟨t.active, List.mem_cons_self, by rw [newestId, hlast]; rfl⟩
  | some e =>
      exact ⟨e, List.mem_cons_of_mem _ (List.mem_of_getLast? hlast), by rw [newestId, hlast]; rfl⟩

theorem Queued.le_newestId {t : Timeline} (h : t.Queued) {e : Scheduled} (he : e ∈ t.entries) :
    e.discontinuity ≤ t.newestId := by
  obtain ⟨hids, hpairwise⟩ := (queued_iff t).mp h
  rcases List.eq_nil_or_concat t.scheduled with hnil | ⟨front, last, hlast⟩
  · rw [entries, hnil] at he
    rw [List.mem_singleton.mp he, newestId, hnil]
    rfl
  · rw [List.concat_eq_append] at hlast
    have hnewest : t.newestId = last.discontinuity := by
      rw [newestId, hlast]
      simp
    rw [hnewest]
    rcases List.mem_cons.mp he with rfl | hmem
    · exact (hids last (by simp [hlast])).2.le
    · rw [hlast, List.mem_append, List.mem_singleton] at hmem
      rw [hlast, List.pairwise_append] at hpairwise
      rcases hmem with hfront | rfl
      · exact (hpairwise.2.2 e hfront last (by simp)).2.le
      · exact le_rfl

/-- A control takes the id after the highest one in use. -/
theorem Queued.nextDiscontinuity_eq {t : Timeline} (h : t.Queued) (time : Nat) :
    t.nextDiscontinuity time = t.newestId + 1 := by
  have hactive : t.discontinuity ≤ t.newestId := h.le_newestId (e := t.active) List.mem_cons_self
  obtain ⟨e, he, hread⟩ := t.exists_entry_discontinuityAt time
  have hat : (t.at time).2.2 ≤ t.newestId := hread.le.trans (h.le_newestId he)
  cases hlast : t.scheduled.getLast? with
  | none =>
      have hnewest : t.newestId = t.discontinuity := by
        rw [newestId, hlast]
        rfl
      rw [nextDiscontinuity, hlast]
      simp only [Option.elim_none]
      omega
  | some last =>
      have hnewest : t.newestId = last.discontinuity := by
        rw [newestId, hlast]
        rfl
      rw [nextDiscontinuity, hlast]
      simp only [Option.elim_some]
      omega

/-- Entries of one id describe one trajectory: for a generated leader the same
entry, for a tracked one possibly refined by samples at an unchanged rate. -/
def SameTrajectory (kind : SourceKind) (a b : Scheduled) : Prop :=
  a.anchor.rate = b.anchor.rate ∧ (kind = .generated → a = b)

theorem SameTrajectory.refl (kind : SourceKind) (a : Scheduled) : SameTrajectory kind a a :=
  ⟨rfl, fun _ => rfl⟩

theorem SameTrajectory.trans {kind : SourceKind} {a b c : Scheduled}
    (hab : SameTrajectory kind a b) (hbc : SameTrajectory kind b c) : SameTrajectory kind a c :=
  ⟨hab.1.trans hbc.1, fun h => (hab.2 h).trans (hbc.2 h)⟩

/-- The active id never falls, and a scheduled change stays on the schedule until
the active id has reached or passed its own. -/
structure Retains (t u : Timeline) : Prop where
  active : t.discontinuity ≤ u.discontinuity
  scheduled : ∀ s ∈ t.scheduled, s ∈ u.scheduled ∨ s.discontinuity ≤ u.discontinuity

theorem Retains.refl (t : Timeline) : Retains t t := ⟨le_rfl, fun _ hs => Or.inl hs⟩

theorem Retains.trans {t u v : Timeline} (htu : Retains t u) (huv : Retains u v) :
    Retains t v where
  active := htu.active.trans huv.active
  scheduled := by
    intro s hs
    rcases htu.scheduled s hs with hkept | hpassed
    · exact huv.scheduled s hkept
    · exact Or.inr (hpassed.trans huv.active)

/-- No id lies above all ids that are retained. -/
theorem Retains.exists_ge {t u : Timeline} (h : Retains t u) {e : Scheduled} (he : e ∈ t.entries) :
    ∃ f ∈ u.entries, e.discontinuity ≤ f.discontinuity := by
  rcases List.mem_cons.mp he with rfl | hmem
  · exact ⟨u.active, List.mem_cons_self, h.active⟩
  · rcases h.scheduled e hmem with hkept | hpassed
    · exact ⟨e, List.mem_cons_of_mem _ hkept, le_rfl⟩
    · exact ⟨u.active, List.mem_cons_self, hpassed⟩

/-- What an action that may introduce an id makes of the entries in use. -/
structure Evolves (t u : Timeline) (introduced : Option Nat) : Prop where
  kind : u.sourceKind = t.sourceKind
  retains : Retains t u
  fresh : ∀ d ∈ introduced, ∀ e ∈ t.entries, e.discontinuity < d
  carried : ∀ f ∈ u.entries, introduced = some f.discontinuity ∨
    ∃ e ∈ t.entries, e.discontinuity = f.discontinuity ∧ SameTrajectory t.sourceKind e f
  reads : ∀ m n, m ≤ n → t.discontinuityAt m ≤ u.discontinuityAt n

theorem Evolves.trans {t u v : Timeline} {introduced : Option Nat} (htu : Evolves t u introduced)
    (huv : Evolves u v none) : Evolves t v introduced where
  kind := huv.kind.trans htu.kind
  retains := htu.retains.trans huv.retains
  fresh := htu.fresh
  carried := by
    intro g hg
    rcases huv.carried g hg with hnone | ⟨f, hf, hid, hsame⟩
    · exact absurd hnone (by simp)
    · rcases htu.carried f hf with hnew | ⟨e, he, hid', hsame'⟩
      · exact Or.inl (by rw [hnew, hid])
      · rw [htu.kind] at hsame
        exact Or.inr ⟨e, he, hid'.trans hid, hsame'.trans hsame⟩
  reads := fun m n hmn => (htu.reads m n hmn).trans (huv.reads n n le_rfl)

/-- The active id and the schedule stay, and so does the active rate. -/
theorem Queued.evolves_same {t u : Timeline} (h : t.Queued) (hkind : u.sourceKind = t.sourceKind)
    (hdisc : u.discontinuity = t.discontinuity) (hscheduled : u.scheduled = t.scheduled)
    (hactive : SameTrajectory t.sourceKind t.active u.active) : Evolves t u none where
  kind := hkind
  retains := ⟨hdisc.ge, fun _ hs => Or.inl (hscheduled ▸ hs)⟩
  fresh := by simp
  carried := by
    intro f hf
    rcases List.mem_cons.mp hf with rfl | hmem
    · exact Or.inr ⟨t.active, List.mem_cons_self, hdisc.symm, hactive⟩
    · exact Or.inr ⟨f, List.mem_cons_of_mem _ (hscheduled ▸ hmem), rfl, .refl _ _⟩
  reads := by
    intro m n hmn
    rw [discontinuityAt_congr hdisc hscheduled]
    exact h.discontinuityAt_mono hmn

/-- A trajectory that replaces the whole timeline under an unused id. -/
theorem evolves_replaced {t u : Timeline} (hkind : u.sourceKind = t.sourceKind)
    (hscheduled : u.scheduled = []) (hfresh : ∀ e ∈ t.entries, e.discontinuity < u.discontinuity) :
    Evolves t u (some u.discontinuity) where
  kind := hkind
  retains :=
    ⟨(hfresh t.active List.mem_cons_self).le,
      fun s hs => Or.inr (hfresh s (List.mem_cons_of_mem _ hs)).le⟩
  fresh := by
    intro d hd
    rw [← Option.some.inj hd]
    exact hfresh
  carried := by
    intro f hf
    rw [entries, hscheduled, List.mem_singleton] at hf
    exact Or.inl (by rw [hf]; rfl)
  reads := by
    intro m n _
    obtain ⟨e, he, hread⟩ := t.exists_entry_discontinuityAt m
    rw [hread]
    have hpending : u.discontinuityAt n = u.discontinuity :=
      discontinuityAt_of_pending (by simp [hscheduled])
    rw [hpending]
    exact (hfresh e he).le

/-- A change appended to the schedule under an unused id. -/
theorem Queued.evolves_scheduled {t : Timeline} (h : t.Queued) (s : Scheduled)
    (hfresh : ∀ e ∈ t.entries, e.discontinuity < s.discontinuity) :
    Evolves t { t with scheduled := t.scheduled ++ [s] } (some s.discontinuity) where
  kind := rfl
  retains := ⟨le_rfl, fun _ hs => Or.inl (List.mem_append_left _ hs)⟩
  fresh := by
    intro d hd
    rw [← Option.some.inj hd]
    exact hfresh
  carried := by
    intro f hf
    rcases List.mem_cons.mp hf with rfl | hmem
    · exact Or.inr ⟨t.active, List.mem_cons_self, rfl, .refl _ _⟩
    · rcases List.mem_append.mp hmem with hold | hnew
      · exact Or.inr ⟨f, List.mem_cons_of_mem _ hold, rfl, .refl _ _⟩
      · rw [List.mem_singleton.mp hnew]
        exact Or.inl rfl
  reads := by
    intro m n hmn
    obtain ⟨e, he, hread⟩ := t.exists_entry_discontinuityAt m
    have hmono := h.discontinuityAt_mono hmn
    rw [discontinuityAt_eq _ n] at hmono
    rw [discontinuityAt_eq _ n, current, current_append_singleton]
    split_ifs
    · rw [hread]
      exact (hfresh e he).le
    · exact hmono

theorem rewound_activateWhile (p : Scheduled → Bool) (t : Timeline) :
    (t.rewound.activateWhile p).discontinuity = (t.activateWhile p).discontinuity ∧
      (t.rewound.activateWhile p).scheduled = (t.activateWhile p).scheduled := by
  have hactive : t.rewound.active.discontinuity = t.active.discontinuity := rfl
  exact ⟨popWhile_active_congr Scheduled.discontinuity p hactive t.scheduled,
    popWhile_rest p t.rewound.active t.active t.scheduled⟩

theorem Queued.activateWhile {t : Timeline} (h : t.Queued) (p : Scheduled → Bool) :
    (t.activateWhile p).Queued :=
  (Ordered.activateWhile p h).queued.congr (rewound_activateWhile p t).1.symm
    (rewound_activateWhile p t).2.symm

/-- What is left of the schedule after a promotion is still pending. -/
theorem Queued.lt_of_mem_promoted {t : Timeline} (h : t.Queued) {now : Nat} {s : Scheduled}
    (hs : s ∈ (t.activateWhile (fun c => c.timeNs ≤ now)).scheduled) : now < s.timeNs := by
  rw [← (rewound_activateWhile (fun c => c.timeNs ≤ now) t).2] at hs
  exact TimedQueue.Ordered.lt_of_mem_popWhile_due h hs

/-- The entries before the new active one have been passed. -/
theorem Queued.retains_activateWhile {t : Timeline} (h : t.Queued) (p : Scheduled → Bool) :
    Retains t (t.activateWhile p) := by
  have hids := ((queued_iff t).mp h).1
  have hstrict := h.entries_pairwise
  obtain ⟨passed, hpassed⟩ := popWhile_suffix p t.active t.scheduled
  have hsplit : t.entries = passed ++ (t.activateWhile p).active :: (t.activateWhile p).scheduled :=
    hpassed.symm
  rw [hsplit] at hstrict
  have hreached : ∀ e ∈ t.entries, e ∈ (t.activateWhile p).scheduled ∨
      e.discontinuity ≤ (t.activateWhile p).discontinuity := by
    intro e he
    rw [hsplit, List.mem_append, List.mem_cons] at he
    rcases he with hbefore | rfl | hkept
    · exact Or.inr ((List.pairwise_append.mp hstrict).2.2 e hbefore _ List.mem_cons_self).le
    · exact Or.inr le_rfl
    · exact Or.inl hkept
  refine ⟨?_, fun s hs => hreached s (List.mem_cons_of_mem _ hs)⟩
  rcases popWhile_active p t.active t.scheduled with hsame | ⟨hmem, -⟩
  · exact (congrArg Scheduled.discontinuity hsame).ge
  · exact (hids _ hmem).2.le

theorem Queued.evolves_promoted {t : Timeline} (h : t.Queued) (now : Nat) :
    Evolves t (t.activateWhile (fun c => c.timeNs ≤ now)) none where
  kind := rfl
  retains := h.retains_activateWhile _
  fresh := by simp
  carried := by
    intro f hf
    exact Or.inr ⟨f, (popWhile_suffix (fun c : Scheduled => decide (c.timeNs ≤ now)) t.active
      t.scheduled).subset hf, rfl, .refl _ _⟩
  reads := by
    intro m n hmn
    rw [← t.discontinuityAt_rewound m]
    have hpromoted : (t.activateWhile (fun c => c.timeNs ≤ now)).discontinuityAt n =
        (t.rewound.activateWhile (fun c => c.timeNs ≤ now)).discontinuityAt n :=
      discontinuityAt_congr (rewound_activateWhile _ t).1.symm (rewound_activateWhile _ t).2.symm n
    rw [hpromoted, discontinuityAt_eq, discontinuityAt_eq]
    exact TimedQueue.Ordered.current_le_popWhile_due now hmn h

/-- `u` is the past of `t`: what `u` had scheduled is still there or passed, an id
that both have names one trajectory, and readers see no lower id in `t`. -/
structure Past (u t : Timeline) : Prop where
  kind : t.sourceKind = u.sourceKind
  retains : Retains u t
  names : ∀ e ∈ u.entries, ∀ f ∈ t.entries, e.discontinuity = f.discontinuity →
    SameTrajectory u.sourceKind e f
  reads : ∀ m n, m ≤ n → u.discontinuityAt m ≤ t.discontinuityAt n

theorem Past.refl {t : Timeline} (h : t.Queued) : Past t t where
  kind := rfl
  retains := .refl t
  names := by
    intro e he f hf hid
    have hnodup : (t.entries.map Scheduled.discontinuity).Nodup :=
      List.pairwise_map.mpr (h.entries_pairwise.imp (fun hlt => hlt.ne))
    rw [List.inj_on_of_nodup_map hnodup he hf hid]
    exact .refl _ _
  reads := fun m n hmn => h.discontinuityAt_mono hmn

/-- One more step: what it introduces lies above everything in the past. -/
theorem Past.evolves {u t v : Timeline} (h : Past u t) {introduced : Option Nat}
    (hstep : Evolves t v introduced) : Past u v where
  kind := hstep.kind.trans h.kind
  retains := h.retains.trans hstep.retains
  names := by
    intro e he g hg hid
    rcases hstep.carried g hg with hnew | ⟨f, hf, hfg, hsame⟩
    · obtain ⟨f, hf, hef⟩ := h.retains.exists_ge he
      have hlt := hstep.fresh _ hnew f hf
      omega
    · rw [h.kind] at hsame
      exact (h.names e he f hf (hid.trans hfg.symm)).trans hsame
  reads := fun m n hmn => (h.reads m n hmn).trans (hstep.reads n n le_rfl)

theorem Queued.lt_succ_newestId {t : Timeline} (h : t.Queued) :
    ∀ e ∈ t.entries, e.discontinuity < t.newestId + 1 :=
  fun _ he => Nat.lt_succ_of_le (h.le_newestId he)

/-- The entry appended by a control keeps the schedule ordered. -/
theorem Queued.append {t : Timeline} (h : t.Queued) {s : Scheduled} (hpos : 0 < s.timeNs)
    (hlast : ∀ e ∈ t.scheduled.getLast?, e.timeNs < s.timeNs)
    (hfresh : ∀ e ∈ t.entries, e.discontinuity < s.discontinuity) :
    Queued { t with scheduled := t.scheduled ++ [s] } := by
  obtain ⟨hids, hpairwise⟩ := (queued_iff t).mp h
  have htime : ∀ e ∈ t.scheduled, e.timeNs < s.timeNs := by
    rcases List.eq_nil_or_concat t.scheduled with hnil | ⟨front, last, heq⟩
    · simp [hnil]
    · rw [List.concat_eq_append] at heq
      have hbound := hlast last (by simp [heq])
      rw [heq, List.pairwise_append] at hpairwise
      intro e he
      rw [heq, List.mem_append, List.mem_singleton] at he
      rcases he with hfront | rfl
      · exact (hpairwise.2.2 e hfront last (by simp)).1.trans hbound
      · exact hbound
  refine (queued_iff _).mpr ⟨fun e he => ?_, ?_⟩
  · rcases List.mem_append.mp he with hold | hnew
    · exact hids e hold
    · rw [List.mem_singleton.mp hnew]
      exact ⟨hpos, hfresh t.active List.mem_cons_self⟩
  · refine List.pairwise_append.mpr ⟨hpairwise, List.pairwise_singleton _ _, ?_⟩
    intro e he f hf
    rw [List.mem_singleton.mp hf]
    exact ⟨htime e he, hfresh e (List.mem_cons_of_mem _ he)⟩

end Timeline

open Timeline

/-- A control introduces the id after the highest one in use. -/
theorem ChangeOutcome.evolves {t u : Timeline} {now : Nat} (hchange : ChangeOutcome t now u)
    (h : t.Queued) : u.Queued ∧ Evolves t u (some u.newestId) := by
  cases hchange with
  | scheduled anchor hlater htime hroom hlast =>
      have hfresh := h.lt_succ_newestId
      rw [← h.nextDiscontinuity_eq anchor.timeNs] at hfresh
      have hnewest : newestId { t with
          scheduled := t.scheduled ++ [⟨t.nextDiscontinuity anchor.timeNs, anchor⟩] } =
          t.nextDiscontinuity anchor.timeNs := by
        simp [newestId]
      rw [hnewest]
      exact ⟨h.append (Nat.zero_lt_of_lt hlater) hlast hfresh, h.evolves_scheduled _ hfresh⟩
  | replaced anchor hdue htime =>
      have hfresh := h.lt_succ_newestId
      rw [← h.nextDiscontinuity_eq anchor.timeNs] at hfresh
      exact ⟨queued_of_nil rfl, evolves_replaced rfl rfl hfresh⟩

namespace LeaderPass

/-- The id that a command introduces, read off the timeline after it. -/
def introduced (s : LeaderPass) : Nat × Command → Option Nat
  | (now, .change change effective) =>
      match changeTimeline s.job.timeline change effective now with
      | .ok t => some t.newestId
      | .error _ => none
  | (now, .sample sample) =>
      if s.job.tracker.startsTrajectory s.job.timeline sample now then
        some (s.job.tracker.sample s.job.timeline sample now).1.2.newestId
      else none
  | _ => none

/-- A sample starts a trajectory only when no change is scheduled. -/
def KeepsReserved (s : LeaderPass) : Nat × Command → Prop
  | (now, .sample sample) =>
      s.job.tracker.startsTrajectory s.job.timeline sample now = true →
        s.job.timeline.scheduled = []
  | _ => True

instance (s : LeaderPass) (c : Nat × Command) : Decidable (s.KeepsReserved c) :=
  match c with
  | (_, .sessionId _) => inferInstanceAs (Decidable True)
  | (_, .reader) => inferInstanceAs (Decidable True)
  | (_, .change _ _) => inferInstanceAs (Decidable True)
  | (_, .sample _) => inferInstanceAs (Decidable (_ → _))
  | (_, .reconnect) => inferInstanceAs (Decidable True)

/-- Samples keep the schedule or drop it, so its order survives in any case. -/
theorem command_queued {s : LeaderPass} (h : s.job.timeline.Queued) (c : Nat × Command) :
    (s.command c).1.job.timeline.Queued := by
  obtain ⟨now, c⟩ := c
  have houtcome := s.command_outcome now c
  generalize s.command (now, c) = result at houtcome ⊢
  cases houtcome with
  | ignored => exact h
  | identified => exact h.congr rfl rfl
  | refused => exact h
  | controlled _ _ t hchange => exact (hchange.evolves h).1
  | sampled _ _ t _ hsample =>
      cases hsample with
      | changed => exact queued_of_nil rfl
      | refined => exact h.congr rfl rfl
  | unsampled => exact h

theorem command_evolves {s : LeaderPass} (h : s.job.timeline.Queued) {c : Nat × Command}
    (hkeeps : s.KeepsReserved c) :
    Evolves s.job.timeline (s.command c).1.job.timeline (s.introduced c) := by
  obtain ⟨now, c⟩ := c
  have hsame : Evolves s.job.timeline s.job.timeline none := h.evolves_same rfl rfl rfl (.refl _ _)
  cases c with
  | reader => exact hsame
  | reconnect => exact hsame
  | sessionId id => exact h.evolves_same rfl rfl rfl (.refl _ _)
  | change change effective =>
      simp only [command, introduced]
      cases hchange : changeTimeline s.job.timeline change effective now with
      | ok t => exact ((changeTimeline_outcome hchange).evolves h).2
      | error e => exact hsame
  | sample sample =>
      have hstarts := s.job.tracker.sample_eq_true_iff s.job.timeline sample now
      have houtcome := s.job.tracker.sample_outcome s.job.timeline sample now
      simp only [command, introduced, ← hstarts]
      simp only [KeepsReserved, ← hstarts] at hkeeps
      generalize s.job.tracker.sample s.job.timeline sample now = result at houtcome hkeeps ⊢
      cases houtcome with
      | failed => exact hsame
      | changed htracked htime next hlast rate =>
          have hnil : s.job.timeline.scheduled = [] := hkeeps rfl
          refine evolves_replaced rfl rfl ?_
          intro e he
          rw [entries, hnil, List.mem_singleton] at he
          rw [he]
          exact Nat.lt_succ_self _
      | refined htracked htime next hlast position =>
          refine h.evolves_same rfl rfl rfl ⟨rfl, ?_⟩
          intro hgenerated
          rw [hgenerated] at htracked
          exact absurd htracked (by decide)

/-- Without the condition the id a sample introduces is already reserved. -/
theorem exists_reserved_of_not_keepsReserved {s : LeaderPass} (h : s.job.timeline.Queued)
    {c : Nat × Command} (hkeeps : ¬ s.KeepsReserved c) :
    ∃ d, s.introduced c = some d ∧ ∃ e ∈ s.job.timeline.entries, d ≤ e.discontinuity := by
  obtain ⟨now, c⟩ := c
  cases c with
  | sample sample =>
      have hstarts := s.job.tracker.sample_eq_true_iff s.job.timeline sample now
      have houtcome := s.job.tracker.sample_outcome s.job.timeline sample now
      simp only [KeepsReserved, ← hstarts, Classical.not_imp] at hkeeps
      simp only [introduced, ← hstarts]
      generalize s.job.tracker.sample s.job.timeline sample now = result at houtcome hkeeps ⊢
      obtain ⟨htrue, hscheduled⟩ := hkeeps
      cases houtcome with
      | failed => exact absurd htrue (by simp)
      | refined => exact absurd htrue (by simp)
      | changed =>
          obtain ⟨e, rest, hcons⟩ := List.exists_cons_of_ne_nil hscheduled
          have he : e ∈ s.job.timeline.scheduled := by simp [hcons]
          exact ⟨_, if_pos rfl, e, List.mem_cons_of_mem _ he, (((queued_iff _).mp h).1 e he).2⟩
  | _ => exact absurd trivial hkeeps

/-- The end of a pass introduces nothing. -/
theorem finish_evolves {s : LeaderPass} (h : s.job.timeline.Queued) {r : PassEnd}
    {job : LeaderJob} {published : Bool} (hfinish : s.finish r = .ok (job, published)) :
    job.timeline.Queued ∧ Evolves s.job.timeline job.timeline none := by
  have hpromoted := h.activateWhile (fun c => c.timeNs ≤ r.now)
  obtain ⟨health, hhealth⟩ := (s.promote r.now).checkHealth_timeline r.now
  have hclosed : ∀ revision, Queued { (s.promote r.now).job.timeline with
        sourceHealth := health, revision := revision } ∧
      Evolves s.job.timeline { (s.promote r.now).job.timeline with
        sourceHealth := health, revision := revision } none := by
    intro revision
    exact ⟨hpromoted.congr rfl rfl,
      (h.evolves_promoted r.now).trans (hpromoted.evolves_same rfl rfl rfl (.refl _ _))⟩
  have houtcome := s.finish_outcome r
  rw [hfinish] at houtcome
  cases houtcome with
  | quiet =>
      rw [hhealth]
      exact hclosed _
  | published bytes t ht =>
      rw [ht, hhealth]
      exact hclosed _

end LeaderPass

end Tidkod
