import Mathlib.Tactic
import Tidkod.Protocol.Validity

/-!
The message values of the protobuf schema, their validation (`lib.rs`) and the
two conversions of `timeline.rs`. An `unwrap` in the source is an explicit
panic here, so that its absence is something to prove. `fromWire` accepts
exactly the well-formed messages, and what it returns writes back the message
with every rate in lowest terms.
-/

namespace Tidkod

open TimedQueue

namespace Wire

structure FrameFormat where
  numerator : Nat
  denominator : Nat
  dropFrame : Bool
  deriving DecidableEq

/-- `sint64 frames` and `fixed32 subframe`, within their types. -/
@[ext]
structure Position where
  frames : Int
  subframe : Nat
  frames_mem : i64Min ≤ frames ∧ frames ≤ i64Max
  subframe_lt : subframe < 2 ^ 32

instance : DecidableEq Position := fun _ _ => decidable_of_iff _ Position.ext_iff.symm

structure Rate where
  numerator : Int
  denominator : Nat
  deriving DecidableEq

structure Anchor where
  timeNs : Nat
  position : Option Position
  rate : Option Rate
  deriving DecidableEq

structure ScheduledChange where
  discontinuity : Nat
  anchor : Option Anchor
  deriving DecidableEq

structure Snapshot where
  version : Nat
  session : List UInt8
  revision : Nat
  discontinuity : Nat
  sourceKind : Int
  sourceHealth : Int
  format : Option FrameFormat
  anchor : Option Anchor
  scheduled : List ScheduledChange
  sessionId : List UInt8
  deriving DecidableEq

end Wire

/-- `VERSION`. -/
def version : Nat := 1

/-- `MAX_SCHEDULED`. -/
def maxScheduled : Nat := 4

/-- `if condition { return Err(e) }`. -/
def reject (condition : Prop) [Decidable condition] (e : Error) : Except Error Unit :=
  if condition then .error e else .ok ()

/-- `Option::ok_or`. -/
def okOr {α : Type} (o : Option α) (e : Error) : Except Error α :=
  match o with
  | some a => .ok a
  | none => .error e

def validateAnchor (a : Wire.Anchor) : Except Error Unit := do
  reject (i64Max < a.timeNs) (.invalid "timestamp")
  let _ ← okOr a.position (.invalid "position missing")
  let r ← okOr a.rate (.invalid "rate missing")
  let _ ← Rate.new r.numerator r.denominator
  pure ()

/-- The loop over the schedule, with the time and the id to exceed. -/
def validateSchedule (time disc : Nat) : List Wire.ScheduledChange → Except Error Unit
  | [] => pure ()
  | c :: rest => do
      let a ← okOr c.anchor (.invalid "scheduled anchor missing")
      validateAnchor a
      reject (a.timeNs ≤ time ∨ c.discontinuity ≤ disc) (.invalid "schedule order")
      validateSchedule a.timeNs c.discontinuity rest

def validateSnapshot (s : Wire.Snapshot) : Except Error Unit := do
  reject (s.version ≠ version) (.version s.version)
  reject (s.session.length ≠ 16 ∨ s.revision = 0) (.invalid "identity/revision")
  reject (s.sessionId ≠ [] ∧ s.sessionId.length ≠ 16) (.invalid "recording session ID")
  reject (¬ (s.sourceKind = 1 ∨ s.sourceKind = 2) ∨ ¬ (s.sourceHealth = 1 ∨ s.sourceHealth = 2))
    (.invalid "source enum")
  let f ← okOr s.format (.invalid "format missing")
  let _ ← FrameFormat.new f.numerator f.denominator f.dropFrame
  let a ← okOr s.anchor (.invalid "anchor missing")
  validateAnchor a
  reject (maxScheduled < s.scheduled.length) (.invalid "schedule capacity")
  validateSchedule a.timeNs s.discontinuity s.scheduled

/-- How a conversion can fail: an error it returns, or a panic. -/
inductive Fault where
  | error (e : Error)
  | panic
  deriving DecidableEq, Repr

/-- `Option::unwrap`. -/
def unwrap {α : Type} (o : Option α) : Except Fault α :=
  match o with
  | some a => .ok a
  | none => .error .panic

/-- The `?` operator inside a conversion. -/
def propagate {α : Type} (r : Except Error α) : Except Fault α :=
  match r with
  | .ok a => .ok a
  | .error e => .error (.error e)

/-- `<[u8; 16]>::try_from` of a slice. -/
def toBytes16 (bytes : List UInt8) : Option Bytes16 :=
  if h : bytes.length = 16 then some ⟨bytes, h⟩ else none

def Anchor.wire (a : Anchor) : Wire.Anchor where
  timeNs := a.timeNs
  position := some ⟨a.position.frames, a.position.subframe, a.position.frames_mem,
    a.position.subframe_lt⟩
  rate := some ⟨a.rate.numerator, a.rate.denominator⟩

def Anchor.fromWire (a : Wire.Anchor) : Except Error Anchor := do
  let p ← okOr a.position (.invalid "position")
  let r ← okOr a.rate (.invalid "rate")
  let rate ← Rate.new r.numerator r.denominator
  pure
    { timeNs := a.timeNs
      position := ⟨p.frames, p.subframe, p.frames_mem, p.subframe_lt⟩
      rate := rate }

def SourceKind.wire : SourceKind → Int
  | .generated => 1
  | .tracked => 2

def SourceHealth.wire : SourceHealth → Int
  | .healthy => 1
  | .degraded => 2

def Scheduled.wire (s : Scheduled) : Wire.ScheduledChange := ⟨s.discontinuity, some s.anchor.wire⟩

def Scheduled.fromWire (c : Wire.ScheduledChange) : Except Fault Scheduled := do
  let a ← unwrap c.anchor
  let anchor ← propagate (Anchor.fromWire a)
  pure ⟨c.discontinuity, anchor⟩

namespace Timeline

def wire (t : Timeline) : Wire.Snapshot where
  version := 1
  session := t.session.toList
  sessionId := t.sessionId.elim [] List.Vector.toList
  revision := t.revision
  discontinuity := t.discontinuity
  sourceKind := t.sourceKind.wire
  sourceHealth := t.sourceHealth.wire
  format := some ⟨t.format.numerator, t.format.denominator, t.format.dropFrame⟩
  anchor := some t.anchor.wire
  scheduled := t.scheduled.map Scheduled.wire

/-- The array of the source has four places: a longer schedule would lose its
tail in the `zip`. -/
def fromWire (s : Wire.Snapshot) : Except Fault Timeline := do
  propagate (validateSnapshot s)
  let f ← unwrap s.format
  let session ← unwrap (toBytes16 s.session)
  let format ← propagate (FrameFormat.new f.numerator f.denominator f.dropFrame)
  let a ← unwrap s.anchor
  let anchor ← propagate (Anchor.fromWire a)
  let scheduled ← (s.scheduled.take maxScheduled).mapM Scheduled.fromWire
  pure
    { session := session
      sessionId := toBytes16 s.sessionId
      revision := s.revision
      discontinuity := s.discontinuity
      format := format
      anchor := anchor
      sourceKind := if s.sourceKind = 1 then .generated else .tracked
      sourceHealth := if s.sourceHealth = 1 then .healthy else .degraded
      scheduled := scheduled }

end Timeline

namespace Wire

/-- An anchor with all its parts, a supported time and an admitted rate. -/
def Anchor.Complete (a : Anchor) : Prop :=
  a.timeNs ≤ i64Max ∧ (∃ p, a.position = some p) ∧
    ∃ r, a.rate = some r ∧ AdmittedRate r.numerator r.denominator

/-- The time at which a scheduled change takes effect. -/
def ScheduledChange.timeNs (c : ScheduledChange) : Nat := (c.anchor.map Anchor.timeNs).getD 0

/-- The messages that describe a timeline. -/
structure Snapshot.WellFormed (s : Snapshot) : Prop where
  version_eq : s.version = 1
  session_length : s.session.length = 16
  revision_pos : 0 < s.revision
  sessionId_length : s.sessionId.length = 0 ∨ s.sessionId.length = 16
  sourceKind_mem : s.sourceKind = 1 ∨ s.sourceKind = 2
  sourceHealth_mem : s.sourceHealth = 1 ∨ s.sourceHealth = 2
  format_supported : ∃ f, s.format = some f ∧
    SupportedFormat f.numerator f.denominator f.dropFrame
  anchor_complete : ∃ a, s.anchor = some a ∧ a.Complete
  scheduled_complete : ∀ c ∈ s.scheduled, ∃ a, c.anchor = some a ∧ a.Complete
  capacity : s.scheduled.length ≤ 4
  ordered : Ordered ScheduledChange.timeNs ScheduledChange.discontinuity
    ⟨s.discontinuity, s.anchor⟩ s.scheduled

/-- A rate divided by the greatest common divisor of its parts. -/
def Rate.lowestTerms (r : Rate) : Rate where
  numerator := r.numerator / (Nat.gcd r.numerator.natAbs r.denominator : Nat)
  denominator := r.denominator / Nat.gcd r.numerator.natAbs r.denominator

def Anchor.lowestTerms (a : Anchor) : Anchor := { a with rate := a.rate.map Rate.lowestTerms }

def ScheduledChange.lowestTerms (c : ScheduledChange) : ScheduledChange :=
  { c with anchor := c.anchor.map Anchor.lowestTerms }

/-- The message with every rate in lowest terms. -/
def Snapshot.lowestTerms (s : Snapshot) : Snapshot :=
  { s with
    anchor := s.anchor.map Anchor.lowestTerms
    scheduled := s.scheduled.map ScheduledChange.lowestTerms }

end Wire

section Checks

variable {α β : Type}

theorem bind_eq_ok {ε : Type} {x : Except ε α} {f : α → Except ε β} {b : β} :
    (x >>= f) = .ok b ↔ ∃ a, x = .ok a ∧ f a = .ok b := by
  cases x with
  | error e => simp [bind, Except.bind]
  | ok a => simp [bind, Except.bind]

@[simp] theorem reject_eq_ok {condition : Prop} [Decidable condition] {e : Error} {u : Unit} :
    reject condition e = .ok u ↔ ¬ condition := by
  unfold reject
  by_cases h : condition <;> simp [h]

@[simp] theorem okOr_eq_ok {o : Option α} {e : Error} {a : α} :
    okOr o e = .ok a ↔ o = some a := by
  cases o <;> simp [okOr]

end Checks

theorem validateAnchor_ok_iff (a : Wire.Anchor) : validateAnchor a = .ok () ↔ a.Complete := by
  have hrate (r : Wire.Rate) : (∃ x, Rate.new r.numerator r.denominator = .ok x) ↔
      AdmittedRate r.numerator r.denominator := Rate.new_ok_iff _ _
  simp only [validateAnchor, bind_eq_ok, reject_eq_ok, okOr_eq_ok, not_lt, pure, Except.pure,
    and_true, hrate, Wire.Anchor.Complete]
  constructor
  · rintro ⟨-, htime, p, hp, r, hr, hadmitted⟩
    exact ⟨htime, ⟨p, hp⟩, r, hr, hadmitted⟩
  · rintro ⟨htime, ⟨p, hp⟩, r, hr, hadmitted⟩
    exact ⟨(), htime, p, hp, r, hr, hadmitted⟩

/-- The moving bound of the loop checks exactly the order of the queue. -/
theorem validateSchedule_ok_iff (a : Wire.Anchor) (disc : Nat) (cs : List Wire.ScheduledChange) :
    validateSchedule a.timeNs disc cs = .ok () ↔
      (∀ c ∈ cs, ∃ b, c.anchor = some b ∧ b.Complete) ∧
        Ordered Wire.ScheduledChange.timeNs Wire.ScheduledChange.discontinuity
          ⟨disc, some a⟩ cs := by
  induction cs generalizing a disc with
  | nil => simp [validateSchedule, pure, Except.pure, Ordered]
  | cons c rest ih =>
      simp only [validateSchedule, bind_eq_ok, okOr_eq_ok, reject_eq_ok, List.forall_mem_cons]
      constructor
      · rintro ⟨b, hb, _, hchecked, _, hafter, hrest⟩
        have hcomplete := (validateAnchor_ok_iff b).mp hchecked
        obtain ⟨hall, hordered⟩ := (ih b c.discontinuity).mp hrest
        have hc : c = ⟨c.discontinuity, some b⟩ := by rw [← hb]
        rw [← hc] at hordered
        refine ⟨⟨⟨b, hb, hcomplete⟩, hall⟩, ?_⟩
        refine Ordered.cons ?_ hordered
        simp only [Wire.ScheduledChange.timeNs, hb, Option.map_some, Option.getD_some]
        omega
      · rintro ⟨⟨⟨b, hb, hcomplete⟩, hall⟩, hordered⟩
        have hc : c = ⟨c.discontinuity, some b⟩ := by rw [← hb]
        have hlt := hordered.head_lt List.mem_cons_self
        simp only [Wire.ScheduledChange.timeNs, hb, Option.map_some, Option.getD_some] at hlt
        refine ⟨b, hb, (), (validateAnchor_ok_iff b).mpr hcomplete, (), by omega, ?_⟩
        refine (ih b c.discontinuity).mpr ⟨hall, ?_⟩
        rw [← hc]
        exact hordered.tail

theorem validateSnapshot_ok_iff (s : Wire.Snapshot) :
    validateSnapshot s = .ok () ↔ s.WellFormed := by
  have hformat (f : Wire.FrameFormat) :
      (∃ x, FrameFormat.new f.numerator f.denominator f.dropFrame = .ok x) ↔
        SupportedFormat f.numerator f.denominator f.dropFrame := FrameFormat.new_ok_iff _ _ _
  have hid : ¬ (s.sessionId ≠ [] ∧ s.sessionId.length ≠ 16) ↔
      (s.sessionId.length = 0 ∨ s.sessionId.length = 16) := by
    rw [List.length_eq_zero_iff]
    tauto
  simp only [validateSnapshot, bind_eq_ok, reject_eq_ok, okOr_eq_ok, hid]
  constructor
  · rintro ⟨_, hversion, _, hidentity, _, hsessionId, _, henum, f, hf, x, hx, a, ha, _, hchecked, _,
      hcapacity, hschedule⟩
    have hanchor := (validateAnchor_ok_iff a).mp hchecked
    obtain ⟨hall, hordered⟩ := (validateSchedule_ok_iff a _ _).mp hschedule
    obtain ⟨hlength, hrevision⟩ := not_or.mp hidentity
    obtain ⟨hkind, hhealth⟩ := not_or.mp henum
    exact
      { version_eq := not_not.mp hversion
        session_length := not_not.mp hlength
        revision_pos := Nat.pos_of_ne_zero hrevision
        sessionId_length := hsessionId
        sourceKind_mem := not_not.mp hkind
        sourceHealth_mem := not_not.mp hhealth
        format_supported := ⟨f, hf, (hformat f).mp ⟨x, hx⟩⟩
        anchor_complete := ⟨a, ha, hanchor⟩
        scheduled_complete := hall
        capacity := not_lt.mp hcapacity
        ordered := by rw [ha]; exact hordered }
  · intro h
    obtain ⟨f, hf, hsupported⟩ := h.format_supported
    obtain ⟨x, hx⟩ := (hformat f).mpr hsupported
    obtain ⟨a, ha, hcomplete⟩ := h.anchor_complete
    have hordered := h.ordered
    rw [ha] at hordered
    refine ⟨(), by simp [h.version_eq, version], (),
      by simp [h.session_length, h.revision_pos.ne'], (), h.sessionId_length, (),
      by simp [h.sourceKind_mem, h.sourceHealth_mem], f, hf, x, hx, a, ha, (),
      (validateAnchor_ok_iff a).mpr hcomplete, (), not_lt.mpr h.capacity, ?_⟩
    exact (validateSchedule_ok_iff a _ _).mpr ⟨h.scheduled_complete, hordered⟩

section Conversion

variable {α β : Type}

@[simp] theorem unwrap_some (a : α) : unwrap (some a) = .ok a := rfl

@[simp] theorem propagate_ok (a : α) : propagate (.ok a : Except Error α) = .ok a := rfl

@[simp] theorem ok_bind {ε : Type} (a : α) (f : α → Except ε β) :
    ((.ok a : Except ε α) >>= f) = f a := rfl

end Conversion

/-- Normalising a rate divides both parts by their greatest common divisor. -/
theorem Rate.new_lowestTerms {r : Wire.Rate} (h : AdmittedRate r.numerator r.denominator) :
    ∃ rate, Rate.new r.numerator r.denominator = .ok rate ∧
      (⟨rate.numerator, rate.denominator⟩ : Wire.Rate) = r.lowestTerms := by
  refine ⟨_, by rw [Rate.new, dif_pos h], ?_⟩
  have hdvd : ((Nat.gcd r.numerator.natAbs r.denominator : Nat) : Int) ∣ r.numerator :=
    Int.natCast_dvd.mpr (Nat.gcd_dvd_left _ _)
  simp only [Wire.Rate.lowestTerms, euclid_eq_gcd, Int.tdiv_eq_ediv_of_dvd hdvd]

theorem Anchor.fromWire_complete {a : Wire.Anchor} (h : a.Complete) :
    ∃ b, Anchor.fromWire a = .ok b ∧ b.wire = a.lowestTerms := by
  obtain ⟨time, position, rate⟩ := a
  obtain ⟨-, ⟨p, hp⟩, r, hr, hadmitted⟩ := h
  obtain rfl : position = some p := hp
  obtain rfl : rate = some r := hr
  obtain ⟨x, hx, hlowest⟩ := Rate.new_lowestTerms hadmitted
  refine ⟨⟨time, ⟨p.frames, p.subframe, p.frames_mem, p.subframe_lt⟩, x⟩, ?_, ?_⟩
  · simp only [Anchor.fromWire, okOr, ok_bind, hx]
    rfl
  · simp only [Anchor.wire, Wire.Anchor.lowestTerms, Option.map_some, hlowest]

theorem Scheduled.mapM_fromWire {cs : List Wire.ScheduledChange}
    (h : ∀ c ∈ cs, ∃ a, c.anchor = some a ∧ a.Complete) :
    ∃ ss, cs.mapM Scheduled.fromWire = .ok ss ∧
      ss.map Scheduled.wire = cs.map Wire.ScheduledChange.lowestTerms := by
  induction cs with
  | nil => exact ⟨[], rfl, rfl⟩
  | cons c rest ih =>
      obtain ⟨a, ha, hcomplete⟩ := h c List.mem_cons_self
      obtain ⟨b, hb, hwire⟩ := Anchor.fromWire_complete hcomplete
      obtain ⟨ss, hss, hrest⟩ := ih (fun d hd => h d (List.mem_cons_of_mem c hd))
      refine ⟨⟨c.discontinuity, b⟩ :: ss, ?_, ?_⟩
      · simp only [List.mapM_cons, Scheduled.fromWire, ha, hb, unwrap_some, propagate_ok, ok_bind,
          hss, pure, Except.pure]
      · rw [List.map_cons, List.map_cons, hrest]
        simp only [Scheduled.wire, Wire.ScheduledChange.lowestTerms, ha, Option.map_some, hwire]

theorem toBytes16_toList (b : Bytes16) : toBytes16 b.toList = some b := by
  obtain ⟨bytes, h⟩ := b
  simp [toBytes16, List.Vector.toList, h]

/-- Nothing but sixteen bytes converts, and those convert back unchanged. -/
theorem toBytes16_elim {bytes : List UInt8} (h : bytes.length = 0 ∨ bytes.length = 16) :
    (toBytes16 bytes).elim [] List.Vector.toList = bytes := by
  rcases h with hzero | hfull
  · obtain rfl := List.length_eq_zero_iff.mp hzero
    rfl
  · have hsome : toBytes16 bytes = some ⟨bytes, hfull⟩ := dif_pos hfull
    rw [hsome]
    rfl

namespace Wire

theorem Anchor.Complete.lowestTerms {a : Anchor} (h : a.Complete) : a.lowestTerms.Complete := by
  obtain ⟨htime, ⟨p, hp⟩, r, hr, hadmitted⟩ := h
  obtain ⟨x, -, hlowest⟩ := Rate.new_lowestTerms hadmitted
  refine ⟨htime, ⟨p, hp⟩, r.lowestTerms, by simp [Anchor.lowestTerms, hr], ?_⟩
  rw [← hlowest]
  exact x.admitted

/-- Reducing the rates keeps a message well formed. -/
theorem Snapshot.WellFormed.lowestTerms {s : Snapshot} (h : s.WellFormed) :
    s.lowestTerms.WellFormed where
  version_eq := h.version_eq
  session_length := h.session_length
  revision_pos := h.revision_pos
  sessionId_length := h.sessionId_length
  sourceKind_mem := h.sourceKind_mem
  sourceHealth_mem := h.sourceHealth_mem
  format_supported := h.format_supported
  anchor_complete := by
    obtain ⟨a, ha, hcomplete⟩ := h.anchor_complete
    exact ⟨a.lowestTerms, by simp [Snapshot.lowestTerms, ha], hcomplete.lowestTerms⟩
  scheduled_complete := by
    intro c hc
    obtain ⟨b, hb, rfl⟩ := List.mem_map.mp hc
    obtain ⟨a, ha, hcomplete⟩ := h.scheduled_complete b hb
    exact ⟨a.lowestTerms, by simp [ScheduledChange.lowestTerms, ha], hcomplete.lowestTerms⟩
  capacity := by simpa [Snapshot.lowestTerms] using h.capacity
  ordered := by
    have htime (c : ScheduledChange) : c.lowestTerms.timeNs = c.timeNs := by
      obtain ⟨d, anchor⟩ := c
      cases anchor <;> rfl
    exact (ordered_map_iff ScheduledChange.lowestTerms ⟨s.discontinuity, s.anchor⟩ s.scheduled
      htime (fun _ => rfl)).mpr h.ordered

end Wire

namespace Timeline

/-- A well-formed message converts, and writes back with reduced rates. -/
theorem fromWire_of_wellFormed {s : Wire.Snapshot} (h : s.WellFormed) :
    ∃ t, fromWire s = .ok t ∧ t.wire = s.lowestTerms := by
  obtain ⟨f, hf, hsupported⟩ := h.format_supported
  obtain ⟨a, ha, hcomplete⟩ := h.anchor_complete
  obtain ⟨anchor, hanchor, hanchorWire⟩ := Anchor.fromWire_complete hcomplete
  obtain ⟨scheduled, hscheduled, hscheduledWire⟩ := Scheduled.mapM_fromWire h.scheduled_complete
  have hformat : FrameFormat.new f.numerator f.denominator f.dropFrame =
      .ok ⟨_, _, _, hsupported⟩ :=
    dif_pos hsupported
  have hsession : toBytes16 s.session = some ⟨s.session, h.session_length⟩ :=
    dif_pos h.session_length
  have hall : s.scheduled.take maxScheduled = s.scheduled := List.take_of_length_le h.capacity
  refine ⟨{
      session := ⟨s.session, h.session_length⟩
      sessionId := toBytes16 s.sessionId
      revision := s.revision
      discontinuity := s.discontinuity
      format := ⟨f.numerator, f.denominator, f.dropFrame, hsupported⟩
      anchor := anchor
      sourceKind := if s.sourceKind = 1 then .generated else .tracked
      sourceHealth := if s.sourceHealth = 1 then .healthy else .degraded
      scheduled := scheduled }, ?_, ?_⟩
  · simp only [fromWire, (validateSnapshot_ok_iff s).mpr h, propagate_ok, ok_bind, hf, unwrap_some,
      hsession, hformat, ha, hanchor, hall, hscheduled]
    rfl
  · have hkind : (if s.sourceKind = 1 then SourceKind.generated else .tracked).wire =
        s.sourceKind := by
      rcases h.sourceKind_mem with hone | htwo
      · simp [hone, SourceKind.wire]
      · simp [htwo, SourceKind.wire]
    have hhealth : (if s.sourceHealth = 1 then SourceHealth.healthy else .degraded).wire =
        s.sourceHealth := by
      rcases h.sourceHealth_mem with hone | htwo
      · simp [hone, SourceHealth.wire]
      · simp [htwo, SourceHealth.wire]
    simp only [wire, Wire.Snapshot.lowestTerms, ha, Option.map_some, hanchorWire, hscheduledWire,
      hkind, hhealth, toBytes16_elim h.sessionId_length, h.version_eq, hf, List.Vector.toList]

theorem fromWire_of_not_wellFormed {s : Wire.Snapshot} (h : ¬ s.WellFormed) :
    ∃ e, fromWire s = .error (.error e) := by
  rcases hcheck : validateSnapshot s with e | u
  · refine ⟨e, ?_⟩
    simp only [fromWire, hcheck]
    rfl
  · exact absurd ((validateSnapshot_ok_iff s).mp hcheck) h

theorem anchor_wire_injective {a b : Anchor} (h : a.wire = b.wire) : a = b := by
  obtain ⟨ta, ⟨pf, ps, hpf, hps⟩, ⟨rn, rd, hadm, hred⟩⟩ := a
  obtain ⟨tb, ⟨qf, qs, hqf, hqs⟩, ⟨qn, qd, hadm', hred'⟩⟩ := b
  simp only [Anchor.wire, Wire.Anchor.mk.injEq, Option.some.injEq, Wire.Position.mk.injEq,
    Wire.Rate.mk.injEq] at h
  obtain ⟨rfl, ⟨rfl, rfl⟩, rfl, rfl⟩ := h
  rfl

theorem scheduled_wire_injective : Function.Injective Scheduled.wire := by
  intro a b h
  obtain ⟨da, aa⟩ := a
  obtain ⟨db, ab⟩ := b
  simp only [Scheduled.wire, Wire.ScheduledChange.mk.injEq, Option.some.injEq] at h
  obtain ⟨rfl, hanchor⟩ := h
  rw [anchor_wire_injective hanchor]

/-- Timelines are determined by their messages. -/
theorem wire_injective {t u : Timeline} (h : t.wire = u.wire) : t = u := by
  obtain ⟨session, sessionId, revision, disc, ⟨num, den, drop, hf⟩, anchor, kind, health,
    scheduled⟩ := t
  obtain ⟨session', sessionId', revision', disc', ⟨num', den', drop', hf'⟩, anchor', kind', health',
    scheduled'⟩ := u
  simp only [wire, Wire.Snapshot.mk.injEq, Option.some.injEq, Wire.FrameFormat.mk.injEq,
    true_and] at h
  obtain ⟨hsession, rfl, rfl, hkind, hhealth, ⟨rfl, rfl, rfl⟩, hanchor, hscheduled, hid⟩ := h
  have hkind' : kind = kind' := by
    cases kind <;> cases kind' <;> simp [SourceKind.wire] at hkind ⊢
  have hhealth' : health = health' := by
    cases health <;> cases health' <;> simp [SourceHealth.wire] at hhealth ⊢
  have hid' : sessionId = sessionId' := by
    have htoBytes (o : Option Bytes16) : toBytes16 (o.elim [] List.Vector.toList) = o := by
      cases o with
      | none => rfl
      | some b => exact toBytes16_toList b
    rw [← htoBytes sessionId, hid, htoBytes]
  rw [List.Vector.toList_injective hsession, anchor_wire_injective hanchor,
    (List.map_injective_iff.mpr scheduled_wire_injective) hscheduled, hkind', hhealth', hid']

theorem wire_lowestTerms (t : Timeline) : t.wire.lowestTerms = t.wire := by
  have hanchor (a : Anchor) : a.wire.lowestTerms = a.wire := by
    simp [Anchor.wire, Wire.Anchor.lowestTerms, Wire.Rate.lowestTerms, a.rate.reduced]
  have hscheduled (c : Scheduled) : c.wire.lowestTerms = c.wire := by
    simp [Scheduled.wire, Wire.ScheduledChange.lowestTerms, hanchor]
  simp [wire, Wire.Snapshot.lowestTerms, hanchor, hscheduled, Function.comp_def]

/-- Validation of a message written from a timeline looks at the order, the
capacity, the times and the revision only. -/
theorem wire_wellFormed_iff (t : Timeline) : t.wire.WellFormed ↔ t.Valid := by
  have hordered : TimedQueue.Ordered Wire.ScheduledChange.timeNs Wire.ScheduledChange.discontinuity
      ⟨t.wire.discontinuity, t.wire.anchor⟩ t.wire.scheduled ↔ t.Ordered :=
    TimedQueue.ordered_map_iff Scheduled.wire t.active t.scheduled
  have hcomplete (a : Anchor) : a.wire.Complete ↔ a.timeNs ≤ i64Max := by
    refine ⟨fun h => h.1, fun h => ⟨h, ⟨_, rfl⟩, _, rfl, a.rate.admitted⟩⟩
  constructor
  · intro h
    refine ⟨h.revision_pos, ?_, ?_, hordered.mp h.ordered⟩
    · intro s hs
      rcases List.mem_cons.mp hs with rfl | hs
      · obtain ⟨a, ha, hok⟩ := h.anchor_complete
        obtain rfl : t.anchor.wire = a := Option.some.inj ha
        exact (hcomplete _).mp hok
      · obtain ⟨a, ha, hok⟩ := h.scheduled_complete s.wire (List.mem_map_of_mem hs)
        obtain rfl : s.anchor.wire = a := Option.some.inj ha
        exact (hcomplete _).mp hok
    · have hcapacity := h.capacity
      rwa [wire, List.length_map] at hcapacity
  · intro h
    refine
      { version_eq := rfl
        session_length := t.session.toList_length
        revision_pos := h.revision_pos
        sessionId_length := ?_
        sourceKind_mem := ?_
        sourceHealth_mem := ?_
        format_supported := ⟨_, rfl, t.format.supported⟩
        anchor_complete := ⟨_, rfl, (hcomplete _).mpr (h.time_le t.active List.mem_cons_self)⟩
        scheduled_complete := ?_
        capacity := ?_
        ordered := hordered.mpr h.ordered }
    · simp only [wire]
      cases t.sessionId with
      | none => exact Or.inl rfl
      | some b => exact Or.inr b.toList_length
    · simp only [wire]
      cases t.sourceKind <;> simp [SourceKind.wire]
    · simp only [wire]
      cases t.sourceHealth <;> simp [SourceHealth.wire]
    · intro c hc
      obtain ⟨s, hs, rfl⟩ := List.mem_map.mp hc
      exact ⟨_, rfl, (hcomplete _).mpr (h.time_le s (List.mem_cons_of_mem _ hs))⟩
    · simp only [wire, List.length_map]
      exact h.capacity

/-- A timeline that passed validation survives the trip over the wire. -/
theorem fromWire_wire {t : Timeline} (h : t.Valid) : fromWire t.wire = .ok t := by
  obtain ⟨u, hu, hwire⟩ := fromWire_of_wellFormed (t.wire_wellFormed_iff.mpr h)
  rw [wire_lowestTerms] at hwire
  rw [hu, wire_injective hwire]

theorem fromWire_ok_iff (s : Wire.Snapshot) (t : Timeline) :
    fromWire s = .ok t ↔ s.WellFormed ∧ t.wire = s.lowestTerms := by
  constructor
  · intro h
    by_cases hwell : s.WellFormed
    · obtain ⟨u, hu, hwire⟩ := fromWire_of_wellFormed hwell
      obtain rfl : u = t := by
        rw [hu] at h
        exact Except.ok.inj h
      exact ⟨hwell, hwire⟩
    · obtain ⟨e, he⟩ := fromWire_of_not_wellFormed hwell
      rw [he] at h
      exact absurd h (by simp)
  · rintro ⟨hwell, hwire⟩
    obtain ⟨u, hu, hwire'⟩ := fromWire_of_wellFormed hwell
    rw [hu, wire_injective (hwire'.trans hwire.symm)]

/-- What is accepted is a valid timeline. -/
theorem fromWire_valid {s : Wire.Snapshot} {t : Timeline} (h : fromWire s = .ok t) : t.Valid := by
  obtain ⟨hwell, hwire⟩ := (fromWire_ok_iff s t).mp h
  rw [← wire_wellFormed_iff, hwire]
  exact hwell.lowestTerms

/-- Conversion accepts exactly the well-formed messages, returns an error on
all others and never panics; no entry is lost; and the two directions are
inverse to each other up to the reduction of rates. -/
theorem fromWire_exact :
    (∀ s : Wire.Snapshot,
      ((∃ t, fromWire s = .ok t) ↔ s.WellFormed) ∧
      (¬ s.WellFormed → ∃ e, fromWire s = .error (.error e)) ∧
      fromWire s ≠ .error .panic ∧
      ∀ t, fromWire s = .ok t →
        t.wire = s.lowestTerms ∧ t.scheduled.length = s.scheduled.length) ∧
    ∀ t : Timeline, t.Valid → fromWire t.wire = .ok t := by
  refine ⟨fun s => ⟨⟨?_, ?_⟩, fromWire_of_not_wellFormed, ?_, ?_⟩, fun t => fromWire_wire⟩
  · rintro ⟨t, ht⟩
    exact ((fromWire_ok_iff s t).mp ht).1
  · intro h
    obtain ⟨t, ht, -⟩ := fromWire_of_wellFormed h
    exact ⟨t, ht⟩
  · intro hpanic
    by_cases h : s.WellFormed
    · obtain ⟨t, ht, -⟩ := fromWire_of_wellFormed h
      rw [ht] at hpanic
      exact absurd hpanic (by simp)
    · obtain ⟨e, he⟩ := fromWire_of_not_wellFormed h
      rw [he] at hpanic
      exact absurd hpanic (by simp)
  · intro t ht
    have hwire := ((fromWire_ok_iff s t).mp ht).2
    refine ⟨hwire, ?_⟩
    have hlength := congrArg (fun m => m.scheduled.length) hwire
    simpa [wire, Wire.Snapshot.lowestTerms] using hlength

/-- A tracked snapshot at a negative position whose scheduled rate is written as
two over four. -/
def unreducedSnapshot : Wire.Snapshot where
  version := 1
  session := List.replicate 16 1
  revision := 7
  discontinuity := 3
  sourceKind := 2
  sourceHealth := 1
  format := some ⟨30000, 1001, true⟩
  anchor := some ⟨1000, some ⟨-5, 9, by decide, by decide⟩, some ⟨1, 1⟩⟩
  scheduled := [⟨4, some ⟨2000, some ⟨100, 7, by decide, by decide⟩, some ⟨2, 4⟩⟩⟩]
  sessionId := []

theorem fromWire_exact_unreduced :
    ∃ t, fromWire unreducedSnapshot = .ok t ∧ t.wire = unreducedSnapshot.lowestTerms ∧
      t.scheduled.length = 1 ∧ fromWire t.wire = .ok t := by
  have hwell : unreducedSnapshot.WellFormed :=
    (validateSnapshot_ok_iff _).mp (by decide +kernel)
  obtain ⟨t, ht⟩ := (fromWire_exact.1 unreducedSnapshot).1.mpr hwell
  obtain ⟨hwire, hlength⟩ := (fromWire_exact.1 unreducedSnapshot).2.2.2 t ht
  exact ⟨t, ht, hwire, hlength, fromWire_exact.2 t (fromWire_valid ht)⟩

end Timeline

end Tidkod
