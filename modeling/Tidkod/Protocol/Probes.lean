import Mathlib.Tactic
import Tidkod.Lib.Machine
import Tidkod.Lib.RecentRing
import Tidkod.Protocol.Encoding

/-!
Clock requests and the matching of replies to them (`probes.rs`, and
`decode_probe` of `lib.rs`). A connection remembers its last 128 requests in a
ring, with what a publication of each one took in a second ring beside it.
-/

namespace Tidkod

open Proto3 RecentRing

namespace Wire

structure Probe where
  version : Nat
  sequence : Nat
  t1 : Nat
  t2 : Nat
  t3 : Nat
  deriving DecidableEq, Repr

def Probe.default : Probe := ⟨0, 0, 0, 0, 0⟩

def Probe.fields (p : Probe) : List Field :=
  present (p.version ≠ 0) ⟨1, .varint p.version⟩ ++
    present (p.sequence ≠ 0) ⟨2, .varint p.sequence⟩ ++
    present (p.t1 ≠ 0) ⟨3, .varint p.t1⟩ ++
    present (p.t2 ≠ 0) ⟨4, .varint p.t2⟩ ++
    present (p.t3 ≠ 0) ⟨5, .varint p.t3⟩

def Probe.merge (p : Probe) : Field → Option Probe
  | ⟨1, .varint n⟩ => some { p with version := n % 2 ^ 32 }
  | ⟨2, .varint n⟩ => some { p with sequence := n % 2 ^ 64 }
  | ⟨3, .varint n⟩ => some { p with t1 := n % 2 ^ 64 }
  | ⟨4, .varint n⟩ => some { p with t2 := n % 2 ^ 64 }
  | ⟨5, .varint n⟩ => some { p with t3 := n % 2 ^ 64 }
  | ⟨1, _⟩ => none
  | ⟨2, _⟩ => none
  | ⟨3, _⟩ => none
  | ⟨4, _⟩ => none
  | ⟨5, _⟩ => none
  | _ => some p

end Wire

/-- `encode` of a probe. -/
def encodeProbe (p : Wire.Probe) : Except Error Bytes :=
  if maxMessage < (serialize p.fields).length then .error .size else .ok (serialize p.fields)

def decodeProbe (bytes : Bytes) : Except Error Wire.Probe := do
  reject (maxMessage < bytes.length) .size
  let p ← okOr (decode recursionLimit Wire.Probe.merge Wire.Probe.default bytes) .decode
  reject (p.version ≠ version) (.version p.version)
  reject
    (p.sequence = 0 ∨ [p.t1, p.t2, p.t3].any (fun t => i64Max < t) ∨ p.t3 < p.t2 ∨
      ¬ (p.t2 = 0 ↔ p.t3 = 0))
    (.invalid "probe")
  pure p

structure Probes where
  outstanding : List.Vector (Nat × Nat) 128
  sequence : Nat
  publication : List.Vector (Option Nat) 128
  lastPublication : Option Nat
  deriving DecidableEq

namespace Probes

def default : Probes where
  outstanding := List.Vector.replicate 128 (0, 0)
  sequence := 0
  publication := List.Vector.replicate 128 none
  lastPublication := none

/-- The sequence number has advanced when the encoding fails. -/
def request (p : Probes) (now : Nat) : Probes × Except Error Bytes :=
  if i64Max < now then (p, .error (.invalid "timestamp"))
  else if u64Max < p.sequence + 1 then (p, .error (.invalid "probe sequence exhausted"))
  else
    let p := { p with sequence := p.sequence + 1 }
    match encodeProbe ⟨1, p.sequence, now, 0, 0⟩ with
    | .error e => (p, .error e)
    | .ok bytes =>
        ({ p with
            publication := p.publication.set (slot 128 p.sequence) none
            outstanding := p.outstanding.set (slot 128 p.sequence) (p.sequence, now) }, .ok bytes)

/-- `u64::checked_sub`. -/
def checkedSub (a b : Nat) : Option Nat := if b ≤ a then some (a - b) else none

def publicationFinished (p : Probes) (now : Nat) : Probes :=
  let i := slot 128 p.sequence
  if (p.outstanding.get i).1 = p.sequence ∧ p.sequence ≠ 0 then
    { p with
      publication := p.publication.set i (checkedSub now (p.outstanding.get i).2) }
  else p

def lastPublicationNs (p : Probes) : Option Nat := p.lastPublication

def reply (p : Probes) (bytes : Bytes) (now : Nat) : Probes × Except Error (Option Exchange) :=
  let p := { p with lastPublication := none }
  match decodeProbe bytes with
  | .error e => (p, .error e)
  | .ok q =>
      let i := slot 128 q.sequence
      if q.sequence = 0 ∨ p.outstanding.get i ≠ (q.sequence, q.t1) ∨ q.t2 = 0 then (p, .ok none)
      else if now < q.t1 ∨ now - q.t1 < q.t3 - q.t2 then (p, .ok none)
      else if maxExchangeNs < now - q.t1 then
        ({ p with outstanding := p.outstanding.set i (0, 0) }, .ok none)
      else
        ({ p with
            outstanding := p.outstanding.set i (0, 0)
            lastPublication := p.publication.get i }, .ok (some ⟨q.t1, q.t2, q.t3, now⟩))

end Probes

/-- The operations on the probes of one connection. -/
inductive ProbeOp where
  | request (now : Nat)
  | publicationFinished (now : Nat)
  | reply (bytes : Bytes) (now : Nat)
  deriving DecidableEq

/-- What an operation returns to its caller. -/
inductive ProbeResult where
  | requested (r : Except Error Bytes)
  | published
  | replied (r : Except Error (Option Exchange))

def Probes.step (p : Probes) : ProbeOp → Probes × ProbeResult
  | .request now => ((p.request now).1, .requested (p.request now).2)
  | .publicationFinished now => (p.publicationFinished now, .published)
  | .reply bytes now => ((p.reply bytes now).1, .replied (p.reply bytes now).2)

/-- The probes of a connection after some operations. -/
def Probes.after (ops : List ProbeOp) : Probes := Machine.run Probes.step Probes.default ops

namespace Wire

/-- The values fit their protobuf types. -/
structure Probe.InRange (p : Probe) : Prop where
  version_lt : p.version < 2 ^ 32
  sequence_lt : p.sequence < 2 ^ 64
  t1_lt : p.t1 < 2 ^ 64
  t2_lt : p.t2 < 2 ^ 64
  t3_lt : p.t3 < 2 ^ 64

theorem Probe.length_le {p : Probe} (h : p.InRange) : (serialize p.fields).length ≤ 50 := by
  have hversion : (serialize (present (p.version ≠ 0) ⟨1, .varint p.version⟩)).length ≤ 6 :=
    serialize_present_length_le
      (encode_varint_length_le (by norm_num) (by norm_num) (h.version_lt.trans (by norm_num)))
  have htime (number : Nat) (hnumber : number ≤ 15) (n : Nat) (hn : n < 2 ^ 64) :
      (serialize (present (n ≠ 0) ⟨number, .varint n⟩)).length ≤ 11 :=
    serialize_present_length_le
      (encode_varint_length_le hnumber (by norm_num) (hn.trans (by norm_num)))
  have hsequence := htime 2 (by norm_num) p.sequence h.sequence_lt
  have ht1 := htime 3 (by norm_num) p.t1 h.t1_lt
  have ht2 := htime 4 (by norm_num) p.t2 h.t2_lt
  have ht3 := htime 5 (by norm_num) p.t3 h.t3_lt
  simp only [fields, serialize_append, List.length_append]
  omega

/-- A probe whose values fit their types is read back unchanged. -/
theorem Probe.decode_fields {p : Probe} (h : p.InRange) :
    decode recursionLimit Probe.merge Probe.default (serialize p.fields) = some p := by
  obtain ⟨version, sequence, t1, t2, t3⟩ := p
  have hversion : (present (version ≠ 0) ⟨1, .varint version⟩).foldlM merge default =
      some ⟨version, 0, 0, 0, 0⟩ :=
    foldlM_present (fun _ => by simp only [merge, Nat.mod_eq_of_lt h.version_lt]; rfl)
      (fun hzero => by rw [not_not.mp hzero]; rfl)
  have hsequence : (present (sequence ≠ 0) ⟨2, .varint sequence⟩).foldlM merge
      ⟨version, 0, 0, 0, 0⟩ = some ⟨version, sequence, 0, 0, 0⟩ :=
    foldlM_present (fun _ => by simp only [merge, Nat.mod_eq_of_lt h.sequence_lt])
      (fun hzero => by rw [not_not.mp hzero])
  have ht1 : (present (t1 ≠ 0) ⟨3, .varint t1⟩).foldlM merge ⟨version, sequence, 0, 0, 0⟩ =
      some ⟨version, sequence, t1, 0, 0⟩ :=
    foldlM_present (fun _ => by simp only [merge, Nat.mod_eq_of_lt h.t1_lt])
      (fun hzero => by rw [not_not.mp hzero])
  have ht2 : (present (t2 ≠ 0) ⟨4, .varint t2⟩).foldlM merge ⟨version, sequence, t1, 0, 0⟩ =
      some ⟨version, sequence, t1, t2, 0⟩ :=
    foldlM_present (fun _ => by simp only [merge, Nat.mod_eq_of_lt h.t2_lt])
      (fun hzero => by rw [not_not.mp hzero])
  have ht3 : (present (t3 ≠ 0) ⟨5, .varint t3⟩).foldlM merge ⟨version, sequence, t1, t2, 0⟩ =
      some ⟨version, sequence, t1, t2, t3⟩ :=
    foldlM_present (fun _ => by simp only [merge, Nat.mod_eq_of_lt h.t3_lt])
      (fun hzero => by rw [not_not.mp hzero])
  rw [decode_serialize, fields]
  · exact foldlM_append_some (foldlM_append_some (foldlM_append_some
      (foldlM_append_some hversion hsequence) ht1) ht2) ht3
  · refine valid_append (valid_append (valid_append (valid_append (valid_present ?_)
      (valid_present ?_)) (valid_present ?_)) (valid_present ?_)) (valid_present ?_)
    · exact ⟨by norm_num, by norm_num, h.version_lt.trans (by norm_num)⟩
    · exact ⟨by norm_num, by norm_num, h.sequence_lt⟩
    · exact ⟨by norm_num, by norm_num, h.t1_lt⟩
    · exact ⟨by norm_num, by norm_num, h.t2_lt⟩
    · exact ⟨by norm_num, by norm_num, h.t3_lt⟩

/-- What `decode_probe` checks of a probe. -/
structure Probe.WellFormed (p : Probe) : Prop where
  version : p.version = Tidkod.version
  sequence_pos : p.sequence ≠ 0
  t1_le : p.t1 ≤ i64Max
  t2_le : p.t2 ≤ i64Max
  t3_le : p.t3 ≤ i64Max
  ordered : p.t2 ≤ p.t3
  echoed : p.t2 = 0 ↔ p.t3 = 0

end Wire

theorem decodeProbe_ok_iff {bytes : Bytes} {p : Wire.Probe} :
    decodeProbe bytes = .ok p ↔
      bytes.length ≤ maxMessage ∧
        decode recursionLimit Wire.Probe.merge Wire.Probe.default bytes = some p ∧
        p.WellFormed := by
  have hchecks : (¬ (p.sequence = 0 ∨ [p.t1, p.t2, p.t3].any (fun t => i64Max < t) ∨
      p.t3 < p.t2 ∨ ¬ (p.t2 = 0 ↔ p.t3 = 0)) ∧ p.version = version) ↔ p.WellFormed := by
    simp only [List.any_cons, List.any_nil, Bool.or_false, Bool.or_eq_true, decide_eq_true_eq,
      not_or, not_lt, not_not]
    constructor
    · rintro ⟨⟨hsequence, ⟨ht1, ht2, ht3⟩, hordered, hecho⟩, hversion⟩
      exact ⟨hversion, hsequence, ht1, ht2, ht3, hordered, hecho⟩
    · rintro ⟨hversion, hsequence, ht1, ht2, ht3, hordered, hecho⟩
      exact ⟨⟨hsequence, ⟨ht1, ht2, ht3⟩, hordered, hecho⟩, hversion⟩
  simp only [decodeProbe, bind_eq_ok, reject_eq_ok, okOr_eq_ok, pure, Except.pure,
    Except.ok.injEq]
  constructor
  · rintro ⟨-, hsize, q, hdecode, -, hversion, -, hvalid, rfl⟩
    exact ⟨not_lt.mp hsize, hdecode, hchecks.mp ⟨hvalid, not_not.mp hversion⟩⟩
  · rintro ⟨hsize, hdecode, hwell⟩
    obtain ⟨hvalid, hversion⟩ := hchecks.mpr hwell
    exact ⟨(), not_lt.mpr hsize, p, hdecode, (), not_not.mpr hversion, (), hvalid, rfl⟩

/-- A request of a connection that has numbers left: it is encoded, and reads
back as the probe it was made from. -/
theorem encodeProbe_request {sequence now : Nat} (hpos : sequence ≠ 0)
    (hsequence : sequence ≤ u64Max) (hnow : now ≤ i64Max) :
    encodeProbe ⟨1, sequence, now, 0, 0⟩ =
        .ok (serialize (Wire.Probe.fields ⟨1, sequence, now, 0, 0⟩)) ∧
      decodeProbe (serialize (Wire.Probe.fields ⟨1, sequence, now, 0, 0⟩)) =
        .ok ⟨1, sequence, now, 0, 0⟩ := by
  have hrange : Wire.Probe.InRange ⟨1, sequence, now, 0, 0⟩ := by
    refine ⟨by norm_num, ?_, ?_, by norm_num, by norm_num⟩
    · exact hsequence.trans_lt (by norm_num [u64Max])
    · exact hnow.trans_lt (by norm_num [i64Max])
  have hsize : (serialize (Wire.Probe.fields ⟨1, sequence, now, 0, 0⟩)).length ≤ maxMessage :=
    (Wire.Probe.length_le hrange).trans (by norm_num [maxMessage])
  refine ⟨if_neg (not_lt.mpr hsize), ?_⟩
  rw [decodeProbe_ok_iff]
  exact ⟨hsize, Wire.Probe.decode_fields hrange, rfl, hpos, hnow, Nat.zero_le _, Nat.zero_le _,
    le_rfl, Iff.rfl⟩

end Tidkod
