import Mathlib.Tactic
import Tidkod.Lib.Proto3
import Tidkod.Protocol.Wire

/-!
The protobuf encoding of snapshots: the schema of `tidkod.proto` as fields of
the wire format, with `encode` and `decode_snapshot` of `lib.rs` on top. Every
message whose values fit their protobuf types is read back unchanged, and a
well-formed snapshot always fits into the 512 bytes of a message.
-/

namespace Tidkod

open Proto3

/-- `MAX_MESSAGE`. -/
def maxMessage : Nat := 512

/-- `RECURSION_LIMIT` of the decoder. -/
def recursionLimit : Nat := 100

/-- `int32` of a decoded varint. -/
def asInt32 (n : Nat) : Int :=
  if n % 2 ^ 32 < 2 ^ 31 then (n % 2 ^ 32 : Nat) else (n % 2 ^ 32 : Nat) - 2 ^ 32

/-- The varint of an `int32`, sign extended to 64 bits. -/
def ofInt32 (k : Int) : Nat := (k % 2 ^ 64).toNat

namespace Wire

def FrameFormat.default : FrameFormat := ⟨0, 0, false⟩

def FrameFormat.fields (f : FrameFormat) : List Field :=
  present (f.numerator ≠ 0) ⟨1, .varint f.numerator⟩ ++
    present (f.denominator ≠ 0) ⟨2, .varint f.denominator⟩ ++
    present (f.dropFrame = true) ⟨3, .varint 1⟩

def FrameFormat.merge (f : FrameFormat) : Field → Option FrameFormat
  | ⟨1, .varint n⟩ => some { f with numerator := n % 2 ^ 32 }
  | ⟨2, .varint n⟩ => some { f with denominator := n % 2 ^ 32 }
  | ⟨3, .varint n⟩ => some { f with dropFrame := n ≠ 0 }
  | ⟨1, _⟩ => none
  | ⟨2, _⟩ => none
  | ⟨3, _⟩ => none
  | _ => some f

def Position.default : Position :=
  ⟨0, 0, Tidkod.Position.zero.frames_mem, Tidkod.Position.zero.subframe_lt⟩

def Position.fields (p : Position) : List Field :=
  present (p.frames ≠ 0) ⟨1, .varint (zigzag p.frames)⟩ ++
    present (p.subframe ≠ 0) ⟨2, .fixed32 p.subframe⟩

/-- `sint64` of a decoded varint stays in range. -/
theorem unzigzag_mem (n : Nat) :
    i64Min ≤ unzigzag (n % 2 ^ 64) ∧ unzigzag (n % 2 ^ 64) ≤ i64Max := by
  simp only [unzigzag, i64Min, i64Max]
  split_ifs <;> omega

def Position.merge (p : Position) : Field → Option Position
  | ⟨1, .varint n⟩ => some { p with frames := unzigzag (n % 2 ^ 64), frames_mem := unzigzag_mem n }
  | ⟨2, .fixed32 n⟩ =>
      some { p with subframe := n % 2 ^ 32, subframe_lt := Nat.mod_lt _ (by norm_num) }
  | ⟨1, _⟩ => none
  | ⟨2, _⟩ => none
  | _ => some p

def Rate.default : Rate := ⟨0, 0⟩

def Rate.fields (r : Rate) : List Field :=
  present (r.numerator ≠ 0) ⟨1, .varint (zigzag r.numerator)⟩ ++
    present (r.denominator ≠ 0) ⟨2, .varint r.denominator⟩

def Rate.merge (r : Rate) : Field → Option Rate
  | ⟨1, .varint n⟩ => some { r with numerator := unzigzag (n % 2 ^ 32) }
  | ⟨2, .varint n⟩ => some { r with denominator := n % 2 ^ 32 }
  | ⟨1, _⟩ => none
  | ⟨2, _⟩ => none
  | _ => some r

def Anchor.default : Anchor := ⟨0, none, none⟩

def Anchor.fields (a : Anchor) : List Field :=
  present (a.timeNs ≠ 0) ⟨1, .varint a.timeNs⟩ ++
    message 2 (fun p => serialize (Position.fields p)) a.position ++
    message 3 (fun r => serialize (Rate.fields r)) a.rate

def Anchor.merge (limit : Nat) (a : Anchor) : Field → Option Anchor
  | ⟨1, .varint n⟩ => some { a with timeNs := n % 2 ^ 64 }
  | ⟨2, .bytes content⟩ =>
      (decodeNested limit (fun _ => Position.merge) (a.position.getD Position.default) content).map
        (fun p => { a with position := some p })
  | ⟨3, .bytes content⟩ =>
      (decodeNested limit (fun _ => Rate.merge) (a.rate.getD Rate.default) content).map
        (fun r => { a with rate := some r })
  | ⟨1, _⟩ => none
  | ⟨2, _⟩ => none
  | ⟨3, _⟩ => none
  | _ => some a

def ScheduledChange.default : ScheduledChange := ⟨0, none⟩

def ScheduledChange.fields (c : ScheduledChange) : List Field :=
  present (c.discontinuity ≠ 0) ⟨1, .varint c.discontinuity⟩ ++
    message 2 (fun a => serialize (Anchor.fields a)) c.anchor

def ScheduledChange.merge (limit : Nat) (c : ScheduledChange) : Field → Option ScheduledChange
  | ⟨1, .varint n⟩ => some { c with discontinuity := n % 2 ^ 64 }
  | ⟨2, .bytes content⟩ =>
      (decodeNested limit Anchor.merge (c.anchor.getD Anchor.default) content).map
        (fun a => { c with anchor := some a })
  | ⟨1, _⟩ => none
  | ⟨2, _⟩ => none
  | _ => some c

def Snapshot.default : Snapshot where
  version := 0
  session := []
  revision := 0
  discontinuity := 0
  sourceKind := 0
  sourceHealth := 0
  format := none
  anchor := none
  scheduled := []
  sessionId := []

def Snapshot.fields (s : Snapshot) : List Field :=
  present (s.version ≠ 0) ⟨1, .varint s.version⟩ ++
    present (s.session ≠ []) ⟨2, .bytes s.session⟩ ++
    present (s.revision ≠ 0) ⟨3, .varint s.revision⟩ ++
    present (s.discontinuity ≠ 0) ⟨4, .varint s.discontinuity⟩ ++
    present (s.sourceKind ≠ 0) ⟨5, .varint (ofInt32 s.sourceKind)⟩ ++
    present (s.sourceHealth ≠ 0) ⟨6, .varint (ofInt32 s.sourceHealth)⟩ ++
    message 7 (fun f => serialize (FrameFormat.fields f)) s.format ++
    message 8 (fun a => serialize (Anchor.fields a)) s.anchor ++
    repeated 9 (fun c => serialize (ScheduledChange.fields c)) s.scheduled ++
    present (s.sessionId ≠ []) ⟨10, .bytes s.sessionId⟩

def Snapshot.merge (limit : Nat) (s : Snapshot) : Field → Option Snapshot
  | ⟨1, .varint n⟩ => some { s with version := n % 2 ^ 32 }
  | ⟨2, .bytes content⟩ => some { s with session := content }
  | ⟨3, .varint n⟩ => some { s with revision := n % 2 ^ 64 }
  | ⟨4, .varint n⟩ => some { s with discontinuity := n % 2 ^ 64 }
  | ⟨5, .varint n⟩ => some { s with sourceKind := asInt32 n }
  | ⟨6, .varint n⟩ => some { s with sourceHealth := asInt32 n }
  | ⟨7, .bytes content⟩ =>
      (decodeNested limit (fun _ => FrameFormat.merge) (s.format.getD FrameFormat.default)
          content).map
        (fun f => { s with format := some f })
  | ⟨8, .bytes content⟩ =>
      (decodeNested limit Anchor.merge (s.anchor.getD Anchor.default) content).map
        (fun a => { s with anchor := some a })
  | ⟨9, .bytes content⟩ =>
      (decodeNested limit ScheduledChange.merge ScheduledChange.default content).map
        (fun c => { s with scheduled := s.scheduled ++ [c] })
  | ⟨10, .bytes content⟩ => some { s with sessionId := content }
  | ⟨1, _⟩ => none
  | ⟨2, _⟩ => none
  | ⟨3, _⟩ => none
  | ⟨4, _⟩ => none
  | ⟨5, _⟩ => none
  | ⟨6, _⟩ => none
  | ⟨7, _⟩ => none
  | ⟨8, _⟩ => none
  | ⟨9, _⟩ => none
  | ⟨10, _⟩ => none
  | _ => some s

end Wire

/-- `encode`: the encoded length is checked before the message is written. -/
def encode (s : Wire.Snapshot) : Except Error Bytes :=
  if maxMessage < (serialize s.fields).length then .error .size else .ok (serialize s.fields)

def decodeSnapshot (bytes : Bytes) : Except Error Wire.Snapshot := do
  reject (maxMessage < bytes.length) .size
  let s ← okOr
    (decode recursionLimit (Wire.Snapshot.merge recursionLimit) Wire.Snapshot.default bytes) .decode
  validateSnapshot s
  pure s

namespace Wire

/-- The values fit their protobuf types. -/
def FrameFormat.InRange (f : FrameFormat) : Prop := f.numerator < 2 ^ 32 ∧ f.denominator < 2 ^ 32

def Rate.InRange (r : Rate) : Prop :=
  -(2 ^ 31 : Int) ≤ r.numerator ∧ r.numerator < 2 ^ 31 ∧ r.denominator < 2 ^ 32

def Anchor.InRange (a : Anchor) : Prop :=
  a.timeNs < 2 ^ 64 ∧ ∀ r, a.rate = some r → r.InRange

def ScheduledChange.InRange (c : ScheduledChange) : Prop :=
  c.discontinuity < 2 ^ 64 ∧ ∀ a, c.anchor = some a → a.InRange

theorem FrameFormat.length_le {f : FrameFormat} (h : f.InRange) :
    (serialize f.fields).length ≤ 14 := by
  have hnum : (serialize (present (f.numerator ≠ 0) ⟨1, .varint f.numerator⟩)).length ≤ 6 :=
    serialize_present_length_le
      (encode_varint_length_le (by norm_num) (by norm_num) (h.1.trans (by norm_num)))
  have hden : (serialize (present (f.denominator ≠ 0) ⟨2, .varint f.denominator⟩)).length ≤ 6 :=
    serialize_present_length_le
      (encode_varint_length_le (by norm_num) (by norm_num) (h.2.trans (by norm_num)))
  have hdrop : (serialize (present (f.dropFrame = true) ⟨3, .varint 1⟩)).length ≤ 2 :=
    serialize_present_length_le (encode_varint_length_le (by norm_num) one_pos (by norm_num))
  simp only [fields, serialize_append, List.length_append]
  omega

theorem FrameFormat.decode_fields {f : FrameFormat} (h : f.InRange) (limit : Nat) :
    decode limit FrameFormat.merge FrameFormat.default (serialize f.fields) = some f := by
  have hnum : (present (f.numerator ≠ 0) ⟨1, .varint f.numerator⟩).foldlM merge default =
      some { default with numerator := f.numerator } :=
    foldlM_present (fun _ => by simpa [merge] using h.1)
      (fun hzero => by simp [default, not_not.mp hzero])
  have hden : (present (f.denominator ≠ 0) ⟨2, .varint f.denominator⟩).foldlM merge
      { default with numerator := f.numerator } =
      some { default with numerator := f.numerator, denominator := f.denominator } :=
    foldlM_present (fun _ => by simpa [merge] using h.2)
      (fun hzero => by simp [default, not_not.mp hzero])
  have hdrop : (present (f.dropFrame = true) ⟨3, .varint 1⟩).foldlM merge
      { default with numerator := f.numerator, denominator := f.denominator } = some f :=
    foldlM_present (fun htrue => by simp [merge, ← htrue])
      (fun hfalse => by simp [default, Bool.not_eq_true] at hfalse ⊢; rw [← hfalse])
  rw [decode_serialize, fields]
  · exact foldlM_append_some (foldlM_append_some hnum hden) hdrop
  · refine valid_append (valid_append (valid_present ?_) (valid_present ?_)) (valid_present ?_)
    · exact ⟨by norm_num, by norm_num, h.1.trans (by norm_num)⟩
    · exact ⟨by norm_num, by norm_num, h.2.trans (by norm_num)⟩
    · exact ⟨by norm_num, by norm_num, by norm_num⟩

theorem Position.zigzag_lt (p : Position) : zigzag p.frames < 2 ^ 64 := by
  have hmem := p.frames_mem
  simp only [i64Min, i64Max] at hmem
  have hlt : zigzag p.frames < 2 * 2 ^ 63 :=
    Proto3.zigzag_lt (by push_cast; omega) (by push_cast; omega)
  exact hlt.trans_le (by norm_num)

theorem Position.length_le (p : Position) : (serialize p.fields).length ≤ 16 := by
  have hframes : (serialize (present (p.frames ≠ 0) ⟨1, .varint (zigzag p.frames)⟩)).length ≤ 11 :=
    serialize_present_length_le
      (encode_varint_length_le (by norm_num) (by norm_num) (p.zigzag_lt.trans (by norm_num)))
  have hsub : (serialize (present (p.subframe ≠ 0) ⟨2, .fixed32 p.subframe⟩)).length ≤ 5 :=
    serialize_present_length_le (encode_fixed32_length_le (by norm_num))
  simp only [fields, serialize_append, List.length_append]
  omega

theorem Position.decode_fields (p : Position) (limit : Nat) :
    decode limit Position.merge Position.default (serialize p.fields) = some p := by
  obtain ⟨frames, subframe, hframes, hsub⟩ := p
  have hzigzag := Position.zigzag_lt ⟨frames, subframe, hframes, hsub⟩
  have hfirst : (present (frames ≠ 0) ⟨1, .varint (zigzag frames)⟩).foldlM merge default =
      some ⟨frames, 0, hframes, by norm_num⟩ :=
    foldlM_present (fun _ => by simp only [merge, Nat.mod_eq_of_lt hzigzag, unzigzag_zigzag]; rfl)
      (fun hzero => by simp [default, not_not.mp hzero])
  have hsecond : (present (subframe ≠ 0) ⟨2, .fixed32 subframe⟩).foldlM merge
      ⟨frames, 0, hframes, by norm_num⟩ = some ⟨frames, subframe, hframes, hsub⟩ :=
    foldlM_present (fun _ => by simpa [merge] using hsub)
      (fun hzero => by simp [not_not.mp hzero])
  rw [decode_serialize, fields]
  · exact foldlM_append_some hfirst hsecond
  · refine valid_append (valid_present ?_) (valid_present ?_)
    · exact ⟨by norm_num, by norm_num, hzigzag⟩
    · exact ⟨by norm_num, by norm_num, hsub⟩

theorem Rate.zigzag_lt {r : Rate} (h : r.InRange) : zigzag r.numerator < 2 ^ 32 := by
  have hlt : zigzag r.numerator < 2 * 2 ^ 31 :=
    Proto3.zigzag_lt (by push_cast; exact h.1) (by push_cast; exact h.2.1)
  exact hlt.trans_le (by norm_num)

theorem Rate.length_le {r : Rate} (h : r.InRange) : (serialize r.fields).length ≤ 12 := by
  have hnum :
      (serialize (present (r.numerator ≠ 0) ⟨1, .varint (zigzag r.numerator)⟩)).length ≤ 6 :=
    serialize_present_length_le
      (encode_varint_length_le (by norm_num) (by norm_num) ((zigzag_lt h).trans (by norm_num)))
  have hden : (serialize (present (r.denominator ≠ 0) ⟨2, .varint r.denominator⟩)).length ≤ 6 :=
    serialize_present_length_le
      (encode_varint_length_le (by norm_num) (by norm_num) (h.2.2.trans (by norm_num)))
  simp only [fields, serialize_append, List.length_append]
  omega

theorem Rate.decode_fields {r : Rate} (h : r.InRange) (limit : Nat) :
    decode limit Rate.merge Rate.default (serialize r.fields) = some r := by
  have hzigzag := Rate.zigzag_lt h
  obtain ⟨numerator, denominator⟩ := r
  have hlt : denominator < 2 ^ 32 := h.2.2
  have hnum : (present (numerator ≠ 0) ⟨1, .varint (zigzag numerator)⟩).foldlM merge default =
      some ⟨numerator, 0⟩ :=
    foldlM_present
      (fun _ => by simp only [merge, Nat.mod_eq_of_lt hzigzag, unzigzag_zigzag]; rfl)
      (fun hzero => by rw [not_not.mp hzero]; rfl)
  have hden : (present (denominator ≠ 0) ⟨2, .varint denominator⟩).foldlM merge ⟨numerator, 0⟩ =
      some ⟨numerator, denominator⟩ :=
    foldlM_present (fun _ => by simp only [merge, Nat.mod_eq_of_lt hlt])
      (fun hzero => by rw [not_not.mp hzero])
  rw [decode_serialize, fields]
  · exact foldlM_append_some hnum hden
  · refine valid_append (valid_present ?_) (valid_present ?_)
    · exact ⟨by norm_num, by norm_num, hzigzag.trans (by norm_num)⟩
    · exact ⟨by norm_num, by norm_num, hlt.trans (by norm_num)⟩

/-- A submessage of bounded length is a valid field. -/
theorem valid_bytes {number size : Nat} {content : Bytes} (hlo : 1 ≤ number) (hhi : number ≤ 15)
    (hsize : content.length ≤ size) (hbound : size < 128) :
    (⟨number, .bytes content⟩ : Field).Valid :=
  ⟨hlo, hhi.trans_lt (by norm_num), (hsize.trans_lt hbound).trans (by norm_num)⟩

theorem Anchor.length_le {a : Anchor} (h : a.InRange) : (serialize a.fields).length ≤ 43 := by
  have htime : (serialize (present (a.timeNs ≠ 0) ⟨1, .varint a.timeNs⟩)).length ≤ 11 :=
    serialize_present_length_le
      (encode_varint_length_le (by norm_num) (by norm_num) (h.1.trans (by norm_num)))
  have hposition : (serialize (message 2 (fun p => serialize (Position.fields p))
      a.position)).length ≤ 18 :=
    serialize_message_length_le (fun p _ =>
      encode_bytes_length_le (by norm_num) p.length_le (by norm_num))
  have hrate : (serialize (message 3 (fun r => serialize (Rate.fields r)) a.rate)).length ≤ 14 :=
    serialize_message_length_le (fun r hr =>
      encode_bytes_length_le (by norm_num) (Rate.length_le (h.2 r hr)) (by norm_num))
  simp only [fields, serialize_append, List.length_append]
  omega

theorem Anchor.decode_fields {a : Anchor} (h : a.InRange) (inner : Nat) :
    decode (inner + 1) (Anchor.merge (inner + 1)) Anchor.default (serialize a.fields) =
      some a := by
  obtain ⟨timeNs, position, rate⟩ := a
  obtain ⟨hlt, hrange⟩ := h
  have htime : (present (timeNs ≠ 0) ⟨1, .varint timeNs⟩).foldlM (merge (inner + 1))
      default =
      some ⟨timeNs, none, none⟩ :=
    foldlM_present (fun _ => by simp only [merge, Nat.mod_eq_of_lt hlt]; rfl)
      (fun hzero => by rw [not_not.mp hzero]; rfl)
  have hposition : (message 2 (fun p => serialize (Position.fields p)) position).foldlM
      (merge (inner + 1))      ⟨timeNs, none, none⟩ = some ⟨timeNs, position, none⟩ :=
    foldlM_message
      (fun p hp => by
        simp only [merge, decodeNested, Option.getD_none, p.decode_fields, Option.map_some, hp])
      (fun hnone => by rw [hnone])
  have hrate : (message 3 (fun r => serialize (Rate.fields r)) rate).foldlM
      (merge (inner + 1))      ⟨timeNs, position, none⟩ = some ⟨timeNs, position, rate⟩ :=
    foldlM_message
      (fun r hr => by
        simp only [merge, decodeNested, Option.getD_none, Rate.decode_fields (hrange r hr),
          Option.map_some, hr])
      (fun hnone => by rw [hnone])
  rw [decode_serialize, fields]
  · exact foldlM_append_some (foldlM_append_some htime hposition) hrate
  · refine valid_append (valid_append (valid_present ?_) (valid_message ?_)) (valid_message ?_)
    · exact ⟨by norm_num, by norm_num, hlt⟩
    · exact fun p _ => valid_bytes (by norm_num) (by norm_num) p.length_le (by norm_num)
    · exact fun r hr =>
        valid_bytes (by norm_num) (by norm_num) (Rate.length_le (hrange r hr)) (by norm_num)

theorem ScheduledChange.length_le {c : ScheduledChange} (h : c.InRange) :
    (serialize c.fields).length ≤ 56 := by
  have hdisc : (serialize (present (c.discontinuity ≠ 0) ⟨1, .varint c.discontinuity⟩)).length ≤
      11 :=
    serialize_present_length_le
      (encode_varint_length_le (by norm_num) (by norm_num) (h.1.trans (by norm_num)))
  have hanchor : (serialize (message 2 (fun a => serialize (Anchor.fields a)) c.anchor)).length ≤
      45 :=
    serialize_message_length_le (fun a ha =>
      encode_bytes_length_le (by norm_num) (Anchor.length_le (h.2 a ha)) (by norm_num))
  simp only [fields, serialize_append, List.length_append]
  omega

theorem ScheduledChange.decode_fields {c : ScheduledChange} (h : c.InRange) (inner : Nat) :
    decode (inner + 2) (ScheduledChange.merge (inner + 2)) ScheduledChange.default
      (serialize c.fields) = some c := by
  obtain ⟨disc, anchor⟩ := c
  obtain ⟨hlt, hrange⟩ := h
  have hdisc : (present (disc ≠ 0) ⟨1, .varint disc⟩).foldlM (merge (inner + 2))
      default =
      some ⟨disc, none⟩ :=
    foldlM_present (fun _ => by simp only [merge, Nat.mod_eq_of_lt hlt]; rfl)
      (fun hzero => by rw [not_not.mp hzero]; rfl)
  have hanchor : (message 2 (fun a => serialize (Anchor.fields a)) anchor).foldlM
      (merge (inner + 2))      ⟨disc, none⟩ = some ⟨disc, anchor⟩ :=
    foldlM_message
      (fun a ha => by
        simp only [merge, decodeNested, Option.getD_none, Anchor.decode_fields (hrange a ha),
          Option.map_some, ha])
      (fun hnone => by rw [hnone])
  rw [decode_serialize, fields]
  · exact foldlM_append_some hdisc hanchor
  · refine valid_append (valid_present ?_) (valid_message ?_)
    · exact ⟨by norm_num, by norm_num, hlt⟩
    · exact fun a ha =>
        valid_bytes (by norm_num) (by norm_num) (Anchor.length_le (hrange a ha)) (by norm_num)

/-- The values fit their types and the byte strings and lists are as short as
validation asks. -/
structure Snapshot.InRange (s : Snapshot) : Prop where
  version_lt : s.version < 2 ^ 32
  session_length : s.session.length ≤ 16
  revision_lt : s.revision < 2 ^ 64
  discontinuity_lt : s.discontinuity < 2 ^ 64
  sourceKind_mem : 0 ≤ s.sourceKind ∧ s.sourceKind < 2 ^ 31
  sourceHealth_mem : 0 ≤ s.sourceHealth ∧ s.sourceHealth < 2 ^ 31
  format : ∀ f, s.format = some f → f.InRange
  anchor : ∀ a, s.anchor = some a → a.InRange
  scheduled : ∀ c ∈ s.scheduled, c.InRange
  capacity : s.scheduled.length ≤ maxScheduled
  sessionId_length : s.sessionId.length ≤ 16

theorem ofInt32_lt (k : Int) : ofInt32 k < 2 ^ 64 := by
  unfold ofInt32
  omega

@[simp] theorem asInt32_ofInt32 {k : Int} (h : 0 ≤ k ∧ k < 2 ^ 31) : asInt32 (ofInt32 k) = k := by
  unfold asInt32 ofInt32
  omega

/-- The largest snapshot takes 379 bytes. -/
theorem Snapshot.length_le {s : Snapshot} (h : s.InRange) :
    (serialize s.fields).length ≤ maxMessage := by
  have hversion : (serialize (present (s.version ≠ 0) ⟨1, .varint s.version⟩)).length ≤ 6 :=
    serialize_present_length_le
      (encode_varint_length_le (by norm_num) (by norm_num) (h.version_lt.trans (by norm_num)))
  have hsession : (serialize (present (s.session ≠ []) ⟨2, .bytes s.session⟩)).length ≤ 18 :=
    serialize_present_length_le
      (encode_bytes_length_le (by norm_num) h.session_length (by norm_num))
  have hrevision : (serialize (present (s.revision ≠ 0) ⟨3, .varint s.revision⟩)).length ≤ 11 :=
    serialize_present_length_le
      (encode_varint_length_le (by norm_num) (by norm_num) (h.revision_lt.trans (by norm_num)))
  have hdisc : (serialize (present (s.discontinuity ≠ 0)
      ⟨4, .varint s.discontinuity⟩)).length ≤ 11 :=
    serialize_present_length_le
      (encode_varint_length_le (by norm_num) (by norm_num) (h.discontinuity_lt.trans (by norm_num)))
  have hkind (number : Nat) (hnumber : number ≤ 15) (k : Int) :
      (serialize (present (k ≠ 0) ⟨number, .varint (ofInt32 k)⟩)).length ≤ 11 :=
    serialize_present_length_le
      (encode_varint_length_le hnumber (by norm_num) ((ofInt32_lt k).trans (by norm_num)))
  have hformat : (serialize (message 7 (fun f => serialize (FrameFormat.fields f))
      s.format)).length ≤ 16 :=
    serialize_message_length_le (fun f hf =>
      encode_bytes_length_le (by norm_num) (FrameFormat.length_le (h.format f hf)) (by norm_num))
  have hanchor : (serialize (message 8 (fun a => serialize (Anchor.fields a))
      s.anchor)).length ≤ 45 :=
    serialize_message_length_le (fun a ha =>
      encode_bytes_length_le (by norm_num) (Anchor.length_le (h.anchor a ha)) (by norm_num))
  have hscheduled : (serialize (repeated 9 (fun c => serialize (ScheduledChange.fields c))
      s.scheduled)).length ≤ 4 * 58 :=
    (serialize_repeated_length_le (fun c hc =>
      encode_bytes_length_le (by norm_num) (ScheduledChange.length_le (h.scheduled c hc))
        (by norm_num))).trans (Nat.mul_le_mul_right 58 h.capacity)
  have hid : (serialize (present (s.sessionId ≠ []) ⟨10, .bytes s.sessionId⟩)).length ≤ 18 :=
    serialize_present_length_le
      (encode_bytes_length_le (by norm_num) h.sessionId_length (by norm_num))
  have hsource := hkind 5 (by norm_num) s.sourceKind
  have hhealth := hkind 6 (by norm_num) s.sourceHealth
  simp only [fields, serialize_append, List.length_append, maxMessage]
  omega

theorem Snapshot.valid_fields {s : Snapshot} (h : s.InRange) : ∀ f ∈ s.fields, f.Valid := by
  refine valid_append (valid_append (valid_append (valid_append (valid_append (valid_append
    (valid_append (valid_append (valid_append (valid_present ?_) (valid_present ?_))
    (valid_present ?_)) (valid_present ?_)) (valid_present ?_)) (valid_present ?_))
    (valid_message ?_)) (valid_message ?_)) (valid_repeated ?_)) (valid_present ?_)
  · exact ⟨by norm_num, by norm_num, h.version_lt.trans (by norm_num)⟩
  · exact valid_bytes (by norm_num) (by norm_num) h.session_length (by norm_num)
  · exact ⟨by norm_num, by norm_num, h.revision_lt⟩
  · exact ⟨by norm_num, by norm_num, h.discontinuity_lt⟩
  · exact ⟨by norm_num, by norm_num, ofInt32_lt _⟩
  · exact ⟨by norm_num, by norm_num, ofInt32_lt _⟩
  · exact fun f hf =>
      valid_bytes (by norm_num) (by norm_num) (FrameFormat.length_le (h.format f hf)) (by norm_num)
  · exact fun a ha =>
      valid_bytes (by norm_num) (by norm_num) (Anchor.length_le (h.anchor a ha)) (by norm_num)
  · exact fun c hc =>
      valid_bytes (by norm_num) (by norm_num) (ScheduledChange.length_le (h.scheduled c hc))
        (by norm_num)
  · exact valid_bytes (by norm_num) (by norm_num) h.sessionId_length (by norm_num)

/-- Merging appends the scheduled changes in order. -/
theorem Snapshot.foldl_scheduled (s : Snapshot) (cs : List ScheduledChange) :
    cs.foldl (fun s c => { s with scheduled := s.scheduled ++ [c] }) s =
      { s with scheduled := s.scheduled ++ cs } := by
  induction cs generalizing s with
  | nil => simp
  | cons c rest ih => rw [List.foldl_cons, ih]; simp

/-- A snapshot whose values fit their types is read back unchanged. -/
theorem Snapshot.decode_fields {s : Snapshot} (h : s.InRange) (inner : Nat) :
    decode (inner + 3) (Snapshot.merge (inner + 3)) Snapshot.default (serialize s.fields) =
      some s := by
  rw [decode_serialize (valid_fields h), fields]
  obtain ⟨version, session, revision, disc, kind, health, format, anchor, scheduled, sessionId⟩ := s
  have hversion : (present (version ≠ 0) ⟨1, .varint version⟩).foldlM (merge (inner + 3)) default =
      some { default with version } :=
    foldlM_present (fun _ => by simp only [merge, Nat.mod_eq_of_lt h.version_lt])
      (fun hzero => by rw [not_not.mp hzero]; rfl)
  have hsession : (present (session ≠ []) ⟨2, .bytes session⟩).foldlM (merge (inner + 3))
      { default with version } = some { default with version, session } :=
    foldlM_present (fun _ => rfl) (fun hempty => by rw [not_not.mp hempty]; rfl)
  have hrevision : (present (revision ≠ 0) ⟨3, .varint revision⟩).foldlM (merge (inner + 3))
      { default with version, session } = some { default with version, session, revision } :=
    foldlM_present (fun _ => by simp only [merge, Nat.mod_eq_of_lt h.revision_lt])
      (fun hzero => by rw [not_not.mp hzero]; rfl)
  have hdisc : (present (disc ≠ 0) ⟨4, .varint disc⟩).foldlM (merge (inner + 3))
      { default with version, session, revision } =
      some { default with version, session, revision, discontinuity := disc } :=
    foldlM_present (fun _ => by simp only [merge, Nat.mod_eq_of_lt h.discontinuity_lt])
      (fun hzero => by rw [not_not.mp hzero]; rfl)
  have hkind : (present (kind ≠ 0) ⟨5, .varint (ofInt32 kind)⟩).foldlM (merge (inner + 3))
      { default with version, session, revision, discontinuity := disc } =
      some ⟨version, session, revision, disc, kind, 0, none, none, [], []⟩ :=
    foldlM_present (fun _ => by simp only [merge, asInt32_ofInt32 h.sourceKind_mem]; rfl)
      (fun hzero => by rw [not_not.mp hzero]; rfl)
  have hhealth : (present (health ≠ 0) ⟨6, .varint (ofInt32 health)⟩).foldlM (merge (inner + 3))
      ⟨version, session, revision, disc, kind, 0, none, none, [], []⟩ =
      some ⟨version, session, revision, disc, kind, health, none, none, [], []⟩ :=
    foldlM_present (fun _ => by simp only [merge, asInt32_ofInt32 h.sourceHealth_mem])
      (fun hzero => by rw [not_not.mp hzero])
  have hformat : (message 7 (fun f => serialize (FrameFormat.fields f)) format).foldlM
      (merge (inner + 3))
      ⟨version, session, revision, disc, kind, health, none, none, [], []⟩ =
      some ⟨version, session, revision, disc, kind, health, format, none, [], []⟩ :=
    foldlM_message
      (fun f hf => by
        simp only [merge, decodeNested, Option.getD_none, FrameFormat.decode_fields (h.format f hf),
          Option.map_some, hf])
      (fun hnone => by rw [hnone])
  have hanchor : (message 8 (fun a => serialize (Anchor.fields a)) anchor).foldlM
      (merge (inner + 3))
      ⟨version, session, revision, disc, kind, health, format, none, [], []⟩ =
      some ⟨version, session, revision, disc, kind, health, format, anchor, [], []⟩ :=
    foldlM_message
      (fun a ha => by
        simp only [merge, decodeNested, Option.getD_none, Anchor.decode_fields (h.anchor a ha),
          Option.map_some, ha])
      (fun hnone => by rw [hnone])
  have hscheduled : (repeated 9 (fun c => serialize (ScheduledChange.fields c))
      scheduled).foldlM (merge (inner + 3))
      ⟨version, session, revision, disc, kind, health, format, anchor, [], []⟩ =
      some ⟨version, session, revision, disc, kind, health, format, anchor, scheduled, []⟩ := by
    rw [foldlM_repeated (fun s c => { s with scheduled := s.scheduled ++ [c] })
      (fun s c hc => by
        simp only [merge, decodeNested, ScheduledChange.decode_fields (h.scheduled c hc),
          Option.map_some]),
      foldl_scheduled, List.nil_append]
  have hid : (present (sessionId ≠ []) ⟨10, .bytes sessionId⟩).foldlM (merge (inner + 3))
      ⟨version, session, revision, disc, kind, health, format, anchor, scheduled, []⟩ =
      some ⟨version, session, revision, disc, kind, health, format, anchor, scheduled,
        sessionId⟩ :=
    foldlM_present (fun _ => rfl) (fun hempty => by rw [not_not.mp hempty])
  exact foldlM_append_some (foldlM_append_some (foldlM_append_some (foldlM_append_some
    (foldlM_append_some (foldlM_append_some (foldlM_append_some (foldlM_append_some
    (foldlM_append_some hversion hsession) hrevision) hdisc) hkind) hhealth) hformat) hanchor)
    hscheduled) hid

end Wire

theorem encode_of_inRange {s : Wire.Snapshot} (h : s.InRange) :
    encode s = .ok (serialize s.fields) := by
  rw [encode, if_neg (not_lt.mpr (Wire.Snapshot.length_le h))]

theorem eq_of_encode {s : Wire.Snapshot} {bytes : Bytes} (h : encode s = .ok bytes) :
    serialize s.fields = bytes := by
  unfold encode at h
  split_ifs at h
  exact Except.ok.inj h

/-- A well-formed snapshot comes back from its own encoding. -/
theorem decodeSnapshot_encode {s : Wire.Snapshot} (h : s.InRange) (hwell : s.WellFormed) :
    decodeSnapshot (serialize s.fields) = .ok s := by
  have hreject : reject (maxMessage < (serialize s.fields).length) .size =
      (.ok () : Except Error Unit) :=
    if_neg (not_lt.mpr (Wire.Snapshot.length_le h))
  simp only [decodeSnapshot, hreject, ok_bind, Wire.Snapshot.decode_fields h 97, recursionLimit,
    okOr, (validateSnapshot_ok_iff s).mpr hwell, pure, Except.pure]

namespace Timeline

/-- Revision and discontinuity ids fit into 64 bits. -/
structure Countable (t : Timeline) : Prop where
  revision_lt : t.revision < 2 ^ 64
  discontinuity_lt : ∀ s ∈ t.active :: t.scheduled, s.discontinuity < 2 ^ 64

theorem anchor_inRange {a : Anchor} (h : a.timeNs ≤ i64Max) : a.wire.InRange := by
  refine ⟨h.trans_lt (by norm_num [i64Max]), ?_⟩
  intro r hr
  obtain rfl := Option.some.inj hr
  obtain ⟨-, hden, hnum, -⟩ := a.rate.admitted
  simp only [Wire.Rate.InRange]
  omega

theorem format_inRange (f : FrameFormat) :
    (⟨f.numerator, f.denominator, f.dropFrame⟩ : Wire.FrameFormat).InRange := by
  have hbound : ∀ p ∈ frameRates, p.1 < 2 ^ 32 ∧ p.2 < 2 ^ 32 := by decide
  exact hbound _ f.supported.1

theorem wire_inRange {t : Timeline} (h : t.Valid) (hcount : t.Countable) : t.wire.InRange where
  version_lt := by norm_num [wire]
  session_length := t.session.toList_length.le
  revision_lt := hcount.revision_lt
  discontinuity_lt := hcount.discontinuity_lt t.active List.mem_cons_self
  sourceKind_mem := by
    simp only [wire]
    cases t.sourceKind <;> norm_num [SourceKind.wire]
  sourceHealth_mem := by
    simp only [wire]
    cases t.sourceHealth <;> norm_num [SourceHealth.wire]
  format := by
    rintro f hf
    obtain rfl := Option.some.inj hf
    exact format_inRange t.format
  anchor := by
    rintro a ha
    obtain rfl := Option.some.inj ha
    exact anchor_inRange (h.time_le t.active List.mem_cons_self)
  scheduled := by
    intro c hc
    obtain ⟨s, hs, rfl⟩ := List.mem_map.mp hc
    refine ⟨hcount.discontinuity_lt s (List.mem_cons_of_mem _ hs), ?_⟩
    intro a ha
    obtain rfl := Option.some.inj ha
    exact anchor_inRange (h.time_le s (List.mem_cons_of_mem _ hs))
  capacity := by
    rw [wire, List.length_map]
    exact h.capacity
  sessionId_length := by
    simp only [wire]
    cases t.sessionId with
    | none => exact Nat.zero_le 16
    | some b => exact b.toList_length.le

/-- The message of a valid timeline. -/
def bytes (t : Timeline) : Bytes := serialize t.wire.fields

theorem encode_wire {t : Timeline} (h : t.Valid) (hcount : t.Countable) :
    encode t.wire = .ok t.bytes :=
  encode_of_inRange (wire_inRange h hcount)

theorem bytes_length_le {t : Timeline} (h : t.Valid) (hcount : t.Countable) :
    t.bytes.length ≤ maxMessage :=
  Wire.Snapshot.length_le (wire_inRange h hcount)

theorem decodeSnapshot_bytes {t : Timeline} (h : t.Valid) (hcount : t.Countable) :
    decodeSnapshot t.bytes = .ok t.wire :=
  decodeSnapshot_encode (wire_inRange h hcount) (t.wire_wellFormed_iff.mpr h)

end Timeline

end Tidkod
