import Mathlib.Tactic
import Mathlib.Data.Nat.Digits.Defs

/-!
The proto3 wire format. A message is a list of numbered fields; a schema says
which fields a value has and how a field read back is merged into a value. The
results are the round trip from fields to bytes and back, and the number of
bytes an integer takes. No field is written as a group; one that is read is
skipped as a whole, so that a schema can take it for an unknown field. Groups
and messages may be nested up to a limit.
-/

namespace Proto3

abbrev Bytes := List UInt8

/-- Base 128 with continuation bits, least significant group first, in at most
`groups` bytes. -/
def varintAux : Nat → Nat → Bytes
  | 0, _ => []
  | groups + 1, n =>
      if n < 128 then [UInt8.ofNat n]
      else UInt8.ofNat (n % 128 + 128) :: varintAux groups (n / 128)

/-- The varint of a 64-bit value. -/
def varint (n : Nat) : Bytes := varintAux 10 n

def readVarintAux : Nat → Bytes → Option (Nat × Bytes)
  | 0, _ => none
  | _ + 1, [] => none
  | groups + 1, b :: rest =>
      if b.toNat < 128 then some (b.toNat, rest)
      else (readVarintAux groups rest).map (fun p => (b.toNat - 128 + 128 * p.1, p.2))

def readVarint (bytes : Bytes) : Option (Nat × Bytes) :=
  (readVarintAux 10 bytes).filter (fun p => p.1 < 2 ^ 64)

/-- Little-endian bytes of a fixed-width value. -/
def fixed : Nat → Nat → Bytes
  | 0, _ => []
  | width + 1, n => UInt8.ofNat (n % 256) :: fixed width (n / 256)

def readFixed : Nat → Bytes → Option (Nat × Bytes)
  | 0, bytes => some (0, bytes)
  | _ + 1, [] => none
  | width + 1, b :: rest => (readFixed width rest).map (fun p => (b.toNat + 256 * p.1, p.2))

inductive Value where
  | varint (n : Nat)
  | fixed64 (n : Nat)
  | bytes (content : Bytes)
  | group
  | fixed32 (n : Nat)
  deriving DecidableEq

structure Field where
  number : Nat
  value : Value
  deriving DecidableEq

def Field.encode (f : Field) : Bytes :=
  match f.value with
  | .varint n => varint (8 * f.number) ++ varint n
  | .fixed64 n => varint (8 * f.number + 1) ++ fixed 8 n
  | .bytes content => varint (8 * f.number + 2) ++ (varint content.length ++ content)
  | .group => varint (8 * f.number + 3) ++ varint (8 * f.number + 4)
  | .fixed32 n => varint (8 * f.number + 5) ++ fixed 4 n

/-- The key of a field: its number and its wire type. -/
def readKey (bytes : Bytes) : Option ((Nat × Nat) × Bytes) :=
  (readVarint bytes).bind (fun key =>
    if key.1 < 2 ^ 32 ∧ 8 ≤ key.1 then some ((key.1 / 8, key.1 % 8), key.2) else none)

/-- The content of a field other than a group, by the wire type of its key. -/
def readScalar (wireType : Nat) (bytes : Bytes) : Option (Value × Bytes) :=
  match wireType with
  | 0 => (readVarint bytes).map (fun p => (.varint p.1, p.2))
  | 1 => (readFixed 8 bytes).map (fun p => (.fixed64 p.1, p.2))
  | 2 => (readVarint bytes).bind (fun p =>
      if p.1 ≤ p.2.length then some (.bytes (p.2.take p.1), p.2.drop p.1) else none)
  | 5 => (readFixed 4 bytes).map (fun p => (.fixed32 p.1, p.2))
  | _ => none

/-- Reads past the fields of a group and the key that ends it. The key must carry the number of
the group. -/
def skipGroup : Nat → Nat → Nat → Bytes → Option Bytes
  | 0, _, _, _ => none
  | fuel + 1, limit, number, bytes =>
      (readKey bytes).bind (fun p =>
        if p.1.2 = 4 then if p.1.1 = number then some p.2 else none
        else
          match limit with
          | 0 => none
          | inner + 1 =>
              (if p.1.2 = 3 then skipGroup fuel inner p.1.1 p.2
                else (readScalar p.1.2 p.2).map Prod.snd).bind
                (skipGroup fuel (inner + 1) number))

/-- The content of a field. Every field of a group takes at least one byte. -/
def readValue (limit number wireType : Nat) (bytes : Bytes) : Option (Value × Bytes) :=
  if wireType = 3 then
    match limit with
    | 0 => none
    | inner + 1 => (skipGroup bytes.length inner number bytes).map (fun rest => (.group, rest))
  else readScalar wireType bytes

def readField (limit : Nat) (bytes : Bytes) : Option (Field × Bytes) :=
  (readKey bytes).bind (fun key =>
    (readValue limit key.1.1 key.1.2 key.2).map (fun p => (⟨key.1.1, p.1⟩, p.2)))

def parseAux (limit : Nat) : Nat → Bytes → Option (List Field)
  | _, [] => some []
  | 0, _ :: _ => none
  | fuel + 1, bytes =>
      (readField limit bytes).bind (fun p => (parseAux limit fuel p.2).map (p.1 :: ·))

/-- All fields of a message; each takes at least one byte. -/
def parse (limit : Nat) (bytes : Bytes) : Option (List Field) := parseAux limit bytes.length bytes

def serialize (fields : List Field) : Bytes := fields.flatMap Field.encode

/-- Reads a message by merging its fields into a starting value. -/
def decode {α : Type} (limit : Nat) (merge : α → Field → Option α) (start : α) (bytes : Bytes) :
    Option α :=
  (parse limit bytes).bind (fun fields => fields.foldlM merge start)

/-- Reads a message that is a field of another one. -/
def decodeNested {α : Type} (limit : Nat) (merge : Nat → α → Field → Option α) (start : α)
    (bytes : Bytes) : Option α :=
  match limit with
  | 0 => none
  | inner + 1 => decode inner (merge inner) start bytes

/-- Numbers and contents in the range of the format, and no group. -/
def Field.Valid (f : Field) : Prop :=
  1 ≤ f.number ∧ f.number < 2 ^ 29 ∧
    match f.value with
    | .varint n => n < 2 ^ 64
    | .fixed64 n => n < 2 ^ 64
    | .bytes content => content.length < 2 ^ 64
    | .group => False
    | .fixed32 n => n < 2 ^ 32

theorem toNat_ofNat_of_lt {n : Nat} (h : n < 256) : (UInt8.ofNat n).toNat = n := by
  simpa using Nat.mod_eq_of_lt h

theorem readVarintAux_varintAux {groups n : Nat} (hgroups : 0 < groups) (h : n < 128 ^ groups)
    (rest : Bytes) : readVarintAux groups (varintAux groups n ++ rest) = some (n, rest) := by
  induction groups generalizing n with
  | zero => exact absurd hgroups (lt_irrefl 0)
  | succ groups ih =>
      unfold varintAux
      split_ifs with hsmall
      · have hbyte : (UInt8.ofNat n).toNat = n := toNat_ofNat_of_lt (by omega)
        simp only [List.cons_append, List.nil_append, readVarintAux, hbyte, if_pos hsmall]
      · have hbyte : (UInt8.ofNat (n % 128 + 128)).toNat = n % 128 + 128 :=
          toNat_ofNat_of_lt (by omega)
        have hpos : 0 < groups := by
          rcases Nat.eq_zero_or_pos groups with hzero | hpos
          · rw [hzero] at h
            omega
          · exact hpos
        have hrest : n / 128 < 128 ^ groups := by
          rw [Nat.pow_succ] at h
          exact Nat.div_lt_of_lt_mul (by rwa [Nat.mul_comm] at h)
        have hcontinued : ¬ n % 128 + 128 < 128 := by omega
        simp only [List.cons_append, readVarintAux, hbyte, if_neg hcontinued, ih hpos hrest,
          Option.map_some]
        have hvalue : n % 128 + 128 - 128 + 128 * (n / 128) = n := by omega
        rw [hvalue]

@[simp] theorem readVarint_varint {n : Nat} (h : n < 2 ^ 64) (rest : Bytes) :
    readVarint (varint n ++ rest) = some (n, rest) := by
  have hgroups : n < 128 ^ 10 := h.trans (by norm_num)
  rw [readVarint, varint, readVarintAux_varintAux (by norm_num) hgroups]
  exact Option.filter_some_pos (by simpa using h)

/-- A value below `128 ^ k` takes at most `k` bytes. -/
theorem varintAux_length_le (groups : Nat) {k n : Nat} (hk : 0 < k) (h : n < 128 ^ k) :
    (varintAux groups n).length ≤ k := by
  induction groups generalizing k n with
  | zero => exact Nat.zero_le k
  | succ groups ih =>
      unfold varintAux
      split_ifs with hsmall
      · exact hk
      · obtain ⟨j, rfl⟩ := Nat.exists_eq_succ_of_ne_zero hk.ne'
        have hpos : 0 < j := by
          rcases Nat.eq_zero_or_pos j with hzero | hpos
          · rw [hzero] at h
            omega
          · exact hpos
        have hrest : n / 128 < 128 ^ j := by
          rw [Nat.pow_succ] at h
          exact Nat.div_lt_of_lt_mul (by rwa [Nat.mul_comm] at h)
        exact Nat.succ_le_succ (ih hpos hrest)

theorem varint_length_le {k n : Nat} (hk : 0 < k) (h : n < 128 ^ k) : (varint n).length ≤ k :=
  varintAux_length_le 10 hk h

theorem varint_length_pos (n : Nat) : 0 < (varint n).length := by
  unfold varint varintAux
  split_ifs <;> simp

@[simp] theorem fixed_length (width n : Nat) : (fixed width n).length = width := by
  induction width generalizing n with
  | zero => rfl
  | succ width ih => simp [fixed, ih]

theorem readFixed_fixed {width n : Nat} (h : n < 256 ^ width) (rest : Bytes) :
    readFixed width (fixed width n ++ rest) = some (n, rest) := by
  induction width generalizing n with
  | zero =>
      have hzero : n = 0 := by simpa using h
      rw [hzero]
      rfl
  | succ width ih =>
      have hbyte : (UInt8.ofNat (n % 256)).toNat = n % 256 :=
        toNat_ofNat_of_lt (Nat.mod_lt _ (by norm_num))
      have hrest : n / 256 < 256 ^ width := by
        rw [Nat.pow_succ] at h
        exact Nat.div_lt_of_lt_mul (by rwa [Nat.mul_comm] at h)
      simp only [fixed, List.cons_append, readFixed, hbyte, ih hrest, Option.map_some]
      rw [Nat.mod_add_div]

theorem readValue_of_ne {wireType : Nat} (h : wireType ≠ 3) (limit number : Nat) (bytes : Bytes) :
    readValue limit number wireType bytes = readScalar wireType bytes :=
  if_neg h

/-- What is encoded is read back, whatever follows. -/
theorem readField_encode {f : Field} (h : f.Valid) (limit : Nat) (rest : Bytes) :
    readField limit (f.encode ++ rest) = some (f, rest) := by
  obtain ⟨number, value⟩ := f
  obtain ⟨hlo, hhi, hvalue⟩ := h
  simp only at hlo hhi hvalue
  -- The key is read back and splits into field number and wire type.
  have hkey (wireType : Nat) (hwire : wireType < 8) (hgroup : wireType ≠ 3) (tail : Bytes) :
      readField limit (varint (8 * number + wireType) ++ tail) =
        (readScalar wireType tail).map (fun p => (⟨number, p.1⟩, p.2)) := by
    have hrange : 8 * number + wireType < 2 ^ 32 := by omega
    have htype : (8 * number + wireType) % 8 = wireType := by omega
    have hnumber : (8 * number + wireType) / 8 = number := by omega
    rw [readField, readKey, readVarint_varint (hrange.trans (by norm_num)), Option.bind_some,
      if_pos ⟨hrange, by omega⟩, Option.bind_some, htype, hnumber, readValue_of_ne hgroup]
  cases value with
  | varint n =>
      have hread := hkey 0 (by norm_num) (by norm_num) (varint n ++ rest)
      rw [Nat.add_zero] at hread
      rw [Field.encode, List.append_assoc, hread, readScalar, readVarint_varint hvalue]
      rfl
  | fixed64 n =>
      rw [Field.encode, List.append_assoc, hkey 1 (by norm_num) (by norm_num), readScalar,
        readFixed_fixed (by simpa using hvalue)]
      rfl
  | bytes content =>
      rw [Field.encode, List.append_assoc, hkey 2 (by norm_num) (by norm_num), readScalar,
        List.append_assoc, readVarint_varint hvalue, Option.bind_some, if_pos (by simp)]
      simp
  | group => exact hvalue.elim
  | fixed32 n =>
      rw [Field.encode, List.append_assoc, hkey 5 (by norm_num) (by norm_num), readScalar,
        readFixed_fixed (by simpa using hvalue)]
      rfl

theorem Field.encode_length_pos (f : Field) : 0 < f.encode.length := by
  obtain ⟨number, value⟩ := f
  have hkey (n : Nat) := varint_length_pos n
  cases value with
  | varint n => simpa [Field.encode] using Or.inl (hkey _)
  | fixed64 n => simp [Field.encode]
  | bytes content => simpa [Field.encode] using Or.inl (hkey _)
  | group => simpa [Field.encode] using Or.inl (hkey _)
  | fixed32 n => simp [Field.encode]

theorem parseAux_serialize {fields : List Field} (h : ∀ f ∈ fields, f.Valid) (limit : Nat)
    {fuel : Nat} (hfuel : (serialize fields).length ≤ fuel) :
    parseAux limit fuel (serialize fields) = some fields := by
  induction fields generalizing fuel with
  | nil => cases fuel <;> rfl
  | cons f rest ih =>
      have hpos := f.encode_length_pos
      have hbytes : serialize (f :: rest) = f.encode ++ serialize rest := rfl
      rw [hbytes, List.length_append] at hfuel
      obtain ⟨fuel, rfl⟩ : ∃ k, fuel = k + 1 := ⟨fuel - 1, by omega⟩
      have hrest : parseAux limit fuel (serialize rest) = some rest :=
        ih (fun g hg => h g (List.mem_cons_of_mem f hg)) (by omega)
      have hread := readField_encode (h f List.mem_cons_self) limit (serialize rest)
      rw [hbytes]
      cases hcons : f.encode ++ serialize rest with
      | nil =>
          have hlen := congrArg List.length hcons
          simp only [List.length_append, List.length_nil] at hlen
          omega
      | cons b tail =>
          rw [hcons] at hread
          simp only [parseAux, hread, Option.bind_some, hrest, Option.map_some]

theorem parse_serialize {fields : List Field} (h : ∀ f ∈ fields, f.Valid) (limit : Nat) :
    parse limit (serialize fields) = some fields :=
  parseAux_serialize h limit le_rfl

theorem decode_serialize {α : Type} {merge : α → Field → Option α} {start : α}
    {fields : List Field} (h : ∀ f ∈ fields, f.Valid) (limit : Nat) :
    decode limit merge start (serialize fields) = fields.foldlM merge start := by
  rw [decode, parse_serialize h, Option.bind_some]

/-- A field that proto3 leaves out at its default. -/
def present (keep : Prop) [Decidable keep] (f : Field) : List Field := if keep then [f] else []

/-- Merging a field that is left out at its default sets it either way. -/
theorem foldlM_present {α : Type} {merge : α → Field → Option α} {start next : α} {keep : Prop}
    [Decidable keep] {f : Field} (hmerge : keep → merge start f = some next)
    (hdefault : ¬ keep → start = next) :
    (present keep f).foldlM merge start = some next := by
  unfold present
  split_ifs with h
  · simp [hmerge h]
  · simp [hdefault h]

theorem valid_present {keep : Prop} [Decidable keep] {f : Field} (h : f.Valid) :
    ∀ g ∈ present keep f, g.Valid := by
  intro g hg
  unfold present at hg
  split_ifs at hg
  · exact List.mem_singleton.mp hg ▸ h
  · exact absurd hg List.not_mem_nil

theorem valid_append {first second : List Field} (hfirst : ∀ f ∈ first, f.Valid)
    (hsecond : ∀ f ∈ second, f.Valid) : ∀ f ∈ first ++ second, f.Valid :=
  List.forall_mem_append.mpr ⟨hfirst, hsecond⟩

/-- The size of a field that may be left out. -/
theorem serialize_present_length_le {keep : Prop} [Decidable keep] {f : Field} {size : Nat}
    (h : f.encode.length ≤ size) : (serialize (present keep f)).length ≤ size := by
  unfold present
  split_ifs
  · simpa [serialize] using h
  · simp [serialize]

theorem serialize_append (first second : List Field) :
    serialize (first ++ second) = serialize first ++ serialize second :=
  List.flatMap_append

/-- A submessage that proto3 leaves out when it is absent. -/
def message {α : Type} (number : Nat) (encode : α → Bytes) (o : Option α) : List Field :=
  o.toList.map (fun a => ⟨number, .bytes (encode a)⟩)

theorem foldlM_message {α β : Type} {merge : α → Field → Option α} {start next : α} {number : Nat}
    {encode : β → Bytes} {o : Option β}
    (hmerge : ∀ b, o = some b → merge start ⟨number, .bytes (encode b)⟩ = some next)
    (hdefault : o = none → start = next) :
    (message number encode o).foldlM merge start = some next := by
  cases o with
  | none => simp [message, hdefault]
  | some b => simp [message, hmerge b rfl]

theorem valid_message {α : Type} {number : Nat} {encode : α → Bytes} {o : Option α}
    (h : ∀ a, o = some a → (⟨number, .bytes (encode a)⟩ : Field).Valid) :
    ∀ f ∈ message number encode o, f.Valid := by
  cases o with
  | none => simp [message]
  | some a => simpa [message] using h a rfl

theorem serialize_message_length_le {α : Type} {number size : Nat} {encode : α → Bytes}
    {o : Option α}
    (h : ∀ a, o = some a → (Field.encode ⟨number, .bytes (encode a)⟩).length ≤ size) :
    (serialize (message number encode o)).length ≤ size := by
  cases o with
  | none => simp [message, serialize]
  | some a => simpa [message, serialize] using h a rfl

/-- A repeated submessage, one field for each of its values. -/
def repeated {α : Type} (number : Nat) (encode : α → Bytes) (values : List α) : List Field :=
  values.map (fun a => ⟨number, .bytes (encode a)⟩)

theorem foldlM_repeated {α β : Type} {merge : α → Field → Option α} (add : α → β → α)
    {number : Nat} {encode : β → Bytes} {values : List β}
    (hmerge : ∀ a, ∀ b ∈ values, merge a ⟨number, .bytes (encode b)⟩ = some (add a b)) (start : α) :
    (repeated number encode values).foldlM merge start = some (values.foldl add start) := by
  induction values generalizing start with
  | nil => rfl
  | cons b rest ih =>
      have hrest := ih (fun a c hc => hmerge a c (List.mem_cons_of_mem b hc)) (add start b)
      simp only [repeated, List.map_cons, List.foldlM_cons, hmerge start b List.mem_cons_self,
        List.foldl_cons, Option.bind_eq_bind, Option.bind_some]
      exact hrest

theorem valid_repeated {α : Type} {number : Nat} {encode : α → Bytes} {values : List α}
    (h : ∀ a ∈ values, (⟨number, .bytes (encode a)⟩ : Field).Valid) :
    ∀ f ∈ repeated number encode values, f.Valid :=
  List.forall_mem_map.mpr h

theorem serialize_repeated_length_le {α : Type} {number size : Nat} {encode : α → Bytes}
    {values : List α}
    (h : ∀ a ∈ values, (Field.encode ⟨number, .bytes (encode a)⟩).length ≤ size) :
    (serialize (repeated number encode values)).length ≤ values.length * size := by
  induction values with
  | nil => simp [repeated, serialize]
  | cons a rest ih =>
      have hrest := ih (fun b hb => h b (List.mem_cons_of_mem a hb))
      have hfirst := h a List.mem_cons_self
      have hcons : serialize (repeated number encode (a :: rest)) =
          Field.encode ⟨number, .bytes (encode a)⟩ ++ serialize (repeated number encode rest) := rfl
      rw [hcons, List.length_append, List.length_cons, Nat.succ_mul]
      omega

theorem foldlM_append_some {α : Type} {merge : α → Field → Option α} {a b c : α}
    {first second : List Field} (hfirst : first.foldlM merge a = some b)
    (hsecond : second.foldlM merge b = some c) :
    (first ++ second).foldlM merge a = some c := by
  rw [List.foldlM_append, hfirst]
  exact hsecond

/-- Keys of fields up to number fifteen take one byte. -/
theorem key_length_le {number wireType : Nat} (hnumber : number ≤ 15) (hwire : wireType < 8) :
    (varint (8 * number + wireType)).length ≤ 1 :=
  varint_length_le (by norm_num) (by omega)

theorem encode_varint_length_le {number n k : Nat} (hnumber : number ≤ 15) (hk : 0 < k)
    (h : n < 128 ^ k) : (Field.encode ⟨number, .varint n⟩).length ≤ k + 1 := by
  have hkey : (varint (8 * number)).length ≤ 1 := key_length_le hnumber (by norm_num : 0 < 8)
  have hvalue := varint_length_le hk h
  simp only [Field.encode, List.length_append]
  omega

theorem encode_fixed32_length_le {number n : Nat} (hnumber : number ≤ 15) :
    (Field.encode ⟨number, .fixed32 n⟩).length ≤ 5 := by
  have hkey := key_length_le hnumber (by norm_num : 5 < 8)
  simp only [Field.encode, List.length_append, fixed_length]
  omega

theorem encode_bytes_length_le {number size : Nat} {content : Bytes} (hnumber : number ≤ 15)
    (hcontent : content.length ≤ size) (hsize : size < 128) :
    (Field.encode ⟨number, .bytes content⟩).length ≤ size + 2 := by
  have hkey := key_length_le hnumber (by norm_num : 2 < 8)
  have hlength : (varint content.length).length ≤ 1 := varint_length_le (by norm_num) (by omega)
  simp only [Field.encode, List.length_append]
  omega

/-- The zigzag form of a signed integer. -/
def zigzag (n : Int) : Nat := if 0 ≤ n then (2 * n).toNat else (-2 * n - 1).toNat

def unzigzag (n : Nat) : Int := if n % 2 = 0 then (n / 2 : Nat) else -((n / 2 : Nat) : Int) - 1

@[simp] theorem unzigzag_zigzag (n : Int) : unzigzag (zigzag n) = n := by
  unfold unzigzag zigzag
  split_ifs <;> omega

/-- A value of `bits` bits doubles in zigzag form. -/
theorem zigzag_lt {n : Int} {bound : Nat} (hlo : -(bound : Int) ≤ n) (hhi : n < bound) :
    zigzag n < 2 * bound := by
  unfold zigzag
  split_ifs <;> omega

end Proto3
