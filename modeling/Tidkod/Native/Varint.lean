import Mathlib.Tactic
import Tidkod.Lib.PrefixDecoder
import Tidkod.Native.RecvStream

/-!
The variable-length integers of QUIC in `transport/web.rs`: a length of 1, 2, 4 or 8
bytes in the top two bits of the first, and the value in the remaining bits, big endian.
`VarRead` reads one off a stream that arrives in pieces and never reads past it.
-/

namespace Tidkod

namespace Transport

open Proto3 PrefixDecoder

/-- `to_be_bytes` of an integer of so many bytes. -/
def beBytes : Nat → Nat → Bytes
  | 0, _ => []
  | width + 1, n => UInt8.ofNat (n / 256 ^ width) :: beBytes width n

/-- `encode_varint`, what it appends. -/
def encodeVarint (value : Nat) : Bytes :=
  if value < 1 <<< 6 then [UInt8.ofNat value]
  else if value < 1 <<< 14 then beBytes 2 (value ||| 0x4000)
  else if value < 1 <<< 30 then beBytes 4 (value ||| 0x80000000)
  else beBytes 8 (value ||| 0xc000000000000000)

/-- The number of bytes that the first one announces. -/
def varintLen (first : UInt8) : Nat := 1 <<< (first.toNat >>> 6)

/-- The bits of the first byte and the bytes after it, put together. -/
def varintValue (first : UInt8) (rest : Bytes) : Nat :=
  rest.foldl (fun value byte => (value <<< 8) ||| byte.toNat) (first.toNat &&& 0x3f)

/-- `decode_varint`, with the slice it leaves. -/
def decodeVarint : Bytes → Option (Nat × Bytes)
  | [] => none
  | first :: rest =>
      if rest.length + 1 < varintLen first then none
      else some (varintValue first (rest.take (varintLen first - 1)),
        rest.drop (varintLen first - 1))

theorem varintLen_pos (first : UInt8) : 0 < varintLen first := by
  rw [varintLen, Nat.one_shiftLeft]
  positivity

theorem varintLen_le (first : UInt8) : varintLen first ≤ 8 := by
  have htop : first.toNat >>> 6 ≤ 3 := by
    rw [Nat.shiftRight_eq_div_pow]
    have := first.toNat_lt
    omega
  calc
    varintLen first = 2 ^ (first.toNat >>> 6) := Nat.one_shiftLeft _
    _ ≤ 2 ^ 3 := Nat.pow_le_pow_right (by norm_num) htop

@[simp] theorem length_beBytes (width n : Nat) : (beBytes width n).length = width := by
  induction width with
  | zero => rfl
  | succ width ih => rw [beBytes, List.length_cons, ih]

/-- Big-endian bytes are put together again, below what they are appended to. -/
theorem foldl_beBytes (width n value : Nat) :
    (beBytes width n).foldl (fun value byte => (value <<< 8) ||| byte.toNat) value =
      value * 256 ^ width + n % 256 ^ width := by
  induction width generalizing value with
  | zero => simp [beBytes, Nat.mod_one]
  | succ width ih =>
      have hbyte : (UInt8.ofNat (n / 256 ^ width)).toNat = n / 256 ^ width % 256 := by simp
      have hshift : (value <<< 8) ||| (n / 256 ^ width % 256) =
          value * 256 + n / 256 ^ width % 256 := by
        rw [Nat.shiftLeft_eq, mul_comm value]
        exact (Nat.two_pow_add_eq_or_of_lt (i := 8) (Nat.mod_lt _ (by norm_num)) value).symm
      have hdigits : n % 256 ^ (width + 1) =
          256 ^ width * (n / 256 ^ width % 256) + n % 256 ^ width := by
        rw [pow_succ, Nat.mod_mul, add_comm]
      rw [beBytes, List.foldl_cons, hbyte, hshift, ih, hdigits, pow_succ]
      ring

/-- A value below the length bits, with the bits of its own length above it. -/
theorem decode_tagged (tag width : Nat) {value : Nat} (htag : tag ≤ 3)
    (hwidth : width + 1 = 2 ^ tag) (hvalue : value < 64 * 256 ^ width) (rest : Bytes) :
    decodeVarint (beBytes (width + 1) (value + tag * 64 * 256 ^ width) ++ rest) =
      some (value, rest) := by
  have hpos : 0 < 256 ^ width := by positivity
  obtain ⟨high, hhigh⟩ : ∃ high, value / 256 ^ width = high := ⟨_, rfl⟩
  have hlt : high < 64 := hhigh ▸ Nat.div_lt_of_lt_mul (by linarith)
  have htop : (value + tag * 64 * 256 ^ width) / 256 ^ width = high + tag * 64 := by
    rw [Nat.add_mul_div_right _ _ hpos, hhigh]
  have hfirst : (UInt8.ofNat (high + tag * 64)).toNat = high + tag * 64 := by
    rw [UInt8.toNat_ofNat']
    omega
  have hlen : varintLen (UInt8.ofNat (high + tag * 64)) = width + 1 := by
    have hbits : (high + tag * 64) / 2 ^ 6 = tag := by omega
    rw [varintLen, hfirst, Nat.shiftRight_eq_div_pow, hbits, Nat.one_shiftLeft, hwidth]
  have hmask : (high + tag * 64) &&& 0x3f = high := by
    have hmod := Nat.and_two_pow_sub_one_eq_mod (high + tag * 64) 6
    norm_num at hmod
    omega
  have hlow : (value + tag * 64 * 256 ^ width) % 256 ^ width = value % 256 ^ width :=
    Nat.add_mul_mod_self_right _ _ _
  rw [beBytes, htop, List.cons_append, decodeVarint, hlen]
  have hlong : ¬ (beBytes width (value + tag * 64 * 256 ^ width) ++ rest).length + 1 <
      width + 1 := by
    simp
  rw [if_neg hlong, Nat.add_sub_cancel,
    List.take_left' (length_beBytes width _), List.drop_left' (length_beBytes width _),
    varintValue, foldl_beBytes, hfirst, hmask, hlow, ← hhigh, Nat.div_add_mod']

theorem decodeVarint_encodeVarint {value : Nat} (h : value < 2 ^ 62) (rest : Bytes) :
    decodeVarint (encodeVarint value ++ rest) = some (value, rest) := by
  -- The length bits lie above the value, so that setting them adds them.
  have hor {value top : Nat} (hlt : value < 2 ^ top) (tag : Nat) :
      value ||| (2 ^ top * tag) = value + 2 ^ top * tag := by
    rw [Nat.or_comm, add_comm]
    exact (Nat.two_pow_add_eq_or_of_lt hlt tag).symm
  unfold encodeVarint
  split_ifs with h6 h14 h30
  · have hone := decode_tagged 0 0 (by norm_num) (by norm_num)
      (show value < _ by simpa [Nat.one_shiftLeft] using h6) rest
    simpa [beBytes] using hone
  · have hlt : value < 2 ^ 14 := by simpa [Nat.one_shiftLeft] using h14
    have htwo := decode_tagged 1 1 (by norm_num) (by norm_num)
      (show value < _ by norm_num at hlt ⊢; exact hlt) rest
    have hbits : value ||| 0x4000 = value + 1 * 64 * 256 ^ 1 := hor hlt 1
    rw [hbits]
    exact htwo
  · have hlt : value < 2 ^ 30 := by simpa [Nat.one_shiftLeft] using h30
    have hfour := decode_tagged 2 3 (by norm_num) (by norm_num)
      (show value < _ by norm_num at hlt ⊢; exact hlt) rest
    have hbits : value ||| 0x80000000 = value + 2 * 64 * 256 ^ 3 := hor hlt 2
    rw [hbits]
    exact hfour
  · have height := decode_tagged 3 7 (by norm_num) (by norm_num)
      (show value < _ by norm_num at h ⊢; exact h) rest
    have hbits : value ||| 0xc000000000000000 = value + 3 * 64 * 256 ^ 7 := hor h 3
    rw [hbits]
    exact height

theorem decodeVarint_append {xs rest : Bytes} {value : Nat}
    (h : decodeVarint xs = some (value, rest)) (ys : Bytes) :
    decodeVarint (xs ++ ys) = some (value, rest ++ ys) := by
  cases xs with
  | nil => cases h
  | cons first tail =>
      simp only [decodeVarint] at h
      split_ifs at h with hshort
      simp only [Option.some.injEq, Prod.mk.injEq] at h
      obtain ⟨rfl, rfl⟩ := h
      have hlen := varintLen_pos first
      have hlong : ¬ (tail ++ ys).length + 1 < varintLen first := by
        rw [List.length_append]
        omega
      have hfit : varintLen first - 1 ≤ tail.length := by omega
      rw [List.cons_append, decodeVarint, if_neg hlong, List.take_append_of_le_length hfit,
        List.drop_append_of_le_length hfit]

/-- `decode_varint` as a decoder that never fails. -/
def varintDecoder {ε : Type} (bytes : Bytes) : Except ε (Option (Nat × Bytes)) :=
  .ok (decodeVarint bytes)

theorem varintDecoder_stable {ε : Type} : Stable (varintDecoder (ε := ε)) where
  item := by
    intro xs value rest h ys
    exact congrArg Except.ok (decodeVarint_append (Except.ok.inj h) ys)
  error := fun h => by cases h

/-- The first `have` bytes of the buffer. -/
structure VarRead where
  buf : Bytes
  deriving DecidableEq

inductive VarPoll where
  | value (n : Nat)
  | ended
  deriving DecidableEq

namespace VarRead

def default : VarRead := ⟨[]⟩

def need (r : VarRead) : Nat :=
  match r.buf with
  | [] => 1
  | first :: _ => varintLen first

/-- The value once all its bytes are there. -/
def value (r : VarRead) : Nat :=
  match r.buf with
  | [] => 0
  | first :: rest => varintValue first (rest.take (r.need - 1))

variable {σ : Type} (q : ChunkReader σ)

/-- Each round reads at least one of the at most eight bytes, so that nine rounds decide.
`none` is `Pending`. -/
def pollRounds : Nat → VarRead → Connected σ → Nat → VarRead × Connected σ × Option VarPoll
  | 0, r, c, _ => (r, c, none)
  | rounds + 1, r, c, waker =>
      if r.need ≤ r.buf.length then (r, c, some (.value r.value))
      else
        match RecvStream.pollRead q c waker (r.need - r.buf.length) with
        | (c, .pending) => (r, c, none)
        | (c, .ready (.ok (some b))) => pollRounds rounds ⟨r.buf ++ b⟩ c waker
        | (c, .ready _) => (r, c, some .ended)

def poll (r : VarRead) (c : Connected σ) (waker : Nat) : VarRead × Connected σ × Option VarPoll :=
  pollRounds q 9 r c waker

end VarRead

namespace RecvStream

variable {σ : Type} {q : ChunkReader σ} {unread : σ → Bytes} {finished : σ → Bool}

/-- The bytes that are still to be handed over. -/
def remaining (unread : σ → Bytes) (c : Connected σ) : Bytes := c.stream.backlog ++ unread c.proto

/-- A stream that has ended has nothing left. -/
def Sane (unread : σ → Bytes) (finished : σ → Bool) (c : Connected σ) : Prop :=
  Faithful unread finished (remaining unread c) [] c

theorem sane_new (proto : σ) (shared : Shared) : Sane unread finished (new proto shared) :=
  ⟨rfl, fun h => absurd h (by simp [new])⟩

/-- No stream of the connection is reset or unreadable. -/
def ChunkReader.Reliable (q : ChunkReader σ) : Prop :=
  ∀ s max, (∀ text, (q.next s max).2.1 ≠ .unreadable text) ∧
    ∀ code, (q.next s max).2.1 ≠ .reset code

/-- What a read leaves, by its result. -/
inductive ReadStep (q : ChunkReader σ) (unread : σ → Bytes) (finished : σ → Bool)
    (c : Connected σ) (waker len : Nat) : Connected σ × Poll (Option Bytes) → Prop where
  | bytes (next : Connected σ) (b : Bytes) (hnonempty : b ≠ []) (hlen : b.length ≤ len)
      (hsane : Sane unread finished next)
      (hremaining : remaining unread c = b ++ remaining unread next) :
      ReadStep q unread finished c waker len (next, .ready (.ok (some b)))
  | ended (next : Connected σ) (hsane : Sane unread finished next)
      (hall : remaining unread c = []) (hnone : remaining unread next = [])
      (hfinished : finished next.proto = true) :
      ReadStep q unread finished c waker len (next, .ready (.ok none))
  | failed (next : Connected σ) (e : Error) (hsane : Sane unread finished next)
      (hremaining : remaining unread next = remaining unread c)
      (hfault : c.shared.error = some e ∨ ¬ ChunkReader.Reliable q) :
      ReadStep q unread finished c waker len (next, .ready (.error e))
  | pending (next : Connected σ) (hsane : Sane unread finished next)
      (hremaining : remaining unread next = remaining unread c)
      (hparked : waker ∈ next.shared.waiters) :
      ReadStep q unread finished c waker len (next, .pending)

theorem mem_park (s : Shared) (waker : Nat) : waker ∈ (s.park waker).waiters := by
  unfold Shared.park
  split_ifs with hmem
  · exact hmem
  · simp

/-- A read that has to wait has parked its waker. -/
theorem read_parked (c : Connected σ) (waker max : Nat)
    (h : (read q c waker max).2 = .pending) :
    waker ∈ (read q c waker max).1.shared.waiters := by
  revert h
  unfold read
  by_cases hended : c.stream.ended = true
  · rw [if_pos hended]
    exact fun h => by cases h
  rw [if_neg hended]
  have hentered : (c.shared.enter waker).2 = .pending →
      waker ∈ (c.shared.enter waker).1.waiters := by
    unfold Shared.enter
    cases c.shared.error with
    | some e => exact fun h => by cases h
    | none =>
        dsimp only
        split_ifs
        · exact fun _ => mem_park _ waker
        · exact fun h => by cases h
  rcases hresult : c.shared.enter waker with ⟨shared, _ | ⟨e | ⟨⟩⟩⟩
  · rw [hresult] at hentered
    exact fun _ => hentered rfl
  · exact fun h => by cases h
  · rcases q.next c.proto max with ⟨proto, chunk, transmit⟩
    cases chunk with
    | blocked => exact fun _ => mem_park _ waker
    | unreadable text => exact fun h => by cases h
    | bytes b => exact fun h => by cases h
    | finished => exact fun h => by cases h
    | reset code => exact fun h => by cases h

theorem park_error (s : Shared) (waker : Nat) : (s.park waker).error = s.error := by
  unfold Shared.park
  split_ifs
  · rfl
  · rfl

theorem enter_error (s : Shared) (waker : Nat) : (s.enter waker).1.error = s.error := by
  unfold Shared.enter
  cases herror : s.error with
  | some e => exact herror
  | none =>
      dsimp only
      split_ifs
      · exact park_error _ waker
      · exact herror

/-- Reading does not touch the error of the connection, and fails with that error or with
one of the stream. -/
theorem read_error (c : Connected σ) (waker max : Nat) :
    (read q c waker max).1.shared.error = c.shared.error ∧
      ∀ e, (read q c waker max).2 = .ready (.error e) →
        c.shared.error = some e ∨ ¬ ChunkReader.Reliable q := by
  unfold read
  by_cases hended : c.stream.ended = true
  · rw [if_pos hended]
    exact ⟨rfl, fun e h => by cases h⟩
  rw [if_neg hended]
  have hentered := enter_error c.shared waker
  have hrefused : ∀ e, (c.shared.enter waker).2 = .ready (.error e) → c.shared.error = some e := by
    unfold Shared.enter
    cases c.shared.error with
    | some e => exact fun e' h => by cases h; rfl
    | none =>
        dsimp only
        split_ifs
        · exact fun e h => by cases h
        · exact fun e h => by cases h
  rcases hresult : c.shared.enter waker with ⟨shared, _ | ⟨e | u⟩⟩
  · rw [hresult] at hentered
    exact ⟨hentered, fun e h => by cases h⟩
  · rw [hresult] at hentered hrefused
    exact ⟨hentered, fun e' h => Or.inl (hrefused e' (by cases h; rfl))⟩
  · cases u
    rw [hresult] at hentered
    rcases hnext : q.next c.proto max with ⟨proto, chunk, transmit⟩
    have hsent : (if transmit = true then shared.changed else shared).error = c.shared.error := by
      split_ifs
      · exact hentered
      · exact hentered
    cases chunk with
    | blocked => exact ⟨(park_error _ waker).trans hsent, fun e h => by cases h⟩
    | bytes b => exact ⟨hsent, fun e h => by cases h⟩
    | finished => exact ⟨hsent, fun e h => by cases h⟩
    | unreadable text =>
        refine ⟨hentered, fun _ _ => Or.inr fun hreliable => ?_⟩
        exact (hreliable c.proto max).1 text (by rw [hnext])
    | reset code =>
        refine ⟨hsent, fun _ _ => Or.inr fun hreliable => ?_⟩
        exact (hreliable c.proto max).2 code (by rw [hnext])

theorem handOver_error (c : Connected σ) (len : Nat) :
    (handOver c len).1.shared.error = c.shared.error := by
  unfold handOver
  dsimp only
  split_ifs
  · rfl
  · rfl

theorem pollRead_error (c : Connected σ) (waker len : Nat) :
    (pollRead q c waker len).1.shared.error = c.shared.error ∧
      ∀ e, (pollRead q c waker len).2 = .ready (.error e) →
        c.shared.error = some e ∨ ¬ ChunkReader.Reliable q := by
  unfold pollRead
  split_ifs
  · exact ⟨rfl, fun e h => by cases h⟩
  · have hread := read_error (q := q) c waker len
    generalize read q c waker len = result at hread ⊢
    rcases result with ⟨next, _ | ⟨e | _ | b⟩⟩
    · exact hread
    · exact hread
    · exact hread
    · exact ⟨(handOver_error _ len).trans hread.1, fun e h => by cases h⟩
  · exact ⟨handOver_error c len, fun e h => by cases h⟩

theorem Faithful.sane {sent returned : Bytes} {c : Connected σ}
    (h : Faithful unread finished sent returned c) : Sane unread finished c :=
  ⟨rfl, h.ended⟩

theorem Faithful.remaining_eq {sent returned : Bytes} {c : Connected σ}
    (h : Faithful unread finished sent returned c) : sent = returned ++ remaining unread c := by
  rw [← h.conserved, remaining, List.append_assoc]

/-- Bytes are handed over only from a backlog that has some. -/
theorem handOver_nonempty {c next : Connected σ} {len : Nat} {b : Bytes} (hlen : len ≠ 0)
    (hbacklog : c.stream.backlog ≠ []) (h : handOver c len = (next, .ready (.ok (some b)))) :
    b ≠ [] := by
  simp only [handOver, Prod.mk.injEq, Poll.ready.injEq, Except.ok.injEq, Option.some.injEq] at h
  rw [← h.2, Ne, List.take_eq_nil_iff, not_or]
  have hpos := List.length_pos_iff.mpr hbacklog
  exact ⟨by omega, hbacklog⟩

theorem pollRead_parked (c : Connected σ) (waker len : Nat)
    (h : (pollRead q c waker len).2 = .pending) :
    waker ∈ (pollRead q c waker len).1.shared.waiters := by
  revert h
  unfold pollRead
  by_cases hlen : len = 0
  · rw [if_pos hlen]
    exact fun h => by cases h
  rw [if_neg hlen]
  by_cases hbacklog : c.stream.backlog.isEmpty = true
  · rw [if_pos hbacklog]
    have hparked := read_parked (q := q) c waker len
    rcases hread : read q c waker len with ⟨next, _ | ⟨e | _ | b⟩⟩
    · rw [hread] at hparked
      exact hparked
    · exact fun h => by cases h
    · exact fun h => by cases h
    · exact fun h => by cases h
  · rw [if_neg hbacklog]
    exact fun h => by cases h

theorem pollRead_nonempty (hq : q.Ordered unread finished) {c next : Connected σ}
    {waker len : Nat} {b : Bytes} (hlen : len ≠ 0)
    (h : pollRead q c waker len = (next, .ready (.ok (some b)))) : b ≠ [] := by
  unfold pollRead at h
  rw [if_neg hlen] at h
  by_cases hbacklog : c.stream.backlog = []
  · rw [if_pos (by simpa using hbacklog)] at h
    have houtcome := read_outcome hq c waker (Nat.pos_of_ne_zero hlen)
    generalize read q c waker len = result at houtcome h
    cases houtcome with
    | past => cases h
    | ended => cases h
    | bytes read b' _ _ hnonempty => exact handOver_nonempty hlen hnonempty h
    | nothing _ result _ _ _ hresult =>
        obtain rfl | ⟨e, rfl⟩ := Poll.pending_or_error hresult
        · cases h
        · cases h
  · rw [if_neg (by simpa using hbacklog)] at h
    exact handOver_nonempty hlen hbacklog h

/-- The end is returned only of a stream that the peer has finished. -/
theorem Sane.finished_of_none {c : Connected σ} (h : Sane unread finished c)
    (hq : q.Ordered unread finished) {waker len : Nat}
    (hnone : (RecvStream.pollRead q c waker len).2 = .ready (.ok none)) :
    finished c.proto = true := by
  revert hnone
  unfold RecvStream.pollRead read
  by_cases hlen : len = 0
  · rw [if_pos hlen]
    exact fun h => by cases h
  rw [if_neg hlen]
  by_cases hbacklog : c.stream.backlog.isEmpty = true
  · rw [if_pos hbacklog]
    by_cases hended : c.stream.ended = true
    · exact fun _ => (h.ended hended).2.2
    rw [if_neg hended]
    rcases c.shared.enter waker with ⟨shared, _ | ⟨e | u⟩⟩
    · exact fun h => by cases h
    · exact fun h => by cases h
    · rcases hnext : q.next c.proto len with ⟨proto, chunk, transmit⟩
      cases chunk with
      | finished => exact fun _ => (hq.ended hnext).2.1
      | blocked => exact fun h => by cases h
      | unreadable text => exact fun h => by cases h
      | bytes b => exact fun h => by cases h
      | reset code => exact fun h => by cases h
  · rw [if_neg hbacklog]
    exact fun h => by cases h

theorem Sane.pollRead {c : Connected σ} (h : Sane unread finished c)
    (hq : q.Ordered unread finished) (waker : Nat) {len : Nat} (hlen : len ≠ 0) :
    ReadStep q unread finished c waker len (pollRead q c waker len) := by
  have hpolled := Faithful.pollRead h hq waker len
  have hnonempty (next : Connected σ) (b : Bytes)
      (hb : RecvStream.pollRead q c waker len = (next, .ready (.ok (some b)))) : b ≠ [] :=
    pollRead_nonempty hq hlen hb
  have hparked := pollRead_parked (q := q) c waker len
  have hfault := (pollRead_error (q := q) c waker len).2
  generalize RecvStream.pollRead q c waker len = result at hpolled hnonempty hparked hfault ⊢
  cases hpolled with
  | bytes next b hfits hnext =>
      exact .bytes next b (hnonempty next b rfl) hfits hnext.sane
        (by simpa using hnext.remaining_eq)
  | ended next hnext hall hfinished =>
      have hnone : remaining unread next = [] := by
        have heq := hnext.remaining_eq
        rw [← hall] at heq
        simpa using heq.symm
      exact .ended next hnext.sane hall.symm hnone hfinished
  | nothing next result hnext hresult =>
      have hsame : remaining unread next = remaining unread c := by
        simpa using hnext.remaining_eq.symm
      obtain rfl | ⟨e, rfl⟩ := Poll.pending_or_error hresult
      · exact .pending next hnext.sane hsame (hparked rfl)
      · exact .failed next e hnext.sane hsame (hfault e rfl)

end RecvStream

namespace VarRead

variable {σ : Type} {q : ChunkReader σ} {unread : σ → Bytes} {finished : σ → Bool}

open RecvStream

/-- No more has been read than the integer takes. -/
def Within (r : VarRead) : Prop := r.buf.length ≤ r.need

theorem within_default : default.Within := Nat.zero_le 1

/-- The first byte decides how many are needed, whatever follows it. -/
theorem Within.append {r : VarRead} (h : r.Within) {b : Bytes}
    (hfits : b.length ≤ r.need - r.buf.length) : Within ⟨r.buf ++ b⟩ := by
  obtain ⟨buf⟩ := r
  cases buf with
  | nil =>
      simp only [Within, need, List.nil_append, List.length_nil] at *
      cases b with
      | nil => exact Nat.zero_le 1
      | cons first rest =>
          have hpos := varintLen_pos first
          simp only [List.length_cons] at *
          omega
  | cons first rest =>
      simp only [Within, need, List.cons_append, List.length_cons, List.length_append] at *
      omega

theorem decodeVarint_of_complete {r : VarRead} (h : r.Within) (hcomplete : r.need ≤ r.buf.length)
    (rest : Bytes) : decodeVarint (r.buf ++ rest) = some (r.value, rest) := by
  obtain ⟨buf⟩ := r
  cases buf with
  | nil => exact absurd hcomplete (by simp [need])
  | cons first tail =>
      simp only [Within, need, List.length_cons] at h hcomplete
      have hlen : varintLen first = tail.length + 1 := by omega
      have hwhole : decodeVarint (first :: tail) = some (varintValue first tail, []) := by
        rw [decodeVarint, if_neg (by omega), hlen, Nat.add_sub_cancel, List.take_length,
          List.drop_length]
      have hvalue : value ⟨first :: tail⟩ = varintValue first tail := by
        simp only [value, need, hlen, Nat.add_sub_cancel, List.take_length]
      rw [decodeVarint_append hwhole, hvalue, List.nil_append]

theorem decodeVarint_of_incomplete {r : VarRead} (h : r.buf.length < r.need) :
    decodeVarint r.buf = none := by
  obtain ⟨buf⟩ := r
  cases buf with
  | nil => rfl
  | cons first tail =>
      simp only [need, List.length_cons] at h
      rw [decodeVarint, if_pos h]

/-- What a poll leaves, by its result: the stream behind the integer it has read, or the
part of it that is there. -/
inductive PollStep (q : ChunkReader σ) (unread : σ → Bytes) (finished : σ → Bool) (r : VarRead)
    (c : Connected σ) (waker : Nat) : VarRead × Connected σ × Option VarPoll → Prop where
  | value (r' : VarRead) (next : Connected σ) (n : Nat) (hsane : Sane unread finished next)
      (hvalue : decodeVarint (r.buf ++ remaining unread c) = some (n, remaining unread next)) :
      PollStep q unread finished r c waker (r', next, some (.value n))
  | ended (r' : VarRead) (next : Connected σ) (hfinished : finished next.proto = true)
      (hshort : decodeVarint (r.buf ++ remaining unread c) = none) :
      PollStep q unread finished r c waker (r', next, some .ended)
  | died (r' : VarRead) (next : Connected σ) (e : Error)
      (hfault : c.shared.error = some e ∨ ¬ ChunkReader.Reliable q) :
      PollStep q unread finished r c waker (r', next, some .ended)
  | pending (r' : VarRead) (next : Connected σ) (hsane : Sane unread finished next)
      (hwithin : r'.Within) (hshort : r'.buf.length < r'.need)
      (hkept : r'.buf ++ remaining unread next = r.buf ++ remaining unread c)
      (hparked : waker ∈ next.shared.waiters) :
      PollStep q unread finished r c waker (r', next, none)

theorem need_le (r : VarRead) : r.need ≤ 8 := by
  obtain ⟨buf⟩ := r
  cases buf with
  | nil => exact Nat.one_le_ofNat
  | cons first tail => exact varintLen_le first

/-- A round that reads some bytes passes what it has read on to the next one. -/
theorem PollStep.after_bytes {r : VarRead} {c next : Connected σ} {waker : Nat} {b : Bytes}
    {result : VarRead × Connected σ × Option VarPoll}
    (hremaining : remaining unread c = b ++ remaining unread next)
    (herror : next.shared.error = c.shared.error)
    (h : PollStep q unread finished ⟨r.buf ++ b⟩ next waker result) :
    PollStep q unread finished r c waker result := by
  have hsame : r.buf ++ b ++ remaining unread next = r.buf ++ remaining unread c := by
    rw [hremaining, List.append_assoc]
  cases h with
  | value r' last n hsane hvalue => exact .value r' last n hsane (hsame ▸ hvalue)
  | ended r' last hfinished hshort => exact .ended r' last hfinished (hsame ▸ hshort)
  | died r' last e hfault => exact .died r' last e (herror ▸ hfault)
  | pending r' last hsane hwithin hshort hkept hparked =>
      exact .pending r' last hsane hwithin hshort (hkept.trans hsame) hparked

theorem pollRounds_step (hq : q.Ordered unread finished) (rounds : Nat) {r : VarRead}
    (hwithin : r.Within) {c : Connected σ} (hsane : Sane unread finished c) (waker : Nat)
    (hrounds : 9 ≤ rounds + r.buf.length) :
    PollStep q unread finished r c waker (pollRounds q rounds r c waker) := by
  induction rounds generalizing r c with
  | zero =>
      have hneed := r.need_le
      have hbuf := hwithin
      unfold Within at hbuf
      omega
  | succ rounds ih =>
      unfold pollRounds
      by_cases hcomplete : r.need ≤ r.buf.length
      · rw [if_pos hcomplete]
        exact .value r c r.value hsane (decodeVarint_of_complete hwithin hcomplete _)
      rw [if_neg hcomplete]
      have hread := hsane.pollRead hq waker (Nat.sub_ne_zero_of_lt (not_le.mp hcomplete))
      have herror := (pollRead_error (q := q) c waker (r.need - r.buf.length)).1
      generalize RecvStream.pollRead q c waker (r.need - r.buf.length) = result at hread herror ⊢
      cases hread with
      | bytes next b hnonempty hlen hnext hremaining =>
          have hpos := List.length_pos_iff.mpr hnonempty
          refine PollStep.after_bytes hremaining herror (ih (hwithin.append hlen) hnext ?_)
          simp only [List.length_append]
          omega
      | ended next hnext hall hnone hfinished =>
          refine .ended r next hfinished ?_
          rw [hall, List.append_nil]
          exact decodeVarint_of_incomplete (not_le.mp hcomplete)
      | failed next e hnext hremaining hfault => exact .died r next e hfault
      | pending next hnext hremaining hparked =>
          exact .pending r next hnext hwithin (not_le.mp hcomplete) (by rw [hremaining]) hparked

theorem pollRounds_error (rounds : Nat) (r : VarRead) (c : Connected σ) (waker : Nat) :
    (pollRounds q rounds r c waker).2.1.shared.error = c.shared.error := by
  induction rounds generalizing r c with
  | zero => rfl
  | succ rounds ih =>
      unfold pollRounds
      split_ifs
      · rfl
      have herror := (pollRead_error (q := q) c waker (r.need - r.buf.length)).1
      generalize RecvStream.pollRead q c waker (r.need - r.buf.length) = result at herror ⊢
      rcases result with ⟨next, _ | ⟨e | _ | b⟩⟩
      · exact herror
      · exact herror
      · exact herror
      · exact (ih _ next).trans herror

/-- An integer is read as it is decoded from the whole stream, however the stream arrives,
and what follows it stays on the stream. -/
theorem poll_step (hq : q.Ordered unread finished) {r : VarRead} (hwithin : r.Within)
    {c : Connected σ} (hsane : Sane unread finished c) (waker : Nat) :
    PollStep q unread finished r c waker (r.poll q c waker) :=
  pollRounds_step hq 9 hwithin hsane waker (Nat.le_add_right 9 _)

end VarRead

end Transport

end Tidkod
