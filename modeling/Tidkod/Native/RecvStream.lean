import Mathlib.Tactic
import Tidkod.Lib.Machine
import Tidkod.Lib.Proto3

/-!
The receiving half of a QUIC stream (`RecvStream` of `transport/quic.rs`). Two calls
poll it: `poll_read` hands bytes to the caller, and `poll_closed` reads ahead to see the
end of the stream. They share a backlog, in which a chunk waits that has been read and
not handed over. The chunks come from the connection state of quinn, which is a parameter
here; what else happens to the connection between two calls is an operation of its own.
-/

namespace Tidkod

open Proto3

namespace Transport

/-- `transport::Error`, as far as a stream reports it. -/
inductive Error where
  | quic (text : String)
  | closed (code : Nat) (reason : String)
  | reset (code : Nat)
  deriving DecidableEq

inductive Poll (α : Type) where
  | pending
  | ready (result : Except Error α)

theorem Poll.pending_or_error {α : Type} {result : Poll α} (h : ∀ r, result ≠ .ready (.ok r)) :
    result = .pending ∨ ∃ e, result = .ready (.error e) := by
  rcases result with _ | ⟨e | r⟩
  · exact Or.inl rfl
  · exact Or.inr ⟨e, rfl⟩
  · exact absurd rfl (h r)

/-- The part of `Shared` that the polls use. Wakers are told apart by `will_wake`. -/
structure Shared where
  error : Option Error
  waiters : List Nat
  budget : Nat
  needsPass : Bool
  deriving DecidableEq

namespace Shared

def park (s : Shared) (waker : Nat) : Shared :=
  if waker ∈ s.waiters then s else { s with waiters := s.waiters ++ [waker] }

/-- All wakers are taken, and woken. -/
def wake (s : Shared) : Shared := { s with waiters := [] }

def enter (s : Shared) (waker : Nat) : Shared × Poll Unit :=
  match s.error with
  | some e => (s, .ready (.error e))
  | none =>
      if s.budget = 0 then ({ s with needsPass := true }.park waker, .pending)
      else (s, .ready (.ok ()))

def consumed (s : Shared) : Shared := { s with budget := s.budget - 1 }

def changed (s : Shared) : Shared := { s with needsPass := true }

end Shared

/-- What reading the next chunk in order can give: `stream.read(true)` fails, or
`chunks.next(max)` returns. -/
inductive Chunk where
  | unreadable (text : String)
  | bytes (b : Bytes)
  | finished
  | blocked
  | reset (code : Nat)

/-- The ordered reader of one stream of a connection. It also says whether `finalize`
asks for a transmission. -/
structure ChunkReader (σ : Type) where
  next : σ → Nat → σ × Chunk × Bool

/-- A chunk is not empty, holds no more than was asked for, and is what comes next of the
bytes the peer has sent; the end comes once all of them have been read and the peer has
finished the stream. Nothing else reads. -/
structure ChunkReader.Ordered {σ : Type} (q : ChunkReader σ) (unread : σ → Bytes)
    (finished : σ → Bool) : Prop where
  bytes : ∀ {s s' max b transmit}, 0 < max → q.next s max = (s', .bytes b, transmit) →
    b ≠ [] ∧ b.length ≤ max ∧ unread s = b ++ unread s' ∧ finished s' = finished s
  ended : ∀ {s s' max transmit}, q.next s max = (s', .finished, transmit) →
    unread s = [] ∧ finished s = true ∧ unread s' = [] ∧ finished s' = true
  other : ∀ {s s' max chunk transmit}, q.next s max = (s', chunk, transmit) →
    (∀ b, chunk ≠ .bytes b) → chunk ≠ .finished →
      unread s' = unread s ∧ finished s' = finished s

structure RecvStream where
  ended : Bool
  backlog : Bytes
  deriving DecidableEq

/-- A stream together with the connection that it shares. -/
structure Connected (σ : Type) where
  proto : σ
  shared : Shared
  stream : RecvStream

namespace RecvStream

variable {σ : Type} (q : ChunkReader σ)

/-- `RecvStream::new`. -/
def new (proto : σ) (shared : Shared) : Connected σ := ⟨proto, shared, ⟨false, []⟩⟩

def read (c : Connected σ) (waker max : Nat) : Connected σ × Poll (Option Bytes) :=
  if c.stream.ended then (c, .ready (.ok none))
  else
    match c.shared.enter waker with
    | (shared, .pending) => ({ c with shared := shared }, .pending)
    | (shared, .ready (.error e)) => ({ c with shared := shared }, .ready (.error e))
    | (shared, .ready (.ok ())) =>
        let (proto, chunk, transmit) := q.next c.proto max
        let sent := if transmit then shared.changed else shared
        match chunk with
        | .unreadable text =>
            ({ c with proto := proto, shared := shared }, .ready (.error (.quic text)))
        | .bytes b => ({ c with proto := proto, shared := sent.consumed }, .ready (.ok (some b)))
        | .finished => (⟨proto, sent, { c.stream with ended := true }⟩, .ready (.ok none))
        | .blocked => ({ c with proto := proto, shared := sent.park waker }, .pending)
        | .reset code => ({ c with proto := proto, shared := sent }, .ready (.error (.reset code)))

/-- The end of `poll_read`: `backlog.split_to(n)` goes to the front of `dst`, which holds
`len` bytes. -/
def handOver (c : Connected σ) (len : Nat) : Connected σ × Poll (Option Bytes) :=
  let n := min len c.stream.backlog.length
  let rest := c.stream.backlog.drop n
  ({ c with
      stream := { c.stream with backlog := rest }
      shared := if rest.isEmpty then c.shared.wake else c.shared },
    .ready (.ok (some (c.stream.backlog.take n))))

/-- The bytes copied to `dst` stand for their number, which is what the call returns. -/
def pollRead (c : Connected σ) (waker len : Nat) : Connected σ × Poll (Option Bytes) :=
  if len = 0 then (c, .ready (.ok (some [])))
  else if c.stream.backlog.isEmpty then
    match read q c waker len with
    | (c, .ready (.ok (some b))) => handOver { c with stream := { c.stream with backlog := b } } len
    | other => other
  else handOver c len

def pollClosed (c : Connected σ) (waker : Nat) : Connected σ × Poll Unit :=
  if c.stream.ended then (c, .ready (.ok ()))
  else if !c.stream.backlog.isEmpty then ({ c with shared := c.shared.park waker }, .pending)
  else
    match read q c waker 65536 with
    | (c, .ready (.ok none)) => (c, .ready (.ok ()))
    | (c, .ready (.ok (some b))) =>
        ({ c with stream := { c.stream with backlog := b }, shared := c.shared.park waker },
          .pending)
    | (c, .ready (.error e)) => (c, .ready (.error e))
    | (c, .pending) => (c, .pending)

/-- What happens to a stream: the two calls, and anything that changes the connection in
between. -/
inductive StreamOp (σ : Type) where
  | pollRead (waker len : Nat)
  | pollClosed (waker : Nat)
  | outside (proto : σ) (shared : Shared)

/-- The bytes that a step hands to the caller. -/
def step (c : Connected σ) : StreamOp σ → Connected σ × Bytes
  | .pollRead waker len =>
      match pollRead q c waker len with
      | (c, .ready (.ok (some b))) => (c, b)
      | (c, _) => (c, [])
  | .pollClosed waker => ((pollClosed q c waker).1, [])
  | .outside proto shared => ({ c with proto := proto, shared := shared }, [])

variable (unread : σ → Bytes) (finished : σ → Bool)

/-- In between, the peer may send more bytes and may finish the stream, and sends none after
that. Nobody else reads. -/
def PeerSends (c : Connected σ) : StreamOp σ → Prop
  | .outside proto _ =>
      unread c.proto <+: unread proto ∧
        (finished c.proto = true → unread proto = unread c.proto ∧ finished proto = true)
  | _ => True

instance (c : Connected σ) (op : StreamOp σ) : Decidable (PeerSends unread finished c op) :=
  match op with
  | .outside _ _ => inferInstanceAs (Decidable (_ ∧ _))
  | .pollRead _ _ => inferInstanceAs (Decidable True)
  | .pollClosed _ => inferInstanceAs (Decidable True)

/-- The bytes the peer has sent so far. -/
def noteSent (sent : Bytes) (c : Connected σ) : StreamOp σ → Bytes
  | .outside proto _ => sent ++ (unread proto).drop (unread c.proto).length
  | _ => sent

/-- Every byte sent has been returned, waits in the backlog or is still to be read, in this
order. -/
structure Faithful (sent returned : Bytes) (c : Connected σ) : Prop where
  conserved : returned ++ c.stream.backlog ++ unread c.proto = sent
  ended : c.stream.ended = true →
    c.stream.backlog = [] ∧ unread c.proto = [] ∧ finished c.proto = true

variable {q unread finished} {c : Connected σ}

/-- What `read` can do. -/
inductive ReadOutcome (unread : σ → Bytes) (finished : σ → Bool) (c : Connected σ) (max : Nat) :
    Connected σ × Poll (Option Bytes) → Prop where
  | past (hended : c.stream.ended = true) : ReadOutcome unread finished c max (c, .ready (.ok none))
  | ended (next : Connected σ) (hstream : next.stream = { c.stream with ended := true })
      (hread : unread c.proto = []) (hread' : unread next.proto = [])
      (hfinished : finished next.proto = true) :
      ReadOutcome unread finished c max (next, .ready (.ok none))
  | bytes (next : Connected σ) (b : Bytes) (hended : c.stream.ended = false)
      (hstream : next.stream = c.stream) (hnonempty : b ≠ []) (hmax : b.length ≤ max)
      (hnext : unread c.proto = b ++ unread next.proto) :
      ReadOutcome unread finished c max (next, .ready (.ok (some b)))
  | nothing (next : Connected σ) (result : Poll (Option Bytes)) (hstream : next.stream = c.stream)
      (hunread : unread next.proto = unread c.proto)
      (hfinished : finished next.proto = finished c.proto)
      (hresult : ∀ r, result ≠ .ready (.ok r)) :
      ReadOutcome unread finished c max (next, result)

theorem read_outcome (hq : q.Ordered unread finished) (c : Connected σ) (waker : Nat) {max : Nat}
    (hpos : 0 < max) : ReadOutcome unread finished c max (read q c waker max) := by
  unfold read
  by_cases hended : c.stream.ended = true
  · rw [if_pos hended]
    exact .past hended
  rw [if_neg hended]
  rcases hentered : c.shared.enter waker with ⟨shared, result⟩
  rcases result with _ | ⟨e | ⟨⟩⟩
  · exact .nothing _ _ rfl rfl rfl (by simp)
  · exact .nothing _ _ rfl rfl rfl (by simp)
  rcases hnext : q.next c.proto max with ⟨proto, chunk, transmit⟩
  cases chunk with
  | bytes b =>
      obtain ⟨hnonempty, hmax, hread, -⟩ := hq.bytes hpos hnext
      exact .bytes _ b (by simpa using hended) rfl hnonempty hmax hread
  | finished =>
      obtain ⟨hread, -, hread', hfinished⟩ := hq.ended hnext
      exact .ended _ rfl hread hread' hfinished
  | unreadable text =>
      obtain ⟨hunread, hfinished⟩ := hq.other hnext (by simp) (by simp)
      exact .nothing _ _ rfl hunread hfinished (by simp)
  | blocked =>
      obtain ⟨hunread, hfinished⟩ := hq.other hnext (by simp) (by simp)
      exact .nothing _ _ rfl hunread hfinished (by simp)
  | reset code =>
      obtain ⟨hunread, hfinished⟩ := hq.other hnext (by simp) (by simp)
      exact .nothing _ _ rfl hunread hfinished (by simp)

variable {sent returned : Bytes}

/-- The two calls leave the same three things behind. -/
inductive Polled (unread : σ → Bytes) (finished : σ → Bool) (sent returned : Bytes) (len : Nat) :
    Connected σ × Poll (Option Bytes) → Prop where
  | bytes (next : Connected σ) (b : Bytes) (hlen : b.length ≤ len)
      (hnext : Faithful unread finished sent (returned ++ b) next) :
      Polled unread finished sent returned len (next, .ready (.ok (some b)))
  | ended (next : Connected σ) (hnext : Faithful unread finished sent returned next)
      (hall : returned = sent) (hfinished : finished next.proto = true) :
      Polled unread finished sent returned len (next, .ready (.ok none))
  | nothing (next : Connected σ) (result : Poll (Option Bytes))
      (hnext : Faithful unread finished sent returned next)
      (hresult : ∀ r, result ≠ .ready (.ok r)) :
      Polled unread finished sent returned len (next, result)

/-- Handing over moves bytes from the backlog to the caller, and not more than fit. -/
theorem Faithful.handOver (h : Faithful unread finished sent returned c) (len : Nat) :
    Polled unread finished sent returned len (handOver c len) := by
  apply Polled.bytes
  · rw [List.length_take]
    omega
  · constructor
    · rw [List.append_assoc returned, List.take_append_drop]
      exact h.conserved
    · intro hended
      obtain ⟨hbacklog, hunread⟩ := h.ended hended
      exact ⟨by simp [hbacklog], hunread⟩

theorem Faithful.after_bytes (h : Faithful unread finished sent returned c)
    (hbacklog : c.stream.backlog = []) {next : Connected σ} {b : Bytes}
    (hended : c.stream.ended = false) (hstream : next.stream = c.stream)
    (hread : unread c.proto = b ++ unread next.proto) (shared : Shared) :
    Faithful unread finished sent returned
      { next with stream := { next.stream with backlog := b }, shared := shared } where
  conserved := by
    rw [← h.conserved, hbacklog, hread, List.append_nil, List.append_assoc]
  ended := fun hnext => by
    rw [hstream, hended] at hnext
    exact absurd hnext (by decide)

theorem Faithful.after_end (h : Faithful unread finished sent returned c)
    (hbacklog : c.stream.backlog = []) {next : Connected σ}
    (hstream : next.stream = { c.stream with ended := true }) (hread : unread c.proto = [])
    (hread' : unread next.proto = []) (hfinished : finished next.proto = true) :
    Faithful unread finished sent returned next ∧ returned = sent := by
  have hall : returned = sent := by
    rw [← h.conserved, hbacklog, hread, List.append_nil, List.append_nil]
  refine ⟨⟨?_, fun _ => ⟨by rw [hstream, hbacklog], hread', hfinished⟩⟩, hall⟩
  rw [hstream, hbacklog, hread', List.append_nil, List.append_nil]
  exact hall

theorem Faithful.after_nothing (h : Faithful unread finished sent returned c)
    {next : Connected σ} (hstream : next.stream = c.stream)
    (hunread : unread next.proto = unread c.proto)
    (hfinished : finished next.proto = finished c.proto) :
    Faithful unread finished sent returned next where
  conserved := by rw [hstream, hunread, h.conserved]
  ended := by
    rw [hstream, hunread, hfinished]
    exact h.ended

theorem Faithful.all_of_ended (h : Faithful unread finished sent returned c)
    (hended : c.stream.ended = true) : returned = sent := by
  obtain ⟨hbacklog, hread, -⟩ := h.ended hended
  rw [← h.conserved, hbacklog, hread, List.append_nil, List.append_nil]

theorem Faithful.pollRead (h : Faithful unread finished sent returned c)
    (hq : q.Ordered unread finished) (waker len : Nat) :
    Polled unread finished sent returned len (pollRead q c waker len) := by
  unfold RecvStream.pollRead
  by_cases hlen : len = 0
  · rw [if_pos hlen]
    refine .bytes _ [] (Nat.zero_le len) ?_
    rw [List.append_nil]
    exact h
  rw [if_neg hlen]
  by_cases hbacklog : c.stream.backlog = []
  · rw [if_pos (by simpa using hbacklog)]
    have houtcome := read_outcome hq c waker (Nat.pos_of_ne_zero hlen)
    generalize read q c waker len = result at houtcome ⊢
    cases houtcome with
    | past hended => exact .ended _ h (h.all_of_ended hended) (h.ended hended).2.2
    | ended next hstream hread hread' hfinished =>
        obtain ⟨hnext, hall⟩ := h.after_end hbacklog hstream hread hread' hfinished
        exact .ended _ hnext hall hfinished
    | bytes next b hended hstream _ _ hread =>
        exact (h.after_bytes hbacklog hended hstream hread next.shared).handOver len
    | nothing next result hstream hunread hfinished hresult =>
        have hnext := h.after_nothing hstream hunread hfinished
        obtain rfl | ⟨e, rfl⟩ := Poll.pending_or_error hresult
        · exact .nothing _ _ hnext hresult
        · exact .nothing _ _ hnext hresult
  · rw [if_neg (by simpa using hbacklog)]
    exact h.handOver len

/-- Reading ahead hands nothing over, and completes only at the end. -/
theorem Faithful.pollClosed (h : Faithful unread finished sent returned c)
    (hq : q.Ordered unread finished) (waker : Nat) :
    Faithful unread finished sent returned (pollClosed q c waker).1 ∧
      ((pollClosed q c waker).2 = .ready (.ok ()) →
        returned = sent ∧ finished (pollClosed q c waker).1.proto = true) := by
  unfold RecvStream.pollClosed
  by_cases hended : c.stream.ended = true
  · rw [if_pos hended]
    exact ⟨h, fun _ => ⟨h.all_of_ended hended, (h.ended hended).2.2⟩⟩
  rw [if_neg hended]
  by_cases hbacklog : c.stream.backlog = []
  · rw [if_neg (by simpa using hbacklog)]
    have hpos : 0 < 65536 := by decide
    have houtcome := read_outcome hq c waker hpos
    generalize read q c waker 65536 = result at houtcome ⊢
    cases houtcome with
    | past hended => exact ⟨h, fun _ => ⟨h.all_of_ended hended, (h.ended hended).2.2⟩⟩
    | ended next hstream hread hread' hfinished =>
        obtain ⟨hnext, hall⟩ := h.after_end hbacklog hstream hread hread' hfinished
        exact ⟨hnext, fun _ => ⟨hall, hfinished⟩⟩
    | bytes next b hended hstream _ _ hread =>
        exact ⟨h.after_bytes hbacklog hended hstream hread _, fun hr => absurd hr (by simp)⟩
    | nothing next result hstream hunread hfinished hresult =>
        have hnext := h.after_nothing hstream hunread hfinished
        obtain rfl | ⟨e, rfl⟩ := Poll.pending_or_error hresult
        · exact ⟨hnext, fun hr => absurd hr (by simp)⟩
        · exact ⟨hnext, fun hr => absurd hr (by simp)⟩
  · rw [if_pos (by simpa using hbacklog)]
    refine ⟨h.after_nothing (c := c) rfl rfl rfl, fun hr => absurd hr (by simp)⟩

theorem Faithful.outside (h : Faithful unread finished sent returned c) {proto : σ}
    {shared : Shared} (hsends : PeerSends unread finished c (.outside proto shared)) :
    Faithful unread finished (noteSent unread sent c (.outside proto shared)) returned
      { c with proto := proto, shared := shared } where
  conserved := by
    obtain ⟨⟨more, hmore⟩, -⟩ := hsends
    rw [noteSent, ← h.conserved, ← hmore, List.drop_left, List.append_assoc]
    simp
  ended := by
    intro hended
    obtain ⟨hbacklog, hread, hfinished⟩ := h.ended hended
    obtain ⟨hsame, hfinished'⟩ := hsends.2 hfinished
    exact ⟨hbacklog, hsame.trans hread, hfinished'⟩

theorem Faithful.step (h : Faithful unread finished sent returned c)
    (hq : q.Ordered unread finished) {op : StreamOp σ} (hsends : PeerSends unread finished c op) :
    Faithful unread finished (noteSent unread sent c op) (returned ++ (step q c op).2)
      (step q c op).1 := by
  cases op with
  | pollRead waker len =>
      have hpolled := h.pollRead hq waker len
      unfold RecvStream.step
      dsimp only [noteSent]
      generalize RecvStream.pollRead q c waker len = result at hpolled ⊢
      cases hpolled with
      | bytes next b hlen hnext => exact hnext
      | ended next hnext => simpa using hnext
      | nothing next result hnext hresult =>
          obtain rfl | ⟨e, rfl⟩ := Poll.pending_or_error hresult
          · simpa using hnext
          · simpa using hnext
  | pollClosed waker =>
      rw [RecvStream.step, List.append_nil]
      exact (h.pollClosed hq waker).1
  | outside proto shared =>
      rw [RecvStream.step, List.append_nil]
      exact h.outside hsends

/-- What has been returned along a run, in order. -/
def returnedBytes (q : ChunkReader σ) (c : Connected σ) (ops : List (StreamOp σ)) : Bytes :=
  (Machine.outputs (RecvStream.step q) c ops).flatten

/-- What the peer has sent by the end of a run. -/
def sentBytes (q : ChunkReader σ) (unread : σ → Bytes) (c : Connected σ)
    (ops : List (StreamOp σ)) : Bytes :=
  Machine.record (RecvStream.step q) (noteSent unread) (unread c.proto) c ops

theorem Faithful.run (h : Faithful unread finished sent returned c)
    (hq : q.Ordered unread finished) {ops : List (StreamOp σ)}
    (hsends : Machine.Along (RecvStream.step q) (PeerSends unread finished) c ops) :
    Faithful unread finished (Machine.record (RecvStream.step q) (noteSent unread) sent c ops)
      (returned ++ returnedBytes q c ops) (Machine.run (RecvStream.step q) c ops) := by
  induction ops generalizing c sent returned with
  | nil =>
      rw [returnedBytes, Machine.outputs, List.flatten_nil, List.append_nil]
      exact h
  | cons op rest ih =>
      have hnext := ih (h.step hq hsends.1) hsends.2
      rw [returnedBytes, Machine.outputs, List.flatten_cons, ← List.append_assoc]
      exact hnext

/-- The stream of the peer is delivered in order, without loss or duplication, whatever the
sizes of the destinations and however often the end is asked for in between. -/
theorem bytes_delivered (hq : q.Ordered unread finished) (proto : σ) (shared : Shared)
    {ops : List (StreamOp σ)}
    (hsends : Machine.Along (RecvStream.step q) (PeerSends unread finished) (new proto shared) ops)
    (waker : Nat) :
    let stream := Machine.run (RecvStream.step q) (new proto shared) ops
    let returned := returnedBytes q (new proto shared) ops
    let sent := sentBytes q unread (new proto shared) ops
    (returned <+: sent ∧ returned ++ stream.stream.backlog ++ unread stream.proto = sent) ∧
    (∀ len b, (pollRead q stream waker len).2 = .ready (.ok (some b)) → b.length ≤ len) ∧
    (∀ len, (pollRead q stream waker len).2 = .ready (.ok none) →
      returned = sent ∧ finished (pollRead q stream waker len).1.proto = true) ∧
    ((pollClosed q stream waker).2 = .ready (.ok ()) →
      returned = sent ∧ finished (pollClosed q stream waker).1.proto = true) := by
  intro stream returned sent
  have hnew : Faithful unread finished (unread proto) [] (new proto shared) :=
    ⟨rfl, fun h => absurd h (by simp [new])⟩
  have hrun : Faithful unread finished sent returned stream := hnew.run hq hsends
  refine ⟨⟨⟨_, (List.append_assoc _ _ _).symm.trans hrun.conserved⟩, hrun.conserved⟩, ?_, ?_, ?_⟩
  · intro len b hresult
    have hpolled := hrun.pollRead hq waker len
    generalize pollRead q stream waker len = result at hpolled hresult
    cases hpolled with
    | bytes next b' hlen => cases hresult; exact hlen
    | ended => cases hresult
    | nothing next result _ hother => exact absurd hresult (hother _)
  · intro len hresult
    have hpolled := hrun.pollRead hq waker len
    generalize pollRead q stream waker len = result at hpolled hresult ⊢
    cases hpolled with
    | bytes => cases hresult
    | ended next _ hall hfinished => exact ⟨hall, hfinished⟩
    | nothing next result _ hother => exact absurd hresult (hother _)
  · exact (hrun.pollClosed hq waker).2

end RecvStream

/-- A stream of which some bytes have arrived and some are on the way. -/
structure Queued where
  arrived : Bytes
  underWay : Bytes
  finished : Bool

def Queued.unread (s : Queued) : Bytes := s.arrived ++ s.underWay

def queuedReader : ChunkReader Queued where
  next s max :=
    if s.arrived = [] then
      if s.underWay = [] ∧ s.finished = true then (s, .finished, false) else (s, .blocked, false)
    else ({ s with arrived := s.arrived.drop max }, .bytes (s.arrived.take max), true)

theorem queuedReader_ordered : queuedReader.Ordered Queued.unread Queued.finished where
  bytes := by
    intro s s' max b transmit hpos hnext
    simp only [queuedReader] at hnext
    split_ifs at hnext with harrived hend
    · cases hnext
    · cases hnext
    · cases hnext
      refine ⟨?_, List.length_take_le _ _, ?_, rfl⟩
      · rw [Ne, List.take_eq_nil_iff, not_or]
        exact ⟨hpos.ne', harrived⟩
      · simp [Queued.unread, ← List.append_assoc]
  ended := by
    intro s s' max transmit hnext
    simp only [queuedReader] at hnext
    split_ifs at hnext with harrived hend
    · cases hnext
      exact ⟨by simp [Queued.unread, harrived, hend.1], hend.2,
        by simp [Queued.unread, harrived, hend.1], hend.2⟩
    · cases hnext
    · cases hnext
  other := by
    intro s s' max chunk transmit hnext hbytes hfinished
    simp only [queuedReader] at hnext
    split_ifs at hnext
    · cases hnext
      exact absurd rfl hfinished
    · cases hnext
      exact ⟨rfl, rfl⟩
    · cases hnext
      exact absurd rfl (hbytes _)

/-- Reading ahead, a short read, the rest of the stream, and two more reads. -/
def prefetchedOps : List (RecvStream.StreamOp Queued) :=
  [.pollClosed 1, .pollRead 2 2, .pollClosed 1,
    .outside ⟨[4, 5], [], true⟩ ⟨none, [], 8, false⟩, .pollRead 2 8, .pollRead 2 8]

theorem bytes_delivered_of_prefetch :
    RecvStream.returnedBytes queuedReader
        (RecvStream.new ⟨[1, 2, 3], [4], false⟩ ⟨none, [], 8, true⟩) prefetchedOps =
      RecvStream.sentBytes queuedReader Queued.unread
        (RecvStream.new ⟨[1, 2, 3], [4], false⟩ ⟨none, [], 8, true⟩) prefetchedOps :=
  ((RecvStream.bytes_delivered queuedReader_ordered ⟨[1, 2, 3], [4], false⟩ ⟨none, [], 8, true⟩
    (by decide +kernel) 2).2.2.1 8 rfl).1

end Transport

end Tidkod
