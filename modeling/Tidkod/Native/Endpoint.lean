import Mathlib.Tactic
import Tidkod.Lib.Machine
import Tidkod.Native.RecvStream

/-!
A UDP socket with its QUIC connections (`Endpoint` of `transport/quic.rs`). Its owner calls
`step` again and again; a call receives, serves every connection and sends, all of it bounded,
and `needs_pass` says what has been left for the next call. What the socket and quinn answer is
an input of the call. Between two calls the application polls the connections. The slots in
which streams find that they are finished are left out.
-/

namespace Tidkod

namespace Transport

open Proto3

abbrev ConnectionId := Nat

/-- `OPERATIONS`: transport operations of a connection between two passes. -/
def operations : Nat := 8

/-- Datagrams a pass receives at most. -/
def receiveBatch : Nat := 32

/-- QUIC sends, endpoint events and events of a connection in a pass, each at most. -/
def serviceBatch : Nat := 8

/-- Transmits that may wait for the socket, and buffers that are kept for later ones. -/
def outLimit : Nat := 64

/-- `Shared`, as its endpoint uses it. -/
structure Link where
  shared : Shared
  connected : Bool
  deriving DecidableEq

/-- `Shared::new`. -/
def Link.new : Link where
  shared := { error := none, waiters := [], budget := operations, needsPass := true }
  connected := false

/-- What quinn makes of a datagram. A new connection is taken up under an id, or is refused,
perhaps with a response. -/
inductive Handled (τ : Type) where
  | event (id : ConnectionId)
  | opening (taken : Except (Option τ) ConnectionId)
  | response (t : τ)
  | nothing

/-- What receiving gives: the socket may hand over several datagrams of one size at once. -/
inductive Arrival where
  | datagrams (content : Bytes) (stride : Nat)
  | empty
  | wouldBlock
  | failed

inductive LinkEvent where
  | connected
  | lost (e : Error)
  | other

/-- What quinn has for a connection in a pass: polls give this, and then nothing more. -/
structure Service (τ : Type) where
  due : Bool
  transmits : List τ
  endpointEvents : Nat
  events : List LinkEvent
  drained : Bool

/-- What the socket answers to a transmit, and whether mio would then take a change of
interest. -/
inductive SendAnswer where
  | sent (registered : Bool)
  | wouldBlock (registered : Bool)
  | failed

/-- `keys` is the order in which the map gives its keys. -/
structure PassInput (τ : Type) where
  arrivals : List Arrival
  answers : List (Handled τ)
  keys : List ConnectionId
  services : ConnectionId → Service τ
  sends : List SendAnswer

structure Endpoint (τ : Type) where
  connections : List (ConnectionId × Link)
  incoming : List ConnectionId
  out : List τ
  /-- The number of buffers kept. -/
  buffers : Nat
  limit : Nat
  next : Nat
  /-- What is left of a receive: its content, the size of a datagram, and where the next starts. -/
  pending : Option (Bytes × Nat × Nat)
  receiveMore : Bool
  writeBlocked : Bool

/-- What the polls of a connection have given in a pass, and what quinn still has. -/
structure Polled (τ : Type) where
  id : ConnectionId
  transmits : List τ
  rest : List τ

/-- What a pass has done: the datagrams handed to quinn and what has not been read, the
responses queued, the wakers woken, what each connection has been polled for, what the socket
took and whether it left the queue, and whether there was no error. -/
structure PassReport (τ : Type) where
  unread : List Arrival
  handled : List Bytes
  responses : List τ
  woken : List (ConnectionId × Nat)
  polled : List (Polled τ)
  sent : List (τ × Bool)
  ok : Bool

namespace Endpoint

variable {τ : Type}

/-- `Endpoint::new`. -/
def new (limit : Nat) : Endpoint τ where
  connections := []
  incoming := []
  out := []
  buffers := 0
  limit := limit
  next := 0
  pending := none
  receiveMore := false
  writeBlocked := false

def link (s : Endpoint τ) (id : ConnectionId) : Option Link :=
  (s.connections.find? fun p => p.1 = id).map Prod.snd

def update (s : Endpoint τ) (id : ConnectionId) (f : Link → Link) : Endpoint τ :=
  { s with connections := s.connections.map fun p => if p.1 = id then (p.1, f p.2) else p }

/-- `HashMap::insert`. -/
def insert (s : Endpoint τ) (id : ConnectionId) : Endpoint τ :=
  { s with connections := s.connections.filter (fun p => p.1 ≠ id) ++ [(id, .new)] }

def remove (s : Endpoint τ) (id : ConnectionId) : Endpoint τ :=
  { s with connections := s.connections.filter fun p => p.1 ≠ id }

/-- The wakers parked on a connection. -/
def waiters (s : Endpoint τ) (id : ConnectionId) : List Nat :=
  ((s.link id).map fun l => l.shared.waiters).getD []

def wake (s : Endpoint τ) (id : ConnectionId) : Endpoint τ × List (ConnectionId × Nat) :=
  (s.update id fun l => { l with shared := l.shared.wake }, (s.waiters id).map fun w => (id, w))

def needsPass (s : Endpoint τ) : Bool :=
  s.receiveMore || s.connections.any fun p => p.2.shared.needsPass

/-- `connect`, when quinn gives the connection this id. -/
def connect (s : Endpoint τ) (id : ConnectionId) : Endpoint τ × Bool :=
  if s.limit ≤ s.connections.length then (s, false) else (s.insert id, true)

def accept (s : Endpoint τ) : Endpoint τ × Option ConnectionId :=
  ({ s with incoming := s.incoming.tail }, s.incoming.head?)

/-- A response is queued where there is room. -/
def respond (s : Endpoint τ) (t : τ) : Endpoint τ × List τ :=
  if s.out.length < outLimit then ({ s with out := s.out ++ [t] }, [t]) else (s, [])

/-- A datagram has been handed to quinn. -/
def handle (s : Endpoint τ) (answer : Handled τ) :
    Endpoint τ × List τ × List (ConnectionId × Nat) :=
  match answer with
  | .event id =>
      let (s, woken) := s.wake id
      (s, [], woken)
  | .opening taken =>
      if s.limit ≤ s.connections.length then (s, [], [])
      else
        match taken with
        | .ok id => ({ s.insert id with incoming := s.incoming ++ [id] }, [], [])
        | .error none => (s, [], [])
        | .error (some t) =>
            let (s, responses) := s.respond t
            (s, responses, [])
  | .response t =>
      let (s, responses) := s.respond t
      (s, responses, [])
  | .nothing => (s, [], [])

/-- The next datagram of a receive, and what is left of it. -/
def takeSegment (content : Bytes) (stride start : Nat) : Bytes × Option (Bytes × Nat × Nat) :=
  let stop := min (start + max stride 1) content.length
  ((content.drop start).take (stop - start),
    if stop < content.length then some (content, stride, stop) else none)

def report (unread : List Arrival) (handled : List Bytes) (responses : List τ)
    (woken : List (ConnectionId × Nat)) (ok : Bool) : PassReport τ :=
  ⟨unread, handled, responses, woken, [], [], ok⟩

/-- The loop that receives, with so many rounds left. -/
def receive (s : Endpoint τ) :
    Nat → List Arrival → List (Handled τ) → Endpoint τ × PassReport τ
  | 0, arrivals, _ => (s, report arrivals [] [] [] true)
  | rounds + 1, arrivals, answers =>
      match s.pending with
      | some (content, stride, start) =>
          let (segment, rest) := takeSegment content stride start
          let (next, responses, woken) := { s with pending := rest }.handle (answers.headD .nothing)
          let (last, r) := next.receive rounds arrivals answers.tail
          (last, report r.unread (segment :: r.handled) (responses ++ r.responses)
            (woken ++ r.woken) r.ok)
      | none =>
          match arrivals.headD .wouldBlock with
          | .datagrams content stride =>
              let (segment, rest) := takeSegment content stride 0
              let (next, responses, woken) :=
                { s with pending := rest }.handle (answers.headD .nothing)
              let (last, r) := next.receive rounds arrivals.tail answers.tail
              (last, report r.unread (segment :: r.handled) (responses ++ r.responses)
                (woken ++ r.woken) r.ok)
          | .failed => (s, report arrivals.tail [] [] [] false)
          | .empty | .wouldBlock =>
              ({ s with receiveMore := false }, report arrivals.tail [] [] [] true)

/-- The loop that polls a connection for transmits, with so many rounds left: what it gave, what
quinn still has, and whether the connection needs another pass. -/
def transmit (s : Endpoint τ) : Nat → List τ → Endpoint τ × List τ × List τ × Bool
  | 0, transmits => (s, [], transmits, false)
  | rounds + 1, transmits =>
      if outLimit ≤ s.out.length then (s, [], transmits, !s.writeBlocked)
      else
        match transmits with
        | [] => ({ s with buffers := s.buffers - 1 + 1 }, [], [], false)
        | t :: rest =>
            let (last, taken, rest, again) :=
              { s with out := s.out ++ [t], buffers := s.buffers - 1 }.transmit rounds rest
            (last, t :: taken, rest, decide (rounds = 0) || again)

def Link.apply (l : Link) : LinkEvent → Link
  | .connected => { l with connected := true, shared := l.shared.wake }
  | .lost e => { l with shared := { l.shared with error := some e }.wake }
  | .other => { l with shared := l.shared.wake }

/-- The pass over one connection. -/
def serve (s : Endpoint τ) (services : ConnectionId → Service τ) (id : ConnectionId) :
    Endpoint τ × List (ConnectionId × Nat) × List (Polled τ) :=
  let service := services id
  match s.link id with
  | none => (s, [], [])
  | some l =>
      let (transmitted, taken, rest, again) := s.transmit serviceBatch service.transmits
      let more := again || decide (serviceBatch ≤ service.endpointEvents) ||
        decide (serviceBatch ≤ service.events.length)
      let events := service.events.take serviceBatch
      let wakes := l.shared.needsPass || service.due || !events.isEmpty
      let served := events.foldl Link.apply
        { l with shared := { l.shared with budget := operations, needsPass := more } }
      let woken := if wakes then l.shared.waiters.map fun w => (id, w) else []
      let next := transmitted.update id fun _ =>
        if wakes then { served with shared := served.shared.wake } else served
      (if service.drained then next.remove id else next, woken, [⟨id, taken, rest⟩])

def serveAll (s : Endpoint τ) (services : ConnectionId → Service τ) :
    List ConnectionId → Endpoint τ × List (ConnectionId × Nat) × List (Polled τ)
  | [] => (s, [], [])
  | id :: rest =>
      let (next, woken, polled) := s.serve services id
      let (last, moreWoken, morePolled) := next.serveAll services rest
      (last, woken ++ moreWoken, polled ++ morePolled)

/-- The socket has taken a transmit: connections that found no room get another pass. -/
def unblock (s : Endpoint τ) : Endpoint τ :=
  if s.writeBlocked then
    { s with
      writeBlocked := false
      connections := s.connections.map fun p =>
        (p.1, { p.2 with shared := p.2.shared.changed }) }
  else s

/-- The loop that sends, for what is in the queue. `set_write_blocked` changes the flag before it
asks mio, and an error there ends the loop. -/
def flush (s : Endpoint τ) : List τ → List SendAnswer → Endpoint τ × List (τ × Bool) × Bool
  | [], _ => (s, [], true)
  | t :: rest, answers =>
      match answers.headD (.wouldBlock true) with
      | .sent registered =>
          if s.writeBlocked ∧ registered = false then
            ({ s with writeBlocked := false }, [(t, false)], false)
          else
            let (last, sent, ok) := { s.unblock with
              out := rest
              buffers := if s.buffers < outLimit then s.buffers + 1 else s.buffers }.flush rest
                answers.tail
            (last, (t, true) :: sent, ok)
      | .wouldBlock registered =>
          ({ s with writeBlocked := true }, [], s.writeBlocked || registered)
      | .failed => (s, [], false)

/-- The order in which the connections are served: the first one rotates. -/
def turn (s : Endpoint τ) (keys : List ConnectionId) : Endpoint τ × List ConnectionId :=
  if 0 < keys.length then
    ({ s with next := (s.next + 1) % keys.length }, keys.rotate (s.next % keys.length))
  else (s, keys)

/-- `Endpoint::step`. -/
def pass (s : Endpoint τ) (x : PassInput τ) : Endpoint τ × PassReport τ :=
  let (received, r) := { s with receiveMore := true }.receive receiveBatch x.arrivals x.answers
  if r.ok then
    let (turned, order) := received.turn x.keys
    let (served, woken, polled) := turned.serveAll x.services order
    let (last, sent, ok) := served.flush served.out x.sends
    (last, { r with woken := r.woken ++ woken, polled := polled, sent := sent, ok := ok })
  else (received, r)

/-- `Connection::close_code`. -/
def close (s : Endpoint τ) (id : ConnectionId) (code : Nat) (reason : String) : Endpoint τ :=
  s.update id fun l =>
    if l.shared.error.isSome then l
    else { l with shared := { l.shared with error := some (.closed code reason) }.changed.wake }

end Endpoint

/-- What the owner and the application do with an endpoint. -/
inductive EndpointOp (τ : Type) where
  | pass (x : PassInput τ)
  | connect (id : ConnectionId)
  | accept
  | enter (id : ConnectionId) (waker : Nat)
  | consumed (id : ConnectionId)
  | changed (id : ConnectionId)
  | park (id : ConnectionId) (waker : Nat)
  | wake (id : ConnectionId)
  | close (id : ConnectionId) (code : Nat) (reason : String)

inductive EndpointResult (τ : Type) where
  | passed (r : PassReport τ)
  | connected (ok : Bool)
  | accepted (id : Option ConnectionId)
  /-- Whether the operation may go on. -/
  | entered (p : Poll Unit)
  | done

namespace Endpoint

variable {τ : Type}

def enter (s : Endpoint τ) (id : ConnectionId) (waker : Nat) : Endpoint τ × Poll Unit :=
  (s.update id fun l => { l with shared := (l.shared.enter waker).1 },
    ((s.link id).map fun l => (l.shared.enter waker).2).getD .pending)

def step (s : Endpoint τ) : EndpointOp τ → Endpoint τ × EndpointResult τ
  | .pass x => let (s, r) := s.pass x; (s, .passed r)
  | .connect id => let (s, ok) := s.connect id; (s, .connected ok)
  | .accept => let (s, id) := s.accept; (s, .accepted id)
  | .enter id waker => let (s, p) := s.enter id waker; (s, .entered p)
  | .consumed id => (s.update id fun l => { l with shared := l.shared.consumed }, .done)
  | .changed id => (s.update id fun l => { l with shared := l.shared.changed }, .done)
  | .park id waker => (s.update id fun l => { l with shared := l.shared.park waker }, .done)
  | .wake id => ((s.wake id).1, .done)
  | .close id code reason => (s.close id code reason, .done)

/-- A receive cut into the datagrams it holds. One that is empty holds an empty one. -/
def cut (stride : Nat) (content : Bytes) : List Bytes :=
  if content.length ≤ max stride 1 then [content]
  else content.take (max stride 1) :: cut stride (content.drop (max stride 1))
termination_by content.length
decreasing_by
  rw [List.length_drop]
  omega

/-- The datagrams that the socket gives before it has no more or fails. -/
def given : List Arrival → List Bytes
  | .datagrams content stride :: rest => cut stride content ++ given rest
  | _ => []

/-- The datagrams of a receive that have yet to be handed to quinn. -/
def remaining (s : Endpoint τ) : List Bytes :=
  match s.pending with
  | none => []
  | some (content, stride, start) => cut stride (content.drop start)

theorem takeSegment_eq (content : Bytes) (stride start : Nat) :
    cut stride (content.drop start) =
      (takeSegment content stride start).1 ::
        match (takeSegment content stride start).2 with
        | none => []
        | some (content, stride, start) => cut stride (content.drop start) := by
  unfold takeSegment
  dsimp only
  rw [cut, List.length_drop]
  split_ifs with hlast hmore hmore
  · omega
  · simp only [List.cons.injEq, and_true]
    rw [List.take_of_length_le]
    rw [List.length_drop]
    omega
  · have hstop : min (start + max stride 1) content.length = start + max stride 1 := by omega
    rw [hstop, List.drop_drop]
    simp
  · omega

section Receive

/-- What handling a datagram leaves as it is. -/
theorem handle_frame (s : Endpoint τ) (answer : Handled τ) :
    (s.handle answer).1.pending = s.pending ∧
      (s.handle answer).1.receiveMore = s.receiveMore ∧
      (s.handle answer).1.buffers = s.buffers ∧ (s.handle answer).1.limit = s.limit ∧
      (s.handle answer).1.writeBlocked = s.writeBlocked := by
  unfold handle respond
  dsimp only
  repeat' split
  all_goals exact ⟨rfl, rfl, rfl, rfl, rfl⟩

theorem out_respond (s : Endpoint τ) (t : τ) :
    (s.respond t).1.out = s.out ++ (s.respond t).2 := by
  unfold respond
  split_ifs
  · rfl
  · exact (List.append_nil _).symm

theorem out_handle (s : Endpoint τ) (answer : Handled τ) :
    (s.handle answer).1.out = s.out ++ (s.handle answer).2.1 := by
  unfold handle
  split
  · exact (List.append_nil _).symm
  · dsimp only
    split_ifs
    · exact (List.append_nil _).symm
    · split
      · exact (List.append_nil _).symm
      · exact (List.append_nil _).symm
      · exact out_respond s _
  · exact out_respond s _
  · exact (List.append_nil _).symm

theorem remaining_handle (s : Endpoint τ) (answer : Handled τ) :
    (s.handle answer).1.remaining = s.remaining := by
  rw [remaining, remaining, (handle_frame s answer).1]

/-- Of a receive that has just come, the first datagram and what remains. -/
theorem given_datagrams (s : Endpoint τ) (content : Bytes) (stride : Nat) (rest : List Arrival) :
    given (.datagrams content stride :: rest) =
      (takeSegment content stride 0).1 ::
        (({ s with pending := (takeSegment content stride 0).2 } : Endpoint τ).remaining ++
          given rest) := by
  have hcut := takeSegment_eq content stride 0
  rw [List.drop_zero] at hcut
  rw [given, hcut, List.cons_append]
  rfl

theorem given_of_datagrams {arrivals : List Arrival} {content : Bytes} {stride : Nat}
    (hfirst : arrivals.headD .wouldBlock = .datagrams content stride) :
    arrivals = .datagrams content stride :: arrivals.tail := by
  cases arrivals with
  | nil => cases hfirst
  | cons a rest => exact congrArg (· :: rest) hfirst

/-- An answer without datagrams ends what the socket gives. -/
theorem given_stop {arrivals : List Arrival}
    (hstop : ∀ content stride, arrivals.headD .wouldBlock ≠ .datagrams content stride) :
    given arrivals = [] ∧ ∃ read, arrivals = read ++ arrivals.tail ∧ given read = [] := by
  cases arrivals with
  | nil => exact ⟨rfl, [], rfl, rfl⟩
  | cons a rest =>
      cases a with
      | datagrams content stride => exact absurd rfl (hstop content stride)
      | empty => exact ⟨rfl, [.empty], rfl, rfl⟩
      | wouldBlock => exact ⟨rfl, [.wouldBlock], rfl, rfl⟩
      | failed => exact ⟨rfl, [.failed], rfl, rfl⟩

/-- In so many rounds as many datagrams are handed to quinn, first those that an earlier pass has
left, as far as the socket gives them, and none that has been read is lost. -/
theorem receive_datagrams (s : Endpoint τ) (rounds : Nat) (arrivals : List Arrival)
    (answers : List (Handled τ)) :
    (s.receive rounds arrivals answers).2.handled =
        (s.remaining ++ given arrivals).take rounds ∧
      ∃ read, arrivals = read ++ (s.receive rounds arrivals answers).2.unread ∧
        (s.receive rounds arrivals answers).2.handled ++
            (s.receive rounds arrivals answers).1.remaining = s.remaining ++ given read := by
  induction rounds generalizing s arrivals answers with
  | zero => exact ⟨rfl, [], rfl, by simp [receive, report, given]⟩
  | succ rounds ih =>
      unfold receive
      split
      case h_1 content stride start hpending =>
          have hremaining : s.remaining = cut stride (content.drop start) := by
            rw [remaining, hpending]
          obtain ⟨hhanded, read, hread, hkept⟩ :=
            ih (({ s with pending := (takeSegment content stride start).2 } : Endpoint τ).handle
              (answers.headD .nothing)).1 arrivals answers.tail
          rw [remaining_handle] at hhanded hkept
          rw [hremaining, takeSegment_eq content stride start, List.cons_append,
            List.take_succ_cons]
          exact ⟨congrArg (_ :: ·) hhanded, read, hread, congrArg (_ :: ·) hkept⟩
      case h_2 hpending =>
          have hremaining : s.remaining = [] := by rw [remaining, hpending]
          have hstop : (∀ content stride,
              arrivals.headD .wouldBlock ≠ .datagrams content stride) →
              ([] : List Bytes) = (given arrivals).take (rounds + 1) ∧
                ∃ read, arrivals = read ++ arrivals.tail ∧ s.remaining = given read := by
            intro hfirst
            obtain ⟨hnone, read, hread, hgiven⟩ := given_stop hfirst
            exact ⟨by rw [hnone]; rfl, read, hread, hremaining.trans hgiven.symm⟩
          rw [hremaining, List.nil_append]
          split
          case h_1 content stride hfirst =>
              obtain ⟨hhanded, read, hread, hkept⟩ :=
                ih (({ s with pending := (takeSegment content stride 0).2 } : Endpoint τ).handle
                  (answers.headD .nothing)).1 arrivals.tail answers.tail
              rw [remaining_handle] at hhanded hkept
              refine ⟨?_, .datagrams content stride :: read, ?_, ?_⟩
              · rw [given_of_datagrams hfirst, given_datagrams s, List.take_succ_cons]
                exact congrArg (_ :: ·) hhanded
              · exact (given_of_datagrams hfirst).trans (congrArg (_ :: ·) hread)
              · rw [given_datagrams s]
                exact congrArg (_ :: ·) hkept
          case h_2 hfirst => exact hstop (by rw [hfirst]; rintro _ _ ⟨⟩)
          case h_3 hfirst => exact hstop (by rw [hfirst]; rintro _ _ ⟨⟩)
          case h_4 hfirst => exact hstop (by rw [hfirst]; rintro _ _ ⟨⟩)

end Receive

/-- What every call keeps within bounds, and why a pass may be put off. -/
structure Bounded (s : Endpoint τ) : Prop where
  out : s.out.length ≤ outLimit
  buffers : s.buffers ≤ outLimit
  connections : s.connections.length ≤ s.limit
  blocked : s.writeBlocked = true → s.out ≠ []
  received : s.receiveMore = false → s.pending = none

theorem bounded_new (limit : Nat) : Bounded (new limit : Endpoint τ) where
  out := Nat.zero_le _
  buffers := Nat.zero_le _
  connections := Nat.zero_le _
  blocked := by rintro ⟨⟩
  received := fun _ => rfl

theorem length_connections_update (s : Endpoint τ) (id : ConnectionId) (f : Link → Link) :
    (s.update id f).connections.length = s.connections.length :=
  List.length_map _

theorem Bounded.update {s : Endpoint τ} (h : Bounded s) (id : ConnectionId) (f : Link → Link) :
    Bounded (s.update id f) :=
  { h with connections := (length_connections_update s id f).trans_le h.connections }

theorem Bounded.insert {s : Endpoint τ} (h : Bounded s) (id : ConnectionId)
    (hroom : s.connections.length < s.limit) : Bounded (s.insert id) := by
  refine { h with connections := ?_ }
  have hfilter := List.length_filter_le (fun p => p.1 ≠ id) s.connections
  simp only [Endpoint.insert, List.length_append, List.length_singleton]
  omega

theorem Bounded.remove {s : Endpoint τ} (h : Bounded s) (id : ConnectionId) :
    Bounded (s.remove id) :=
  { h with connections := (List.length_filter_le _ _).trans h.connections }

theorem Bounded.respond {s : Endpoint τ} (h : Bounded s) (t : τ) : Bounded (s.respond t).1 := by
  unfold Endpoint.respond
  split_ifs with hroom
  · refine { h with out := ?_, blocked := fun _ => by simp }
    rw [List.length_append, List.length_singleton]
    exact hroom
  · exact h

theorem Bounded.handle {s : Endpoint τ} (h : Bounded s) (answer : Handled τ) :
    Bounded (s.handle answer).1 := by
  cases answer with
  | event id => exact h.update id fun l => { l with shared := l.shared.wake }
  | opening taken =>
      unfold Endpoint.handle
      dsimp only
      split_ifs with hfull
      · exact h
      · rcases taken with (_ | t) | id
        · exact h
        · exact h.respond t
        · have hinsert := h.insert id (not_le.mp hfull)
          exact { hinsert with }
  | response t => exact h.respond t
  | nothing => exact h

theorem Bounded.receive {s : Endpoint τ} (h : Bounded s) (hmore : s.receiveMore = true)
    (rounds : Nat) (arrivals : List Arrival) (answers : List (Handled τ)) :
    Bounded (s.receive rounds arrivals answers).1 ∧
      (s.receive rounds arrivals answers).1.out =
        s.out ++ (s.receive rounds arrivals answers).2.responses := by
  induction rounds generalizing s arrivals answers with
  | zero => exact ⟨h, (List.append_nil _).symm⟩
  | succ rounds ih =>
      have hsegment : ∀ (rest : Option (Bytes × Nat × Nat)) (arrivals : List Arrival),
          let next := ({ s with pending := rest } : Endpoint τ).handle (answers.headD .nothing)
          let last := next.1.receive rounds arrivals answers.tail
          Bounded last.1 ∧ last.1.out = s.out ++ (next.2.1 ++ last.2.responses) := by
        intro rest arrivals next last
        have hpending : Bounded ({ s with pending := rest } : Endpoint τ) :=
          { h with received := fun hnone => absurd (hmore.symm.trans hnone) (by simp) }
        have hnext := hpending.handle (answers.headD .nothing)
        have hstill : next.1.receiveMore = true := (handle_frame _ _).2.1.trans hmore
        obtain ⟨hlast, hresponses⟩ := ih hnext hstill arrivals answers.tail
        refine ⟨hlast, hresponses.trans ?_⟩
        rw [out_handle, List.append_assoc]
      unfold Endpoint.receive
      split
      case h_1 content stride start hpending =>
          exact hsegment (takeSegment content stride start).2 arrivals
      case h_2 hpending =>
          split
          case h_1 content stride hfirst =>
              exact hsegment (takeSegment content stride 0).2 arrivals.tail
          case h_2 => exact ⟨h, (List.append_nil _).symm⟩
          case h_3 => exact ⟨{ h with received := fun _ => hpending }, (List.append_nil _).symm⟩
          case h_4 => exact ⟨{ h with received := fun _ => hpending }, (List.append_nil _).symm⟩

/-- Receiving takes nothing from the connections and sends nothing. -/
theorem receive_report (s : Endpoint τ) (rounds : Nat) (arrivals : List Arrival)
    (answers : List (Handled τ)) :
    (s.receive rounds arrivals answers).2.polled = [] ∧
      (s.receive rounds arrivals answers).2.sent = [] := by
  cases rounds with
  | zero => exact ⟨rfl, rfl⟩
  | succ rounds =>
      unfold receive
      split
      · exact ⟨rfl, rfl⟩
      · split <;> exact ⟨rfl, rfl⟩

/-- What taking transmits of a connection leaves as it is. -/
theorem transmit_frame (s : Endpoint τ) (rounds : Nat) (transmits : List τ) :
    (s.transmit rounds transmits).1.connections = s.connections ∧
      (s.transmit rounds transmits).1.limit = s.limit ∧
      (s.transmit rounds transmits).1.pending = s.pending ∧
      (s.transmit rounds transmits).1.receiveMore = s.receiveMore ∧
      (s.transmit rounds transmits).1.writeBlocked = s.writeBlocked := by
  induction rounds generalizing s transmits with
  | zero => exact ⟨rfl, rfl, rfl, rfl, rfl⟩
  | succ rounds ih =>
      unfold transmit
      split_ifs
      · exact ⟨rfl, rfl, rfl, rfl, rfl⟩
      · split
        · exact ⟨rfl, rfl, rfl, rfl, rfl⟩
        · exact ih _ _

theorem Bounded.transmit {s : Endpoint τ} (h : Bounded s) (rounds : Nat) (transmits : List τ) :
    Bounded (s.transmit rounds transmits).1 ∧
      (s.transmit rounds transmits).1.out = s.out ++ (s.transmit rounds transmits).2.1 := by
  induction rounds generalizing s transmits with
  | zero => exact ⟨h, (List.append_nil _).symm⟩
  | succ rounds ih =>
      unfold Endpoint.transmit
      split_ifs with hfull
      · exact ⟨h, (List.append_nil _).symm⟩
      · split
        · refine ⟨{ h with buffers := ?_ }, (List.append_nil _).symm⟩
          have hbuffers := h.buffers
          change s.buffers - 1 + 1 ≤ outLimit
          simp only [outLimit] at hbuffers ⊢
          omega
        · rename_i t rest
          have hnext : Bounded ({ s with out := s.out ++ [t], buffers := s.buffers - 1 } :
              Endpoint τ) := by
            refine { h with out := ?_, buffers := (Nat.sub_le _ _).trans h.buffers,
                            blocked := fun _ => by simp }
            rw [List.length_append, List.length_singleton]
            exact not_le.mp hfull
          obtain ⟨hlast, hout⟩ := ih hnext rest
          refine ⟨hlast, hout.trans ?_⟩
          simp

/-- A transmit is left only if the connection has another pass coming, or else the socket
cannot write. -/
theorem transmit_left (s : Endpoint τ) (rounds : Nat) (transmits : List τ)
    (hleft : (s.transmit (rounds + 1) transmits).2.1.length < transmits.length) :
    (s.transmit (rounds + 1) transmits).2.2.2 = true ∨ s.writeBlocked = true := by
  induction rounds generalizing s transmits with
  | zero =>
      unfold transmit at hleft ⊢
      split_ifs at hleft ⊢ with hfull
      · cases s.writeBlocked <;> simp
      · cases transmits with
        | nil => exact absurd hleft (Nat.lt_irrefl _)
        | cons t rest => exact Or.inl rfl
  | succ rounds ih =>
      unfold transmit at hleft ⊢
      split_ifs at hleft ⊢ with hfull
      · cases s.writeBlocked <;> simp
      · cases transmits with
        | nil => exact absurd hleft (Nat.lt_irrefl _)
        | cons t rest =>
            have hrest := ih { s with out := s.out ++ [t], buffers := s.buffers - 1 } rest
              (Nat.lt_of_succ_lt_succ hleft)
            exact hrest.imp_left fun h => by simpa using h

theorem Bounded.serve {s : Endpoint τ} (h : Bounded s) (services : ConnectionId → Service τ)
    (id : ConnectionId) :
    Bounded (s.serve services id).1 ∧
      (s.serve services id).1.out =
        s.out ++ (s.serve services id).2.2.flatMap Polled.transmits := by
  unfold Endpoint.serve
  dsimp only
  split
  · exact ⟨h, (List.append_nil _).symm⟩
  · rename_i l hl
    obtain ⟨htransmitted, hout⟩ := h.transmit serviceBatch (services id).transmits
    refine ⟨?_, ?_⟩
    · have hupdated : ∀ l', Bounded ((s.transmit serviceBatch (services id).transmits).1.update id
          fun _ => l') := fun l' => htransmitted.update id _
      split_ifs
      · exact (hupdated _).remove id
      · exact (hupdated _).remove id
      · exact hupdated _
      · exact hupdated _
    · rw [List.flatMap_singleton, ← hout]
      split_ifs <;> rfl

theorem Bounded.serveAll {s : Endpoint τ} (h : Bounded s) (services : ConnectionId → Service τ)
    (ids : List ConnectionId) :
    Bounded (s.serveAll services ids).1 ∧
      (s.serveAll services ids).1.out =
        s.out ++ (s.serveAll services ids).2.2.flatMap Polled.transmits := by
  induction ids generalizing s with
  | nil => exact ⟨h, (List.append_nil _).symm⟩
  | cons id rest ih =>
      obtain ⟨hnext, hout⟩ := h.serve services id
      obtain ⟨hlast, hrest⟩ := ih hnext
      refine ⟨hlast, hrest.trans ?_⟩
      rw [hout, List.append_assoc, ← List.flatMap_append]
      rfl

/-- What freeing the socket leaves as it is. -/
theorem unblock_frame (s : Endpoint τ) :
    s.unblock.connections.length = s.connections.length ∧ s.unblock.limit = s.limit ∧
      s.unblock.pending = s.pending ∧ s.unblock.receiveMore = s.receiveMore ∧
      s.unblock.writeBlocked = false := by
  unfold unblock
  split_ifs with hblocked
  · exact ⟨List.length_map _, rfl, rfl, rfl, rfl⟩
  · exact ⟨rfl, rfl, rfl, rfl, by simpa using hblocked⟩

/-- What has left the queue, of what the socket took. -/
def departed (sent : List (τ × Bool)) : List τ := (sent.filter Prod.snd).map Prod.fst

/-- What the socket took without its leaving the queue is what it is given next. -/
def Retried (out : List τ) : List (τ × Bool) → Prop
  | [] => True
  | (t, left) :: rest =>
      (left = false → (rest.map Prod.fst ++ out).head? = some t) ∧ Retried out rest

theorem Retried.mono {out out' : List τ} {sent : List (τ × Bool)} (h : Retried out sent)
    (hhead : ∀ t, out.head? = some t → out'.head? = some t) : Retried out' sent := by
  induction sent with
  | nil => trivial
  | cons p rest ih =>
      obtain ⟨hfirst, hrest⟩ := h
      refine ⟨fun hstays => ?_, ih hrest⟩
      have hnext := hfirst hstays
      rw [List.head?_append] at hnext ⊢
      cases hmap : (rest.map Prod.fst).head? with
      | none =>
          rw [hmap, Option.none_or] at hnext
          exact hhead p.1 hnext
      | some t =>
          rw [hmap] at hnext
          exact hnext

theorem Retried.append {out : List τ} {sent more : List (τ × Bool)}
    (h : Retried (more.map Prod.fst ++ out) sent) (hmore : Retried out more) :
    Retried out (sent ++ more) := by
  induction sent with
  | nil => exact hmore
  | cons p rest ih =>
      obtain ⟨hfirst, hrest⟩ := h
      refine ⟨fun hstays => ?_, ih hrest⟩
      change ((rest ++ more).map Prod.fst ++ out).head? = some p.1
      rw [List.map_append, List.append_assoc]
      exact hfirst hstays

/-- What the socket takes leaves the queue in order, or is still the next to go. -/
theorem Bounded.flush {s : Endpoint τ} (h : Bounded s) {q : List τ} (hq : s.out = q)
    (answers : List SendAnswer) :
    Bounded (s.flush q answers).1 ∧
      q = departed (s.flush q answers).2.1 ++ (s.flush q answers).1.out ∧
      Retried (s.flush q answers).1.out (s.flush q answers).2.1 ∧
      ((s.flush q answers).2.1.map Prod.fst ++ (s.flush q answers).1.out).head? = q.head? := by
  induction q generalizing s answers with
  | nil => exact ⟨h, hq.symm, trivial, congrArg List.head? hq⟩
  | cons t rest ih =>
      unfold Endpoint.flush
      split
      case h_1 registered hanswer =>
          by_cases hrefused : s.writeBlocked = true ∧ registered = false
          · rw [if_pos hrefused]
            have hhead : s.out.head? = some t := congrArg List.head? hq
            exact ⟨{ h with blocked := by rintro ⟨⟩ }, hq.symm, ⟨fun _ => hhead, trivial⟩, rfl⟩
          rw [if_neg hrefused]
          obtain ⟨hlength, hlimit, hpending, hmore, hfree⟩ := unblock_frame s
          generalize hbuffers : (if s.buffers < outLimit then s.buffers + 1 else s.buffers) =
            buffers
          have hout : rest.length ≤ outLimit := by
            have hold := h.out
            rw [hq, List.length_cons] at hold
            exact (Nat.le_succ _).trans hold
          have hroom : buffers ≤ outLimit := by
            have hold := h.buffers
            split_ifs at hbuffers <;> omega
          have hnext : Bounded
              ({ s.unblock with out := rest, buffers := buffers } : Endpoint τ) := by
            refine ⟨hout, hroom, ?_, fun hblocked => absurd (hfree.symm.trans hblocked) (by simp),
              fun hnone => hpending.trans (h.received (hmore.symm.trans hnone))⟩
            change s.unblock.connections.length ≤ s.unblock.limit
            rw [hlength, hlimit]
            exact h.connections
          obtain ⟨hlast, hsent, hretried, -⟩ := ih hnext rfl answers.tail
          exact ⟨hlast, congrArg (t :: ·) hsent, ⟨by rintro ⟨⟩, hretried⟩, rfl⟩
      case h_2 =>
          exact ⟨{ h with blocked := fun _ => by simp [hq] }, hq.symm, trivial,
            congrArg List.head? hq⟩
      case h_3 => exact ⟨h, hq.symm, trivial, congrArg List.head? hq⟩

theorem turn_frame (s : Endpoint τ) (keys : List ConnectionId) :
    (s.turn keys).1.out = s.out ∧ (s.turn keys).1.pending = s.pending ∧
      (s.turn keys).1.limit = s.limit ∧ (s.turn keys).1.connections = s.connections ∧
      (s.turn keys).1.writeBlocked = s.writeBlocked := by
  unfold turn
  split_ifs <;> exact ⟨rfl, rfl, rfl, rfl, rfl⟩

theorem Bounded.turn {s : Endpoint τ} (h : Bounded s) (keys : List ConnectionId) :
    Bounded (s.turn keys).1 := by
  unfold Endpoint.turn
  split_ifs
  · exact { h with }
  · exact h

/-- What serving a connection and sending leave as it is. -/
theorem serve_frame (s : Endpoint τ) (services : ConnectionId → Service τ)
    (id : ConnectionId) :
    (s.serve services id).1.pending = s.pending ∧
      (s.serve services id).1.writeBlocked = s.writeBlocked ∧
      (s.serve services id).1.limit = s.limit := by
  unfold serve
  dsimp only
  split
  · exact ⟨rfl, rfl, rfl⟩
  · obtain ⟨-, hlimit, hpending, -, hblocked⟩ :=
      transmit_frame s serviceBatch (services id).transmits
    split_ifs <;> exact ⟨hpending, hblocked, hlimit⟩

theorem serveAll_frame (s : Endpoint τ) (services : ConnectionId → Service τ)
    (ids : List ConnectionId) :
    (s.serveAll services ids).1.pending = s.pending ∧
      (s.serveAll services ids).1.writeBlocked = s.writeBlocked ∧
      (s.serveAll services ids).1.limit = s.limit := by
  induction ids generalizing s with
  | nil => exact ⟨rfl, rfl, rfl⟩
  | cons id rest ih =>
      obtain ⟨hpending, hblocked, hlimit⟩ := serve_frame s services id
      obtain ⟨hlast, hlastblocked, hlastlimit⟩ := ih (s.serve services id).1
      exact ⟨hlast.trans hpending, hlastblocked.trans hblocked, hlastlimit.trans hlimit⟩

theorem flush_frame (s : Endpoint τ) (q : List τ) (answers : List SendAnswer) :
    (s.flush q answers).1.pending = s.pending ∧ (s.flush q answers).1.limit = s.limit := by
  induction q generalizing s answers with
  | nil => exact ⟨rfl, rfl⟩
  | cons t rest ih =>
      unfold flush
      split
      case h_1 registered hanswer =>
          by_cases hrefused : s.writeBlocked = true ∧ registered = false
          · rw [if_pos hrefused]
            exact ⟨rfl, rfl⟩
          rw [if_neg hrefused]
          obtain ⟨-, hlimit, hpending, -⟩ := unblock_frame s
          obtain ⟨hlast, hlastlimit⟩ := ih { s.unblock with
            out := rest
            buffers := if s.buffers < outLimit then s.buffers + 1 else s.buffers } answers.tail
          exact ⟨hlast.trans hpending, hlastlimit.trans hlimit⟩
      case h_2 => exact ⟨rfl, rfl⟩
      case h_3 => exact ⟨rfl, rfl⟩

/-- What a pass does to the two queues: every datagram read is handed to quinn or left for the
next pass, in order, and every response and transmit leaves or stays, in order. -/
theorem Bounded.pass {s : Endpoint τ} (h : Bounded s) (x : PassInput τ) :
    Bounded (s.pass x).1 ∧
      ((s.pass x).2.handled = (s.remaining ++ given x.arrivals).take receiveBatch ∧
        ∃ read, x.arrivals = read ++ (s.pass x).2.unread ∧
          (s.pass x).2.handled ++ (s.pass x).1.remaining = s.remaining ++ given read) ∧
      s.out ++ (s.pass x).2.responses ++ (s.pass x).2.polled.flatMap Polled.transmits =
        departed (s.pass x).2.sent ++ (s.pass x).1.out ∧
      Retried (s.pass x).1.out (s.pass x).2.sent ∧
      ∀ t, s.out.head? = some t →
        ((s.pass x).2.sent.map Prod.fst ++ (s.pass x).1.out).head? = some t := by
  have hstart : Bounded ({ s with receiveMore := true } : Endpoint τ) :=
    { h with received := by rintro ⟨⟩ }
  obtain ⟨hreceived, hout⟩ := hstart.receive rfl receiveBatch x.arrivals x.answers
  obtain ⟨hpolled, hunsent⟩ := receive_report ({ s with receiveMore := true } : Endpoint τ)
    receiveBatch x.arrivals x.answers
  have hdatagrams := receive_datagrams ({ s with receiveMore := true } : Endpoint τ) receiveBatch
    x.arrivals x.answers
  have hhead : ∀ {t} (more : List τ), s.out.head? = some t → (s.out ++ more).head? = some t := by
    intro t more hfirst
    rw [List.head?_append, hfirst]
    rfl
  unfold Endpoint.pass
  dsimp only
  generalize ({ s with receiveMore := true } : Endpoint τ).receive receiveBatch x.arrivals
    x.answers = result at hreceived hout hpolled hunsent hdatagrams ⊢
  obtain ⟨received, r⟩ := result
  dsimp only at hreceived hout hpolled hunsent hdatagrams ⊢
  split_ifs
  · have hturned := hreceived.turn x.keys
    obtain ⟨hsame, hkept, -⟩ := turn_frame received x.keys
    generalize received.turn x.keys = turned at hturned hsame hkept ⊢
    obtain ⟨hserved, hqueued⟩ := hturned.serveAll x.services turned.2
    obtain ⟨hpending, -⟩ := serveAll_frame turned.1 x.services turned.2
    generalize turned.1.serveAll x.services turned.2 = served
      at hserved hqueued hpending ⊢
    obtain ⟨hlast, hsent, hretried, hnext⟩ := hserved.flush rfl x.sends
    obtain ⟨hstill, -⟩ := flush_frame served.1 served.1.out x.sends
    rw [hsame, hout, List.append_assoc] at hqueued
    refine ⟨hlast, ?_, ?_, hretried, fun t hfirst => ?_⟩
    · have hremaining : (served.1.flush served.1.out x.sends).1.remaining = received.remaining := by
        unfold remaining
        rw [hstill, hpending, hkept]
      rw [hremaining]
      exact hdatagrams
    · rw [← hsent, hqueued, List.append_assoc]
    · rw [hnext, hqueued]
      exact hhead _ hfirst
  · rw [hpolled, hunsent, hout]
    exact ⟨hreceived, hdatagrams, by simp [departed], trivial, fun t => hhead _⟩

theorem limit_receive (s : Endpoint τ) (rounds : Nat) (arrivals : List Arrival)
    (answers : List (Handled τ)) : (s.receive rounds arrivals answers).1.limit = s.limit := by
  induction rounds generalizing s arrivals answers with
  | zero => rfl
  | succ rounds ih =>
      unfold receive
      split
      · exact (ih _ _ _).trans (handle_frame _ _).2.2.2.1
      · split
        · exact (ih _ _ _).trans (handle_frame _ _).2.2.2.1
        · rfl
        · rfl
        · rfl

theorem limit_step (s : Endpoint τ) (op : EndpointOp τ) : (s.step op).1.limit = s.limit := by
  cases op with
  | pass x =>
      have hreceived := limit_receive ({ s with receiveMore := true } : Endpoint τ) receiveBatch
        x.arrivals x.answers
      simp only [step, pass]
      split_ifs
      · exact ((flush_frame _ _ _).2.trans (serveAll_frame _ _ _).2.2).trans
          ((turn_frame _ _).2.2.1.trans hreceived)
      · exact hreceived
  | connect id =>
      simp only [step, connect]
      split_ifs <;> rfl
  | _ => rfl

theorem Bounded.step {s : Endpoint τ} (h : Bounded s) (op : EndpointOp τ) :
    Bounded (s.step op).1 := by
  cases op with
  | pass x => exact (h.pass x).1
  | connect id =>
      simp only [Endpoint.step, connect]
      split_ifs with hfull
      · exact h
      · exact h.insert id (not_le.mp hfull)
  | accept => exact { h with }
  | enter id waker => exact h.update id fun l => { l with shared := (l.shared.enter waker).1 }
  | consumed id => exact h.update id fun l => { l with shared := l.shared.consumed }
  | changed id => exact h.update id fun l => { l with shared := l.shared.changed }
  | park id waker => exact h.update id fun l => { l with shared := l.shared.park waker }
  | wake id => exact h.update id fun l => { l with shared := l.shared.wake }
  | close id code reason =>
      change Bounded (s.close id code reason)
      unfold close
      exact h.update id _

section Responses

/-- What quinn responds to a datagram where these connections exist, to a new one only while there
is room for it, and the connections then. -/
def answered (limit : Nat) (ids : List ConnectionId) :
    Handled τ → List τ × List ConnectionId
  | .response t => ([t], ids)
  | .opening (.ok id) =>
      ([], if limit ≤ ids.length then ids else ids.filter (fun x => x ≠ id) ++ [id])
  | .opening (.error (some t)) => (if limit ≤ ids.length then [] else [t], ids)
  | .opening (.error none) => ([], ids)
  | .event _ => ([], ids)
  | .nothing => ([], ids)

def ids (s : Endpoint τ) : List ConnectionId := s.connections.map Prod.fst

end Responses

/-- What a pass has read of what the socket would give. -/
def readOf (x : PassInput τ) (r : PassReport τ) : List Arrival :=
  x.arrivals.take (x.arrivals.length - r.unread.length)

theorem readOf_eq {x : PassInput τ} {r : PassReport τ} {read : List Arrival}
    (h : x.arrivals = read ++ r.unread) : readOf x r = read := by
  rw [readOf, h, List.length_append, Nat.add_sub_cancel, List.take_left]

/-- What an observer has seen of the passes: the datagrams that were read and those that quinn was
handed, and what was queued for the socket and what it took. -/
structure Traffic (τ : Type) where
  received : List Bytes
  handled : List Bytes
  queued : List τ
  sent : List (τ × Bool)

def note (g : Traffic τ) (s : Endpoint τ) : EndpointOp τ → Traffic τ
  | .pass x =>
      let r := (s.pass x).2
      { received := g.received ++ given (readOf x r)
        handled := g.handled ++ r.handled
        queued := g.queued ++ (r.responses ++ r.polled.flatMap Polled.transmits)
        sent := g.sent ++ r.sent }
  | _ => g

/-- The traffic of a run of an endpoint. -/
def traffic (limit : Nat) (ops : List (EndpointOp τ)) : Traffic τ :=
  Machine.record step note ⟨[], [], [], []⟩ (new limit) ops

/-- The bounds, and the two queues against the traffic. -/
structure Accounts (limit : Nat) (g : Traffic τ) (s : Endpoint τ) : Prop where
  bounded : Bounded s
  limit : s.limit = limit
  datagrams : g.handled ++ s.remaining = g.received
  output : g.queued = departed g.sent ++ s.out
  retried : Retried s.out g.sent

theorem Accounts.step {limit : Nat} {g : Traffic τ} {s : Endpoint τ} (h : Accounts limit g s)
    (op : EndpointOp τ) : Accounts limit (note g s op) (s.step op).1 := by
  have hbounded := h.bounded.step op
  have hlimit := (limit_step s op).trans h.limit
  cases op with
  | pass x =>
      obtain ⟨-, ⟨-, read, hread, hkept⟩, hout, hretried, hhead⟩ := h.bounded.pass x
      refine ⟨hbounded, hlimit, ?_, ?_, (h.retried.mono hhead).append hretried⟩
      · simp only [note, Endpoint.step, List.append_assoc]
        rw [hkept, ← List.append_assoc, h.datagrams, readOf_eq hread]
      · simp only [note, Endpoint.step]
        rw [departed, List.filter_append, List.map_append, List.append_assoc, ← departed,
          ← departed, ← hout, h.output]
        simp only [List.append_assoc]
  | connect id =>
      refine ⟨hbounded, hlimit, ?_, ?_, ?_⟩
      all_goals
        simp only [note, Endpoint.step, connect]
        split_ifs
      · exact h.datagrams
      · exact h.datagrams
      · exact h.output
      · exact h.output
      · exact h.retried
      · exact h.retried
  | _ => exact ⟨hbounded, hlimit, h.datagrams, h.output, h.retried⟩

theorem accounts_run (limit : Nat) (ops : List (EndpointOp τ)) :
    Accounts limit (traffic limit ops) (Machine.run step (new limit) ops) := by
  have hnew : Accounts limit (⟨[], [], [], []⟩ : Traffic τ) (new limit) :=
    ⟨bounded_new limit, rfl, rfl, rfl, trivial⟩
  unfold traffic
  generalize (⟨[], [], [], []⟩ : Traffic τ) = g, (new limit : Endpoint τ) = s at hnew
  induction ops generalizing g s with
  | nil => exact hnew
  | cons op rest ih => exact ih _ _ (hnew.step op)

/-- Every datagram that is read from the socket is handed to quinn, whole, once and in order,
however many there are at once and however the passes cut them: what an owner has left when it
heeds `needs_pass` is nothing. A pass hands over the next 32, or all that the socket gives. -/
theorem datagrams_handed_on (limit : Nat) (ops : List (EndpointOp τ)) :
    let s := Machine.run step (new limit) ops
    let g := traffic limit ops
    g.handled ++ s.remaining = g.received ∧ (s.needsPass = false → s.remaining = []) ∧
      ∀ x, x.arrivals = readOf x (s.pass x).2 ++ (s.pass x).2.unread ∧
        (s.pass x).2.handled = (s.remaining ++ given x.arrivals).take receiveBatch := by
  intro s g
  have h := accounts_run limit ops
  refine ⟨h.datagrams, fun hdone => ?_, fun x => ?_⟩
  · have hmore : s.receiveMore = false := (Bool.or_eq_false_iff.mp hdone).1
    rw [remaining, h.bounded.received hmore]
  · obtain ⟨-, ⟨hhanded, read, hread, -⟩, -⟩ := h.bounded.pass x
    refine ⟨?_, hhanded⟩
    rw [readOf_eq hread]
    exact hread

theorem link_update (s : Endpoint τ) (id x : ConnectionId) (f : Link → Link) :
    (s.update id f).link x = if x = id then (s.link id).map f else s.link x := by
  unfold link update
  dsimp only
  generalize s.connections = connections
  induction connections with
  | nil => simp
  | cons p rest ih =>
      by_cases hp : p.1 = x
      · subst hp
        by_cases hid : p.1 = id
        · subst hid
          simp
        · simp [hid]
      · have hkey : (if p.1 = id then (p.1, f p.2) else p).1 = p.1 := by split_ifs <;> rfl
        rw [List.map_cons, List.find?_cons_of_neg (by simpa [hkey] using hp), ih]
        split_ifs with hx
        · subst hx
          rw [List.find?_cons_of_neg (by simpa using hp)]
        · rw [List.find?_cons_of_neg (by simpa using hp)]

theorem link_remove (s : Endpoint τ) (id x : ConnectionId) :
    (s.remove id).link x = if x = id then none else s.link x := by
  unfold link remove
  dsimp only
  generalize s.connections = connections
  induction connections with
  | nil => simp
  | cons p rest ih =>
      by_cases hid : p.1 = id
      · subst hid
        rw [List.filter_cons_of_neg (by simp), ih]
        split_ifs with hx
        · rfl
        · rw [List.find?_cons_of_neg (by simpa [eq_comm] using hx)]
      · rw [List.filter_cons_of_pos (by simpa using hid)]
        by_cases hp : p.1 = x
        · subst hp
          simp [hid]
        · rw [List.find?_cons_of_neg (by simpa using hp),
            List.find?_cons_of_neg (by simpa using hp), ih]

theorem link_insert (s : Endpoint τ) (id x : ConnectionId) :
    (s.insert id).link x = if x = id then some .new else s.link x := by
  have hremoved := link_remove s id x
  unfold link remove at hremoved
  unfold link insert
  dsimp only at hremoved ⊢
  rw [List.find?_append]
  split_ifs at hremoved ⊢ with hx
  · subst hx
    rw [Option.map_eq_none_iff.mp hremoved]
    simp
  · rw [← hremoved]
    have hne : ¬ id = x := fun heq => hx heq.symm
    simp [hne]

/-- What the loop that receives gives in a pass. -/
def received (s : Endpoint τ) (x : PassInput τ) : Endpoint τ × PassReport τ :=
  ({ s with receiveMore := true } : Endpoint τ).receive receiveBatch x.arrivals x.answers

/-- What is owed to the connections: whether the last pass that served one left something of it,
which wakers have been refused for want of budget and not woken since, and whether mio refused
that pass a change of interest, for something that the socket then took and that stays. -/
structure Debts where
  left : ConnectionId → Bool
  refused : ConnectionId → List Nat
  stranded : Bool

/-- What is left of the connections and has to be remembered. -/
def Debts.due (g : Debts) (id : ConnectionId) : Bool := g.left id && !g.stranded

/-- Whether a pass that took these transmits of a connection left something of it. -/
def leaves (service : Service τ) (taken : List τ) : Bool :=
  decide (taken.length < service.transmits.length) ||
    decide (serviceBatch < service.endpointEvents) ||
    decide (serviceBatch < service.events.length)

/-- What is left of the connections after some of them have been served. -/
def leftBy (left : ConnectionId → Bool) (services : ConnectionId → Service τ)
    (polled : List (Polled τ)) : ConnectionId → Bool :=
  polled.foldl (fun left p =>
    Function.update left p.id (leaves (services p.id) p.transmits)) left

theorem leftBy_congr {left left' : ConnectionId → Bool} (services : ConnectionId → Service τ)
    (polled : List (Polled τ)) {x : ConnectionId} (h : left x = left' x) :
    leftBy left services polled x = leftBy left' services polled x := by
  induction polled generalizing left left' with
  | nil => exact h
  | cons p rest ih =>
      refine ih ?_
      dsimp only
      by_cases hx : x = p.id
      · rw [hx, Function.update_self, Function.update_self]
      · rw [Function.update_of_ne hx, Function.update_of_ne hx, h]

/-- Whether something stays that the socket took. -/
def stays (sent : List (τ × Bool)) : Bool := sent.any fun p => !p.2

def owe (g : Debts) (s : Endpoint τ) : EndpointOp τ → Debts
  | .pass x =>
      { left := leftBy g.left x.services (s.pass x).2.polled
        refused := fun id => (g.refused id).filter fun w => (id, w) ∉ (s.pass x).2.woken
        stranded := if (s.received x).2.ok then stays (s.pass x).2.sent else g.stranded }
  | .enter id waker =>
      if (s.link id).any fun l => l.shared.error = none ∧ l.shared.budget = 0 then
        { g with refused := Function.update g.refused id (g.refused id ++ [waker]) }
      else g
  | .wake id => { g with refused := Function.update g.refused id [] }
  | .close id _ _ =>
      if (s.link id).any fun l => l.shared.error = none then
        { g with refused := Function.update g.refused id [] }
      else g
  | _ => g

/-- Every debt is remembered: where something is left a pass is due or the socket cannot write,
and who has been refused is parked and a pass is due, or has just been woken. -/
structure Remembered (left : ConnectionId → Bool) (refused : ConnectionId → List Nat)
    (woken : List (ConnectionId × Nat)) (s : Endpoint τ) : Prop where
  left : ∀ id l, s.link id = some l → left id = true →
    l.shared.needsPass = true ∨ s.writeBlocked = true
  refused : ∀ id w, w ∈ refused id → (id, w) ∈ woken ∨
    ∃ l, s.link id = some l ∧ w ∈ l.shared.waiters ∧ l.shared.needsPass = true

/-- A connection is changed to one that is as much due and has parked as many. -/
theorem Remembered.update {left : ConnectionId → Bool} {refused : ConnectionId → List Nat}
    {woken : List (ConnectionId × Nat)} {s : Endpoint τ} (h : Remembered left refused woken s)
    (id : ConnectionId) (f : Link → Link)
    (hf : ∀ l, l.shared.needsPass = true → (f l).shared.needsPass = true)
    (hwaiters : ∀ l, s.link id = some l → l.shared.waiters ⊆ (f l).shared.waiters) :
    Remembered left refused woken (s.update id f) where
  left := fun x l hl hleft => by
    rw [link_update] at hl
    split_ifs at hl with hx
    · obtain ⟨old, hold, rfl⟩ := Option.map_eq_some_iff.mp hl
      exact (h.left x old (hx ▸ hold) hleft).imp_left (hf old)
    · exact h.left x l hl hleft
  refused := fun x w hw => by
    refine (h.refused x w hw).imp_right ?_
    rintro ⟨l, hl, hparked, hdue⟩
    rw [link_update]
    split_ifs with hx
    · subst hx
      exact ⟨f l, by rw [hl]; rfl, hwaiters l hl hparked, hf l hdue⟩
    · exact ⟨l, hl, hparked, hdue⟩

/-- Who has been refused on a connection may be forgotten. -/
theorem Remembered.forget {left : ConnectionId → Bool} {refused : ConnectionId → List Nat}
    {woken : List (ConnectionId × Nat)} {s : Endpoint τ} (h : Remembered left refused woken s)
    (id : ConnectionId) (f : Link → Link)
    (hf : ∀ l, l.shared.needsPass = true → (f l).shared.needsPass = true) :
    Remembered left (Function.update refused id []) woken (s.update id f) where
  left := fun x l hl hleft => by
    rw [link_update] at hl
    split_ifs at hl with hx
    · obtain ⟨old, hold, rfl⟩ := Option.map_eq_some_iff.mp hl
      exact (h.left x old (hx ▸ hold) hleft).imp_left (hf old)
    · exact h.left x l hl hleft
  refused := fun x w hw => by
    by_cases hx : x = id
    · subst hx
      rw [Function.update_self] at hw
      cases hw
    · rw [Function.update_of_ne hx] at hw
      rw [link_update, if_neg hx]
      exact h.refused x w hw

/-- All that wait on a connection are woken. -/
theorem Remembered.wake {left : ConnectionId → Bool} {refused : ConnectionId → List Nat}
    {woken : List (ConnectionId × Nat)} {s : Endpoint τ} (h : Remembered left refused woken s)
    (id : ConnectionId) :
    Remembered left refused (woken ++ (s.wake id).2) (s.wake id).1 where
  left := fun x l hl hleft => by
    rw [Endpoint.wake, link_update] at hl
    split_ifs at hl with hx
    · obtain ⟨old, hold, rfl⟩ := Option.map_eq_some_iff.mp hl
      exact h.left x old (hx ▸ hold) hleft
    · exact h.left x l hl hleft
  refused := fun x w hw => by
    obtain hwoken | ⟨l, hl, hparked, hdue⟩ := h.refused x w hw
    · exact Or.inl (List.mem_append_left _ hwoken)
    · by_cases hx : x = id
      · subst hx
        refine Or.inl (List.mem_append_right _ ?_)
        simpa [Endpoint.wake, waiters, hl] using hparked
      · refine Or.inr ⟨l, ?_, hparked, hdue⟩
        rw [Endpoint.wake, link_update, if_neg hx, hl]

/-- A connection is new, under an id that is not in use. -/
theorem Remembered.insert {left : ConnectionId → Bool} {refused : ConnectionId → List Nat}
    {woken : List (ConnectionId × Nat)} {s : Endpoint τ} (h : Remembered left refused woken s)
    {id : ConnectionId} (hfresh : s.link id = none) :
    Remembered left refused woken (s.insert id) where
  left := fun x l hl hleft => by
    rw [link_insert] at hl
    split_ifs at hl
    · cases hl
      exact Or.inl rfl
    · exact h.left x l hl hleft
  refused := fun x w hw => by
    refine (h.refused x w hw).imp_right ?_
    rintro ⟨l, hl, hparked, hdue⟩
    rw [link_insert]
    split_ifs with hx
    · rw [hx, hfresh] at hl
      cases hl
    · exact ⟨l, hl, hparked, hdue⟩

theorem Remembered.congr {left : ConnectionId → Bool} {refused : ConnectionId → List Nat}
    {woken : List (ConnectionId × Nat)} {s t : Endpoint τ} (h : Remembered left refused woken s)
    (hconnections : t.connections = s.connections) (hblocked : t.writeBlocked = s.writeBlocked) :
    Remembered left refused woken t where
  left := fun x l hl hleft => by
    rw [hblocked]
    refine h.left x l ?_ hleft
    rwa [link, hconnections] at hl
  refused := fun x w hw => by
    refine (h.refused x w hw).imp_right ?_
    rintro ⟨l, hl, hrest⟩
    refine ⟨l, ?_, hrest⟩
    rwa [link, hconnections]

/-- The ids quinn takes up new connections under. -/
def openedIds (answers : List (Handled τ)) : List ConnectionId :=
  answers.filterMap fun
    | .opening (.ok id) => some id
    | _ => none

/-- They are not in use. -/
def FreshIds (s : Endpoint τ) (answers : List (Handled τ)) : Prop :=
  (openedIds answers).Nodup ∧ ∀ id ∈ openedIds answers, s.link id = none

theorem FreshIds.tail {s : Endpoint τ} {answers : List (Handled τ)} (h : FreshIds s answers) :
    FreshIds s answers.tail := by
  cases answers with
  | nil => exact h
  | cons answer rest =>
      obtain ⟨hnodup, hfree⟩ := h
      have hsub : List.Sublist (openedIds rest) (openedIds (answer :: rest)) :=
        (List.sublist_cons_self answer rest).filterMap _
      exact ⟨hnodup.sublist hsub, fun id hid => hfree id (hsub.subset hid)⟩

/-- What handling a datagram can do to the connections: wake one, take up a new one, or
nothing. -/
theorem handle_cases (s : Endpoint τ) (answer : Handled τ) :
    (∃ id, answer = .event id ∧ (s.handle answer).1 = (s.wake id).1 ∧
      (s.handle answer).2.2 = (s.wake id).2) ∨
    (∃ id, answer = .opening (.ok id) ∧
      (s.handle answer).1.connections = (s.insert id).connections ∧
      (s.handle answer).2.2 = []) ∨
    (s.handle answer).1.connections = s.connections ∧ (s.handle answer).2.2 = [] := by
  have hrespond : ∀ t, (s.respond t).1.connections = s.connections := by
    intro t
    unfold respond
    split_ifs <;> rfl
  cases answer with
  | event id => exact Or.inl ⟨id, rfl, rfl, rfl⟩
  | response t => exact Or.inr (Or.inr ⟨hrespond t, rfl⟩)
  | nothing => exact Or.inr (Or.inr ⟨rfl, rfl⟩)
  | opening taken =>
      by_cases hfull : s.limit ≤ s.connections.length
      · refine Or.inr (Or.inr ?_)
        simp [handle, hfull]
      · rcases taken with (_ | t) | id
        · refine Or.inr (Or.inr ?_)
          simp [handle, hfull]
        · refine Or.inr (Or.inr ?_)
          simp [handle, hfull, hrespond t]
        · refine Or.inr (Or.inl ⟨id, rfl, ?_⟩)
          simp [handle, hfull]

/-- After an answer the ids of the others are still not in use. -/
theorem FreshIds.handle {s : Endpoint τ} {answers : List (Handled τ)} (h : FreshIds s answers) :
    FreshIds (s.handle (answers.headD .nothing)).1 answers.tail := by
  refine ⟨h.tail.1, fun x hx => ?_⟩
  have hfree := h.tail.2 x hx
  obtain ⟨id, -, hnext, -⟩ | ⟨id, hanswer, hnext, -⟩ | ⟨hnext, -⟩ :=
    handle_cases s (answers.headD .nothing)
  · rw [hnext, Endpoint.wake, link_update]
    split_ifs with hid
    · rw [← hid, hfree]
      rfl
    · exact hfree
  · have hne : x ≠ id := by
      rintro rfl
      cases answers with
      | nil => cases hanswer
      | cons answer rest =>
          obtain rfl : answer = .opening (.ok x) := hanswer
          have hnodup : (x :: openedIds rest).Nodup := h.1
          exact (List.nodup_cons.mp hnodup).1 hx
    rw [link, hnext, ← link, link_insert, if_neg hne]
    exact hfree
  · rw [link, hnext]
    exact hfree

/-- New connections have ids that are not in use, and the keys of the map are those of the
connections. -/
def Admitted (s : Endpoint τ) : EndpointOp τ → Prop
  | .pass x => FreshIds s x.answers ∧ ∀ p ∈ (s.received x).1.connections, p.1 ∈ x.keys
  | .connect id => s.link id = none
  | _ => True

instance (s : Endpoint τ) (answers : List (Handled τ)) : Decidable (FreshIds s answers) :=
  inferInstanceAs (Decidable (_ ∧ _))

instance (s : Endpoint τ) (op : EndpointOp τ) : Decidable (Admitted s op) :=
  match op with
  | .pass _ => inferInstanceAs (Decidable (_ ∧ _))
  | .connect id => inferInstanceAs (Decidable (s.link id = none))
  | .accept | .enter _ _ | .consumed _ | .changed _ | .park _ _ | .wake _ | .close _ _ _ =>
      isTrue trivial

section Passes

variable {left : ConnectionId → Bool} {refused : ConnectionId → List Nat}
  {woken : List (ConnectionId × Nat)} {s : Endpoint τ}

theorem Remembered.handle (h : Remembered left refused woken s) {answers : List (Handled τ)}
    (hfresh : FreshIds s answers) :
    Remembered left refused (woken ++ (s.handle (answers.headD .nothing)).2.2)
      (s.handle (answers.headD .nothing)).1 := by
  have hblocked := (handle_frame s (answers.headD .nothing)).2.2.2.2
  obtain ⟨id, -, hnext, hwoken⟩ | ⟨id, hanswer, hnext, hwoken⟩ | ⟨hnext, hwoken⟩ :=
    handle_cases s (answers.headD .nothing)
  · rw [hnext, hwoken]
    exact h.wake id
  · rw [hwoken, List.append_nil]
    refine (h.insert (hfresh.2 id ?_)).congr hnext hblocked
    cases answers with
    | nil => cases hanswer
    | cons answer rest =>
        obtain rfl : answer = .opening (.ok id) := hanswer
        simp [openedIds]
  · rw [hwoken, List.append_nil]
    exact h.congr hnext hblocked

theorem Remembered.receive (h : Remembered left refused woken s) (rounds : Nat)
    (arrivals : List Arrival) {answers : List (Handled τ)} (hfresh : FreshIds s answers) :
    Remembered left refused (woken ++ (s.receive rounds arrivals answers).2.woken)
      (s.receive rounds arrivals answers).1 := by
  induction rounds generalizing s woken arrivals answers with
  | zero => simpa [Endpoint.receive, report] using h
  | succ rounds ih =>
      have hsegment : ∀ (rest : Option (Bytes × Nat × Nat)) (arrivals : List Arrival),
          let next := ({ s with pending := rest } : Endpoint τ).handle (answers.headD .nothing)
          let last := next.1.receive rounds arrivals answers.tail
          Remembered left refused (woken ++ (next.2.2 ++ last.2.woken)) last.1 := by
        intro rest arrivals next last
        have hpending : Remembered left refused woken ({ s with pending := rest } : Endpoint τ) :=
          h.congr rfl rfl
        have hstill : FreshIds ({ s with pending := rest } : Endpoint τ) answers := hfresh
        have hlast := ih (hpending.handle hstill) arrivals hstill.handle
        rwa [List.append_assoc] at hlast
      unfold Endpoint.receive
      split
      case h_1 content stride start hpending =>
          exact hsegment (takeSegment content stride start).2 arrivals
      case h_2 hpending =>
          split
          case h_1 content stride hfirst =>
              exact hsegment (takeSegment content stride 0).2 arrivals.tail
          case h_2 => simpa [report] using h
          case h_3 =>
              rw [report, List.append_nil]
              exact h.congr rfl rfl
          case h_4 =>
              rw [report, List.append_nil]
              exact h.congr rfl rfl

/-- Events of a connection wake and change no more than that. -/
theorem needsPass_apply (events : List LinkEvent) (l : Link) :
    (events.foldl Link.apply l).shared.needsPass = l.shared.needsPass := by
  induction events generalizing l with
  | nil => rfl
  | cons event rest ih =>
      refine (ih _).trans ?_
      cases event <;> rfl

theorem link_transmit (s : Endpoint τ) (rounds : Nat) (transmits : List τ) (x : ConnectionId) :
    (s.transmit rounds transmits).1.link x = s.link x := by
  rw [link, link, (transmit_frame s rounds transmits).1]

theorem link_serve_of_ne (s : Endpoint τ) (services : ConnectionId → Service τ)
    {id x : ConnectionId} (hx : x ≠ id) : (s.serve services id).1.link x = s.link x := by
  unfold serve
  dsimp only
  split
  · rfl
  · split_ifs <;> simp only [link_remove, link_update, if_neg hx, link_transmit]

/-- After a connection has been served, what it has left is due or waits for the socket, and
whoever waited on it while a pass was due has been woken. -/
theorem serve_spec (s : Endpoint τ) (services : ConnectionId → Service τ) (id : ConnectionId)
    {l : Link} (hl : s.link id = some l) :
    ∃ taken rest, (s.serve services id).2.2 = [⟨id, taken, rest⟩] ∧
      (∀ l', (s.serve services id).1.link id = some l' → leaves (services id) taken = true →
        l'.shared.needsPass = true ∨ s.writeBlocked = true) ∧
      (l.shared.needsPass = true →
        (s.serve services id).2.1 = l.shared.waiters.map fun w => (id, w)) := by
  have hleft := transmit_left s 7 (services id).transmits
  have htransmitted := link_transmit s serviceBatch (services id).transmits id
  change (s.transmit serviceBatch (services id).transmits).2.1.length < _ →
    (s.transmit serviceBatch (services id).transmits).2.2.2 = true ∨ _ at hleft
  unfold serve
  simp only [hl]
  generalize s.transmit serviceBatch (services id).transmits = transmitted at hleft htransmitted ⊢
  refine ⟨transmitted.2.1, transmitted.2.2.1, rfl, fun l' hl' hleaves => ?_,
    fun hdue => by simp [hdue]⟩
  have hmore : ∀ more : Bool, (((services id).events.take serviceBatch).foldl Link.apply
      { l with shared := { l.shared with budget := operations, needsPass := more } }
        ).shared.needsPass = more := fun more => needsPass_apply _ _
  have hupdated : ∀ l₂ : Link, (transmitted.1.update id fun _ => l₂).link id = some l₂ := by
    intro l₂
    rw [link_update, if_pos rfl, htransmitted, hl]
    rfl
  generalize hneeds : (transmitted.2.2.2 || decide (serviceBatch ≤ (services id).endpointEvents) ||
    decide (serviceBatch ≤ (services id).events.length)) = more at hl'
  have hdue : l'.shared.needsPass = more := by
    by_cases hdrained : (services id).drained = true
    · rw [if_pos hdrained, link_remove, if_pos rfl] at hl'
      cases hl'
    · rw [if_neg hdrained, hupdated] at hl'
      cases hl'
      split_ifs <;> exact hmore more
  rw [hdue, ← hneeds]
  simp only [leaves, Bool.or_eq_true, decide_eq_true_eq] at hleaves ⊢
  obtain (htransmits | hendpoint) | hevents := hleaves
  · exact (hleft htransmits).imp_left fun h => Or.inl (Or.inl h)
  · exact Or.inl (Or.inl (Or.inr hendpoint.le))
  · exact Or.inl (Or.inr hevents.le)

/-- Whatever was left of a connection before it is served counts no longer. -/
theorem Remembered.serve (h : Remembered left refused woken s)
    (services : ConnectionId → Service τ) (id : ConnectionId) (base : ConnectionId → Bool)
    (hbase : ∀ x, x ≠ id → base x = left x) :
    Remembered (leftBy base services (s.serve services id).2.2) refused
      (woken ++ (s.serve services id).2.1) (s.serve services id).1 := by
  cases hl : s.link id with
  | none =>
      have hnothing : s.serve services id = (s, [], []) := by
        unfold Endpoint.serve
        simp only [hl]
      rw [hnothing, List.append_nil]
      refine ⟨fun x l hx hleft => h.left x l hx ?_, h.refused⟩
      have hne : x ≠ id := by
        rintro rfl
        rw [hl] at hx
        cases hx
      exact (hbase x hne).symm.trans hleft
  | some l =>
      obtain ⟨taken, rest, htaken, hleft, hwoken⟩ := serve_spec s services id hl
      obtain ⟨-, hblocked, -⟩ := serve_frame s services id
      constructor
      · intro x l' hl' hx
        rw [hblocked]
        by_cases hxid : x = id
        · subst hxid
          refine hleft l' hl' ?_
          simpa [leftBy, htaken] using hx
        · rw [link_serve_of_ne s services hxid] at hl'
          refine h.left x l' hl' ((hbase x hxid).symm.trans ?_)
          simpa [leftBy, htaken, hxid] using hx
      · intro x w hw
        obtain hold | ⟨lx, hlx, hparked, hdue⟩ := h.refused x w hw
        · exact Or.inl (List.mem_append_left _ hold)
        · by_cases hxid : x = id
          · subst hxid
            obtain rfl : lx = l := Option.some.inj (hlx.symm.trans hl)
            refine Or.inl (List.mem_append_right _ ?_)
            rw [hwoken hdue]
            exact List.mem_map_of_mem hparked
          · refine Or.inr ⟨lx, ?_, hparked, hdue⟩
            rw [link_serve_of_ne s services hxid, hlx]

/-- A connection that is served wakes whoever it has refused. -/
theorem Remembered.serve_woken (h : Remembered left refused woken s)
    (services : ConnectionId → Service τ) {id : ConnectionId} {w : Nat} (hw : w ∈ refused id) :
    (id, w) ∈ woken ++ (s.serve services id).2.1 := by
  obtain hold | ⟨l, hl, hparked, hdue⟩ := h.refused id w hw
  · exact List.mem_append_left _ hold
  · obtain ⟨-, -, -, -, hwoken⟩ := serve_spec s services id hl
    rw [hwoken hdue]
    exact List.mem_append_right _ (List.mem_map_of_mem hparked)

/-- Whatever was left before counts only for connections that are not served. -/
theorem Remembered.serveAll (h : Remembered left refused woken s)
    (services : ConnectionId → Service τ) (ids : List ConnectionId) (base : ConnectionId → Bool)
    (hbase : ∀ x, (s.link x).isSome → x ∉ ids → base x = left x) :
    Remembered (leftBy base services (s.serveAll services ids).2.2) refused
        (woken ++ (s.serveAll services ids).2.1) (s.serveAll services ids).1 ∧
      ∀ id ∈ ids, ∀ w ∈ refused id, (id, w) ∈ woken ++ (s.serveAll services ids).2.1 := by
  induction ids generalizing left woken s base with
  | nil =>
      refine ⟨⟨fun x l hl hleft => h.left x l hl ?_, fun x w hw => ?_⟩, by simp⟩
      · exact (hbase x (Option.isSome_of_eq_some hl) List.not_mem_nil).symm.trans hleft
      · rw [Endpoint.serveAll, List.append_nil]
        exact h.refused x w hw
  | cons id rest ih =>
      have hserved := h.serve services id (Function.update left id (base id))
        fun x hx => Function.update_of_ne hx _ _
      obtain ⟨hlast, hrest⟩ := ih hserved
        (leftBy base services (s.serve services id).2.2) fun x hlink hx => by
          refine leftBy_congr services _ ?_
          by_cases hxid : x = id
          · rw [hxid, Function.update_self]
          · rw [Function.update_of_ne hxid]
            rw [link_serve_of_ne s services hxid] at hlink
            exact hbase x hlink (by simp [hxid, hx])
      simp only [Endpoint.serveAll]
      rw [← List.append_assoc]
      refine ⟨?_, ?_⟩
      · rw [leftBy, List.foldl_append]
        exact hlast
      · intro x hx w hw
        obtain rfl | hx := List.mem_cons.mp hx
        · exact List.mem_append_left _ (h.serve_woken services hw)
        · exact hrest x hx w hw

/-- Once the socket takes something again, every connection is due. -/
theorem Remembered.unblock (h : Remembered left refused woken s) :
    Remembered left refused woken s.unblock := by
  unfold Endpoint.unblock
  split_ifs with hblocked
  · have hlink : ∀ x, ({ s with
        writeBlocked := false
        connections := s.connections.map fun p =>
          (p.1, { p.2 with shared := p.2.shared.changed }) } : Endpoint τ).link x =
        (s.link x).map fun l => { l with shared := l.shared.changed } := by
      intro x
      unfold link
      dsimp only
      generalize s.connections = connections
      induction connections with
      | nil => rfl
      | cons p rest ih =>
          rw [List.map_cons]
          by_cases hp : p.1 = x
          · simp [hp]
          · rw [List.find?_cons_of_neg (by simpa using hp),
              List.find?_cons_of_neg (by simpa using hp), ih]
    constructor
    · intro x l hl hleft
      rw [hlink] at hl
      obtain ⟨old, -, rfl⟩ := Option.map_eq_some_iff.mp hl
      exact Or.inl rfl
    · intro x w hw
      refine (h.refused x w hw).imp_right ?_
      rintro ⟨l, hl, hparked, hdue⟩
      exact ⟨{ l with shared := l.shared.changed }, by rw [hlink, hl]; rfl, hparked, rfl⟩
  · exact h

/-- Where mio refuses a change of interest no connection is made due. -/
theorem Remembered.flush (h : Remembered left refused woken s) (q : List τ)
    (answers : List SendAnswer) :
    Remembered (fun id => left id && !stays (s.flush q answers).2.1) refused woken
      (s.flush q answers).1 := by
  have hleft : ∀ s' : Endpoint τ, Remembered left refused woken s' →
      Remembered (fun id => left id && !stays ([] : List (τ × Bool))) refused woken s' :=
    fun s' h' => ⟨fun x l hl hx => h'.left x l hl (by simpa [stays] using hx), h'.refused⟩
  induction q generalizing s answers with
  | nil => exact hleft s h
  | cons t rest ih =>
      unfold Endpoint.flush
      split
      case h_1 registered hanswer =>
          by_cases hrefused : s.writeBlocked = true ∧ registered = false
          · rw [if_pos hrefused]
            exact ⟨fun x l hl hx => by simp [stays] at hx, h.refused⟩
          rw [if_neg hrefused]
          exact ih (s := { s.unblock with
            out := rest
            buffers := if s.buffers < outLimit then s.buffers + 1 else s.buffers })
            (h.unblock.congr rfl rfl) answers.tail
      case h_2 => exact hleft _ ⟨fun _ _ _ _ => Or.inr rfl, h.refused⟩
      case h_3 => exact hleft s h

/-- A pass that fails to receive polls nothing and sends nothing. -/
theorem pass_failed {x : PassInput τ} (hfailed : (s.received x).2.ok = false) :
    (s.pass x).2.polled = [] ∧ (s.pass x).2.sent = [] := by
  have hpass : s.pass x = s.received x := by
    unfold Endpoint.received at hfailed
    unfold Endpoint.pass
    dsimp only
    rw [if_neg (by simp [hfailed])]
    rfl
  rw [hpass]
  exact receive_report _ _ _ _

/-- A pass that receives serves every connection, so that only what it leaves counts. -/
theorem Remembered.pass (h : Remembered left refused [] s) {x : PassInput τ}
    (hadmitted : Admitted s (.pass x)) (base : ConnectionId → Bool)
    (hbase : (s.received x).2.ok = false → base = left) :
    Remembered
        (fun id => leftBy base x.services (s.pass x).2.polled id && !stays (s.pass x).2.sent)
        refused (s.pass x).2.woken (s.pass x).1 ∧
      ((s.received x).2.ok = true →
        ∀ id, ∀ w ∈ refused id, (id, w) ∈ (s.pass x).2.woken) := by
  obtain ⟨hfresh, hkeys⟩ := hadmitted
  have hstart : Remembered left refused [] ({ s with receiveMore := true } : Endpoint τ) :=
    h.congr rfl rfl
  have hreceived := hstart.receive receiveBatch x.arrivals hfresh
  obtain ⟨hpolled, hunsent⟩ := receive_report ({ s with receiveMore := true } : Endpoint τ)
    receiveBatch x.arrivals x.answers
  unfold Endpoint.received at hkeys hbase ⊢
  unfold Endpoint.pass
  dsimp only
  generalize ({ s with receiveMore := true } : Endpoint τ).receive receiveBatch x.arrivals
    x.answers = result at hreceived hpolled hunsent hkeys hbase ⊢
  obtain ⟨received, r⟩ := result
  dsimp only at hreceived hpolled hunsent hkeys hbase ⊢
  rw [List.nil_append] at hreceived
  split_ifs with hok
  · obtain ⟨-, -, -, hsame, hblocked⟩ := turn_frame received x.keys
    have hturned := hreceived.congr hsame hblocked
    have horder : ∀ id, (received.link id).isSome → id ∈ (received.turn x.keys).2 := by
      intro id hlink
      obtain ⟨l, hl⟩ := Option.isSome_iff_exists.mp hlink
      obtain ⟨p, hp, -⟩ := Option.map_eq_some_iff.mp hl
      have hid : p.1 = id := by simpa using List.find?_some hp
      have hkey : id ∈ x.keys := hid ▸ hkeys p (List.mem_of_find?_eq_some hp)
      unfold turn
      split_ifs
      · exact List.mem_rotate.mpr hkey
      · exact hkey
    obtain ⟨hserved, hall⟩ := hturned.serveAll x.services (received.turn x.keys).2
      base fun y hlink hy => by
        rw [link, hsame, ← link] at hlink
        exact absurd (horder y hlink) hy
    refine ⟨hserved.flush _ x.sends, fun _ id w hw => ?_⟩
    obtain hearly | ⟨l, hl, -⟩ := hreceived.refused id w hw
    · exact List.mem_append_left _ hearly
    · exact hall id (horder id (Option.isSome_of_eq_some hl)) w hw
  · rw [hbase (by simpa using hok), hpolled, hunsent]
    refine ⟨⟨fun y l hl hy => hreceived.left y l hl ?_, hreceived.refused⟩,
      fun h => absurd h hok⟩
    simpa [leftBy, stays] using hy

end Passes

theorem park_spec (s : Shared) (waker : Nat) :
    (s.park waker).needsPass = s.needsPass ∧ s.waiters ⊆ (s.park waker).waiters ∧
      waker ∈ (s.park waker).waiters := by
  unfold Shared.park
  split_ifs with hparked
  · exact ⟨rfl, List.Subset.refl _, hparked⟩
  · exact ⟨rfl, List.subset_append_left _ _, by simp⟩

/-- Entering takes nothing back, and parks whoever is refused for want of budget. -/
theorem enter_spec (s : Shared) (waker : Nat) :
    (s.needsPass = true → (s.enter waker).1.needsPass = true) ∧
      s.waiters ⊆ (s.enter waker).1.waiters ∧
      (s.error = none → s.budget = 0 →
        waker ∈ (s.enter waker).1.waiters ∧ (s.enter waker).1.needsPass = true) := by
  obtain ⟨hneeds, hsubset, hmem⟩ := park_spec { s with needsPass := true } waker
  unfold Shared.enter
  split
  case h_1 e herror =>
      refine ⟨id, List.Subset.refl _, fun hnone => ?_⟩
      rw [herror] at hnone
      cases hnone
  case h_2 herror =>
      split_ifs with hspent
      · exact ⟨fun _ => hneeds, hsubset, fun _ _ => ⟨hmem, hneeds⟩⟩
      · exact ⟨id, List.Subset.refl _, fun _ h => absurd h hspent⟩

theorem Remembered.step {g : Debts} {s : Endpoint τ} (h : Remembered g.due g.refused [] s)
    {op : EndpointOp τ} (hadmitted : Admitted s op) :
    Remembered (owe g s op).due (owe g s op).refused [] (s.step op).1 := by
  cases op with
  | pass x =>
      have hpassed : Remembered (owe g s (.pass x)).due g.refused (s.pass x).2.woken
          (s.pass x).1 := by
        by_cases hok : (s.received x).2.ok = true
        · obtain ⟨hnext, -⟩ := h.pass hadmitted g.left (by simp [hok])
          refine ⟨fun id l hl hdue => hnext.left id l hl ?_, hnext.refused⟩
          simpa [Debts.due, owe, hok] using hdue
        · obtain ⟨hnext, -⟩ := h.pass hadmitted g.due fun _ => rfl
          refine ⟨fun id l hl hdue => hnext.left id l hl ?_, hnext.refused⟩
          obtain ⟨hpolled, hunsent⟩ := pass_failed (by simpa using hok)
          simpa [Debts.due, owe, hok, hpolled, hunsent, leftBy, stays] using hdue
      refine ⟨hpassed.left, fun id w hw => Or.inr ?_⟩
      obtain ⟨hrefused, hnot⟩ := List.mem_filter.mp hw
      exact (hpassed.refused id w hrefused).resolve_left (by simpa using hnot)
  | connect id =>
      simp only [Endpoint.step, connect]
      split_ifs
      · exact h
      · exact h.insert hadmitted
  | accept => exact h.congr rfl rfl
  | consumed id =>
      exact h.update id (fun l => { l with shared := l.shared.consumed }) (fun _ hdue => hdue)
        fun _ _ => List.Subset.refl _
  | changed id =>
      exact h.update id (fun l => { l with shared := l.shared.changed }) (fun _ _ => rfl)
        fun _ _ => List.Subset.refl _
  | park id waker =>
      refine h.update id (fun l => { l with shared := l.shared.park waker }) (fun l hdue => ?_)
        fun l _ => (park_spec l.shared waker).2.1
      exact (park_spec l.shared waker).1.trans hdue
  | wake id => exact h.forget id (fun l => { l with shared := l.shared.wake }) fun _ hdue => hdue
  | close id code reason =>
      have hdue : ∀ l : Link, l.shared.needsPass = true →
          (if l.shared.error.isSome then l
          else { l with shared :=
            { l.shared with error := some (.closed code reason) }.changed.wake }
            ).shared.needsPass = true := by
        intro l hl
        split_ifs
        · exact hl
        · rfl
      simp only [owe]
      split_ifs with herror
      · exact h.forget id _ hdue
      · refine h.update id _ hdue fun l hl => ?_
        have hclosed : l.shared.error.isSome = true := by
          rw [hl, Option.any_some, decide_eq_true_eq] at herror
          exact Option.isSome_iff_ne_none.mpr herror
        rw [if_pos hclosed]
        exact List.Subset.refl _
  | enter id waker =>
      have hkept := h.update id (fun l => { l with shared := (l.shared.enter waker).1 })
        (fun l => (enter_spec l.shared waker).1) fun l _ => (enter_spec l.shared waker).2.1
      simp only [owe]
      split_ifs with hspent
      · refine ⟨hkept.left, fun x w hw => ?_⟩
        obtain rfl | hx := eq_or_ne x id
        · dsimp only at hw
          rw [Function.update_self, List.mem_append, List.mem_singleton] at hw
          obtain hw | rfl := hw
          · exact hkept.refused x w hw
          · obtain ⟨l, hl, hrefuses⟩ := (Option.any_eq_true _ _).mp hspent
            obtain ⟨herror, hbudget⟩ := of_decide_eq_true hrefuses
            obtain ⟨hparked, hdue⟩ := (enter_spec l.shared w).2.2 herror hbudget
            refine Or.inr ⟨{ l with shared := (l.shared.enter w).1 }, ?_, hparked, hdue⟩
            change (s.update x _).link x = _
            rw [link_update, if_pos rfl, hl]
            rfl
        · dsimp only at hw
          rw [Function.update_of_ne hx] at hw
          exact hkept.refused x w hw
      · exact hkept

end Endpoint

end Transport

end Tidkod
