import Mathlib.Tactic
import Tidkod.Lib.Machine
import Tidkod.Native.WebStream

/-!
The incoming streams of a WebTransport connection (`Request::handshake`, `Session::establish`
and the polls that accept streams in `transport/web.rs`). A stream is known by its name here:
`poll_classify` answers for each of them, and the connection hands over the streams that the
peer has opened in their order. The messages of the handshake itself, SETTINGS and CONNECT,
are not covered: of the CONNECT request only the stream is, the first bidirectional one.
-/

namespace Tidkod

namespace Transport

def handshakeStreams : Nat := 64
def heldStreams : Nat := 8

/-- What one round of a poll meets: the number of streams that the connection hands over
before it has no more or fails, and how each stream classifies. -/
structure Round (α γ : Type) where
  handed : Nat
  failure : Option Error
  classify : α → Option γ

/-- The streams of a handshake. -/
structure Handshake (α : Type) where
  pending : List α
  held : List α
  early : List (Nat × α)
  arrivals : Nat
  control : Option α

inductive ShakePoll where
  | pending
  | ready
  | failed (e : Error)
  | web (text : String)
  deriving DecidableEq

namespace Handshake

variable {α : Type}

def new : Handshake α := ⟨[], [], [], 0, none⟩

/-- Adopts streams until the cap is passed. What is left of the queue, and whether it is. -/
def adopt (h : Handshake α) : Nat → List α → Handshake α × List α × Bool
  | 0, queue => (h, queue, false)
  | _ + 1, [] => (h, [], false)
  | n + 1, x :: queue =>
      let h := { h with pending := h.pending ++ [x], arrivals := h.arrivals + 1 }
      if handshakeStreams < h.arrivals then (h, queue, true) else adopt h n queue

/-- `swap_remove` of the first: the last takes its place. -/
def swapIn (rest : List α) : List α :=
  match rest.getLast? with
  | some last => last :: rest.dropLast
  | none => []

/-- The pass over the pending streams, of which `kept` have no answer yet. -/
def pass (classify : α → Option UniClass) (h : Handshake α) (kept : List α) :
    Nat → List α → Bool → Handshake α × Bool
  | 0, rest, progressed => ({ h with pending := kept ++ rest }, progressed)
  | _ + 1, [], progressed => ({ h with pending := kept }, progressed)
  | n + 1, x :: rest, progressed =>
      match classify x with
      | none => pass classify h (kept ++ [x]) n rest progressed
      | some .control => ({ h with control := some x, pending := kept ++ swapIn rest }, true)
      | some .qpack => pass classify { h with held := h.held ++ [x] } kept n (swapIn rest) true
      | some (.web session) =>
          pass classify { h with early := h.early ++ [(session, x)] } kept n (swapIn rest) true
      | some .unknown => pass classify h kept n (swapIn rest) true

/-- One call of the `poll_fn`. Past the rounds nothing arrives and nothing is classified. -/
def poll (h : Handshake α) (queue : List α) :
    List (Round α UniClass) → Handshake α × List α × ShakePoll
  | [] => (h, queue, .pending)
  | r :: rounds =>
      let (h, queue, overflow) := h.adopt r.handed queue
      match if overflow then none else r.failure with
      | some e => (h, queue, .failed e)
      | none =>
          let (h, progressed) := pass r.classify h [] h.pending.length h.pending false
          if h.control.isSome then (h, queue, .ready)
          else if overflow then (h, queue, .web "too many streams before the control stream")
          else if progressed then poll h queue rounds
          else (h, queue, .pending)

end Handshake

/-- Where a stream goes once it is classified. -/
inductive Route where
  | ready
  | held
  | dropped
  deriving DecidableEq

/-- `classify_uni`. -/
def uniRoute (session : Nat) : UniClass → Route
  | .web claimed => if claimed = session then .ready else .dropped
  | .control => .held
  | .qpack => .held
  | .unknown => .dropped

/-- `classify_bi`. -/
def biRoute (session : Nat) : Option Nat → Route
  | some claimed => if claimed = session then .ready else .dropped
  | none => .dropped

/-- The streams of one direction in `State`. -/
structure WebStreams (α : Type) where
  pending : List α
  ready : List α
  held : List α

inductive AcceptPoll (α : Type) where
  | pending
  | stream (x : α)
  | failed (e : Error)

/-- The stream that goes to the application. -/
def AcceptPoll.handed {α : Type} : AcceptPoll α → List α
  | .stream x => [x]
  | .pending => []
  | .failed _ => []

namespace WebStreams

variable {α γ : Type}

/-- The bidirectional streams of `Session::establish`, of which none comes early. -/
def empty : WebStreams α := ⟨[], [], []⟩

/-- `Session::establish`: of the streams that came early, those that claimed this session. -/
def establish (h : Handshake α) (control : α) (session : Nat) : WebStreams α where
  pending := h.pending
  ready := h.early.filterMap fun p => if p.1 = session then some p.2 else none
  held := h.held ++ [control]

def settle (s : WebStreams α) (x : α) : Route → WebStreams α
  | .ready => { s with ready := s.ready ++ [x] }
  | .held => if s.held.length < heldStreams then { s with held := s.held ++ [x] } else s
  | .dropped => s

/-- The loop of `classify_uni` and `classify_bi`, with whether any became ready. -/
def classifyStreams (route : γ → Route) (classify : α → Option γ) (s : WebStreams α)
    (keep : List α) (progressed : Bool) : List α → WebStreams α × Bool
  | [] => ({ s with pending := s.pending ++ keep }, progressed)
  | x :: rest =>
      match classify x with
      | none => classifyStreams route classify s (keep ++ [x]) progressed rest
      | some c =>
          classifyStreams route classify (s.settle x (route c)) keep
            (progressed || route c = .ready) rest

/-- `poll_accept_uni` and `poll_accept_bi`. -/
def pollAccept (route : γ → Route) (s : WebStreams α) (queue : List α)
    (rounds : List (Round α γ)) : WebStreams α × List α × AcceptPoll α :=
  match s.ready with
  | x :: ready => ({ s with ready := ready }, queue, .stream x)
  | [] =>
      match rounds with
      | [] => (s, queue, .pending)
      | r :: rounds =>
          let s := { s with pending := s.pending ++ queue.take r.handed }
          let queue := queue.drop r.handed
          match r.failure with
          | some e => (s, queue, .failed e)
          | none =>
              let (s, progressed) :=
                classifyStreams route r.classify { s with pending := [] } [] false s.pending
              if progressed then pollAccept route s queue rounds else (s, queue, .pending)

end WebStreams

/-- The streams of a connection, from its handshake on. -/
inductive WebPhase (α β : Type) where
  | shaking (h : Handshake α)
  | running (session : Nat) (uni : WebStreams α) (bi : WebStreams β)
  | closed

/-- `queue` and `queueBi` hold the streams that the peer has opened and nobody has adopted. -/
structure WebPeer (α β : Type) where
  queue : List α
  queueBi : List β
  phase : WebPhase α β

inductive WebEvent (α β : Type) where
  | opens (x : α)
  | opensBi (x : β)
  | shake (rounds : List (Round α UniClass))
  | establish (session : Nat)
  | accept (rounds : List (Round α UniClass))
  | acceptBi (rounds : List (Round β (Option Nat)))

namespace WebPeer

variable {α β : Type}

def new : WebPeer α β := ⟨[], [], .shaking .new⟩

/-- The streams that an event hands to the application, of either direction. -/
def step (w : WebPeer α β) : WebEvent α β → WebPeer α β × List α × List β
  | .opens x => ({ w with queue := w.queue ++ [x] }, [], [])
  | .opensBi x => ({ w with queueBi := w.queueBi ++ [x] }, [], [])
  | .shake rounds =>
      match w.phase with
      | .shaking h =>
          if h.control.isSome then (w, [], [])
          else
            match h.poll w.queue rounds with
            | (h, queue, .pending) => ({ w with queue := queue, phase := .shaking h }, [], [])
            | (h, queue, .ready) => ({ w with queue := queue, phase := .shaking h }, [], [])
            | (_, queue, .failed _) => ({ w with queue := queue, phase := .closed }, [], [])
            | (_, queue, .web _) => ({ w with queue := queue, phase := .closed }, [], [])
      | _ => (w, [], [])
  | .establish session =>
      match w.phase with
      | .shaking h =>
          match h.control, w.queueBi with
          -- The first bidirectional stream carries the CONNECT request.
          | some control, _ :: queueBi =>
              ({ w with
                queueBi := queueBi
                phase := .running session (.establish h control session) .empty }, [], [])
          | _, _ => (w, [], [])
      | _ => (w, [], [])
  | .accept rounds =>
      match w.phase with
      | .running session uni bi =>
          let (uni, queue, p) := uni.pollAccept (uniRoute session) w.queue rounds
          ({ w with queue := queue, phase := .running session uni bi }, p.handed, [])
      | _ => (w, [], [])
  | .acceptBi rounds =>
      match w.phase with
      | .running session uni bi =>
          let (bi, queueBi, p) := bi.pollAccept (biRoute session) w.queueBi rounds
          ({ w with queueBi := queueBi, phase := .running session uni bi }, [], p.handed)
      | _ => (w, [], [])

end WebPeer

namespace Handshake

variable {α : Type} {kind : α → UniClass} {found lost : List α} {h : Handshake α}

/-- Every stream found is in one place, and where it belongs. `lost` are the streams of no
known kind, which are dropped. -/
structure Placed (kind : α → UniClass) (found lost : List α) (h : Handshake α) : Prop where
  perm : found.Perm
    (h.pending ++ (h.held ++ (h.early.map Prod.snd ++ (h.control.toList ++ lost))))
  held : ∀ x ∈ h.held, kind x = .qpack
  early : ∀ p ∈ h.early, kind p.2 = .web p.1
  control : ∀ x ∈ h.control, kind x = .control
  lost : ∀ x ∈ lost, kind x = .unknown
  arrivals : h.arrivals = found.length

theorem placed_new : Placed kind [] [] (new : Handshake α) where
  perm := List.Perm.refl []
  held := fun x hx => by cases hx
  early := fun x hx => by cases hx
  control := fun x hx => by cases hx
  lost := fun x hx => by cases hx
  arrivals := rfl

/-- No more than 65 streams are adopted, and only the last of them overflows. -/
theorem adopt_spec (h : Handshake α) (hroom : h.arrivals ≤ handshakeStreams) (n : Nat)
    (queue : List α) :
    ∃ more, queue = more ++ (h.adopt n queue).2.1 ∧
      (h.adopt n queue).1 =
        { h with pending := h.pending ++ more, arrivals := h.arrivals + more.length } ∧
      (if (h.adopt n queue).2.2 then h.arrivals + more.length = handshakeStreams + 1
        else h.arrivals + more.length ≤ handshakeStreams) := by
  induction n generalizing h queue with
  | zero => exact ⟨[], rfl, by simp [adopt], by simpa [adopt] using hroom⟩
  | succ n ih =>
      cases queue with
      | nil => exact ⟨[], rfl, by simp [adopt], by simpa [adopt] using hroom⟩
      | cons x queue =>
          unfold adopt
          dsimp only
          by_cases hover : handshakeStreams < h.arrivals + 1
          · rw [if_pos hover]
            refine ⟨[x], rfl, rfl, ?_⟩
            rw [if_pos rfl, List.length_singleton]
            omega
          · rw [if_neg hover]
            obtain ⟨more, hqueue, hstate, hcount⟩ :=
              ih { h with pending := h.pending ++ [x], arrivals := h.arrivals + 1 }
                (not_lt.mp hover) queue
            refine ⟨x :: more, ?_, ?_, ?_⟩
            · rw [List.cons_append, ← hqueue]
            · rw [hstate]
              simp [Nat.add_assoc, Nat.add_comm 1]
            · simpa [Nat.add_assoc, Nat.add_comm 1] using hcount

theorem Placed.adopt (hplaced : h.Placed kind found lost) (more : List α) :
    Placed kind (found ++ more) lost
      { h with pending := h.pending ++ more, arrivals := h.arrivals + more.length } where
  perm := by
    dsimp only
    rw [List.append_assoc]
    refine (hplaced.perm.append_right more).trans ?_
    rw [List.append_assoc]
    exact List.perm_append_comm.append_left h.pending
  held := hplaced.held
  early := hplaced.early
  control := hplaced.control
  lost := hplaced.lost
  arrivals := by rw [hplaced.arrivals, List.length_append]

theorem swapIn_perm (rest : List α) : (swapIn rest).Perm rest := by
  unfold swapIn
  cases hlast : rest.getLast? with
  | none => rw [List.getLast?_eq_none_iff.mp hlast]
  | some last =>
      obtain ⟨front, rfl⟩ := List.getLast?_eq_some_iff.mp hlast
      rw [List.dropLast_concat]
      exact (List.perm_append_singleton last front).symm

/-- One stream leaves the pending ones for another place. -/
theorem perm_moved {kept rest rest' places places' : List α} {x : α} (hrest : rest'.Perm rest)
    (hplaces : places'.Perm (x :: places)) :
    (kept ++ x :: rest ++ places).Perm (kept ++ rest' ++ places') := by
  calc
    (kept ++ x :: rest ++ places).Perm (x :: (kept ++ rest) ++ places) :=
      List.perm_middle.append_right places
    (x :: (kept ++ rest ++ places)).Perm (kept ++ rest ++ x :: places) := List.perm_middle.symm
    (kept ++ rest ++ x :: places).Perm (kept ++ rest' ++ places') :=
      (hrest.symm.append_left kept).append hplaces.symm

section Moves

variable {kept rest rest' : List α} {x : α}

theorem Placed.hold (hplaced : Placed kind found lost { h with pending := kept ++ x :: rest })
    (hrest : rest'.Perm rest) (hkind : kind x = .qpack) :
    Placed kind found lost { h with pending := kept ++ rest', held := h.held ++ [x] } where
  perm := by
    refine hplaced.perm.trans (perm_moved hrest ?_)
    rw [List.append_assoc]
    exact List.perm_middle
  held := by
    intro y hy
    obtain hy | hy := List.mem_append.mp hy
    · exact hplaced.held y hy
    · rw [List.mem_singleton.mp hy, hkind]
  early := hplaced.early
  control := hplaced.control
  lost := hplaced.lost
  arrivals := hplaced.arrivals

theorem Placed.park {session : Nat}
    (hplaced : Placed kind found lost { h with pending := kept ++ x :: rest })
    (hrest : rest'.Perm rest) (hkind : kind x = .web session) :
    Placed kind found lost
      { h with pending := kept ++ rest', early := h.early ++ [(session, x)] } where
  perm := by
    refine hplaced.perm.trans (perm_moved hrest ?_)
    dsimp only
    rw [List.map_append, List.append_assoc]
    exact (List.perm_middle.append_left h.held).trans List.perm_middle
  held := hplaced.held
  early := by
    intro p hp
    obtain hp | hp := List.mem_append.mp hp
    · exact hplaced.early p hp
    · rw [List.mem_singleton.mp hp, hkind]
  control := hplaced.control
  lost := hplaced.lost
  arrivals := hplaced.arrivals

theorem Placed.lose (hplaced : Placed kind found lost { h with pending := kept ++ x :: rest })
    (hrest : rest'.Perm rest) (hkind : kind x = .unknown) :
    Placed kind found (x :: lost) { h with pending := kept ++ rest' } where
  perm := by
    refine hplaced.perm.trans (perm_moved hrest ?_)
    dsimp only
    rw [← List.append_assoc, ← List.append_assoc, ← List.append_assoc, ← List.append_assoc]
    exact List.perm_middle
  held := hplaced.held
  early := hplaced.early
  control := hplaced.control
  lost := by
    intro y hy
    obtain rfl | hy := List.mem_cons.mp hy
    · exact hkind
    · exact hplaced.lost y hy
  arrivals := hplaced.arrivals

theorem Placed.found_control
    (hplaced : Placed kind found lost { h with pending := kept ++ x :: rest })
    (hcontrol : h.control = none) (hrest : rest'.Perm rest) (hkind : kind x = .control) :
    Placed kind found lost { h with pending := kept ++ rest', control := some x } where
  perm := by
    refine hplaced.perm.trans (perm_moved hrest ?_)
    dsimp only
    rw [hcontrol]
    exact (List.perm_middle.append_left h.held).trans List.perm_middle
  held := hplaced.held
  early := hplaced.early
  control := by
    intro y hy
    cases hy
    exact hkind
  lost := hplaced.lost
  arrivals := hplaced.arrivals

end Moves

/-- A pass keeps every stream in its place and asks each that stays pending. Only a control
stream ends it early. -/
theorem Placed.pass {classify : α → Option UniClass}
    (hclassify : ∀ x c, classify x = some c → c = kind x) {n : Nat} {kept rest : List α}
    (hn : rest.length ≤ n) (hplaced : Placed kind found lost { h with pending := kept ++ rest })
    (hcontrol : h.control = none) (hkept : ∀ x ∈ kept, classify x = none) (progressed : Bool) :
    ∃ lost', (Handshake.pass classify h kept n rest progressed).1.Placed kind found lost' ∧
      ((Handshake.pass classify h kept n rest progressed).1.control = none →
        ∀ x ∈ (Handshake.pass classify h kept n rest progressed).1.pending,
          classify x = none) := by
  induction n generalizing h kept rest lost progressed with
  | zero =>
      obtain rfl : rest = [] := List.length_eq_zero_iff.mp (Nat.le_zero.mp hn)
      refine ⟨lost, hplaced, fun _ => ?_⟩
      rw [Handshake.pass, List.append_nil]
      exact hkept
  | succ n ih =>
      cases rest with
      | nil =>
          rw [List.append_nil] at hplaced
          exact ⟨lost, hplaced, fun _ => hkept⟩
      | cons x rest =>
          have hswap := swapIn_perm rest
          have hfewer : (swapIn rest).length ≤ n := by
            rw [hswap.length_eq]
            exact Nat.le_of_succ_le_succ hn
          unfold Handshake.pass
          cases hclass : classify x with
          | none =>
              refine ih (Nat.le_of_succ_le_succ hn) (by simpa using hplaced) hcontrol ?_ progressed
              intro y hy
              obtain hy | hy := List.mem_append.mp hy
              · exact hkept y hy
              · rw [List.mem_singleton.mp hy, hclass]
          | some c =>
              have hkind := (hclassify x c hclass).symm
              cases c with
              | control =>
                  exact ⟨lost, hplaced.found_control hcontrol hswap hkind, fun h => by cases h⟩
              | qpack =>
                  exact ih (h := { h with held := h.held ++ [x] }) hfewer
                    (hplaced.hold hswap hkind) hcontrol hkept true
              | web session =>
                  exact ih (h := { h with early := h.early ++ [(session, x)] }) hfewer
                    (hplaced.park hswap hkind) hcontrol hkept true
              | unknown => exact ih hfewer (hplaced.lose hswap hkind) hcontrol hkept true

/-- A pass over all the pending streams. -/
theorem Placed.passed (hplaced : h.Placed kind found lost) {classify : α → Option UniClass}
    (hclassify : ∀ x c, classify x = some c → c = kind x) (hcontrol : h.control = none) :
    ∃ lost', (Handshake.pass classify h [] h.pending.length h.pending false).1.Placed kind found
        lost' ∧
      ((Handshake.pass classify h [] h.pending.length h.pending false).1.control = none →
        ∀ x ∈ (Handshake.pass classify h [] h.pending.length h.pending false).1.pending,
          classify x = none) :=
  Placed.pass hclassify le_rfl hplaced hcontrol (fun x hx => by cases hx) false

/-- What a poll leaves: no control stream yet, the control stream, a failure of the connection,
or more streams than are allowed, each of which has been asked and none of which is known to be
the control stream. -/
inductive PollOutcome (kind : α → UniClass) (found queue : List α)
    (rounds : List (Round α UniClass)) : Handshake α × List α × ShakePoll → Prop where
  | pending (h : Handshake α) (more queue' lost : List α) (hqueue : queue = more ++ queue')
      (hplaced : h.Placed kind (found ++ more) lost) (hcontrol : h.control = none)
      (hroom : h.arrivals ≤ handshakeStreams) :
      PollOutcome kind found queue rounds (h, queue', .pending)
  | ready (h : Handshake α) (more queue' lost : List α) (hqueue : queue = more ++ queue')
      (hplaced : h.Placed kind (found ++ more) lost) (hcontrol : h.control.isSome = true)
      (hroom : h.arrivals ≤ handshakeStreams + 1) :
      PollOutcome kind found queue rounds (h, queue', .ready)
  | failed (h : Handshake α) (queue' : List α) (e : Error) (r : Round α UniClass)
      (hround : r ∈ rounds) (hfailure : r.failure = some e) :
      PollOutcome kind found queue rounds (h, queue', .failed e)
  | tooMany (h : Handshake α) (more queue' : List α) (text : String) (r : Round α UniClass)
      (hqueue : queue = more ++ queue') (hround : r ∈ rounds)
      (hmany : (found ++ more).length = handshakeStreams + 1)
      (hnone : ∀ x ∈ found ++ more, kind x = .control → r.classify x = none) :
      PollOutcome kind found queue rounds (h, queue', .web text)

/-- The streams that an earlier round has adopted. -/
theorem PollOutcome.later {queue : List α} {rounds : List (Round α UniClass)}
    {result : Handshake α × List α × ShakePoll} {more : List α}
    (h : PollOutcome kind (found ++ more) queue rounds result) (r : Round α UniClass) :
    PollOutcome kind found (more ++ queue) (r :: rounds) result := by
  cases h with
  | pending h more' queue' lost hqueue hplaced hcontrol hroom =>
      refine .pending h (more ++ more') queue' lost (by rw [hqueue, List.append_assoc]) ?_ hcontrol
        hroom
      rw [← List.append_assoc]
      exact hplaced
  | ready h more' queue' lost hqueue hplaced hcontrol hroom =>
      refine .ready h (more ++ more') queue' lost (by rw [hqueue, List.append_assoc]) ?_ hcontrol
        hroom
      rw [← List.append_assoc]
      exact hplaced
  | failed h queue' e r' hround hfailure =>
      exact .failed h queue' e r' (List.mem_cons_of_mem _ hround) hfailure
  | tooMany h more' queue' text r' hqueue hround hmany hnone =>
      rw [List.append_assoc] at hmany hnone
      exact .tooMany h (more ++ more') queue' text r' (by rw [hqueue, List.append_assoc])
        (List.mem_cons_of_mem _ hround) hmany hnone

/-- Without a control stream, one among the streams found can only be pending. -/
theorem Placed.unknown_control (hplaced : h.Placed kind found lost) (hcontrol : h.control = none)
    {classify : α → Option UniClass} (hasked : ∀ x ∈ h.pending, classify x = none) :
    ∀ x ∈ found, kind x = .control → classify x = none := by
  intro x hx hkind
  have hmem := hplaced.perm.mem_iff.mp hx
  simp only [List.mem_append, List.mem_map, hcontrol, Option.toList_none, List.not_mem_nil,
    false_or] at hmem
  obtain hpending | hheld | ⟨p, hp, rfl⟩ | hlost := hmem
  · exact hasked x hpending
  · rw [hplaced.held x hheld] at hkind
    cases hkind
  · rw [hplaced.early p hp] at hkind
    cases hkind
  · rw [hplaced.lost x hlost] at hkind
    cases hkind

theorem poll_outcome {rounds : List (Round α UniClass)}
    (hclassify : ∀ r ∈ rounds, ∀ x c, r.classify x = some c → c = kind x) (queue : List α)
    (hplaced : h.Placed kind found lost) (hcontrol : h.control = none)
    (hroom : h.arrivals ≤ handshakeStreams) :
    PollOutcome kind found queue rounds (h.poll queue rounds) := by
  induction rounds generalizing h found lost queue with
  | nil =>
      refine .pending h [] queue lost rfl ?_ hcontrol hroom
      rw [List.append_nil]
      exact hplaced
  | cons r rounds ih =>
      unfold poll
      obtain ⟨more, hqueue, hstate, hcount⟩ := h.adopt_spec hroom r.handed queue
      have hadopted := hplaced.adopt more
      generalize h.adopt r.handed queue = adopted at hqueue hstate hcount ⊢
      obtain ⟨h', queue', overflow⟩ := adopted
      dsimp only at hqueue hstate hcount ⊢
      subst hstate
      split
      next e hfailure =>
        refine .failed _ _ e r List.mem_cons_self ?_
        split_ifs at hfailure
        exact hfailure
      next hnone =>
        obtain ⟨lost', hpassed, hasked⟩ := hadopted.passed (hclassify r List.mem_cons_self) hcontrol
        generalize Handshake.pass r.classify _ [] _ _ false = result at hpassed hasked ⊢
        obtain ⟨h', progressed⟩ := result
        dsimp only at hpassed hasked ⊢
        have harrived : h'.arrivals = h.arrivals + more.length := by
          rw [hpassed.arrivals, ← hadopted.arrivals]
        by_cases hfound : h'.control.isSome = true
        · rw [if_pos hfound]
          refine .ready h' more queue' lost' hqueue hpassed hfound ?_
          rw [harrived]
          split_ifs at hcount
          · exact hcount.le
          · exact Nat.le_succ_of_le hcount
        rw [if_neg hfound]
        have hcontrol' : h'.control = none := by simpa using hfound
        cases overflow with
        | true =>
            rw [if_pos rfl] at hcount ⊢
            refine .tooMany h' more queue' _ r hqueue List.mem_cons_self ?_ ?_
            · rw [← hadopted.arrivals]
              exact hcount
            · exact hpassed.unknown_control hcontrol' (hasked hcontrol')
        | false =>
            rw [if_neg Bool.false_ne_true] at hcount ⊢
            have hroom' : h'.arrivals ≤ handshakeStreams := harrived.trans_le hcount
            split_ifs with hprogressed
            · have hrest (r' : Round α UniClass) (hr : r' ∈ rounds) :=
                hclassify r' (List.mem_cons_of_mem r hr)
              rw [hqueue]
              exact (ih hrest queue' hpassed hcontrol' hroom').later r
            · exact .pending h' more queue' lost' hqueue hpassed hcontrol' hroom'

end Handshake

namespace WebStreams

variable {α γ : Type} {route : γ → Route} {kind : α → γ} {found accepted gone : List α}
  {s : WebStreams α}

/-- Every stream found has been accepted, waits to be, is pending, or is none of the
session's. -/
structure Placed (route : γ → Route) (kind : α → γ) (found accepted gone : List α)
    (s : WebStreams α) : Prop where
  perm : found.Perm (accepted ++ (s.ready ++ (s.pending ++ gone)))
  ours : ∀ x ∈ accepted ++ s.ready, route (kind x) = .ready
  gone : ∀ x ∈ gone, route (kind x) ≠ .ready

theorem uniRoute_ready {session : Nat} {c : UniClass} :
    uniRoute session c = .ready ↔ c = .web session := by
  cases c with
  | web claimed =>
      simp only [uniRoute, UniClass.web.injEq]
      split_ifs with h
      · simp [h]
      · simp [h]
  | control => simp [uniRoute]
  | qpack => simp [uniRoute]
  | unknown => simp [uniRoute]

theorem biRoute_ready {session : Nat} {c : Option Nat} :
    biRoute session c = .ready ↔ c = some session := by
  cases c with
  | none => simp [biRoute]
  | some claimed =>
      simp only [biRoute, Option.some.injEq]
      split_ifs with h
      · simp [h]
      · simp [h]

theorem placed_empty : (empty : WebStreams α).Placed route kind [] [] [] where
  perm := List.Perm.refl []
  ours := fun x hx => by cases hx
  gone := fun x hx => by cases hx

section Moves

variable {keep rest : List α} {x : α}

theorem Placed.welcome
    (h : Placed route kind found accepted gone { s with pending := s.pending ++ keep ++ x :: rest })
    (hready : route (kind x) = .ready) :
    Placed route kind found accepted gone
      { s with ready := s.ready ++ [x], pending := s.pending ++ keep ++ rest } where
  perm := by
    refine h.perm.trans (List.Perm.append_left accepted ?_)
    dsimp only
    rw [List.append_assoc s.ready]
    refine List.Perm.append_left s.ready ?_
    exact List.perm_middle.append_right gone
  ours := by
    intro y hy
    simp only [List.mem_append, List.mem_singleton] at hy
    obtain hy | hy | rfl := hy
    · exact h.ours y (List.mem_append_left _ hy)
    · exact h.ours y (List.mem_append_right _ hy)
    · exact hready
  gone := h.gone

theorem Placed.refuse
    (h : Placed route kind found accepted gone { s with pending := s.pending ++ keep ++ x :: rest })
    (hother : route (kind x) ≠ .ready) :
    Placed route kind found accepted (x :: gone)
      { s with pending := s.pending ++ keep ++ rest } where
  perm := by
    refine h.perm.trans (List.Perm.append_left accepted (List.Perm.append_left s.ready ?_))
    exact (List.perm_middle.append_right gone).trans List.perm_middle.symm
  ours := h.ours
  gone := by
    intro y hy
    obtain rfl | hy := List.mem_cons.mp hy
    · exact hother
    · exact h.gone y hy

end Moves

/-- The streams held are not looked at again. -/
theorem Placed.held (h : s.Placed route kind found accepted gone) (held : List α) :
    Placed route kind found accepted gone { s with held := held } :=
  ⟨h.perm, h.ours, h.gone⟩

theorem settle_pending (s : WebStreams α) (x : α) (r : Route) :
    (s.settle x r).pending = s.pending := by
  cases r with
  | ready => rfl
  | dropped => rfl
  | held =>
      unfold settle
      dsimp only
      split_ifs
      · rfl
      · rfl

theorem settle_ready (s : WebStreams α) (x : α) (r : Route) :
    (s.settle x r).ready = s.ready ++ if r = .ready then [x] else [] := by
  cases r with
  | ready => rfl
  | dropped => exact (List.append_nil _).symm
  | held =>
      rw [if_neg (by decide), List.append_nil]
      unfold settle
      dsimp only
      split_ifs
      · rfl
      · rfl

/-- A stream that has been classified goes where its kind belongs. -/
theorem Placed.settle {x : α} {keep rest : List α}
    (h : Placed route kind found accepted gone
      { s with pending := s.pending ++ keep ++ x :: rest }) :
    ∃ gone', Placed route kind found accepted gone'
      { s.settle x (route (kind x)) with
        pending := (s.settle x (route (kind x))).pending ++ keep ++ rest } := by
  rw [settle_pending]
  cases hroute : route (kind x) with
  | ready => exact ⟨gone, h.welcome hroute⟩
  | dropped => exact ⟨x :: gone, h.refuse (by simp [hroute])⟩
  | held =>
      refine ⟨x :: gone, ?_⟩
      have hrefused := h.refuse (by simp [hroute])
      unfold WebStreams.settle
      dsimp only
      split_ifs
      · exact hrefused.held _
      · exact hrefused

/-- Every pending stream is asked, and those that stay have no answer yet. -/
theorem Placed.classified {classify : α → Option γ}
    (hclassify : ∀ x c, classify x = some c → c = kind x) {keep rest : List α}
    (h : Placed route kind found accepted gone { s with pending := s.pending ++ keep ++ rest })
    (hempty : s.pending = []) (hkeep : ∀ x ∈ keep, classify x = none) (progressed : Bool) :
    ∃ gone' added, (classifyStreams route classify s keep progressed rest).1.Placed route kind
        found accepted gone' ∧
      (∀ x ∈ (classifyStreams route classify s keep progressed rest).1.pending,
        classify x = none) ∧
      (classifyStreams route classify s keep progressed rest).1.ready = s.ready ++ added ∧
      (classifyStreams route classify s keep progressed rest).2 =
        (progressed || !added.isEmpty) := by
  induction rest generalizing s keep gone progressed with
  | nil =>
      refine ⟨gone, [], ?_, ?_, (List.append_nil _).symm, by simp [classifyStreams]⟩
      · rw [List.append_nil] at h
        exact h
      · rw [classifyStreams, hempty, List.nil_append]
        exact hkeep
  | cons x rest ih =>
      unfold classifyStreams
      cases hclass : classify x with
      | none =>
          refine ih (by simpa using h) hempty ?_ progressed
          intro y hy
          obtain hy | hy := List.mem_append.mp hy
          · exact hkeep y hy
          · rw [List.mem_singleton.mp hy, hclass]
      | some c =>
          obtain rfl := hclassify x c hclass
          obtain ⟨gone', hsettled⟩ := h.settle
          obtain ⟨last, added, hlast, hasked, hready, hprogress⟩ :=
            ih hsettled (by rw [settle_pending, hempty]) hkeep
              (progressed || decide (route (kind x) = .ready))
          refine ⟨last, (if route (kind x) = .ready then [x] else []) ++ added, hlast, hasked,
            ?_, ?_⟩
          · exact hready.trans (by rw [settle_ready, List.append_assoc])
          · refine hprogress.trans ?_
            by_cases hours : route (kind x) = .ready
            · simp [hours]
            · simp [hours]

/-- A pass over all the pending streams. -/
theorem Placed.asked (h : s.Placed route kind found accepted gone) {classify : α → Option γ}
    (hclassify : ∀ x c, classify x = some c → c = kind x) :
    ∃ gone' added, (classifyStreams route classify { s with pending := [] } [] false
          s.pending).1.Placed route kind found accepted gone' ∧
      (∀ x ∈ (classifyStreams route classify { s with pending := [] } [] false s.pending).1.pending,
        classify x = none) ∧
      (classifyStreams route classify { s with pending := [] } [] false s.pending).1.ready =
        s.ready ++ added ∧
      (classifyStreams route classify { s with pending := [] } [] false s.pending).2 =
        (false || !added.isEmpty) :=
  Placed.classified hclassify h rfl (fun x hx => by cases hx) false

/-- What a poll leaves: a stream is handed over, or none is ready and every pending one has been
asked, or the connection fails. -/
inductive PollOutcome (route : γ → Route) (kind : α → γ) (found accepted queue : List α)
    (rounds : List (Round α γ)) : WebStreams α × List α × AcceptPoll α → Prop where
  | stream (s : WebStreams α) (x : α) (more queue' gone : List α) (hqueue : queue = more ++ queue')
      (hplaced : s.Placed route kind (found ++ more) (accepted ++ [x]) gone) :
      PollOutcome route kind found accepted queue rounds (s, queue', .stream x)
  | pending (s : WebStreams α) (more queue' gone : List α) (hqueue : queue = more ++ queue')
      (hplaced : s.Placed route kind (found ++ more) accepted gone) (hready : s.ready = [])
      (hasked : ∀ r ∈ rounds.head?, ∀ x ∈ s.pending, r.classify x = none) :
      PollOutcome route kind found accepted queue rounds (s, queue', .pending)
  | failed (s : WebStreams α) (more queue' gone : List α) (e : Error)
      (hqueue : queue = more ++ queue')
      (hplaced : s.Placed route kind (found ++ more) accepted gone) :
      PollOutcome route kind found accepted queue rounds (s, queue', .failed e)

/-- The first of the ready streams is accepted. -/
theorem Placed.pop (h : s.Placed route kind found accepted gone) {x : α} {ready : List α}
    (hready : s.ready = x :: ready) :
    Placed route kind found (accepted ++ [x]) gone { s with ready := ready } where
  perm := by
    have hperm := h.perm
    rw [hready] at hperm
    simpa using hperm
  ours := by
    have hours := h.ours
    rw [hready] at hours
    simpa using hours
  gone := h.gone

theorem Placed.adopt (h : s.Placed route kind found accepted gone) (more : List α) :
    Placed route kind (found ++ more) accepted gone { s with pending := s.pending ++ more } where
  perm := by
    refine (h.perm.append_right more).trans ?_
    rw [List.append_assoc, List.append_assoc, List.append_assoc]
    refine List.Perm.append_left accepted (List.Perm.append_left s.ready ?_)
    rw [List.append_assoc]
    exact List.perm_append_comm.append_left s.pending
  ours := h.ours
  gone := h.gone

theorem pollAccept_ready (route : γ → Route) (hready : s.ready ≠ []) (queue : List α)
    (rounds : List (Round α γ)) :
    ∃ x ready, s.ready = x :: ready ∧
      s.pollAccept route queue rounds = ({ s with ready := ready }, queue, .stream x) := by
  obtain ⟨x, ready, hcons⟩ := List.exists_cons_of_ne_nil hready
  refine ⟨x, ready, hcons, ?_⟩
  unfold pollAccept
  rw [hcons]

theorem pollAccept_outcome (h : s.Placed route kind found accepted gone) (queue : List α)
    {rounds : List (Round α γ)}
    (hclassify : ∀ r ∈ rounds, ∀ x c, r.classify x = some c → c = kind x) :
    PollOutcome route kind found accepted queue rounds (s.pollAccept route queue rounds) := by
  by_cases hready : s.ready = []
  · obtain ⟨pending, ready, held⟩ := s
    obtain rfl : ready = [] := hready
    unfold pollAccept
    dsimp only
    cases rounds with
    | nil =>
        refine .pending _ [] queue gone rfl ?_ rfl (fun r hr => by cases hr)
        rw [List.append_nil]
        exact h
    | cons r rounds =>
        have hadopted := h.adopt (queue.take r.handed)
        have hqueue := (List.take_append_drop r.handed queue).symm
        obtain ⟨gone', added, hclassified, hasked, hnext, hprogress⟩ :=
          hadopted.asked (hclassify r List.mem_cons_self)
        dsimp only at hadopted hclassified hasked hnext hprogress ⊢
        cases r.failure with
        | some e => exact .failed _ _ _ gone e hqueue hadopted
        | none =>
            dsimp only
            generalize classifyStreams route r.classify _ [] false _ = result at *
            obtain ⟨s, progressed⟩ := result
            dsimp only at hclassified hasked hnext hprogress ⊢
            cases added with
            | nil =>
                rw [hprogress]
                exact .pending s _ _ gone' hqueue hclassified hnext fun r' hr => by
                  cases hr
                  exact hasked
            | cons x added =>
                obtain rfl : progressed = true := hprogress
                obtain ⟨y, ready, hcons, hpoll⟩ :=
                  pollAccept_ready (s := s) route (by rw [hnext]; simp) (queue.drop r.handed) rounds
                rw [if_pos rfl, hpoll]
                exact .stream _ y _ _ gone' hqueue (hclassified.pop hcons)
  · obtain ⟨x, ready, hcons, hpoll⟩ := pollAccept_ready route hready queue rounds
    rw [hpoll]
    refine .stream _ x [] queue gone rfl ?_
    rw [List.append_nil]
    exact h.pop hcons

/-- Whatever a poll answers, the streams that it has adopted are in their places. -/
theorem pollAccept_placed (h : s.Placed route kind found accepted gone) (queue : List α)
    {rounds : List (Round α γ)}
    (hclassify : ∀ r ∈ rounds, ∀ x c, r.classify x = some c → c = kind x) :
    ∃ more gone', queue = more ++ (s.pollAccept route queue rounds).2.1 ∧
      (s.pollAccept route queue rounds).1.Placed route kind (found ++ more)
        (accepted ++ (s.pollAccept route queue rounds).2.2.handed) gone' := by
  have houtcome := pollAccept_outcome h queue hclassify
  generalize s.pollAccept route queue rounds = result at houtcome ⊢
  cases houtcome with
  | stream s' x more queue' gone' hqueue hplaced => exact ⟨more, gone', hqueue, hplaced⟩
  | pending s' more queue' gone' hqueue hplaced =>
      exact ⟨more, gone', hqueue, by rwa [AcceptPoll.handed, List.append_nil]⟩
  | failed s' more queue' gone' e hqueue hplaced =>
      exact ⟨more, gone', hqueue, by rwa [AcceptPoll.handed, List.append_nil]⟩

/-- Of the streams that the peer has opened, each that is the session's has been accepted once
or still has its turn to come, and no other has been accepted. -/
def AcceptedOnce (ours : α → Prop) [DecidablePred ours] (opened queue accepted : List α)
    (s : WebStreams α) : Prop :=
  (accepted ++ (s.ready ++ (s.pending ++ queue).filter ours)).Perm (opened.filter ours)

/-- A poll that has to wait leaves no stream ready and has asked every pending one. -/
def WaitsForAll (route : γ → Route) (kind : α → γ) (queue : List α) (s : WebStreams α) : Prop :=
  ∀ rounds, (∀ r ∈ rounds, ∀ x c, r.classify x = some c → c = kind x) →
    ∀ s' queue', s.pollAccept route queue rounds = (s', queue', .pending) →
      s'.ready = [] ∧ ∀ r ∈ rounds.head?, ∀ x ∈ s'.pending, r.classify x = none

/-- The streams of the session are among those found, or still with the connection. -/
theorem Placed.acceptedOnce (h : s.Placed route kind found accepted gone) {ours : α → Prop}
    [DecidablePred ours] (hours : ∀ x, route (kind x) = .ready ↔ ours x) (queue : List α) :
    s.AcceptedOnce ours (found ++ queue) queue accepted := by
  have hall : (accepted ++ s.ready).filter ours = accepted ++ s.ready :=
    List.filter_eq_self.mpr fun x hx => decide_eq_true ((hours x).mp (h.ours x hx))
  have hnone : gone.filter ours = [] :=
    List.filter_eq_nil_iff.mpr fun x hx => by simpa [← hours] using h.gone x hx
  have hperm := h.perm.filter fun x => decide (ours x)
  have hgroup : accepted ++ (s.ready ++ (s.pending ++ gone)) =
      accepted ++ s.ready ++ s.pending ++ gone := by
    simp only [List.append_assoc]
  rw [hgroup, List.filter_append, List.filter_append _ s.pending, hall, hnone, List.append_nil]
    at hperm
  unfold AcceptedOnce
  rw [List.filter_append, List.filter_append, ← List.append_assoc, ← List.append_assoc]
  exact hperm.symm.append_right _

theorem Placed.waitsForAll (h : s.Placed route kind found accepted gone) (queue : List α) :
    s.WaitsForAll route kind queue := by
  intro rounds hrounds s' queue' hpoll
  have houtcome := pollAccept_outcome h queue hrounds
  rw [hpoll] at houtcome
  cases houtcome with
  | pending _ _ _ _ _ _ hready hasked => exact ⟨hready, hasked⟩

/-- The early streams are those that claimed the session and the others. -/
theorem early_perm (early : List (Nat × α)) (session : Nat) :
    (early.map Prod.snd).Perm
      ((early.filterMap fun p => if p.1 = session then some p.2 else none) ++
        (early.filter fun p => p.1 ≠ session).map Prod.snd) := by
  induction early with
  | nil => exact List.Perm.refl []
  | cons p early ih =>
      by_cases hclaim : p.1 = session
      · simpa [hclaim] using ih
      · simpa [hclaim] using (ih.cons p.2).trans List.perm_middle.symm

/-- An established session has as ready the early streams that claimed it, and goes on with
the pending ones. -/
theorem placed_establish {kind : α → UniClass} {found lost : List α} {h : Handshake α}
    (hplaced : h.Placed kind found lost) {control : α} (hcontrol : h.control = some control)
    (session : Nat) :
    Placed (uniRoute session) kind found []
      (h.held ++ ((h.early.filter fun p => p.1 ≠ session).map Prod.snd ++ ([control] ++ lost)))
      (establish h control session) where
  perm := by
    have hperm := hplaced.perm
    rw [hcontrol] at hperm
    refine hperm.trans ?_
    have hsplit := (early_perm h.early session).append_right ([control] ++ lost)
    rw [List.append_assoc] at hsplit
    refine ((hsplit.append_left h.held).append_left h.pending).trans ?_
    -- The claimed streams go before the pending ones and the held ones.
    rw [List.nil_append]
    exact ((List.perm_append_comm_assoc _ _ _).append_left h.pending).trans
      (List.perm_append_comm_assoc _ _ _)
  ours := by
    intro x hx
    rw [List.nil_append] at hx
    obtain ⟨p, hp, hclaim⟩ := List.mem_filterMap.mp hx
    rw [uniRoute_ready]
    split_ifs at hclaim with hsession
    cases hclaim
    rw [hplaced.early p hp, hsession]
  gone := by
    intro x hx
    rw [Ne, uniRoute_ready]
    simp only [List.mem_append, List.mem_map, List.mem_filter, List.mem_singleton] at hx
    obtain hheld | ⟨p, ⟨hp, hother⟩, rfl⟩ | rfl | hlost := hx
    · rw [hplaced.held x hheld]
      exact UniClass.noConfusion
    · rw [hplaced.early p hp]
      simpa using hother
    · rw [hplaced.control x hcontrol]
      exact UniClass.noConfusion
    · rw [hplaced.lost x hlost]
      exact UniClass.noConfusion

end WebStreams

section Events

variable {α β : Type}

/-- The stream that the peer opens. -/
def WebEvent.opened : WebEvent α β → List α
  | .opens x => [x]
  | _ => []

def WebEvent.openedBi : WebEvent α β → List β
  | .opensBi x => [x]
  | _ => []

/-- The streams classify as what they are, sooner or later. -/
def WebEvent.Consistent (kind : α → UniClass) (kindBi : β → Option Nat) : WebEvent α β → Prop
  | .shake rounds => ∀ r ∈ rounds, ∀ x c, r.classify x = some c → c = kind x
  | .accept rounds => ∀ r ∈ rounds, ∀ x c, r.classify x = some c → c = kind x
  | .acceptBi rounds => ∀ r ∈ rounds, ∀ x c, r.classify x = some c → c = kindBi x
  | _ => True

end Events

namespace WebPeer

variable {α β : Type} {kind : α → UniClass} {kindBi : β → Option Nat}
  {opened accepted : List α} {openedBi acceptedBi : List β} {w : WebPeer α β}

/-- The streams opened so far are in their places, or still with the connection. -/
inductive Tracks (kind : α → UniClass) (kindBi : β → Option Nat) (opened : List α)
    (openedBi : List β) : List α → List β → WebPeer α β → Prop where
  | shaking (queue found lost : List α) (h : Handshake α) (hopened : opened = found ++ queue)
      (hplaced : h.Placed kind found lost) (hroom : h.arrivals ≤ handshakeStreams + 1)
      (hwaiting : h.control = none → h.arrivals ≤ handshakeStreams) :
      Tracks kind kindBi opened openedBi [] [] ⟨queue, openedBi, .shaking h⟩
  | running (queue found accepted gone : List α) (connect : β)
      (queueBi foundBi acceptedBi goneBi : List β) (session : Nat) (uni : WebStreams α)
      (bi : WebStreams β) (hopened : opened = found ++ queue)
      (hplaced : uni.Placed (uniRoute session) kind found accepted gone)
      (hopenedBi : openedBi = connect :: (foundBi ++ queueBi))
      (hplacedBi : bi.Placed (biRoute session) kindBi foundBi acceptedBi goneBi) :
      Tracks kind kindBi opened openedBi accepted acceptedBi
        ⟨queue, queueBi, .running session uni bi⟩
  | closed (queue accepted : List α) (queueBi acceptedBi : List β) :
      Tracks kind kindBi opened openedBi accepted acceptedBi ⟨queue, queueBi, .closed⟩

theorem tracks_new : Tracks kind kindBi [] [] [] [] (new : WebPeer α β) :=
  .shaking [] [] [] .new rfl Handshake.placed_new (Nat.zero_le _) fun _ => Nat.zero_le _

theorem Tracks.opens (h : Tracks kind kindBi opened openedBi accepted acceptedBi w) (x : α) :
    Tracks kind kindBi (opened ++ [x]) openedBi accepted acceptedBi
      { w with queue := w.queue ++ [x] } := by
  cases h with
  | shaking queue found lost shake hopened hplaced hroom hwaiting =>
      refine .shaking _ found lost shake ?_ hplaced hroom hwaiting
      rw [hopened, List.append_assoc]
  | running queue found accepted gone connect queueBi foundBi acceptedBi goneBi session uni bi
      hopened hplaced hopenedBi hplacedBi =>
      refine .running _ found accepted gone connect queueBi foundBi acceptedBi goneBi session uni
        bi ?_ hplaced hopenedBi hplacedBi
      rw [hopened, List.append_assoc]
  | closed queue accepted queueBi acceptedBi => exact .closed _ accepted queueBi acceptedBi

theorem Tracks.opensBi (h : Tracks kind kindBi opened openedBi accepted acceptedBi w) (x : β) :
    Tracks kind kindBi opened (openedBi ++ [x]) accepted acceptedBi
      { w with queueBi := w.queueBi ++ [x] } := by
  cases h with
  | shaking queue found lost shake hopened hplaced hroom hwaiting =>
      exact .shaking queue found lost shake hopened hplaced hroom hwaiting
  | running queue found accepted gone connect queueBi foundBi acceptedBi goneBi session uni bi
      hopened hplaced hopenedBi hplacedBi =>
      refine .running queue found accepted gone connect _ foundBi acceptedBi goneBi session uni
        bi hopened hplaced ?_ hplacedBi
      rw [hopenedBi, List.cons_append, List.append_assoc]
  | closed queue accepted queueBi acceptedBi => exact .closed queue accepted _ acceptedBi

theorem Tracks.shake (h : Tracks kind kindBi opened openedBi accepted acceptedBi w)
    {rounds : List (Round α UniClass)}
    (hrounds : ∀ r ∈ rounds, ∀ x c, r.classify x = some c → c = kind x) :
    Tracks kind kindBi opened openedBi accepted acceptedBi (w.step (.shake rounds)).1 ∧
      (w.step (.shake rounds)).2 = ([], []) := by
  cases h with
  | running queue found accepted gone connect queueBi foundBi acceptedBi goneBi session uni bi
      hopened hplaced hopenedBi hplacedBi =>
      exact ⟨.running queue found accepted gone connect queueBi foundBi acceptedBi goneBi session
        uni bi hopened hplaced hopenedBi hplacedBi, rfl⟩
  | closed queue accepted queueBi acceptedBi =>
      exact ⟨.closed queue accepted queueBi acceptedBi, rfl⟩
  | shaking queue found lost shake hopened hplaced hroom hwaiting =>
      unfold WebPeer.step
      dsimp only
      by_cases hcontrol : shake.control.isSome = true
      · rw [if_pos hcontrol]
        exact ⟨.shaking queue found lost shake hopened hplaced hroom hwaiting, rfl⟩
      rw [if_neg hcontrol]
      have hnone : shake.control = none := by simpa using hcontrol
      have houtcome := Handshake.poll_outcome hrounds queue hplaced hnone
        (hwaiting hnone)
      generalize shake.poll queue rounds = result at houtcome ⊢
      cases houtcome with
      | pending shake' more queue' lost' hqueue hplaced' hcontrol' hroom' =>
          refine ⟨.shaking queue' _ lost' shake' ?_ hplaced' (Nat.le_succ_of_le hroom')
            fun _ => hroom', rfl⟩
          rw [hopened, hqueue, List.append_assoc]
      | ready shake' more queue' lost' hqueue hplaced' hcontrol' hroom' =>
          refine ⟨.shaking queue' _ lost' shake' ?_ hplaced' hroom' fun hnone => ?_, rfl⟩
          · rw [hopened, hqueue, List.append_assoc]
          · rw [hnone] at hcontrol'
            cases hcontrol'
      | failed => exact ⟨.closed _ [] _ [], rfl⟩
      | tooMany => exact ⟨.closed _ [] _ [], rfl⟩

theorem Tracks.establish (h : Tracks kind kindBi opened openedBi accepted acceptedBi w)
    (session : Nat) :
    Tracks kind kindBi opened openedBi accepted acceptedBi (w.step (.establish session)).1 ∧
      (w.step (.establish session)).2 = ([], []) := by
  cases h with
  | running queue found accepted gone connect queueBi foundBi acceptedBi goneBi session' uni bi
      hopened hplaced hopenedBi hplacedBi =>
      exact ⟨.running queue found accepted gone connect queueBi foundBi acceptedBi goneBi session'
        uni bi hopened hplaced hopenedBi hplacedBi, rfl⟩
  | closed queue accepted queueBi acceptedBi =>
      exact ⟨.closed queue accepted queueBi acceptedBi, rfl⟩
  | shaking queue found lost shake hopened hplaced hroom hwaiting =>
      unfold WebPeer.step
      dsimp only
      cases hcontrol : shake.control with
      | none => exact ⟨.shaking queue found lost shake hopened hplaced hroom hwaiting, rfl⟩
      | some control =>
          cases openedBi with
          | nil => exact ⟨.shaking queue found lost shake hopened hplaced hroom hwaiting, rfl⟩
          | cons connect queueBi =>
              exact ⟨.running queue found [] _ connect queueBi [] [] [] session _ .empty hopened
                (WebStreams.placed_establish hplaced hcontrol session) rfl
                WebStreams.placed_empty, rfl⟩

theorem Tracks.accept (h : Tracks kind kindBi opened openedBi accepted acceptedBi w)
    {rounds : List (Round α UniClass)}
    (hrounds : ∀ r ∈ rounds, ∀ x c, r.classify x = some c → c = kind x) :
    Tracks kind kindBi opened openedBi (accepted ++ (w.step (.accept rounds)).2.1) acceptedBi
        (w.step (.accept rounds)).1 ∧
      (w.step (.accept rounds)).2.2 = [] := by
  cases h with
  | shaking queue found lost shake hopened hplaced hroom hwaiting =>
      exact ⟨.shaking queue found lost shake hopened hplaced hroom hwaiting, rfl⟩
  | closed queue accepted queueBi acceptedBi => exact ⟨.closed queue _ queueBi acceptedBi, rfl⟩
  | running queue found accepted gone connect queueBi foundBi acceptedBi goneBi session uni bi
      hopened hplaced hopenedBi hplacedBi =>
      obtain ⟨more, gone', hqueue, hplaced'⟩ :=
        WebStreams.pollAccept_placed hplaced queue hrounds
      refine ⟨.running _ _ _ gone' connect queueBi foundBi acceptedBi goneBi session _ bi ?_
        hplaced' hopenedBi hplacedBi, rfl⟩
      rw [List.append_assoc, ← hqueue]
      exact hopened

theorem Tracks.acceptBi (h : Tracks kind kindBi opened openedBi accepted acceptedBi w)
    {rounds : List (Round β (Option Nat))}
    (hrounds : ∀ r ∈ rounds, ∀ x c, r.classify x = some c → c = kindBi x) :
    Tracks kind kindBi opened openedBi accepted (acceptedBi ++ (w.step (.acceptBi rounds)).2.2)
        (w.step (.acceptBi rounds)).1 ∧
      (w.step (.acceptBi rounds)).2.1 = [] := by
  cases h with
  | shaking queue found lost shake hopened hplaced hroom hwaiting =>
      exact ⟨.shaking queue found lost shake hopened hplaced hroom hwaiting, rfl⟩
  | closed queue accepted queueBi acceptedBi => exact ⟨.closed queue accepted queueBi _, rfl⟩
  | running queue found accepted gone connect queueBi foundBi acceptedBi goneBi session uni bi
      hopened hplaced hopenedBi hplacedBi =>
      obtain ⟨more, gone', hqueue, hplaced'⟩ :=
        WebStreams.pollAccept_placed hplacedBi queueBi hrounds
      refine ⟨.running queue found accepted gone connect _ _ _ gone' session uni _ hopened hplaced
        ?_ hplaced', rfl⟩
      rw [List.append_assoc, ← hqueue]
      exact hopenedBi

theorem Tracks.step (h : Tracks kind kindBi opened openedBi accepted acceptedBi w)
    {e : WebEvent α β} (he : e.Consistent kind kindBi) :
    Tracks kind kindBi (opened ++ e.opened) (openedBi ++ e.openedBi)
      (accepted ++ (w.step e).2.1) (acceptedBi ++ (w.step e).2.2) (w.step e).1 := by
  cases e with
  | opens x =>
      simp only [WebEvent.openedBi, WebPeer.step, List.append_nil]
      exact h.opens x
  | opensBi x =>
      simp only [WebEvent.opened, WebPeer.step, List.append_nil]
      exact h.opensBi x
  | shake rounds =>
      obtain ⟨hnext, hnone⟩ := h.shake he
      simp only [hnone, WebEvent.opened, WebEvent.openedBi, List.append_nil]
      exact hnext
  | establish session =>
      obtain ⟨hnext, hnone⟩ := h.establish session
      simp only [hnone, WebEvent.opened, WebEvent.openedBi, List.append_nil]
      exact hnext
  | accept rounds =>
      obtain ⟨hnext, hnone⟩ := h.accept he
      simp only [hnone, WebEvent.opened, WebEvent.openedBi, List.append_nil]
      exact hnext
  | acceptBi rounds =>
      obtain ⟨hnext, hnone⟩ := h.acceptBi he
      simp only [hnone, WebEvent.opened, WebEvent.openedBi, List.append_nil]
      exact hnext

/-- The streams that the peer opens along a run, and those handed to the application. -/
def openedStreams (events : List (WebEvent α β)) : List α := (events.map WebEvent.opened).flatten

def openedBiStreams (events : List (WebEvent α β)) : List β :=
  (events.map WebEvent.openedBi).flatten

def acceptedStreams (w : WebPeer α β) (events : List (WebEvent α β)) : List α :=
  ((Machine.outputs step w events).map Prod.fst).flatten

def acceptedBiStreams (w : WebPeer α β) (events : List (WebEvent α β)) : List β :=
  ((Machine.outputs step w events).map Prod.snd).flatten

theorem Tracks.run (h : Tracks kind kindBi opened openedBi accepted acceptedBi w)
    {events : List (WebEvent α β)} (hevents : ∀ e ∈ events, e.Consistent kind kindBi) :
    Tracks kind kindBi (opened ++ openedStreams events) (openedBi ++ openedBiStreams events)
      (accepted ++ acceptedStreams w events) (acceptedBi ++ acceptedBiStreams w events)
      (Machine.run WebPeer.step w events) := by
  induction events generalizing w opened openedBi accepted acceptedBi with
  | nil =>
      simp only [openedStreams, openedBiStreams, acceptedStreams, acceptedBiStreams,
        Machine.outputs, List.map_nil, List.flatten_nil, List.append_nil]
      exact h
  | cons e rest ih =>
      have hnext := ih (h.step (hevents e List.mem_cons_self)) fun e' he =>
        hevents e' (List.mem_cons_of_mem _ he)
      simp only [List.append_assoc] at hnext
      exact hnext

/-- What the places of the streams are after a run from the first stream of a connection on. -/
theorem tracks_of_run {events : List (WebEvent α β)}
    (hevents : ∀ e ∈ events, e.Consistent kind kindBi) :
    Tracks kind kindBi (openedStreams events) (openedBiStreams events)
      (acceptedStreams new events) (acceptedBiStreams new events)
      (Machine.run step (new : WebPeer α β) events) := by
  have htracks := tracks_new.run hevents
  simp only [List.nil_append] at htracks
  exact htracks

/-- From the first stream of a connection on, through the handshake and any number of polls,
each stream of the session, of either direction, is accepted once or still has its turn to
come, and no other stream is accepted. The first bidirectional stream is that of the CONNECT
request and is none of them. A poll that has to wait leaves none ready and has asked every
pending one. -/
theorem streams_accepted_once (kind : α → UniClass) (kindBi : β → Option Nat)
    (events : List (WebEvent α β)) (hevents : ∀ e ∈ events, e.Consistent kind kindBi)
    (session : Nat) (uni : WebStreams α) (bi : WebStreams β)
    (hrunning : (Machine.run step new events).phase = .running session uni bi) :
    let w := Machine.run step new events
    (uni.AcceptedOnce (fun x => kind x = .web session) (openedStreams events) w.queue
        (acceptedStreams new events) ∧
      bi.AcceptedOnce (fun x => kindBi x = some session) (openedBiStreams events).tail w.queueBi
        (acceptedBiStreams new events)) ∧
    uni.WaitsForAll (uniRoute session) kind w.queue ∧
    bi.WaitsForAll (biRoute session) kindBi w.queueBi := by
  have htracks := tracks_of_run hevents
  generalize openedStreams events = opened, openedBiStreams events = openedBi,
    acceptedStreams new events = accepted, acceptedBiStreams new events = acceptedBi at htracks ⊢
  generalize Machine.run step new events = w at htracks hrunning ⊢
  cases htracks with
  | shaking => cases hrunning
  | closed => cases hrunning
  | running queue found accepted gone connect queueBi foundBi acceptedBi goneBi session' uni' bi'
      hopened hplaced hopenedBi hplacedBi =>
      cases hrunning
      refine ⟨⟨?_, ?_⟩, hplaced.waitsForAll queue, hplacedBi.waitsForAll queueBi⟩
      · rw [hopened]
        exact hplaced.acceptedOnce (fun _ => WebStreams.uniRoute_ready) queue
      · rw [hopenedBi, List.tail_cons]
        exact hplacedBi.acceptedOnce (fun _ => WebStreams.biRoute_ready) queueBi

/-- A handshake never keeps more than 65 streams, the control stream included. It refuses a peer
for opening too many only when none of its first 65 was known to be the control stream by then,
and is ready only with a control stream. -/
theorem handshake_bounded (kind : α → UniClass) (kindBi : β → Option Nat)
    (events : List (WebEvent α β)) (hevents : ∀ e ∈ events, e.Consistent kind kindBi)
    (h : Handshake α) (hshaking : (Machine.run step new events).phase = .shaking h) :
    h.pending.length + h.held.length + h.early.length + h.control.toList.length ≤
      handshakeStreams + 1 ∧
    (∀ control ∈ h.control, kind control = .control) ∧
    (h.control = none →
      ∀ rounds, (WebEvent.shake rounds : WebEvent α β).Consistent kind kindBi →
      ∀ h' queue' text, h.poll (Machine.run step new events).queue rounds =
          (h', queue', .web text) →
        ∃ adopted, adopted <+: openedStreams events ∧ adopted.length = handshakeStreams + 1 ∧
          ∃ r ∈ rounds, ∀ x ∈ adopted, kind x = .control → r.classify x = none) := by
  have htracks := tracks_of_run hevents
  generalize acceptedStreams new events = accepted, acceptedBiStreams new events = acceptedBi
    at htracks
  generalize Machine.run step new events = w at *
  cases htracks with
  | running => cases hshaking
  | closed => cases hshaking
  | shaking queue found lost shake hopened hplaced hroom hwaiting =>
      cases hshaking
      refine ⟨?_, hplaced.control, fun hnone rounds hrounds h' queue' text hpoll => ?_⟩
      · have hlength := hplaced.perm.length_eq
        simp only [List.length_append, List.length_map] at hlength
        have harrivals := hplaced.arrivals
        omega
      · have houtcome := Handshake.poll_outcome hrounds queue hplaced hnone
          (hwaiting hnone)
        dsimp only at hpoll
        rw [hpoll] at houtcome
        cases houtcome with
        | tooMany _ more _ _ r hqueue hround hmany hasked =>
            refine ⟨found ++ more, ⟨queue', ?_⟩, hmany, r, hround, hasked⟩
            rw [hopened, hqueue, List.append_assoc]

end WebPeer

/-- A control stream, a QPACK stream, and streams of two sessions. -/
def sampleKind (x : Nat) : UniClass :=
  if x = 0 then .control else if x = 1 then .qpack else .web (x % 2)

/-- Streams of two sessions and one without a header. -/
def sampleKindBi (x : Nat) : Option Nat := if x = 3 then none else some (x % 2)

/-- Of the unidirectional streams one comes early, one is still without a header when the control
stream has come, and the last one comes later. The first of the bidirectional ones carries the
CONNECT request. -/
def pipelined : List (WebEvent Nat Nat) :=
  [.opens 4, .opens 0, .opens 5, .opensBi 0, .opensBi 2, .opensBi 3,
    .shake [⟨3, none, fun x => if x = 5 then none else some (sampleKind x)⟩],
    .establish 0, .opens 6, .accept [],
    .accept [⟨1, none, fun x => some (sampleKind x)⟩],
    .acceptBi [⟨2, none, fun x => some (sampleKindBi x)⟩]]

theorem pipelined_consistent : ∀ e ∈ pipelined, e.Consistent sampleKind sampleKindBi := by
  simp [pipelined, WebEvent.Consistent, eq_comm]

theorem streams_accepted_once_of_pipelined :
    (WebPeer.acceptedStreams WebPeer.new pipelined).Perm
        ((WebPeer.openedStreams pipelined).filter fun x => decide (sampleKind x = .web 0)) ∧
      (WebPeer.acceptedBiStreams WebPeer.new pipelined).Perm
        ((WebPeer.openedBiStreams pipelined).tail.filter
          fun x => decide (sampleKindBi x = some 0)) := by
  have h := (WebPeer.streams_accepted_once sampleKind sampleKindBi pipelined pipelined_consistent
    0 ⟨[], [], [0]⟩ ⟨[], [], []⟩ rfl).1
  exact h

/-- A peer that opens streams without end and never a control stream. -/
def withoutControl : List (WebEvent Nat Nat) :=
  (List.range 70).map (fun x => .opens (x + 1))

theorem handshake_bounded_without_control :
    ∃ adopted, adopted <+: WebPeer.openedStreams withoutControl ∧
      adopted.length = handshakeStreams + 1 := by
  have h := (WebPeer.handshake_bounded sampleKind sampleKindBi withoutControl
    (by simp [withoutControl, WebEvent.Consistent]) ⟨[], [], [], 0, none⟩ rfl).2.2 rfl
    [⟨70, none, fun _ => none⟩] (by simp [WebEvent.Consistent]) _ _ _ rfl
  obtain ⟨adopted, hfirst, hlength, -⟩ := h
  exact ⟨adopted, hfirst, hlength⟩

end Transport

end Tidkod
