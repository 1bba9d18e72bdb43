import Mathlib.Tactic
import Tidkod.Lib.Machine
import Tidkod.Native.Capsules
import Tidkod.Native.WebSend

/-!
A session closed from this side (`Session::close` and the `Closing` of `Driver::step` in
`transport/web.rs`). The capsule with the code and the reason goes out in one DATA frame, in
whatever pieces flow control leaves, and the peer has until a deadline to act on it. What the
CONNECT stream brings meanwhile is an input.
-/

namespace Tidkod

namespace Transport

open Proto3 PrefixDecoder

def closeGraceNs : Nat := 1000000000

/-- A DATA frame with this payload. -/
def closeFrame (payload : Bytes) : Bytes :=
  encodeVarint frameData ++ (encodeVarint payload.length ++ payload)

structure Closing where
  send : QuicSend
  frame : Bytes
  offset : Nat
  deadline : Nat
  code : Nat
  reason : String
  deriving DecidableEq

/-- So many rounds of the loop that writes the frame, and whether it has failed. -/
def Closing.write (c : Closing) (answer : Option Error) :
    Nat → List WriteAnswer → Closing × Bool
  | 0, _ => (c, false)
  | rounds + 1, writes =>
      if c.offset = c.frame.length then (c, false)
      else
        match c.send.pollWrite (writes.headD .pending) (c.frame.drop c.offset) with
        | (send, .pending) => ({ c with send := send }, false)
        | (send, .ready (.error _)) => ({ c with send := send }, true)
        | (send, .ready (.ok 0)) => ({ c with send := send }, true)
        | (send, .ready (.ok (n + 1))) =>
            let offset := c.offset + (n + 1)
            let send := if offset = c.frame.length then (send.finish answer).1 else send
            Closing.write { c with send := send, offset := offset } answer rounds writes.tail

/-- The closing part of a session and of the driver's registry. `closedWith` is the argument of
the first `close_code`, which later ones do not change. -/
structure LocalClose where
  closed : Option (Nat × String)
  connectSend : Option QuicSend
  closing : Option Closing
  closedWith : Option (Nat × String)
  removed : Bool
  deriving DecidableEq

inductive CloseOp where
  | close (code : Nat) (reason : String) (now : Nat)
  | driver (now : Nat) (gone : Bool) (writes : List WriteAnswer) (answer : Option Error)
      (received : Option Removal)

namespace LocalClose

variable (encode : Nat → String → Bytes) (errorToHttp3 : Nat → Nat)

def closeCode (s : LocalClose) (code : Nat) (reason : String) : LocalClose :=
  { s with closedWith := s.closedWith.or (some (code, reason)) }

/-- `Session::close`. -/
def close (s : LocalClose) (code : Nat) (reason : String) (now : Nat) : LocalClose :=
  match s.closed with
  | some _ => s
  | none =>
      let s := { s with closed := some (code, reason) }
      match s.connectSend with
      | none => s.closeCode (errorToHttp3 code) reason
      | some send =>
          { s with
            connectSend := none
            closing := some ⟨send, closeFrame (encode code reason), 0, now + closeGraceNs,
              errorToHttp3 code, reason⟩ }

/-- What reading the CONNECT stream leads to, `CapsuleSession.driverStep` without its state. -/
def receive (s : LocalClose) : Option Removal → LocalClose
  | none => s
  | some removal =>
      let (code, reason) := removal.closeCode errorToHttp3
      let closed :=
        match removal with
        | .capsule code reason => s.closed.or (some (code, reason))
        | _ => s.closed
      { s.closeCode code reason with closed := closed, removed := true }

/-- `Driver::step` for one session. `gone` says that the connection has closed. -/
def driverStep (s : LocalClose) (now : Nat) (gone : Bool) (writes : List WriteAnswer)
    (answer : Option Error) (received : Option Removal) : LocalClose :=
  if s.removed then s
  else if gone then { s with removed := true }
  else
    match s.closing with
    | none => s.receive errorToHttp3 received
    | some c =>
        if c.deadline ≤ now then { s.closeCode c.code c.reason with removed := true }
        else
          match c.write answer 8 writes with
          | (c, true) =>
              { s.closeCode c.code c.reason with closing := some c, removed := true }
          | (c, false) => { s with closing := some c }.receive errorToHttp3 received

def step (s : LocalClose) : CloseOp → LocalClose × Unit
  | .close code reason now => (s.close encode errorToHttp3 code reason now, ())
  | .driver now gone writes answer received =>
      (s.driverStep errorToHttp3 now gone writes answer received, ())

end LocalClose

theorem QuicSend.finish_wire (s : QuicSend) (answer : Option Error) :
    (s.finish answer).1.wire = s.wire := by
  have hfinished := s.finished answer
  generalize s.finish answer = result at hfinished ⊢
  cases hfinished with
  | announced => rfl
  | kept => rfl

/-- A part of the frame is on the wire behind what was there before, and no end before all of
it. -/
structure Closing.Framed (base : Bytes) (c : Closing) : Prop where
  offset : c.offset ≤ c.frame.length
  wire : c.send.wire = base ++ c.frame.take c.offset
  fin : c.send.fin = true → c.offset = c.frame.length

namespace Closing

/-- What a close has decided on does not change while its frame is written. -/
def SameClose (c next : Closing) : Prop :=
  next.frame = c.frame ∧ next.deadline = c.deadline ∧ next.code = c.code ∧ next.reason = c.reason

variable {base : Bytes} {c : Closing}

theorem Framed.write (h : c.Framed base) (answer : Option Error) (rounds : Nat)
    (writes : List WriteAnswer) :
    (c.write answer rounds writes).1.Framed base ∧
      c.SameClose (c.write answer rounds writes).1 := by
  induction rounds generalizing c writes with
  | zero => exact ⟨h, rfl, rfl, rfl, rfl⟩
  | succ rounds ih =>
      unfold Closing.write
      by_cases hdone : c.offset = c.frame.length
      · rw [if_pos hdone]
        exact ⟨h, rfl, rfl, rfl, rfl⟩
      rw [if_neg hdone]
      have hwritten := c.send.written (writes.headD .pending) (c.frame.drop c.offset)
      generalize c.send.pollWrite (writes.headD .pending) (c.frame.drop c.offset) = result
        at hwritten ⊢
      cases hwritten with
      | kept result hresult =>
          obtain rfl | ⟨e, rfl⟩ := Poll.pending_or_error hresult
          · exact ⟨h, rfl, rfl, rfl, rfl⟩
          · exact ⟨h, rfl, rfl, rfl, rfl⟩
      | took n hopen hn =>
          cases n with
          | zero =>
              refine ⟨⟨h.offset, ?_, h.fin⟩, rfl, rfl, rfl, rfl⟩
              dsimp only
              rw [List.take_zero, List.append_nil]
              exact h.wire
          | succ n =>
              dsimp only
              rw [List.length_drop] at hn
              have hfin : c.send.fin = false := by
                rw [← Bool.not_eq_true]
                exact fun hfin => hdone (h.fin hfin)
              have hwire : c.send.wire ++ (c.frame.drop c.offset).take (n + 1) =
                  base ++ c.frame.take (c.offset + (n + 1)) := by
                rw [h.wire, List.append_assoc, ← List.take_add]
              refine (ih ⟨?_, ?_, ?_⟩ _).imp_right fun hsame => hsame
              · dsimp only
                omega
              · dsimp only
                split_ifs
                · rw [QuicSend.finish_wire]
                  exact hwire
                · exact hwire
              · dsimp only
                split_ifs with hlast
                · exact fun _ => hlast
                · intro hpast
                  rw [hfin] at hpast
                  cases hpast

end Closing

namespace LocalClose

variable {encode : Nat → String → Bytes} {errorToHttp3 : Nat → Nat} {base : Bytes}
  {s : LocalClose}

/-- The CONNECT stream is as it was, or it carries the frame of the close that is recorded, one
of those made. The connection has not been closed before the session is let go. -/
structure Closes (encode : Nat → String → Bytes) (errorToHttp3 : Nat → Nat) (base : Bytes)
    (made : Nat → String → Nat → Prop) (s : LocalClose) : Prop where
  waiting : ∀ send ∈ s.connectSend, send.wire = base ∧ send.fin = false
  closing : ∀ c ∈ s.closing, c.Framed base ∧
    ∃ code reason now, made code reason now ∧ s.closed = some (code, reason) ∧
      c.frame = closeFrame (encode code reason) ∧ c.deadline = now + closeGraceNs ∧
        c.code = errorToHttp3 code ∧ c.reason = reason
  unclosed : s.removed = false → s.closed = none ∨ s.closing.isSome = true → s.closedWith = none

variable {made : Nat → String → Nat → Prop}

/-- The record of a close is written once. -/
def Keeps (s next : LocalClose) : Prop := ∀ x, s.closed = some x → next.closed = some x

theorem Closes.close (h : s.Closes encode errorToHttp3 base made) {code : Nat} {reason : String}
    {now : Nat} (hmade : made code reason now) :
    (s.close encode errorToHttp3 code reason now).Closes encode errorToHttp3 base made ∧
      s.Keeps (s.close encode errorToHttp3 code reason now) := by
  unfold LocalClose.close
  cases hclosed : s.closed with
  | some x => exact ⟨h, fun _ hx => hx⟩
  | none =>
      refine ⟨?_, fun x hx => by rw [hclosed] at hx; cases hx⟩
      have hquiet : s.closing = none := by
        cases hclosing : s.closing with
        | none => rfl
        | some c =>
            obtain ⟨-, code', reason', now', -, hrecorded, -⟩ := h.closing c hclosing
            rw [hclosed] at hrecorded
            cases hrecorded
      dsimp only
      cases hsend : s.connectSend with
      | none =>
          refine ⟨fun send hs => absurd hs (by simp [closeCode]), fun c hc => ?_, ?_⟩
          · exact absurd hc (by simp [closeCode, hquiet])
          · rintro - (hnone | hsome)
            · cases hnone
            · simp [closeCode, hquiet] at hsome
      | some send =>
          obtain ⟨hwire, hfin⟩ := h.waiting send hsend
          refine ⟨fun send hs => absurd hs (Option.not_mem_none send), fun c hc => ?_, ?_⟩
          · cases hc
            refine ⟨⟨Nat.zero_le _, ?_, fun hpast => ?_⟩, code, reason, now, hmade, rfl, rfl, rfl,
              rfl, rfl⟩
            · rw [hwire, List.take_zero, List.append_nil]
            · rw [hfin] at hpast
              cases hpast
          · exact fun hremoved _ => h.unclosed hremoved (Or.inl hclosed)

theorem Closes.receive (h : s.Closes encode errorToHttp3 base made) (received : Option Removal) :
    (s.receive errorToHttp3 received).Closes encode errorToHttp3 base made ∧
      s.Keeps (s.receive errorToHttp3 received) := by
  cases received with
  | none => exact ⟨h, fun _ hx => hx⟩
  | some removal =>
      have hkept : s.Keeps (s.receive errorToHttp3 (some removal)) := by
        intro x hx
        cases removal with
        | capsule code reason => simp [LocalClose.receive, hx]
        | invalid => exact hx
        | tooLarge => exact hx
        | ended => exact hx
      refine ⟨⟨h.waiting, fun c hc => ?_, fun hremoved => by cases hremoved⟩, hkept⟩
      obtain ⟨hframed, code, reason, now, hmade, hclosed, hrest⟩ := h.closing c hc
      exact ⟨hframed, code, reason, now, hmade, hkept _ hclosed, hrest⟩

/-- The frame that is under way may go on. -/
theorem Closes.written (h : s.Closes encode errorToHttp3 base made) {c : Closing}
    (hc : s.closing = some c) (answer : Option Error) (rounds : Nat) (writes : List WriteAnswer) :
    Closes encode errorToHttp3 base made
      { s with closing := some (c.write answer rounds writes).1 } where
  waiting := h.waiting
  closing := by
    intro c' hc'
    cases hc'
    obtain ⟨hframed, code, reason, now, hmade, hclosed, hframe, hdeadline, hcode, hreason⟩ :=
      h.closing c hc
    obtain ⟨hnext, hkept⟩ := hframed.write answer rounds writes
    exact ⟨hnext, code, reason, now, hmade, hclosed, hkept.1.trans hframe,
      hkept.2.1.trans hdeadline, hkept.2.2.1.trans hcode, hkept.2.2.2.trans hreason⟩
  unclosed := fun hremoved _ => h.unclosed hremoved (Or.inr (by rw [hc]; rfl))

theorem Closes.driverStep (h : s.Closes encode errorToHttp3 base made) (now : Nat) (gone : Bool)
    (writes : List WriteAnswer) (answer : Option Error) (received : Option Removal) :
    (s.driverStep errorToHttp3 now gone writes answer received).Closes encode errorToHttp3 base
        made ∧
      s.Keeps (s.driverStep errorToHttp3 now gone writes answer received) := by
  unfold LocalClose.driverStep
  by_cases hremoved : s.removed = true
  · rw [if_pos hremoved]
    exact ⟨h, fun _ hx => hx⟩
  rw [if_neg hremoved]
  by_cases hgone : gone = true
  · rw [if_pos hgone]
    exact ⟨⟨h.waiting, h.closing, fun hstays => by cases hstays⟩, fun _ hx => hx⟩
  rw [if_neg hgone]
  cases hclosing : s.closing with
  | none => exact h.receive received
  | some c =>
      dsimp only
      by_cases hlate : c.deadline ≤ now
      · rw [if_pos hlate]
        exact ⟨⟨h.waiting, fun c hc => h.closing c hc, fun hstays => by cases hstays⟩,
          fun _ hx => hx⟩
      rw [if_neg hlate]
      have hwritten := h.written hclosing answer 8 writes
      generalize c.write answer 8 writes = result at hwritten ⊢
      obtain ⟨c', _ | _⟩ := result
      · exact hwritten.receive received
      · exact ⟨⟨hwritten.waiting, hwritten.closing, fun hstays => by cases hstays⟩,
          fun _ hx => hx⟩

theorem Closes.step (h : s.Closes encode errorToHttp3 base made) {op : CloseOp}
    (hop : ∀ code reason now, op = .close code reason now → made code reason now) :
    (s.step encode errorToHttp3 op).1.Closes encode errorToHttp3 base made ∧
      s.Keeps (s.step encode errorToHttp3 op).1 := by
  cases op with
  | close code reason now => exact h.close (hop code reason now rfl)
  | driver now gone writes answer received => exact h.driverStep now gone writes answer received

theorem Closes.run (h : s.Closes encode errorToHttp3 base made) {ops : List CloseOp}
    (hops : ∀ code reason now, .close code reason now ∈ ops → made code reason now) :
    (Machine.run (LocalClose.step encode errorToHttp3) s ops).Closes encode errorToHttp3 base
        made ∧
      s.Keeps (Machine.run (LocalClose.step encode errorToHttp3) s ops) := by
  induction ops generalizing s with
  | nil => exact ⟨h, fun _ hx => hx⟩
  | cons op rest ih =>
      obtain ⟨hnext, hkept⟩ := h.step fun code reason now hop =>
        hops code reason now (hop ▸ List.mem_cons_self)
      obtain ⟨hend, hlater⟩ := ih hnext fun code reason now hlater =>
        hops code reason now (List.mem_cons_of_mem op hlater)
      exact ⟨hend, fun x hx => hlater x (hkept x hx)⟩

end LocalClose

end Transport

end Tidkod
