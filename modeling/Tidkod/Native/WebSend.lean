import Mathlib.Tactic
import Tidkod.Native.Varint

/-!
The sending half of a WebTransport stream (`SendStream` of `transport/web.rs`) over one
of QUIC (`transport/quic.rs`). Each stream begins with a header that names its session,
which is owed until the connection has credit for it. `finish` can leave that debt to
`poll_closed` and `Drop`. What the connection answers to each attempt is an input; it
takes nothing once a stream has been finished or reset. Error codes are not mapped.
-/

namespace Tidkod

namespace Transport

open Proto3

/-- What the connection answers to a write: no credit, bytes taken, or an error. -/
inductive WriteAnswer where
  | pending
  | accepted (n : Nat)
  | refused (e : Error)
  deriving DecidableEq

/-- `quic::SendStream` with the stream that it writes to. -/
structure QuicSend where
  wire : Bytes
  fin : Bool
  resetCode : Option Nat
  ended : Bool
  deriving DecidableEq

namespace QuicSend

def new : QuicSend := ⟨[], false, none, false⟩

/-- Neither finished nor reset. -/
def isOpen (s : QuicSend) : Bool := !s.fin && s.resetCode.isNone

def pollWrite (s : QuicSend) (answer : WriteAnswer) (buf : Bytes) : QuicSend × Poll Nat :=
  match answer with
  | .pending => (s, .pending)
  | .refused e => (s, .ready (.error e))
  | .accepted n =>
      if s.isOpen then
        ({ s with wire := s.wire ++ buf.take n }, .ready (.ok (min n buf.length)))
      else (s, .ready (.error (.quic "closed stream")))

/-- As many bytes as there is credit for. -/
def tryWrite (s : QuicSend) (credit : Nat) (buf : Bytes) : QuicSend × Nat :=
  if s.ended then (s, 0)
  else if s.isOpen then ({ s with wire := s.wire ++ buf.take credit }, min credit buf.length)
  else (s, 0)

def finish (s : QuicSend) (answer : Option Error) : QuicSend × Except Error Unit :=
  if s.ended then (s, .ok ())
  else
    match answer with
    | some e => (s, .error e)
    | none =>
        if s.isOpen then ({ s with fin := true, ended := true }, .ok ())
        else (s, .error (.quic "closed stream"))

/-- A stream is reset once; a code that is no varint becomes the largest one. -/
def reset (s : QuicSend) (code : Nat) : QuicSend :=
  { s with resetCode := s.resetCode.or (some (min code (2 ^ 62 - 1))), ended := true }

end QuicSend

/-- The WebTransport stream: header bytes still owed before any payload, and whether
`finish` ran with some owed. -/
structure WebSend where
  inner : QuicSend
  owed : Bytes
  finishing : Bool
  web : Bool
  deriving DecidableEq

namespace WebSend

/-- A stream opened by this side. -/
def opened (header : Bytes) : WebSend := ⟨QuicSend.new, header, false, true⟩

/-- Writes the header while the connection answers; past the answers it has no credit. -/
def payHeader (s : WebSend) : List WriteAnswer → WebSend × List WriteAnswer × Poll Unit
  | [] => (s, [], if s.owed = [] then .ready (.ok ()) else .pending)
  | answer :: rest =>
      if s.owed = [] then (s, answer :: rest, .ready (.ok ()))
      else
        match s.inner.pollWrite answer s.owed with
        | (inner, .pending) => ({ s with inner := inner }, rest, .pending)
        | (inner, .ready (.error e)) => ({ s with inner := inner }, rest, .ready (.error e))
        | (inner, .ready (.ok n)) =>
            payHeader { s with inner := inner, owed := s.owed.drop n } rest

/-- `poll_write`, and `poll_write_buf` with the chunk at hand. -/
def pollWrite (s : WebSend) (answers : List WriteAnswer) (buf : Bytes) : WebSend × Poll Nat :=
  if s.finishing then (s, .ready (.error (.quic "stream already finished")))
  else
    match s.payHeader answers with
    | (s, _, .pending) => (s, .pending)
    | (s, _, .ready (.error e)) => (s, .ready (.error e))
    | (s, rest, .ready (.ok ())) =>
        let (inner, result) := s.inner.pollWrite (rest.headD .pending) buf
        ({ s with inner := inner }, result)

def finish (s : WebSend) (credit : Nat) (answer : Option Error) : WebSend × Except Error Unit :=
  if s.owed = [] then
    let (inner, result) := s.inner.finish answer
    ({ s with inner := inner }, result)
  else
    let (inner, n) := s.inner.tryWrite credit s.owed
    let s := { s with inner := inner, owed := s.owed.drop n }
    if s.owed = [] then
      let (inner, result) := s.inner.finish answer
      ({ s with inner := inner }, result)
    else ({ s with finishing := true }, .ok ())

def reset (s : WebSend) (code : Nat) : WebSend := { s with inner := s.inner.reset code }

/-- The loop of `poll_closed`, which runs while the stream is finishing. -/
def payDebt (s : WebSend) (answer : Option Error) : List WriteAnswer → WebSend × Poll Unit
  | [] => (s, if s.finishing then .pending else .ready (.ok ()))
  | write :: rest =>
      if s.finishing then
        match s.inner.pollWrite write s.owed with
        | (inner, .pending) => ({ s with inner := inner }, .pending)
        | (inner, .ready (.error e)) => ({ s with inner := inner }, .ready (.error e))
        | (inner, .ready (.ok n)) =>
            let s := { s with inner := inner, owed := s.owed.drop n }
            if s.owed = [] then
              match s.inner.finish answer with
              | (inner, .error e) =>
                  ({ s with finishing := false, inner := inner }, .ready (.error e))
              | (inner, .ok ()) => payDebt { s with finishing := false, inner := inner } answer rest
            else payDebt s answer rest
      else (s, .ready (.ok ()))

/-- What the stream itself reports once nothing is owed is the connection's answer. -/
def pollClosed (s : WebSend) (writes : List WriteAnswer) (answer : Option Error)
    (closed : Poll Unit) : WebSend × Poll Unit :=
  match s.payDebt answer writes with
  | (s, .ready (.ok ())) => (s, closed)
  | (s, other) => (s, other)

/-- `Drop`, of this stream and then of the one below it. -/
def drop (s : WebSend) (credit : Nat) (answer : Option Error) (code : Nat) : WebSend :=
  let s :=
    if s.finishing then
      let (inner, n) := s.inner.tryWrite credit s.owed
      let s := { s with inner := inner, owed := s.owed.drop n }
      if s.owed = [] then { s with inner := (s.inner.finish answer).1 } else s
    else s
  if s.inner.ended then s
  else if s.web then { s with inner := s.inner.reset code }
  else { s with inner := s.inner.reset 0 }

end WebSend

/-- The calls on a stream that is in use, each with what the connection answers. -/
inductive SendOp where
  | write (answers : List WriteAnswer) (buf : Bytes)
  | finish (credit : Nat) (answer : Option Error)
  | reset (code : Nat)
  | pollClosed (writes : List WriteAnswer) (answer : Option Error) (closed : Poll Unit)

/-- No call resets the stream and the connection refuses no end of it. -/
def SendOp.Unrefused : SendOp → Prop
  | .write _ _ => True
  | .finish _ answer => answer = none
  | .reset _ => False
  | .pollClosed _ answer _ => answer = none

instance (op : SendOp) : Decidable op.Unrefused :=
  match op with
  | .write _ _ => inferInstanceAs (Decidable True)
  | .finish _ _ => inferInstanceAs (Decidable (_ = _))
  | .reset _ => inferInstanceAs (Decidable False)
  | .pollClosed _ _ _ => inferInstanceAs (Decidable (_ = _))

namespace QuicSend

/-- A write takes some bytes of the buffer, or leaves the stream as it is. -/
inductive Written (s : QuicSend) (buf : Bytes) : QuicSend × Poll Nat → Prop where
  | took (n : Nat) (hopen : s.isOpen = true) (hn : n ≤ buf.length) :
      Written s buf ({ s with wire := s.wire ++ buf.take n }, .ready (.ok n))
  | kept (result : Poll Nat) (hresult : ∀ n, result ≠ .ready (.ok n)) : Written s buf (s, result)

theorem written (s : QuicSend) (answer : WriteAnswer) (buf : Bytes) :
    Written s buf (s.pollWrite answer buf) := by
  cases answer with
  | pending => exact .kept _ (by simp)
  | refused e => exact .kept _ (by simp)
  | accepted n =>
      unfold pollWrite
      split_ifs with hopen
      · dsimp only
        rw [List.take_eq_take_min]
        exact .took _ hopen (Nat.min_le_right _ _)
      · exact .kept _ (by simp)

theorem tryWrite_eq (s : QuicSend) (credit : Nat) (buf : Bytes) :
    s.tryWrite credit buf =
      ({ s with wire := s.wire ++ buf.take (s.tryWrite credit buf).2 },
        (s.tryWrite credit buf).2) := by
  unfold tryWrite
  split_ifs
  · simp
  · rw [← List.take_eq_take_min]
  · simp

/-- The end is announced, or the stream is left as it is. -/
inductive Finished (s : QuicSend) : QuicSend × Except Error Unit → Prop where
  | announced (hopen : s.isOpen = true) :
      Finished s ({ s with fin := true, ended := true }, .ok ())
  | kept (result : Except Error Unit) : Finished s (s, result)

theorem finished (s : QuicSend) (answer : Option Error) : Finished s (s.finish answer) := by
  unfold finish
  split_ifs with hended hopen
  · exact .kept _
  · cases answer with
    | some e => exact .kept _
    | none => exact .announced hopen
  · cases answer with
    | some e => exact .kept _
    | none => exact .kept _

end QuicSend

namespace WebSend

/-- The payload bytes that a call takes. -/
def step (s : WebSend) : SendOp → WebSend × Bytes
  | .write answers buf =>
      match s.pollWrite answers buf with
      | (s, .ready (.ok n)) => (s, buf.take n)
      | (s, _) => (s, [])
  | .finish credit answer => ((s.finish credit answer).1, [])
  | .reset code => (s.reset code, [])
  | .pollClosed writes answer closed => ((s.pollClosed writes answer closed).1, [])

/-- The header and the payload taken so far are on the wire, but for the owed bytes of the
header, before which no payload is taken and no end is announced. -/
structure Framed (header taken : Bytes) (code : Option Nat) (s : WebSend) : Prop where
  conserved : s.inner.wire ++ s.owed = header ++ taken
  headerFirst : taken ≠ [] → s.owed = []
  fin : s.inner.fin = true → s.owed = []
  ended : s.inner.ended = !s.inner.isOpen
  reset : s.inner.resetCode = code

theorem framed_opened (header : Bytes) : (opened header).Framed header [] none where
  conserved := by simp [opened, QuicSend.new]
  headerFirst := fun h => absurd rfl h
  fin := fun h => by simp [opened, QuicSend.new] at h
  ended := rfl
  reset := rfl

variable {header taken : Bytes} {code : Option Nat} {s : WebSend}

theorem Framed.taken_eq_nil (h : s.Framed header taken code) (howed : s.owed ≠ []) : taken = [] :=
  not_not.mp fun htaken => howed (h.headerFirst htaken)

/-- Some of the owed bytes go to the wire. -/
theorem Framed.paid (h : s.Framed header taken code) (n : Nat) (finishing : Bool) :
    Framed header taken code
      { s with
        inner := { s.inner with wire := s.inner.wire ++ s.owed.take n }
        owed := s.owed.drop n
        finishing := finishing } where
  conserved := by
    rw [List.append_assoc, List.take_append_drop]
    exact h.conserved
  headerFirst := fun htaken => by rw [h.headerFirst htaken, List.drop_nil]
  fin := fun hfin => by rw [h.fin hfin, List.drop_nil]
  ended := h.ended
  reset := h.reset

/-- Once nothing is owed, payload follows the header. -/
theorem Framed.took (h : s.Framed header taken code) (howed : s.owed = []) (buf : Bytes) :
    Framed header (taken ++ buf) code
      { s with inner := { s.inner with wire := s.inner.wire ++ buf } } where
  conserved := by
    have hwire := h.conserved
    rw [howed, List.append_nil] at hwire ⊢
    rw [hwire, List.append_assoc]
  headerFirst := fun _ => howed
  fin := fun _ => howed
  ended := h.ended
  reset := h.reset

theorem Framed.finish_inner (h : s.Framed header taken code) (howed : s.owed = [])
    (answer : Option Error) :
    Framed header taken code { s with inner := (s.inner.finish answer).1 } := by
  have hfinished := s.inner.finished answer
  generalize s.inner.finish answer = result at hfinished ⊢
  cases hfinished with
  | kept => exact h
  | announced hopen => exact ⟨h.conserved, h.headerFirst, fun _ => howed, rfl, h.reset⟩

theorem Framed.cancel (h : s.Framed header taken code) (last : Nat) :
    (s.reset last).Framed header taken (code.or (some (min last (2 ^ 62 - 1)))) where
  conserved := h.conserved
  headerFirst := h.headerFirst
  fin := h.fin
  ended := by cases hcode : s.inner.resetCode <;>
    simp [WebSend.reset, QuicSend.reset, QuicSend.isOpen, hcode]
  reset := by rw [← h.reset]; rfl

theorem Framed.payHeader (h : s.Framed header taken code) (answers : List WriteAnswer) :
    (s.payHeader answers).1.Framed header taken code ∧
      ((s.payHeader answers).2.2 = .ready (.ok ()) → (s.payHeader answers).1.owed = []) := by
  induction answers generalizing s with
  | nil =>
      refine ⟨h, fun hresult => ?_⟩
      unfold WebSend.payHeader at hresult ⊢
      split_ifs at hresult with howed
      exact howed
  | cons answer rest ih =>
      unfold WebSend.payHeader
      by_cases howed : s.owed = []
      · rw [if_pos howed]
        exact ⟨h, fun _ => howed⟩
      rw [if_neg howed]
      have hwritten := s.inner.written answer s.owed
      generalize s.inner.pollWrite answer s.owed = result at hwritten ⊢
      cases hwritten with
      | took n => exact ih (h.paid n s.finishing)
      | kept result hresult =>
          obtain rfl | ⟨e, rfl⟩ := Poll.pending_or_error hresult
          · exact ⟨h, fun hr => by cases hr⟩
          · exact ⟨h, fun hr => by cases hr⟩

/-- A write adds what it takes, after the whole header. -/
theorem Framed.write (h : s.Framed header taken code) (answers : List WriteAnswer) (buf : Bytes) :
    (s.step (.write answers buf)).1.Framed header (taken ++ (s.step (.write answers buf)).2)
      code := by
  unfold WebSend.step WebSend.pollWrite
  dsimp only
  by_cases hfinishing : s.finishing = true
  · rw [if_pos hfinishing, List.append_nil]
    exact h
  rw [if_neg hfinishing]
  obtain ⟨hheader, howed⟩ := h.payHeader answers
  generalize s.payHeader answers = paid at hheader howed ⊢
  obtain ⟨next, rest, _ | ⟨e | u⟩⟩ := paid
  · rw [List.append_nil]
    exact hheader
  · rw [List.append_nil]
    exact hheader
  · cases u
    dsimp only at hheader howed ⊢
    have hwritten := next.inner.written (rest.headD .pending) buf
    generalize next.inner.pollWrite (rest.headD .pending) buf = result at hwritten ⊢
    cases hwritten with
    | took n => exact hheader.took (howed rfl) (buf.take n)
    | kept result hresult =>
        obtain rfl | ⟨e, rfl⟩ := Poll.pending_or_error hresult
        · rw [List.append_nil]
          exact hheader
        · rw [List.append_nil]
          exact hheader

theorem Framed.finish (h : s.Framed header taken code) (credit : Nat) (answer : Option Error) :
    (s.finish credit answer).1.Framed header taken code := by
  unfold WebSend.finish
  split_ifs with howed
  · exact h.finish_inner howed answer
  rw [s.inner.tryWrite_eq credit s.owed]
  dsimp only
  split_ifs with hpaid
  · exact (h.paid _ s.finishing).finish_inner hpaid answer
  · exact h.paid _ true

theorem Framed.payDebt (h : s.Framed header taken code) (answer : Option Error)
    (writes : List WriteAnswer) : (s.payDebt answer writes).1.Framed header taken code := by
  induction writes generalizing s with
  | nil => exact h
  | cons write rest ih =>
      unfold WebSend.payDebt
      by_cases hfinishing : s.finishing = true
      · rw [if_pos hfinishing]
        have hwritten := s.inner.written write s.owed
        generalize s.inner.pollWrite write s.owed = result at hwritten ⊢
        cases hwritten with
        | kept result hresult =>
            obtain rfl | ⟨e, rfl⟩ := Poll.pending_or_error hresult
            · exact h
            · exact h
        | took n =>
            dsimp only
            by_cases hpaid : s.owed.drop n = []
            · rw [if_pos hpaid]
              have hnext := (h.paid n false).finish_inner hpaid answer
              dsimp only at hnext
              rcases hfinish : QuicSend.finish _ answer with ⟨inner, e | ⟨⟩⟩
              · rw [hfinish] at hnext
                exact hnext
              · rw [hfinish] at hnext
                exact ih hnext
            · rw [if_neg hpaid]
              exact ih (h.paid n s.finishing)
      · rw [if_neg hfinishing]
        exact h

theorem pollClosed_fst (s : WebSend) (writes : List WriteAnswer) (answer : Option Error)
    (closed : Poll Unit) : (s.pollClosed writes answer closed).1 = (s.payDebt answer writes).1 := by
  unfold pollClosed
  rcases s.payDebt answer writes with ⟨next, _ | ⟨e | ⟨⟩⟩⟩
  · rfl
  · rfl
  · rfl

theorem Framed.step (h : s.Framed header taken code) {op : SendOp}
    (hop : ∀ last, op ≠ .reset last) :
    (s.step op).1.Framed header (taken ++ (s.step op).2) code := by
  cases op with
  | write answers buf => exact h.write answers buf
  | finish credit answer =>
      rw [WebSend.step, List.append_nil]
      exact h.finish credit answer
  | reset last => exact absurd rfl (hop last)
  | pollClosed writes answer closed =>
      rw [WebSend.step, List.append_nil, pollClosed_fst]
      exact h.payDebt answer writes

/-- The payload taken along a run, in order. -/
def takenBytes (s : WebSend) (ops : List SendOp) : Bytes :=
  (Machine.outputs step s ops).flatten

/-- Only `reset` resets. -/
theorem Framed.run (h : s.Framed header taken code) (ops : List SendOp) :
    ∃ code', (Machine.run WebSend.step s ops).Framed header (taken ++ takenBytes s ops) code' ∧
      ((∀ op ∈ ops, ∀ last, op ≠ .reset last) → code' = code) := by
  induction ops generalizing s taken code with
  | nil =>
      refine ⟨code, ?_, fun _ => rfl⟩
      rw [takenBytes, Machine.outputs, List.flatten_nil, List.append_nil]
      exact h
  | cons op rest ih =>
      have hflat : takenBytes s (op :: rest) = (s.step op).2 ++ takenBytes (s.step op).1 rest := rfl
      rw [hflat, Machine.run_cons, ← List.append_assoc]
      by_cases hreset : ∃ last, op = .reset last
      · obtain ⟨last, rfl⟩ := hreset
        obtain ⟨code', hend, -⟩ := ih (s := (s.step (.reset last)).1) (h.cancel last)
        rw [WebSend.step, List.append_nil]
        exact ⟨code', hend, fun hops => absurd rfl (hops _ List.mem_cons_self last)⟩
      · obtain ⟨code', hend, hsame⟩ := ih (h.step fun last hop => hreset ⟨last, hop⟩)
        exact ⟨code', hend, fun hops => hsame fun op hop => hops op (List.mem_cons_of_mem _ hop)⟩

/-- `finish` has been called and the connection has neither refused the end nor been told of
a reset: the end is on the wire, or it waits for the rest of the header. -/
structure Settled (header taken : Bytes) (s : WebSend) : Prop where
  framed : s.Framed header taken none
  owes : s.inner.fin = true ∨ s.finishing = true ∧ s.owed ≠ []

theorem Settled.isOpen (h : s.Settled header taken) (howed : s.owed ≠ []) :
    s.inner.isOpen = true := by
  have hfin : s.inner.fin = false := by
    rw [← Bool.not_eq_true]
    exact fun hfin => howed (h.framed.fin hfin)
  simp [QuicSend.isOpen, hfin, h.framed.reset]

/-- With the header paid, the end is announced unless it has been before. -/
theorem Framed.finish_inner_fin (h : s.Framed header taken none) :
    (s.inner.finish none).1.fin = true := by
  have hended := h.ended
  unfold QuicSend.finish
  by_cases hfin : s.inner.fin = true
  · have hpast : s.inner.ended = true := by simp [hended, QuicSend.isOpen, hfin]
    rw [if_pos hpast]
    exact hfin
  · have hopen : s.inner.isOpen = true := by
      simp only [Bool.not_eq_true] at hfin
      simp [QuicSend.isOpen, hfin, h.reset]
    rw [if_neg (by simp [hended, hopen]), if_pos hopen]

/-- A call of `finish` settles the stream. -/
theorem Framed.settled (h : s.Framed header taken none) (credit : Nat) :
    (s.finish credit none).1.Settled header taken := by
  refine ⟨h.finish credit none, ?_⟩
  unfold WebSend.finish
  split_ifs with howed
  · exact Or.inl h.finish_inner_fin
  rw [s.inner.tryWrite_eq credit s.owed]
  dsimp only
  split_ifs with hpaid
  · exact Or.inl (h.paid _ s.finishing).finish_inner_fin
  · exact Or.inr ⟨rfl, hpaid⟩

theorem payDebt_of_fin (hfin : s.inner.fin = true) (answer : Option Error)
    (writes : List WriteAnswer) : (s.payDebt answer writes).1 = s := by
  cases writes with
  | nil => rfl
  | cons write rest =>
      unfold payDebt
      split_ifs with hfinishing
      · have hwritten := s.inner.written write s.owed
        generalize s.inner.pollWrite write s.owed = result at hwritten ⊢
        cases hwritten with
        | took n hopen => simp [QuicSend.isOpen, hfin] at hopen
        | kept result hresult =>
            obtain rfl | ⟨e, rfl⟩ := Poll.pending_or_error hresult
            · rfl
            · rfl
      · rfl

theorem Settled.payDebt (h : s.Settled header taken) (writes : List WriteAnswer) :
    (s.payDebt none writes).1.Settled header taken := by
  induction writes generalizing s with
  | nil => exact h
  | cons write rest ih =>
      obtain hfin | ⟨hfinishing, howed⟩ := h.owes
      · rw [payDebt_of_fin hfin]
        exact h
      unfold WebSend.payDebt
      rw [if_pos hfinishing]
      have hwritten := s.inner.written write s.owed
      generalize s.inner.pollWrite write s.owed = result at hwritten ⊢
      cases hwritten with
      | kept result hresult =>
          obtain rfl | ⟨e, rfl⟩ := Poll.pending_or_error hresult
          · exact h
          · exact h
      | took n =>
          dsimp only
          by_cases hpaid : s.owed.drop n = []
          · rw [if_pos hpaid]
            have hframed := h.framed.paid n false
            have hfin := hframed.finish_inner_fin
            have hnext := hframed.finish_inner hpaid none
            dsimp only at hfin hnext
            rcases hfinish : QuicSend.finish _ none with ⟨inner, e | u⟩
            · rw [hfinish] at hfin hnext
              exact ⟨hnext, Or.inl hfin⟩
            · cases u
              rw [hfinish] at hfin hnext
              exact ih ⟨hnext, Or.inl hfin⟩
          · rw [if_neg hpaid]
            exact ih ⟨h.framed.paid n s.finishing, Or.inr ⟨hfinishing, hpaid⟩⟩

theorem payHeader_paid (howed : s.owed = []) (answers : List WriteAnswer) :
    s.payHeader answers = (s, answers, .ready (.ok ())) := by
  cases answers with
  | nil => simp [payHeader, howed]
  | cons answer rest => simp [payHeader, howed]

/-- No payload is taken any more. -/
theorem Settled.write (h : s.Settled header taken) (answers : List WriteAnswer) (buf : Bytes) :
    s.step (.write answers buf) = (s, []) := by
  unfold WebSend.step WebSend.pollWrite
  dsimp only
  by_cases hfinishing : s.finishing = true
  · rw [if_pos hfinishing]
  rw [if_neg hfinishing]
  have hfin : s.inner.fin = true := h.owes.resolve_right fun h => hfinishing h.1
  rw [payHeader_paid (h.framed.fin hfin)]
  dsimp only
  have hwritten := s.inner.written (answers.headD .pending) buf
  generalize s.inner.pollWrite (answers.headD .pending) buf = result at hwritten ⊢
  cases hwritten with
  | took n hopen => simp [QuicSend.isOpen, hfin] at hopen
  | kept result hresult =>
      obtain rfl | ⟨e, rfl⟩ := Poll.pending_or_error hresult
      · rfl
      · rfl

theorem Settled.step (h : s.Settled header taken) {op : SendOp} (hop : op.Unrefused) :
    (s.step op).1.Settled header taken ∧ (s.step op).2 = [] := by
  cases op with
  | write answers buf =>
      rw [h.write answers buf]
      exact ⟨h, rfl⟩
  | finish credit answer =>
      obtain rfl : answer = none := hop
      exact ⟨h.framed.settled credit, rfl⟩
  | reset code => exact hop.elim
  | pollClosed writes answer closed =>
      obtain rfl : answer = none := hop
      rw [WebSend.step, pollClosed_fst]
      exact ⟨h.payDebt writes, rfl⟩

theorem Settled.run (h : s.Settled header taken) {ops : List SendOp}
    (hops : ∀ op ∈ ops, op.Unrefused) :
    (Machine.run WebSend.step s ops).Settled header taken ∧ takenBytes s ops = [] := by
  induction ops generalizing s with
  | nil => exact ⟨h, rfl⟩
  | cons op rest ih =>
      obtain ⟨hnext, hnone⟩ := h.step (hops op List.mem_cons_self)
      obtain ⟨hend, hrest⟩ := ih hnext fun op hop => hops op (List.mem_cons_of_mem _ hop)
      refine ⟨hend, ?_⟩
      rw [takenBytes, Machine.outputs, List.flatten_cons, hnone]
      exact hrest

theorem tryWrite_of_open {q : QuicSend} (hopen : q.isOpen = true) (hended : q.ended = false)
    (credit : Nat) (buf : Bytes) : (q.tryWrite credit buf).2 = min credit buf.length := by
  simp [QuicSend.tryWrite, hopen, hended]

/-- Credit for what is owed pays the debt, in however many pieces it comes. -/
theorem Settled.fin_of_credit (h : s.Settled header taken) {ns : List Nat}
    (hcredit : s.owed.length ≤ ns.sum) :
    (s.payDebt none (ns.map .accepted)).1.inner.fin = true := by
  induction ns generalizing s with
  | nil =>
      obtain hfin | ⟨-, howed⟩ := h.owes
      · exact hfin
      · exact absurd (List.length_eq_zero_iff.mp (Nat.le_zero.mp hcredit)) howed
  | cons n rest ih =>
      obtain hfin | ⟨hfinishing, howed⟩ := h.owes
      · rw [payDebt_of_fin hfin]
        exact hfin
      rw [List.map_cons, WebSend.payDebt, if_pos hfinishing, QuicSend.pollWrite]
      dsimp only
      rw [if_pos (h.isOpen howed)]
      dsimp only
      have hframed := h.framed.paid n
      by_cases hpaid : s.owed.drop (min n s.owed.length) = []
      · rw [if_pos hpaid]
        have hfin := (hframed false).finish_inner_fin
        rcases hfinish : QuicSend.finish _ none with ⟨inner, e | u⟩
        · rw [hfinish] at hfin
          exact hfin
        · cases u
          rw [hfinish] at hfin
          rw [payDebt_of_fin hfin]
          exact hfin
      · rw [if_neg hpaid]
        refine ih ⟨?_, Or.inr ⟨hfinishing, hpaid⟩⟩ ?_
        · rw [List.take_eq_take_min]
          exact h.framed.paid _ s.finishing
        · rw [List.length_drop]
          rw [List.sum_cons] at hcredit
          omega

theorem Framed.ended_of_fin (h : s.Framed header taken code) (hfin : s.inner.fin = true) :
    s.inner.ended = true := by
  rw [h.ended, QuicSend.isOpen, hfin]
  rfl

theorem Framed.wire_of_fin (h : s.Framed header taken code) (hfin : s.inner.fin = true) :
    s.inner.wire = header ++ taken := by
  rw [← h.conserved, h.fin hfin, List.append_nil]

theorem Settled.ended (h : s.Settled header taken) (howed : s.owed ≠ []) :
    s.inner.ended = false := by
  rw [h.framed.ended, h.isOpen howed]
  rfl

/-- Dropped with credit for what is owed, the stream ends cleanly. -/
theorem Settled.drop_of_credit (h : s.Settled header taken) {credit : Nat}
    (hcredit : s.owed.length ≤ credit) (last : Nat) :
    (s.drop credit none last).inner.fin = true ∧
      (s.drop credit none last).Framed header taken none := by
  unfold WebSend.drop
  by_cases hfinishing : s.finishing = true
  · have hpaid : s.owed.drop (s.inner.tryWrite credit s.owed).2 = [] := by
      by_cases howed : s.owed = []
      · rw [howed, List.drop_nil]
      · rw [tryWrite_of_open (h.isOpen howed) (h.ended howed), Nat.min_eq_right hcredit,
          List.drop_length]
    have hframed := h.framed.paid (s.inner.tryWrite credit s.owed).2 s.finishing
    have hfin := hframed.finish_inner_fin
    have hnext := hframed.finish_inner hpaid none
    rw [if_pos hfinishing, s.inner.tryWrite_eq credit s.owed]
    dsimp only at hfin hnext ⊢
    rw [if_pos hpaid, if_pos (hnext.ended_of_fin hfin)]
    exact ⟨hfin, hnext⟩
  · have hfin : s.inner.fin = true := h.owes.resolve_right fun h => hfinishing h.1
    rw [if_neg hfinishing]
    dsimp only
    rw [if_pos (h.framed.ended_of_fin hfin)]
    exact ⟨hfin, h.framed⟩

/-- Without it, the stream is cancelled, and what went out is a part of the header. -/
theorem Settled.drop_of_debt (h : s.Settled header taken) {credit : Nat}
    (hcredit : credit < s.owed.length) (last : Nat) :
    (s.drop credit none last).inner.fin = false ∧
      (s.drop credit none last).inner.resetCode =
        some (min (if s.web then last else 0) (2 ^ 62 - 1)) ∧
      (s.drop credit none last).inner.wire <+: header := by
  have howed : s.owed ≠ [] := by
    rintro hnone
    rw [hnone] at hcredit
    exact absurd hcredit (Nat.not_lt_zero credit)
  have hfin : s.inner.fin = false := by
    rw [← Bool.not_eq_true]
    exact fun hfin => howed (h.framed.fin hfin)
  have hfinishing : s.finishing = true :=
    (h.owes.resolve_left fun hpast => by rw [hfin] at hpast; cases hpast).1
  have hleft : s.owed.drop (s.inner.tryWrite credit s.owed).2 ≠ [] := by
    rw [tryWrite_of_open (h.isOpen howed) (h.ended howed), Ne, List.drop_eq_nil_iff]
    omega
  have hframed := h.framed.paid (s.inner.tryWrite credit s.owed).2 s.finishing
  have hwire := hframed.conserved
  rw [hframed.taken_eq_nil hleft, List.append_nil] at hwire
  unfold WebSend.drop
  rw [if_pos hfinishing, s.inner.tryWrite_eq credit s.owed]
  dsimp only at hwire ⊢
  rw [if_neg hleft]
  dsimp only
  rw [h.ended howed, if_neg Bool.false_ne_true]
  cases hweb : s.web with
  | true =>
      rw [if_pos rfl, if_pos rfl]
      exact ⟨hfin, by rw [QuicSend.reset, h.framed.reset]; rfl, ⟨_, hwire⟩⟩
  | false =>
      rw [if_neg Bool.false_ne_true, if_neg Bool.false_ne_true]
      exact ⟨hfin, by rw [QuicSend.reset, h.framed.reset]; rfl, ⟨_, hwire⟩⟩

theorem Framed.finish_inner_ok (h : s.Framed header taken code) :
    (s.inner.finish none).2 = .ok () := by
  have hended := h.ended
  unfold QuicSend.finish
  by_cases hpast : s.inner.ended = true
  · rw [if_pos hpast]
  · rw [if_neg hpast]
    rw [if_pos (by simpa [hended] using hpast)]

/-- `finish` succeeds without credit for the header too. -/
theorem Framed.finish_ok (h : s.Framed header taken code) (credit : Nat) :
    (s.finish credit none).2 = .ok () := by
  unfold WebSend.finish
  split_ifs with howed
  · exact h.finish_inner_ok
  rw [s.inner.tryWrite_eq credit s.owed]
  dsimp only
  split_ifs with hpaid
  · exact (h.paid _ s.finishing).finish_inner_ok
  · rfl

/-- What `finish` has promised is kept: no payload comes after it, and the end goes out behind
the whole header and all of the payload as soon as there is credit for the header, by
`poll_closed` in however many pieces or else by `Drop`. Only a stream dropped before that is
cancelled. -/
theorem finish_honoured (header : Bytes) (before after : List SendOp) (credit : Nat)
    (hbefore : ∀ op ∈ before, ∀ code, op ≠ .reset code) (hafter : ∀ op ∈ after, op.Unrefused) :
    let taken := takenBytes (opened header) before
    let first := (Machine.run step (opened header) before).finish credit none
    let last := Machine.run step first.1 after
    first.2 = .ok () ∧ takenBytes first.1 after = [] ∧
    (last.inner.fin = true ∧ last.inner.wire = header ++ taken ∨
      last.finishing = true ∧ last.owed ≠ [] ∧ taken = [] ∧ last.inner.wire ++ last.owed = header) ∧
    (∀ (ns : List Nat) (closed : Poll Unit), last.owed.length ≤ ns.sum →
      (last.pollClosed (ns.map .accepted) none closed).1.inner.fin = true ∧
      (last.pollClosed (ns.map .accepted) none closed).1.inner.wire = header ++ taken) ∧
    (∀ credit code, last.owed.length ≤ credit →
      (last.drop credit none code).inner.fin = true ∧
      (last.drop credit none code).inner.resetCode = none ∧
      (last.drop credit none code).inner.wire = header ++ taken) ∧
    (∀ credit code, credit < last.owed.length →
      (last.drop credit none code).inner.fin = false ∧
      (last.drop credit none code).inner.resetCode =
        some (min (if last.web then code else 0) (2 ^ 62 - 1)) ∧
      (last.drop credit none code).inner.wire <+: header) := by
  intro taken first last
  obtain ⟨code, hbegun, hcode⟩ := (framed_opened header).run before
  obtain rfl := hcode hbefore
  obtain ⟨hlast, hnone⟩ := (hbegun.settled credit).run hafter
  rw [List.nil_append] at hlast
  refine ⟨hbegun.finish_ok credit, hnone, ?_, ?_, ?_, ?_⟩
  · obtain hfin | ⟨hfinishing, howed⟩ := hlast.owes
    · exact Or.inl ⟨hfin, hlast.framed.wire_of_fin hfin⟩
    · have hwire := hlast.framed.conserved
      rw [hlast.framed.taken_eq_nil howed, List.append_nil] at hwire
      exact Or.inr ⟨hfinishing, howed, hlast.framed.taken_eq_nil howed, hwire⟩
  · intro ns closed hcredit
    rw [pollClosed_fst]
    have hfin := hlast.fin_of_credit hcredit
    exact ⟨hfin, (hlast.payDebt _).framed.wire_of_fin hfin⟩
  · intro credit code hcredit
    obtain ⟨hfin, hframed⟩ := hlast.drop_of_credit hcredit code
    exact ⟨hfin, hframed.reset, hframed.wire_of_fin hfin⟩
  · intro credit code hcredit
    exact hlast.drop_of_debt hcredit code

end WebSend

/-- One byte of the header fits before the end of a stream that no payload was written to. -/
def owedHeader : Bytes := [0x40, 0x54, 0]

theorem finish_honoured_of_debt :
    let first := (Machine.run WebSend.step (.opened owedHeader)
      [.write [.accepted 1, .pending] [7]]).finish 0 none
    let last := Machine.run WebSend.step first.1 [.pollClosed [.pending] none .pending]
    last.owed.length = 2 ∧ (last.drop 2 none 9).inner.wire = owedHeader ∧
      (last.drop 1 none 9).inner.resetCode = some 9 := by
  have h := WebSend.finish_honoured owedHeader [.write [.accepted 1, .pending] [7]]
    [.pollClosed [.pending] none .pending] 0 (by simp) (by decide)
  exact ⟨rfl, (h.2.2.2.2.1 2 9 (by decide)).2.2, (h.2.2.2.2.2 1 9 (by decide)).2.1⟩

end Transport

end Tidkod
