import Mathlib.Tactic
import Tidkod.Native.Varint
import Tidkod.Native.WebSend

/-!
Incoming streams of a WebTransport session (`PendingUni` and `PendingBi` of
`transport/web.rs`). A stream leads with a type, and a WebTransport stream then names its
session. The header is read as it arrives, and what follows it is left to the application,
which reads the same QUIC stream once it has accepted it.
-/

namespace Tidkod

namespace Transport

open Proto3 PrefixDecoder RecvStream

def frameWebtransport : Nat := 0x41
def streamWebtransport : Nat := 0x54
def streamControl : Nat := 0x00
def streamQpackEncoder : Nat := 0x02
def streamQpackDecoder : Nat := 0x03

/-- What an incoming unidirectional stream's header says it is. -/
inductive UniClass where
  | control
  | qpack
  | web (session : Nat)
  | unknown
  deriving DecidableEq

/-- How the streams of one direction are told apart: by the type that leads a WebTransport
stream, by every other type, and when the stream ends within its header. -/
structure HeaderKind (γ : Type) where
  leading : Nat
  web : Nat → γ
  other : Nat → γ
  short : γ
  web_ne_short : ∀ session, web session ≠ short

def uniKind : HeaderKind UniClass where
  leading := streamWebtransport
  web := .web
  other typ :=
    if typ = streamControl then .control
    else if typ = streamQpackEncoder ∨ typ = streamQpackDecoder then .qpack
    else .unknown
  short := .unknown
  web_ne_short := fun _ => UniClass.noConfusion

/-- `Some(session)` for a WebTransport stream, `None` for anything else. -/
def biKind : HeaderKind (Option Nat) where
  leading := frameWebtransport
  web := some
  other _ := none
  short := none
  web_ne_short := Option.some_ne_none

/-- What a WebTransport stream of the kind leads with, in `Session::establish`. -/
def HeaderKind.header {γ : Type} (k : HeaderKind γ) (session : Nat) : Bytes :=
  encodeVarint k.leading ++ encodeVarint session

/-- The session id behind the leading type. -/
def HeaderKind.decodeSession {γ : Type} (k : HeaderKind γ) :
    Bytes → Except Error (Option (γ × Bytes)) :=
  andThen varintDecoder fun session rest => .ok (some (k.web session, rest))

/-- The header as it stands on a whole stream. -/
def HeaderKind.decodeHeader {γ : Type} (k : HeaderKind γ) :
    Bytes → Except Error (Option (γ × Bytes)) :=
  andThen varintDecoder fun typ =>
    if typ = k.leading then k.decodeSession else fun rest => .ok (some (k.other typ, rest))

/-- An incoming stream mid-header, of either direction. -/
structure PendingHeader (σ : Type) where
  recv : Connected σ
  typ : VarRead
  session : VarRead
  typValue : Option Nat

namespace PendingHeader

variable {σ γ : Type}

def new (recv : Connected σ) : PendingHeader σ := ⟨recv, .default, .default, none⟩

variable (q : ChunkReader σ) (k : HeaderKind γ)

/-- The second half of `poll_classify`, once the type is known. -/
def pollSession (p : PendingHeader σ) (typ waker : Nat) : PendingHeader σ × Option γ :=
  if typ = k.leading then
    match p.session.poll q p.recv waker with
    | (session, recv, none) => ({ p with session := session, recv := recv }, none)
    | (session, recv, some (.value n)) =>
        ({ p with session := session, recv := recv }, some (k.web n))
    | (session, recv, some .ended) => ({ p with session := session, recv := recv }, some k.short)
  else (p, some (k.other typ))

/-- `poll_classify`. -/
def pollClassify (p : PendingHeader σ) (waker : Nat) : PendingHeader σ × Option γ :=
  match p.typValue with
  | some typ => p.pollSession q k typ waker
  | none =>
      match p.typ.poll q p.recv waker with
      | (typ, recv, none) => ({ p with typ := typ, recv := recv }, none)
      | (typ, recv, some (.value n)) =>
          pollSession q k { p with typ := typ, recv := recv, typValue := some n } n waker
      | (typ, recv, some .ended) => ({ p with typ := typ, recv := recv }, some k.short)

end PendingHeader

/-- An incoming stream through its life: its header is read, and then it is. -/
structure Incoming (σ γ : Type) where
  header : PendingHeader σ
  result : Option γ

inductive IncomingOp (σ : Type) where
  | classify (waker : Nat)
  | stream (op : StreamOp σ)

/-- The connection is left without an error. -/
def IncomingOp.Quiet {σ : Type} : IncomingOp σ → Prop
  | .stream (.outside _ shared) => shared.error = none
  | _ => True

namespace Incoming

variable {σ γ : Type}

def new (recv : Connected σ) : Incoming σ γ := ⟨.new recv, none⟩

variable (q : ChunkReader σ) (k : HeaderKind γ)

/-- The bytes handed to the application. -/
def step (s : Incoming σ γ) : IncomingOp σ → Incoming σ γ × Bytes
  | .classify waker =>
      match s.result with
      | some _ => (s, [])
      | none =>
          let (header, result) := s.header.pollClassify q k waker
          (⟨header, result⟩, [])
  | .stream op =>
      let (recv, b) := RecvStream.step q s.header.recv op
      ({ s with header := { s.header with recv := recv } }, b)

variable (unread : σ → Bytes) (finished : σ → Bool)

/-- Only a WebTransport stream of this session is accepted, and only then read. The peer sends
at any time. -/
def Admits (session : Nat) (s : Incoming σ γ) : IncomingOp σ → Prop
  | .classify _ => True
  | .stream (.outside proto shared) =>
      PeerSends unread finished s.header.recv (.outside proto shared)
  | .stream _ => s.result = some (k.web session)

instance [DecidableEq γ] (session : Nat) (s : Incoming σ γ) (op : IncomingOp σ) :
    Decidable (Admits k unread finished session s op) :=
  match op with
  | .classify _ => inferInstanceAs (Decidable True)
  | .stream (.outside proto shared) =>
      inferInstanceAs (Decidable (PeerSends unread finished s.header.recv (.outside proto shared)))
  | .stream (.pollRead _ _) => inferInstanceAs (Decidable (_ = _))
  | .stream (.pollClosed _) => inferInstanceAs (Decidable (_ = _))

/-- The bytes the peer has sent so far, the header included. -/
def noteSent (sent : Bytes) (s : Incoming σ γ) : IncomingOp σ → Bytes
  | .classify _ => sent
  | .stream op => RecvStream.noteSent unread sent s.header.recv op

end Incoming

namespace HeaderKind

variable {γ : Type} (k : HeaderKind γ)

theorem decodeSession_stable : Stable k.decodeSession :=
  varintDecoder_stable.andThen fun _ => stable_pure _

theorem decodeHeader_stable : Stable k.decodeHeader := by
  refine varintDecoder_stable.andThen fun typ => ?_
  split_ifs
  · exact k.decodeSession_stable
  · exact stable_pure _

theorem decodeHeader_of_typ {xs rest : Bytes} {typ : Nat} (h : decodeVarint xs = some (typ, rest)) :
    k.decodeHeader xs =
      if typ = k.leading then k.decodeSession rest else .ok (some (k.other typ, rest)) := by
  rw [decodeHeader, andThen_of_item (congrArg Except.ok h)]
  split_ifs
  · rfl
  · rfl

theorem decodeSession_of_value {xs rest : Bytes} {n : Nat} (h : decodeVarint xs = some (n, rest)) :
    k.decodeSession xs = .ok (some (k.web n, rest)) :=
  andThen_of_item (congrArg Except.ok h)

theorem decodeHeader_short {xs : Bytes} (h : decodeVarint xs = none) :
    k.decodeHeader xs = .ok none := by
  rw [decodeHeader, andThen, varintDecoder, h]

theorem decodeSession_short {xs : Bytes} (h : decodeVarint xs = none) :
    k.decodeSession xs = .ok none := by
  rw [decodeSession, andThen, varintDecoder, h]

/-- A header is read back, and what follows it is left. -/
theorem decodeHeader_header (hleading : k.leading < 2 ^ 62) {session : Nat}
    (hsession : session < 2 ^ 62) (payload : Bytes) :
    k.decodeHeader (k.header session ++ payload) = .ok (some (k.web session, payload)) := by
  rw [header, List.append_assoc, k.decodeHeader_of_typ (decodeVarint_encodeVarint hleading _),
    if_pos rfl, k.decodeSession_of_value (decodeVarint_encodeVarint hsession _)]

end HeaderKind

namespace PendingHeader

variable {σ γ : Type} {q : ChunkReader σ} {unread : σ → Bytes} {finished : σ → Bool}
  {k : HeaderKind γ} {sent : Bytes} {p : PendingHeader σ}

/-- The integers hold what has been read of the header, and the rest of the stream is still to
be read. -/
structure Reading (unread : σ → Bytes) (finished : σ → Bool) (k : HeaderKind γ) (sent : Bytes)
    (p : PendingHeader σ) : Prop where
  sane : Sane unread finished p.recv
  typ : p.typValue = none →
    p.typ.Within ∧ p.session = .default ∧ p.typ.buf ++ remaining unread p.recv = sent
  session : ∀ typ, p.typValue = some typ → typ = k.leading ∧ p.session.Within ∧
    decodeVarint sent = some (typ, p.session.buf ++ remaining unread p.recv)

theorem pollSession_error (p : PendingHeader σ) (typ waker : Nat) :
    (p.pollSession q k typ waker).1.recv.shared.error = p.recv.shared.error := by
  unfold pollSession
  split_ifs
  · have herror := VarRead.pollRounds_error (q := q) 9 p.session p.recv waker
    unfold VarRead.poll
    generalize VarRead.pollRounds q 9 p.session p.recv waker = result at herror ⊢
    rcases result with ⟨session, recv, _ | n | _⟩
    · exact herror
    · exact herror
    · exact herror
  · rfl

theorem pollClassify_error (p : PendingHeader σ) (waker : Nat) :
    (p.pollClassify q k waker).1.recv.shared.error = p.recv.shared.error := by
  unfold pollClassify
  cases p.typValue with
  | some typ => exact p.pollSession_error typ waker
  | none =>
      have herror := VarRead.pollRounds_error (q := q) 9 p.typ p.recv waker
      unfold VarRead.poll
      generalize VarRead.pollRounds q 9 p.typ p.recv waker = result at herror ⊢
      rcases result with ⟨typ, recv, _ | n | _⟩
      · exact herror
      · exact (pollSession_error _ n waker).trans herror
      · exact herror

theorem reading_new (proto : σ) (shared : Shared) :
    Reading unread finished k (unread proto) (new (RecvStream.new proto shared)) where
  sane := sane_new proto shared
  typ := fun _ => ⟨VarRead.within_default, rfl, rfl⟩
  session := fun _ h => by cases h

/-- What classifying leaves, by its result. -/
inductive ClassifyStep (q : ChunkReader σ) (unread : σ → Bytes) (finished : σ → Bool)
    (k : HeaderKind γ) (sent : Bytes) (error : Option Error) (waker : Nat) :
    PendingHeader σ × Option γ → Prop where
  | classified (next : PendingHeader σ) (c : γ) (hsane : Sane unread finished next.recv)
      (hheader : k.decodeHeader sent = .ok (some (c, remaining unread next.recv))) :
      ClassifyStep q unread finished k sent error waker (next, some c)
  | ended (next : PendingHeader σ) (hfinished : finished next.recv.proto = true)
      (hheader : k.decodeHeader sent = .ok none) :
      ClassifyStep q unread finished k sent error waker (next, some k.short)
  | failed (next : PendingHeader σ) (e : Error)
      (hfault : error = some e ∨ ¬ ChunkReader.Reliable q) :
      ClassifyStep q unread finished k sent error waker (next, some k.short)
  | pending (next : PendingHeader σ) (hreading : Reading unread finished k sent next)
      (hparked : waker ∈ next.recv.shared.waiters) :
      ClassifyStep q unread finished k sent error waker (next, none)

/-- With the type known, all that is left to read is the session. -/
theorem pollSession_step (hq : q.Ordered unread finished) (hsane : Sane unread finished p.recv)
    {typ : Nat} (htyp : p.typValue = some typ) (hwithin : p.session.Within)
    (hfresh : typ ≠ k.leading → p.session = .default)
    (hsent : decodeVarint sent = some (typ, p.session.buf ++ remaining unread p.recv))
    (waker : Nat) :
    ClassifyStep q unread finished k sent p.recv.shared.error waker
      (p.pollSession q k typ waker) := by
  have hheader := k.decodeHeader_of_typ hsent
  unfold pollSession
  by_cases hleading : typ = k.leading
  · rw [if_pos hleading] at hheader ⊢
    have hpoll := VarRead.poll_step hq hwithin hsane waker
    generalize p.session.poll q p.recv waker = result at hpoll ⊢
    cases hpoll with
    | value session recv n hnext hvalue =>
        exact .classified _ _ hnext (hheader.trans (k.decodeSession_of_value hvalue))
    | ended session recv hfinished hshort =>
        exact .ended _ hfinished (hheader.trans (k.decodeSession_short hshort))
    | died session recv e hfault => exact .failed _ e hfault
    | pending session recv hnext hwithin' hshort hkept hparked =>
        refine .pending _ ⟨hnext, fun hnone => ?_, fun typ' htyp' => ?_⟩ hparked
        · rw [htyp] at hnone
          cases hnone
        · obtain rfl : typ = typ' := Option.some.inj (htyp.symm.trans htyp')
          exact ⟨hleading, hwithin', by rw [hkept]; exact hsent⟩
  · rw [if_neg hleading] at hheader ⊢
    rw [hfresh hleading] at hheader
    exact .classified _ _ hsane hheader

theorem Reading.pollClassify (h : Reading unread finished k sent p)
    (hq : q.Ordered unread finished) (waker : Nat) :
    ClassifyStep q unread finished k sent p.recv.shared.error waker
      (p.pollClassify q k waker) := by
  unfold PendingHeader.pollClassify
  cases htyp : p.typValue with
  | some typ =>
      obtain ⟨hleading, hwithin, hsent⟩ := h.session typ htyp
      exact pollSession_step hq h.sane htyp hwithin (fun hother => absurd hleading hother) hsent
        waker
  | none =>
      obtain ⟨hwithin, hfresh, hsent⟩ := h.typ htyp
      have hpoll := VarRead.poll_step hq hwithin h.sane waker
      have herror := VarRead.pollRounds_error (q := q) 9 p.typ p.recv waker
      unfold VarRead.poll at hpoll ⊢
      generalize VarRead.pollRounds q 9 p.typ p.recv waker = result at hpoll herror ⊢
      cases hpoll with
      | value typ recv n hnext hvalue =>
          rw [hsent] at hvalue
          have hstep := pollSession_step (k := k) (p := ⟨recv, typ, p.session, some n⟩) hq hnext rfl
            (by rw [hfresh]; exact VarRead.within_default) (fun _ => hfresh)
            (by rw [hfresh]; exact hvalue) waker
          dsimp only at herror hstep
          rw [herror] at hstep
          exact hstep
      | ended typ recv hfinished hshort =>
          rw [hsent] at hshort
          exact .ended _ hfinished (k.decodeHeader_short hshort)
      | died typ recv e hfault => exact .failed _ e hfault
      | pending typ recv hnext hwithin' hshort hkept hparked =>
          exact .pending _ ⟨hnext, fun _ => ⟨hwithin', hfresh, hkept.trans hsent⟩,
            fun typ' htyp' => by cases htyp'⟩ hparked

/-- While the header is read, the peer may send more of the stream. -/
theorem Reading.outside (h : Reading unread finished k sent p) {proto : σ} {shared : Shared}
    (hsends : PeerSends unread finished p.recv (.outside proto shared)) :
    Reading unread finished k
      (RecvStream.noteSent unread sent p.recv (.outside proto shared))
      { p with recv := { p.recv with proto := proto, shared := shared } } := by
  have hnext := Faithful.outside h.sane hsends
  have hremaining := hnext.remaining_eq
  rw [List.nil_append, RecvStream.noteSent] at hremaining
  rw [RecvStream.noteSent]
  refine ⟨hnext.sane, fun htyp => ?_, fun typ htyp => ?_⟩
  · obtain ⟨hwithin, hfresh, hsent⟩ := h.typ htyp
    exact ⟨hwithin, hfresh, by rw [← hremaining, ← List.append_assoc, hsent]⟩
  · obtain ⟨hleading, hwithin, hsent⟩ := h.session typ htyp
    refine ⟨hleading, hwithin, ?_⟩
    rw [decodeVarint_append hsent, ← hremaining, List.append_assoc]

end PendingHeader

namespace Incoming

variable {σ γ : Type} {q : ChunkReader σ} {unread : σ → Bytes} {finished : σ → Bool}
  {k : HeaderKind γ} {sent returned : Bytes} {s : Incoming σ γ}

/-- The stream against the bytes sent on it: its header is still being read; or it is known
what the header says, and the bytes returned are from what follows it; or the stream ended
within its header; or it failed there. -/
inductive Tracks (q : ChunkReader σ) (unread : σ → Bytes) (finished : σ → Bool)
    (k : HeaderKind γ) (quiet : Prop) (sent : Bytes) : Bytes → Incoming σ γ → Prop where
  | reading (header : PendingHeader σ) (hreading : header.Reading unread finished k sent)
      (hquiet : quiet → header.recv.shared.error = none) :
      Tracks q unread finished k quiet sent [] ⟨header, none⟩
  | classified (header : PendingHeader σ) (c : γ) (rest returned : Bytes)
      (hheader : k.decodeHeader sent = .ok (some (c, rest)))
      (hfaithful : Faithful unread finished rest returned header.recv) :
      Tracks q unread finished k quiet sent returned ⟨header, some c⟩
  | ended (header : PendingHeader σ) (hfinished : finished header.recv.proto = true)
      (hheader : k.decodeHeader sent = .ok none) :
      Tracks q unread finished k quiet sent [] ⟨header, some k.short⟩
  | failed (header : PendingHeader σ) (htrouble : quiet → ¬ ChunkReader.Reliable q) :
      Tracks q unread finished k quiet sent [] ⟨header, some k.short⟩

theorem Tracks.classify {quiet : Prop} (h : Tracks q unread finished k quiet sent returned s)
    (hq : q.Ordered unread finished) (waker : Nat) :
    Tracks q unread finished k quiet sent returned (step q k s (.classify waker)).1 := by
  cases h with
  | classified header c rest returned hheader hfaithful =>
      exact .classified header c rest returned hheader hfaithful
  | ended header hfinished hheader => exact .ended header hfinished hheader
  | failed header htrouble => exact .failed header htrouble
  | reading header hreading hquiet =>
      have hstep := hreading.pollClassify hq waker
      have herror := header.pollClassify_error (q := q) (k := k) waker
      unfold step
      dsimp only
      generalize header.pollClassify q k waker = result at hstep herror ⊢
      cases hstep with
      | classified next c hsane hheader => exact .classified next c _ [] hheader hsane
      | ended next hfinished hheader => exact .ended next hfinished hheader
      | failed next e hfault =>
          refine .failed next fun hq => ?_
          rw [hquiet hq] at hfault
          exact hfault.resolve_left fun h => by cases h
      | pending next hnext hparked =>
          exact .reading next hnext fun hq => herror.trans (hquiet hq)

theorem Tracks.outside {quiet : Prop} (h : Tracks q unread finished k quiet sent returned s)
    {proto : σ} {shared : Shared}
    (hsends : PeerSends unread finished s.header.recv (.outside proto shared))
    (hquiet' : quiet → shared.error = none) :
    Tracks q unread finished k quiet
      (noteSent unread sent s (.stream (.outside proto shared))) returned
      (step q k s (.stream (.outside proto shared))).1 := by
  cases h with
  | reading header hreading hquiet => exact .reading _ (hreading.outside hsends) hquiet'
  | classified header c rest returned hheader hfaithful =>
      have hnext := hfaithful.outside hsends
      refine .classified _ c _ returned ?_ hnext
      exact k.decodeHeader_stable.item hheader _
  | ended header hfinished hheader =>
      obtain ⟨hsame, hfinished'⟩ := hsends.2 hfinished
      refine .ended _ hfinished' ?_
      rw [noteSent, RecvStream.noteSent, hsame, List.drop_length, List.append_nil]
      exact hheader
  | failed header htrouble => exact .failed _ htrouble

/-- Only what has been classified is read. -/
theorem Tracks.read {quiet : Prop} (h : Tracks q unread finished k quiet sent returned s)
    (hq : q.Ordered unread finished) {session : Nat} (haccepted : s.result = some (k.web session))
    {op : StreamOp σ} (hop : ∀ proto shared, op ≠ .outside proto shared) :
    Tracks q unread finished k quiet sent (returned ++ (step q k s (.stream op)).2)
      (step q k s (.stream op)).1 := by
  cases h with
  | reading header => cases haccepted
  | ended header => exact absurd (Option.some.inj haccepted).symm (k.web_ne_short session)
  | failed header => exact absurd (Option.some.inj haccepted).symm (k.web_ne_short session)
  | classified header c rest returned hheader hfaithful =>
      cases op with
      | outside proto shared => exact absurd rfl (hop proto shared)
      | pollRead waker len =>
          have hnext := Faithful.step hfaithful hq
            (show PeerSends _ _ _ (.pollRead waker len) from trivial)
          exact .classified _ c rest _ hheader hnext
      | pollClosed waker =>
          have hnext := Faithful.step hfaithful hq
            (show PeerSends _ _ _ (.pollClosed waker) from trivial)
          exact .classified _ c rest _ hheader hnext

theorem Tracks.step {quiet : Prop} (h : Tracks q unread finished k quiet sent returned s)
    (hq : q.Ordered unread finished) {session : Nat} {op : IncomingOp σ}
    (hadmits : Admits k unread finished session s op) (hquiet : quiet → op.Quiet) :
    Tracks q unread finished k quiet (noteSent unread sent s op)
      (returned ++ (Incoming.step q k s op).2) (Incoming.step q k s op).1 := by
  match op with
  | .classify waker =>
      have hnone : (Incoming.step q k s (.classify waker)).2 = [] := by
        unfold Incoming.step
        cases s.result with
        | some c => rfl
        | none => rfl
      rw [hnone, List.append_nil]
      exact h.classify hq waker
  | .stream (.outside proto shared) =>
      have hnext := h.outside hadmits hquiet
      rw [Incoming.step, RecvStream.step, List.append_nil]
      exact hnext
  | .stream (.pollRead waker len) => exact h.read hq hadmits fun _ _ h => by cases h
  | .stream (.pollClosed waker) => exact h.read hq hadmits fun _ _ h => by cases h

/-- What the application has been given along a run, in order. -/
def returnedBytes (q : ChunkReader σ) (k : HeaderKind γ) (s : Incoming σ γ)
    (ops : List (IncomingOp σ)) : Bytes :=
  (Machine.outputs (Incoming.step q k) s ops).flatten

/-- What the peer has sent by the end of a run. -/
def sentBytes (q : ChunkReader σ) (k : HeaderKind γ) (unread : σ → Bytes) (s : Incoming σ γ)
    (ops : List (IncomingOp σ)) : Bytes :=
  Machine.record (Incoming.step q k) (noteSent unread) (unread s.header.recv.proto) s ops

theorem Tracks.run {quiet : Prop} (h : Tracks q unread finished k quiet sent returned s)
    (hq : q.Ordered unread finished) {session : Nat} {ops : List (IncomingOp σ)}
    (hadmits : Machine.Along (Incoming.step q k) (Admits k unread finished session) s ops)
    (hquiet : quiet → ∀ op ∈ ops, op.Quiet) :
    Tracks q unread finished k quiet
      (Machine.record (Incoming.step q k) (noteSent unread) sent s ops)
      (returned ++ returnedBytes q k s ops) (Machine.run (Incoming.step q k) s ops) := by
  induction ops generalizing s sent returned with
  | nil =>
      rw [returnedBytes, Machine.outputs, List.flatten_nil, List.append_nil]
      exact h
  | cons op rest ih =>
      have hnext := ih (h.step hq hadmits.1 fun hq => hquiet hq op List.mem_cons_self) hadmits.2
        fun hq op hop => hquiet hq op (List.mem_cons_of_mem _ hop)
      rw [List.append_assoc] at hnext
      exact hnext

theorem tracks_new {quiet : Prop} (proto : σ) {shared : Shared}
    (hquiet : quiet → shared.error = none) :
    Tracks q unread finished k quiet (unread proto) [] (new (RecvStream.new proto shared)) :=
  .reading _ (PendingHeader.reading_new proto shared) hquiet

/-- An incoming stream is taken for what its header says, however the header arrives, or for
noise when it ends or fails before that. The application is given what follows the header
from the first byte on, in order and without loss, and a stream that is left mid-header has
parked whoever asked. -/
theorem header_consumed (hq : q.Ordered unread finished) (k : HeaderKind γ) (session : Nat)
    (proto : σ) (shared : Shared) (ops : List (IncomingOp σ))
    (hadmits : Machine.Along (Incoming.step q k) (Admits k unread finished session)
      (new (RecvStream.new proto shared)) ops) :
    let s := Machine.run (Incoming.step q k) (new (RecvStream.new proto shared)) ops
    let returned := returnedBytes q k (new (RecvStream.new proto shared)) ops
    let sent := sentBytes q k unread (new (RecvStream.new proto shared)) ops
    (s.result = none → returned = [] ∧ ∀ waker,
      (Incoming.step q k s (.classify waker)).1.result = none →
        waker ∈ (Incoming.step q k s (.classify waker)).1.header.recv.shared.waiters) ∧
    (∀ c, s.result = some c →
      (∃ rest, k.decodeHeader sent = .ok (some (c, rest)) ∧ returned <+: rest ∧
        ∀ waker len, (pollRead q s.header.recv waker len).2 = .ready (.ok none) →
          returned = rest ∧ finished (pollRead q s.header.recv waker len).1.proto = true) ∨
      (c = k.short ∧ returned = [] ∧
        ((k.decodeHeader sent = .ok none ∧ finished s.header.recv.proto = true) ∨
          ((shared.error = none ∧ ∀ op ∈ ops, op.Quiet) → ¬ ChunkReader.Reliable q)))) := by
  intro s returned sent
  have hrun : Tracks q unread finished k (shared.error = none ∧ ∀ op ∈ ops, op.Quiet) sent
      returned s :=
    (tracks_new proto fun hquiet => hquiet.1).run hq hadmits fun hquiet => hquiet.2
  generalize s = s, returned = returned, sent = sent at hrun ⊢
  cases hrun with
  | reading header hreading hquiet =>
      refine ⟨fun _ => ⟨rfl, fun waker => ?_⟩, fun c hc => absurd hc.symm (Option.some_ne_none c)⟩
      have hstep := hreading.pollClassify hq waker
      unfold Incoming.step
      dsimp only
      generalize header.pollClassify q k waker = result at hstep ⊢
      cases hstep with
      | pending next hnext hparked => exact fun _ => hparked
      | classified => exact fun hnone => by cases hnone
      | ended => exact fun hnone => by cases hnone
      | failed => exact fun hnone => by cases hnone
  | classified header c rest returned hheader hfaithful =>
      refine ⟨fun hnone => absurd hnone (Option.some_ne_none _), fun c' hc => ?_⟩
      cases hc
      refine Or.inl ⟨rest, hheader, ⟨_, hfaithful.remaining_eq.symm⟩, fun waker len hresult => ?_⟩
      have hpolled := hfaithful.pollRead hq waker len
      generalize pollRead q header.recv waker len = result at hpolled hresult ⊢
      cases hpolled with
      | bytes => cases hresult
      | ended next _ hall hfinished => exact ⟨hall, hfinished⟩
      | nothing next result _ hother => exact absurd hresult (hother _)
  | ended header hfinished hheader =>
      refine ⟨fun hnone => absurd hnone (Option.some_ne_none _), fun c hc => ?_⟩
      cases hc
      exact Or.inr ⟨rfl, rfl, Or.inl ⟨hheader, hfinished⟩⟩
  | failed header htrouble =>
      refine ⟨fun hnone => absurd hnone (Option.some_ne_none _), fun c hc => ?_⟩
      cases hc
      exact Or.inr ⟨rfl, rfl, Or.inr htrouble⟩

/-- What one side writes to a WebTransport stream is what the other reads from it: the header
is recognised and stays out of the payload. `hsent` and `hend` say that the connection carries
the bytes in order, and the end after all of them. -/
theorem framed_stream_delivered (hq : q.Ordered unread finished)
    (hreliable : ChunkReader.Reliable q) (k : HeaderKind γ) (hleading : k.leading < 2 ^ 62)
    {session : Nat} (hsession : session < 2 ^ 62) (sends : List SendOp) (proto : σ)
    (shared : Shared) (hshared : shared.error = none) (ops : List (IncomingOp σ))
    (hadmits : Machine.Along (Incoming.step q k) (Admits k unread finished session)
      (new (RecvStream.new proto shared)) ops)
    (hquiet : ∀ op ∈ ops, op.Quiet)
    (hsent : sentBytes q k unread (new (RecvStream.new proto shared)) ops <+:
      (Machine.run WebSend.step (.opened (k.header session)) sends).inner.wire)
    (hend : finished (Machine.run (Incoming.step q k) (new (RecvStream.new proto shared))
        ops).header.recv.proto = true →
      sentBytes q k unread (new (RecvStream.new proto shared)) ops =
          (Machine.run WebSend.step (.opened (k.header session)) sends).inner.wire ∧
        (Machine.run WebSend.step (.opened (k.header session)) sends).inner.fin = true) :
    let s := Machine.run (Incoming.step q k) (new (RecvStream.new proto shared)) ops
    let returned := returnedBytes q k (new (RecvStream.new proto shared)) ops
    let taken := WebSend.takenBytes (.opened (k.header session)) sends
    returned <+: taken ∧ ∀ c, s.result = some c → c = k.web session ∧
      ∀ waker len, (pollRead q s.header.recv waker len).2 = .ready (.ok none) →
        returned = taken := by
  intro s returned taken
  have hrun : Tracks q unread finished k True
      (sentBytes q k unread (new (RecvStream.new proto shared)) ops) returned s :=
    (tracks_new proto fun _ => hshared).run hq hadmits fun _ => hquiet
  obtain ⟨code, hframed, -⟩ := (WebSend.framed_opened (k.header session)).run sends
  rw [List.nil_append] at hframed
  change finished s.header.recv.proto = true → _ at hend
  generalize sentBytes q k unread (new (RecvStream.new proto shared)) ops = sent at *
  generalize Machine.run WebSend.step (.opened (k.header session)) sends = sender at *
  -- The header and the payload taken so far are all that the peer's bytes can grow into.
  obtain ⟨later, hlater⟩ := hsent.trans ⟨sender.owed, hframed.conserved⟩
  have hwhole := k.decodeHeader_header hleading hsession taken
  generalize s = s, returned = returned at hrun hend ⊢
  cases hrun with
  | reading header hreading hquiet =>
      exact ⟨List.nil_prefix, fun c hc => absurd hc.symm (Option.some_ne_none c)⟩
  | failed header htrouble => exact absurd hreliable (htrouble trivial)
  | ended header hfinished hheader =>
      obtain ⟨hall, hfin⟩ := hend hfinished
      rw [hall, hframed.wire_of_fin hfin, hwhole] at hheader
      cases hheader
  | classified header c rest returned hheader hfaithful =>
      have hgrown := k.decodeHeader_stable.item hheader later
      rw [hlater, hwhole] at hgrown
      simp only [Except.ok.injEq, Option.some.injEq, Prod.mk.injEq] at hgrown
      obtain ⟨hclass, htaken⟩ := hgrown
      have hread : returned <+: rest := ⟨_, hfaithful.remaining_eq.symm⟩
      refine ⟨hread.trans ⟨later, htaken.symm⟩, fun c' hc => ?_⟩
      cases hc
      refine ⟨hclass.symm, fun waker len hnone => ?_⟩
      have hfinished := hfaithful.sane.finished_of_none hq hnone
      obtain ⟨hall, hfin⟩ := hend hfinished
      rw [hall, hframed.wire_of_fin hfin, hwhole] at hheader
      simp only [Except.ok.injEq, Option.some.injEq, Prod.mk.injEq] at hheader
      have hpolled := hfaithful.pollRead hq waker len
      generalize pollRead q header.recv waker len = result at hpolled hnone
      cases hpolled with
      | bytes => cases hnone
      | ended next _ hreturned _ => exact hreturned.trans hheader.2.symm
      | nothing next result _ hother => exact absurd hnone (hother _)

end Incoming

theorem queuedReader_reliable : ChunkReader.Reliable queuedReader := by
  intro s max
  simp only [queuedReader]
  split_ifs
  · exact ⟨fun _ h => Chunk.noConfusion h, fun _ h => Chunk.noConfusion h⟩
  · exact ⟨fun _ h => Chunk.noConfusion h, fun _ h => Chunk.noConfusion h⟩
  · exact ⟨fun _ h => Chunk.noConfusion h, fun _ h => Chunk.noConfusion h⟩

/-- A connection without an error, and with budget for some reads. -/
def freshShared : Shared := ⟨none, [], 8, false⟩

/-- A stream of which one byte of the header has arrived. -/
def headerArriving : Incoming Queued UniClass :=
  .new (RecvStream.new ⟨[0x40], [0x54], false⟩ freshShared)

/-- The header comes in two pieces, and the payload in two. -/
def incomingOps : List (IncomingOp Queued) :=
  [.classify 1, .stream (.outside ⟨[0x54, 4, 7], [8], false⟩ freshShared), .classify 1,
    .stream (.pollRead 2 1), .stream (.outside ⟨[8], [], true⟩ freshShared),
    .stream (.pollRead 2 9)]

theorem header_consumed_of_pieces :
    ∃ rest, uniKind.decodeHeader
        (Incoming.sentBytes queuedReader uniKind Queued.unread headerArriving incomingOps) =
        .ok (some (.web 4, rest)) ∧
      Incoming.returnedBytes queuedReader uniKind headerArriving incomingOps <+: rest := by
  have h := (Incoming.header_consumed queuedReader_ordered uniKind 4 ⟨[0x40], [0x54], false⟩
    freshShared incomingOps (by decide +kernel)).2 (.web 4) (by decide +kernel)
  obtain ⟨rest, hheader, hread, -⟩ | ⟨hshort, -⟩ := h
  · exact ⟨rest, hheader, hread⟩
  · cases hshort

/-- The header goes out at once, and the payload and the end after it. -/
def framedOps : List SendOp :=
  [.write [.accepted 2, .accepted 9, .accepted 9] [7, 8], .finish 0 none]

theorem framed_stream_delivered_of_pieces :
    Incoming.returnedBytes queuedReader uniKind headerArriving incomingOps =
      WebSend.takenBytes (.opened (uniKind.header 4)) framedOps := by
  have h := Incoming.framed_stream_delivered queuedReader_ordered queuedReader_reliable uniKind
    (by decide) (by decide : 4 < 2 ^ 62) framedOps ⟨[0x40], [0x54], false⟩
    freshShared rfl incomingOps (by decide +kernel)
    (by simp [incomingOps, IncomingOp.Quiet, freshShared]) (by decide +kernel) (by decide +kernel)
  exact (h.2 (.web 4) (by decide +kernel)).2 2 9 rfl

end Transport

end Tidkod
