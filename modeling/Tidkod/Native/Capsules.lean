import Mathlib.Tactic
import Tidkod.Lib.Machine
import Tidkod.Native.Varint

/-!
The CONNECT stream of a WebTransport session (`Capsules` and `Driver::step` of
`transport/web.rs`). It carries HTTP/3 frames, the payloads of the DATA frames make up the
capsule stream, and a capsule that closes the session ends it. Frames and capsules are cut
independently, and both arrive in pieces. The capsule codec is a parameter.
-/

namespace Tidkod

namespace Transport

open Proto3 PrefixDecoder RecvStream

def frameData : Nat := 0x00
def messageLimit : Nat := 64 * 1024

/-- `proto::Capsule`: decoding one off the front of a slice, and the code and reason of one
that closes the session. -/
structure CapsuleCodec (κ : Type) where
  decode : Bytes → Except String (Option (κ × Bytes))
  closing : κ → Option (Nat × String)

structure Capsules where
  frames : Bytes
  body : Bytes
  deriving DecidableEq

/-- `len` bytes off the front. -/
def takeBytes (len : Nat) (xs : Bytes) : Except String (Option (Bytes × Bytes)) :=
  if xs.length < len then .ok none else .ok (some (xs.take len, xs.drop len))

/-- An HTTP/3 frame: its type, its length and so many bytes. -/
def decodeFrame : Bytes → Except String (Option ((Nat × Bytes) × Bytes)) :=
  andThen varintDecoder fun typ =>
    andThen varintDecoder fun len =>
      andThen (takeBytes len) fun payload rest => .ok (some ((typ, payload), rest))

namespace Capsules

def default : Capsules := ⟨[], []⟩

/-- The loop of `demux`. Each frame takes some bytes, so that their number bounds the rounds. -/
def demuxRounds : Nat → Capsules → Capsules × Except String Unit
  | 0, s => (s, .ok ())
  | rounds + 1, s =>
      match decodeVarint s.frames with
      | none => (s, .ok ())
      | some (typ, peek) =>
          match decodeVarint peek with
          | none => (s, .ok ())
          | some (len, peek) =>
              if peek.length < len then (s, .ok ())
              else if typ = frameData then
                if messageLimit < s.body.length + len then
                  (s, .error "a capsule exceeded the buffer limit")
                else demuxRounds rounds ⟨peek.drop len, s.body ++ peek.take len⟩
              else demuxRounds rounds ⟨peek.drop len, s.body⟩

def demux (s : Capsules) : Capsules × Except String Unit := demuxRounds (s.frames.length + 1) s

variable {κ : Type} (codec : CapsuleCodec κ)

def take (s : Capsules) : Capsules × Except String (Option κ) :=
  match s.demux with
  | (s, .error e) => (s, .error e)
  | (s, .ok ()) =>
      match codec.decode s.body with
      | .error e => (s, .error e)
      | .ok none => (s, .ok none)
      | .ok (some (capsule, rest)) => ({ s with body := rest }, .ok (some capsule))

end Capsules

/-- Why the driver has let a session go. -/
inductive Removal where
  | capsule (code : Nat) (reason : String)
  | invalid
  | tooLarge
  | ended
  deriving DecidableEq

/-- What `close_code` is called with. -/
def Removal.closeCode (errorToHttp3 : Nat → Nat) : Removal → Nat × String
  | .capsule code reason => (errorToHttp3 code, reason)
  | .invalid => (0x0101, "invalid capsule")
  | .tooLarge => (0x0101, "capsule too large")
  | .ended => (errorToHttp3 0, "")

/-- The part of a session that reads the CONNECT stream. -/
structure CapsuleSession (σ : Type) where
  recv : Connected σ
  capsules : Capsules
  closed : Option (Nat × String)
  removed : Option Removal

namespace CapsuleSession

variable {σ κ : Type} (q : ChunkReader σ) (codec : CapsuleCodec κ)

def new (recv : Connected σ) : CapsuleSession σ := ⟨recv, .default, none, none⟩

/-- So many operations of `Driver::step`. It wakes itself before the last one. -/
def operations : Nat → CapsuleSession σ → Nat → CapsuleSession σ × Bool
  | 0, s, _ => (s, true)
  | n + 1, s, waker =>
      match s.capsules.take codec with
      | (capsules, .error _) =>
          ({ s with capsules := capsules, removed := some .invalid }, n == 0)
      | (capsules, .ok (some capsule)) =>
          match codec.closing capsule with
          | some (code, reason) =>
              ({ s with
                  capsules := capsules
                  closed := s.closed.or (some (code, reason))
                  removed := some (.capsule code reason) }, n == 0)
          | none => operations n { s with capsules := capsules } waker
      | (capsules, .ok none) =>
          match pollRead q s.recv waker 4096 with
          | (recv, .pending) => ({ s with recv := recv, capsules := capsules }, n == 0)
          | (recv, .ready (.ok (some b))) =>
              if messageLimit < capsules.frames.length + b.length then
                ({ s with recv := recv, capsules := capsules, removed := some .tooLarge }, n == 0)
              else
                operations n
                  { s with
                    recv := recv, capsules := { capsules with frames := capsules.frames ++ b } }
                  waker
          | (recv, .ready _) =>
              ({ s with recv := recv, capsules := capsules, removed := some .ended }, n == 0)

/-- A session that has been let go is not stepped again. -/
def driverStep (s : CapsuleSession σ) (waker : Nat) : CapsuleSession σ × Bool :=
  match s.removed with
  | some _ => (s, false)
  | none => operations q codec 8 s waker

end CapsuleSession

inductive CapsuleOp (σ : Type) where
  | driver (waker : Nat)
  | outside (proto : σ) (shared : Shared)

namespace CapsuleSession

variable {σ κ : Type} (q : ChunkReader σ) (codec : CapsuleCodec κ)

def step (s : CapsuleSession σ) : CapsuleOp σ → CapsuleSession σ × Unit
  | .driver waker => ((s.driverStep q codec waker).1, ())
  | .outside proto shared =>
      ({ s with recv := { s.recv with proto := proto, shared := shared } }, ())

variable (unread : σ → Bytes) (finished : σ → Bool)

/-- The peer sends, and nobody else reads. -/
def Admits (s : CapsuleSession σ) : CapsuleOp σ → Prop
  | .driver _ => True
  | .outside proto shared => PeerSends unread finished s.recv (.outside proto shared)

instance (s : CapsuleSession σ) (op : CapsuleOp σ) : Decidable (Admits unread finished s op) :=
  match op with
  | .driver _ => inferInstanceAs (Decidable True)
  | .outside proto shared =>
      inferInstanceAs (Decidable (PeerSends unread finished s.recv (.outside proto shared)))

def noteSent (sent : Bytes) (s : CapsuleSession σ) : CapsuleOp σ → Bytes
  | .driver _ => sent
  | .outside proto shared => RecvStream.noteSent unread sent s.recv (.outside proto shared)

end CapsuleSession

theorem takeBytes_stable (len : Nat) : Stable (takeBytes len) where
  item := by
    intro xs payload rest h ys
    unfold takeBytes at h ⊢
    by_cases hshort : xs.length < len
    · rw [if_pos hshort] at h
      cases h
    rw [if_neg hshort] at h
    simp only [Except.ok.injEq, Option.some.injEq, Prod.mk.injEq] at h
    have hfit : len ≤ xs.length := not_lt.mp hshort
    rw [if_neg (by rw [List.length_append]; omega), List.take_append_of_le_length hfit,
      List.drop_append_of_le_length hfit, h.1, h.2]
  error := by
    intro xs e h
    unfold takeBytes at h
    split_ifs at h

theorem decodeFrame_stable : Stable decodeFrame :=
  varintDecoder_stable.andThen fun _ => varintDecoder_stable.andThen fun _ =>
    (takeBytes_stable _).andThen fun _ => stable_pure _

section Frame

variable {xs peek rest : Bytes} {typ len : Nat}

theorem decodeFrame_without_type (h : decodeVarint xs = none) : decodeFrame xs = .ok none := by
  rw [decodeFrame, andThen, varintDecoder, h]

theorem decodeFrame_without_length (h : decodeVarint xs = some (typ, peek))
    (hlen : decodeVarint peek = none) : decodeFrame xs = .ok none := by
  rw [decodeFrame, andThen_of_item (congrArg Except.ok h), andThen, varintDecoder, hlen]

theorem decodeFrame_of_header (h : decodeVarint xs = some (typ, peek))
    (hlen : decodeVarint peek = some (len, rest)) :
    decodeFrame xs =
      if rest.length < len then .ok none
      else .ok (some ((typ, rest.take len), rest.drop len)) := by
  rw [decodeFrame, andThen_of_item (congrArg Except.ok h),
    andThen_of_item (congrArg Except.ok hlen), andThen, takeBytes]
  split_ifs
  · rfl
  · rfl

theorem decodeVarint_shorter (h : decodeVarint xs = some (len, rest)) :
    rest.length < xs.length := by
  cases xs with
  | nil => cases h
  | cons first tail =>
      simp only [decodeVarint] at h
      split_ifs at h with hshort
      simp only [Option.some.injEq, Prod.mk.injEq] at h
      rw [← h.2, List.length_drop, List.length_cons]
      omega

end Frame

/-- The capsule stream that frames carry. -/
def dataOf (frames : List (Nat × Bytes)) : Bytes :=
  frames.flatMap fun f => if f.1 = frameData then f.2 else []

theorem dataOf_snoc (frames : List (Nat × Bytes)) (f : Nat × Bytes) :
    dataOf (frames ++ [f]) = dataOf frames ++ if f.1 = frameData then f.2 else [] := by
  simp [dataOf]

namespace Capsules

variable {κ : Type} {codec : CapsuleCodec κ} {fed : Bytes} {taken : List κ} {s : Capsules}

/-- The capsules taken are those that the bytes fed carry, and the buffers hold the rest, of the
frames and of the capsule stream. -/
structure Parsed (codec : CapsuleCodec κ) (fed : Bytes) (taken : List κ) (s : Capsules) :
    Prop where
  parsed : ∃ frames, Yields decodeFrame fed frames s.frames ∧
    Yields codec.decode (dataOf frames) taken s.body
  frames : s.frames.length ≤ messageLimit
  body : s.body.length ≤ messageLimit

theorem parsed_default : Parsed codec [] [] default :=
  ⟨⟨[], .nil [], .nil []⟩, Nat.zero_le _, Nat.zero_le _⟩

theorem Parsed.feed (h : s.Parsed codec fed taken) {chunk : Bytes}
    (hfits : s.frames.length + chunk.length ≤ messageLimit) :
    Parsed codec (fed ++ chunk) taken { s with frames := s.frames ++ chunk } where
  parsed := by
    obtain ⟨frames, hframes, hbody⟩ := h.parsed
    exact ⟨frames, hframes.extend decodeFrame_stable chunk, hbody⟩
  frames := by
    rw [List.length_append]
    exact hfits
  body := h.body

/-- A frame is split off, and its payload goes to the body when it is a DATA frame. -/
theorem Parsed.frame (h : s.Parsed codec fed taken) (hcodec : Stable codec.decode) {typ : Nat}
    {payload rest : Bytes} (hframe : decodeFrame s.frames = .ok (some ((typ, payload), rest)))
    (hrest : rest.length ≤ s.frames.length)
    (hfits : typ = frameData → s.body.length + payload.length ≤ messageLimit) :
    Parsed codec fed taken ⟨rest, s.body ++ if typ = frameData then payload else []⟩ where
  parsed := by
    obtain ⟨frames, hframes, hbody⟩ := h.parsed
    refine ⟨frames ++ [(typ, payload)], hframes.snoc hframe, ?_⟩
    rw [dataOf_snoc]
    exact hbody.extend hcodec _
  frames := hrest.trans h.frames
  body := by
    split_ifs with hdata
    · rw [List.length_append]
      exact hfits hdata
    · rw [List.append_nil]
      exact h.body

theorem Parsed.take (h : s.Parsed codec fed taken) {capsule : κ} {rest : Bytes}
    (hcapsule : codec.decode s.body = .ok (some (capsule, rest)))
    (hrest : rest.length ≤ s.body.length) :
    Parsed codec fed (taken ++ [capsule]) { s with body := rest } where
  parsed := by
    obtain ⟨frames, hframes, hbody⟩ := h.parsed
    exact ⟨frames, hframes, hbody.snoc hcapsule⟩
  frames := h.frames
  body := hrest.trans h.body

/-- A DATA frame is at hand for which the body has no room. -/
def Overflows (s : Capsules) : Prop :=
  ∃ payload rest, decodeFrame s.frames = .ok (some ((frameData, payload), rest)) ∧
    messageLimit < s.body.length + payload.length

inductive DemuxStep (codec : CapsuleCodec κ) (fed : Bytes) (taken : List κ) :
    Capsules × Except String Unit → Prop where
  | done (s : Capsules) (hparsed : s.Parsed codec fed taken)
      (hend : decodeFrame s.frames = .ok none) : DemuxStep codec fed taken (s, .ok ())
  | overflow (s : Capsules) (e : String) (hparsed : s.Parsed codec fed taken)
      (hover : s.Overflows) : DemuxStep codec fed taken (s, .error e)

theorem demuxRounds_step (hcodec : Stable codec.decode) {rounds : Nat}
    (hrounds : s.frames.length < rounds) (h : s.Parsed codec fed taken) :
    DemuxStep codec fed taken (demuxRounds rounds s) := by
  induction rounds generalizing s with
  | zero => exact absurd hrounds (Nat.not_lt_zero _)
  | succ rounds ih =>
      unfold demuxRounds
      cases htyp : decodeVarint s.frames with
      | none => exact .done s h (decodeFrame_without_type htyp)
      | some header =>
          obtain ⟨typ, peek⟩ := header
          dsimp only
          cases hlen : decodeVarint peek with
          | none => exact .done s h (decodeFrame_without_length htyp hlen)
          | some header =>
              obtain ⟨len, peek'⟩ := header
              have hframe := decodeFrame_of_header htyp hlen
              have hshorter := decodeVarint_shorter htyp
              have hshorter' := decodeVarint_shorter hlen
              dsimp only
              by_cases hshort : peek'.length < len
              · rw [if_pos hshort] at hframe ⊢
                exact .done s h hframe
              rw [if_neg hshort] at hframe ⊢
              have hdrop : (peek'.drop len).length ≤ peek'.length := by
                rw [List.length_drop]
                exact Nat.sub_le _ _
              have hpayload : (peek'.take len).length = len := by
                rw [List.length_take]
                omega
              by_cases hdata : typ = frameData
              · rw [if_pos hdata]
                by_cases hover : messageLimit < s.body.length + len
                · rw [if_pos hover]
                  rw [hdata] at hframe
                  exact .overflow s _ h ⟨_, _, hframe, by rwa [hpayload]⟩
                · rw [if_neg hover]
                  have hnext := h.frame hcodec hframe (by omega)
                    fun _ => by rw [hpayload]; exact not_lt.mp hover
                  rw [if_pos hdata] at hnext
                  exact ih (by dsimp only; omega) hnext
              · rw [if_neg hdata]
                have hnext := h.frame hcodec hframe (by omega) fun hd => absurd hd hdata
                rw [if_neg hdata, List.append_nil] at hnext
                exact ih (by dsimp only; omega) hnext

inductive TakeStep (codec : CapsuleCodec κ) (fed : Bytes) (taken : List κ) :
    Capsules × Except String (Option κ) → Prop where
  | capsule (s : Capsules) (c : κ) (hparsed : s.Parsed codec fed (taken ++ [c])) :
      TakeStep codec fed taken (s, .ok (some c))
  | waiting (s : Capsules) (hparsed : s.Parsed codec fed taken)
      (hframes : decodeFrame s.frames = .ok none) (hbody : codec.decode s.body = .ok none) :
      TakeStep codec fed taken (s, .ok none)
  | refused (s : Capsules) (e : String) (hparsed : s.Parsed codec fed taken)
      (htrouble : s.Overflows ∨ ∃ e, codec.decode s.body = .error e) :
      TakeStep codec fed taken (s, .error e)

theorem Parsed.take_step (h : s.Parsed codec fed taken) (hcodec : Stable codec.decode)
    (hshorter : ∀ {xs c rest}, codec.decode xs = .ok (some (c, rest)) → rest.length ≤ xs.length) :
    TakeStep codec fed taken (s.take codec) := by
  unfold Capsules.take
  have hdemux := demuxRounds_step hcodec (Nat.lt_succ_self s.frames.length) h
  unfold demux
  generalize demuxRounds (s.frames.length + 1) s = result at hdemux ⊢
  cases hdemux with
  | overflow s e hparsed hover => exact .refused s e hparsed (Or.inl hover)
  | done s hparsed hend =>
      dsimp only
      rcases hbody : codec.decode s.body with e | _ | ⟨c, rest⟩
      · exact .refused s e hparsed (Or.inr ⟨e, hbody⟩)
      · exact .waiting s hparsed hend hbody
      · exact .capsule _ c (hparsed.take hbody (hshorter hbody))

end Capsules

/-- The capsules can be read, in this order, off the frames that the bytes begin with. -/
def CapsuleCodec.Reads {κ : Type} (codec : CapsuleCodec κ) (bytes : Bytes) (cs : List κ) : Prop :=
  ∃ frames rest rest', Yields decodeFrame bytes frames rest ∧
    Yields codec.decode (dataOf frames) cs rest'

/-- The connection is left without an error. -/
def CapsuleOp.Quiet {σ : Type} : CapsuleOp σ → Prop
  | .driver _ => True
  | .outside _ shared => shared.error = none

namespace CapsuleSession

variable {σ κ : Type} {q : ChunkReader σ} {codec : CapsuleCodec κ} {unread : σ → Bytes}
  {finished : σ → Bool} {sent fed : Bytes} {taken : List κ} {quiet : Prop}

/-- None of the capsules closes the session. -/
def Harmless (codec : CapsuleCodec κ) (taken : List κ) : Prop :=
  ∀ c ∈ taken, codec.closing c = none

theorem Harmless.snoc (h : Harmless codec taken) {c : κ} (hc : codec.closing c = none) :
    Harmless codec (taken ++ [c]) := by
  intro c' hc'
  obtain hc' | hc' := List.mem_append.mp hc'
  · exact h c' hc'
  · rw [List.mem_singleton.mp hc', hc]

/-- What has become of a session, by the capsules taken off what it has been fed. -/
inductive Verdict (q : ChunkReader σ) (codec : CapsuleCodec κ) (finished : σ → Bool)
    (quiet : Prop) (sent fed : Bytes) (taken : List κ) : CapsuleSession σ → Prop where
  | running (recv : Connected σ) (capsules : Capsules) (hharmless : Harmless codec taken)
      (hquiet : quiet → recv.shared.error = none) :
      Verdict q codec finished quiet sent fed taken ⟨recv, capsules, none, none⟩
  | closed (recv : Connected σ) (capsules : Capsules) (before : List κ) (c : κ) (code : Nat)
      (reason : String) (htaken : taken = before ++ [c]) (hharmless : Harmless codec before)
      (hclosing : codec.closing c = some (code, reason)) :
      Verdict q codec finished quiet sent fed taken
        ⟨recv, capsules, some (code, reason), some (.capsule code reason)⟩
  | invalid (recv : Connected σ) (capsules : Capsules) (hharmless : Harmless codec taken)
      (htrouble : capsules.Overflows ∨ ∃ e, codec.decode capsules.body = .error e) :
      Verdict q codec finished quiet sent fed taken ⟨recv, capsules, none, some .invalid⟩
  | tooLarge (recv : Connected σ) (capsules : Capsules) (hharmless : Harmless codec taken)
      (hframes : decodeFrame capsules.frames = .ok none)
      (hlarge : messageLimit < capsules.frames.length + 4096) :
      Verdict q codec finished quiet sent fed taken ⟨recv, capsules, none, some .tooLarge⟩
  | ended (recv : Connected σ) (capsules : Capsules) (hharmless : Harmless codec taken)
      (hframes : decodeFrame capsules.frames = .ok none)
      (hbody : codec.decode capsules.body = .ok none)
      (hend : (fed = sent ∧ finished recv.proto = true) ∨ (quiet → ¬ ChunkReader.Reliable q)) :
      Verdict q codec finished quiet sent fed taken ⟨recv, capsules, none, some .ended⟩

/-- A session against the bytes sent on its CONNECT stream. The last chunk of one that has been
let go may not have been fed. -/
structure Tracks (q : ChunkReader σ) (codec : CapsuleCodec κ) (unread : σ → Bytes)
    (finished : σ → Bool) (quiet : Prop) (sent fed : Bytes) (taken : List κ)
    (s : CapsuleSession σ) : Prop where
  faithful : ∃ read, Faithful unread finished sent read s.recv ∧ fed <+: read ∧
    (s.removed = none → read = fed)
  parsed : s.capsules.Parsed codec fed taken
  verdict : Verdict q codec finished quiet sent fed taken s

/-- What the driver leaves: the session's account is up to date, and if it was not woken for
more and the session goes on, then the read has parked its waker. -/
def DriverStep (q : ChunkReader σ) (codec : CapsuleCodec κ) (unread : σ → Bytes)
    (finished : σ → Bool) (quiet : Prop) (sent : Bytes) (waker : Nat)
    (result : CapsuleSession σ × Bool) : Prop :=
  (∃ fed taken, Tracks q codec unread finished quiet sent fed taken result.1) ∧
    (result.1.removed = none → result.2 = false → waker ∈ result.1.recv.shared.waiters)

theorem tracks_of_faithful {s : CapsuleSession σ}
    (hfaithful : Faithful unread finished sent fed s.recv)
    (hparsed : s.capsules.Parsed codec fed taken)
    (hverdict : Verdict q codec finished quiet sent fed taken s) :
    Tracks q codec unread finished quiet sent fed taken s :=
  ⟨⟨fed, hfaithful, List.prefix_rfl, fun _ => rfl⟩, hparsed, hverdict⟩

theorem operations_step (hq : q.Ordered unread finished) (hcodec : Stable codec.decode)
    (hshorter : ∀ {xs c rest}, codec.decode xs = .ok (some (c, rest)) → rest.length ≤ xs.length)
    {n : Nat} {recv : Connected σ} {capsules : Capsules}
    (hfaithful : Faithful unread finished sent fed recv)
    (hparsed : capsules.Parsed codec fed taken) (hharmless : Harmless codec taken)
    (hquiet : quiet → recv.shared.error = none) (waker : Nat) :
    DriverStep q codec unread finished quiet sent waker
      (operations q codec n ⟨recv, capsules, none, none⟩ waker) := by
  induction n generalizing recv capsules fed taken with
  | zero =>
      exact ⟨⟨fed, taken, tracks_of_faithful hfaithful hparsed
        (.running recv capsules hharmless hquiet)⟩,
        fun _ h => by cases h⟩
  | succ n ih =>
      unfold operations
      have htake := hparsed.take_step hcodec hshorter
      dsimp only
      generalize capsules.take codec = result at htake ⊢
      cases htake with
      | refused capsules e hparsed htrouble =>
          exact ⟨⟨fed, taken, tracks_of_faithful hfaithful hparsed
              (.invalid recv capsules hharmless htrouble)⟩,
            fun h => by cases h⟩
      | capsule capsules c hparsed =>
          rcases hclosing : codec.closing c with _ | ⟨code, reason⟩
          · dsimp only
            rw [hclosing]
            exact ih hfaithful hparsed (hharmless.snoc hclosing) hquiet
          · dsimp only
            rw [hclosing]
            exact ⟨⟨fed, _, tracks_of_faithful hfaithful hparsed
              (.closed recv capsules taken c code reason rfl hharmless hclosing)⟩,
              fun h => by cases h⟩
      | waiting capsules hparsed hframes hbody =>
          dsimp only
          have hpolled := hfaithful.pollRead hq waker 4096
          have hparked := pollRead_parked (q := q) recv waker 4096
          have herror := pollRead_error (q := q) recv waker 4096
          generalize pollRead q recv waker 4096 = result at hpolled hparked herror ⊢
          cases hpolled with
          | bytes next b hlen hnext =>
              dsimp only at herror ⊢
              by_cases hlarge : messageLimit < capsules.frames.length + b.length
              · rw [if_pos hlarge]
                refine ⟨⟨fed, taken,
                  ⟨fed ++ b, hnext, List.prefix_append fed b, fun h => by cases h⟩,
                  hparsed, .tooLarge next capsules hharmless hframes ?_⟩, fun h => by cases h⟩
                omega
              · rw [if_neg hlarge]
                exact ih hnext (hparsed.feed (not_lt.mp hlarge)) hharmless
                  fun h => herror.1.trans (hquiet h)
          | ended next hnext hall hfinished =>
              exact ⟨⟨fed, taken, tracks_of_faithful hnext hparsed
                (.ended next capsules hharmless hframes hbody (Or.inl ⟨hall, hfinished⟩))⟩,
                fun h => by cases h⟩
          | nothing next result hnext hresult =>
              obtain rfl | ⟨e, rfl⟩ := Poll.pending_or_error hresult
              · exact ⟨⟨fed, taken, tracks_of_faithful hnext hparsed
                  (.running next capsules hharmless fun h => herror.1.trans (hquiet h))⟩,
                  fun _ _ => hparked rfl⟩
              · refine ⟨⟨fed, taken, tracks_of_faithful hnext hparsed
                  (.ended next capsules hharmless hframes hbody (Or.inr fun h => ?_))⟩,
                  fun h => by cases h⟩
                have hfault := herror.2 e rfl
                rw [hquiet h] at hfault
                exact hfault.resolve_left fun h => by cases h

theorem Tracks.outside {s : CapsuleSession σ}
    (h : Tracks q codec unread finished quiet sent fed taken s) {proto : σ} {shared : Shared}
    (hsends : PeerSends unread finished s.recv (.outside proto shared))
    (hquiet : quiet → shared.error = none) :
    Tracks q codec unread finished quiet
      (RecvStream.noteSent unread sent s.recv (.outside proto shared)) fed taken
      { s with recv := { s.recv with proto := proto, shared := shared } } where
  faithful := by
    obtain ⟨read, hfaithful, hfed, hall⟩ := h.faithful
    exact ⟨read, hfaithful.outside hsends, hfed, hall⟩
  parsed := h.parsed
  verdict := by
    have hverdict := h.verdict
    cases hverdict with
    | running recv capsules hharmless _ => exact .running _ capsules hharmless hquiet
    | closed recv capsules before c code reason htaken hharmless hclosing =>
        exact .closed _ capsules before c code reason htaken hharmless hclosing
    | invalid recv capsules hharmless htrouble => exact .invalid _ capsules hharmless htrouble
    | tooLarge recv capsules hharmless hframes hlarge =>
        exact .tooLarge _ capsules hharmless hframes hlarge
    | ended recv capsules hharmless hframes hbody hend =>
        refine .ended _ capsules hharmless hframes hbody (hend.imp_left fun hend => ?_)
        obtain ⟨hsame, hfinished⟩ := hsends.2 hend.2
        refine ⟨?_, hfinished⟩
        rw [RecvStream.noteSent, hsame, List.drop_length, List.append_nil]
        exact hend.1

theorem Tracks.driver {s : CapsuleSession σ}
    (h : Tracks q codec unread finished quiet sent fed taken s) (hq : q.Ordered unread finished)
    (hcodec : Stable codec.decode)
    (hshorter : ∀ {xs c rest}, codec.decode xs = .ok (some (c, rest)) → rest.length ≤ xs.length)
    (waker : Nat) :
    DriverStep q codec unread finished quiet sent waker (s.driverStep q codec waker) := by
  have hverdict := h.verdict
  cases hremoved : s.removed with
  | some removal =>
      have hsame : s.driverStep q codec waker = (s, false) := by
        unfold driverStep
        rw [hremoved]
      rw [hsame]
      exact ⟨⟨fed, taken, h⟩, fun hnone => by rw [hremoved] at hnone; cases hnone⟩
  | none =>
      obtain ⟨read, hfaithful, -, hread⟩ := h.faithful
      obtain rfl := hread hremoved
      have hparsed := h.parsed
      cases hverdict with
      | running recv capsules hharmless hquiet =>
          exact operations_step hq hcodec hshorter hfaithful hparsed hharmless hquiet waker
      | closed => cases hremoved
      | invalid => cases hremoved
      | tooLarge => cases hremoved
      | ended => cases hremoved

theorem tracks_new (proto : σ) {shared : Shared} (hquiet : quiet → shared.error = none) :
    Tracks q codec unread finished quiet (unread proto) [] [] (new (RecvStream.new proto shared)) :=
  tracks_of_faithful (sane_new proto shared) Capsules.parsed_default
    (.running _ _ (fun c hc => by cases hc) hquiet)

/-- What the peer has sent on the CONNECT stream by the end of a run. -/
def sentBytes (q : ChunkReader σ) (codec : CapsuleCodec κ) (unread : σ → Bytes)
    (s : CapsuleSession σ) (ops : List (CapsuleOp σ)) : Bytes :=
  Machine.record (step q codec) (noteSent unread) (unread s.recv.proto) s ops

theorem Tracks.run {s : CapsuleSession σ}
    (h : Tracks q codec unread finished quiet sent fed taken s) (hq : q.Ordered unread finished)
    (hcodec : Stable codec.decode)
    (hshorter : ∀ {xs c rest}, codec.decode xs = .ok (some (c, rest)) → rest.length ≤ xs.length)
    {ops : List (CapsuleOp σ)}
    (hadmits : Machine.Along (step q codec) (Admits unread finished) s ops)
    (hquiet : quiet → ∀ op ∈ ops, op.Quiet) :
    ∃ fed taken, Tracks q codec unread finished quiet
      (Machine.record (step q codec) (noteSent unread) sent s ops) fed taken
      (Machine.run (step q codec) s ops) := by
  induction ops generalizing s sent fed taken with
  | nil => exact ⟨fed, taken, h⟩
  | cons op rest ih =>
      have hrest (hq : quiet) (op' : CapsuleOp σ) (hop : op' ∈ rest) : op'.Quiet :=
        hquiet hq op' (List.mem_cons_of_mem _ hop)
      cases op with
      | driver waker =>
          obtain ⟨⟨fed', taken', hnext⟩, -⟩ := h.driver hq hcodec hshorter waker
          exact ih hnext hadmits.2 hrest
      | outside proto shared =>
          have hnext := h.outside hadmits.1 fun hq => hquiet hq _ List.mem_cons_self
          exact ih hnext hadmits.2 hrest

/-- What has been read so far can be read off all that has been sent. -/
theorem Tracks.reads {s : CapsuleSession σ}
    (h : Tracks q codec unread finished quiet sent fed taken s) : codec.Reads sent taken := by
  obtain ⟨frames, hframes, hbody⟩ := h.parsed.parsed
  obtain ⟨read, hfaithful, hfed, -⟩ := h.faithful
  obtain ⟨later, rfl⟩ : fed <+: sent := hfed.trans ⟨_, hfaithful.remaining_eq.symm⟩
  exact ⟨frames, _, _, hframes.extend decodeFrame_stable later, hbody⟩

end CapsuleSession

end Transport

end Tidkod
