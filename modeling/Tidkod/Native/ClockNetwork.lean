import Mathlib.Tactic
import Tidkod.Native.Network
import Tidkod.Protocol.ClockUncertainty
import Tidkod.Protocol.PeerInput

/-!
The clock protocol between a follower and its leaders: `FollowerJob::progress` as far as
probes, snapshots and ticks go, and the probe handling of `LeaderJob::progress`. Time is
that of the follower's clock. Each leader has a clock of its own, one for each session,
of which only the bound on its relative rate is known. A transport may lose, delay,
repeat and reorder datagrams; a new one starts empty. Which snapshots the leaders send
is left open, except that a leader sends those of its own session.
-/

namespace Tidkod

open BoundedRate Proto3

/-- A probe as a leader answers it, with its clock read before and after. -/
def answerProbe (payload : Bytes) (t2 t3 : Nat) : Except NativeError Bytes :=
  match decodeProbe payload with
  | .error e => .error (.protocol e)
  | .ok p =>
      if p.t2 ≠ 0 ∨ p.t3 ≠ 0 then
        .error (.invalid "probe request includes reply timestamps")
      else
        match encodeProbe { p with t2 := t2, t3 := t3 } with
        | .error e => .error (.protocol e)
        | .ok bytes => .ok bytes

/-- A follower with the transport to its current leader: what has been sent on it, with
the local time a request was made and the instant a reply left. -/
structure ClockNetwork where
  follower : Client
  peer : Option Bytes16
  now : Nat
  requests : List (Bytes × Nat)
  replies : List (Bytes × ℝ)

inductive NetworkEvent where
  | connected (session : Bytes16) (now : Nat)
  | disconnected (now : Nat)
  | request (now published : Nat)
  | answer (i : Nat) (received sent : ℝ) (t2 t3 : Nat)
  | reply (i now processed : Nat)
  | snapshot (bytes : Bytes) (now : Nat)
  | tick (now staleAfter : Nat)

/-- What a step shows: nothing, an error that ends the connection, or an exchange. -/
inductive NetworkResult where
  | quiet
  | failed
  | exchanged (e : Exchange)
  deriving DecidableEq

/-- The events that move a clock message to its receiver. -/
def NetworkEvent.isClockMessage : NetworkEvent → Bool
  | .answer .. => true
  | .reply .. => true
  | _ => false

namespace ClockNetwork

def start (position : Position) (format : FrameFormat) (policy : CorrectionPolicy) :
    ClockNetwork where
  follower := Client.new position format policy
  peer := none
  now := 0
  requests := []
  replies := []

/-- `FollowerJob::disconnect`. -/
def disconnect (s : ClockNetwork) (now : Nat) : ClockNetwork where
  follower := ⟨s.follower.core.disconnected, Probes.default⟩
  peer := none
  now := now
  requests := []
  replies := []

def connect (s : ClockNetwork) (session : Bytes16) (now : Nat) : ClockNetwork where
  follower := s.follower.connected true
  peer := some session
  now := now
  requests := []
  replies := []

/-- A probe is due: it is sent, and its publication is noted. -/
def request (s : ClockNetwork) (now published : Nat) : ClockNetwork × NetworkResult :=
  match s.follower.probes.request now with
  | (_, .error _) => (s.disconnect now, .failed)
  | (probes, .ok bytes) =>
      ({ s with
          follower := { s.follower with probes := probes.publicationFinished published }
          now := published
          requests := s.requests ++ [(bytes, now)] }, .quiet)

/-- The leader takes a request from the transport; an error there drops the follower. -/
def answer (s : ClockNetwork) (i : Nat) (sent : ℝ) (t2 t3 : Nat) : ClockNetwork × NetworkResult :=
  match s.requests[i]? with
  | none => (s, .quiet)
  | some (bytes, _) =>
      match answerProbe bytes t2 t3 with
      | .error _ => (s.disconnect s.now, .failed)
      | .ok payload => ({ s with replies := s.replies ++ [(payload, sent)] }, .quiet)

/-- The follower takes a reply from the transport at `now`. -/
def reply (s : ClockNetwork) (i now processed : Nat) : ClockNetwork × NetworkResult :=
  match s.replies[i]? with
  | none => (s, .quiet)
  | some (bytes, _) =>
      let (probes, matched) := s.follower.probes.reply bytes now
      match matched with
      | .error _ => (s.disconnect processed, .failed)
      | .ok none => ({ s with follower := { s.follower with probes := probes }, now := processed },
          .quiet)
      | .ok (some e) =>
          let core :=
            (s.follower.core.measurementTimed e probes.lastPublicationNs processed).1
          ({ s with follower := ⟨core, probes⟩, now := processed }, .exchanged e)

def snapshot (s : ClockNetwork) (bytes : Bytes) (now : Nat) : ClockNetwork × NetworkResult :=
  match Timeline.received bytes with
  | .error _ => (s.disconnect now, .failed)
  | .ok t =>
      ({ s with
          follower := { s.follower with core := (s.follower.core.state t now).1 }
          now := now }, .quiet)

def step (s : ClockNetwork) : NetworkEvent → ClockNetwork × NetworkResult
  | .connected session now => (s.connect session now, .quiet)
  | .disconnected now => (s.disconnect now, .quiet)
  | .request now published => s.request now published
  | .answer i _ sent t2 t3 => s.answer i sent t2 t3
  | .reply i now processed => s.reply i now processed
  | .snapshot bytes now => s.snapshot bytes now
  | .tick now staleAfter =>
      ({ s with
          follower := { s.follower with core := (s.follower.core.tick now staleAfter).1 }
          now := now }, .quiet)

/-- The follower's clock never runs backwards. A leader reads its own clock, running and
within its range, after a request was made and again when the reply leaves; the reply
arrives later. A leader sends snapshots of its own session. -/
def Admits (clock : Bytes16 → ℝ → ℝ) (s : ClockNetwork) : NetworkEvent → Prop
  | .connected _ now => s.now ≤ now
  | .disconnected now => s.now ≤ now
  | .request now published => s.peer ≠ none ∧ s.now ≤ now ∧ now ≤ published
  | .answer i received sent t2 t3 =>
      ∀ session ∈ s.peer, ∀ r ∈ s.requests[i]?,
        (r.2 : ℝ) ≤ received ∧ received ≤ sent ∧ Reads 1 (clock session) received t2 ∧
          Reads 1 (clock session) sent t3 ∧ 0 < t2 ∧ t3 ≤ i64Max
  | .reply i now processed =>
      s.now ≤ now ∧ now ≤ processed ∧ ∀ r ∈ s.replies[i]?, r.2 ≤ now
  | .snapshot bytes now =>
      s.now ≤ now ∧ ∀ t, Timeline.received bytes = .ok t → s.peer = some t.session
  | .tick now _ => s.now ≤ now

end ClockNetwork

/-- A probe that is answered reads back as the request with the leader's times. -/
theorem answerProbe_request {payload : Bytes} {n t1 t2 t3 : Nat}
    (h : decodeProbe payload = .ok ⟨1, n, t1, 0, 0⟩) (hn : n ≤ u64Max) (hpos : 0 < t2)
    (hordered : t2 ≤ t3) (hmax : t3 ≤ i64Max) :
    ∃ bytes, answerProbe payload t2 t3 = .ok bytes ∧
      decodeProbe bytes = .ok ⟨1, n, t1, t2, t3⟩ := by
  have hwell := (decodeProbe_ok_iff.mp h).2.2
  have hfits {t : Nat} (ht : t ≤ i64Max) : t < 2 ^ 64 := ht.trans_lt (by norm_num [i64Max])
  have hrange : Wire.Probe.InRange ⟨1, n, t1, t2, t3⟩ :=
    ⟨by norm_num, hn.trans_lt (by norm_num [u64Max]), hfits hwell.t1_le,
      hfits (hordered.trans hmax), hfits hmax⟩
  have hsize : (serialize (Wire.Probe.fields ⟨1, n, t1, t2, t3⟩)).length ≤ maxMessage :=
    (Wire.Probe.length_le hrange).trans (by norm_num [maxMessage])
  refine ⟨serialize (Wire.Probe.fields ⟨1, n, t1, t2, t3⟩), ?_, ?_⟩
  · rw [answerProbe, h]
    simp only [ne_eq, not_true_eq_false, or_self, if_false]
    rw [encodeProbe, if_neg (not_lt.mpr hsize)]
  · rw [decodeProbe_ok_iff]
    refine ⟨hsize, Wire.Probe.decode_fields hrange, rfl, hwell.sequence_pos, hwell.t1_le,
      hordered.trans hmax, hmax, hordered, ?_⟩
    exact iff_of_false hpos.ne' (hpos.trans_le hordered).ne'

/-- A request that is made reads back as the probe it was made from. -/
theorem Probes.request_ok {p : Probes} {now : Nat} {bytes : Bytes}
    (h : (p.request now).2 = .ok bytes) :
    p.sequence + 1 ≤ u64Max ∧ decodeProbe bytes = .ok ⟨1, p.sequence + 1, now, 0, 0⟩ := by
  unfold request at h
  split_ifs at h with htime hfull
  obtain ⟨hencode, hdecode⟩ :=
    encodeProbe_request (Nat.succ_ne_zero p.sequence) (not_lt.mp hfull) (not_lt.mp htime)
  simp only [hencode, Except.ok.injEq] at h
  exact ⟨not_lt.mp hfull, h ▸ hdecode⟩

/-- A reply that decodes is matched or ignored, and what it is matched to is what it
says. -/
theorem Probes.reply_of_decode {bytes : Bytes} {q : Wire.Probe}
    (h : decodeProbe bytes = .ok q) (p : Probes) (now : Nat) :
    (p.reply bytes now).2 = .ok none ∨
      (p.reply bytes now).2 = .ok (some ⟨q.t1, q.t2, q.t3, now⟩) ∧
        now - q.t1 ≤ maxExchangeNs := by
  simp only [reply, h]
  split_ifs with hother hresidence hlate
  · exact Or.inl rfl
  · exact Or.inl rfl
  · exact Or.inl rfl
  · exact Or.inr ⟨rfl, not_lt.mp hlate⟩

/-- A reply that left a leader with this clock at `sent`, after it had read the request
it answers. -/
def LeftAt (leader : ℝ → ℝ) (bytes : Bytes) (sent : ℝ) : Prop :=
  ∃ q received, decodeProbe bytes = .ok q ∧ (q.t1 : ℝ) ≤ received ∧ received ≤ sent ∧
    Reads 1 leader received q.t2 ∧ Reads 1 leader sent q.t3

/-- A reply that left before `now` never ends the connection; when it is matched, the
exchange was made with the leader it left. -/
theorem LeftAt.reply {leader : ℝ → ℝ} {bytes : Bytes} {sent : ℝ} (h : LeftAt leader bytes sent)
    {now : Nat} (hnow : sent ≤ now) (p : Probes) :
    (p.reply bytes now).2 = .ok none ∨
      ∃ e, (p.reply bytes now).2 = .ok (some e) ∧ e.Honest leader ∧ e.t4 = now ∧
        e.duration ≤ maxExchangeNs := by
  obtain ⟨q, received, hdecode, hmade, hheld, hreceived, hsent⟩ := h
  rcases Probes.reply_of_decode hdecode p now with hignored | ⟨hmatched, htime⟩
  · exact Or.inl hignored
  · exact Or.inr ⟨_, hmatched, ⟨received, sent, hmade, hheld, hnow, hreceived, hsent⟩, rfl, htime⟩

namespace ClockNetwork

/-- What is under way on a transport was put there by the two ends of it. -/
structure Genuine (clock : Bytes16 → ℝ → ℝ) (s : ClockNetwork) : Prop where
  requests : ∀ r ∈ s.requests, ∃ n, n ≤ u64Max ∧ decodeProbe r.1 = .ok ⟨1, n, r.2, 0, 0⟩
  replies : ∀ r ∈ s.replies, ∃ session ∈ s.peer, LeftAt (clock session) r.1 r.2
  peer : s.requests ≠ [] → s.peer ≠ none

variable {clock : Bytes16 → ℝ → ℝ} {s : ClockNetwork}

theorem genuine_empty {s : ClockNetwork} (hrequests : s.requests = []) (hreplies : s.replies = []) :
    s.Genuine clock where
  requests := by simp [hrequests]
  replies := by simp [hreplies]
  peer := fun h => absurd hrequests h

/-- A step that leaves the transport alone. -/
theorem Genuine.congr (h : s.Genuine clock) {t : ClockNetwork} (hpeer : t.peer = s.peer)
    (hrequests : t.requests = s.requests) (hreplies : t.replies = s.replies) :
    t.Genuine clock := by
  refine ⟨?_, ?_, ?_⟩
  · rw [hrequests]
    exact h.requests
  · rw [hreplies, hpeer]
    exact h.replies
  · rw [hrequests, hpeer]
    exact h.peer

/-- A request of the follower is on its way. -/
theorem Genuine.request (h : s.Genuine clock) {now published : Nat} (hpeer : s.peer ≠ none) :
    (s.request now published).1.Genuine clock := by
  unfold ClockNetwork.request
  rcases hrequest : s.follower.probes.request now with ⟨probes, e | bytes⟩
  · exact genuine_empty rfl rfl
  · obtain ⟨hroom, hdecode⟩ :=
      Probes.request_ok (p := s.follower.probes) (congrArg Prod.snd hrequest)
    refine ⟨fun r hr => ?_, h.replies, fun _ => hpeer⟩
    rcases List.mem_append.mp hr with hold | hnew
    · exact h.requests r hold
    · rw [List.mem_singleton.mp hnew]
      exact ⟨_, hroom, hdecode⟩

/-- A leader answers every request, and its answer is on its way. -/
theorem Genuine.answer (h : s.Genuine clock) {i : Nat} {received sent : ℝ} {t2 t3 : Nat}
    (hclock : ∀ session, LeaderClock (clock session))
    (hadmits : s.Admits clock (.answer i received sent t2 t3)) :
    (s.answer i sent t2 t3).2 = .quiet ∧ (s.answer i sent t2 t3).1.Genuine clock := by
  unfold ClockNetwork.answer
  cases hrequest : s.requests[i]? with
  | none => exact ⟨rfl, h⟩
  | some r =>
      have hmem : r ∈ s.requests := List.mem_of_getElem? hrequest
      obtain ⟨n, hn, hdecode⟩ := h.requests r hmem
      obtain ⟨session, hsession⟩ : ∃ session, s.peer = some session :=
        Option.ne_none_iff_exists'.mp (h.peer (List.ne_nil_of_mem hmem))
      obtain ⟨hmade, hheld, hreceived, hsent, hpos, hmax⟩ :=
        hadmits session hsession r hrequest
      -- The clock does not run backwards, and neither do its whole nanoseconds.
      have hordered : t2 ≤ t3 := by
        have hmono := (hclock session).mono (by norm_num [maxDrift]) hheld
        have hlt : (t2 : ℝ) < t3 + 1 := by linarith [hreceived.1, hsent.2]
        have hlt' : t2 < t3 + 1 := by exact_mod_cast hlt
        omega
      obtain ⟨payload, hanswer, hpayload⟩ := answerProbe_request hdecode hn hpos hordered hmax
      simp only [hanswer]
      refine ⟨trivial, h.requests, fun a ha => ?_, h.peer⟩
      rcases List.mem_append.mp ha with hold | hnew
      · exact h.replies a hold
      · rw [List.mem_singleton.mp hnew]
        exact ⟨session, hsession, _, received, hpayload, hmade, hheld, hreceived, hsent⟩

/-- What a reply can do. -/
inductive ReplyOutcome (clock : Bytes16 → ℝ → ℝ) (s : ClockNetwork) (now processed : Nat) :
    ClockNetwork × NetworkResult → Prop where
  | absent : ReplyOutcome clock s now processed (s, .quiet)
  | ignored (probes : Probes) :
      ReplyOutcome clock s now processed
        ({ s with follower := { s.follower with probes := probes }, now := processed }, .quiet)
  | exchanged (probes : Probes) (e : Exchange) (publicationNs : Option Nat) (session : Bytes16)
      (hpeer : s.peer = some session) (hhonest : e.Honest (clock session)) (ht4 : e.t4 = now)
      (hduration : e.duration ≤ maxExchangeNs) :
      ReplyOutcome clock s now processed
        ({ s with
            follower :=
              ⟨(s.follower.core.measurementTimed e publicationNs processed).1, probes⟩
            now := processed }, .exchanged e)

theorem Genuine.reply_outcome (h : s.Genuine clock) {i now processed : Nat}
    (hadmits : s.Admits clock (.reply i now processed)) :
    ReplyOutcome clock s now processed (s.reply i now processed) := by
  unfold ClockNetwork.reply
  cases hreply : s.replies[i]? with
  | none => exact .absent
  | some r =>
      obtain ⟨session, hpeer, hleft⟩ := h.replies r (List.mem_of_getElem? hreply)
      have houtcome := hleft.reply (hadmits.2.2 r hreply) s.follower.probes
      obtain ⟨bytes, sent⟩ := r
      rcases hmatch : s.follower.probes.reply bytes now with ⟨probes, matched⟩
      simp only [hmatch] at houtcome ⊢
      rcases houtcome with rfl | ⟨e, rfl, hhonest, ht4, hduration⟩
      · exact .ignored probes
      · exact .exchanged probes e _ session hpeer hhonest ht4 hduration

theorem Genuine.step (h : s.Genuine clock) (hclock : ∀ session, LeaderClock (clock session))
    {e : NetworkEvent} (hadmits : s.Admits clock e) : (s.step e).1.Genuine clock := by
  cases e with
  | connected session now => exact genuine_empty rfl rfl
  | disconnected now => exact genuine_empty rfl rfl
  | request now published => exact h.request hadmits.1
  | answer i received sent t2 t3 => exact (h.answer hclock hadmits).2
  | reply i now processed =>
      have houtcome := h.reply_outcome hadmits
      simp only [ClockNetwork.step]
      generalize s.reply i now processed = result at houtcome ⊢
      cases houtcome with
      | absent => exact h
      | ignored => exact h.congr rfl rfl rfl
      | exchanged => exact h.congr rfl rfl rfl
  | snapshot bytes now =>
      simp only [ClockNetwork.step, ClockNetwork.snapshot]
      cases Timeline.received bytes with
      | error e => exact genuine_empty rfl rfl
      | ok t => exact h.congr rfl rfl rfl
  | tick now staleAfter => exact h.congr rfl rfl rfl

/-- In every run no clock message ends a connection, and every exchange that reaches the
estimator was made with the leader the follower is connected to. -/
theorem clock_exchanges_honest (hclock : ∀ session, LeaderClock (clock session))
    (position : Position) (format : FrameFormat) (policy : CorrectionPolicy)
    (events : List NetworkEvent)
    (hadmits : Machine.Along step (Admits clock) (start position format policy) events) :
    Machine.Along step
      (fun s e =>
        (e.isClockMessage = true → (s.step e).2 ≠ .failed) ∧
          ∀ x, (s.step e).2 = .exchanged x →
            x.duration ≤ maxExchangeNs ∧
              ∃ session, s.peer = some session ∧ x.Honest (clock session))
      (start position format policy) events := by
  refine (Machine.along_of_invariant (P := Genuine clock) ?_ (genuine_empty rfl rfl) hadmits).1
  intro s e h hadmit
  refine ⟨?_, h.step hclock hadmit⟩
  cases e with
  | connected session now => exact ⟨by simp [NetworkEvent.isClockMessage], by simp [step]⟩
  | disconnected now => exact ⟨by simp [NetworkEvent.isClockMessage], by simp [step]⟩
  | request now published =>
      refine ⟨by simp [NetworkEvent.isClockMessage], fun x hx => ?_⟩
      simp only [step, ClockNetwork.request] at hx
      split at hx <;> simp at hx
  | answer i received sent t2 t3 =>
      have hquiet := (h.answer hclock hadmit).1
      constructor
      · rw [step, hquiet]
        simp
      · intro x hx
        rw [step, hquiet] at hx
        cases hx
  | reply i now processed =>
      have houtcome := h.reply_outcome hadmit
      simp only [step]
      generalize s.reply i now processed = result at houtcome ⊢
      cases houtcome with
      | absent => simp
      | ignored => simp
      | exchanged _ x _ session hpeer hhonest _ hduration =>
          refine ⟨by simp, fun y hy => ?_⟩
          obtain rfl : x = y := by simpa using hy
          exact ⟨hduration, session, hpeer, hhonest⟩
  | snapshot bytes now =>
      refine ⟨by simp [NetworkEvent.isClockMessage], fun x hx => ?_⟩
      simp only [step, ClockNetwork.snapshot] at hx
      split at hx <;> simp at hx
  | tick now staleAfter => exact ⟨by simp [NetworkEvent.isClockMessage], by simp [step]⟩

end ClockNetwork

/-- A follower connects to the leader of the sample timeline, takes its snapshot and makes
one exchange with it. -/
noncomputable def joining : List NetworkEvent :=
  [.connected sampleTimeline.session 1000, .snapshot sampleTimeline.bytes 2000,
    .request 1000000000 1000000100,
    .answer 0 1001000000 1001020000 6001000000 6001020000, .reply 0 1009020000 1009020000]

theorem joining_admitted :
    Machine.Along ClockNetwork.step (ClockNetwork.Admits (fun _ x => x + 5000000000))
      (ClockNetwork.start Position.zero FrameFormat.default CorrectionPolicy.default) joining := by
  refine ⟨Nat.zero_le _, ⟨by decide +kernel, ?_⟩, ⟨by decide +kernel, by decide +kernel,
    by decide⟩, ?_, ?_, trivial⟩
  · intro t ht
    have hsession : (Timeline.received sampleTimeline.bytes).map Timeline.session =
        .ok sampleTimeline.session := by decide +kernel
    rw [ht] at hsession
    exact congrArg some (Except.ok.inj hsession).symm
  · rintro session - r hr
    have htime : (Machine.run ClockNetwork.step
        (ClockNetwork.start Position.zero FrameFormat.default CorrectionPolicy.default)
        (joining.take 3)).requests[0]?.map Prod.snd = some 1000000000 := rfl
    have hsent : r.2 = 1000000000 := Option.some.inj ((congrArg _ hr).symm.trans htime)
    rw [hsent]
    exact ⟨by norm_num, by norm_num, by constructor <;> norm_num, by constructor <;> norm_num,
      by norm_num, by decide⟩
  · refine ⟨by decide +kernel, le_rfl, ?_⟩
    intro r hr
    have hleft : (Machine.run ClockNetwork.step
        (ClockNetwork.start Position.zero FrameFormat.default CorrectionPolicy.default)
        (joining.take 4)).replies[0]?.map Prod.snd = some 1001020000 := rfl
    have hsent : r.2 = 1001020000 := Option.some.inj ((congrArg _ hr).symm.trans hleft)
    rw [hsent]
    norm_num

theorem clock_exchanges_honest_of_joining :
    ((Machine.run ClockNetwork.step
      (ClockNetwork.start Position.zero FrameFormat.default CorrectionPolicy.default)
      (joining.take 4)).step (.reply 0 1009020000 1009020000)).2 =
        .exchanged ⟨1000000000, 6001000000, 6001020000, 1009020000⟩ ∧
    Machine.Along ClockNetwork.step
      (fun s e =>
        (e.isClockMessage = true → (s.step e).2 ≠ .failed) ∧
          ∀ x, (s.step e).2 = .exchanged x →
            x.duration ≤ maxExchangeNs ∧
              ∃ session, s.peer = some session ∧ x.Honest (fun y => y + 5000000000))
      (ClockNetwork.start Position.zero FrameFormat.default CorrectionPolicy.default) joining :=
  ⟨by decide +kernel,
    @ClockNetwork.clock_exchanges_honest (fun _ x => x + 5000000000)
      (fun _ => leaderClock_add 5000000000) _ _ _ joining joining_admitted⟩

end Tidkod
