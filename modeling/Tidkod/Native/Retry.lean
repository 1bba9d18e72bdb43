import Mathlib.Tactic
import Mathlib.Data.List.ReduceOption
import Tidkod.Lib.Machine
import Tidkod.Native.Network

/-!
When a follower tries again (the part of `FollowerJob` in `network.rs` that holds the
connection). Every disconnect schedules the next attempt after a delay that doubles up
to a bound. A disconnect more than two seconds after its attempt began starts from the
shortest delay again, and whether that attempt ever led to a connection is not asked.
Durations and instants are nanoseconds.
-/

namespace Tidkod

/-- `Duration::MAX`. -/
def durationMax : Nat := u64Max * 1000000000 + 999999999

structure Timing where
  acquisitionProbe : Nat
  steadyProbe : Nat
  heartbeat : Nat
  trackedPublish : Nat
  sourceTimeout : Nat
  connectTimeout : Nat
  retryMin : Nat
  retryMax : Nat
  deriving DecidableEq

namespace Timing

def default : Timing where
  acquisitionProbe := 50000000
  steadyProbe := 250000000
  heartbeat := 1000000000
  trackedPublish := 100000000
  sourceTimeout := 500000000
  connectTimeout := 3000000000
  retryMin := 100000000
  retryMax := 5000000000

def validate (t : Timing) : Except NativeError Unit :=
  if [t.acquisitionProbe, t.steadyProbe, t.heartbeat, t.trackedPublish, t.sourceTimeout,
      t.connectTimeout, t.retryMin, t.retryMax].any (fun d => d = 0 || 3600000000000 < d) ||
      t.retryMax < t.retryMin then
    .error (.invalid "timing intervals must be in (0, 1 hour], retry_min <= retry_max")
  else .ok ()

theorem validate_ok {t : Timing} (h : t.validate = .ok ()) :
    0 < t.retryMin ∧ t.retryMin ≤ t.retryMax ∧ t.retryMax ≤ 3600000000000 := by
  unfold validate at h
  split_ifs at h with hinvalid
  simp only [List.any_cons, List.any_nil, Bool.or_eq_true, decide_eq_true_eq, not_or] at hinvalid
  omega

/-- The delay after a number of failures in a row. -/
def delayAfter (t : Timing) (failures : Nat) : Nat := min t.retryMax (t.retryMin * 2 ^ failures)

theorem delayAfter_zero {t : Timing} (h : t.validate = .ok ()) : t.delayAfter 0 = t.retryMin := by
  have hvalid := validate_ok h
  rw [delayAfter, pow_zero, mul_one]
  omega

/-- Doubling, saturating and bounding a delay gives the next one. -/
theorem delayAfter_succ {t : Timing} (h : t.validate = .ok ()) (failures : Nat) :
    min (min (t.delayAfter failures * 2) durationMax) t.retryMax = t.delayAfter (failures + 1) := by
  have hvalid := validate_ok h
  have hlimit : 7200000000000 ≤ durationMax := by decide
  have hdouble : t.retryMin * 2 ^ (failures + 1) = t.retryMin * 2 ^ failures * 2 := by ring
  unfold delayAfter
  rw [hdouble]
  omega

end Timing

/-- The connection of a follower; a peer is known by the deadline of its connect. -/
structure FollowerLink where
  peer : Option Nat
  retry : Nat
  backoff : Nat
  began : Nat
  connected : Bool
  deriving DecidableEq

/-- A link with the failures in a row and the time since which it has been connected. -/
structure WatchedLink where
  link : FollowerLink
  failures : Nat
  since : Nat

/-- `Peer::step`: the subscriptions are not there yet, they are, or there is an error. -/
inductive PeerOutcome where
  | pending
  | ready
  | failed
  deriving DecidableEq

/-- What a pass of the worker does with the connection, with its clock readings. The last
two readings of an event are those of the disconnect it may end in. -/
inductive LinkEvent where
  /-- `Command::Reconnect`. -/
  | reconnect (checked now again : Nat)
  /-- A look at the retry time; connecting fails at once or makes a peer. -/
  | attempt (now began : Nat) (created : Option Nat) (checked failed : Nat)
  | poll (now : Nat) (outcome : PeerOutcome) (checked failed : Nat)
  /-- Any other error of a pass. -/
  | error (checked failed : Nat)
  deriving DecidableEq

namespace FollowerLink

/-- `FollowerJob::new`. -/
def new (timing : Timing) (retry began : Nat) : FollowerLink where
  peer := none
  retry := retry
  backoff := timing.retryMin
  began := began
  connected := false

def disconnect (timing : Timing) (link : FollowerLink) (checked now : Nat) : FollowerLink :=
  let backoff :=
    if 2000000000 < checked - link.began then timing.retryMin else link.backoff
  { link with
    peer := none
    connected := false
    retry := now + backoff
    backoff := min (min (backoff * 2) durationMax) timing.retryMax }

/-- The worker disconnects when a pass returns an error. The output is the delay. -/
def abandon (timing : Timing) (link : FollowerLink) (checked now : Nat) :
    FollowerLink × Option Nat :=
  let next := link.disconnect timing checked now
  (next, some (next.retry - now))

/-- Until the subscriptions are there a peer fails at its deadline. -/
def fails (link : FollowerLink) (deadline now : Nat) (outcome : PeerOutcome) : Bool :=
  !link.connected && decide (deadline ≤ now) || outcome == .failed

def step (timing : Timing) (link : FollowerLink) : LinkEvent → FollowerLink × Option Nat
  | .reconnect checked now again =>
      ({ link.disconnect timing checked now with retry := again }, none)
  | .attempt now began created checked failed =>
      if link.peer = none ∧ link.retry ≤ now then
        let link := { link with began := began }
        match created with
        | none => link.abandon timing checked failed
        | some created => ({ link with peer := some (created + timing.connectTimeout) }, none)
      else (link, none)
  | .poll now outcome checked failed =>
      match link.peer with
      | none => (link, none)
      | some deadline =>
          if link.fails deadline now outcome then link.abandon timing checked failed
          else if outcome = .ready then ({ link with connected := true }, none)
          else (link, none)
  | .error checked failed => link.abandon timing checked failed

/-- Time since the attempt began, when an event ends in a disconnect. -/
def lost (link : FollowerLink) : LinkEvent → Option Nat
  | .reconnect checked _ _ => some (checked - link.began)
  | .attempt now began created checked _ =>
      if link.peer = none ∧ link.retry ≤ now ∧ created = none then some (checked - began) else none
  | .poll now outcome checked _ =>
      if link.peer.any (fun deadline => link.fails deadline now outcome) then
        some (checked - link.began)
      else none
  | .error checked _ => some (checked - link.began)

/-- The delay that a disconnect schedules. -/
def nextDelay (timing : Timing) (link : FollowerLink) (elapsed : Nat) : Nat :=
  if 2000000000 < elapsed then timing.retryMin else link.backoff

variable {timing : Timing} {link : FollowerLink} {event : LinkEvent}

/-- An event without a disconnect leaves the backoff alone. -/
theorem step_of_lost_none (timing : Timing) (h : link.lost event = none) :
    (link.step timing event).1.backoff = link.backoff ∧ (link.step timing event).2 = none := by
  cases event with
  | reconnect checked now again => simp [lost] at h
  | attempt now began created checked failed =>
      simp only [lost, ite_eq_right_iff, reduceCtorEq, imp_false, not_and] at h
      simp only [step]
      split_ifs with hdue
      · cases created with
        | none => exact absurd rfl (h hdue.1 hdue.2)
        | some created => exact ⟨rfl, rfl⟩
      · exact ⟨rfl, rfl⟩
  | poll now outcome checked failed =>
      simp only [lost, ite_eq_right_iff, reduceCtorEq, imp_false] at h
      cases hpeer : link.peer with
      | none => simp only [step, hpeer, and_self]
      | some deadline =>
          rw [hpeer, Option.any_some] at h
          simp only [step, hpeer, if_neg h]
          split_ifs
          · exact ⟨rfl, rfl⟩
          · exact ⟨rfl, rfl⟩
  | error checked failed => simp [lost] at h

/-- A disconnect schedules the delay and doubles it for the next one. A command to
reconnect does not wait for it. -/
theorem step_of_lost_some (timing : Timing) {elapsed : Nat}
    (h : link.lost event = some elapsed) :
    (link.step timing event).1.backoff =
        min (min (link.nextDelay timing elapsed * 2) durationMax) timing.retryMax ∧
      (link.step timing event).1.connected = false ∧
      ((∃ checked now again, event = .reconnect checked now again) ∧
          (link.step timing event).2 = none ∨
        (link.step timing event).2 = some (link.nextDelay timing elapsed)) := by
  have habandon (began : Nat) (checked now : Nat) (helapsed : checked - began = elapsed) :
      let next := ({ link with began := began } : FollowerLink).abandon timing checked now
      next.1.backoff = min (min (link.nextDelay timing elapsed * 2) durationMax) timing.retryMax ∧
        next.1.connected = false ∧ next.2 = some (link.nextDelay timing elapsed) := by
    simp only [abandon, disconnect, helapsed, nextDelay, Nat.add_sub_cancel_left, true_and]
  cases event with
  | reconnect checked now again =>
      obtain rfl : checked - link.began = elapsed := by simpa [lost] using h
      exact ⟨rfl, rfl, Or.inl ⟨⟨checked, now, again, rfl⟩, rfl⟩⟩
  | attempt now began created checked failed =>
      simp only [lost, Option.ite_none_right_eq_some, Option.some.injEq] at h
      obtain ⟨⟨hpeer, hdue, rfl⟩, helapsed⟩ := h
      have hstep : link.step timing (.attempt now began none checked failed) =
          ({ link with began := began } : FollowerLink).abandon timing checked failed :=
        if_pos ⟨hpeer, hdue⟩
      obtain ⟨hbackoff, hconnected, hdelay⟩ := habandon began checked failed helapsed
      rw [hstep]
      exact ⟨hbackoff, hconnected, Or.inr hdelay⟩
  | poll now outcome checked failed =>
      simp only [lost, Option.ite_none_right_eq_some, Option.some.injEq] at h
      obtain ⟨hfails, helapsed⟩ := h
      obtain ⟨deadline, hpeer, hfails⟩ := Option.any_eq_true _ _ |>.mp hfails
      have hstep : link.step timing (.poll now outcome checked failed) =
          link.abandon timing checked failed := by
        simp only [step, hpeer, hfails, if_true]
      obtain ⟨hbackoff, hconnected, hdelay⟩ := habandon link.began checked failed helapsed
      rw [hstep]
      exact ⟨hbackoff, hconnected, Or.inr hdelay⟩
  | error checked failed =>
      have helapsed : checked - link.began = elapsed := by simpa [lost] using h
      obtain ⟨hbackoff, hconnected, hdelay⟩ := habandon link.began checked failed helapsed
      exact ⟨hbackoff, hconnected, Or.inr hdelay⟩

/-- The clock reading of the disconnect that an event may end in. -/
def checkedAt : LinkEvent → Nat
  | .reconnect checked _ _ => checked
  | .attempt _ _ _ checked _ => checked
  | .poll _ _ checked _ => checked
  | .error checked _ => checked

/-- A connection is as old as the poll that found its subscriptions. -/
def connectedSince (s : WatchedLink) : LinkEvent → Nat
  | .poll now _ _ _ => if s.link.connected then s.since else now
  | _ => s.since

/-- The connection that an event ends was established, and has lasted. -/
def Stable (s : WatchedLink) (event : LinkEvent) : Prop :=
  s.link.connected = true ∧ 2000000000 < checkedAt event - s.since

instance (s : WatchedLink) (event : LinkEvent) : Decidable (Stable s event) :=
  inferInstanceAs (Decidable (_ ∧ _))

/-- The failures in a row before a disconnect: none when it ends a stable connection. -/
def failuresBefore (s : WatchedLink) (event : LinkEvent) : Nat :=
  if Stable s event then 0 else s.failures

/-- The worker with the delays of an exponential backoff that nothing but a stable
connection resets. -/
def specified (timing : Timing) (s : WatchedLink) (event : LinkEvent) :
    WatchedLink × Option Nat :=
  let (next, delay) := s.link.step timing event
  ({  link := next
      failures := if (s.link.lost event).isSome then failuresBefore s event + 1 else s.failures
      since := connectedSince s event },
    delay.map (fun _ => timing.delayAfter (failuresBefore s event)))

/-- A disconnect comes more than two seconds after the beginning of the attempt exactly when
it ends a stable connection, or while the delay is the shortest anyway. -/
def Prompt (timing : Timing) (s : WatchedLink) (event : LinkEvent) : Prop :=
  ∀ elapsed ∈ s.link.lost event,
    (2000000000 < elapsed ↔ Stable s event) ∨ s.link.backoff = timing.retryMin

instance (timing : Timing) (s : WatchedLink) (event : LinkEvent) :
    Decidable (Prompt timing s event) :=
  inferInstanceAs (Decidable (∀ elapsed ∈ s.link.lost event, _ ∨ _))

/-- A connection of a millisecond after a handshake of two and a half seconds. -/
example : ¬ Prompt Timing.default ⟨⟨some 3000000000, 0, 200000000, 0, true⟩, 1, 2500000000⟩
    (.error 2501000000 2501000000) := by decide

/-- An event that is no command and brings no connection about. -/
def Fruitless : LinkEvent → Prop
  | .reconnect _ _ _ => False
  | .attempt _ _ _ _ _ => True
  | .poll _ outcome _ _ => outcome ≠ .ready
  | .error _ _ => True

instance : DecidablePred Fruitless := fun event =>
  match event with
  | .reconnect _ _ _ => .isFalse id
  | .attempt _ _ _ _ _ => .isTrue trivial
  | .poll _ outcome _ _ => inferInstanceAs (Decidable (outcome ≠ .ready))
  | .error _ _ => .isTrue trivial

section Watched

variable {s : WatchedLink}

theorem not_stable_of_unconnected (h : s.link.connected = false) : ¬ Stable s event := by
  rintro ⟨hconnected, -⟩
  rw [h] at hconnected
  cases hconnected

/-- The two ways to compute the delay agree on a prompt disconnect and on no other. -/
theorem prompt_iff_nextDelay (hvalid : timing.validate = .ok ())
    (hbackoff : s.link.backoff = timing.delayAfter s.failures) {elapsed : Nat}
    (hlost : s.link.lost event = some elapsed) :
    Prompt timing s event ↔
      s.link.nextDelay timing elapsed = timing.delayAfter (failuresBefore s event) := by
  have hprompt : Prompt timing s event ↔
      (2000000000 < elapsed ↔ Stable s event) ∨ s.link.backoff = timing.retryMin := by
    unfold Prompt
    simp only [hlost, Option.mem_def, Option.some.injEq, forall_eq']
  rw [hprompt, nextDelay, failuresBefore]
  split_ifs with hlong hstable hstable
  · simp [hlong, hstable, Timing.delayAfter_zero hvalid]
  · simp [hlong, hstable, ← hbackoff, eq_comm]
  · simp [hlong, hstable, Timing.delayAfter_zero hvalid]
  · simp [hlong, hstable, hbackoff]

/-- One event of the worker, as specified. -/
theorem Prompt.step_eq (hvalid : timing.validate = .ok ())
    (hbackoff : s.link.backoff = timing.delayAfter s.failures) (h : Prompt timing s event) :
    (s.link.step timing event).2 = (specified timing s event).2 ∧
      (s.link.step timing event).1.backoff =
        timing.delayAfter (specified timing s event).1.failures := by
  simp only [specified]
  cases hlost : s.link.lost event with
  | none =>
      obtain ⟨hkept, hnone⟩ := step_of_lost_none timing hlost
      rw [hkept, hnone]
      exact ⟨rfl, hbackoff⟩
  | some elapsed =>
      have hdelay := (prompt_iff_nextDelay hvalid hbackoff hlost).mp h
      obtain ⟨hnext, -, houtput⟩ := step_of_lost_some timing hlost
      rw [hnext, hdelay, Timing.delayAfter_succ hvalid]
      refine ⟨?_, rfl⟩
      rcases houtput with ⟨-, hnone⟩ | hsome
      · rw [hnone]
        rfl
      · rw [hsome, hdelay]
        rfl

theorem outputs_eq_of_prompt (hvalid : timing.validate = .ok ())
    (hbackoff : s.link.backoff = timing.delayAfter s.failures) {events : List LinkEvent}
    (h : Machine.Along (specified timing) (Prompt timing) s events) :
    Machine.outputs (step timing) s.link events = Machine.outputs (specified timing) s events := by
  induction events generalizing s with
  | nil => rfl
  | cons event rest ih =>
      obtain ⟨hdelay, hnext⟩ := Prompt.step_eq hvalid hbackoff h.1
      rw [Machine.outputs, Machine.outputs, hdelay]
      exact congrArg _ (ih hnext h.2)

end Watched

/-- A fruitless event leaves the link unconnected. -/
theorem unconnected_step (timing : Timing) (h : link.connected = false)
    (hevent : Fruitless event) :
    (link.step timing event).1.connected = false := by
  cases event with
  | reconnect checked now again => exact hevent.elim
  | attempt now began created checked failed =>
      simp only [step]
      split_ifs
      · cases created with
        | none => rfl
        | some created => exact h
      · exact h
  | poll now outcome checked failed =>
      cases hpeer : link.peer with
      | none => simpa only [step, hpeer] using h
      | some deadline =>
          simp only [step, hpeer, if_neg hevent]
          split_ifs
          · rfl
          · exact h
  | error checked failed => rfl

/-- The delays of a follower whose attempts lead to no connection. -/
theorem delays_iff_prompt (hvalid : timing.validate = .ok ()) {s : WatchedLink}
    (hbackoff : s.link.backoff = timing.delayAfter s.failures)
    (hconnected : s.link.connected = false) {events : List LinkEvent}
    (hevents : ∀ event ∈ events, Fruitless event) :
    (Machine.outputs (step timing) s.link events).reduceOption =
        (List.range (Machine.outputs (step timing) s.link events).reduceOption.length).map
          (fun k => timing.delayAfter (s.failures + k)) ↔
      Machine.Along (specified timing) (Prompt timing) s events := by
  induction events generalizing s with
  | nil => simp [Machine.outputs, Machine.Along]
  | cons event rest ih =>
      have hfruitless := hevents event List.mem_cons_self
      have hrest : ∀ later ∈ rest, Fruitless later :=
        fun later hlater => hevents later (List.mem_cons_of_mem event hlater)
      have hstill : (specified timing s event).1.link.connected = false :=
        unconnected_step timing hconnected hfruitless
      have hbefore : failuresBefore s event = s.failures :=
        if_neg (not_stable_of_unconnected hconnected)
      rw [Machine.outputs, Machine.Along]
      cases hlost : s.link.lost event with
      | none =>
          obtain ⟨hkept, hnone⟩ := step_of_lost_none timing hlost
          have hprompt : Prompt timing s event := by
            intro elapsed helapsed
            rw [hlost] at helapsed
            exact absurd helapsed (Option.not_mem_none elapsed)
          have hfailures : (specified timing s event).1.failures = s.failures := by
            simp only [specified, hlost, Option.isSome_none, Bool.false_eq_true, if_false]
          have hbackoff' : (specified timing s event).1.link.backoff =
              timing.delayAfter (specified timing s event).1.failures := by
            rw [hfailures]
            exact hkept.trans hbackoff
          have hlater := ih hbackoff' hstill hrest
          rw [hfailures] at hlater
          rw [hnone, List.reduceOption_cons_of_none, and_iff_right hprompt]
          exact hlater
      | some elapsed =>
          obtain ⟨hnext, -, houtput⟩ := step_of_lost_some timing hlost
          have hdelay : (s.link.step timing event).2 = some (s.link.nextDelay timing elapsed) := by
            rcases houtput with ⟨⟨checked, now, again, rfl⟩, -⟩ | hsome
            · exact hfruitless.elim
            · exact hsome
          have hprompt := prompt_iff_nextDelay hvalid hbackoff hlost
          rw [hbefore] at hprompt
          have hfailures : (specified timing s event).1.failures = s.failures + 1 := by
            simp only [specified, hlost, Option.isSome_some, if_true, hbefore]
          rw [hdelay, List.reduceOption_cons_of_some, List.length_cons, List.range_succ_eq_map,
            List.map_cons, List.map_map, List.cons.injEq, hprompt, add_zero]
          apply and_congr_right
          intro hequal
          have hbackoff' : (specified timing s event).1.link.backoff =
              timing.delayAfter (specified timing s event).1.failures := by
            rw [hfailures, ← Timing.delayAfter_succ hvalid, ← hequal]
            exact hnext
          have hlater := ih hbackoff' hstill hrest
          rw [hfailures] at hlater
          rw [← hlater]
          simp only [Function.comp_def, Nat.succ_eq_add_one, Nat.add_assoc, Nat.add_comm 1]
          rfl

/-- Every delay is within the bounds. -/
theorem delay_mem (hvalid : timing.validate = .ok ())
    (hbackoff : timing.retryMin ≤ link.backoff ∧ link.backoff ≤ timing.retryMax)
    (events : List LinkEvent) :
    ∀ delay, some delay ∈ Machine.outputs (step timing) link events →
      timing.retryMin ≤ delay ∧ delay ≤ timing.retryMax := by
  have hbounds := Timing.validate_ok hvalid
  have hlimit : 7200000000000 ≤ durationMax := by decide
  induction events generalizing link with
  | nil => exact fun delay hdelay => absurd hdelay List.not_mem_nil
  | cons event rest ih =>
      intro delay hdelay
      cases hlost : link.lost event with
      | none =>
          obtain ⟨hkept, hnone⟩ := step_of_lost_none timing hlost
          rw [Machine.outputs, hnone, List.mem_cons] at hdelay
          rw [← hkept] at hbackoff
          exact ih hbackoff delay (hdelay.resolve_left (by simp))
      | some elapsed =>
          obtain ⟨hnext, -, houtput⟩ := step_of_lost_some timing hlost
          have hscheduled : timing.retryMin ≤ link.nextDelay timing elapsed ∧
              link.nextDelay timing elapsed ≤ timing.retryMax := by
            unfold nextDelay
            split_ifs
            · exact ⟨le_rfl, hbounds.2.1⟩
            · exact hbackoff
          have hbackoff' : timing.retryMin ≤ (link.step timing event).1.backoff ∧
              (link.step timing event).1.backoff ≤ timing.retryMax := by
            rw [hnext]
            omega
          rw [Machine.outputs, List.mem_cons] at hdelay
          rcases hdelay with hfirst | hlater
          · rcases houtput with ⟨-, hnone⟩ | hsome
            · rw [hnone] at hfirst
              exact absurd hfirst (by simp)
            · rw [hsome] at hfirst
              rw [Option.some.inj hfirst]
              exact hscheduled
          · exact ih hbackoff' delay hlater

/-- Retries of a follower, from its construction on. All delays are within the bounds.
While every disconnect is prompt the delays are those of an exponential backoff that only a
connection which has lasted resets. For a leader that is never reached the k-th delay is the
k-th of that backoff exactly when every disconnect is prompt. -/
theorem backoff_exponential_iff (hvalid : timing.validate = .ok ()) (retry began : Nat)
    (events : List LinkEvent) :
    (∀ delay, some delay ∈ Machine.outputs (step timing) (new timing retry began) events →
      timing.retryMin ≤ delay ∧ delay ≤ timing.retryMax) ∧
    (Machine.Along (specified timing) (Prompt timing) ⟨new timing retry began, 0, 0⟩ events →
      Machine.outputs (step timing) (new timing retry began) events =
        Machine.outputs (specified timing) ⟨new timing retry began, 0, 0⟩ events) ∧
    ((∀ event ∈ events, Fruitless event) →
      ((Machine.outputs (step timing) (new timing retry began) events).reduceOption =
          (List.range (Machine.outputs (step timing)
            (new timing retry began) events).reduceOption.length).map
              (fun k => min timing.retryMax (timing.retryMin * 2 ^ k)) ↔
        Machine.Along (specified timing) (Prompt timing)
          ⟨new timing retry began, 0, 0⟩ events)) := by
  have hbounds := Timing.validate_ok hvalid
  have hbackoff : (new timing retry began).backoff = timing.delayAfter 0 :=
    (Timing.delayAfter_zero hvalid).symm
  refine ⟨delay_mem hvalid ⟨le_rfl, hbounds.2.1⟩ events,
    outputs_eq_of_prompt (s := ⟨new timing retry began, 0, 0⟩) hvalid hbackoff, ?_⟩
  intro hevents
  have hdelays := delays_iff_prompt (s := ⟨new timing retry began, 0, 0⟩) hvalid hbackoff rfl
    hevents
  simp only [zero_add] at hdelays
  exact hdelays

/-- Three attempts that fail at once. -/
def refusedAttempts : List LinkEvent :=
  [.attempt 0 0 none 1000000 1000000, .attempt 101000000 101000000 none 102000000 102000000,
    .attempt 302000000 302000000 none 303000000 303000000]

theorem backoff_exponential_of_refused :
    (Machine.outputs (step Timing.default) (new Timing.default 0 0) refusedAttempts).reduceOption =
      [100000000, 200000000, 400000000] := by
  have hvalid : Timing.default.validate = .ok () := by decide
  have hexponential :=
    ((backoff_exponential_iff hvalid 0 0 refusedAttempts).2.2 (by decide)).mpr (by decide)
  rw [hexponential]
  decide

/-- Two attempts that each run into the default connect timeout of three seconds. -/
def timedOutAttempts : List LinkEvent :=
  [.attempt 0 0 (some 0) 0 0, .poll 3000000000 .pending 3000000000 3000000000,
    .attempt 3100000000 3100000000 (some 3100000000) 0 0,
    .poll 6100000000 .pending 6100000000 6100000000]

/-- Their delays are 100 ms both times. -/
theorem backoff_not_always_exponential :
    ¬ ∀ (timing : Timing) (retry began : Nat) (events : List LinkEvent),
      timing.validate = .ok () → (∀ event ∈ events, Fruitless event) →
      (Machine.outputs (step timing) (new timing retry began) events).reduceOption =
        (List.range (Machine.outputs (step timing)
          (new timing retry began) events).reduceOption.length).map
            (fun k => min timing.retryMax (timing.retryMin * 2 ^ k)) := by
  intro hclaim
  have hdelays := hclaim Timing.default 0 0 timedOutAttempts (by decide) (by decide)
  revert hdelays
  decide

end FollowerLink

end Tidkod
