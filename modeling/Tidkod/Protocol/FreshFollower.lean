import Mathlib.Tactic
import Tidkod.Protocol.FollowerSessions
import Tidkod.Protocol.PeerInput

/-!
The first snapshot of a follower. Until a snapshot is accepted the timeline is the
configured fallback, whose session is sixteen zero bytes. Validation admits the same
identity in a snapshot, and such a snapshot is taken for a revision of the fallback.
-/

namespace Tidkod

open Rounding Proto3

namespace FollowerCore

/-- The snapshot is adopted as that of a new session, and nothing of the old one is
left. -/
structure Adopts (c : FollowerCore) (t : Timeline) (now : Nat) : Prop where
  reported : (c.state t now).2 = some .newSession
  verbatim : (c.state t now).1.view.timeline = t
  estimator : (c.state t now).1.estimator = ClockEstimator.default
  mapping : (c.state t now).1.view.mapping = ClockMapping.default
  acquiring : (c.state t now).1.view.sync = .acquiring
  resynced : c.view.resyncGeneration < (c.state t now).1.view.resyncGeneration

variable {c : FollowerCore}

/-- While no snapshot is accepted the session of the view stays. -/
theorem session_of_none_accepted {ops : List Op} (h : c.accepted ops = []) :
    (Machine.run step c ops).view.timeline.session = c.view.timeline.session := by
  induction ops generalizing c with
  | nil => rfl
  | cons op rest ih =>
      obtain ⟨hop, hrest⟩ := List.append_eq_nil_iff.mp h
      have hrefused : c.acceptedBy op = none := by
        cases haccepted : c.acceptedBy op with
        | none => rfl
        | some t => exact absurd (haccepted ▸ hop) (by simp)
      rw [Machine.run_cons, ih hrest]
      exact (step_of_not_accepted hrefused).1

theorem accepted_of_no_state {ops : List Op} (h : ∀ t now, Op.state t now ∉ ops) :
    c.accepted ops = [] := by
  induction ops generalizing c with
  | nil => rfl
  | cons op rest ih =>
      have hop : c.acceptedBy op = none := by
        cases op with
        | state t now => exact absurd List.mem_cons_self (h t now)
        | _ => rfl
      rw [accepted, hop]
      exact ih (fun t now hmem => h t now (List.mem_cons_of_mem op hmem))

/-- Only a snapshot pins a connection. -/
theorem unpinned_of_no_state {ops : List Op} (h : ∀ t now, Op.state t now ∉ ops)
    (hexpected : c.expectedSession = none) :
    (Machine.run step c ops).expectedSession = none := by
  induction ops generalizing c with
  | nil => exact hexpected
  | cons op rest ih =>
      have hnext : (c.step op).1.expectedSession = none := by
        cases op with
        | connected => rfl
        | disconnected => exact hexpected
        | state t now => exact absurd List.mem_cons_self (h t now)
        | measurementTimed e publicationNs processedNs =>
            exact (c.measurementTimed_frame e publicationNs processedNs).2.trans hexpected
        | tick now staleAfter => exact (c.tick_frame now staleAfter).2.2.1.trans hexpected
      exact ih (fun t now hmem => h t now (List.mem_cons_of_mem op hmem)) hnext

theorem session_ne_of_newSession {t : Timeline} {now : Nat}
    (h : (c.state t now).2 = some .newSession) : t.session ≠ c.view.timeline.session := by
  have houtcome := state_outcome c t now
  generalize c.state t now = result at houtcome h
  cases houtcome with
  | adopted _ hsession => exact hsession.symm
  | foreign => exact absurd h (by simp)
  | refused => exact absurd h (by simp)
  | jumped => exact absurd h (by simp [discontinue])
  | refined => exact absurd h (correct_ne_newSession _ _ _ _)

/-- An unpinned follower adopts exactly the snapshots of other sessions than that of its
timeline, as far as the generation can be counted. -/
theorem adopts_iff (hexpected : c.expectedSession = none) (t : Timeline) (now : Nat) :
    c.Adopts t now ↔
      t.session ≠ c.view.timeline.session ∧ c.view.resyncGeneration < u64Max := by
  constructor
  · intro h
    have hadopted := state_of_newSession h.reported
    have hresynced := h.resynced
    rw [hadopted] at hresynced
    have hgeneration : c.view.resyncGeneration < min (c.view.resyncGeneration + 1) u64Max :=
      hresynced
    exact ⟨session_ne_of_newSession h.reported, by omega⟩
  · rintro ⟨hsession, hgeneration⟩
    have hstep : c.state t now = (c.pin t.session).adopt t := by
      rw [state_eq, hexpected, Option.any_none, if_neg Bool.false_ne_true, if_pos hsession.symm]
    have hcount : c.view.resyncGeneration < min (c.view.resyncGeneration + 1) u64Max := by omega
    constructor
    · rw [hstep]; rfl
    · rw [hstep]; rfl
    · rw [hstep]; rfl
    · rw [hstep]; rfl
    · rw [hstep]; rfl
    · rw [hstep]; exact hcount

/-- The first snapshot after a connection is adopted unless its identity is the all-zero
one of the fallback, or no further generation can be counted. -/
theorem fresh_adopts_iff (position : Position) (format : FrameFormat) (policy : CorrectionPolicy)
    {before between : List Op}
    (hbefore : (new (fallback position format) policy).accepted before = [])
    (hbetween : ∀ t now, Op.state t now ∉ between) (t : Timeline) (now : Nat) :
    (Machine.run step (new (fallback position format) policy)
      (before ++ .connected :: between)).Adopts t now ↔
      t.session ≠ Bytes16.zero ∧
        (Machine.run step (new (fallback position format) policy)
          (before ++ .connected :: between)).view.resyncGeneration < u64Max := by
  rw [Machine.run_append, Machine.run_cons]
  have hsession := session_of_none_accepted hbefore
  generalize Machine.run step (new (fallback position format) policy) before = c at hsession ⊢
  have hexpected := unpinned_of_no_state (c := c.connected) hbetween rfl
  have hkept := session_of_none_accepted (c := c.connected) (accepted_of_no_state hbetween)
  change (Machine.run step c.connected between).Adopts t now ↔ _
  rw [adopts_iff hexpected, hkept]
  change t.session ≠ c.view.timeline.session ∧ _ ↔ _
  rw [hsession]
  rfl

/-- A tick and a loss of the connection before it, and a tick in between, change nothing. -/
theorem fresh_adopts_iff_of_sample :
    (Machine.run step (new (fallback Position.zero FrameFormat.default) CorrectionPolicy.default)
      ([.connected, .tick 5 1, .disconnected] ++ .connected :: [.tick 7 1])).Adopts
        sampleTimeline 900000000 :=
  (fresh_adopts_iff Position.zero FrameFormat.default CorrectionPolicy.default (by decide)
    (by simp) sampleTimeline 900000000).mpr (by decide +kernel)

theorem pal_supported : SupportedFormat 25 1 false := by decide

/-- The first snapshot of a leader whose identity is all zero, in a format other than that
of the default fallback. -/
def zeroTimeline : Timeline :=
  { Timeline.default with
    revision := 1
    format := ⟨25, 1, false, pal_supported⟩ }

theorem zeroTimeline_valid : zeroTimeline.Valid := by decide +kernel

/-- The message passes decoding and validation, and the follower refuses it. -/
theorem zero_identity_not_adopted :
    ¬ ∀ (position : Position) (format : FrameFormat) (policy : CorrectionPolicy)
      (before between : List Op), (new (fallback position format) policy).accepted before = [] →
      (∀ t now, Op.state t now ∉ between) → ∀ (bytes : Bytes) (t : Timeline),
      Timeline.received bytes = .ok t → ∀ now,
      (Machine.run step (new (fallback position format) policy)
        (before ++ .connected :: between)).Adopts t now := by
  intro hclaim
  have hreceived : Timeline.received zeroTimeline.bytes = .ok zeroTimeline := by
    rw [Timeline.received, Timeline.decodeSnapshot_bytes zeroTimeline_valid
      ⟨by decide, by decide⟩]
    exact Timeline.fromWire_wire zeroTimeline_valid
  have hadopts := hclaim Position.zero FrameFormat.default CorrectionPolicy.default [] [] rfl
    (by simp) _ _ hreceived 0
  exact absurd hadopts.reported (by decide +kernel)

end FollowerCore

end Tidkod
