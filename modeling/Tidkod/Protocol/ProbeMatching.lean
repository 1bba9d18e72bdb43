import Mathlib.Tactic
import Tidkod.Protocol.Probes

/-!
What the ring of outstanding probes is for: a ledger of all requests of the
connection, each with the time it was made, whether a reply has settled it and
how long its publication took. The ledger forgets nothing and answers for the
last 128 requests only. The ring represents it over every run of requests,
publications and replies, whatever the replies contain, so matching is exactly
what the ledger says.
-/

namespace Tidkod

open Proto3 RecentRing

/-- One request of a connection. -/
structure Request where
  t1 : Nat
  settled : Bool
  publicationNs : Option Nat
  deriving DecidableEq

/-- All requests of a connection; number `s` is entry `s - 1`. -/
abbrev Ledger := List Request

namespace Request

/-- The probe is a consistent reply to this request, received at `now`: it echoes
the request time, carries the leader's times, and the leader did not hold it
longer than the exchange took. -/
structure Answers (r : Request) (q : Wire.Probe) (now : Nat) : Prop where
  unsettled : r.settled = false
  echoed : q.t1 = r.t1
  replied : q.t2 ≠ 0
  sent : q.t1 ≤ now
  residence : q.t3 - q.t2 ≤ now - q.t1

instance (r : Request) (q : Wire.Probe) (now : Nat) : Decidable (r.Answers q now) :=
  decidable_of_iff
    (r.settled = false ∧ q.t1 = r.t1 ∧ q.t2 ≠ 0 ∧ q.t1 ≤ now ∧ q.t3 - q.t2 ≤ now - q.t1)
    ⟨fun ⟨a, b, c, d, e⟩ => ⟨a, b, c, d, e⟩, fun h => ⟨h.1, h.2, h.3, h.4, h.5⟩⟩

end Request

namespace Ledger

/-- The request with a number, while it is among the last 128. -/
def recent (l : Ledger) (s : Nat) : Option Request :=
  if Recent 128 l.length s then l[s - 1]? else none

/-- The recent request that a message answers, with its number. -/
def answered (l : Ledger) (bytes : Bytes) (now : Nat) : Option (Wire.Probe × Request) :=
  match decodeProbe bytes with
  | .error _ => none
  | .ok q => ((l.recent q.sequence).filter (fun r => r.Answers q now)).map (fun r => (q, r))

/-- A change of the entry with a number. -/
def revise (l : Ledger) (s : Nat) (f : Request → Request) : Ledger := l.modify (s - 1) f

/-- Requests are entered in order, the latest one takes the publication while it is
unsettled, and a consistent reply settles what it answers. -/
def step (l : Ledger) : ProbeOp → Ledger
  | .request now =>
      if i64Max < now ∨ u64Max < l.length + 1 then l else l ++ [⟨now, false, none⟩]
  | .publicationFinished now =>
      l.revise l.length (fun r =>
        if r.settled then r else { r with publicationNs := Probes.checkedSub now r.t1 })
  | .reply bytes now =>
      match l.answered bytes now with
      | none => l
      | some (q, _) => l.revise q.sequence (fun r => { r with settled := true })

/-- The ledger after some operations. -/
def after (ops : List ProbeOp) : Ledger := ops.foldl step []

/-- The slot of a request in the ring of outstanding probes. -/
def outstanding (l : Ledger) (s : Nat) : Nat × Nat :=
  match l[s - 1]? with
  | some r => if r.settled then (0, 0) else (s, r.t1)
  | none => (0, 0)

def publication (l : Ledger) (s : Nat) : Option Nat := l[s - 1]?.bind Request.publicationNs

section Revise

variable (l : Ledger) (f : Request → Request)

@[simp] theorem revise_length (s : Nat) : (l.revise s f).length = l.length :=
  List.length_modify ..

theorem revise_same (s : Nat) : (l.revise s f)[s - 1]? = l[s - 1]?.map f :=
  List.getElem?_modify_eq f _ l

/-- A change that leaves the entry as it is leaves the ledger as it is. -/
theorem revise_fixed {s : Nat} {r : Request} (hr : l[s - 1]? = some r) {f : Request → Request}
    (hf : f r = r) : l.revise s f = l := by
  apply List.ext_getElem?
  intro i
  rw [revise, List.getElem?_modify]
  by_cases hi : s - 1 = i
  · subst hi
    simp [hr, hf]
  · simp [hi]

theorem revise_other {s t : Nat} (hs : 0 < s) (ht : 0 < t) (h : t ≠ s) :
    (l.revise s f)[t - 1]? = l[t - 1]? :=
  List.getElem?_modify_ne f l (by omega)

end Revise

theorem recent_eq_some {l : Ledger} {s : Nat} {r : Request} :
    l.recent s = some r ↔ Recent 128 l.length s ∧ l[s - 1]? = some r := by
  unfold recent
  split_ifs with h <;> simp [h]

theorem exists_of_recent {l : Ledger} {s : Nat} (h : Recent 128 l.length s) :
    ∃ r, l[s - 1]? = some r := by
  obtain ⟨hpos, hle, -⟩ := h
  exact ⟨l[s - 1], List.getElem?_eq_getElem (by omega)⟩

theorem answered_eq_some {l : Ledger} {bytes : Bytes} {now : Nat} {q : Wire.Probe}
    {r : Request} :
    l.answered bytes now = some (q, r) ↔
      decodeProbe bytes = .ok q ∧ l.recent q.sequence = some r ∧ r.Answers q now := by
  unfold answered
  cases decodeProbe bytes with
  | error e => simp
  | ok p =>
      simp only [Option.map_eq_some_iff, Option.filter_eq_some_iff, Except.ok.injEq,
        decide_eq_true_eq, Prod.mk.injEq]
      constructor
      · rintro ⟨a, ⟨hrecent, hanswers⟩, rfl, rfl⟩
        exact ⟨rfl, hrecent, hanswers⟩
      · rintro ⟨rfl, hrecent, hanswers⟩
        exact ⟨r, ⟨hrecent, hanswers⟩, rfl, rfl⟩

theorem answered_eq_none {l : Ledger} {bytes : Bytes} {now : Nat} {q : Wire.Probe}
    (hdecode : decodeProbe bytes = .ok q)
    (h : ∀ r, l.recent q.sequence = some r → ¬ r.Answers q now) : l.answered bytes now = none := by
  rw [Option.eq_none_iff_forall_ne_some]
  rintro ⟨q', r⟩ hanswered
  obtain ⟨hdecode', hrecent, ha⟩ := answered_eq_some.mp hanswered
  obtain rfl : q = q' := Except.ok.inj (hdecode.symm.trans hdecode')
  exact h r hrecent ha

theorem after_append_singleton (ops : List ProbeOp) (op : ProbeOp) :
    after (ops ++ [op]) = (after ops).step op := by
  simp [after, List.foldl_append]

end Ledger

/-- The probes of a connection hold what the ledger says about its recent
requests. -/
structure Probes.Represents (p : Probes) (l : Ledger) : Prop where
  sequence : p.sequence = l.length
  bounded : l.length ≤ u64Max
  outstanding : Agrees p.outstanding l.length l.outstanding
  publication : Agrees p.publication l.length l.publication
  tagged : Tagged Prod.fst p.outstanding l.length

theorem Probes.represents_default : Probes.default.Represents [] where
  sequence := rfl
  bounded := Nat.zero_le _
  outstanding := fun s hs => absurd hs.2.1 (not_le.mpr hs.1)
  publication := fun s hs => absurd hs.2.1 (not_le.mpr hs.1)
  tagged := fun i => Or.inl (by rw [Probes.default, List.Vector.get_replicate])

namespace Probes.Represents

variable {p : Probes} {l : Ledger}

theorem request (h : p.Represents l) (now : Nat) :
    (p.request now).1.Represents (l.step (.request now)) := by
  have hsequence := h.sequence
  unfold Probes.request
  simp only [Ledger.step, hsequence]
  by_cases htime : i64Max < now
  · rw [if_pos htime, if_pos (Or.inl htime)]
    exact h
  by_cases hfull : u64Max < l.length + 1
  · rw [if_neg htime, if_pos hfull, if_pos (Or.inr hfull)]
    exact h
  rw [if_neg htime, if_neg hfull, if_neg (not_or.mpr ⟨htime, hfull⟩)]
  have hroom : l.length + 1 ≤ u64Max := not_lt.mp hfull
  have hencode := (encodeProbe_request (Nat.succ_ne_zero l.length) hroom (not_lt.mp htime)).1
  rw [hencode]
  have hlength : (l ++ [(⟨now, false, none⟩ : Request)]).length = l.length + 1 := by simp
  have hold (s : Nat) (hs : Recent 128 l.length s) :
      (l ++ [(⟨now, false, none⟩ : Request)])[s - 1]? = l[s - 1]? := by
    obtain ⟨hpos, hle, -⟩ := hs
    exact List.getElem?_append_left (by omega)
  have hnew : (l ++ [(⟨now, false, none⟩ : Request)])[l.length + 1 - 1]? =
      some ⟨now, false, none⟩ := by
    simp
  refine ⟨hlength.symm, hlength ▸ hroom, ?_, ?_, ?_⟩
  · rw [hlength]
    apply h.outstanding.issue
    · intro s hs
      simp only [Ledger.outstanding, hold s hs]
    · simp only [Ledger.outstanding, hnew, Bool.false_eq_true, if_false]
  · rw [hlength]
    apply h.publication.issue
    · intro s hs
      simp only [Ledger.publication, hold s hs]
    · simp only [Ledger.publication, hnew, Option.bind_some]
  · rw [hlength]
    exact h.tagged.issue rfl

/-- What the slot of a recent request holds. -/
theorem slot_of_recent (h : p.Represents l) {s : Nat} (hs : Recent 128 l.length s) {r : Request}
    (hr : l[s - 1]? = some r) :
    p.outstanding.get (slot 128 s) = (if r.settled then (0, 0) else (s, r.t1)) ∧
      p.publication.get (slot 128 s) = r.publicationNs := by
  constructor
  · rw [h.outstanding s hs, Ledger.outstanding, hr]
  · rw [h.publication s hs, Ledger.publication, hr, Option.bind_some]

theorem publicationFinished (h : p.Represents l) (now : Nat) :
    (p.publicationFinished now).Represents (l.step (.publicationFinished now)) := by
  have hsequence := h.sequence
  by_cases hne : l = []
  · subst hne
    have hidle : p.publicationFinished now = p := if_neg (fun hboth => hboth.2 hsequence)
    rw [hidle]
    exact h
  have hpos : 0 < l.length := List.length_pos_iff.mpr hne
  have hrecent : Recent 128 l.length l.length := ⟨hpos, le_rfl, by omega⟩
  obtain ⟨r, hr⟩ := Ledger.exists_of_recent hrecent
  obtain ⟨hslot, -⟩ := h.slot_of_recent hrecent hr
  simp only [Ledger.step, Probes.publicationFinished, hsequence, hslot]
  cases hsettled : r.settled with
  | true =>
      have hidle : ¬ (0 = l.length ∧ l.length ≠ 0) := fun hboth => hboth.2 hboth.1.symm
      have hkept := l.revise_fixed hr
        (f := fun r => if r.settled then r else { r with publicationNs := checkedSub now r.t1 })
        (by simp only [hsettled, if_true])
      rw [if_pos rfl, if_neg hidle, hkept]
      exact h
  | false =>
      have hchanged : (l.length : Nat) = l.length ∧ l.length ≠ 0 := ⟨rfl, hpos.ne'⟩
      rw [if_neg Bool.false_ne_true, if_pos hchanged]
      refine ⟨?_, ?_, ?_, ?_, ?_⟩
      · rw [Ledger.revise_length]
      · rw [Ledger.revise_length]
        exact h.bounded
      · rw [Ledger.revise_length]
        apply h.outstanding.congr
        intro t ht
        by_cases heq : t = l.length
        · subst heq
          simp only [Ledger.outstanding, Ledger.revise_same, hr, Option.map_some, hsettled,
            Bool.false_eq_true, if_false]
        · simp only [Ledger.outstanding, l.revise_other _ hpos ht.1 heq]
      · rw [Ledger.revise_length]
        apply h.publication.set hrecent
        · intro t ht hother
          simp only [Ledger.publication, l.revise_other _ hpos ht.1 hother]
        · simp only [Ledger.publication, Ledger.revise_same, hr, Option.map_some, hsettled,
            Bool.false_eq_true, if_false, Option.bind_some]
      · rw [Ledger.revise_length]
        exact h.tagged

/-- Settling a recent request empties its slot. -/
theorem settle (h : p.Represents l) {s : Nat} (hs : Recent 128 l.length s)
    (lastPublication : Option Nat) :
    ({ p with
        outstanding := p.outstanding.set (slot 128 s) (0, 0)
        lastPublication := lastPublication } : Probes).Represents
      (l.revise s (fun r => { r with settled := true })) := by
  obtain ⟨r, hr⟩ := Ledger.exists_of_recent hs
  refine ⟨?_, ?_, ?_, ?_, ?_⟩
  · rw [Ledger.revise_length]
    exact h.sequence
  · rw [Ledger.revise_length]
    exact h.bounded
  · rw [Ledger.revise_length]
    apply h.outstanding.set hs
    · intro t ht hother
      simp only [Ledger.outstanding, l.revise_other _ hs.1 ht.1 hother]
    · simp only [Ledger.outstanding, Ledger.revise_same, hr, Option.map_some, if_true]
  · rw [Ledger.revise_length]
    apply h.publication.congr
    intro t ht
    by_cases heq : t = s
    · subst heq
      simp only [Ledger.publication, Ledger.revise_same, hr, Option.map_some, Option.bind_some]
    · simp only [Ledger.publication, l.revise_other _ hs.1 ht.1 heq]
  · rw [Ledger.revise_length]
    exact h.tagged.set s rfl

/-- The slot that a probe points to holds its number and time exactly when the
ledger has an unsettled recent request with them. -/
theorem outstanding_eq_iff (h : p.Represents l) {q : Wire.Probe} (hpos : q.sequence ≠ 0) :
    p.outstanding.get (slot 128 q.sequence) = (q.sequence, q.t1) ↔
      ∃ r, l.recent q.sequence = some r ∧ r.settled = false ∧ q.t1 = r.t1 := by
  simp only [Ledger.recent_eq_some]
  constructor
  · intro hslot
    have hrecent := h.tagged.recent hpos (congrArg Prod.fst hslot)
    obtain ⟨r, hr⟩ := Ledger.exists_of_recent hrecent
    rw [(h.slot_of_recent hrecent hr).1] at hslot
    cases hsettled : r.settled with
    | true =>
        rw [hsettled, if_pos rfl] at hslot
        exact absurd (congrArg Prod.fst hslot).symm hpos
    | false =>
        rw [hsettled, if_neg Bool.false_ne_true] at hslot
        exact ⟨r, ⟨hrecent, hr⟩, hsettled, (congrArg Prod.snd hslot).symm⟩
  · rintro ⟨r, ⟨hrecent, hr⟩, hsettled, htime⟩
    rw [(h.slot_of_recent hrecent hr).1, hsettled, if_neg Bool.false_ne_true, htime]

end Probes.Represents

/-- The possible effects of a reply, in terms of the ledger. -/
inductive Probes.ReplyOutcome (p : Probes) (l : Ledger) (bytes : Bytes) (now : Nat) :
    Probes × Except Error (Option Exchange) → Prop where
  | malformed (e : Error) (hdecode : decodeProbe bytes = .error e) :
      ReplyOutcome p l bytes now ({ p with lastPublication := none }, .error e)
  | ignored (q : Wire.Probe) (hdecode : decodeProbe bytes = .ok q)
      (hunanswered : l.answered bytes now = none) :
      ReplyOutcome p l bytes now ({ p with lastPublication := none }, .ok none)
  | expired (q : Wire.Probe) (r : Request) (hanswered : l.answered bytes now = some (q, r))
      (hlate : maxExchangeNs < now - q.t1) :
      ReplyOutcome p l bytes now
        ({ p with
            outstanding := p.outstanding.set (slot 128 q.sequence) (0, 0)
            lastPublication := none }, .ok none)
  | matched (q : Wire.Probe) (r : Request) (hanswered : l.answered bytes now = some (q, r))
      (htime : now - q.t1 ≤ maxExchangeNs) :
      ReplyOutcome p l bytes now
        ({ p with
            outstanding := p.outstanding.set (slot 128 q.sequence) (0, 0)
            lastPublication := r.publicationNs }, .ok (some ⟨q.t1, q.t2, q.t3, now⟩))

theorem Probes.Represents.reply_outcome {p : Probes} {l : Ledger} (h : p.Represents l)
    (bytes : Bytes) (now : Nat) : p.ReplyOutcome l bytes now (p.reply bytes now) := by
  unfold Probes.reply
  cases hdecode : decodeProbe bytes with
  | error e => exact .malformed e hdecode
  | ok q =>
      have hpos : q.sequence ≠ 0 := (decodeProbe_ok_iff.mp hdecode).2.2.sequence_pos
      have hslot := h.outstanding_eq_iff hpos
      -- A message that the ledger sees answered passes both guards.
      have hguards {r : Request} (hrecent : l.recent q.sequence = some r) (ha : r.Answers q now) :
          ¬ (q.sequence = 0 ∨ p.outstanding.get (slot 128 q.sequence) ≠ (q.sequence, q.t1) ∨
            q.t2 = 0) ∧ ¬ (now < q.t1 ∨ now - q.t1 < q.t3 - q.t2) := by
        have hheld := hslot.mpr ⟨r, hrecent, ha.unsettled, ha.echoed⟩
        refine ⟨?_, not_or.mpr ⟨ha.sent.not_gt, ha.residence.not_gt⟩⟩
        exact not_or.mpr ⟨hpos, not_or.mpr ⟨not_not.mpr hheld, ha.replied⟩⟩
      dsimp only
      split_ifs with hmismatch hinconsistent hlate
      · apply ReplyOutcome.ignored q hdecode
        apply Ledger.answered_eq_none hdecode
        intro r hrecent ha
        exact (hguards hrecent ha).1 hmismatch
      · apply ReplyOutcome.ignored q hdecode
        apply Ledger.answered_eq_none hdecode
        intro r hrecent ha
        exact (hguards hrecent ha).2 hinconsistent
      all_goals
        obtain ⟨-, hrest⟩ := not_or.mp hmismatch
        obtain ⟨hheld, hreplied⟩ := not_or.mp hrest
        obtain ⟨hsent, hresidence⟩ := not_or.mp hinconsistent
        obtain ⟨r, hrecent, hunsettled, hecho⟩ := hslot.mp (not_not.mp hheld)
        have hanswered : l.answered bytes now = some (q, r) :=
          Ledger.answered_eq_some.mpr ⟨hdecode, hrecent, hunsettled, hecho, hreplied,
            not_lt.mp hsent, not_lt.mp hresidence⟩
      · exact .expired q r hanswered hlate
      · obtain ⟨hwindow, hr⟩ := Ledger.recent_eq_some.mp hrecent
        rw [(h.slot_of_recent hwindow hr).2]
        exact .matched q r hanswered (not_lt.mp hlate)

/-- One operation keeps the rings in step with the ledger. -/
theorem Probes.Represents.step {p : Probes} {l : Ledger} (h : p.Represents l) (op : ProbeOp) :
    (p.step op).1.Represents (l.step op) := by
  cases op with
  | request now => exact h.request now
  | publicationFinished now => exact h.publicationFinished now
  | reply bytes now =>
      have hidle : ({ p with lastPublication := none } : Probes).Represents l :=
        ⟨h.sequence, h.bounded, h.outstanding, h.publication, h.tagged⟩
      have hsettle {q : Wire.Probe} {r : Request} (hanswered : l.answered bytes now = some (q, r))
          (lastPublication : Option Nat) :
          ({ p with
              outstanding := p.outstanding.set (slot 128 q.sequence) (0, 0)
              lastPublication := lastPublication } : Probes).Represents
            (l.step (.reply bytes now)) := by
        obtain ⟨-, hrecent, -⟩ := Ledger.answered_eq_some.mp hanswered
        simp only [Ledger.step, hanswered]
        exact h.settle (Ledger.recent_eq_some.mp hrecent).1 lastPublication
      have houtcome := h.reply_outcome bytes now
      simp only [Probes.step]
      generalize p.reply bytes now = result at houtcome ⊢
      cases houtcome with
      | malformed e hdecode =>
          simp only [Ledger.step, Ledger.answered, hdecode]
          exact hidle
      | ignored q hdecode hunanswered =>
          simp only [Ledger.step, hunanswered]
          exact hidle
      | expired q r hanswered => exact hsettle hanswered none
      | matched q r hanswered => exact hsettle hanswered r.publicationNs

/-- The ledger of a run is represented at its end. -/
theorem Probes.represents_after (ops : List ProbeOp) :
    (Probes.after ops).Represents (Ledger.after ops) := by
  induction ops using List.reverseRecOn with
  | nil => exact represents_default
  | append_singleton ops op ih =>
      rw [Ledger.after_append_singleton, Probes.after, Machine.run_append]
      exact ih.step op

namespace Ledger

/-- The request with a number has been settled. -/
def Settled (l : Ledger) (s : Nat) : Prop := ∃ r, l[s - 1]? = some r ∧ r.settled = true

theorem Settled.revise {l : Ledger} {s : Nat} (h : l.Settled s) (t : Nat)
    {f : Request → Request} (hf : ∀ r, r.settled = true → (f r).settled = true) :
    (l.revise t f).Settled s := by
  obtain ⟨r, hr, hsettled⟩ := h
  by_cases heq : t - 1 = s - 1
  · refine ⟨f r, ?_, hf r hsettled⟩
    rw [Ledger.revise, heq, List.getElem?_modify_eq, hr]
    rfl
  · refine ⟨r, ?_, hsettled⟩
    rw [Ledger.revise, List.getElem?_modify_ne f l heq, hr]

/-- What is settled stays settled. -/
theorem Settled.step {l : Ledger} {s : Nat} (h : l.Settled s) (op : ProbeOp) :
    (l.step op).Settled s := by
  cases op with
  | request now =>
      simp only [Ledger.step]
      split_ifs
      · exact h
      · obtain ⟨r, hr, hsettled⟩ := h
        have hlt : s - 1 < l.length := (List.getElem?_eq_some_iff.mp hr).1
        exact ⟨r, by rw [List.getElem?_append_left hlt, hr], hsettled⟩
  | publicationFinished now =>
      apply h.revise
      intro r hr
      simp only [hr, if_true]
  | reply bytes now =>
      simp only [Ledger.step]
      split
      · exact h
      · exact h.revise _ (fun _ _ => rfl)

/-- An entry of the ledger was entered by a request that was not refused. -/
theorem entered {ops : List ProbeOp} {s : Nat} {r : Request} (hpos : 0 < s)
    (h : (after ops)[s - 1]? = some r) :
    ∃ earlier later, ops = earlier ++ .request r.t1 :: later ∧ (after earlier).length + 1 = s ∧
      r.t1 ≤ i64Max ∧ (after earlier).length + 1 ≤ u64Max := by
  induction ops using List.reverseRecOn generalizing r with
  | nil => simp [after] at h
  | append_singleton ops op ih =>
      -- An older entry was entered earlier; revisions do not move its time.
      have hold {r' : Request} (hr' : (after ops)[s - 1]? = some r') (htime : r'.t1 = r.t1) :
          ∃ earlier later, ops ++ [op] = earlier ++ .request r.t1 :: later ∧
            (after earlier).length + 1 = s ∧ r.t1 ≤ i64Max ∧
              (after earlier).length + 1 ≤ u64Max := by
        obtain ⟨earlier, later, hops, hrest⟩ := ih hr'
        rw [htime] at hops hrest
        exact ⟨earlier, later ++ [op], by rw [hops]; simp, hrest⟩
      have hrevised (t : Nat) {f : Request → Request} (hf : ∀ a, (f a).t1 = a.t1)
          (hr : ((after ops).revise t f)[s - 1]? = some r) :
          ∃ r', (after ops)[s - 1]? = some r' ∧ r'.t1 = r.t1 := by
        rw [Ledger.revise, List.getElem?_modify, Option.map_eq_map, Option.map_eq_some_iff] at hr
        obtain ⟨r', hr', heq⟩ := hr
        refine ⟨r', hr', ?_⟩
        split_ifs at heq
        · rw [← heq, hf]
        · rw [heq]
      rw [after_append_singleton] at h
      cases op with
      | request now =>
          simp only [Ledger.step] at h
          split_ifs at h with hrefused
          · exact hold h rfl
          · rcases Nat.lt_or_ge (s - 1) (after ops).length with hlt | hge
            · rw [List.getElem?_append_left hlt] at h
              exact hold h rfl
            · rw [List.getElem?_append_right hge] at h
              have hlast : s - 1 - (after ops).length = 0 := by
                have hlt := (List.getElem?_eq_some_iff.mp h).1
                simp only [List.length_singleton] at hlt
                omega
              rw [hlast, List.getElem?_cons_zero] at h
              obtain rfl := Option.some.inj h
              obtain ⟨htime, hroom⟩ := not_or.mp hrefused
              exact ⟨ops, [], rfl, by omega, not_lt.mp htime, not_lt.mp hroom⟩
      | publicationFinished now =>
          obtain ⟨r', hr', htime⟩ := hrevised _ (fun a => by split_ifs <;> rfl) h
          exact hold hr' htime
      | reply bytes now =>
          simp only [Ledger.step] at h
          split at h
          · exact hold h rfl
          · obtain ⟨r', hr', htime⟩ :=
              hrevised _ (f := fun a => { a with settled := true }) (fun _ => rfl) h
            exact hold hr' htime

/-- A recorded publication was finished while the request was the latest one. -/
theorem published {ops : List ProbeOp} {s d : Nat} {r : Request} (hpos : 0 < s)
    (h : (after ops)[s - 1]? = some r) (hd : r.publicationNs = some d) :
    ∃ earlier later finished, ops = earlier ++ .publicationFinished finished :: later ∧
      (after earlier).length = s ∧ r.t1 ≤ finished ∧ d = finished - r.t1 := by
  induction ops using List.reverseRecOn generalizing r with
  | nil => simp [after] at h
  | append_singleton ops op ih =>
      have hold {r' : Request} (hr' : (after ops)[s - 1]? = some r')
          (hd' : r'.publicationNs = some d) (htime : r'.t1 = r.t1) :
          ∃ earlier later finished,
            ops ++ [op] = earlier ++ .publicationFinished finished :: later ∧
              (after earlier).length = s ∧ r.t1 ≤ finished ∧ d = finished - r.t1 := by
        obtain ⟨earlier, later, finished, hops, hlength, hle, heq⟩ := ih hr' hd'
        rw [htime] at hle heq
        exact ⟨earlier, later ++ [op], finished, by rw [hops]; simp, hlength, hle, heq⟩
      rw [after_append_singleton] at h
      cases op with
      | request now =>
          simp only [Ledger.step] at h
          split_ifs at h
          · exact hold h hd rfl
          · rcases Nat.lt_or_ge (s - 1) (after ops).length with hlt | hge
            · rw [List.getElem?_append_left hlt] at h
              exact hold h hd rfl
            · rw [List.getElem?_append_right hge, List.getElem?_singleton] at h
              split_ifs at h
              obtain rfl := Option.some.inj h
              exact absurd hd (by simp)
      | publicationFinished now =>
          simp only [Ledger.step, Ledger.revise, List.getElem?_modify, Option.map_eq_map,
            Option.map_eq_some_iff] at h
          obtain ⟨r', hr', heq⟩ := h
          have hlt := (List.getElem?_eq_some_iff.mp hr').1
          split_ifs at heq with hlast hsettled
          · exact hold hr' (heq ▸ hd) (heq ▸ rfl)
          · obtain rfl := heq
            simp only [Probes.checkedSub] at hd
            split_ifs at hd with hle
            exact ⟨ops, [], now, rfl, by omega, hle, (Option.some.inj hd).symm⟩
          · exact hold hr' (heq ▸ hd) (heq ▸ rfl)
      | reply bytes now =>
          simp only [Ledger.step] at h
          split at h
          · exact hold h hd rfl
          · simp only [Ledger.revise, List.getElem?_modify, Option.map_eq_map,
              Option.map_eq_some_iff] at h
            obtain ⟨r', hr', heq⟩ := h
            split_ifs at heq
            · obtain rfl := heq
              exact hold hr' hd rfl
            · exact hold hr' (heq ▸ hd) (heq ▸ rfl)

end Ledger

namespace Probes

/-- The exchange that an operation returns, with the number the reply names. -/
def matchedBy (p : Probes) : ProbeOp → Option (Nat × Exchange)
  | .reply bytes now =>
      match decodeProbe bytes, (p.reply bytes now).2 with
      | .ok q, .ok (some x) => some (q.sequence, x)
      | _, _ => none
  | _ => none

/-- The exchanges that a run returns, in order. -/
def matched (p : Probes) : List ProbeOp → List (Nat × Exchange)
  | [] => []
  | op :: rest => (p.matchedBy op).toList ++ matched (p.step op).1 rest

/-- What a match takes from the ledger. -/
theorem Represents.of_matched {p : Probes} {l : Ledger} (h : p.Represents l) {bytes : Bytes}
    {now : Nat} {x : Exchange} (hx : (p.reply bytes now).2 = .ok (some x)) :
    ∃ q r, l.answered bytes now = some (q, r) ∧ x = ⟨q.t1, q.t2, q.t3, now⟩ ∧
      now - q.t1 ≤ maxExchangeNs ∧ (p.reply bytes now).1.lastPublicationNs = r.publicationNs := by
  have houtcome := h.reply_outcome bytes now
  generalize p.reply bytes now = result at houtcome hx ⊢
  cases houtcome with
  | malformed => exact absurd hx (by simp)
  | ignored => exact absurd hx (by simp)
  | expired => exact absurd hx (by simp)
  | matched q r hanswered htime =>
      exact ⟨q, r, hanswered, (Option.some.inj (Except.ok.inj hx)).symm, htime, rfl⟩

/-- A matching step settles a request that was not settled before. -/
theorem Represents.of_matchedBy {p : Probes} {l : Ledger} (h : p.Represents l) {op : ProbeOp}
    {s : Nat} {x : Exchange} (hmatch : p.matchedBy op = some (s, x)) :
    ¬ l.Settled s ∧ (l.step op).Settled s := by
  cases op with
  | request now => exact absurd hmatch (by simp [matchedBy])
  | publicationFinished now => exact absurd hmatch (by simp [matchedBy])
  | reply bytes now =>
      simp only [matchedBy] at hmatch
      split at hmatch
      · next q y hdecode hreply =>
          obtain ⟨rfl, rfl⟩ := Prod.mk.inj (Option.some.inj hmatch)
          obtain ⟨q', r, hanswered, -, -, -⟩ := h.of_matched hreply
          obtain ⟨hdecode', hrecent, ha⟩ := Ledger.answered_eq_some.mp hanswered
          obtain rfl : q = q' := Except.ok.inj (hdecode.symm.trans hdecode')
          obtain ⟨-, hr⟩ := Ledger.recent_eq_some.mp hrecent
          constructor
          · rintro ⟨r', hr', hsettled⟩
            obtain rfl : r = r' := Option.some.inj (hr.symm.trans hr')
            rw [ha.unsettled] at hsettled
            exact absurd hsettled (by decide)
          · simp only [Ledger.step, hanswered]
            exact ⟨{ r with settled := true }, by rw [Ledger.revise_same, hr]; rfl, rfl⟩
      · exact absurd hmatch (by simp)

/-- Along a run no number is matched twice, and none that was settled before. -/
theorem Represents.matched_nodup {p : Probes} {l : Ledger} (h : p.Represents l)
    (ops : List ProbeOp) :
    ((p.matched ops).map Prod.fst).Nodup ∧
      ∀ s ∈ (p.matched ops).map Prod.fst, ¬ l.Settled s := by
  induction ops generalizing p l with
  | nil => exact ⟨List.nodup_nil, fun s hs => absurd hs List.not_mem_nil⟩
  | cons op rest ih =>
      obtain ⟨hnodup, hfresh⟩ := ih (h.step op)
      have hlater (s : Nat) (hs : s ∈ ((p.step op).1.matched rest).map Prod.fst) :
          ¬ l.Settled s := fun hsettled => hfresh s hs (hsettled.step op)
      cases hmatch : p.matchedBy op with
      | none =>
          simp only [matched, hmatch, Option.toList_none, List.nil_append]
          exact ⟨hnodup, hlater⟩
      | some found =>
          obtain ⟨s, x⟩ := found
          obtain ⟨hbefore, hafter⟩ := h.of_matchedBy hmatch
          simp only [matched, hmatch, Option.toList_some, List.singleton_append, List.map_cons]
          refine ⟨List.nodup_cons.mpr ⟨fun hs => hfresh s hs hafter, hnodup⟩, ?_⟩
          intro t ht
          rcases List.mem_cons.mp ht with rfl | hrest
          · exact hbefore
          · exact hlater t hrest

/-- In the course of the operations a request with this number was made at `t1`;
what it sent reads back as number and time. -/
def Issued (ops : List ProbeOp) (s t1 : Nat) : Prop :=
  ∃ earlier later bytes, ops = earlier ++ .request t1 :: later ∧
    ((after earlier).request t1).2 = .ok bytes ∧ decodeProbe bytes = .ok ⟨1, s, t1, 0, 0⟩

theorem issued_of_entry {ops : List ProbeOp} {s : Nat} {r : Request} (hpos : 0 < s)
    (h : (Ledger.after ops)[s - 1]? = some r) : Issued ops s r.t1 := by
  obtain ⟨earlier, later, hops, rfl, htime, hroom⟩ := Ledger.entered hpos h
  obtain ⟨hencode, hdecode⟩ := encodeProbe_request hpos.ne' hroom htime
  refine ⟨earlier, later, _, hops, ?_, hdecode⟩
  have hsequence := (represents_after earlier).sequence
  simp only [request, hsequence, if_neg (not_lt.mpr htime), if_neg (not_lt.mpr hroom), hencode]

end Probes

/-- Matching of replies over every run of one connection. No request yields two
exchanges. A returned exchange answers, by number and time, a request among the
last 128 that was really made and not settled; its times are in order and within
the limit, and the publication delay beside it is the one recorded for that
request while it was the latest. A message that does not answer such a request
changes nothing but that delay, and one that does so in time is matched. -/
theorem probe_matching (ops : List ProbeOp) :
    ((Probes.default.matched ops).map Prod.fst).Nodup ∧
    ∀ (bytes : Bytes) (now : Nat),
      (∀ x, ((Probes.after ops).reply bytes now).2 = .ok (some x) →
        ∃ q r, decodeProbe bytes = .ok q ∧ (Ledger.after ops).recent q.sequence = some r ∧
          Recent 128 (Probes.after ops).sequence q.sequence ∧
          Probes.Issued ops q.sequence x.t1 ∧ x = ⟨q.t1, q.t2, q.t3, now⟩ ∧
          r.t1 = x.t1 ∧ r.settled = false ∧
          0 < x.t2 ∧ x.t2 ≤ x.t3 ∧ x.t1 ≤ x.t4 ∧ x.t3 - x.t2 ≤ x.t4 - x.t1 ∧
          x.t4 - x.t1 ≤ maxExchangeNs ∧
          ((Probes.after ops).reply bytes now).1.lastPublicationNs = r.publicationNs ∧
          ∀ d, r.publicationNs = some d →
            ∃ earlier later finished, ops = earlier ++ .publicationFinished finished :: later ∧
              (Probes.after earlier).sequence = q.sequence ∧ x.t1 ≤ finished ∧
              d = finished - x.t1) ∧
      ((∀ q r, decodeProbe bytes = .ok q → (Ledger.after ops).recent q.sequence = some r →
          ¬ r.Answers q now) →
        ((Probes.after ops).reply bytes now).1 =
            { Probes.after ops with lastPublication := none } ∧
          ∀ x, ((Probes.after ops).reply bytes now).2 ≠ .ok (some x)) ∧
      (∀ q r, decodeProbe bytes = .ok q → (Ledger.after ops).recent q.sequence = some r →
        r.Answers q now → now - q.t1 ≤ maxExchangeNs →
          ((Probes.after ops).reply bytes now).2 = .ok (some ⟨q.t1, q.t2, q.t3, now⟩)) := by
  have hrepresents := Probes.represents_after ops
  refine ⟨(Probes.represents_default.matched_nodup ops).1, fun bytes now => ⟨?_, ?_, ?_⟩⟩
  · intro x hx
    obtain ⟨q, r, hanswered, rfl, htime, hpublication⟩ := hrepresents.of_matched hx
    obtain ⟨hdecode, hrecent, ha⟩ := Ledger.answered_eq_some.mp hanswered
    obtain ⟨hwindow, hr⟩ := Ledger.recent_eq_some.mp hrecent
    have hissued := Probes.issued_of_entry hwindow.1 hr
    rw [← ha.echoed] at hissued
    refine ⟨q, r, hdecode, hrecent, hrepresents.sequence ▸ hwindow, hissued, rfl, ha.echoed.symm,
      ha.unsettled, Nat.pos_of_ne_zero ha.replied, (decodeProbe_ok_iff.mp hdecode).2.2.ordered,
      ha.sent, ha.residence, htime, hpublication, ?_⟩
    intro d hd
    obtain ⟨earlier, later, finished, hops, hlength, hle, heq⟩ :=
      Ledger.published hwindow.1 hr hd
    rw [← ha.echoed] at hle heq
    exact ⟨earlier, later, finished, hops,
      (Probes.represents_after earlier).sequence.trans hlength, hle, heq⟩
  · intro hnone
    have houtcome := hrepresents.reply_outcome bytes now
    have hcontra {q : Wire.Probe} {r : Request}
        (hanswered : (Ledger.after ops).answered bytes now = some (q, r)) : False := by
      obtain ⟨hdecode, hrecent, ha⟩ := Ledger.answered_eq_some.mp hanswered
      exact hnone q r hdecode hrecent ha
    generalize (Probes.after ops).reply bytes now = result at houtcome ⊢
    cases houtcome with
    | malformed => exact ⟨rfl, fun x => by simp⟩
    | ignored => exact ⟨rfl, fun x => by simp⟩
    | expired q r hanswered => exact (hcontra hanswered).elim
    | matched q r hanswered => exact (hcontra hanswered).elim
  · intro q r hdecode hrecent ha htime
    have hanswered := Ledger.answered_eq_some.mpr ⟨hdecode, hrecent, ha⟩
    have houtcome := hrepresents.reply_outcome bytes now
    generalize (Probes.after ops).reply bytes now = result at houtcome ⊢
    cases houtcome with
    | malformed e herror => exact absurd (hdecode.symm.trans herror) (by simp)
    | ignored q' _ hunanswered => exact absurd (hanswered.symm.trans hunanswered) (by simp)
    | expired q' r' hanswered' hlate =>
        obtain ⟨rfl, rfl⟩ := Prod.mk.inj (Option.some.inj (hanswered.symm.trans hanswered'))
        exact absurd htime hlate.not_ge
    | matched q' r' hanswered' =>
        obtain ⟨rfl, rfl⟩ := Prod.mk.inj (Option.some.inj (hanswered.symm.trans hanswered'))
        rfl

/-- Two requests answered in the opposite order: each match has the publication
delay of its own request, and a repeated reply has none. -/
example :
    let second := serialize (Wire.Probe.fields ⟨1, 2, 200, 1100, 1110⟩)
    let first := serialize (Wire.Probe.fields ⟨1, 1, 100, 1000, 1010⟩)
    let sent : List ProbeOp :=
      [.request 100, .publicationFinished 110, .request 200, .publicationFinished 230]
    ((Probes.after sent).reply second 300).1.lastPublicationNs = some 30 ∧
      ((Probes.after (sent ++ [.reply second 300])).reply first 400).1.lastPublicationNs =
        some 10 ∧
      (Probes.after
        (sent ++ [.reply second 300, .reply first 400, .reply first 500])).lastPublicationNs =
        none := by
  decide +kernel

end Tidkod
