import Mathlib.Tactic
import Tidkod.Lib.Panics
import Tidkod.Protocol.Encoding
import Tidkod.Protocol.Follower
import Tidkod.Protocol.Motion

/-!
Timecode arithmetic, the conversions from the wire and the reading of a timeline, with
every operation that can panic made explicit. A function with the suffix `M` does what
its namesake does and may stop in a panic; the theorem next to it says under which
conditions it returns the value of its namesake. Casts wrap around here.
-/

namespace Tidkod

open Rounding Panics TimedQueue Proto3

def u32 : Unsigned := ⟨2 ^ 32 - 1⟩
def u64 : Unsigned := ⟨u64Max⟩
def i32 : Signed := ⟨-2 ^ 31, 2 ^ 31 - 1⟩
def i64 : Signed := ⟨i64Min, i64Max⟩
def i128 : Signed := ⟨i128Min, i128Max⟩

theorem i128_has {x : Int} (h : x.natAbs ≤ 2 ^ 126) : i128.Has x := by
  simp only [Signed.Has, i128, i128Min, i128Max]
  omega

def Position.fixedM (p : Position) : Checked Int := do
  let frames ← i128.mul p.frames q32
  i128.add frames p.subframe

/-- The shift is arithmetic, and the casts keep the low bits. -/
def Position.fromFixedM (value : Int) : Checked Position := do
  let hi ← i128.add (i64Max * q32) (q32 - 1)
  let v := clamp (i64Min * q32) hi value
  pure
    { frames := i64.wrap (v >>> (32 : Nat))
      subframe := u32.wrap v
      frames_mem := Signed.wrap_has (by decide) _
      subframe_lt := Nat.lt_succ_of_le (Unsigned.wrap_le v) }

/-- The addition to the position saturates. -/
def Position.advanceM (p : Position) (elapsedNs : Int) (format : FrameFormat) (rate : Rate) :
    Checked Position := do
  let scaled ← i128.mul elapsedNs format.numerator
  let num ← i128.mul scaled rate.numerator
  let second ← i128.mul 1000000000 format.denominator
  let den ← i128.mul second rate.denominator
  let quotient ← i128.div num den
  let whole ← i128.mul quotient q32
  let remainder ← i128.rem num den
  let scaledRemainder ← i128.mul remainder q32
  let fraction ← i128.div scaledRemainder den
  let delta ← i128.add whole fraction
  let fixed ← p.fixedM
  fromFixedM (clamp i128Min i128Max (fixed + delta))

theorem Position.natAbs_fixed_le (p : Position) : p.fixed.natAbs ≤ 2 ^ 95 := by
  have hmem := p.fixed_mem
  simp only [fixedMin, fixedMax, i64Min, i64Max, q32] at hmem
  omega

theorem Position.fixedM_eq (p : Position) : p.fixedM = .ok p.fixed := by
  have hframes := p.frames_mem
  simp only [i64Min, i64Max] at hframes
  have hscaled : i128.Has (p.frames * q32) := by
    apply i128_has
    simp only [q32]
    omega
  have hfixed : i128.Has (p.frames * q32 + p.subframe) :=
    i128_has (p.natAbs_fixed_le.trans (by norm_num))
  rw [fixedM, Signed.mul_ok hscaled, bind_ok, Signed.add_ok hfixed, fixed]

theorem Position.ext_parts {p q : Position} (hframes : p.frames = q.frames)
    (hsubframe : p.subframe = q.subframe) : p = q := by
  cases p
  cases q
  cases hframes
  cases hsubframe
  rfl

/-- After the clamp the casts lose nothing. -/
theorem Position.fromFixedM_eq (value : Int) : fromFixedM value = .ok (fromFixed value) := by
  have hlimit : i128.Has (i64Max * q32 + (q32 - 1)) := by decide
  have hmem := clamp_mem (by decide : fixedMin ≤ fixedMax) value
  have hshift :
      clamp fixedMin fixedMax value >>> (32 : Nat) = clamp fixedMin fixedMax value / q32 :=
    Int.shiftRight_eq_div_pow _ 32
  rw [fromFixedM, Signed.add_ok hlimit, bind_ok]
  apply congrArg Except.ok
  apply Position.ext_parts
  · change i64.wrap (clamp fixedMin fixedMax value >>> (32 : Nat)) =
      clamp fixedMin fixedMax value / q32
    rw [hshift]
    apply Signed.wrap_of_has
    simp only [fixedMin, fixedMax, i64Min, i64Max, q32, Signed.Has, i64] at hmem ⊢
    omega
  · rfl

/-- The products of `advance` in terms of its divisor: a playback rate of at most 64
and a frame rate of at most 60 move less than `2 ^ 55` frames in any elapsed time. -/
theorem Position.natAbs_num_le {elapsedNs : Int} (helapsed : i64.Has elapsedNs)
    (format : FrameFormat) (rate : Rate) :
    (elapsedNs * format.numerator * rate.numerator).natAbs ≤
      2 ^ 55 * (1000000000 * format.denominator * rate.denominator) := by
  have hrates : ∀ r ∈ frameRates, r.1 ≤ 60000 ∧ 1 ≤ r.2 := by decide
  obtain ⟨hformat, hden⟩ := hrates _ format.supported.1
  have htime : elapsedNs.natAbs ≤ 2 ^ 63 := by
    simp only [Signed.Has, i64, i64Min, i64Max] at helapsed
    omega
  rw [Int.natAbs_mul, Int.natAbs_mul, Int.natAbs_natCast]
  calc
    elapsedNs.natAbs * format.numerator * rate.numerator.natAbs
      ≤ 2 ^ 63 * 60000 * (rate.denominator * 64) :=
        Nat.mul_le_mul (Nat.mul_le_mul htime hformat) rate.admitted.2.2.2
    _ ≤ 2 ^ 55 * (1000000000 * 1 * rate.denominator) := by omega
    _ ≤ 2 ^ 55 * (1000000000 * format.denominator * rate.denominator) :=
        Nat.mul_le_mul_left _
          (Nat.mul_le_mul_right _ (Nat.mul_le_mul_left _ hden))

theorem Position.den_bounds (format : FrameFormat) (rate : Rate) :
    0 < 1000000000 * format.denominator * rate.denominator ∧
      1000000000 * format.denominator * rate.denominator ≤ 2 ^ 60 := by
  have hrates : ∀ r ∈ frameRates, r.2 ≤ 1001 := by decide
  have hformat : format.denominator ≤ 1001 := hrates _ format.supported.1
  have hpos := format.denominator_pos
  have hpos' := rate.denominator_pos
  refine ⟨by positivity, ?_⟩
  calc
    1000000000 * format.denominator * rate.denominator
      ≤ 1000000000 * 1001 * 1000000 :=
        Nat.mul_le_mul (Nat.mul_le_mul_left _ hformat) rate.admitted.2.1
    _ ≤ 2 ^ 60 := by norm_num

/-- All products fit, whatever the elapsed time, the position and the rates are. -/
theorem Position.advanceM_eq (p : Position) {elapsedNs : Int} (helapsed : i64.Has elapsedNs)
    (format : FrameFormat) (rate : Rate) :
    p.advanceM elapsedNs format rate = .ok (p.advance elapsedNs format rate) := by
  have hnum := natAbs_num_le helapsed format rate
  obtain ⟨hpos, hden⟩ := den_bounds format rate
  have hrates : ∀ r ∈ frameRates, r.1 ≤ 60000 ∧ r.2 ≤ 1001 := by decide
  obtain ⟨hformat, hformat'⟩ := hrates _ format.supported.1
  have hscaled : i128.Has (elapsedNs * format.numerator) := by
    apply i128_has
    simp only [Signed.Has, i64, i64Min, i64Max] at helapsed
    rw [Int.natAbs_mul, Int.natAbs_natCast]
    calc
      elapsedNs.natAbs * format.numerator ≤ 2 ^ 63 * 60000 :=
        Nat.mul_le_mul (by omega) hformat
      _ ≤ 2 ^ 126 := by norm_num
  have hsecond : i128.Has (1000000000 * (format.denominator : Int)) := by
    apply i128_has
    omega
  have hdenCast : 1000000000 * (format.denominator : Int) * rate.denominator =
      ((1000000000 * format.denominator * rate.denominator : Nat) : Int) := by
    push_cast
    rfl
  have hdenHas : i128.Has (1000000000 * (format.denominator : Int) * rate.denominator) := by
    rw [hdenCast]
    exact i128_has (by omega)
  have hnumHas : i128.Has (elapsedNs * format.numerator * rate.numerator) :=
    i128_has (hnum.trans (by omega))
  rw [advanceM, Signed.mul_ok hscaled, bind_ok, Signed.mul_ok hnumHas, bind_ok,
    Signed.mul_ok hsecond, bind_ok, Signed.mul_ok hdenHas, bind_ok, advance]
  simp only [hdenCast]
  generalize elapsedNs * (format.numerator : Int) * rate.numerator = num at hnum ⊢
  generalize 1000000000 * format.denominator * rate.denominator = den at hnum hpos hden ⊢
  have hne : (den : Int) ≠ 0 := by omega
  have hquotient : (num.tdiv den).natAbs ≤ 2 ^ 55 := by
    rw [Int.natAbs_tdiv, Int.natAbs_natCast]
    apply Nat.div_le_of_le_mul
    rw [Nat.mul_comm]
    exact hnum
  have hremainder : (num.tmod den).natAbs < den := by
    rw [Int.natAbs_tmod, Int.natAbs_natCast]
    exact Nat.mod_lt _ hpos
  have hfraction : ((num.tmod den * q32).tdiv den).natAbs ≤ 2 ^ 32 := by
    rw [Int.natAbs_tdiv, Int.natAbs_natCast, Int.natAbs_mul]
    apply Nat.div_le_of_le_mul
    exact Nat.mul_le_mul hremainder.le (by decide)
  generalize hq : num.tdiv den = quotient at hquotient ⊢
  generalize hr : num.tmod den = remainder at hremainder hfraction ⊢
  have hwhole : i128.Has (quotient * q32) := i128_has (by
    simp only [q32]
    omega)
  have hscaledRemainder : i128.Has (remainder * q32) := i128_has (by
    simp only [q32]
    omega)
  have hdelta : i128.Has (quotient * q32 + (remainder * q32).tdiv den) := i128_has (by
    simp only [q32] at hfraction ⊢
    omega)
  have hquotientHas : i128.Has (num.tdiv den) := i128_has (by omega)
  have hfractionHas : i128.Has ((remainder * q32).tdiv den) := i128_has (by omega)
  rw [Signed.div_ok hne hquotientHas, bind_ok, hq, Signed.mul_ok hwhole, bind_ok,
    Signed.rem_ok hne hquotientHas, bind_ok, hr, Signed.mul_ok hscaledRemainder, bind_ok,
    Signed.div_ok hne hfractionHas, bind_ok, Signed.add_ok hdelta, bind_ok, p.fixedM_eq, bind_ok,
    fromFixedM_eq]

/-- `Result<T, Error>` of a function that may panic. -/
abbrev Fallible (α : Type) := ExceptT Error Checked α

/-- The value or the error of a function that did not panic. -/
def returned {α : Type} (r : Except Error α) : Fallible α := ExceptT.mk (.ok r)

def unwrapM {α : Type} (o : Option α) : Fallible α := ExceptT.lift (unwrapSome o)

section Fallible

variable {α β : Type}

@[simp] theorem unwrapM_some (a : α) : unwrapM (some a) = returned (.ok a) := rfl

@[simp] theorem lift_error (r : Except Error α) : (liftM r : Fallible α) = returned r := rfl

@[simp] theorem lift_checked (a : α) :
    (liftM (.ok a : Checked α) : Fallible α) = returned (.ok a) := rfl

@[simp] theorem pure_eq_returned (a : α) : (pure a : Fallible α) = returned (.ok a) := rfl

@[simp] theorem returned_ok_bind (a : α) (f : α → Fallible β) : returned (.ok a) >>= f = f a := rfl

@[simp] theorem returned_error_bind (e : Error) (f : α → Fallible β) :
    returned (.error e) >>= f = returned (.error e) := rfl

/-- Where every continuation returns, the whole does. -/
theorem returned_bind (r : Except Error α) {f : α → Fallible β} {g : α → Except Error β}
    (h : ∀ a, r = .ok a → f a = returned (g a)) : returned r >>= f = returned (r >>= g) := by
  cases r with
  | error e => rfl
  | ok a => exact h a rfl

end Fallible

/-- The loop of `Rate::new`. -/
def euclidM (a b : Nat) : Checked Nat :=
  if _h : b = 0 then .ok a
  else do
    let _ ← u32.rem a b
    euclidM b (a % b)
termination_by b
decreasing_by exact Nat.mod_lt _ (Nat.pos_of_ne_zero _h)

/-- A rate with the given parts; parts that break its invariant would be a fault. -/
def Rate.ofParts (numerator : Int) (denominator : Nat) : Checked Rate :=
  if h : AdmittedRate numerator denominator ∧ Nat.gcd numerator.natAbs denominator = 1 then
    .ok ⟨numerator, denominator, h.1, h.2⟩
  else .error .outOfRange

def Rate.newM (numerator : Int) (denominator : Nat) : Fallible Rate :=
  if denominator = 0 ∨ 1000000 < denominator ∨ 1000000 < numerator.natAbs then
    throw (.invalid "rate (maximum magnitude 64)")
  else do
    let limit ← u64.mul denominator 64
    if limit < numerator.natAbs then throw (.invalid "rate (maximum magnitude 64)")
    else do
      let a ← euclidM numerator.natAbs denominator
      let reducedNumerator ← i32.div numerator (i32.wrap a)
      let reducedDenominator ← u32.div denominator a
      Rate.ofParts reducedNumerator reducedDenominator

theorem Rate.ofParts_parts (r : Rate) : ofParts r.numerator r.denominator = .ok r :=
  dif_pos ⟨r.admitted, r.reduced⟩

theorem euclidM_eq (a b : Nat) : euclidM a b = .ok (euclid a b) := by
  induction a, b using euclid.induct with
  | case1 a => rw [euclidM, euclid, dif_pos rfl, dif_pos rfl]
  | case2 a b h ih => rw [euclidM, euclid, dif_neg h, dif_neg h, Unsigned.rem_ok h, bind_ok, ih]

/-- No argument makes the validation of a rate panic. -/
theorem Rate.newM_eq (numerator : Int) (denominator : Nat) :
    Rate.newM numerator denominator = returned (Rate.new numerator denominator) := by
  unfold Rate.newM
  by_cases hfirst : denominator = 0 ∨ 1000000 < denominator ∨ 1000000 < numerator.natAbs
  · have hrejected : ¬ AdmittedRate numerator denominator := by
      rintro ⟨hpos, hden, hnum, -⟩
      omega
    rw [if_pos hfirst, Rate.new, dif_neg hrejected]
    rfl
  · simp only [not_or, not_lt] at hfirst
    obtain ⟨hpos, hden, hnum⟩ := hfirst
    have hlimit : u64.mul denominator 64 = .ok (denominator * 64) := by
      apply Unsigned.mul_ok
      simp only [u64, u64Max]
      omega
    rw [if_neg (by omega), hlimit, lift_checked, returned_ok_bind]
    by_cases hratio : denominator * 64 < numerator.natAbs
    · have hrejected : ¬ AdmittedRate numerator denominator := by
        rintro ⟨-, -, -, hle⟩
        omega
      rw [if_pos hratio, Rate.new, dif_neg hrejected]
      rfl
    · have hadmitted : AdmittedRate numerator denominator := ⟨hpos, hden, hnum, by omega⟩
      have hgcd : euclid numerator.natAbs denominator ≠ 0 ∧
          euclid numerator.natAbs denominator ≤ denominator := by
        rw [euclid_eq_gcd]
        have hpos' := Nat.pos_of_ne_zero hpos
        exact ⟨(Nat.gcd_pos_of_pos_right _ hpos').ne',
          Nat.le_of_dvd hpos' (Nat.gcd_dvd_right _ _)⟩
      have hcast : i32.wrap (euclid numerator.natAbs denominator) =
          (euclid numerator.natAbs denominator : Nat) := by
        apply Signed.wrap_of_has
        simp only [Signed.Has, i32]
        omega
      have hquotient : i32.Has (numerator.tdiv (euclid numerator.natAbs denominator)) := by
        have hle : (numerator.tdiv (euclid numerator.natAbs denominator)).natAbs ≤
            numerator.natAbs := by
          rw [Int.natAbs_tdiv]
          exact Nat.div_le_self _ _
        simp only [Signed.Has, i32]
        omega
      obtain ⟨r, hr, hnumerator, hdenominator⟩ : ∃ r, Rate.new numerator denominator = .ok r ∧
          r.numerator = numerator.tdiv (euclid numerator.natAbs denominator) ∧
          r.denominator = denominator / euclid numerator.natAbs denominator :=
        ⟨_, by rw [Rate.new, dif_pos hadmitted], rfl, rfl⟩
      rw [if_neg hratio, euclidM_eq, lift_checked, returned_ok_bind, hcast,
        Signed.div_ok (by exact_mod_cast hgcd.1) hquotient, lift_checked, returned_ok_bind,
        Unsigned.div_ok hgcd.1, lift_checked, returned_ok_bind, ← hnumerator, ← hdenominator,
        Rate.ofParts_parts, hr]
      rfl

def validateAnchorM (a : Wire.Anchor) : Fallible Unit := do
  reject (i64Max < a.timeNs) (.invalid "timestamp")
  let _ ← okOr a.position (.invalid "position missing")
  let r ← okOr a.rate (.invalid "rate missing")
  let _ ← Rate.newM r.numerator r.denominator
  pure ()

def validateScheduleM (time disc : Nat) : List Wire.ScheduledChange → Fallible Unit
  | [] => pure ()
  | c :: rest => do
      let a ← okOr c.anchor (.invalid "scheduled anchor missing")
      validateAnchorM a
      reject (a.timeNs ≤ time ∨ c.discontinuity ≤ disc) (.invalid "schedule order")
      validateScheduleM a.timeNs c.discontinuity rest

def validateSnapshotM (s : Wire.Snapshot) : Fallible Unit := do
  reject (s.version ≠ version) (.version s.version)
  reject (s.session.length ≠ 16 ∨ s.revision = 0) (.invalid "identity/revision")
  reject (s.sessionId ≠ [] ∧ s.sessionId.length ≠ 16) (.invalid "recording session ID")
  reject (¬ (s.sourceKind = 1 ∨ s.sourceKind = 2) ∨ ¬ (s.sourceHealth = 1 ∨ s.sourceHealth = 2))
    (.invalid "source enum")
  let f ← okOr s.format (.invalid "format missing")
  let _ ← FrameFormat.new f.numerator f.denominator f.dropFrame
  let a ← okOr s.anchor (.invalid "anchor missing")
  validateAnchorM a
  reject (maxScheduled < s.scheduled.length) (.invalid "schedule capacity")
  validateScheduleM a.timeNs s.discontinuity s.scheduled

def decodeSnapshotM (bytes : Bytes) : Fallible Wire.Snapshot := do
  reject (maxMessage < bytes.length) .size
  let s ← okOr
    (decode recursionLimit (Wire.Snapshot.merge recursionLimit) Wire.Snapshot.default bytes) .decode
  validateSnapshotM s
  pure s

def Anchor.fromWireM (a : Wire.Anchor) : Fallible Anchor := do
  let p ← okOr a.position (.invalid "position")
  let r ← okOr a.rate (.invalid "rate")
  let rate ← Rate.newM r.numerator r.denominator
  pure
    { timeNs := a.timeNs
      position := ⟨p.frames, p.subframe, p.frames_mem, p.subframe_lt⟩
      rate := rate }

def Scheduled.fromWireM (c : Wire.ScheduledChange) : Fallible Scheduled := do
  let a ← unwrapM c.anchor
  let anchor ← Anchor.fromWireM a
  pure ⟨c.discontinuity, anchor⟩

/-- `scheduled_len` counts all entries of the message; the entries that the array of four
does not have stand for themselves as defaults, which only a slice that panics would read. -/
def Timeline.fromWireM (s : Wire.Snapshot) : Fallible Timeline := do
  validateSnapshotM s
  let f ← unwrapM s.format
  let session ← unwrapM (toBytes16 s.session)
  let format ← FrameFormat.new f.numerator f.denominator f.dropFrame
  let a ← unwrapM s.anchor
  let anchor ← Anchor.fromWireM a
  let scheduled ← (s.scheduled.take maxScheduled).mapM Scheduled.fromWireM
  pure
    { session := session
      sessionId := toBytes16 s.sessionId
      revision := s.revision
      discontinuity := s.discontinuity
      format := format
      anchor := anchor
      sourceKind := if s.sourceKind = 1 then .generated else .tracked
      sourceHealth := if s.sourceHealth = 1 then .healthy else .degraded
      scheduled :=
        scheduled ++ List.replicate (s.scheduled.length - maxScheduled) ⟨0, Anchor.default⟩ }

theorem validateAnchorM_eq (a : Wire.Anchor) : validateAnchorM a = returned (validateAnchor a) := by
  unfold validateAnchorM validateAnchor
  simp only [lift_error, Rate.newM_eq, pure_eq_returned]
  refine returned_bind _ fun _ _ => ?_
  refine returned_bind _ fun _ _ => ?_
  refine returned_bind _ fun _ _ => ?_
  exact returned_bind _ fun _ _ => rfl

theorem validateScheduleM_eq (time disc : Nat) (cs : List Wire.ScheduledChange) :
    validateScheduleM time disc cs = returned (validateSchedule time disc cs) := by
  induction cs generalizing time disc with
  | nil => rfl
  | cons c rest ih =>
      unfold validateScheduleM validateSchedule
      simp only [lift_error, validateAnchorM_eq]
      refine returned_bind _ fun _ _ => ?_
      refine returned_bind _ fun _ _ => ?_
      exact returned_bind _ fun _ _ => ih _ _

theorem validateSnapshotM_eq (s : Wire.Snapshot) :
    validateSnapshotM s = returned (validateSnapshot s) := by
  unfold validateSnapshotM validateSnapshot
  simp only [lift_error, validateAnchorM_eq, validateScheduleM_eq]
  -- One step for each check of the source, in its order.
  iterate 9 refine returned_bind _ fun _ _ => ?_
  rfl

theorem decodeSnapshotM_eq (bytes : Bytes) :
    decodeSnapshotM bytes = returned (decodeSnapshot bytes) := by
  unfold decodeSnapshotM decodeSnapshot
  simp only [lift_error, validateSnapshotM_eq]
  refine returned_bind _ fun _ _ => ?_
  refine returned_bind _ fun _ _ => ?_
  exact returned_bind _ fun _ _ => rfl

theorem Anchor.fromWireM_eq (a : Wire.Anchor) : fromWireM a = returned (fromWire a) := by
  unfold fromWireM fromWire
  simp only [lift_error, Rate.newM_eq]
  refine returned_bind _ fun _ _ => ?_
  refine returned_bind _ fun _ _ => ?_
  exact returned_bind _ fun _ _ => rfl

theorem unwrap_eq_ok {α : Type} {o : Option α} {a : α} : unwrap o = .ok a ↔ o = some a := by
  cases o <;> simp [unwrap]

theorem propagate_eq_ok {α : Type} {r : Except Error α} {a : α} :
    propagate r = .ok a ↔ r = .ok a := by
  cases r <;> simp [propagate]

theorem Scheduled.fromWireM_ok {c : Wire.ScheduledChange} {s : Scheduled}
    (h : fromWire c = .ok s) : fromWireM c = returned (.ok s) := by
  obtain ⟨discontinuity, anchor⟩ := c
  cases anchor with
  | none => cases h
  | some a =>
      simp only [fromWire, unwrap_some, ok_bind] at h
      simp only [fromWireM, unwrapM_some, returned_ok_bind, Anchor.fromWireM_eq]
      cases hanchor : Anchor.fromWire a with
      | error e =>
          rw [hanchor] at h
          cases h
      | ok b =>
          rw [hanchor] at h
          cases h
          rfl

theorem Scheduled.mapM_fromWireM_ok {cs : List Wire.ScheduledChange} {ss : List Scheduled}
    (h : cs.mapM fromWire = .ok ss) : cs.mapM fromWireM = returned (.ok ss) := by
  induction cs generalizing ss with
  | nil =>
      cases h
      rfl
  | cons c rest ih =>
      rw [List.mapM_cons, bind_eq_ok] at h
      obtain ⟨s, hs, h⟩ := h
      rw [bind_eq_ok] at h
      obtain ⟨tail, htail, h⟩ := h
      cases h
      rw [List.mapM_cons, fromWireM_ok hs, returned_ok_bind, ih htail, returned_ok_bind]
      rfl

/-- The conversion never panics, and a schedule that passed validation fits the array. -/
theorem Timeline.fromWireM_eq (s : Wire.Snapshot) :
    ∃ r, fromWireM s = returned r ∧ fromWire s = propagate r := by
  cases hvalidate : validateSnapshot s with
  | error e =>
      refine ⟨.error e, ?_, ?_⟩
      · rw [fromWireM, validateSnapshotM_eq, hvalidate]
        rfl
      · rw [fromWire, hvalidate]
        rfl
  | ok _ =>
      have hwell := (validateSnapshot_ok_iff s).mp hvalidate
      obtain ⟨t, ht, -⟩ := fromWire_of_wellFormed hwell
      refine ⟨.ok t, ?_, ht⟩
      have hnone : s.scheduled.length - maxScheduled = 0 := by
        have hcapacity := hwell.capacity
        simp only [maxScheduled]
        omega
      simp only [fromWire, bind_eq_ok, unwrap_eq_ok, propagate_eq_ok] at ht
      obtain ⟨_, -, f, hf, session, hsession, format, hformat, a, ha, anchor, hanchor, scheduled,
        hscheduled, ht⟩ := ht
      cases ht
      simp only [fromWireM, validateSnapshotM_eq, hvalidate, returned_ok_bind, hf, unwrapM_some,
        hsession, lift_error, hformat, ha, Anchor.fromWireM_eq, hanchor,
        Scheduled.mapM_fromWireM_ok hscheduled, hnone, List.replicate_zero, List.append_nil]
      rfl

/-! Reading a timeline. -/

def FrameFormat.fpsM (f : FrameFormat) : Checked ℚ := divide f.numerator f.denominator

def Rate.asF64M (r : Rate) : Checked ℚ := divide r.numerator r.denominator

def Anchor.atM (a : Anchor) (time : Nat) (format : FrameFormat) : Checked Position := do
  let elapsed ← i128.sub time a.timeNs
  a.position.advanceM (i64.wrap (clamp i64Min i64Max elapsed)) format a.rate

namespace Timeline

/-- `&self.scheduled[..self.scheduled_len]`. -/
def liveM (t : Timeline) : Checked (List Scheduled) := slice maxScheduled t.scheduled

def atM (t : Timeline) (time : Nat) : Checked (Position × Rate × Nat) := do
  let live ← t.liveM
  let (a, d) := live.foldl
    (fun (a, d) s => if s.anchor.timeNs ≤ time then (s.anchor, s.discontinuity) else (a, d))
    (t.anchor, t.discontinuity)
  let position ← a.atM time t.format
  pure (position, a.rate, d)

/-- The loop of `latch`, with the number of scheduled entries counted down. -/
def latchLoopM (discontinuity : Nat) (entry : Scheduled) :
    List Scheduled → Checked (Scheduled × List Scheduled)
  | [] => pure (entry, [])
  | next :: rest =>
      if next.discontinuity ≤ discontinuity then do
        let _ ← index maxScheduled 0
        let _ ← u64.sub (rest.length + 1) 1
        latchLoopM discontinuity next rest
      else pure (entry, next :: rest)

def latchM (t : Timeline) (discontinuity : Nat) : Checked Timeline := do
  let latched ← latchLoopM discontinuity t.active t.scheduled
  pure
    { t with
      anchor := latched.1.anchor
      discontinuity := latched.1.discontinuity
      scheduled := latched.2 }

/-- The times fit the clock range and the schedule fits its array. -/
structure Fits (t : Timeline) : Prop where
  time_le : ∀ s ∈ t.active :: t.scheduled, s.timeNs ≤ i64Max
  capacity : t.scheduled.length ≤ maxScheduled

theorem Valid.fits {t : Timeline} (h : t.Valid) : t.Fits := ⟨h.time_le, h.capacity⟩

theorem fits_fallback (position : Position) (format : FrameFormat) :
    (fallback position format).Fits where
  time_le := by
    intro s hs
    obtain rfl := List.mem_singleton.mp hs
    exact Nat.zero_le _
  capacity := Nat.zero_le _

theorem Fits.latch {t : Timeline} (h : t.Fits) (discontinuity : Nat) :
    (t.latch discontinuity).Fits where
  time_le := fun s hs => h.time_le s ((popWhile_suffix _ t.active t.scheduled).subset hs)
  capacity := by
    have hlength := (popWhile_suffix (fun s : Scheduled => s.discontinuity ≤ discontinuity)
      t.active t.scheduled).length_le
    simp only [List.length_cons] at hlength
    exact (Nat.le_of_succ_le_succ hlength).trans h.capacity

end Timeline

theorem FrameFormat.fpsM_eq (f : FrameFormat) : f.fpsM = .ok f.fps :=
  divide_ok (by exact_mod_cast f.denominator_pos.ne')

theorem Rate.asF64M_eq (r : Rate) : r.asF64M = .ok r.asF64 :=
  divide_ok (by exact_mod_cast r.denominator_pos.ne')

theorem Anchor.atM_eq {a : Anchor} {time : Nat} (ha : a.timeNs ≤ i64Max) (htime : time ≤ i64Max)
    (format : FrameFormat) : a.atM time format = .ok (a.at time format) := by
  have helapsed : i128.Has ((time : Int) - a.timeNs) := by
    apply i128_has
    simp only [i64Max] at ha htime
    omega
  have hclamp : i64.Has (clamp i64Min i64Max ((time : Int) - a.timeNs)) :=
    clamp_mem (by decide) _
  rw [atM, Signed.sub_ok helapsed, bind_ok, Signed.wrap_of_has hclamp,
    Position.advanceM_eq _ hclamp, «at»]

namespace Timeline

/-- Reading stays within the four entries of the schedule. -/
theorem Fits.atM_eq {t : Timeline} (h : t.Fits) {time : Nat} (htime : time ≤ i64Max) :
    t.atM time = .ok (t.at time) := by
  have hcurrent : (t.current time).anchor.timeNs ≤ i64Max :=
    h.time_le _ (current_mem time t.active t.scheduled)
  have hloop : t.scheduled.foldl (fun (x : Anchor × Nat) s =>
      if s.anchor.timeNs ≤ time then (s.anchor, s.discontinuity) else x)
      (t.anchor, t.discontinuity) = ((t.current time).anchor, (t.current time).discontinuity) :=
    foldl_eq_current time t.scheduled t.active
  rw [atM, liveM, slice_ok h.capacity, bind_ok, at_eq_current]
  simp only [hloop]
  rw [Anchor.atM_eq hcurrent htime, bind_ok]
  rfl

theorem latchLoopM_eq (discontinuity : Nat) (entry : Scheduled) (queue : List Scheduled) :
    latchLoopM discontinuity entry queue =
      .ok (popWhile (fun s => s.discontinuity ≤ discontinuity) entry queue) := by
  induction queue generalizing entry with
  | nil => rfl
  | cons next rest ih =>
      rw [latchLoopM, index_ok (by decide : 0 < maxScheduled), bind_ok,
        Unsigned.sub_ok (Nat.le_add_left 1 rest.length), bind_ok, ih, popWhile]
      by_cases hnext : next.discontinuity ≤ discontinuity
      · rw [if_pos hnext, if_pos (by simpa using hnext)]
      · rw [if_neg hnext, if_neg (by simpa using hnext)]
        rfl

theorem latchM_eq (t : Timeline) (discontinuity : Nat) :
    t.latchM discontinuity = .ok (t.latch discontinuity) := by
  rw [latchM, latchLoopM_eq, bind_ok]
  rfl

end Timeline

end Tidkod
