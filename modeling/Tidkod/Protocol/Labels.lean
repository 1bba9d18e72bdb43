import Mathlib.Tactic
import Mathlib.Data.Prod.Lex
import Mathlib.Order.Hom.Basic
import Tidkod.Protocol.Timecode

/-!
Timecode labels (`timecode.rs`). A label names a frame of the day; in drop-frame
formats some labels do not exist. Frames of the day and existing labels are two ways of
counting the same thing, and the two conversions of the source are the order isomorphism
between them and its inverse.
-/

namespace Tidkod

structure Label where
  hours : Nat
  minutes : Nat
  seconds : Nat
  frames : Nat
  dropFrame : Bool
  deriving DecidableEq

/-- `as u8` keeps the low bits. -/
def asU8 (x : Int) : Nat := (x % 256).toNat

theorem asU8_of_mem {x : Int} (hlo : 0 ≤ x) (hhi : x < 256) : (asU8 x : Int) = x := by
  unfold asU8
  omega

theorem Position.zero_subframe_lt : 0 < 2 ^ 32 := by decide

def Position.fromFrames (frames : Int) (h : i64Min ≤ frames ∧ frames ≤ i64Max) : Position :=
  ⟨frames, 0, h, Position.zero_subframe_lt⟩

namespace FrameFormat

/-- The frame rate rounded up (`div_ceil`). -/
def nominal (f : FrameFormat) : Nat := (f.numerator + f.denominator - 1) / f.denominator

def framesPerDay (f : FrameFormat) : Int :=
  86400 * f.nominal - if f.dropFrame then (f.nominal : Int) / 15 * 1296 else 0

/-- The labels that each dropping minute leaves out, as `position` counts them. -/
def dropped (f : FrameFormat) : Int := if f.dropFrame then (f.nominal : Int) / 15 else 0

/-- A frame of the day, counted with the labels left out before it. -/
def labelled (f : FrameFormat) (frame : Int) : Int :=
  if f.dropFrame then
    let n : Int := f.nominal
    let d := n / 15
    let ten := n * 600 - d * 9
    let rem := frame % ten
    frame + (d * 9 * (frame / ten) + if d ≤ rem then d * ((rem - d) / (n * 60 - d)) else 0)
  else frame

/-- The fields of a label, from its number. -/
def fields (f : FrameFormat) (frame : Int) : Label :=
  let n : Int := f.nominal
  { hours := asU8 (frame / (n * 3600))
    minutes := asU8 (frame / (n * 60) % 60)
    seconds := asU8 (frame / n % 60)
    frames := asU8 (frame % n)
    dropFrame := f.dropFrame }

/-- Display wraps at 24 hours. Negative positions use Euclidean wrapping. -/
def label (f : FrameFormat) (p : Position) : Label :=
  f.fields (f.labelled (p.frames % f.framesPerDay))

/-- The formats by nominal rate and labels left out. -/
theorem nominal_cases (f : FrameFormat) :
    (((f.nominal = 24 ∨ f.nominal = 25 ∨ f.nominal = 30) ∨
      (f.nominal = 48 ∨ f.nominal = 50 ∨ f.nominal = 60)) ∧ f.dropFrame = false) ∨
      ((f.nominal = 30 ∨ f.nominal = 60) ∧ f.dropFrame = true) := by
  have hplain : ∀ r ∈ frameRates, ((r.1 + r.2 - 1) / r.2 = 24 ∨ (r.1 + r.2 - 1) / r.2 = 25 ∨
      (r.1 + r.2 - 1) / r.2 = 30) ∨ ((r.1 + r.2 - 1) / r.2 = 48 ∨ (r.1 + r.2 - 1) / r.2 = 50 ∨
      (r.1 + r.2 - 1) / r.2 = 60) := by decide
  have hdrop : ∀ r ∈ dropFrameRates,
      (r.1 + r.2 - 1) / r.2 = 30 ∨ (r.1 + r.2 - 1) / r.2 = 60 := by decide
  obtain ⟨hrate, hdropRate⟩ := f.supported
  cases hflag : f.dropFrame with
  | false => exact Or.inl ⟨hplain _ hrate, rfl⟩
  | true => exact Or.inr ⟨hdrop _ (hdropRate hflag), rfl⟩

theorem nominal_bounds (f : FrameFormat) : 24 ≤ f.nominal ∧ f.nominal ≤ 60 := by
  rcases f.nominal_cases with ⟨(h | h | h) | (h | h | h), -⟩ | ⟨h | h, -⟩ <;> omega

theorem dropped_bounds (f : FrameFormat) : 0 ≤ f.dropped ∧ f.dropped ≤ 4 := by
  unfold dropped
  rcases f.nominal_cases with ⟨-, hd⟩ | ⟨hn | hn, hd⟩
  · simp [hd]
  · simp [hn, hd]
  · simp [hn, hd]

/-- The count of a valid label fits its type. -/
theorem count_mem (f : FrameFormat) {hours minutes seconds frames : Nat} (hh : hours < 24)
    (hm : minutes < 60) (hs : seconds < 60) (hf : (frames : Int) < f.nominal) :
    i64Min ≤ (((hours * 60 + minutes : Int) * 60 + seconds) * f.nominal + frames -
        f.dropped * ((hours * 60 + minutes : Int) - (hours * 60 + minutes : Int) / 10)) ∧
      (((hours * 60 + minutes : Int) * 60 + seconds) * f.nominal + frames -
        f.dropped * ((hours * 60 + minutes : Int) - (hours * 60 + minutes : Int) / 10)) ≤
          i64Max := by
  obtain ⟨-, hnominal⟩ := f.nominal_bounds
  obtain ⟨hdropped, hfour⟩ := f.dropped_bounds
  have hseconds : ((hours * 60 + minutes : Int) * 60 + seconds) * f.nominal ≤ 86400 * 60 :=
    mul_le_mul (by omega) (by omega) (by omega) (by omega)
  have hnonneg : 0 ≤ ((hours * 60 + minutes : Int) * 60 + seconds) * f.nominal := by positivity
  have hskipped : f.dropped * ((hours * 60 + minutes : Int) - (hours * 60 + minutes : Int) / 10) ≤
      4 * 1440 := mul_le_mul hfour (by omega) (by omega) (by omega)
  have hskips : 0 ≤ f.dropped *
      ((hours * 60 + minutes : Int) - (hours * 60 + minutes : Int) / 10) :=
    mul_nonneg hdropped (by omega)
  simp only [i64Min, i64Max]
  omega

def position (f : FrameFormat) (hours minutes seconds frames : Nat) : Except Error Position :=
  if h : 24 ≤ hours ∨ 60 ≤ minutes ∨ 60 ≤ seconds ∨ (f.nominal : Int) ≤ frames ∨
      (minutes % 10 ≠ 0 ∧ seconds = 0 ∧ (frames : Int) < f.dropped) then
    .error (.invalid "timecode label")
  else
    let mins : Int := hours * 60 + minutes
    .ok (Position.fromFrames
      ((mins * 60 + seconds) * f.nominal + frames - f.dropped * (mins - mins / 10))
      (f.count_mem (by omega) (by omega) (by omega) (by omega)))

/-- The labels left out before a minute of the day. -/
def skipped (f : FrameFormat) (mins : Int) : Int := f.dropped * (mins - mins / 10)

/-- The number of a label that exists, counted with the labels left out. -/
def Labelling (f : FrameFormat) (number : Int) : Prop :=
  0 ≤ number ∧ number < 86400 * f.nominal ∧
    ¬ (number / (60 * f.nominal) % 10 ≠ 0 ∧ number % (60 * f.nominal) < f.dropped)

/-- Every frame of the day has a number that exists. -/
theorem labelled_spec (f : FrameFormat) {frame : Int} (h : 0 ≤ frame)
    (hday : frame < f.framesPerDay) :
    f.Labelling (f.labelled frame) ∧
      f.labelled frame - f.skipped (f.labelled frame / (60 * f.nominal)) = frame := by
  unfold Labelling skipped labelled dropped
  unfold framesPerDay at hday
  rcases f.nominal_cases with ⟨(hn | hn | hn) | (hn | hn | hn), hd⟩ | ⟨hn | hn, hd⟩ <;>
    simp only [hn, hd, Nat.cast_ofNat, if_true, if_false, Bool.false_eq_true] at hday ⊢ <;>
    omega

/-- A number that exists belongs to a frame of the day. -/
theorem labelled_of_labelling (f : FrameFormat) {number : Int} (h : f.Labelling number) :
    (0 ≤ number - f.skipped (number / (60 * f.nominal)) ∧
      number - f.skipped (number / (60 * f.nominal)) < f.framesPerDay) ∧
      f.labelled (number - f.skipped (number / (60 * f.nominal))) = number := by
  unfold Labelling at h
  unfold skipped labelled framesPerDay dropped
  unfold dropped at h
  rcases f.nominal_cases with ⟨(hn | hn | hn) | (hn | hn | hn), hd⟩ | ⟨hn | hn, hd⟩ <;>
    simp only [hn, hd, Nat.cast_ofNat, if_true, if_false, Bool.false_eq_true] at h ⊢ <;>
    omega

/-- Later frames have later numbers. -/
theorem labelled_strictMono (f : FrameFormat) : StrictMono f.labelled := by
  apply strictMono_int_of_lt_succ
  intro frame
  unfold labelled
  rcases f.nominal_cases with ⟨(hn | hn | hn) | (hn | hn | hn), hd⟩ | ⟨hn | hn, hd⟩ <;>
    simp only [hn, hd, Nat.cast_ofNat, if_true, if_false, Bool.false_eq_true] <;>
    omega

end FrameFormat

/-- Labels are ordered by their time of day. -/
def Label.time (l : Label) : ℕ ×ₗ ℕ ×ₗ ℕ ×ₗ ℕ :=
  toLex (l.hours, toLex (l.minutes, toLex (l.seconds, l.frames)))

instance : Preorder Label := Preorder.lift Label.time

namespace FrameFormat

/-- How many labels a dropping minute leaves out. -/
def leftOut (f : FrameFormat) : Nat := if f.numerator = 30000 ∧ f.denominator = 1001 then 2 else 4

/-- The labels that exist: in drop-frame formats the first ones of each minute do not,
but for every tenth minute. -/
structure HasLabel (f : FrameFormat) (l : Label) : Prop where
  hours : l.hours < 24
  minutes : l.minutes < 60
  seconds : l.seconds < 60
  frames : l.frames < f.nominal
  kept : f.dropFrame = true → ¬ 10 ∣ l.minutes → l.seconds = 0 → f.leftOut ≤ l.frames
  dropFrame : l.dropFrame = f.dropFrame

/-- The labels of a format. -/
abbrev Labels (f : FrameFormat) := {l : Label // f.HasLabel l}

/-- The number of a label among those of its day, had none been left out. -/
def number (f : FrameFormat) (l : Label) : Int :=
  ((l.hours * 60 + l.minutes) * 60 + l.seconds) * f.nominal + l.frames

theorem leftOut_le (f : FrameFormat) : f.leftOut ≤ 4 := by
  unfold leftOut
  split_ifs <;> decide

theorem dropped_eq (f : FrameFormat) :
    f.dropped = if f.dropFrame then (f.leftOut : Int) else 0 := by
  unfold dropped
  cases hflag : f.dropFrame with
  | false => rfl
  | true =>
      have hrates : ∀ r ∈ dropFrameRates, (((r.1 + r.2 - 1) / r.2 : Nat) : Int) / 15 =
          (if r.1 = 30000 ∧ r.2 = 1001 then 2 else 4 : Nat) := by decide
      exact hrates _ (f.supported.2 hflag)

/-- What `position` requires of its arguments. -/
theorem hasLabel_iff (f : FrameFormat) (hours minutes seconds frames : Nat) :
    f.HasLabel ⟨hours, minutes, seconds, frames, f.dropFrame⟩ ↔
      ¬ (24 ≤ hours ∨ 60 ≤ minutes ∨ 60 ≤ seconds ∨ (f.nominal : Int) ≤ frames ∨
        (minutes % 10 ≠ 0 ∧ seconds = 0 ∧ (frames : Int) < f.dropped)) := by
  rw [dropped_eq]
  constructor
  · rintro ⟨hh, hm, hs, hf, hkept, -⟩
    simp only at hh hm hs hf hkept
    cases hflag : f.dropFrame with
    | false =>
        simp only [Bool.false_eq_true, if_false]
        omega
    | true =>
        have hkept' := hkept hflag
        simp only [if_true]
        omega
  · intro h
    refine ⟨by simp only; omega, by simp only; omega, by simp only; omega, by simp only; omega,
      ?_, rfl⟩
    intro hflag hten hzero
    simp only [hflag, if_true] at h hten hzero ⊢
    omega

/-- The fields of an existing label are the digits of its number. -/
theorem number_digits (f : FrameFormat) {l : Label} (h : f.HasLabel l) :
    f.number l / (f.nominal * 3600) = l.hours ∧ f.number l / (f.nominal * 60) % 60 = l.minutes ∧
      f.number l / f.nominal % 60 = l.seconds ∧ f.number l % f.nominal = l.frames ∧
      f.number l / (60 * f.nominal) = l.hours * 60 + l.minutes := by
  obtain ⟨hh, hm, hs, hf, -, -⟩ := h
  unfold number
  rcases f.nominal_cases with ⟨(hn | hn | hn) | (hn | hn | hn), -⟩ | ⟨hn | hn, -⟩ <;>
    rw [hn] at hf ⊢ <;> push_cast <;> omega

theorem labelling_number (f : FrameFormat) {l : Label} (h : f.HasLabel l) :
    f.Labelling (f.number l) := by
  obtain ⟨hh, hm, hs, hf, hkept, -⟩ := h
  unfold Labelling
  rw [dropped_eq]
  unfold number
  cases hflag : f.dropFrame with
  | false =>
      simp only [Bool.false_eq_true, if_false]
      rcases f.nominal_cases with ⟨(hn | hn | hn) | (hn | hn | hn), -⟩ | ⟨hn | hn, -⟩ <;>
        rw [hn] at hf ⊢ <;> push_cast <;> omega
  | true =>
      have hkept' := hkept hflag
      have hfour := f.leftOut_le
      simp only [if_true]
      rcases f.nominal_cases with ⟨-, hd⟩ | ⟨hn | hn, -⟩
      · rw [hflag] at hd
        cases hd
      · rw [hn] at hf ⊢
        push_cast
        omega
      · rw [hn] at hf ⊢
        push_cast
        omega

/-- No field of a label overflows its type. -/
theorem fields_exact (f : FrameFormat) {number : Int} (hlo : 0 ≤ number)
    (hhi : number < 86400 * f.nominal) :
    ((f.fields number).hours : Int) = number / (f.nominal * 3600) ∧
      ((f.fields number).minutes : Int) = number / (f.nominal * 60) % 60 ∧
      ((f.fields number).seconds : Int) = number / f.nominal % 60 ∧
      ((f.fields number).frames : Int) = number % f.nominal := by
  obtain ⟨hpos, hsixty⟩ := f.nominal_bounds
  have hhours : number / (f.nominal * 3600) < 24 := by
    apply Int.ediv_lt_of_lt_mul (by omega)
    omega
  have hnonneg : 0 ≤ number / (f.nominal * 3600) := Int.ediv_nonneg hlo (by omega)
  have hframes : number % f.nominal < f.nominal := Int.emod_lt_of_pos _ (by omega)
  have hzero : 0 ≤ number % f.nominal := Int.emod_nonneg _ (by omega)
  refine ⟨asU8_of_mem hnonneg (by omega), asU8_of_mem ?_ ?_, asU8_of_mem ?_ ?_,
    asU8_of_mem hzero (by omega)⟩ <;> omega

/-- A number that exists is shown as a label that exists. -/
theorem fields_spec (f : FrameFormat) {number : Int} (h : f.Labelling number) :
    f.HasLabel (f.fields number) ∧ f.number (f.fields number) = number := by
  obtain ⟨hlo, hhi, hkept⟩ := h
  obtain ⟨hhours, hminutes, hseconds, hframes⟩ := f.fields_exact hlo hhi
  have hflag : (f.fields number).dropFrame = f.dropFrame := rfl
  rw [dropped_eq] at hkept
  generalize f.fields number = l at *
  have hdigits : (l.hours < 24 ∧ l.minutes < 60 ∧ l.seconds < 60 ∧ l.frames < f.nominal) ∧
      f.number l = number := by
    unfold FrameFormat.number
    rw [hhours, hminutes, hseconds, hframes]
    rcases f.nominal_cases with ⟨(hn | hn | hn) | (hn | hn | hn), -⟩ | ⟨hn | hn, -⟩ <;>
      rw [hn] at hhi hhours hminutes hseconds hframes ⊢ <;> omega
  obtain ⟨⟨hh, hm, hs, hf⟩, hnumber⟩ := hdigits
  refine ⟨⟨hh, hm, hs, hf, ?_, hflag⟩, hnumber⟩
  intro hdrop hten hzero
  rw [if_pos hdrop] at hkept
  rcases f.nominal_cases with ⟨-, hd⟩ | ⟨hn | hn, -⟩
  · rw [hdrop] at hd
    cases hd
  · rw [hn] at hkept hminutes hseconds hframes
    omega
  · rw [hn] at hkept hminutes hseconds hframes
    omega

theorem fields_number (f : FrameFormat) {l : Label} (h : f.HasLabel l) :
    f.fields (f.number l) = l := by
  obtain ⟨hlo, hhi, -⟩ := f.labelling_number h
  obtain ⟨hhours, hminutes, hseconds, hframes⟩ := f.fields_exact hlo hhi
  obtain ⟨hh, hm, hs, hf, -⟩ := f.number_digits h
  have hflag : (f.fields (f.number l)).dropFrame = l.dropFrame := h.dropFrame.symm
  rw [hh] at hhours
  rw [hm] at hminutes
  rw [hs] at hseconds
  rw [hf] at hframes
  generalize f.fields (f.number l) = shown at *
  obtain ⟨hours, minutes, seconds, frames, dropFrame⟩ := shown
  simp only at hhours hminutes hseconds hframes hflag
  have hh' : hours = l.hours := by exact_mod_cast hhours
  have hm' : minutes = l.minutes := by exact_mod_cast hminutes
  have hs' : seconds = l.seconds := by exact_mod_cast hseconds
  have hf' : frames = l.frames := by exact_mod_cast hframes
  rw [hh', hm', hs', hf', hflag]

/-- The frame of the day that a label names. -/
def frameOf (f : FrameFormat) (l : Label) : Int :=
  f.number l - f.skipped (f.number l / (60 * f.nominal))

theorem position_of_hasLabel (f : FrameFormat) {l : Label} (h : f.HasLabel l) :
    ∃ p, f.position l.hours l.minutes l.seconds l.frames = .ok p ∧ p.frames = f.frameOf l ∧
      p.subframe = 0 := by
  have hvalid : f.HasLabel ⟨l.hours, l.minutes, l.seconds, l.frames, f.dropFrame⟩ :=
    ⟨h.hours, h.minutes, h.seconds, h.frames, h.kept, rfl⟩
  obtain ⟨-, -, -, -, hmins⟩ := f.number_digits h
  refine ⟨_, dif_neg ((f.hasLabel_iff _ _ _ _).mp hvalid), ?_, rfl⟩
  rw [frameOf, hmins]
  rfl

theorem position_ok_iff (f : FrameFormat) (hours minutes seconds frames : Nat) :
    (∃ p, f.position hours minutes seconds frames = .ok p) ↔
      f.HasLabel ⟨hours, minutes, seconds, frames, f.dropFrame⟩ := by
  constructor
  · rintro ⟨p, hp⟩
    rw [hasLabel_iff]
    intro hinvalid
    rw [position, dif_pos hinvalid] at hp
    cases hp
  · intro h
    obtain ⟨p, hp, -⟩ := f.position_of_hasLabel h
    exact ⟨p, hp⟩

/-- A digit decides unless it is the same. -/
theorem digit_le_iff {n a b x y : Int} (hx : 0 ≤ x ∧ x < n) (hy : 0 ≤ y ∧ y < n) :
    a * n + x ≤ b * n + y ↔ a < b ∨ a = b ∧ x ≤ y := by
  rcases lt_trichotomy a b with hlt | rfl | hgt
  · have hstep : (a + 1) * n ≤ b * n := mul_le_mul_of_nonneg_right hlt (by omega)
    rw [add_mul, one_mul] at hstep
    exact ⟨fun _ => Or.inl hlt, fun _ => by omega⟩
  · constructor
    · exact fun h => Or.inr ⟨rfl, by omega⟩
    · rintro (h | ⟨-, h⟩) <;> omega
  · have hstep : (b + 1) * n ≤ a * n := mul_le_mul_of_nonneg_right hgt (by omega)
    rw [add_mul, one_mul] at hstep
    constructor <;> intro h <;> omega

/-- Numbers are in the order of the time of day. -/
theorem number_le_iff (f : FrameFormat) {l m : Label} (hl : f.HasLabel l) (hm : f.HasLabel m) :
    f.number l ≤ f.number m ↔ l ≤ m := by
  obtain ⟨-, hlm, hls, hlf, -, -⟩ := hl
  obtain ⟨-, hmm, hms, hmf, -, -⟩ := hm
  change _ ↔ l.time ≤ m.time
  unfold number Label.time
  rw [digit_le_iff ⟨by omega, by omega⟩ ⟨by omega, by omega⟩]
  simp only [Prod.Lex.toLex_le_toLex]
  omega

theorem labelled_frameOf (f : FrameFormat) {l : Label} (h : f.HasLabel l) :
    f.labelled (f.frameOf l) = f.number l :=
  (f.labelled_of_labelling (f.labelling_number h)).2

/-- The labels of a format, in order, are the frames of the day, in order. -/
def labelDay (f : FrameFormat) : f.Labels ≃o Set.Ico (0 : Int) f.framesPerDay where
  toFun l := ⟨f.frameOf l, (f.labelled_of_labelling (f.labelling_number l.2)).1⟩
  invFun k := ⟨f.fields (f.labelled k), (f.fields_spec (f.labelled_spec k.2.1 k.2.2).1).1⟩
  left_inv l := by
    apply Subtype.ext
    change f.fields (f.labelled (f.frameOf l)) = l
    rw [f.labelled_frameOf l.2, f.fields_number l.2]
  right_inv k := by
    apply Subtype.ext
    obtain ⟨hexists, hframe⟩ := f.labelled_spec k.2.1 k.2.2
    change f.frameOf (f.fields (f.labelled k)) = k
    rw [frameOf, (f.fields_spec hexists).2, hframe]
  map_rel_iff' := by
    intro l m
    change f.frameOf l ≤ f.frameOf m ↔ l.1 ≤ m.1
    rw [← f.number_le_iff l.2 m.2, ← f.labelled_frameOf l.2, ← f.labelled_frameOf m.2,
      f.labelled_strictMono.le_iff_le]

theorem one_lt_framesPerDay (f : FrameFormat) : 1 < f.framesPerDay := by
  unfold framesPerDay
  rcases f.nominal_cases with ⟨(hn | hn | hn) | (hn | hn | hn), hd⟩ | ⟨hn | hn, hd⟩ <;>
    rw [hn, hd] <;> decide

theorem framesPerDay_pos (f : FrameFormat) : 0 < f.framesPerDay :=
  zero_lt_one.trans f.one_lt_framesPerDay

/-- The frame of the day at a position. -/
def frameOfDay (f : FrameFormat) (p : Position) : Set.Ico (0 : Int) f.framesPerDay :=
  ⟨p.frames % f.framesPerDay, Int.emod_nonneg _ f.framesPerDay_pos.ne',
    Int.emod_lt_of_pos _ f.framesPerDay_pos⟩

theorem label_eq (f : FrameFormat) (p : Position) :
    f.label p = f.labelDay.symm (f.frameOfDay p) := rfl

/-- The next frame of a day, and the first one of the next day. -/
theorem frameOfDay_succ (f : FrameFormat) {p q : Position} (h : q.frames = p.frames + 1) :
    f.frameOfDay p ⋖ f.frameOfDay q ∨ IsTop (f.frameOfDay p) ∧ IsBot (f.frameOfDay q) := by
  have hpos := f.framesPerDay_pos
  have hlo := (f.frameOfDay p).2.1
  have hhi := (f.frameOfDay p).2.2
  have hnext : ((f.frameOfDay q).1 = (f.frameOfDay p).1 + 1) ∨
      ((f.frameOfDay p).1 + 1 = f.framesPerDay ∧ (f.frameOfDay q).1 = 0) := by
    change q.frames % _ = p.frames % _ + 1 ∨ p.frames % _ + 1 = _ ∧ q.frames % _ = 0
    change 0 ≤ p.frames % _ at hlo
    change p.frames % _ < _ at hhi
    rw [h, Int.add_emod p.frames 1]
    generalize p.frames % f.framesPerDay = k at hlo hhi ⊢
    rw [Int.emod_eq_of_lt zero_le_one f.one_lt_framesPerDay]
    rcases (by omega : k + 1 < f.framesPerDay ∨ k + 1 = f.framesPerDay) with hlt | heq
    · exact Or.inl (Int.emod_eq_of_lt (by omega) hlt)
    · right
      rw [heq]
      exact ⟨rfl, Int.emod_self⟩
  rcases hnext with hstep | ⟨hlast, hfirst⟩
  · left
    have hlt : (f.frameOfDay p).1 < (f.frameOfDay q).1 := by omega
    refine ⟨hlt, fun k hk hk' => ?_⟩
    have hafter : (f.frameOfDay p).1 < k.1 := hk
    have hbefore : k.1 < (f.frameOfDay q).1 := hk'
    omega
  · right
    refine ⟨fun k => ?_, fun k => ?_⟩
    · have hk := k.2.2
      exact Subtype.coe_le_coe.mp (by omega)
    · exact Subtype.coe_le_coe.mp (by rw [hfirst]; exact k.2.1)

/-- Labels and frames of the day. `position` accepts the labels that exist and maps them
in order onto the frames of a day, `label` is its inverse up to whole days, the labels of
consecutive positions follow each other with midnight as the only wrap, and no field
overflows. -/
theorem label_day (f : FrameFormat) :
    (∀ hours minutes seconds frames, (∃ p, f.position hours minutes seconds frames = .ok p) ↔
      f.HasLabel ⟨hours, minutes, seconds, frames, f.dropFrame⟩) ∧
    ∃ day : f.Labels ≃o Set.Ico (0 : Int) f.framesPerDay,
      (∀ l : f.Labels, ∃ p, f.position l.1.hours l.1.minutes l.1.seconds l.1.frames = .ok p ∧
        p.frames = day l ∧ p.subframe = 0 ∧ f.label p = l) ∧
      (∀ p : Position, ∃ l : f.Labels, f.label p = l ∧
        (day l : Int) = p.frames % f.framesPerDay ∧
        ∃ q, f.position l.1.hours l.1.minutes l.1.seconds l.1.frames = .ok q ∧
          q.frames = p.frames % f.framesPerDay) ∧
      (∀ p q : Position, q.frames = p.frames + 1 → ∃ l m : f.Labels, f.label p = l ∧
        f.label q = m ∧ (l ⋖ m ∨ IsTop l ∧ IsBot m)) ∧
      ∀ p : Position, ∃ number : Int, number = f.labelled (p.frames % f.framesPerDay) ∧
        ((f.label p).hours : Int) = number / (f.nominal * 3600) ∧
        ((f.label p).minutes : Int) = number / (f.nominal * 60) % 60 ∧
        ((f.label p).seconds : Int) = number / f.nominal % 60 ∧
        ((f.label p).frames : Int) = number % f.nominal := by
  refine ⟨f.position_ok_iff, f.labelDay, fun l => ?_, fun p => ?_, fun p q h => ?_, fun p => ?_⟩
  · obtain ⟨p, hp, hframes, hsubframe⟩ := f.position_of_hasLabel l.2
    refine ⟨p, hp, hframes, hsubframe, ?_⟩
    have hday : f.frameOfDay p = f.labelDay l := by
      apply Subtype.ext
      change p.frames % f.framesPerDay = f.frameOf l
      rw [hframes]
      exact Int.emod_eq_of_lt (f.labelDay l).2.1 (f.labelDay l).2.2
    rw [label_eq, hday, OrderIso.symm_apply_apply]
  · have hframe : ((f.labelDay (f.labelDay.symm (f.frameOfDay p)) : Set.Ico _ _) : Int) =
        p.frames % f.framesPerDay := by
      rw [OrderIso.apply_symm_apply]
      rfl
    obtain ⟨q, hq, hframes, -⟩ := f.position_of_hasLabel (f.labelDay.symm (f.frameOfDay p)).2
    exact ⟨_, f.label_eq p, hframe, q, hq, hframes.trans hframe⟩
  · refine ⟨_, _, f.label_eq p, f.label_eq q, ?_⟩
    rcases f.frameOfDay_succ h with hcovers | ⟨htop, hbot⟩
    · exact Or.inl ((apply_covBy_apply_iff f.labelDay.symm).mpr hcovers)
    · right
      refine ⟨fun l => ?_, fun l => ?_⟩
      · exact f.labelDay.le_symm_apply.mpr (htop _)
      · exact f.labelDay.symm_apply_le.mpr (hbot _)
  · obtain ⟨⟨hlo, hhi, -⟩, -⟩ := f.labelled_spec (f.frameOfDay p).2.1 (f.frameOfDay p).2.2
    exact ⟨_, rfl, f.fields_exact hlo hhi⟩

/-- The first minute of drop-frame labels leaves out `00:01:00;00` and `00:01:00;01`. -/
example : (⟨30000, 1001, true, by decide⟩ : FrameFormat).label (Position.fromFixed (1800 * q32)) =
    ⟨0, 1, 0, 2, true⟩ := by decide +kernel

end FrameFormat

end Tidkod
