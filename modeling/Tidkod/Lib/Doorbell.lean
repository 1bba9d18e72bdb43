import Mathlib.Logic.Function.Basic
import Mathlib.Tactic

/-!
A doorbell between any number of callers and one listener. A caller makes work visible,
then raises a flag, then rings. The listener lowers the flag before it looks for work, and
sleeps only if the flag is still down when it has looked. A ring while nobody sleeps lets the
next sleep end at once. Work a caller has made visible is then never slept through.
-/

/-- How far a caller has come with telling the listener. -/
inductive DoorbellPhase where
  | quiet
  | announced
  | raised
  deriving DecidableEq, Repr

structure Doorbell (ι : Type*) where
  flag : Bool
  rung : Bool
  phase : ι → DoorbellPhase

namespace Doorbell

variable {ι : Type*}

def new : Doorbell ι where
  flag := false
  rung := false
  phase := fun _ => .quiet

/-- The listener has been told, or a caller is about to tell it. While it sleeps the flag is
not looked at, and a caller that has only the flag still to raise will also ring. -/
def Told (b : Doorbell ι) (asleep : Bool) : Prop :=
  (∃ i, b.phase i = .announced) ∨
    if asleep then b.rung = true ∨ ∃ i, b.phase i = .raised else b.flag = true

/-- The listener starts to look for work. -/
def lower (b : Doorbell ι) : Doorbell ι := { b with flag := false }

/-- The listener no longer sleeps. -/
def wake (b : Doorbell ι) : Doorbell ι := { b with rung := false }

theorem Told.doze {b : Doorbell ι} (h : b.Told false) (hflag : b.flag = false) : b.Told true := by
  obtain hannounced | hraised := h
  · exact Or.inl hannounced
  · rw [if_neg Bool.false_ne_true, hflag] at hraised
    exact absurd hraised Bool.false_ne_true

theorem not_told_of_quiet {b : Doorbell ι} (hquiet : ∀ i, b.phase i = .quiet)
    (hrung : b.rung = false) : ¬ b.Told true := by
  rintro (⟨i, hi⟩ | htold)
  · rw [hquiet i] at hi
    cases hi
  · rw [if_pos rfl, hrung] at htold
    obtain h | ⟨i, hi⟩ := htold
    · cases h
    · rw [hquiet i] at hi
      cases hi

variable [DecidableEq ι]

/-- A caller has made work visible. -/
def announce (b : Doorbell ι) (i : ι) : Doorbell ι :=
  { b with phase := Function.update b.phase i .announced }

def raise (b : Doorbell ι) (i : ι) : Doorbell ι :=
  { b with flag := true, phase := Function.update b.phase i .raised }

def ring (b : Doorbell ι) (i : ι) : Doorbell ι :=
  { b with rung := true, phase := Function.update b.phase i .quiet }

@[simp] theorem announce_phase_self (b : Doorbell ι) (i : ι) :
    (b.announce i).phase i = .announced := by
  simp [announce]

@[simp] theorem raise_phase_self (b : Doorbell ι) (i : ι) : (b.raise i).phase i = .raised := by
  simp [raise]

theorem told_announce (b : Doorbell ι) (i : ι) (asleep : Bool) : (b.announce i).Told asleep :=
  Or.inl ⟨i, by simp⟩

theorem told_raise (b : Doorbell ι) (i : ι) (asleep : Bool) : (b.raise i).Told asleep := by
  refine Or.inr ?_
  cases asleep with
  | true => exact Or.inr ⟨i, by simp⟩
  | false => rfl

theorem Told.ring {b : Doorbell ι} {asleep : Bool} (h : b.Told asleep) {i : ι}
    (hi : b.phase i = .raised) : (b.ring i).Told asleep := by
  obtain ⟨j, hj⟩ | htold := h
  · refine Or.inl ⟨j, ?_⟩
    have hne : j ≠ i := fun heq => by
      rw [heq, hi] at hj
      cases hj
    change Function.update b.phase i .quiet j = .announced
    rw [Function.update_of_ne hne, hj]
  · refine Or.inr ?_
    cases asleep with
    | true => exact Or.inl rfl
    | false => exact htold

end Doorbell
