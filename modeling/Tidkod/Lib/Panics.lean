import Mathlib.Tactic
import Tidkod.Lib.Machine

/-!
Computations that may panic. An operation of a fixed-width integer type panics where
its exact result leaves the type or its divisor is zero, and so does the access to a part
that is not there. Each operation has one rule, which gives the exact result under the
side condition that the source has to secure. A machine whose steps may panic runs like
the machine of the exact steps while an invariant secures the side conditions.
-/

namespace Panics

inductive Panic where
  | overflow
  | divisionByZero
  | outOfRange
  | unwrapNone
  deriving DecidableEq, Repr

/-- A computation that returns a value or stops in a panic. -/
abbrev Checked (α : Type) := Except Panic α

@[simp] theorem bind_ok {α β : Type} (a : α) (f : α → Checked β) :
    ((.ok a : Checked α) >>= f) = f a := rfl

/-- A signed type, by its least and its greatest value. -/
structure Signed where
  lo : Int
  hi : Int

namespace Signed

variable (w : Signed)

def Has (x : Int) : Prop := w.lo ≤ x ∧ x ≤ w.hi

instance (x : Int) : Decidable (w.Has x) := inferInstanceAs (Decidable (_ ∧ _))

/-- The exact result, where the type has it. -/
def exact (x : Int) : Checked Int := if w.Has x then .ok x else .error .overflow

def add (a b : Int) : Checked Int := w.exact (a + b)

def sub (a b : Int) : Checked Int := w.exact (a - b)

def mul (a b : Int) : Checked Int := w.exact (a * b)

/-- Division toward zero. -/
def div (a b : Int) : Checked Int :=
  if b = 0 then .error .divisionByZero else w.exact (a.tdiv b)

/-- The remainder panics where the quotient does. -/
def rem (a b : Int) : Checked Int := do
  let _ ← w.div a b
  pure (a.tmod b)

/-- Division with a remainder that is not negative. -/
def divEuclid (a b : Int) : Checked Int :=
  if b = 0 then .error .divisionByZero else w.exact (a / b)

def remEuclid (a b : Int) : Checked Int := do
  let _ ← w.divEuclid a b
  pure (a % b)

/-- A cast between integer types wraps around. -/
def wrap (x : Int) : Int := w.lo + (x - w.lo) % (w.hi - w.lo + 1)

variable {w} {a b x : Int}

theorem exact_ok (h : w.Has x) : w.exact x = .ok x := if_pos h

theorem add_ok (h : w.Has (a + b)) : w.add a b = .ok (a + b) := exact_ok h

theorem sub_ok (h : w.Has (a - b)) : w.sub a b = .ok (a - b) := exact_ok h

theorem mul_ok (h : w.Has (a * b)) : w.mul a b = .ok (a * b) := exact_ok h

theorem div_ok (hb : b ≠ 0) (h : w.Has (a.tdiv b)) : w.div a b = .ok (a.tdiv b) := by
  rw [div, if_neg hb, exact_ok h]

theorem rem_ok (hb : b ≠ 0) (h : w.Has (a.tdiv b)) : w.rem a b = .ok (a.tmod b) := by
  rw [rem, div_ok hb h]
  rfl

theorem divEuclid_ok (hb : b ≠ 0) (h : w.Has (a / b)) : w.divEuclid a b = .ok (a / b) := by
  rw [divEuclid, if_neg hb, exact_ok h]

theorem remEuclid_ok (hb : b ≠ 0) (h : w.Has (a / b)) : w.remEuclid a b = .ok (a % b) := by
  rw [remEuclid, divEuclid_ok hb h]
  rfl

theorem wrap_has (h : w.lo ≤ w.hi) (x : Int) : w.Has (w.wrap x) := by
  have hlo := Int.emod_nonneg (x - w.lo) (by omega : w.hi - w.lo + 1 ≠ 0)
  have hhi := Int.emod_lt_of_pos (x - w.lo) (by omega : 0 < w.hi - w.lo + 1)
  simp only [Has, wrap]
  omega

theorem wrap_of_has (h : w.Has x) : w.wrap x = x := by
  obtain ⟨hlo, hhi⟩ := h
  rw [wrap, Int.emod_eq_of_lt (by omega) (by omega)]
  omega

end Signed

/-- An unsigned type, by its greatest value. -/
structure Unsigned where
  max : Nat

namespace Unsigned

variable (w : Unsigned)

def add (a b : Nat) : Checked Nat := if a + b ≤ w.max then .ok (a + b) else .error .overflow

def sub (_w : Unsigned) (a b : Nat) : Checked Nat :=
  if b ≤ a then .ok (a - b) else .error .overflow

def mul (a b : Nat) : Checked Nat := if a * b ≤ w.max then .ok (a * b) else .error .overflow

def div (_w : Unsigned) (a b : Nat) : Checked Nat :=
  if b = 0 then .error .divisionByZero else .ok (a / b)

def rem (_w : Unsigned) (a b : Nat) : Checked Nat :=
  if b = 0 then .error .divisionByZero else .ok (a % b)

/-- A cast to an unsigned type wraps around. -/
def wrap (x : Int) : Nat := (x % (w.max + 1)).toNat

variable {w} {a b : Nat}

theorem add_ok (h : a + b ≤ w.max) : w.add a b = .ok (a + b) := if_pos h

theorem sub_ok (h : b ≤ a) : w.sub a b = .ok (a - b) := if_pos h

theorem mul_ok (h : a * b ≤ w.max) : w.mul a b = .ok (a * b) := if_pos h

theorem div_ok (h : b ≠ 0) : w.div a b = .ok (a / b) := if_neg h

theorem rem_ok (h : b ≠ 0) : w.rem a b = .ok (a % b) := if_neg h

theorem wrap_le (x : Int) : w.wrap x ≤ w.max := by
  have hhi := Int.emod_lt_of_pos x (by omega : (0 : Int) < w.max + 1)
  simp only [wrap]
  omega

end Unsigned

/-- A quotient of floating-point values. It never panics, but without a divisor it is no
number, so a divisor of zero is refused where the values are read as exact. -/
def divide (a b : ℚ) : Checked ℚ := if b = 0 then .error .divisionByZero else .ok (a / b)

theorem divide_ok {a b : ℚ} (h : b ≠ 0) : divide a b = .ok (a / b) := if_neg h

section Parts

variable {α : Type}

/-- `&array[..len]`, for the entries below `len`. -/
def slice (capacity : Nat) (live : List α) : Checked (List α) :=
  if live.length ≤ capacity then .ok live else .error .outOfRange

theorem slice_ok {capacity : Nat} {live : List α} (h : live.length ≤ capacity) :
    slice capacity live = .ok live := if_pos h

/-- The index of an array of `n` elements. -/
def index (n i : Nat) : Checked (Fin n) := if h : i < n then .ok ⟨i, h⟩ else .error .outOfRange

theorem index_ok {n i : Nat} (h : i < n) : index n i = .ok ⟨i, h⟩ := dif_pos h

/-- `Option::unwrap`. -/
def unwrapSome : Option α → Checked α
  | some a => .ok a
  | none => .error .unwrapNone

@[simp] theorem unwrapSome_some (a : α) : unwrapSome (some a) = .ok a := rfl

end Parts

section Runs

variable {σ α ω : Type}

/-- The last state and the outputs of a run. A panic ends it. -/
def runM (stepM : σ → α → Checked (σ × ω)) (s : σ) : List α → Checked (σ × List ω)
  | [] => .ok (s, [])
  | a :: rest => do
      let next ← stepM s a
      let last ← runM stepM next.1 rest
      pure (last.1, next.2 :: last.2)

/-- Steps that do not panic where an invariant holds, and keep it, make runs that do not
panic and return what the exact steps return. -/
theorem runM_eq {stepM : σ → α → Checked (σ × ω)} {step : σ → α → σ × ω} {P : σ → Prop}
    (hexact : ∀ s a, P s → stepM s a = .ok (step s a)) (hkeeps : ∀ s a, P s → P (step s a).1)
    {s : σ} (hs : P s) (as : List α) :
    runM stepM s as = .ok (Machine.run step s as, Machine.outputs step s as) := by
  induction as generalizing s with
  | nil => rfl
  | cons a rest ih =>
      rw [runM, hexact s a hs, bind_ok, ih (hkeeps s a hs)]
      rfl

end Runs

end Panics
