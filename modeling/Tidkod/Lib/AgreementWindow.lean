import Mathlib.Tactic
import Mathlib.Data.List.DropRight

/-!
A window on the latest of a series of arrivals that agree with each other. It holds at
most `n` of them, and an arrival that does not agree with the oldest one clears it first.
The window is what is left of the sequence of arrivals since it was last cleared. In that
sequence every arrival agrees with the oldest of the `n` before it, which the window may
have given up since.
-/

namespace AgreementWindow

variable {α : Type*} {agrees : α → α → Prop} {n : Nat} {sequence : List α} {x : α}

/-- The arrival agrees with the oldest entry, if there is one. -/
def Fits (agrees : α → α → Prop) (window : List α) (x : α) : Prop :=
  ∀ oldest ∈ window.head?, agrees oldest x

instance [DecidableRel agrees] (window : List α) (x : α) : Decidable (Fits agrees window x) :=
  inferInstanceAs (Decidable (∀ oldest ∈ window.head?, agrees oldest x))

/-- The window after an arrival. -/
def push (agrees : α → α → Prop) [DecidableRel agrees] (n : Nat) (window : List α) (x : α) :
    List α :=
  ((if Fits agrees window x then window else []) ++ [x]).rtake n

/-- Every entry agrees with the oldest of the `n` before it. -/
def Coherent (agrees : α → α → Prop) (n : Nat) (sequence : List α) : Prop :=
  ∀ before x, before ++ [x] <+: sequence → Fits agrees (before.rtake n) x

theorem coherent_nil : Coherent agrees n [] := by
  intro before x hinit
  exact absurd (List.prefix_nil.mp hinit) (by simp)

theorem Coherent.concat (h : Coherent agrees n sequence)
    (hfits : Fits agrees (sequence.rtake n) x) : Coherent agrees n (sequence ++ [x]) := by
  intro before y hinit
  rcases List.prefix_concat_iff.mp hinit with hwhole | hshorter
  · obtain ⟨rfl, hlast⟩ := List.append_inj' hwhole rfl
    obtain rfl := List.singleton_inj.mp hlast
    exact hfits
  · exact h before y hshorter

theorem coherent_singleton (x : α) : Coherent agrees n [x] :=
  coherent_nil.concat (by simp [Fits])

theorem rtake_of_length_le (h : sequence.length ≤ n) : sequence.rtake n = sequence := by
  rw [List.rtake, Nat.sub_eq_zero_of_le h, List.drop_zero]

/-- Entries given up earlier make no difference later. -/
theorem rtake_rtake_concat (hn : 0 < n) (sequence : List α) (x : α) :
    (sequence.rtake n ++ [x]).rtake n = (sequence ++ [x]).rtake n := by
  obtain ⟨m, rfl⟩ := Nat.exists_eq_succ_of_ne_zero hn.ne'
  rw [List.rtake_concat_succ, List.rtake_concat_succ]
  congr 1
  simp only [List.rtake, List.drop_drop, List.length_drop]
  congr 1
  omega

section Push

variable [DecidableRel agrees]

theorem push_of_fits (hn : 0 < n) (hfits : Fits agrees (sequence.rtake n) x) :
    push agrees n (sequence.rtake n) x = (sequence ++ [x]).rtake n := by
  rw [push, if_pos hfits, rtake_rtake_concat hn]

theorem push_of_not_fits {window : List α} (h : ¬ Fits agrees window x) :
    push agrees n window x = [x].rtake n := by
  rw [push, if_neg h, List.nil_append]

/-- The step of a window on a coherent sequence: the arrival extends the sequence or
begins another one. -/
theorem Coherent.push (hn : 0 < n) (h : Coherent agrees n sequence) (x : α) :
    (Fits agrees (sequence.rtake n) x ∧ Coherent agrees n (sequence ++ [x]) ∧
      push agrees n (sequence.rtake n) x = (sequence ++ [x]).rtake n) ∨
    (Coherent agrees n [x] ∧ push agrees n (sequence.rtake n) x = [x].rtake n) := by
  by_cases hfits : Fits agrees (sequence.rtake n) x
  · exact Or.inl ⟨hfits, h.concat hfits, push_of_fits hn hfits⟩
  · exact Or.inr ⟨coherent_singleton x, push_of_not_fits hfits⟩

end Push

/-- As long as nothing is given up, all entries agree with the first one. -/
theorem Coherent.agrees_first (h : Coherent agrees n sequence) (hshort : sequence.length ≤ n)
    (hself : agrees x x) (hfirst : x ∈ sequence.head?) : ∀ y ∈ sequence, agrees x y := by
  intro y hy
  obtain ⟨before, after, hsplit⟩ := List.append_of_mem hy
  cases before with
  | nil =>
      rw [hsplit] at hfirst
      obtain rfl : y = x := by simpa using hfirst
      exact hself
  | cons first rest =>
      have hlength : (first :: rest).length ≤ n := by
        rw [hsplit, List.length_append] at hshort
        omega
      have hinit : (first :: rest) ++ [y] <+: sequence := ⟨after, by rw [hsplit]; simp⟩
      have hfits := h _ y hinit
      rw [rtake_of_length_le hlength] at hfits
      obtain rfl : first = x := by
        rw [hsplit] at hfirst
        simpa using hfirst
      exact hfits first rfl

/-- The second entry agrees with the first, so a sequence with disagreeing neighbours has
no more than one entry. -/
theorem Coherent.length_le_one (hn : 0 < n) (h : Coherent agrees n sequence)
    (hdisagree : sequence.IsChain (fun x y => ¬ agrees x y)) : sequence.length ≤ 1 := by
  match sequence, h, hdisagree with
  | [], _, _ => exact Nat.zero_le 1
  | [_], _, _ => exact le_rfl
  | x :: y :: rest, h, hdisagree =>
      have hfits := h [x] y ⟨rest, rfl⟩
      rw [rtake_of_length_le hn] at hfits
      exact absurd (hfits x rfl) (List.isChain_cons_cons.mp hdisagree).1

end AgreementWindow
