import Mathlib.Tactic
import Mathlib.Data.Vector.Basic

/-!
A ring of `n` slots for entries that are numbered 1, 2, … as they are issued. The
entry with number `s` is kept in slot `s % n` until the entry `n` later takes its
place, so the ring answers for the last `n` numbers and for no other. What the
ring should say is a function of the number; the rules tell how issuing and
overwriting keep ring and function in agreement.
-/

namespace RecentRing

variable {n : Nat} {α : Type*}

/-- `s` is one of the last `n` of the numbers issued. -/
def Recent (n issued s : Nat) : Prop := 0 < s ∧ s ≤ issued ∧ issued < s + n

instance (n issued s : Nat) : Decidable (Recent n issued s) :=
  inferInstanceAs (Decidable (_ ∧ _))

theorem Recent.succ {issued s : Nat} (h : Recent n (issued + 1) s) :
    s = issued + 1 ∨ Recent n issued s := by
  obtain ⟨hpos, hle, hlt⟩ := h
  rcases Nat.lt_or_ge issued s with hnew | hold
  · exact Or.inl (by omega)
  · exact Or.inr ⟨hpos, hold, by omega⟩

section Slot

variable [NeZero n]

/-- The slot of a number. -/
def slot (n : Nat) [NeZero n] (s : Nat) : Fin n := Fin.ofNat n s

@[simp] theorem slot_val (s : Nat) : (slot n s).val = s % n := rfl

theorem slot_add (s : Nat) : slot n (s + n) = slot n s := by
  apply Fin.ext
  simp

theorem slot_eq_of_lt {s t : Nat} (h : slot n s = slot n t) (hst : s ≤ t) (hlt : t < s + n) :
    s = t := by
  have hmod : t % n = s % n := (congrArg Fin.val h).symm
  have hzero : t - s = 0 :=
    Nat.eq_zero_of_dvd_of_lt (Nat.dvd_of_mod_eq_zero (Nat.sub_mod_eq_zero_of_mod_eq hmod))
      (by omega)
  omega

/-- Recent numbers do not share a slot. -/
theorem Recent.eq_of_slot_eq {issued s t : Nat} (hs : Recent n issued s) (ht : Recent n issued t)
    (h : slot n s = slot n t) : s = t := by
  obtain ⟨-, hs, hs'⟩ := hs
  obtain ⟨-, ht, ht'⟩ := ht
  rcases Nat.le_total s t with hle | hle
  · exact slot_eq_of_lt h hle (by omega)
  · exact (slot_eq_of_lt h.symm hle (by omega)).symm

/-- The ring says about every recent number what `f` says. -/
def Agrees (ring : List.Vector α n) (issued : Nat) (f : Nat → α) : Prop :=
  ∀ s, Recent n issued s → ring.get (slot n s) = f s

theorem Agrees.congr {ring : List.Vector α n} {issued : Nat} {f g : Nat → α}
    (h : Agrees ring issued f) (hsame : ∀ s, Recent n issued s → g s = f s) :
    Agrees ring issued g := by
  intro s hs
  rw [h s hs, hsame s hs]

theorem Agrees.issue {ring : List.Vector α n} {issued : Nat} {f g : Nat → α}
    (h : Agrees ring issued f) {a : α} (hold : ∀ s, Recent n issued s → g s = f s)
    (hnew : g (issued + 1) = a) :
    Agrees (ring.set (slot n (issued + 1)) a) (issued + 1) g := by
  intro s hs
  rw [List.Vector.get_set_eq_if]
  split_ifs with hslot
  · have hlast : Recent n (issued + 1) (issued + 1) := ⟨by omega, le_rfl, by
      have := NeZero.pos n
      omega⟩
    rw [hlast.eq_of_slot_eq hs hslot] at hnew
    exact hnew.symm
  · rcases hs.succ with rfl | hrecent
    · exact absurd rfl hslot
    · rw [h s hrecent, hold s hrecent]

theorem Agrees.set {ring : List.Vector α n} {issued s : Nat} {f g : Nat → α}
    (h : Agrees ring issued f) (hs : Recent n issued s) {a : α}
    (hother : ∀ t, Recent n issued t → t ≠ s → g t = f t) (hsame : g s = a) :
    Agrees (ring.set (slot n s) a) issued g := by
  intro t ht
  rw [List.Vector.get_set_eq_if]
  split_ifs with hslot
  · rw [← hs.eq_of_slot_eq ht hslot]
    exact hsame.symm
  · have hne : t ≠ s := by
      rintro rfl
      exact hslot rfl
    rw [h t ht, hother t ht hne]

/-- Every slot is empty or carries the recent number that belongs there. -/
def Tagged (tag : α → Nat) (ring : List.Vector α n) (issued : Nat) : Prop :=
  ∀ i, tag (ring.get i) = 0 ∨
    Recent n issued (tag (ring.get i)) ∧ slot n (tag (ring.get i)) = i

/-- Whatever number an occupied slot carries is recent. -/
theorem Tagged.recent {tag : α → Nat} {ring : List.Vector α n} {issued s : Nat}
    (h : Tagged tag ring issued) (hpos : s ≠ 0) (hs : tag (ring.get (slot n s)) = s) :
    Recent n issued s := by
  rcases h (slot n s) with hempty | ⟨hrecent, -⟩
  · exact absurd (hs.symm.trans hempty) hpos
  · exact hs ▸ hrecent

theorem Tagged.issue {tag : α → Nat} {ring : List.Vector α n} {issued : Nat}
    (h : Tagged tag ring issued) {a : α} (ha : tag a = issued + 1) :
    Tagged tag (ring.set (slot n (issued + 1)) a) (issued + 1) := by
  have hsize := NeZero.pos n
  intro i
  rw [List.Vector.get_set_eq_if]
  split_ifs with hslot
  · rw [ha]
    exact Or.inr ⟨⟨by omega, le_rfl, by omega⟩, hslot⟩
  · rcases h i with hempty | ⟨⟨hpos, hle, hlt⟩, hown⟩
    · exact Or.inl hempty
    · -- The only number that leaves the window owns the slot overwritten now.
      refine Or.inr ⟨⟨hpos, by omega, ?_⟩, hown⟩
      by_contra hgone
      apply hslot
      rw [← hown, ← slot_add (tag (ring.get i))]
      congr 1
      omega

theorem Tagged.set {tag : α → Nat} {ring : List.Vector α n} {issued : Nat}
    (h : Tagged tag ring issued) (s : Nat) {a : α} (ha : tag a = 0) :
    Tagged tag (ring.set (slot n s) a) issued := by
  intro i
  rw [List.Vector.get_set_eq_if]
  split_ifs
  · exact Or.inl ha
  · exact h i

end Slot

end RecentRing
