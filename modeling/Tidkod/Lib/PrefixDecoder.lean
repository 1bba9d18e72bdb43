import Mathlib.Tactic

/-!
Decoders of one item at the front of an input of which more may follow. A decoder says
that the input is still too short, returns an item and the rest of the input, or fails.
It is stable when more input changes neither an item nor a failure. Items read off a
stream then do not depend on how the stream was cut into pieces.
-/

namespace PrefixDecoder

variable {α β γ ε : Type*}

/-- What is decided on an input stays so when more of it arrives. -/
structure Stable (d : List α → Except ε (Option (β × List α))) : Prop where
  item : ∀ {xs b rest}, d xs = .ok (some (b, rest)) →
    ∀ ys, d (xs ++ ys) = .ok (some (b, rest ++ ys))
  error : ∀ {xs e}, d xs = .error e → ∀ ys, d (xs ++ ys) = .error e

/-- An item, and then what the decoder chosen by it finds in the rest. -/
def andThen (d : List α → Except ε (Option (β × List α)))
    (f : β → List α → Except ε (Option (γ × List α))) (xs : List α) :
    Except ε (Option (γ × List α)) :=
  match d xs with
  | .error e => .error e
  | .ok none => .ok none
  | .ok (some (b, rest)) => f b rest

/-- An item without any input. -/
theorem stable_pure (b : β) :
    Stable (fun xs : List α => (.ok (some (b, xs)) : Except ε (Option (β × List α)))) where
  item := by
    intro xs b' rest h ys
    simp only [Except.ok.injEq, Option.some.injEq, Prod.mk.injEq] at h
    rw [h.1, h.2]
  error := fun h => by cases h

section AndThen

variable {d : List α → Except ε (Option (β × List α))}
  {f : β → List α → Except ε (Option (γ × List α))}

theorem andThen_of_item {xs rest : List α} {b : β} (h : d xs = .ok (some (b, rest))) :
    andThen d f xs = f b rest := by
  rw [andThen, h]

theorem Stable.andThen (hd : Stable d) (hf : ∀ b, Stable (f b)) :
    Stable (PrefixDecoder.andThen d f) where
  item := by
    intro xs c rest h ys
    unfold PrefixDecoder.andThen at h ⊢
    rcases hfirst : d xs with e | _ | ⟨b, middle⟩
    · rw [hfirst] at h
      cases h
    · rw [hfirst] at h
      cases h
    · rw [hfirst] at h
      rw [hd.item hfirst ys]
      exact (hf b).item h ys
  error := by
    intro xs e h ys
    unfold PrefixDecoder.andThen at h ⊢
    rcases hfirst : d xs with e' | _ | ⟨b, middle⟩
    · rw [hfirst] at h
      rw [hd.error hfirst ys]
      exact h
    · rw [hfirst] at h
      cases h
    · rw [hfirst] at h
      rw [hd.item hfirst ys]
      exact (hf b).error h ys

end AndThen

/-- The items have been read off the front of the input, and the rest is left. -/
inductive Yields (d : List α → Except ε (Option (β × List α))) :
    List α → List β → List α → Prop where
  | nil (xs : List α) : Yields d xs [] xs
  | cons {xs middle rest : List α} {b : β} {items : List β}
      (hfirst : d xs = .ok (some (b, middle))) (hrest : Yields d middle items rest) :
      Yields d xs (b :: items) rest

namespace Yields

variable {d : List α → Except ε (Option (β × List α))} {xs ys rest : List α}
  {items more : List β}

/-- More input only adds to the rest. -/
theorem extend (hd : Stable d) (h : Yields d xs items rest) (ys : List α) :
    Yields d (xs ++ ys) items (rest ++ ys) := by
  induction h with
  | nil xs => exact .nil _
  | cons hfirst _ ih => exact .cons (hd.item hfirst ys) ih

theorem append {last : List α} (h : Yields d xs items rest) (hmore : Yields d rest more last) :
    Yields d xs (items ++ more) last := by
  induction h with
  | nil xs => exact hmore
  | cons hfirst _ ih => exact .cons hfirst (ih hmore)

/-- One more item. -/
theorem snoc {last : List α} {b : β} (h : Yields d xs items rest)
    (hnext : d rest = .ok (some (b, last))) : Yields d xs (items ++ [b]) last :=
  h.append (.cons hnext (.nil last))

end Yields

end PrefixDecoder
