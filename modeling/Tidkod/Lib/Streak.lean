import Mathlib.Tactic

/-!
Evidence that takes several findings in a row. Findings are listed newest first.
A level of evidence is confirmed by an initial stretch of the list in which every
finding is of the right kind and each agrees with the one before it in time; a
weight says how much a finding adds, so that some may only be tolerated.
-/

namespace Streak

variable {α : Type*} {P : α → Prop} {R : α → α → Prop} {w : α → Nat}

/-- The latest findings carry the weight `n` without interruption. -/
def Confirmed (P : α → Prop) (R : α → α → Prop) (w : α → Nat) (n : Nat) (findings : List α) :
    Prop :=
  ∃ recent, recent <+: findings ∧ n ≤ (recent.map w).sum ∧ (∀ a ∈ recent, P a) ∧ recent.IsChain R

theorem confirmed_zero (findings : List α) : Confirmed P R w 0 findings :=
  ⟨[], List.nil_prefix, Nat.zero_le _, by simp, .nil⟩

theorem Confirmed.mono {m n : Nat} {findings : List α} (h : Confirmed P R w n findings)
    (hmn : m ≤ n) : Confirmed P R w m findings := by
  obtain ⟨recent, hinit, hweight, hkind, hchain⟩ := h
  exact ⟨recent, hinit, hmn.trans hweight, hkind, hchain⟩

/-- The findings cannot confirm more than they all weigh. -/
theorem Confirmed.le_sum {n : Nat} {findings : List α} (h : Confirmed P R w n findings) :
    n ≤ (findings.map w).sum := by
  obtain ⟨recent, ⟨older, rfl⟩, hweight, -, -⟩ := h
  rw [List.map_append, List.sum_append]
  omega

/-- Where one finding is not enough, the latest two agree. -/
theorem Confirmed.agrees {n : Nat} {a b : α} {findings : List α}
    (h : Confirmed P R w n (a :: b :: findings)) (hmore : w a < n) : R a b := by
  obtain ⟨recent, hinit, hweight, -, hchain⟩ := h
  cases recent with
  | nil =>
      rw [List.map_nil, List.sum_nil] at hweight
      omega
  | cons c recent =>
      obtain ⟨hnewest, htail⟩ := List.cons_prefix_cons.mp hinit
      rw [hnewest] at hweight hchain
      cases recent with
      | nil =>
          rw [List.map_singleton, List.sum_singleton] at hweight
          omega
      | cons d recent =>
          obtain ⟨hnext, -⟩ := List.cons_prefix_cons.mp htail
          rw [hnext] at hchain
          exact (List.isChain_cons_cons.mp hchain).1

/-- A finding that agrees with the latest one adds its weight. -/
theorem Confirmed.cons {n : Nat} {a : α} {findings : List α} (h : Confirmed P R w n findings)
    (ha : P a) (hagrees : ∀ b ∈ findings.head?, R a b) :
    Confirmed P R w (w a + n) (a :: findings) := by
  obtain ⟨recent, hinit, hweight, hkind, hchain⟩ := h
  refine ⟨a :: recent, List.cons_prefix_cons.mpr ⟨rfl, hinit⟩, ?_, ?_, ?_⟩
  · rw [List.map_cons, List.sum_cons]
    omega
  · intro b hb
    rcases List.mem_cons.mp hb with rfl | hb
    · exact ha
    · exact hkind b hb
  · apply List.isChain_cons.mpr
    refine ⟨fun b hb => hagrees b ?_, hchain⟩
    -- The latest finding is the head of every stretch that is not empty.
    obtain ⟨older, rfl⟩ := hinit
    cases recent with
    | nil => simp at hb
    | cons c recent => simpa using hb

/-- Whatever came before, a finding of the right kind starts a stretch. -/
theorem Confirmed.start {a : α} (ha : P a) (findings : List α) :
    Confirmed P R w (w a) (a :: findings) := by
  refine ⟨[a], List.cons_prefix_cons.mpr ⟨rfl, List.nil_prefix⟩, by simp, ?_, .singleton a⟩
  intro b hb
  rwa [List.mem_singleton.mp hb]

section Length

variable [DecidablePred P] [DecidableRel R]

/-- The length of the initial stretch of the right kind in which each finding agrees with
the one before it in time. -/
def length (P : α → Prop) (R : α → α → Prop) [DecidablePred P] [DecidableRel R] :
    List α → Nat
  | [] => 0
  | a :: rest =>
      if P a then
        if ∀ b ∈ rest.head?, R a b then length P R rest + 1 else 1
      else 0

theorem length_cons_of_not {a : α} (ha : ¬ P a) (rest : List α) : length P R (a :: rest) = 0 :=
  if_neg ha

theorem length_cons_of_agrees {a : α} {rest : List α} (ha : P a)
    (hagrees : ∀ b ∈ rest.head?, R a b) : length P R (a :: rest) = length P R rest + 1 := by
  rw [length, if_pos ha, if_pos hagrees]

/-- A finding that continues nothing starts a stretch of one. -/
theorem length_cons_of_alone {a : α} {rest : List α} (ha : P a)
    (halone : length P R rest = 0 ∨ ∃ b ∈ rest.head?, ¬ R a b) :
    length P R (a :: rest) = 1 := by
  rw [length, if_pos ha]
  split_ifs with hagrees
  · rcases halone with hzero | ⟨b, hb, hdiffers⟩
    · rw [hzero]
    · exact absurd (hagrees b hb) hdiffers
  · rfl

theorem length_le_of_stretch {recent findings : List α} (hinit : recent <+: findings)
    (hkind : ∀ a ∈ recent, P a) (hchain : recent.IsChain R) :
    recent.length ≤ length P R findings := by
  induction findings generalizing recent with
  | nil => rw [List.prefix_nil.mp hinit, List.length_nil, length]
  | cons a rest ih =>
      cases recent with
      | nil => exact Nat.zero_le _
      | cons b recent =>
          obtain ⟨rfl, hrest⟩ := List.cons_prefix_cons.mp hinit
          obtain ⟨hagrees, htail⟩ := List.isChain_cons.mp hchain
          rw [length, if_pos (hkind b List.mem_cons_self), List.length_cons]
          split_ifs with hall
          · have hkinds := fun c hc => hkind c (List.mem_cons_of_mem b hc)
            exact Nat.succ_le_succ (ih hrest hkinds htail)
          · -- A longer stretch would agree with the finding that does not.
            cases recent with
            | nil => exact le_rfl
            | cons c recent =>
                obtain ⟨older, rfl⟩ := hrest
                exact absurd hagrees hall

theorem confirmed_length (findings : List α) :
    Confirmed P R (fun _ => 1) (length P R findings) findings := by
  induction findings with
  | nil => exact confirmed_zero []
  | cons a rest ih =>
      rw [length]
      split_ifs with ha hall
      · rw [Nat.add_comm]
        exact ih.cons ha hall
      · exact Confirmed.start ha rest
      · exact confirmed_zero _

/-- Where every finding counts once, the length of the stretch is what is confirmed. -/
theorem confirmed_iff_le_length {n : Nat} {findings : List α} :
    Confirmed P R (fun _ => 1) n findings ↔ n ≤ length P R findings := by
  constructor
  · rintro ⟨recent, hinit, hweight, hkind, hchain⟩
    rw [List.map_const', List.sum_replicate, smul_eq_mul, mul_one] at hweight
    exact hweight.trans (length_le_of_stretch hinit hkind hchain)
  · exact (confirmed_length findings).mono

end Length

end Streak
