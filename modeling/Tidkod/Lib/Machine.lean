import Mathlib.Tactic

/-!
Runs of a deterministic machine: a step takes a state and an input and returns
the next state and an output. The induction over a run is done once here; a
development proves what one step preserves and reads off what a run preserves.
-/

namespace Machine

variable {σ α ω : Type*} (step : σ → α → σ × ω)

/-- The state after a list of inputs. -/
def run (s : σ) : List α → σ
  | [] => s
  | a :: rest => run (step s a).1 rest

/-- The outputs along a run, in order. -/
def outputs (s : σ) : List α → List ω
  | [] => []
  | a :: rest => (step s a).2 :: outputs (step s a).1 rest

/-- `Q` holds of every state visited with the input taken there. -/
def Along (Q : σ → α → Prop) (s : σ) : List α → Prop
  | [] => True
  | a :: rest => Q s a ∧ Along Q (step s a).1 rest

instance instDecidableAlong (Q : σ → α → Prop) [∀ s a, Decidable (Q s a)] (s : σ) (as : List α) :
    Decidable (Along step Q s as) :=
  match as with
  | [] => isTrue trivial
  | a :: rest =>
      have := instDecidableAlong Q (step s a).1 rest
      inferInstanceAs (Decidable (Q s a ∧ Along step Q (step s a).1 rest))

/-- What an observer has noted down along a run: `note` extends the notes by what
a step from a state shows. -/
def record {γ : Type*} (note : γ → σ → α → γ) (g : γ) (s : σ) : List α → γ
  | [] => g
  | a :: rest => record note (note g s a) (step s a).1 rest

@[simp] theorem run_nil (s : σ) : run step s [] = s := rfl

@[simp] theorem run_cons (s : σ) (a : α) (rest : List α) :
    run step s (a :: rest) = run step (step s a).1 rest := rfl

theorem run_append (s : σ) (first second : List α) :
    run step s (first ++ second) = run step (run step s first) second := by
  induction first generalizing s with
  | nil => rfl
  | cons a rest ih => exact ih (step s a).1

theorem record_append {γ : Type*} (note : γ → σ → α → γ) (g : γ) (s : σ)
    (first second : List α) :
    record step note g s (first ++ second) =
      record step note (record step note g s first) (run step s first) second := by
  induction first generalizing g s with
  | nil => rfl
  | cons a rest ih => exact ih (note g s a) (step s a).1

theorem along_append (Q : σ → α → Prop) (s : σ) (first second : List α) :
    Along step Q s (first ++ second) ↔
      Along step Q s first ∧ Along step Q (run step s first) second := by
  induction first generalizing s with
  | nil => simp [Along]
  | cons a rest ih => simp [Along, ih, and_assoc]

/-- `Q` along a run means `Q` after each of its prefixes. -/
theorem along_iff_initial (Q : σ → α → Prop) (s : σ) (as : List α) :
    Along step Q s as ↔ ∀ before a, before ++ [a] <+: as → Q (run step s before) a := by
  induction as generalizing s with
  | nil =>
      refine ⟨fun _ before a hinit => ?_, fun _ => trivial⟩
      exact absurd (List.prefix_nil.mp hinit) (by simp)
  | cons b rest ih =>
      constructor
      · rintro ⟨hfirst, hrest⟩ before a hinit
        cases before with
        | nil =>
            obtain ⟨rfl, -⟩ := List.cons_prefix_cons.mp hinit
            exact hfirst
        | cons c before =>
            obtain ⟨rfl, hshorter⟩ := List.cons_prefix_cons.mp hinit
            exact (ih _).mp hrest before a hshorter
      · intro h
        refine ⟨h [] b (List.cons_prefix_cons.mpr ⟨rfl, List.nil_prefix⟩), (ih _).mpr ?_⟩
        intro before a hinit
        exact h (b :: before) a (List.cons_prefix_cons.mpr ⟨rfl, hinit⟩)

variable {step}

theorem Along.of_initial {Q : σ → α → Prop} {s : σ} {before as : List α}
    (h : Along step Q s as) (hinit : before <+: as) : Along step Q s before := by
  obtain ⟨rest, rfl⟩ := hinit
  exact ((along_append step Q s before rest).mp h).1

theorem Along.and {Q R : σ → α → Prop} {s : σ} {as : List α} (hq : Along step Q s as)
    (hr : Along step R s as) : Along step (fun s a => Q s a ∧ R s a) s as := by
  induction as generalizing s with
  | nil => trivial
  | cons a rest ih => exact ⟨⟨hq.1, hr.1⟩, ih hq.2 hr.2⟩

/-- What every step preserves holds at the end of every run. -/
theorem run_invariant {P : σ → Prop} (hstep : ∀ s a, P s → P (step s a).1)
    {s : σ} (hs : P s) (as : List α) : P (run step s as) := by
  induction as generalizing s with
  | nil => exact hs
  | cons a rest ih => exact ih (hstep s a hs)

/-- The same with a guard: steps that meet `G` from states in `P` stay in `P`
and satisfy `Q`, so a guarded run stays in `P` and satisfies `Q` at each step. -/
theorem along_of_invariant {P : σ → Prop} {G Q : σ → α → Prop}
    (hstep : ∀ s a, P s → G s a → Q s a ∧ P (step s a).1)
    {s : σ} (hs : P s) {as : List α} (hguard : Along step G s as) :
    Along step Q s as ∧ P (run step s as) := by
  induction as generalizing s with
  | nil => exact ⟨trivial, hs⟩
  | cons a rest ih =>
      obtain ⟨hq, hnext⟩ := hstep s a hs hguard.1
      obtain ⟨hrest, hend⟩ := ih hnext hguard.2
      exact ⟨⟨hq, hrest⟩, hend⟩

/-- Where a guard decides each step, a property holds of every state visited exactly when
every step meets the guard. -/
theorem visited_iff {I P : σ → Prop} {G : σ → α → Prop}
    (hstep : ∀ s a, I s → P s → (G s a ↔ P (step s a).1))
    (hinv : ∀ s a, I s → I (step s a).1) {s : σ} (hs : I s) (hp : P s) (as : List α) :
    (∀ before, before <+: as → P (run step s before)) ↔ Along step G s as := by
  induction as generalizing s with
  | nil =>
      refine iff_of_true (fun before hinit => ?_) trivial
      rw [List.prefix_nil.mp hinit]
      exact hp
  | cons a rest ih =>
      constructor
      · intro hall
        have hnext : P (step s a).1 :=
          hall [a] (List.cons_prefix_cons.mpr ⟨rfl, List.nil_prefix⟩)
        refine ⟨(hstep s a hs hp).mpr hnext, (ih (hinv s a hs) hnext).mp fun before hinit => ?_⟩
        exact hall (a :: before) (List.cons_prefix_cons.mpr ⟨rfl, hinit⟩)
      · rintro ⟨hguard, hrest⟩ before hinit
        cases before with
        | nil => exact hp
        | cons b before =>
            obtain ⟨rfl, hshorter⟩ := List.cons_prefix_cons.mp hinit
            have hnext := (hstep s b hs hp).mp hguard
            exact (ih (hinv s b hs) hnext).mpr hrest before hshorter

/-- The induction for a relation between the notes taken along a guarded run and
the state reached. -/
theorem recorded_invariant {γ : Type*} {note : γ → σ → α → γ} {P : γ → σ → Prop}
    {G : σ → α → Prop} (hstep : ∀ g s a, P g s → G s a → P (note g s a) (step s a).1)
    {g : γ} {s : σ} (hs : P g s) {as : List α} (hguard : Along step G s as) :
    P (record step note g s as) (run step s as) := by
  induction as generalizing g s with
  | nil => exact hs
  | cons a rest ih =>
      obtain ⟨hfirst, hrest⟩ := hguard
      exact ih (hstep g s a hs hfirst) hrest

/-- Two machines whose steps on related inputs keep their states related and give the same
output do so over runs. -/
theorem related_runs {τ β : Type*} {other : τ → β → τ × ω} {R : σ → τ → Prop}
    {S : α → β → Prop} (hstep : ∀ s t a b, R s t → S a b →
      (step s a).2 = (other t b).2 ∧ R (step s a).1 (other t b).1)
    {s : σ} {t : τ} (hs : R s t) {as : List α} {bs : List β} (h : List.Forall₂ S as bs) :
    outputs step s as = outputs other t bs ∧ R (run step s as) (run other t bs) := by
  induction h generalizing s t with
  | nil => exact ⟨rfl, hs⟩
  | cons hab _ ih =>
      obtain ⟨houtput, hnext⟩ := hstep _ _ _ _ hs hab
      obtain ⟨houtputs, hend⟩ := ih hnext
      exact ⟨by rw [outputs, outputs, houtput, houtputs], hend⟩

/-- States reached from `init` by finitely many inputs. -/
def Reachable (step : σ → α → σ × ω) (init s : σ) : Prop :=
  ∃ as, s = run step init as

theorem Reachable.invariant {P : σ → Prop} {init s : σ} (h : Reachable step init s)
    (hinit : P init) (hstep : ∀ s a, P s → P (step s a).1) : P s := by
  obtain ⟨as, rfl⟩ := h
  exact run_invariant hstep hinit as

end Machine
