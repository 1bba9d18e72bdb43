import Mathlib.Tactic
import Mathlib.Order.Basic

/-!
A value that is active now followed by a queue of replacements, each with the
time it takes effect and a key. When times and keys both increase strictly
along the queue, reading the active entry by time, removing due entries by
time and removing them by key are interchangeable. The results below state
how the three operations compose.
-/

namespace TimedQueue

variable {α T K : Type*}

/-- The loop `while front matches { active = front; pop }`. -/
def popWhile (p : α → Bool) : α → List α → α × List α
  | active, [] => (active, [])
  | active, next :: rest => if p next then popWhile p next rest else (active, next :: rest)

@[simp] theorem popWhile_nil (p : α → Bool) (active : α) : popWhile p active [] = (active, []) :=
  rfl

theorem popWhile_cons_of_pos {p : α → Bool} {next : α} (active : α) (rest : List α)
    (h : p next = true) : popWhile p active (next :: rest) = popWhile p next rest := by
  simp [popWhile, h]

theorem popWhile_cons_of_neg {p : α → Bool} {next : α} (active : α) (rest : List α)
    (h : p next = false) : popWhile p active (next :: rest) = (active, next :: rest) := by
  simp [popWhile, h]

/-- Popping only moves along the queue: what remains is a suffix of it. -/
theorem popWhile_suffix (p : α → Bool) (active : α) (queue : List α) :
    (popWhile p active queue).1 :: (popWhile p active queue).2 <:+ active :: queue := by
  induction queue generalizing active with
  | nil => exact List.suffix_rfl
  | cons next rest ih =>
      by_cases h : p next = true
      · rw [popWhile_cons_of_pos active rest h]
        exact (ih next).trans (List.suffix_cons active (next :: rest))
      · rw [popWhile_cons_of_neg active rest (by simpa using h)]

theorem popWhile_active_mem (p : α → Bool) (active : α) (queue : List α) :
    (popWhile p active queue).1 ∈ active :: queue :=
  (popWhile_suffix p active queue).subset (List.mem_cons_self)

theorem popWhile_rest_subset (p : α → Bool) (active : α) (queue : List α) :
    (popWhile p active queue).2 ⊆ queue := by
  induction queue generalizing active with
  | nil => simp
  | cons next rest ih =>
      by_cases h : p next = true
      · rw [popWhile_cons_of_pos active rest h]
        exact fun entry hmem => List.mem_cons_of_mem next (ih next hmem)
      · rw [popWhile_cons_of_neg active rest (by simpa using h)]
        exact List.Subset.refl _

/-- The active entry changes only to an entry that matched. -/
theorem popWhile_active (p : α → Bool) (active : α) (queue : List α) :
    (popWhile p active queue).1 = active ∨
      (popWhile p active queue).1 ∈ queue ∧ p (popWhile p active queue).1 = true := by
  induction queue generalizing active with
  | nil => exact Or.inl rfl
  | cons next rest ih =>
      by_cases h : p next = true
      · rw [popWhile_cons_of_pos active rest h]
        rcases ih next with heq | ⟨hmem, hp⟩
        · exact Or.inr ⟨by rw [heq]; exact List.mem_cons_self, by rw [heq]; exact h⟩
        · exact Or.inr ⟨List.mem_cons_of_mem next hmem, hp⟩
      · rw [popWhile_cons_of_neg active rest (by simpa using h)]
        exact Or.inl rfl

theorem popWhile_none {p : α → Bool} (active : α) {queue : List α}
    (h : ∀ entry ∈ queue, p entry = false) : popWhile p active queue = (active, queue) := by
  cases queue with
  | nil => rfl
  | cons next rest => exact popWhile_cons_of_neg active rest (h next List.mem_cons_self)

/-- What is left in the queue does not depend on the active entry. -/
theorem popWhile_rest (p : α → Bool) (a b : α) (queue : List α) :
    (popWhile p a queue).2 = (popWhile p b queue).2 := by
  cases queue with
  | nil => rfl
  | cons next rest =>
      by_cases h : p next = true
      · rw [popWhile_cons_of_pos a rest h, popWhile_cons_of_pos b rest h]
      · rw [popWhile_cons_of_neg a rest (by simpa using h),
          popWhile_cons_of_neg b rest (by simpa using h)]

theorem popWhile_active_congr {β : Type*} (f : α → β) (p : α → Bool) {a b : α} (hab : f a = f b)
    (queue : List α) : f (popWhile p a queue).1 = f (popWhile p b queue).1 := by
  cases queue with
  | nil => exact hab
  | cons next rest =>
      by_cases h : p next = true
      · rw [popWhile_cons_of_pos a rest h, popWhile_cons_of_pos b rest h]
      · rw [popWhile_cons_of_neg a rest (by simpa using h),
          popWhile_cons_of_neg b rest (by simpa using h)]
        exact hab

/-- Popping further with a weaker condition forgets the first time. -/
theorem popWhile_popWhile {p q : α → Bool} (h : ∀ entry, p entry = true → q entry = true)
    (active : α) (queue : List α) :
    popWhile q (popWhile p active queue).1 (popWhile p active queue).2 =
      popWhile q active queue := by
  induction queue generalizing active with
  | nil => rfl
  | cons next rest ih =>
      by_cases hp : p next = true
      · rw [popWhile_cons_of_pos active rest hp, popWhile_cons_of_pos active rest (h next hp)]
        exact ih next
      · rw [popWhile_cons_of_neg active rest (by simpa using hp)]

/-- The loop on an array with a count of live entries at its front: the entry
taken is rotated to the back and the count goes down. -/
def popRotating (p : α → Bool) : Nat → α → List α → α × List α × Nat
  | 0, active, slots => (active, slots, 0)
  | live + 1, active, [] => (active, [], live + 1)
  | live + 1, active, next :: rest =>
      if p next then popRotating p live next (rest ++ [next])
      else (active, next :: rest, live + 1)

/-- Rotation stays out of the live entries, so the array behaves as the queue of
its live entries. -/
theorem popRotating_live (p : α → Bool) {live : Nat} (active : α) {slots : List α}
    (h : live ≤ slots.length) :
    ((popRotating p live active slots).1,
      (popRotating p live active slots).2.1.take (popRotating p live active slots).2.2) =
        popWhile p active (slots.take live) ∧
      (popRotating p live active slots).2.1.length = slots.length ∧
      (popRotating p live active slots).2.2 ≤ slots.length := by
  induction live generalizing active slots with
  | zero => simp [popRotating]
  | succ live ih =>
      cases slots with
      | nil => exact absurd h (by simp)
      | cons next rest =>
          have hrest : live ≤ rest.length := by simpa using h
          rw [List.take_succ_cons]
          by_cases hp : p next = true
          · have hrotated : live ≤ (rest ++ [next]).length := by
              rw [List.length_append]
              omega
            have hstep := ih next hrotated
            rw [List.take_append_of_le_length hrest] at hstep
            rw [popWhile_cons_of_pos active _ hp, popRotating, if_pos hp]
            simpa using hstep
          · rw [popWhile_cons_of_neg active _ (by simpa using hp), popRotating, if_neg hp]
            exact ⟨by rw [List.take_succ_cons], rfl, h⟩

section Ordered

variable [LinearOrder T] [LinearOrder K] (time : α → T) (key : α → K)

/-- Times and keys both increase strictly from the active entry on. -/
def Ordered (active : α) (queue : List α) : Prop :=
  (active :: queue).Pairwise (fun a b => time a < time b ∧ key a < key b)

/-- The entry in effect at `t`: the last one whose time has come. -/
def current (t : T) (active : α) (queue : List α) : α :=
  queue.foldl (fun acc entry => if time entry ≤ t then entry else acc) active

variable {time key}

theorem Ordered.tail {active next : α} {rest : List α}
    (h : Ordered time key active (next :: rest)) : Ordered time key next rest :=
  (List.pairwise_cons.mp h).2

/-- A front entry below the active one extends the queue. -/
theorem Ordered.cons {active next : α} {rest : List α}
    (hnext : time active < time next ∧ key active < key next)
    (h : Ordered time key next rest) : Ordered time key active (next :: rest) := by
  refine List.pairwise_cons.mpr ⟨fun entry hmem => ?_, h⟩
  rcases List.mem_cons.mp hmem with rfl | hrest
  · exact hnext
  · have hlater := (List.pairwise_cons.mp h).1 entry hrest
    exact ⟨hnext.1.trans hlater.1, hnext.2.trans hlater.2⟩

theorem Ordered.head_lt {active : α} {queue : List α} (h : Ordered time key active queue)
    {entry : α} (hmem : entry ∈ queue) : time active < time entry ∧ key active < key entry :=
  (List.pairwise_cons.mp h).1 entry hmem

theorem Ordered.key_le {active : α} {queue : List α} (h : Ordered time key active queue)
    {entry : α} (hmem : entry ∈ active :: queue) : key active ≤ key entry := by
  rcases List.mem_cons.mp hmem with heq | hqueue
  · exact heq ▸ le_rfl
  · exact (h.head_lt hqueue).2.le

/-- Order only depends on the times and keys of the entries. -/
theorem ordered_map_iff {β : Type*} {time' : β → T} {key' : β → K} (f : β → α) (active : β)
    (queue : List β) (htime : ∀ b, time (f b) = time' b := by intro; rfl)
    (hkey : ∀ b, key (f b) = key' b := by intro; rfl) :
    Ordered time key (f active) (queue.map f) ↔ Ordered time' key' active queue := by
  rw [Ordered, ← List.map_cons, List.pairwise_map]
  simp only [htime, hkey]
  rfl

theorem Ordered.popWhile (p : α → Bool) {active : α} {queue : List α}
    (h : Ordered time key active queue) :
    Ordered time key (popWhile p active queue).1 (popWhile p active queue).2 :=
  h.sublist (popWhile_suffix p active queue).sublist

@[simp] theorem current_nil (t : T) (active : α) : current time t active [] = active := rfl

theorem current_cons_of_due {t : T} {next : α} (active : α) (rest : List α)
    (h : time next ≤ t) : current time t active (next :: rest) = current time t next rest := by
  simp [current, h]

theorem current_congr {β : Type*} (f : α → β) (t : T) {a b : α} (hab : f a = f b)
    (queue : List α) : f (current time t a queue) = f (current time t b queue) := by
  induction queue generalizing a b with
  | nil => exact hab
  | cons next rest ih =>
      simp only [current, List.foldl_cons]
      split_ifs
      · rfl
      · exact ih hab

/-- An entry at the end of the queue is in effect once it is due. -/
theorem current_append_singleton (t : T) (active entry : α) (queue : List α) :
    current time t active (queue ++ [entry]) =
      if time entry ≤ t then entry else current time t active queue := by
  simp [current]

/-- No queued entry is due before the front one is. -/
theorem Ordered.current_of_front_pending {t : T} {active : α} {queue : List α}
    (h : Ordered time key active queue)
    (hpending : ∀ entry ∈ queue.head?, t < time entry) :
    current time t active queue = active := by
  have hall : ∀ entry ∈ queue, ¬ time entry ≤ t := by
    cases queue with
    | nil => simp
    | cons next rest =>
        have hnext : t < time next := hpending next rfl
        intro entry hmem
        rcases List.mem_cons.mp hmem with rfl | hrest
        · exact hnext.not_ge
        · exact (hnext.trans (h.tail.head_lt hrest).1).not_ge
  clear hpending h
  unfold current
  induction queue with
  | nil => rfl
  | cons next rest ih =>
      rw [List.foldl_cons, if_neg (hall next List.mem_cons_self)]
      exact ih (fun entry hmem => hall entry (List.mem_cons_of_mem next hmem))

/-- Reading depends on the time only through what is due. -/
theorem current_of_same_due {s t : T} (active : α) {queue : List α}
    (h : ∀ entry ∈ queue, time entry ≤ s ↔ time entry ≤ t) :
    current time s active queue = current time t active queue := by
  apply List.foldl_ext
  intro acc entry hmem
  simp only [h entry hmem]

theorem current_mem (t : T) (active : α) (queue : List α) :
    current time t active queue ∈ active :: queue := by
  induction queue generalizing active with
  | nil => simp
  | cons next rest ih =>
      by_cases h : time next ≤ t
      · rw [current_cons_of_due active rest h]
        exact List.mem_cons_of_mem active (ih next)
      · have hstep : current time t active (next :: rest) = current time t active rest := by
          simp [current, h]
        rw [hstep]
        rcases List.mem_cons.mp (ih active) with heq | hmem
        · rw [heq]; exact List.mem_cons_self
        · exact List.mem_cons_of_mem active (List.mem_cons_of_mem next hmem)

/-- An entry taken from the queue is due. -/
theorem current_due (t : T) (active : α) (queue : List α) :
    current time t active queue = active ∨
      current time t active queue ∈ queue ∧ time (current time t active queue) ≤ t := by
  induction queue generalizing active with
  | nil => exact Or.inl rfl
  | cons next rest ih =>
      by_cases h : time next ≤ t
      · rw [current_cons_of_due active rest h]
        rcases ih next with heq | ⟨hmem, hdue⟩
        · exact Or.inr ⟨by rw [heq]; exact List.mem_cons_self, by rw [heq]; exact h⟩
        · exact Or.inr ⟨List.mem_cons_of_mem next hmem, hdue⟩
      · have hstep : current time t active (next :: rest) = current time t active rest := by
          simp [current, h]
        rw [hstep]
        rcases ih active with heq | ⟨hmem, hdue⟩
        · exact Or.inl heq
        · exact Or.inr ⟨List.mem_cons_of_mem next hmem, hdue⟩

/-- Nothing due is left unread: every due entry has a key at most the key in
effect. -/
theorem Ordered.key_le_current {t : T} {active : α} {queue : List α}
    (h : Ordered time key active queue) {entry : α} (hmem : entry ∈ queue)
    (hdue : time entry ≤ t) : key entry ≤ key (current time t active queue) := by
  induction queue generalizing active with
  | nil => exact absurd hmem List.not_mem_nil
  | cons next rest ih =>
      have hnext : time next ≤ t := by
        rcases List.mem_cons.mp hmem with rfl | hrest
        · exact hdue
        · exact (h.tail.head_lt hrest).1.le.trans hdue
      rw [current_cons_of_due active rest hnext]
      rcases List.mem_cons.mp hmem with rfl | hrest
      · exact h.tail.key_le (current_mem t entry rest)
      · exact ih h.tail hrest

/-- The key in effect reaches that of an entry exactly when the entry is due. -/
theorem Ordered.key_le_current_iff {t : T} {active : α} {queue : List α}
    (h : Ordered time key active queue) {entry : α} (hmem : entry ∈ queue) :
    key entry ≤ key (current time t active queue) ↔ time entry ≤ t := by
  induction queue generalizing active with
  | nil => exact absurd hmem List.not_mem_nil
  | cons next rest ih =>
      by_cases hdue : time next ≤ t
      · rw [current_cons_of_due active rest hdue]
        rcases List.mem_cons.mp hmem with rfl | hrest
        · exact iff_of_true (h.tail.key_le (current_mem t entry rest)) hdue
        · exact ih h.tail hrest
      -- The front entry is pending, and with it all that follow.
      · have hactive : current time t active (next :: rest) = active :=
          h.current_of_front_pending (by simpa using hdue)
        have hlater : ¬ time entry ≤ t := by
          rcases List.mem_cons.mp hmem with rfl | hrest
          · exact hdue
          · exact fun hle => hdue ((h.tail.head_lt hrest).1.le.trans hle)
        rw [hactive]
        exact iff_of_false (h.head_lt hmem).2.not_ge hlater

theorem Ordered.le_current (t : T) {active : α} {queue : List α}
    (h : Ordered time key active queue) : key active ≤ key (current time t active queue) :=
  h.key_le (current_mem t active queue)

/-- The key in effect never decreases with time. -/
theorem Ordered.current_mono {s t : T} (hst : s ≤ t) {active : α} {queue : List α}
    (h : Ordered time key active queue) :
    key (current time s active queue) ≤ key (current time t active queue) := by
  rcases current_due s active queue with heq | ⟨hmem, hdue⟩
  · rw [heq]; exact h.le_current t
  · exact h.key_le_current hmem (hdue.trans hst)

/-- Popping by time makes the entry in effect the active one. -/
theorem Ordered.popWhile_due {t : T} {active : α} {queue : List α}
    (h : Ordered time key active queue) :
    (TimedQueue.popWhile (fun entry => decide (time entry ≤ t)) active queue).1 =
      current time t active queue := by
  induction queue generalizing active with
  | nil => rfl
  | cons next rest ih =>
      by_cases hdue : time next ≤ t
      · rw [popWhile_cons_of_pos active rest (by simpa using hdue),
          current_cons_of_due active rest hdue]
        exact ih h.tail
      · rw [popWhile_cons_of_neg active rest (by simpa using hdue)]
        exact (h.current_of_front_pending (by simpa using hdue)).symm

/-- Popping up to the key in effect at `n` removes only entries that are due
at `n`, so nothing changes for a reader at any `t ≥ n`. -/
theorem Ordered.current_popWhile_key {n t : T} (hnt : n ≤ t) {active : α} {queue : List α}
    (h : Ordered time key active queue) {k : K}
    (hk : k ≤ key (current time n active queue)) :
    current time t (TimedQueue.popWhile (fun entry => decide (key entry ≤ k)) active queue).1
      (TimedQueue.popWhile (fun entry => decide (key entry ≤ k)) active queue).2 =
        current time t active queue := by
  induction queue generalizing active with
  | nil => rfl
  | cons next rest ih =>
      by_cases hpop : key next ≤ k
      · have hdue : time next ≤ n := by
          by_contra hpending
          have hactive := h.current_of_front_pending (t := n) (by simpa using hpending)
          rw [hactive] at hk
          exact absurd (hpop.trans hk) (h.head_lt List.mem_cons_self).2.not_ge
        rw [popWhile_cons_of_pos active rest (by simpa using hpop),
          current_cons_of_due active rest (hdue.trans hnt)]
        exact ih h.tail (by rwa [current_cons_of_due active rest hdue] at hk)
      · rw [popWhile_cons_of_neg active rest (by simpa using hpop)]

/-- Popping by time leaves every reader at `t ≥ n` unchanged. -/
theorem Ordered.current_popWhile_due {n t : T} (hnt : n ≤ t) {active : α} {queue : List α}
    (h : Ordered time key active queue) :
    current time t (TimedQueue.popWhile (fun entry => decide (time entry ≤ n)) active queue).1
      (TimedQueue.popWhile (fun entry => decide (time entry ≤ n)) active queue).2 =
        current time t active queue := by
  induction queue generalizing active with
  | nil => rfl
  | cons next rest ih =>
      by_cases hdue : time next ≤ n
      · rw [popWhile_cons_of_pos active rest (by simpa using hdue),
          current_cons_of_due active rest (hdue.trans hnt)]
        exact ih h.tail
      · rw [popWhile_cons_of_neg active rest (by simpa using hdue)]

/-- Popping up to the key in effect at `n` and popping by time at `n` remove the
same entries. -/
theorem Ordered.popWhile_key_eq_due {n : T} {active : α} {queue : List α}
    (h : Ordered time key active queue) :
    TimedQueue.popWhile (fun e => decide (key e ≤ key (current time n active queue)))
        active queue =
      TimedQueue.popWhile (fun e => decide (time e ≤ n)) active queue := by
  induction queue generalizing active with
  | nil => rfl
  | cons next rest ih =>
      by_cases hdue : time next ≤ n
      · have hpop : key next ≤ key (current time n next rest) := h.tail.le_current n
        rw [current_cons_of_due active rest hdue,
          popWhile_cons_of_pos active rest (by simpa using hpop),
          popWhile_cons_of_pos active rest (by simpa using hdue)]
        exact ih h.tail
      · have hactive := h.current_of_front_pending (t := n) (by simpa using hdue)
        have hstop : ¬ key next ≤ key active := (h.head_lt List.mem_cons_self).2.not_ge
        rw [hactive, popWhile_cons_of_neg active rest (by simpa using hstop),
          popWhile_cons_of_neg active rest (by simpa using hdue)]

/-- Popping by time moves no reader back, not even one before the time. -/
theorem Ordered.current_le_popWhile_due (n : T) {s t : T} (hst : s ≤ t) {active : α}
    {queue : List α} (h : Ordered time key active queue) :
    key (current time s active queue) ≤
      key (current time t
        (TimedQueue.popWhile (fun entry => decide (time entry ≤ n)) active queue).1
        (TimedQueue.popWhile (fun entry => decide (time entry ≤ n)) active queue).2) := by
  rcases le_total n t with hnt | htn
  · rw [h.current_popWhile_due hnt]
    exact h.current_mono hst
  · calc key (current time s active queue) ≤ key (current time n active queue) :=
          h.current_mono (hst.trans htn)
      _ = key (TimedQueue.popWhile (fun entry => decide (time entry ≤ n)) active queue).1 := by
          rw [h.popWhile_due]
      _ ≤ _ := (h.popWhile _).le_current t

/-- Every entry left after popping by time is still pending. -/
theorem Ordered.lt_of_mem_popWhile_due {active : α} {queue : List α}
    (h : Ordered time key active queue) {n : T} {entry : α}
    (hmem : entry ∈ (TimedQueue.popWhile (fun e => decide (time e ≤ n)) active queue).2) :
    n < time entry := by
  induction queue generalizing active with
  | nil => exact absurd hmem List.not_mem_nil
  | cons next rest ih =>
      by_cases hpop : time next ≤ n
      · rw [popWhile_cons_of_pos active rest (by simpa using hpop)] at hmem
        exact ih h.tail hmem
      · rw [popWhile_cons_of_neg active rest (by simpa using hpop)] at hmem
        have hnext : n < time next := not_le.mp hpop
        rcases List.mem_cons.mp hmem with rfl | hrest
        · exact hnext
        · exact hnext.trans (h.tail.head_lt hrest).1

/-- Popping up to a key the queue contains stops exactly at it. -/
theorem Ordered.popWhile_key_of_mem {active : α} {queue : List α}
    (h : Ordered time key active queue) {target : α} (hmem : target ∈ active :: queue) :
    (TimedQueue.popWhile (fun e => decide (key e ≤ key target)) active queue).1 = target := by
  induction queue generalizing active with
  | nil => exact (List.mem_singleton.mp hmem).symm
  | cons next rest ih =>
      rcases List.mem_cons.mp hmem with rfl | hrest
      · have hstop : ¬ key next ≤ key target := (h.head_lt List.mem_cons_self).2.not_ge
        rw [popWhile_cons_of_neg target rest (by simpa using hstop)]
      · have hpop : key next ≤ key target := h.tail.key_le hrest
        rw [popWhile_cons_of_pos active rest (by simpa using hpop)]
        exact ih h.tail hrest

end Ordered

end TimedQueue
