import Mathlib.Tactic
import Tidkod.Lib.AgreementWindow
import Tidkod.Protocol.ClockEvidence

/-!
Recovery from a persistent change of path or clock. Outliers gather in a
quarantine that is confirmed by eight observations spanning 500 ms and then
replaces the history. The quarantine also holds at most sixteen observations
and gives up the oldest for each further one, so the span is measured from the
oldest of the last sixteen: observations that follow each other more closely
than 33 ms never confirm a change, however long it lasts.
-/

namespace Tidkod

namespace ClockEstimator

/-- The exchange is valid, later than what was observed before, and an outlier in
delay or offset. -/
structure Outlier (c : ClockEstimator) (e : Exchange) : Prop where
  admissible : e.admissible = true
  new : ∀ last ∈ c.lastObserved, last < e.midpoint
  rejected : (rejectedDelay (c.arrived e).samples e.sample || (c.arrived e).rejectedOffset e) = true

theorem outlier_iff (c : ClockEstimator) (e : Exchange) : c.Outlier e ↔
    e.admissible = true ∧ (∀ last ∈ c.lastObserved, last < e.midpoint) ∧
      (rejectedDelay (c.arrived e).samples e.sample || (c.arrived e).rejectedOffset e) = true :=
  ⟨fun h => ⟨h.1, h.2, h.3⟩, fun ⟨a, b, d⟩ => ⟨a, b, d⟩⟩

instance (c : ClockEstimator) (e : Exchange) : Decidable (c.Outlier e) :=
  decidable_of_iff _ (c.outlier_iff e).symm

/-- A sequence of observations shows a change once it has eight of them spanning
500 ms. -/
def Complete (sequence : List Arrival) : Prop :=
  8 ≤ sequence.length ∧
    ∃ first ∈ sequence.head?, ∃ last ∈ sequence.getLast?,
      500000000 ≤ last.exchange.midpoint - first.exchange.midpoint

instance (sequence : List Arrival) : Decidable (Complete sequence) :=
  inferInstanceAs (Decidable (_ ∧ _))

/-- Every observation agrees with the first one. -/
def AgreesWithFirst (c : ClockEstimator) (sequence : List Arrival) : Prop :=
  ∀ first ∈ sequence.head?, ∀ a ∈ sequence,
    consistentWith c.mapping.drift first.exchange.sample a.exchange.sample = true

instance (c : ClockEstimator) (sequence : List Arrival) : Decidable (c.AgreesWithFirst sequence) :=
  inferInstanceAs (Decidable (∀ first ∈ sequence.head?, _))

/-- The observation after `before` is accepted, and what it is fitted to comes from
quarantined observations alone. -/
structure Recovered (c : ClockEstimator) (before : List Arrival) (a : Arrival) : Prop where
  accepted : ((Machine.run feed c before).feed a).2 = true
  replaced : ∀ s ∈ ((Machine.run feed c before).feed a).1.samples,
    s ∈ c.recovery ∨ ∃ b ∈ before ++ [a], s = b.exchange.sample

/-- What a pending quarantine contributes: all of it when the first observation
agrees with its oldest entry, otherwise nothing. -/
def pending (c : ClockEstimator) (sequence : List Arrival) : List Sample :=
  match sequence.head? with
  | none => c.recovery
  | some first =>
      if c.recovery.head?.all (fun f => consistentWith c.mapping.drift f first.exchange.sample) then
        c.recovery
      else []

/-- The sixteen most recent observations of a pending quarantine and the sequence. -/
def window (c : ClockEstimator) (sequence : List Arrival) : List Sample :=
  keepLast 16 (c.pending sequence ++ sequence.map (fun a => a.exchange.sample))

/-- Each observation agrees with the oldest of the window before it, and no window
before the last one confirms a change. -/
structure Steady (c : ClockEstimator) (sequence : List Arrival) : Prop where
  agrees : ∀ xs b, xs ++ [b] <+: sequence → xs ≠ [] →
    (c.window xs).head?.all (fun f => consistentWith c.mapping.drift f b.exchange.sample) = true
  silent : ∀ xs b rest, xs ++ b :: rest = sequence → rest ≠ [] →
    confirmed (c.window (xs ++ [b])) b.exchange.sample = false

/-- The stretch begins the quarantine in the state that the observations before it leave, unless
there are none, and nothing in it restarts the quarantine again. -/
structure LastRestart (c : ClockEstimator) (earlier stretch : List Arrival) : Prop where
  nonempty : stretch ≠ []
  begins : earlier ≠ [] → (Machine.run feed c earlier).pending stretch = []
  steady : (Machine.run feed c earlier).Steady stretch

/-- Of the observations since the last restart the sixteen most recent confirm a change. -/
def Confirms (c : ClockEstimator) (before : List Arrival) (a : Arrival) : Prop :=
  ∃ earlier stretch, earlier ++ stretch = before ++ [a] ∧ c.LastRestart earlier stretch ∧
    confirmed ((Machine.run feed c earlier).window stretch) a.exchange.sample = true

theorem keepLast_eq_rtake {α : Type} (n : Nat) (xs : List α) : keepLast n xs = xs.rtake n := by
  unfold keepLast
  rfl

theorem keepLast_of_length_le {α : Type} {n : Nat} {xs : List α} (h : xs.length ≤ n) :
    keepLast n xs = xs := by
  rw [keepLast_eq_rtake, AgreementWindow.rtake_of_length_le h]

/-- Entries given up earlier make no difference later. -/
theorem keepLast_keepLast_append {α : Type} {n : Nat} (hn : 0 < n) (xs : List α) (x : α) :
    keepLast n (keepLast n xs ++ [x]) = keepLast n (xs ++ [x]) := by
  simp only [keepLast_eq_rtake]
  exact AgreementWindow.rtake_rtake_concat hn xs x

theorem pending_append (c : ClockEstimator) {xs : List Arrival} (hne : xs ≠ []) (b : Arrival) :
    c.pending (xs ++ [b]) = c.pending xs := by
  cases xs with
  | nil => exact absurd rfl hne
  | cons first rest => rfl

/-- The window moves on by one observation. -/
theorem window_append (c : ClockEstimator) {xs : List Arrival} (hne : xs ≠ []) (b : Arrival) :
    c.window (xs ++ [b]) = keepLast 16 (c.window xs ++ [b.exchange.sample]) := by
  rw [window, window, pending_append c hne, keepLast_keepLast_append (by decide), List.map_append,
    List.map_singleton, List.append_assoc]

/-- An outlier is quarantined, and accepted when that confirms the quarantine. -/
theorem feed_of_outlier {c : ClockEstimator} {a : Arrival} (h : c.Outlier a.exchange) :
    ((c.feed a).2 = confirmed (c.quarantine a.exchange.sample) a.exchange.sample) ∧
      (confirmed (c.quarantine a.exchange.sample) a.exchange.sample = false →
        (c.feed a).1.mapping = c.mapping ∧
          (c.feed a).1.recovery = c.quarantine a.exchange.sample) ∧
      (confirmed (c.quarantine a.exchange.sample) a.exchange.sample = true →
        (c.feed a).1.samples = keepLast 128 (c.quarantine a.exchange.sample)) := by
  have hstep : c.observeInner a.exchange =
      if confirmed (c.quarantine a.exchange.sample) a.exchange.sample then
        (refit { c.arrived a.exchange with
            samples := c.quarantine a.exchange.sample, recovery := [] } a.exchange
          (c.quarantine a.exchange.sample).length, true)
      else ({ c.arrived a.exchange with recovery := c.quarantine a.exchange.sample }, false) := by
    rw [observeInner_of_new h.admissible h.new, decideSample]
    simp only [h.rejected, if_true]
    rfl
  have hsecond : (c.feed a).2 = (c.observeInner a.exchange).2 := rfl
  have hmapping : (c.feed a).1.mapping = (c.observeInner a.exchange).1.mapping := rfl
  have hrecovery : (c.feed a).1.recovery = (c.observeInner a.exchange).1.recovery := rfl
  have hsamples : (c.feed a).1.samples = (c.observeInner a.exchange).1.samples := rfl
  rw [hsecond, hmapping, hrecovery, hsamples, hstep]
  cases hconfirmed : confirmed (c.quarantine a.exchange.sample) a.exchange.sample with
  | true => exact ⟨rfl, fun h => absurd h (by decide), fun _ => rfl⟩
  | false => exact ⟨rfl, fun _ => ⟨rfl, rfl⟩, fun h => absurd h (by decide)⟩

/-- Acceptance ends a quarantine. -/
theorem recovery_of_accepted {c : ClockEstimator} {a : Arrival} (h : (c.feed a).2 = true) :
    (c.feed a).1.recovery = [] := by
  obtain ⟨-, -, samples, count, -, hnext⟩ := observeInner_of_accepted h
  exact congrArg ClockEstimator.recovery hnext

/-- What the quarantine becomes depends on the estimator only through it and the
drift. -/
theorem quarantine_eq {c d : ClockEstimator} {xs : List Sample} (hrecovery : d.recovery = xs)
    (hmapping : d.mapping = c.mapping) (s : Sample) :
    d.quarantine s = keepLast 16
      ((if xs.head?.all (fun f => consistentWith c.mapping.drift f s) then xs else []) ++ [s]) := by
  rw [quarantine, hrecovery, hmapping]
  cases hhead : xs.head? with
  | none => simp
  | some first => simp

/-- Before any observation of the sequence the quarantine is the pending one,
afterwards it is the window. -/
def quarantineAfter (c : ClockEstimator) (xs : List Arrival) : List Sample :=
  if xs = [] then c.recovery else c.window xs

theorem quarantine_next {c d : ClockEstimator} {xs : List Arrival}
    (hrecovery : d.recovery = c.quarantineAfter xs) (hmapping : d.mapping = c.mapping)
    {b : Arrival} (hagrees : xs ≠ [] →
      (c.window xs).head?.all
        (fun f => consistentWith c.mapping.drift f b.exchange.sample) = true) :
    d.quarantine b.exchange.sample = c.window (xs ++ [b]) := by
  rw [quarantine_eq hrecovery hmapping]
  by_cases hne : xs = []
  · subst hne
    rfl
  · rw [window_append c hne, quarantineAfter, if_neg hne, if_pos (hagrees hne)]

/-- Through a steady sequence of outliers the mapping stands still and the
quarantine follows the window. -/
theorem Steady.run {c : ClockEstimator} {before : List Arrival} {a : Arrival}
    (h : c.Steady (before ++ [a]))
    (houtliers : Machine.Along feed (fun d b => d.Outlier b.exchange) c (before ++ [a]))
    {xs : List Arrival} (hxs : xs <+: before) :
    (Machine.run feed c xs).mapping = c.mapping ∧
      (Machine.run feed c xs).recovery = c.quarantineAfter xs := by
  induction xs using List.reverseRecOn with
  | nil => exact ⟨rfl, rfl⟩
  | append_singleton xs b ih =>
      have hshorter : xs <+: before := (List.prefix_append xs [b]).trans hxs
      obtain ⟨hmapping, hrecovery⟩ := ih hshorter
      have hinit : xs ++ [b] <+: before ++ [a] := hxs.trans (List.prefix_append before [a])
      have houtlier := (Machine.along_iff_initial feed _ c _).mp houtliers xs b hinit
      have hnext := quarantine_next hrecovery hmapping (h.agrees xs b hinit)
      have hsilent : confirmed (c.window (xs ++ [b])) b.exchange.sample = false := by
        obtain ⟨rest, hrest⟩ := hxs
        refine h.silent xs b (rest ++ [a]) ?_ (by simp)
        rw [← hrest]
        simp
      obtain ⟨-, hkept, -⟩ := feed_of_outlier houtlier
      rw [hnext] at hkept
      rw [Machine.run_append, Machine.run_cons, Machine.run_nil]
      refine ⟨(hkept hsilent).1.trans hmapping, (hkept hsilent).2.trans ?_⟩
      rw [quarantineAfter, if_neg (by simp)]

/-- What the last observation of a steady sequence finds in quarantine together with itself. -/
theorem Steady.quarantine_last {c : ClockEstimator} {before : List Arrival} {a : Arrival}
    (h : c.Steady (before ++ [a]))
    (houtliers : Machine.Along feed (fun d b => d.Outlier b.exchange) c (before ++ [a])) :
    (Machine.run feed c before).quarantine a.exchange.sample = c.window (before ++ [a]) := by
  obtain ⟨hmapping, hrecovery⟩ := h.run houtliers List.prefix_rfl
  exact quarantine_next hrecovery hmapping (h.agrees before a List.prefix_rfl)

theorem mem_window {c : ClockEstimator} {sequence : List Arrival} {s : Sample}
    (h : s ∈ c.window sequence) : s ∈ c.recovery ∨ ∃ b ∈ sequence, s = b.exchange.sample := by
  rcases List.mem_append.mp ((keepLast_suffix 16 _).subset h) with hpending | hmem
  · left
    unfold pending at hpending
    split at hpending
    · exact hpending
    · split_ifs at hpending
      · exact hpending
      · exact absurd hpending List.not_mem_nil
  · obtain ⟨b, hb, rfl⟩ := List.mem_map.mp hmem
    exact Or.inr ⟨b, hb, rfl⟩

/-- At the end of a steady sequence everything depends on the window. -/
theorem Steady.accepted_iff {c : ClockEstimator} {before : List Arrival} {a : Arrival}
    (h : c.Steady (before ++ [a]))
    (houtliers : Machine.Along feed (fun d b => d.Outlier b.exchange) c (before ++ [a])) :
    ((Machine.run feed c before).feed a).2 = true ↔
      confirmed (c.window (before ++ [a])) a.exchange.sample = true := by
  have houtlier := (Machine.along_iff_initial feed _ c _).mp houtliers before a List.prefix_rfl
  obtain ⟨haccepted, -, -⟩ := feed_of_outlier houtlier
  rw [haccepted, h.quarantine_last houtliers]

theorem Steady.samples_of_accepted {c : ClockEstimator} {before : List Arrival} {a : Arrival}
    (h : c.Steady (before ++ [a]))
    (houtliers : Machine.Along feed (fun d b => d.Outlier b.exchange) c (before ++ [a]))
    (haccepted : ((Machine.run feed c before).feed a).2 = true) :
    ∀ s ∈ ((Machine.run feed c before).feed a).1.samples, s ∈ c.window (before ++ [a]) := by
  have houtlier := (Machine.along_iff_initial feed _ c _).mp houtliers before a List.prefix_rfl
  obtain ⟨hconfirmed, -, hsamples⟩ := feed_of_outlier houtlier
  rw [h.quarantine_last houtliers] at hconfirmed hsamples
  intro s hs
  rw [hsamples (hconfirmed.symm.trans haccepted)] at hs
  exact (keepLast_suffix 128 _).subset hs

theorem pending_of_empty {c : ClockEstimator} (h : c.recovery = []) (sequence : List Arrival) :
    c.pending sequence = [] := by
  unfold pending
  cases sequence.head? with
  | none => exact h
  | some first => simp [h]

/-- One observation is a stretch of its own. -/
theorem steady_singleton (c : ClockEstimator) (b : Arrival) : c.Steady [b] where
  agrees := by
    intro xs d hinit hne
    have hlength := hinit.length_le
    have hpos := List.length_pos_iff.mpr hne
    simp only [List.length_append, List.length_singleton] at hlength
    omega
  silent := by
    intro xs d rest hsplit hrest
    have hlength := congrArg List.length hsplit
    have hpos := List.length_pos_iff.mpr hrest
    simp only [List.length_append, List.length_cons, List.length_nil] at hlength
    omega

/-- An observation that agrees continues a stretch that has not confirmed anything yet. -/
theorem Steady.concat {c : ClockEstimator} {xs : List Arrival} {last b : Arrival}
    (h : c.Steady (xs ++ [last]))
    (hsilent : confirmed (c.window (xs ++ [last])) last.exchange.sample = false)
    (hagrees : (c.window (xs ++ [last])).head?.all
      (fun f => consistentWith c.mapping.drift f b.exchange.sample) = true) :
    c.Steady (xs ++ [last] ++ [b]) where
  agrees := by
    intro ys d hinit hne
    rcases List.prefix_concat_iff.mp hinit with hwhole | hshorter
    · obtain ⟨rfl, hlast⟩ := List.append_inj' hwhole rfl
      obtain rfl := List.singleton_inj.mp hlast
      exact hagrees
    · exact h.agrees ys d hshorter hne
  silent := by
    intro ys d rest hsplit hrest
    obtain ⟨init, e, rfl⟩ := List.eq_nil_or_concat' rest |>.resolve_left hrest
    rw [← List.cons_append, ← List.append_assoc] at hsplit
    obtain ⟨hinit, -⟩ := List.append_inj' hsplit rfl
    by_cases hempty : init = []
    · subst hempty
      obtain ⟨rfl, hlast⟩ := List.append_inj' hinit rfl
      obtain rfl := List.singleton_inj.mp hlast
      exact hsilent
    · exact h.silent ys d init hinit hempty

/-- Every sequence of outliers has a last restart. -/
theorem exists_lastRestart (c : ClockEstimator) {sequence : List Arrival} (hne : sequence ≠ [])
    (houtliers : Machine.Along feed (fun d b => d.Outlier b.exchange) c sequence) :
    ∃ earlier stretch, earlier ++ stretch = sequence ∧ c.LastRestart earlier stretch := by
  induction sequence using List.reverseRecOn with
  | nil => exact absurd rfl hne
  | append_singleton sequence b ih =>
      by_cases hfirst : sequence = []
      · subst hfirst
        exact ⟨[], [b], rfl, by simp, fun h => absurd rfl h, steady_singleton c b⟩
      · obtain ⟨houtliers, -⟩ := (Machine.along_append feed _ c _ _).mp houtliers
        obtain ⟨earlier, stretch, rfl, hstretch, hbegins, hsteady⟩ := ih hfirst houtliers
        obtain ⟨xs, last, rfl⟩ := List.eq_nil_or_concat' stretch |>.resolve_left hstretch
        obtain ⟨-, hlater⟩ := (Machine.along_append feed _ c _ _).mp houtliers
        have hquarantine := hsteady.quarantine_last hlater
        have houtlier := (Machine.along_iff_initial feed _ _ _).mp hlater xs last List.prefix_rfl
        obtain ⟨haccepted, hkept, -⟩ := feed_of_outlier houtlier
        rw [hquarantine] at haccepted hkept
        have hrun : Machine.run feed c (earlier ++ (xs ++ [last])) =
            ((Machine.run feed (Machine.run feed c earlier) xs).feed last).1 := by
          rw [Machine.run_append, Machine.run_append]
          rfl
        -- An observation restarts the quarantine after a confirmation and when it disagrees.
        have hrestart (hempty : (Machine.run feed c (earlier ++ (xs ++ [last]))).pending [b] = []) :
            c.LastRestart (earlier ++ (xs ++ [last])) [b] :=
          ⟨by simp, fun _ => hempty, steady_singleton _ b⟩
        cases hconfirmed : confirmed ((Machine.run feed c earlier).window (xs ++ [last]))
            last.exchange.sample with
        | true =>
            refine ⟨_, [b], rfl, hrestart (pending_of_empty ?_ _)⟩
            rw [hrun]
            exact recovery_of_accepted (haccepted.trans hconfirmed)
        | false =>
            obtain ⟨hmapping, hrecovery⟩ := hkept hconfirmed
            have hstill : (Machine.run feed (Machine.run feed c earlier) xs).mapping =
                (Machine.run feed c earlier).mapping :=
              (hsteady.run hlater List.prefix_rfl).1
            by_cases hagrees : ((Machine.run feed c earlier).window (xs ++ [last])).head?.all
                (fun f => consistentWith (Machine.run feed c earlier).mapping.drift f
                  b.exchange.sample) = true
            · refine ⟨earlier, xs ++ [last] ++ [b], by simp, by simp, ?_,
                hsteady.concat hconfirmed hagrees⟩
              intro hearlier
              rw [pending_append _ (by simp)]
              exact hbegins hearlier
            · refine ⟨_, [b], rfl, hrestart ?_⟩
              rw [hrun, pending, List.head?_cons, hrecovery, hmapping, hstill]
              exact if_neg hagrees

/-- From the last restart on everything depends on the window. -/
theorem LastRestart.recovered_iff {c : ClockEstimator} {before earlier stretch : List Arrival}
    {a : Arrival} (hsplit : earlier ++ stretch = before ++ [a]) (h : c.LastRestart earlier stretch)
    (houtliers : Machine.Along feed (fun d b => d.Outlier b.exchange) c (before ++ [a])) :
    c.Recovered before a ↔
      confirmed ((Machine.run feed c earlier).window stretch) a.exchange.sample = true := by
  obtain ⟨xs, last, rfl⟩ := List.eq_nil_or_concat' stretch |>.resolve_left h.nonempty
  rw [← List.append_assoc] at hsplit
  obtain ⟨rfl, hlast⟩ := List.append_inj' hsplit rfl
  obtain rfl := List.singleton_inj.mp hlast
  rw [List.append_assoc] at houtliers
  obtain ⟨-, hlater⟩ := (Machine.along_append feed _ c _ _).mp houtliers
  have haccepted := h.steady.accepted_iff hlater
  have hsamples := h.steady.samples_of_accepted hlater
  rw [← Machine.run_append] at haccepted hsamples
  constructor
  · intro hrecovered
    exact haccepted.mp hrecovered.accepted
  · intro hconfirmed
    refine ⟨haccepted.mpr hconfirmed, fun s hs => ?_⟩
    have hmem := hsamples (haccepted.mpr hconfirmed) s hs
    by_cases hearlier : earlier = []
    · subst hearlier
      exact mem_window hmem
    · rw [window, h.begins hearlier, List.nil_append] at hmem
      obtain ⟨b, hb, rfl⟩ := List.mem_map.mp ((keepLast_suffix 16 _).subset hmem)
      exact Or.inr ⟨b, by rw [List.append_assoc]; exact List.mem_append_right _ hb, rfl⟩

/-- Without a bound, confirmation is completeness. -/
theorem complete_append_iff (xs : List Arrival) (b : Arrival) :
    Complete (xs ++ [b]) ↔
      confirmed ((xs ++ [b]).map (fun a => a.exchange.sample)) b.exchange.sample = true := by
  simp only [Complete, confirmed, List.length_map, List.head?_map, Bool.and_eq_true,
    decide_eq_true_eq, List.getLast?_append, List.getLast?_singleton, Option.some_or,
    Option.mem_def, Option.some.injEq, exists_eq_left', Option.any_map, Option.any_eq_true]
  rfl

theorem pending_of_initial (c : ClockEstimator) {xs sequence : List Arrival} (hne : xs ≠ [])
    (h : xs <+: sequence) : c.pending xs = c.pending sequence := by
  obtain ⟨rest, rfl⟩ := h
  cases xs with
  | nil => exact absurd rfl hne
  | cons first tail => rfl

/-- While a sequence that starts the quarantine has at most sixteen observations,
the window is all of it. -/
theorem window_of_short {c : ClockEstimator} {xs sequence : List Arrival}
    (hstarts : c.pending sequence = []) (hshort : sequence.length ≤ 16) (hne : xs ≠ [])
    (hxs : xs <+: sequence) : c.window xs = xs.map (fun a => a.exchange.sample) := by
  rw [window, pending_of_initial c hne hxs, hstarts, List.nil_append]
  apply keepLast_of_length_le
  rw [List.length_map]
  exact hxs.length_le.trans hshort

/-- A sequence that starts the quarantine, agrees with its first observation and
completes within sixteen is steady. -/
theorem steady_of_short {c : ClockEstimator} {before : List Arrival} {a : Arrival}
    (hagrees : c.AgreesWithFirst (before ++ [a]))
    (hfirst : ∀ k ≤ before.length, ¬ Complete (before.take k))
    (hstarts : c.pending (before ++ [a]) = []) (hshort : (before ++ [a]).length ≤ 16) :
    c.Steady (before ++ [a]) where
  agrees := by
    intro xs b hxs hne
    have hinit : xs <+: before ++ [a] := (List.prefix_append xs [b]).trans hxs
    rw [window_of_short hstarts hshort hne hinit, List.head?_map]
    cases hhead : xs.head? with
    | none => rfl
    | some first =>
        have hsame : (before ++ [a]).head? = some first := by
          obtain ⟨rest, hrest⟩ := hinit
          rw [← hrest, List.head?_append, hhead]
          rfl
        exact hagrees first hsame b (hxs.subset (by simp))
  silent := by
    intro xs b rest hsplit hrest
    have hinit : xs ++ [b] <+: before ++ [a] := ⟨rest, by rw [← hsplit]; simp⟩
    rw [window_of_short hstarts hshort (by simp) hinit]
    by_contra hconfirmed
    have hcomplete := (complete_append_iff xs b).mpr (by simpa using hconfirmed)
    have hlength : (xs ++ [b]).length ≤ before.length := by
      have htotal := congrArg List.length hsplit
      have hpos := List.length_pos_iff.mpr hrest
      simp only [List.length_append, List.length_cons, List.length_nil] at htotal ⊢
      omega
    have htake : before.take (xs ++ [b]).length = xs ++ [b] := by
      have hwhole := List.prefix_iff_eq_take.mp hinit
      rw [List.take_append_of_le_length hlength] at hwhole
      exact hwhole.symm
    exact hfirst _ hlength (htake.symm ▸ hcomplete)

/-- A persistent change from any state. The observation that completes the sequence is accepted
exactly when, of the observations since the quarantine last restarted, the sixteen most recent
confirm the change. A sequence that starts the quarantine and completes within sixteen
observations is always recovered from. -/
theorem regime_change_recovered {c : ClockEstimator} {before : List Arrival} {a : Arrival}
    (houtliers : Machine.Along feed (fun d b => d.Outlier b.exchange) c (before ++ [a]))
    (hagrees : c.AgreesWithFirst (before ++ [a])) (hcomplete : Complete (before ++ [a]))
    (hfirst : ∀ k ≤ before.length, ¬ Complete (before.take k)) :
    (c.Recovered before a ↔ c.Confirms before a) ∧
    (c.pending (before ++ [a]) = [] → (before ++ [a]).length ≤ 16 → c.Recovered before a) := by
  refine ⟨⟨?_, ?_⟩, ?_⟩
  · intro hrecovered
    obtain ⟨earlier, stretch, hsplit, hrestart⟩ := exists_lastRestart c (by simp) houtliers
    exact ⟨earlier, stretch, hsplit, hrestart,
      (hrestart.recovered_iff hsplit houtliers).mp hrecovered⟩
  · rintro ⟨earlier, stretch, hsplit, hrestart, hconfirmed⟩
    exact (hrestart.recovered_iff hsplit houtliers).mpr hconfirmed
  · intro hstarts hshort
    have hsteady := steady_of_short hagrees hfirst hstarts hshort
    have hrestart : c.LastRestart [] (before ++ [a]) :=
      ⟨by simp, fun h => absurd rfl h, hsteady⟩
    rw [hrestart.recovered_iff (List.nil_append _) houtliers, Machine.run_nil,
      window_of_short hstarts hshort (by simp) List.prefix_rfl]
    exact (complete_append_iff before a).mp hcomplete

end ClockEstimator

/-- Twelve exchanges every 50 ms with a leader five seconds ahead. -/
def convergedHistory : List Arrival :=
  (List.range 12).map (fun i =>
    let sent := 1000000000 + 50000000 * i
    ⟨⟨sent, sent + 5000500000, sent + 5000500000, sent + 1000000⟩, none, sent + 1000000⟩)

/-- Exchanges with the leader after it has stepped by a second. -/
def steppedSequence (spacing count : Nat) : List Arrival :=
  (List.range count).map (fun i =>
    let sent := 2000000000 + spacing * i
    ⟨⟨sent, sent + 6000500000, sent + 6000500000, sent + 1000000⟩, none, sent + 1000000⟩)

/-- Probed every 50 ms the step is recovered from at the eleventh observation. -/
theorem regime_change_recovered_of_step :
    (Machine.run ClockEstimator.feed ClockEstimator.default convergedHistory).Recovered
      (steppedSequence 50000000 10)
      ⟨⟨2500000000, 8500500000, 8500500000, 2501000000⟩, none, 2501000000⟩ :=
  (ClockEstimator.regime_change_recovered (by decide +kernel) (by decide +kernel)
    (by decide +kernel) (by decide +kernel)).2 (by decide +kernel) (by decide +kernel)

/-- Probed every 10 ms it is not recovered from when the sequence has lasted 500 ms:
the sixteen observations that are kept span 150 ms. -/
theorem regime_change_not_always_recovered :
    ¬ ∀ (history before : List Arrival) (a : Arrival),
      Machine.Along ClockEstimator.feed (fun d b => d.Outlier b.exchange)
        (Machine.run ClockEstimator.feed ClockEstimator.default history) (before ++ [a]) →
      (Machine.run ClockEstimator.feed ClockEstimator.default history).AgreesWithFirst
        (before ++ [a]) →
      ClockEstimator.Complete (before ++ [a]) →
      (∀ k ≤ before.length, ¬ ClockEstimator.Complete (before.take k)) →
      (Machine.run ClockEstimator.feed ClockEstimator.default history).Recovered before a := by
  intro hclaim
  have hrecovered := hclaim convergedHistory (steppedSequence 10000000 50)
    ⟨⟨2500000000, 8500500000, 8500500000, 2501000000⟩, none, 2501000000⟩
    (by decide +kernel) (by decide +kernel) (by decide +kernel) (by decide +kernel)
  have hrejected := hrecovered.accepted
  revert hrejected
  decide +kernel

end Tidkod
