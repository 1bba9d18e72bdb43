import Mathlib.Tactic
import Tidkod.Native.Engine

/-!
What the worker of an engine cannot miss. Before it sleeps it has seen every task, command and
stop flag, or somebody is about to wake it, so that no call waits for a worker that sleeps. Once
the engine is stopped the worker leaves its loop within one pass and the rest of another, and
nobody is left waiting.
-/

namespace Tidkod

/-- What the worker has to see before it sleeps. -/
inductive Work where
  | task
  | command (c : ControlId)
  | stop (c : ControlId)
  | close
  deriving DecidableEq, Repr

/-- A call that waits for nothing. -/
def Call.Plain : Call → Prop
  | .receiving _ | .stopping _ _ | .completing _ | .storing _ => False
  | _ => True

namespace Engine

def Has (s : Engine) : Work → Prop
  | .task => s.tasks ≠ []
  | .command c => (s.controls c).stage = .running ∧ (s.controls c).commands ≠ []
  | .stop c => (s.controls c).stage = .running ∧ (s.controls c).stop = true ∧ s.stop = false
  | .close => s.stop = true ∧ s.worker ≠ .exited

/-- What has been left by this pass, so that another follows without a sleep. -/
def Left (s : Engine) : Work → Prop
  | .task => s.taskMore = true
  | .command c => (s.controls c).commandMore = true ∨ (s.controls c).receiveMore = true
  | .stop _ => False
  | .close => False

/-- What the steps of the pass have yet to come to. -/
def Coming (s : Engine) : Work → Prop
  | .task => False
  | .command c => c ∈ s.ahead
  | .stop c => c ∈ s.ahead
  | .close => True

/-- The worker sees it before it sleeps next. -/
def Ahead (s : Engine) (w : Work) : Prop :=
  match s.worker with
  | .start | .taking _ | .polling false | .exited => True
  | .polling true => False
  | .stepping | .finishing _ => s.Left w ∨ s.Coming w
  | .commands c _ => s.Left w ∨ s.Coming w ∨ w = .command c
  | .checking => s.Left w ∨ w = .close
  | .deciding => s.Left w

def asleep (s : Engine) : Bool :=
  match s.worker with
  | .polling sleeps => sleeps
  | _ => false

/-- What there is to see lies ahead of the worker, or it is told. -/
def Covered (s : Engine) : Prop :=
  ∀ w, s.Has w → s.Ahead w ∨ s.bell.Told s.asleep

theorem Ahead.mono {s t : Engine} {w : Work} (h : s.Ahead w) (hworker : t.worker = s.worker)
    (hleft : s.Left w → t.Left w) (hcoming : s.Coming w → t.Coming w) : t.Ahead w := by
  unfold Ahead at h ⊢
  rw [hworker]
  split at h
  case h_6 => exact h.imp hleft hcoming
  case h_7 => exact h.imp hleft hcoming
  case h_8 => exact h.imp hleft (Or.imp_left hcoming)
  case h_9 => exact h.imp_left hleft
  case h_10 => exact hleft h
  all_goals exact h

theorem covered_of_told {s : Engine} (h : s.bell.Told s.asleep) : Covered s :=
  fun _ _ => Or.inr h

/-- A step of another thread brings nothing new and leaves the worker where it is. -/
theorem Covered.keep {s t : Engine} (h : Covered s)
    (hwork : ∀ w, t.Has w → s.Has w ∧ (s.Ahead w → t.Ahead w))
    (htold : s.bell.Told s.asleep → t.bell.Told t.asleep) : Covered t := by
  intro w hw
  obtain ⟨hhas, hahead⟩ := hwork w hw
  exact (h w hhas).imp hahead htold

/-- The same, where stages, commands and flags are unchanged. -/
theorem Covered.congr {s t : Engine} (h : Covered s) (hcontrols : t.controls = s.controls)
    (htasks : t.tasks = s.tasks) (hstop : t.stop = s.stop) (hworker : t.worker = s.worker)
    (hmore : t.taskMore = s.taskMore) (hahead : t.ahead = s.ahead)
    (htold : s.bell.Told s.asleep → t.bell.Told s.asleep) : Covered t := by
  have hasleep : t.asleep = s.asleep := by rw [asleep, asleep, hworker]
  refine h.keep (fun w => ?_) (by rw [hasleep]; exact htold)
  have hhas : t.Has w = s.Has w := by
    cases w <;> simp only [Has, hcontrols, htasks, hstop, hworker]
  have hleft : t.Left w = s.Left w := by
    cases w <;> simp only [Left, hcontrols, hmore]
  have hcoming : t.Coming w = s.Coming w := by
    cases w <;> simp only [Coming, hahead]
  rw [hhas]
  exact fun hw => ⟨hw, fun ha => ha.mono hworker hleft.symm.le hcoming.symm.le⟩

theorem Covered.setCall {s : Engine} (h : Covered s) (i : CallId) (k : Call) :
    Covered (s.setCall i k) :=
  h.congr rfl rfl rfl rfl rfl rfl id

theorem covered_publish (s : Engine) (i : CallId) (k : Call) : Covered (s.publish i k) :=
  covered_of_told (Doorbell.told_announce _ _ _)

/-- A control the worker does not run is changed to one it does not run. -/
theorem Covered.setControl {s : Engine} (h : Covered s) {c : ControlId} {k : Control}
    (hk : k.stage ≠ .running) : Covered (s.setControl c k) := by
  have hother : ∀ x, ((s.setControl c k).controls x).stage = .running →
      (s.setControl c k).controls x = s.controls x := by
    intro x hx
    simp only [Engine.setControl, Function.update_apply] at hx ⊢
    split_ifs at hx ⊢
    · exact absurd hx hk
    · rfl
  refine h.keep (fun w hw => ?_) id
  cases w with
  | task => exact ⟨hw, fun ha => ha.mono rfl id id⟩
  | close => exact ⟨hw, fun ha => ha.mono rfl id id⟩
  | command x =>
      have hx := hother x hw.1
      rw [Has, hx] at hw
      exact ⟨hw, fun ha => ha.mono rfl (by rw [Left, Left, hx]; exact id) id⟩
  | stop x =>
      have hx := hother x hw.1
      rw [Has, hx] at hw
      exact ⟨hw, fun ha => ha.mono rfl id id⟩

/-- The calls that wait are owed what they wait for. -/
structure Waits (s : Engine) : Prop where
  receiving : ∀ i made, s.calls i = .receiving made → s.replies i = none →
    ∃ c, ((s.controls c).stage = .queued ∨ (s.controls c).stage = .running) ∧ i ∈ s.owed c
  handles : ∀ i c, (s.calls i = .completing c ∨ ∃ waits, s.calls i = .stopping c waits) →
    (s.controls c).stage ≠ .absent ∧ (s.controls c).stage ≠ .held
  completing : ∀ i c, s.calls i = .completing c → (s.controls c).stop = true
  storing : ∀ i stops, s.calls i = .storing stops → s.stop = true

theorem mem_owed {s : Engine} {i : CallId} {c : ControlId} :
    i ∈ s.owed c ↔ some i ∈ (s.controls c).commands ∨
      ((s.controls c).stage = .queued ∧ (s.controls c).leads = true) ∧
        i = (s.controls c).maker := by
  simp only [owed, List.mem_append, List.mem_filterMap, id_eq, exists_eq_right]
  split_ifs with hmade
  · simp [hmade]
  · simp [hmade]

theorem drop_replies_eq_none {s : Engine} {i : CallId} {c : ControlId} :
    (s.drop c).replies i = none ↔ i ∉ s.owed c ∧ s.replies i = none := by
  simp only [drop]
  split_ifs with howed
  · simp [howed]
  · simp [howed]

theorem waits_new : Waits new where
  receiving := by rintro _ _ ⟨⟩
  handles := by rintro _ _ (hc | ⟨_, hc⟩) <;> cases hc
  completing := by rintro _ _ ⟨⟩
  storing := by rintro _ _ ⟨⟩

/-- What is owed stays so until it is paid. -/
theorem Waits.mono {s t : Engine} (h : Waits s) (hcalls : t.calls = s.calls)
    (hstop : s.stop = true → t.stop = true)
    (hhandles : ∀ c, (s.controls c).stage ≠ .absent ∧ (s.controls c).stage ≠ .held →
      (t.controls c).stage ≠ .absent ∧ (t.controls c).stage ≠ .held)
    (hstops : ∀ c, (s.controls c).stage ≠ .absent ∧ (s.controls c).stage ≠ .held →
      (s.controls c).stop = true → (t.controls c).stop = true)
    (hreplies : ∀ i, t.replies i = none → s.replies i = none)
    (howed : ∀ i c, t.replies i = none →
      (s.controls c).stage = .queued ∨ (s.controls c).stage = .running → i ∈ s.owed c →
      ((t.controls c).stage = .queued ∨ (t.controls c).stage = .running) ∧ i ∈ t.owed c) :
    Waits t where
  receiving := fun i made hi hnone => by
    obtain ⟨c, hc, howes⟩ := h.receiving i made (hcalls ▸ hi) (hreplies i hnone)
    exact ⟨c, howed i c hnone hc howes⟩
  handles := fun i c hi => hhandles c (h.handles i c (hcalls ▸ hi))
  completing := fun i c hi =>
    hstops c (h.handles i c (Or.inl (hcalls ▸ hi))) (h.completing i c (hcalls ▸ hi))
  storing := fun i stops hi => hstop (h.storing i stops (hcalls ▸ hi))

/-- Steps that change no control and no reply. -/
theorem Waits.congr {s t : Engine} (h : Waits s) (hcalls : t.calls = s.calls)
    (hstop : s.stop = true → t.stop = true) (hcontrols : t.controls = s.controls)
    (hreplies : t.replies = s.replies) : Waits t := by
  refine h.mono hcalls hstop (fun c => by rw [hcontrols]; exact id)
    (fun c _ => by rw [hcontrols]; exact id) (fun i => by rw [hreplies]; exact id)
    fun i c _ => ?_
  rw [Engine.owed, Engine.owed, hcontrols]
  exact And.intro

/-- One call goes on. -/
theorem Waits.setCall {s : Engine} (h : Waits s) {i : CallId} {k : Call}
    (hreceiving : ∀ made, k = .receiving made → s.replies i = none →
      ∃ c, ((s.controls c).stage = .queued ∨ (s.controls c).stage = .running) ∧ i ∈ s.owed c)
    (hhandles : ∀ c, (k = .completing c ∨ ∃ waits, k = .stopping c waits) →
      (s.controls c).stage ≠ .absent ∧ (s.controls c).stage ≠ .held)
    (hcompleting : ∀ c, k = .completing c → (s.controls c).stop = true)
    (hstoring : ∀ stops, k = .storing stops → s.stop = true) : Waits (s.setCall i k) := by
  have hother : ∀ j, j ≠ i → (s.setCall i k).calls j = s.calls j :=
    fun j hj => Function.update_of_ne hj _ _
  have hself : (s.setCall i k).calls i = k := Function.update_self _ _ _
  constructor
  · intro j made hj
    obtain rfl | hne := eq_or_ne j i
    · exact hreceiving made (hself ▸ hj)
    · exact h.receiving j made (hother j hne ▸ hj)
  · intro j c hj
    obtain rfl | hne := eq_or_ne j i
    · exact hhandles c (hself ▸ hj)
    · exact h.handles j c (hother j hne ▸ hj)
  · intro j c hj
    obtain rfl | hne := eq_or_ne j i
    · exact hcompleting c (hself ▸ hj)
    · exact h.completing j c (hother j hne ▸ hj)
  · intro j stops hj
    obtain rfl | hne := eq_or_ne j i
    · exact hstoring stops (hself ▸ hj)
    · exact h.storing j stops (hother j hne ▸ hj)

theorem Waits.setCall_plain {s : Engine} (h : Waits s) (i : CallId) {k : Call} (hk : k.Plain) :
    Waits (s.setCall i k) :=
  h.setCall (by rintro _ rfl; exact hk.elim)
    (by rintro _ (rfl | ⟨_, rfl⟩) <;> exact hk.elim) (by rintro _ rfl; exact hk.elim)
    (by rintro _ rfl; exact hk.elim)

theorem Waits.of_setCall {s : Engine} {i : CallId} {k : Call} (h : Waits (s.setCall i k)) :
    Waits (s.publish i k) :=
  h.congr rfl id rfl rfl

theorem Waits.setControl {s : Engine} (h : Waits s) {c : ControlId} {k : Control}
    (hhandles : (s.controls c).stage ≠ .absent ∧ (s.controls c).stage ≠ .held →
      k.stage ≠ .absent ∧ k.stage ≠ .held)
    (hstop : (s.controls c).stage ≠ .absent ∧ (s.controls c).stage ≠ .held →
      (s.controls c).stop = true → k.stop = true)
    (howed : (s.controls c).stage = .queued ∨ (s.controls c).stage = .running →
      k.stage = (s.controls c).stage ∧ k.leads = (s.controls c).leads ∧
        k.maker = (s.controls c).maker ∧ ∀ i, some i ∈ (s.controls c).commands →
          some i ∈ k.commands) : Waits (s.setControl c k) := by
  have hother : ∀ x, x ≠ c → (s.setControl c k).controls x = s.controls x :=
    fun x hx => Function.update_of_ne hx _ _
  have hself : (s.setControl c k).controls c = k := Function.update_self _ _ _
  refine h.mono rfl id (fun x hx => ?_) (fun x hhandle hx => ?_) (fun _ => id)
    fun i x _ halive hi => ?_
  · obtain rfl | hne := eq_or_ne x c
    · exact hself.symm ▸ hhandles hx
    · exact (hother x hne).symm ▸ hx
  · obtain rfl | hne := eq_or_ne x c
    · exact hself.symm ▸ hstop hhandle hx
    · exact (hother x hne).symm ▸ hx
  · obtain rfl | hne := eq_or_ne x c
    · obtain ⟨hstage, hleads, hmaker, hcommands⟩ := howed halive
      simp only [Engine.owed, hself, hstage, hleads, hmaker, List.mem_append,
        List.mem_filterMap, id_eq, exists_eq_right] at hi ⊢
      exact ⟨halive, hi.imp_left (hcommands i)⟩
    · simp only [Engine.owed, hother x hne] at hi ⊢
      exact ⟨halive, hi⟩

theorem Waits.setStop {s : Engine} (h : Waits s) (c : ControlId) : Waits (s.setStop c) :=
  h.setControl id (fun _ _ => rfl) fun _ => ⟨rfl, rfl, rfl, fun _ => id⟩

theorem Waits.refuse {s : Engine} (h : Waits s) (i : CallId) {c : ControlId}
    (hc : (s.controls c).stage = .held) : Waits (s.refuse i c) := by
  refine Waits.setCall_plain (k := .giveUp c) ?_ i trivial
  refine h.setControl (by simp) (fun _ => id) fun halive => ?_
  simp [hc] at halive

/-- A call is owed a reply by what it has just sent. -/
theorem Waits.sent {s t : Engine} (h : Waits s) {i : CallId} {c : ControlId} {k : Control}
    {m : Option ControlId} (hcalls : t.calls = Function.update s.calls i (.receiving m))
    (hstop : t.stop = s.stop) (hcontrols : t.controls = Function.update s.controls c k)
    (hreplies : t.replies = Function.update s.replies i none)
    (halive : k.stage = .queued ∨ k.stage = .running) (hsent : i ∈ t.owed c)
    (hkept : ∀ j, (s.controls c).stage = .queued ∨ (s.controls c).stage = .running →
      j ∈ s.owed c → j ∈ t.owed c) (hstops : (s.controls c).stop = true → k.stop = true) :
    Waits t := by
  have hother : ∀ j, j ≠ i → t.calls j = s.calls j ∧ t.replies j = s.replies j := by
    intro j hj
    rw [hcalls, hreplies, Function.update_of_ne hj, Function.update_of_ne hj]
    exact ⟨rfl, rfl⟩
  have hself : t.calls i = .receiving m := by rw [hcalls, Function.update_self]
  have hc : t.controls c = k := by rw [hcontrols, Function.update_self]
  have hx : ∀ x, x ≠ c → t.controls x = s.controls x := fun x hx => by
    rw [hcontrols, Function.update_of_ne hx]
  constructor
  · intro j m hj hnone
    obtain rfl | hne := eq_or_ne j i
    · exact ⟨c, hc.symm ▸ halive, hsent⟩
    · obtain ⟨hcall, hreply⟩ := hother j hne
      obtain ⟨x, hx', howes⟩ := h.receiving j m (hcall ▸ hj) (hreply ▸ hnone)
      obtain rfl | hxc := eq_or_ne x c
      · exact ⟨x, hc.symm ▸ halive, hkept j hx' howes⟩
      · refine ⟨x, (hx x hxc).symm ▸ hx', ?_⟩
        rw [Engine.owed, hx x hxc]
        exact howes
  · intro j x hj
    obtain rfl | hne := eq_or_ne j i
    · rw [hself] at hj
      obtain hj | ⟨_, hj⟩ := hj <;> cases hj
    · rw [(hother j hne).1] at hj
      obtain rfl | hxc := eq_or_ne x c
      · rw [hc]
        obtain halive | halive := halive <;> simp [halive]
      · exact (hx x hxc).symm ▸ h.handles j x hj
  · intro j x hj
    obtain rfl | hne := eq_or_ne j i
    · rw [hself] at hj
      cases hj
    · rw [(hother j hne).1] at hj
      obtain rfl | hxc := eq_or_ne x c
      · exact hc.symm ▸ hstops (h.completing j x hj)
      · exact (hx x hxc).symm ▸ h.completing j x hj
  · intro j stops hj
    obtain rfl | hne := eq_or_ne j i
    · rw [hself] at hj
      cases hj
    · rw [hstop]
      exact h.storing j stops ((hother j hne).1 ▸ hj)

theorem Waits.sendTask {s : Engine} (h : Waits s) {i : CallId} {c : ControlId}
    (hheld : (s.controls c).stage = .held) (hmaker : (s.controls c).maker = i) :
    Waits (s.sendTask i c) := by
  unfold Engine.sendTask
  dsimp only
  split_ifs with hfull hleads
  · exact h.refuse i hheld
  · exact h.sent (m := some c) rfl rfl rfl rfl (Or.inl rfl)
      (by simp [Engine.owed, Engine.publish, Engine.setReply, Engine.setControl, hleads, hmaker])
      (by simp [hheld]) id
  · refine (Waits.setCall_plain (k := .returned true) ?_ i trivial).of_setCall
    have hqueued : Waits (s.setControl c { s.controls c with stage := .queued }) :=
      h.setControl (by simp) (fun _ => id) (by simp [hheld])
    exact hqueued.congr rfl id rfl rfl

theorem Waits.sendCommand {s : Engine} (h : Waits s) (i : CallId) (c : ControlId)
    (awaits : Bool) : Waits (s.sendCommand i c awaits) := by
  unfold Engine.sendCommand
  dsimp only
  split_ifs with hopen hawaits
  · refine h.sent (m := none) rfl rfl rfl rfl hopen.1 ?_ ?_ id
    · simp [Engine.owed, Engine.publish, Engine.setReply, Engine.setControl]
    · intro j _ hj
      simp only [Engine.owed, Engine.publish, Engine.setReply, Engine.setControl,
        Function.update_self, List.filterMap_append, List.mem_append] at hj ⊢
      tauto
  · refine (Waits.setCall_plain (k := .returned true) ?_ i trivial).of_setCall
    exact h.setControl id (fun _ => id) fun _ =>
      ⟨rfl, rfl, rfl, fun j hj => List.mem_append_left _ hj⟩
  · exact h.setCall_plain i trivial

theorem Waits.proceed {s : Engine} (h : Waits s) (hs : Consistent s) (i : CallId) :
    Waits (s.proceed i) := by
  unfold Engine.proceed
  split
  case h_1 => exact h
  case h_2 c hi =>
      split_ifs
      · exact h
      · exact h.refuse i (hs.making i c (by rw [hi]; rfl)).1
      · refine Waits.setCall_plain ?_ i trivial
        exact h.congr rfl id rfl rfl
  case h_3 c hi =>
      split_ifs
      · exact h.refuse i (hs.making i c (by rw [hi]; rfl)).1
      · exact h.setCall_plain i trivial
  case h_4 c hi =>
      obtain ⟨hheld, hmaker⟩ := hs.making i c (by rw [hi]; rfl)
      exact h.sendTask hheld hmaker
  case h_5 c hi =>
      refine Waits.of_setCall ?_
      exact (h.setStop c).setCall_plain i trivial
  case h_6 c awaits hi => exact h.sendCommand i c awaits
  case h_7 made hi =>
      split
      · exact h
      · exact h.setCall_plain i trivial
      · exact h.setCall_plain i trivial
      · exact h.setCall_plain i trivial
  case h_8 c waits hi =>
      have hc := h.handles i c (Or.inr ⟨waits, hi⟩)
      cases waits with
      | false =>
          refine Waits.of_setCall ?_
          exact (h.setStop c).setCall_plain i trivial
      | true =>
          refine ((h.setStop c).setCall (by rintro _ ⟨⟩) ?_ ?_ (by rintro _ ⟨⟩)).of_setCall
          · rintro x (hx | ⟨_, hx⟩) <;> cases hx
            simpa [Engine.setStop, Engine.setControl] using hc
          · rintro x ⟨⟩
            simp [Engine.setStop, Engine.setControl]
  case h_9 c hi =>
      split_ifs
      · exact h.setCall_plain i trivial
      · exact h
  case h_10 hi =>
      split_ifs
      · exact h
      · have hstopped : Waits { s with locked := true, stop := true } :=
          h.congr rfl (fun _ => rfl) rfl rfl
        refine (hstopped.setCall (by rintro _ ⟨⟩) ?_ (by rintro _ ⟨⟩) (fun _ _ => rfl)).of_setCall
        rintro _ (hx | ⟨_, hx⟩) <;> cases hx
  case h_11 hi =>
      refine Waits.setCall_plain ?_ i trivial
      exact h.congr rfl id rfl rfl
  case h_12 c rest hi =>
      refine (h.setStop c).setCall (by rintro _ ⟨⟩) ?_ (by rintro _ ⟨⟩) (fun _ _ => ?_)
      · rintro _ (hx | ⟨_, hx⟩) <;> cases hx
      · exact h.storing i _ hi
  case h_13 hi =>
      split_ifs
      · exact h.setCall_plain i trivial
      · exact h

theorem Waits.advance {s : Engine} (h : Waits s) (hs : Consistent s) (i : CallId) :
    Waits (s.advance i) := by
  unfold Engine.advance
  split
  · exact h.congr rfl id rfl rfl
  · exact h.congr rfl id rfl rfl
  · exact h.proceed hs i

theorem Waits.begin {s : Engine} (h : Waits s) (i : CallId) (op : CallOp) :
    Waits (s.begin i op) := by
  unfold Engine.begin
  split
  case h_2 => exact h
  case h_1 ok hi hquiet =>
      cases op with
      | spawn c leads =>
          dsimp only
          split_ifs with habsent
          · refine Waits.setCall_plain (k := .registering c) ?_ i trivial
            exact h.setControl (by simp [habsent]) (by simp [habsent]) (by simp [habsent])
          · exact h
      | command c awaits =>
          dsimp only
          split_ifs
          · exact h
          · exact h.setCall_plain i trivial
      | stop c waits =>
          dsimp only
          split_ifs with hc
          · exact h
          · rw [not_or] at hc
            refine h.setCall (by rintro _ ⟨⟩) ?_ (by rintro _ ⟨⟩) (by rintro _ ⟨⟩)
            rintro x (hx | ⟨_, hx⟩) <;> cases hx
            exact hc
      | shutdown => exact h.setCall_plain i trivial

theorem Waits.timeout {s : Engine} (h : Waits s) (i : CallId) : Waits (s.timeout i) := by
  unfold Engine.timeout
  split
  · exact h.setCall_plain i trivial
  · exact h

/-- What a control owes is dropped with its task or its job. -/
theorem Waits.drop {s : Engine} (h : Waits s) (c : ControlId) : Waits (s.drop c) := by
  have hother : ∀ x, x ≠ c → (s.drop c).controls x = s.controls x :=
    fun x hx => Function.update_of_ne hx _ _
  have hself : (s.drop c).controls c = { s.controls c with stage := .gone, commands := [] } :=
    Function.update_self _ _ _
  have hnone : ∀ i, (s.drop c).replies i = none → i ∉ s.owed c ∧ s.replies i = none :=
    fun i => drop_replies_eq_none.mp
  refine h.mono rfl id (fun x hx => ?_) (fun x _ hx => ?_) (fun i hi => (hnone i hi).2)
    fun i x hi halive howed => ?_
  · obtain rfl | hne := eq_or_ne x c
    · rw [hself]
      simp
    · exact (hother x hne).symm ▸ hx
  · obtain rfl | hne := eq_or_ne x c
    · exact hself.symm ▸ hx
    · exact (hother x hne).symm ▸ hx
  · have hne : x ≠ c := fun heq => (hnone i hi).1 (heq ▸ howed)
    rw [Engine.owed, hother x hne]
    exact ⟨halive, howed⟩

theorem Waits.exit {s : Engine} (h : Waits s) (hs : Consistent s) : Waits s.exit := by
  have hnone : ∀ i, s.exit.replies i = none →
      (∀ c ∈ s.tasks ++ s.jobs, i ∉ s.owed c) ∧ s.replies i = none := by
    intro i hi
    simp only [Engine.exit] at hi
    split_ifs at hi with howed
    exact ⟨fun c hc hmem => howed ⟨c, hc, hmem⟩, hi⟩
  refine h.mono rfl id (fun c hc => ?_) (fun c _ hc => ?_) (fun i hi => (hnone i hi).2)
    fun i c hi halive howed => ?_
  · simp only [Engine.exit]
    split_ifs
    · simp
    · exact hc
  · simp only [Engine.exit]
    split_ifs
    · exact hc
    · exact hc
  · refine absurd howed ((hnone i hi).1 c ?_)
    rw [List.mem_append, hs.tasks, hs.jobs]
    exact halive

theorem Waits.runTask {s : Engine} (h : Waits s) (c : ControlId) (created : Bool)
    (hqueued : (s.controls c).stage = .queued) : Waits (s.runTask c created) := by
  -- once its maker has its reply, a task owes no more than its commands do
  generalize htold : (if (s.controls c).leads then
    s.setReply (s.controls c).maker (some (.sent created)) else s) = told
  have hsame : told.calls = s.calls ∧ told.stop = s.stop ∧ told.controls = s.controls := by
    rw [← htold]
    split_ifs <;> exact ⟨rfl, rfl, rfl⟩
  have hnone : ∀ i, told.replies i = none →
      s.replies i = none ∧ (i ∈ s.owed c → some i ∈ (s.controls c).commands) := by
    intro i hi
    rw [← htold] at hi
    rw [mem_owed]
    split_ifs at hi with hleads
    · simp only [Engine.setReply, Function.update_apply] at hi
      split_ifs at hi with hmaker
      exact ⟨hi, fun howed => howed.resolve_right fun h => hmaker h.2⟩
    · exact ⟨hi, fun howed => howed.resolve_right fun h => hleads h.1.2⟩
  have hother : ∀ (k : Control) x, x ≠ c → Function.update s.controls c k x = s.controls x :=
    fun k x hx => Function.update_of_ne hx _ _
  cases created with
  | true =>
      simp only [Engine.runTask, htold, if_true]
      refine h.mono hsame.1 (by rw [← hsame.2.1]; exact id) (fun x hx => ?_) (fun x _ hx => ?_)
        (fun i hi => (hnone i hi).1) fun i x hi halive howed => ?_
      · simp only [Engine.setControl, hsame.2.2]
        obtain rfl | hne := eq_or_ne x c
        · simp
        · rw [hother _ x hne]
          exact hx
      · simp only [Engine.setControl, hsame.2.2]
        obtain rfl | hne := eq_or_ne x c
        · simpa using hx
        · rw [hother _ x hne]
          exact hx
      · simp only [Engine.owed, Engine.setControl, hsame.2.2]
        obtain rfl | hne := eq_or_ne x c
        · simpa using (hnone i hi).2 howed
        · rw [hother _ x hne]
          exact ⟨halive, howed⟩
  | false =>
      simp only [Engine.runTask, htold, Bool.false_eq_true, if_false]
      have hdropped : ∀ i, ((told.setControl c { s.controls c with stage := .held }).drop
          c).replies i = none → told.replies i = none ∧ some i ∉ (s.controls c).commands := by
        intro i hi
        obtain ⟨hleft, hi⟩ := drop_replies_eq_none.mp hi
        rw [mem_owed, not_or] at hleft
        exact ⟨hi, by simpa [Engine.setControl] using hleft.1⟩
      refine h.mono hsame.1 (by rw [← hsame.2.1]; exact id) (fun x hx => ?_) (fun x _ hx => ?_)
        (fun i hi => (hnone i (hdropped i hi).1).1) fun i x hi halive howed => ?_
      · simp only [Engine.drop, Engine.setControl, hsame.2.2]
        obtain rfl | hne := eq_or_ne x c
        · simp
        · simpa [hne] using hx
      · simp only [Engine.drop, Engine.setControl, hsame.2.2]
        obtain rfl | hne := eq_or_ne x c
        · simpa using hx
        · simpa [hne] using hx
      · obtain ⟨htoldnone, hleft⟩ := hdropped i hi
        have hne : x ≠ c := fun heq => hleft ((hnone i htoldnone).2 (heq ▸ howed))
        rw [mem_owed] at howed ⊢
        simpa [Engine.drop, Engine.setControl, hsame.2.2, hne] using And.intro halive howed

/-- A command that is taken is answered. -/
theorem Waits.pop {s : Engine} (h : Waits s) {c : ControlId} {waiting : Option CallId}
    {rest : List (Option CallId)} (hcommands : (s.controls c).commands = waiting :: rest)
    (ok more : Bool) :
    Waits ((s.setControl c { s.controls c with commands := rest, commandMore := more }).answer
      waiting ok) := by
  have hcontrols : ∀ t : Engine, (t.answer waiting ok).controls = t.controls := by
    intro t
    cases waiting <;> rfl
  have hother : ∀ x, x ≠ c → Function.update s.controls c
      { s.controls c with commands := rest, commandMore := more } x = s.controls x :=
    fun x hx => Function.update_of_ne hx _ _
  have hnone : ∀ i, ((s.setControl c { s.controls c with
      commands := rest, commandMore := more }).answer waiting ok).replies i = none →
      s.replies i = none ∧ waiting ≠ some i := by
    intro i hi
    cases waiting with
    | none => exact ⟨hi, by simp⟩
    | some j =>
        simp only [Engine.answer, Engine.setReply, Function.update_apply] at hi
        split_ifs at hi with hij
        exact ⟨hi, by simpa [eq_comm] using hij⟩
  refine h.mono (by cases waiting <;> rfl) (by cases waiting <;> exact id) (fun x hx => ?_)
    (fun x _ hx => ?_) (fun i hi => (hnone i hi).1) fun i x hi halive howed => ?_
  · rw [hcontrols, Engine.setControl]
    obtain rfl | hne := eq_or_ne x c
    · simpa using hx
    · simpa [hother x hne] using hx
  · rw [hcontrols, Engine.setControl]
    obtain rfl | hne := eq_or_ne x c
    · simpa using hx
    · simpa [hother x hne] using hx
  · simp only [Engine.owed, hcontrols, Engine.setControl] at howed ⊢
    obtain rfl | hne := eq_or_ne x c
    · have hwaiting := (hnone i hi).2
      rw [hcommands] at howed
      simp only [Function.update_self, List.mem_append, List.mem_filterMap, id_eq,
        exists_eq_right, List.mem_cons] at howed ⊢
      exact ⟨halive, howed.imp_left fun h => h.resolve_left fun heq => hwaiting heq.symm⟩
    · rw [hother x hne]
      exact ⟨halive, howed⟩

theorem Waits.workerStep {s : Engine} (h : Waits s) (hs : Consistent s) (x : WorkerChoice) :
    Waits (s.workerStep x) := by
  unfold Engine.workerStep
  split
  case h_1 hw => exact h.congr rfl id rfl rfl
  case h_2 n hw =>
      split
      · exact h.congr rfl id rfl rfl
      · rename_i c rest htasks
        have hbefore : Waits { s with tasks := rest, taskMore := decide (n = taskBatch - 1) } :=
          h.congr rfl id rfl rfl
        have htaken := hbefore.runTask c x.created ((hs.tasks c).mp (by simp [htasks]))
        dsimp only
        split_ifs
        · exact htaken.congr rfl id rfl rfl
        · exact htaken.congr rfl id rfl rfl
  case h_3 hw =>
      split
      · exact h.congr rfl id rfl rfl
      · rename_i c rest hahead
        have hnext : Waits { s with ahead := rest } := h.congr rfl id rfl rfl
        dsimp only
        split_ifs
        · exact hnext.drop c
        · have hset : Waits ({ s with ahead := rest }.setControl c
              { s.controls c with commandMore := false, receiveMore := false }) :=
            hnext.setControl id (fun _ => id) fun _ => ⟨rfl, rfl, rfl, fun _ => id⟩
          exact hset.congr rfl id rfl rfl
        · exact hnext.drop c
        · exact hnext.setControl id (fun _ => id) fun _ => ⟨rfl, rfl, rfl, fun _ => id⟩
  case h_4 c n hw =>
      split
      · exact h.congr rfl id rfl rfl
      · rename_i waiting rest hcommands
        have hpop := h.pop hcommands x.succeeded (decide (n = commandBatch - 1))
        dsimp only
        split_ifs
        · exact hpop.congr rfl id rfl rfl
        · exact hpop.congr rfl id rfl rfl
  case h_5 c hw =>
      split_ifs
      · exact (h.drop c).congr rfl id rfl rfl
      · exact h.congr rfl id rfl rfl
  case h_6 hw =>
      split_ifs
      · exact h.exit hs
      · exact h.congr rfl id rfl rfl
  case h_7 hw => exact h.congr rfl id rfl rfl
  case h_8 b hw =>
      split_ifs
      · exact h.exit hs
      · exact h.congr rfl id rfl rfl
  case h_9 => exact h

theorem Covered.refuse {s : Engine} (h : Covered s) (i : CallId) (c : ControlId) :
    Covered (s.refuse i c) := by
  refine Covered.setCall ?_ i (.giveUp c)
  exact h.setControl (by simp)

theorem Covered.sendTask {s : Engine} (h : Covered s) (i : CallId) (c : ControlId) :
    Covered (s.sendTask i c) := by
  unfold Engine.sendTask
  dsimp only
  split_ifs
  · exact h.refuse i c
  · exact covered_publish _ _ _
  · exact covered_publish _ _ _

theorem Covered.sendCommand {s : Engine} (h : Covered s) (i : CallId) (c : ControlId)
    (awaits : Bool) : Covered (s.sendCommand i c awaits) := by
  unfold Engine.sendCommand
  dsimp only
  split_ifs
  · exact covered_publish _ _ _
  · exact covered_publish _ _ _
  · exact h.setCall i _

/-- While the engine is stopped the worker need not look at the stop flag of a job. -/
theorem Covered.setStop {s : Engine} (h : Covered s) (c : ControlId) (hstop : s.stop = true) :
    Covered (s.setStop c) := by
  have hsame : ∀ x, ((s.setStop c).controls x).stage = (s.controls x).stage ∧
      ((s.setStop c).controls x).commands = (s.controls x).commands ∧
      ((s.setStop c).controls x).commandMore = (s.controls x).commandMore ∧
      ((s.setStop c).controls x).receiveMore = (s.controls x).receiveMore := by
    intro x
    simp only [Engine.setStop, Engine.setControl, Function.update_apply]
    split_ifs with hx
    · subst hx
      exact ⟨rfl, rfl, rfl, rfl⟩
    · exact ⟨rfl, rfl, rfl, rfl⟩
  refine h.keep (fun w hw => ?_) id
  cases w with
  | task => exact ⟨hw, fun ha => ha.mono rfl id id⟩
  | close => exact ⟨hw, fun ha => ha.mono rfl id id⟩
  | command x =>
      obtain ⟨hstage, hcommands, hmore, hreceive⟩ := hsame x
      rw [Has, hstage, hcommands] at hw
      refine ⟨hw, fun ha => ha.mono rfl ?_ id⟩
      rw [Left, Left, hmore, hreceive]
      exact id
  | stop x =>
      exact absurd (hstop.symm.trans hw.2.2) (by simp)

theorem Covered.proceed {s : Engine} (h : Covered s) (hwaits : Waits s) (i : CallId) :
    Covered (s.proceed i) := by
  unfold Engine.proceed
  split
  case h_1 => exact h
  case h_2 c hi =>
      split_ifs
      · exact h
      · exact h.refuse i c
      · exact h.congr rfl rfl rfl rfl rfl rfl id
  case h_3 c hi =>
      split_ifs
      · exact h.refuse i c
      · exact h.setCall i _
  case h_4 c hi => exact h.sendTask i c
  case h_5 c hi => exact covered_publish _ _ _
  case h_6 c awaits hi => exact h.sendCommand i c awaits
  case h_7 made hi =>
      split
      · exact h
      · exact h.setCall i _
      · exact h.setCall i _
      · exact h.setCall i _
  case h_8 c waits hi => exact covered_publish _ _ _
  case h_9 c hi =>
      split_ifs
      · exact h.setCall i _
      · exact h
  case h_10 hi =>
      split_ifs
      · exact h
      · exact covered_publish _ _ _
  case h_11 hi => exact h.congr rfl rfl rfl rfl rfl rfl id
  case h_12 c rest hi => exact (h.setStop c (hwaits.storing i _ hi)).setCall i _
  case h_13 hi =>
      split_ifs
      · exact h.setCall i _
      · exact h

theorem Covered.advance {s : Engine} (h : Covered s) (hwaits : Waits s) (i : CallId) :
    Covered (s.advance i) := by
  unfold Engine.advance
  split
  case h_1 => exact covered_of_told (Doorbell.told_raise _ _ _)
  case h_2 hraised => exact h.congr rfl rfl rfl rfl rfl rfl fun htold => htold.ring hraised
  case h_3 => exact h.proceed hwaits i

theorem Covered.begin {s : Engine} (h : Covered s) (i : CallId) (op : CallOp) :
    Covered (s.begin i op) := by
  unfold Engine.begin
  split
  case h_2 => exact h
  case h_1 ok hi hquiet =>
      cases op with
      | spawn c leads =>
          dsimp only
          split_ifs
          · refine Covered.setCall ?_ i _
            exact h.setControl (by simp)
          · exact h
      | command c awaits =>
          dsimp only
          split_ifs
          · exact h
          · exact h.setCall i _
      | stop c waits =>
          dsimp only
          split_ifs
          · exact h
          · exact h.setCall i _
      | shutdown => exact h.setCall i _

theorem Covered.timeout {s : Engine} (h : Covered s) (i : CallId) : Covered (s.timeout i) := by
  unfold Engine.timeout
  split
  · exact h.setCall i _
  · exact h

/-- The steps of a pass begin with no task left, or are followed by another pass. -/
theorem covered_beginSteps {s : Engine} (hs : Consistent s)
    (htasks : s.tasks = [] ∨ s.taskMore = true) : Covered s.beginSteps := by
  intro w hw
  refine Or.inl ?_
  change s.beginSteps.Left w ∨ s.beginSteps.Coming w
  cases w with
  | task => exact Or.inl (htasks.resolve_left hw)
  | command c => exact Or.inr (List.mem_rotate.mpr ((hs.jobs c).mpr hw.1))
  | stop c => exact Or.inr (List.mem_rotate.mpr ((hs.jobs c).mpr hw.1))
  | close => exact Or.inr trivial

theorem covered_of_ahead {s : Engine} (h : ∀ w, s.Ahead w) : Covered s :=
  fun w _ => Or.inl (h w)

/-- The first job to step is passed: it is gone, or has nothing the worker must see, or asks
for another pass. -/
theorem Covered.passed {s t : Engine} (h : Covered s) {c : ControlId} {rest : List ControlId}
    (hworker : s.worker = .stepping) (hahead : s.ahead = c :: rest) (htold : t.bell = s.bell)
    (hpc : t.worker = .stepping ∨ t.worker = .commands c 0) (hmore : t.taskMore = s.taskMore)
    (hrest : t.ahead = rest) (htasks : t.tasks = s.tasks) (hstop : t.stop = s.stop)
    (hother : ∀ x, x ≠ c → t.controls x = s.controls x)
    (hcommand : t.Has (.command c) → t.worker = .commands c 0 ∨ t.Left (.command c))
    (hstopped : ¬ t.Has (.stop c)) : Covered t := by
  have hasleep : s.asleep = false ∧ t.asleep = false := by
    constructor
    · rw [asleep, hworker]
    · obtain hpc | hpc := hpc <;> rw [asleep, hpc]
  have hmid : ∀ w, t.Left w ∨ t.Coming w ∨ t.worker = .commands c 0 ∧ w = .command c →
      t.Ahead w := by
    intro w hw
    obtain hpc | hpc := hpc
    · rw [Ahead, hpc]
      rw [hpc] at hw
      exact hw.imp_right fun h => h.resolve_right (by simp)
    · rw [Ahead, hpc]
      exact hw.imp_right (Or.imp_right And.right)
  intro w hw
  rw [hasleep.2, htold]
  have hold : w ≠ .command c → w ≠ .stop c → s.Has w ∧ (s.Left w → t.Left w) ∧
      (s.Coming w → t.Coming w) := by
    intro hcommand hstopped
    cases w with
    | task => exact ⟨by simpa [Has, htasks] using hw, by rw [Left, Left, hmore]; exact id, id⟩
    | close =>
        refine ⟨⟨hstop ▸ hw.1, by simp [hworker]⟩, id, id⟩
    | command x =>
        have hne : x ≠ c := fun heq => hcommand (heq ▸ rfl)
        rw [Has, hother x hne] at hw
        refine ⟨hw, by rw [Left, Left, hother x hne]; exact id, fun hx => ?_⟩
        rw [Coming, hahead] at hx
        rw [Coming, hrest]
        exact (List.mem_cons.mp hx).resolve_left hne
    | stop x =>
        have hne : x ≠ c := fun heq => hstopped (heq ▸ rfl)
        rw [Has, hother x hne, hstop] at hw
        refine ⟨hw, id, fun hx => ?_⟩
        rw [Coming, hahead] at hx
        rw [Coming, hrest]
        exact (List.mem_cons.mp hx).resolve_left hne
  by_cases hc : w = .command c
  · subst hc
    exact Or.inl (hmid _ ((hcommand hw).elim (fun h => Or.inr (Or.inr ⟨h, rfl⟩)) Or.inl))
  · by_cases hx : w = .stop c
    · exact absurd (hx ▸ hw) hstopped
    · obtain ⟨hhas, hleft, hcoming⟩ := hold hc hx
      refine (h w hhas).imp (fun ha => hmid w ?_) (fun htold => hasleep.1 ▸ htold)
      rw [Ahead, hworker] at ha
      exact ha.imp hleft fun h => Or.inl (hcoming h)

/-- The worker goes on, awake, and what lay ahead of it still does. -/
theorem Covered.setWorker {s : Engine} (h : Covered s) {p : WorkerPc}
    (hrunning : s.worker ≠ .exited) (hawake : s.asleep = false)
    (hstill : ({ s with worker := p } : Engine).asleep = false)
    (hahead : ∀ w, s.Has w → s.Ahead w → ({ s with worker := p } : Engine).Ahead w) :
    Covered { s with worker := p } := by
  intro w hw
  have hhas : s.Has w := by
    cases w with
    | close => exact ⟨hw.1, hrunning⟩
    | task => exact hw
    | command c => exact hw
    | stop c => exact hw
  rw [hstill]
  exact (h w hhas).imp (hahead w hhas) (fun htold => hawake ▸ htold)

theorem Covered.takeCommand {s : Engine} (h : Covered s) {c : ControlId} {n : Nat}
    (hworker : s.worker = .commands c n) (hn : n < commandBatch) (x : WorkerChoice) :
    Covered (s.workerStep x) := by
  have hasleep : s.asleep = false := by rw [asleep, hworker]
  have hold : ∀ w, s.Has w → w ≠ .command c → (s.Left w ∨ s.Coming w) ∨ s.bell.Told false := by
    intro w hw hne
    refine (h w hw).imp (fun ha => ?_) (fun htold => hasleep ▸ htold)
    rw [Ahead, hworker] at ha
    exact ha.imp_right fun hc => hc.resolve_right hne
  unfold Engine.workerStep
  simp only [hworker]
  split
  case h_1 hcommands =>
      refine h.setWorker (by simp [hworker]) hasleep rfl fun w hw ha => ?_
      rw [Ahead, hworker] at ha
      refine ha.imp_right fun hc => hc.resolve_right ?_
      rintro rfl
      exact hw.2 hcommands
  case h_2 waiting rest hcommands =>
      have hother : ∀ y, y ≠ c → Function.update s.controls c { s.controls c with
          commands := rest, commandMore := decide (n = commandBatch - 1) } y = s.controls y :=
        fun y hy => Function.update_of_ne hy _ _
      generalize ht : ({ (s.setControl c { s.controls c with
          commands := rest, commandMore := decide (n = commandBatch - 1) }).answer waiting
            x.succeeded with
          worker := if n + 1 < commandBatch then .commands c (n + 1) else .finishing c } :
            Engine) = t
      have hcontrols : t.controls = Function.update s.controls c { s.controls c with
          commands := rest, commandMore := decide (n = commandBatch - 1) } := by
        rw [← ht]
        cases waiting <;> rfl
      have hsame : t.bell = s.bell ∧ t.tasks = s.tasks ∧ t.stop = s.stop ∧
          t.taskMore = s.taskMore ∧ t.ahead = s.ahead := by
        rw [← ht]
        cases waiting <;> exact ⟨rfl, rfl, rfl, rfl, rfl⟩
      obtain ⟨hbell, htasks, hstop, hmore, hahead⟩ := hsame
      have hpc : t.worker = if n + 1 < commandBatch then .commands c (n + 1) else .finishing c := by
        rw [← ht]
      have htasleep : t.asleep = false := by
        rw [asleep, hpc]
        split_ifs <;> rfl
      have hmid : ∀ w, t.Left w ∨ t.Coming w → t.Ahead w := by
        intro w hw
        rw [Ahead, hpc]
        split_ifs
        · exact hw.imp_right Or.inl
        · exact hw
      intro w hw
      rw [htasleep, hbell]
      obtain rfl | hne := eq_or_ne w (.command c)
      · refine Or.inl ?_
        by_cases hlast : n + 1 < commandBatch
        · rw [Ahead, hpc, if_pos hlast]
          exact Or.inr (Or.inr rfl)
        · refine hmid _ (Or.inl (Or.inl ?_))
          rw [hcontrols, Function.update_self]
          simp only [decide_eq_true_eq]
          omega
      · have hhas : s.Has w ∧ (s.Left w ∨ s.Coming w → t.Left w ∨ t.Coming w) := by
          cases w with
          | task =>
              refine ⟨by rwa [Has, htasks] at hw, Or.imp ?_ id⟩
              rw [Left, Left, hmore]
              exact id
          | close => exact ⟨⟨hstop ▸ hw.1, by simp [hworker]⟩, id⟩
          | command y =>
              have hy : y ≠ c := fun heq => hne (heq ▸ rfl)
              rw [Has, hcontrols, hother y hy] at hw
              refine ⟨hw, Or.imp ?_ ?_⟩
              · rw [Left, Left, hcontrols, hother y hy]
                exact id
              · rw [Coming, Coming, hahead]
                exact id
          | stop y =>
              rw [Has, hcontrols, hstop] at hw
              refine ⟨?_, Or.imp id ?_⟩
              · obtain rfl | hy := eq_or_ne y c
                · rwa [Function.update_self] at hw
                · rwa [hother y hy] at hw
              · rw [Coming, Coming, hahead]
                exact id
        exact (hold w hhas.1 hne).imp_left fun ha => hmid w (hhas.2 ha)

theorem Covered.finish {s : Engine} (h : Covered s) {c : ControlId}
    (hworker : s.worker = .finishing c) (x : WorkerChoice) : Covered (s.workerStep x) := by
  have hasleep : s.asleep = false := by rw [asleep, hworker]
  have hold : ∀ w, s.Has w → (s.Left w ∨ s.Coming w) ∨ s.bell.Told false := by
    intro w hw
    refine (h w hw).imp (fun ha => ?_) (fun htold => hasleep ▸ htold)
    rw [Ahead, hworker] at ha
    exact ha
  unfold Engine.workerStep
  simp only [hworker]
  split_ifs
  · have hother : ∀ y, ((s.drop c).controls y).stage = .running →
        (s.drop c).controls y = s.controls y := by
      intro y hy
      simp only [Engine.drop, Function.update_apply] at hy ⊢
      split_ifs at hy ⊢
      rfl
    intro w hw
    cases w with
    | task => exact hold .task hw
    | close => exact hold .close ⟨hw.1, by simp [hworker]⟩
    | command y =>
        have hy := hother y hw.1
        change (_ ∨ _) ∨ _
        rw [Left]
        change ((s.drop c).controls y).stage = .running ∧
          ((s.drop c).controls y).commands ≠ [] at hw
        rw [hy] at hw
        have hcontrols : ({ s.drop c with worker := .stepping } : Engine).controls y =
          s.controls y := hy
        rw [hcontrols]
        exact hold (.command y) hw
    | stop y =>
        have hy := hother y hw.1
        change ((s.drop c).controls y).stage = .running ∧ ((s.drop c).controls y).stop = true ∧
          s.stop = false at hw
        rw [hy] at hw
        exact hold (.stop y) hw
  · refine h.setWorker (by simp [hworker]) hasleep rfl fun w _ ha => ?_
    rw [Ahead, hworker] at ha
    exact ha

/-- The worker falls asleep only over what it is told of. -/
theorem Covered.doze {s : Engine} (h : Covered s) (hs : Consistent s)
    (hworker : s.worker = .deciding) (x : WorkerChoice) : Covered (s.workerStep x) := by
  have hasleep : s.asleep = false := by rw [asleep, hworker]
  unfold Engine.workerStep
  simp only [hworker]
  generalize himmediate : (s.taskMore || s.bell.flag || x.ready ||
    s.jobs.any fun c => (s.controls c).commandMore || (s.controls c).receiveMore) = immediate
  cases immediate with
  | true => exact covered_of_ahead fun w => trivial
  | false =>
      simp only [Bool.or_eq_false_iff, List.any_eq_false] at himmediate
      obtain ⟨⟨⟨hmore, hflag⟩, -⟩, hjobs⟩ := himmediate
      intro w hw
      refine Or.inr ?_
      have hhas : s.Has w := by
        cases w with
        | close => exact ⟨hw.1, by simp [hworker]⟩
        | task => exact hw
        | command y => exact hw
        | stop y => exact hw
      have htold := (h w hhas).resolve_left fun ha => ?_
      · exact Doorbell.Told.doze (hasleep ▸ htold) hflag
      · rw [Ahead, hworker] at ha
        cases w with
        | task => exact absurd (hmore.symm.trans ha) (by simp)
        | command y =>
            have hy := hjobs y ((hs.jobs y).mpr hhas.1)
            exact hy (by simpa [Left] using ha)
        | stop y => exact ha
        | close => exact ha

theorem Covered.take {s : Engine} (hs : Consistent s) {n : Nat} (hworker : s.worker = .taking n)
    (x : WorkerChoice) : Covered (s.workerStep x) := by
  have hn := hs.taking n hworker
  rw [Engine.workerStep]
  split <;> rename_i hpc <;> rw [hworker] at hpc <;> cases hpc
  split
  case h_1 htasks => exact covered_beginSteps hs (Or.inl htasks)
  case h_2 c rest htasks =>
      dsimp only
      split_ifs with hlast
      · exact covered_of_ahead fun w => trivial
      · refine covered_beginSteps (hs.runTask htasks hworker _ _) (Or.inr ?_)
        have hmore : n = taskBatch - 1 := by omega
        simp only [Engine.runTask]
        split_ifs <;> simpa [Engine.drop, Engine.setControl, Engine.setReply] using hmore

theorem Covered.stepJob {s : Engine} (h : Covered s)
    (hworker : s.worker = .stepping) (x : WorkerChoice) : Covered (s.workerStep x) := by
  rw [Engine.workerStep]
  split <;> rename_i hpc <;> rw [hworker] at hpc <;> cases hpc
  split
  case h_1 hahead =>
      refine h.setWorker (by simp [hworker]) (by rw [asleep, hworker]) rfl fun w _ ha => ?_
      rw [Ahead, hworker] at ha
      refine ha.imp_right fun hcoming => ?_
      cases w with
      | task => exact hcoming.elim
      | close => rfl
      | command c =>
          rw [Coming, hahead] at hcoming
          exact absurd hcoming List.not_mem_nil
      | stop c =>
          rw [Coming, hahead] at hcoming
          exact absurd hcoming List.not_mem_nil
  case h_2 c rest hahead =>
      have hother : ∀ (k : Control) y, y ≠ c → Function.update s.controls c k y = s.controls y :=
        fun k y hy => Function.update_of_ne hy _ _
      dsimp only
      split_ifs with hstop hio hleads
      · exact h.passed hworker hahead rfl (Or.inl hworker) rfl rfl rfl rfl (hother _)
          (fun hw => absurd hw.1 (by simp [Engine.drop]))
          (fun hw => absurd hw.1 (by simp [Engine.drop]))
      · refine h.passed hworker hahead rfl (Or.inr rfl) rfl rfl rfl rfl (hother _)
          (fun _ => Or.inl rfl) (fun hw => hstop ?_)
        simpa [Engine.setControl] using hw.2.1
      · exact h.passed hworker hahead rfl (Or.inl hworker) rfl rfl rfl rfl (hother _)
          (fun hw => absurd hw.1 (by simp [Engine.drop]))
          (fun hw => absurd hw.1 (by simp [Engine.drop]))
      · refine h.passed hworker hahead rfl (Or.inl hworker) rfl rfl rfl rfl (hother _)
          (fun _ => Or.inr (Or.inr (by simp [Engine.setControl]))) (fun hw => hstop ?_)
        simpa [Engine.setControl] using hw.2.1

theorem Covered.workerStep {s : Engine} (h : Covered s) (hs : Consistent s) (x : WorkerChoice) :
    Covered (s.workerStep x) := by
  cases hworker : s.worker with
  | taking n => exact Covered.take hs hworker x
  | stepping => exact h.stepJob hworker x
  | commands c n => exact h.takeCommand hworker (hs.commands c n hworker) x
  | finishing c => exact h.finish hworker x
  | deciding => exact h.doze hs hworker x
  | start =>
      rw [Engine.workerStep, hworker]
      exact covered_of_ahead fun w => trivial
  | checking =>
      rw [Engine.workerStep, hworker]
      dsimp only
      split_ifs with hstop
      · exact covered_of_ahead fun w => trivial
      · refine h.setWorker (by simp [hworker]) (by rw [asleep, hworker]) rfl fun w hw ha => ?_
        rw [Ahead, hworker] at ha
        refine ha.resolve_right ?_
        rintro rfl
        exact hstop hw.1
  | polling sleeps =>
      rw [Engine.workerStep, hworker]
      dsimp only
      split_ifs
      · exact covered_of_ahead fun w => trivial
      · exact covered_of_ahead fun w => trivial
  | exited =>
      rw [Engine.workerStep, hworker]
      exact h

/-- What every step of every thread keeps. -/
structure Attended (s : Engine) : Prop where
  consistent : Consistent s
  waits : Waits s
  covered : Covered s

theorem attended_new : Attended new :=
  ⟨consistent_new, waits_new, covered_of_ahead fun _ => trivial⟩

theorem Attended.step {s : Engine} (h : Attended s) (a : EngineAction) :
    Attended (s.step a).1 := by
  obtain ⟨hs, hwaits, hcovered⟩ := h
  cases a with
  | begin i op => exact ⟨hs.begin i op, hwaits.begin i op, hcovered.begin i op⟩
  | advance i => exact ⟨hs.advance i, hwaits.advance hs i, hcovered.advance hwaits i⟩
  | timeout i => exact ⟨hs.timeout i, hwaits.timeout i, hcovered.timeout i⟩
  | worker x => exact ⟨hs.workerStep x, hwaits.workerStep hs x, hcovered.workerStep hs x⟩

theorem attended_run (actions : List EngineAction) :
    Attended (Machine.run step new actions) :=
  Machine.run_invariant (fun _ a h => h.step a) attended_new actions

/-- However the threads are interleaved, the worker does not sleep over a call: while it sleeps
and nothing is under way that ends its sleep, no task and no command waits, no job is to stop,
the engine is not shut down, and whoever waits for a reply or for the end of a job has it. -/
theorem no_call_slept_through (actions : List EngineAction) :
    let s := Machine.run step new actions
    s.worker = .polling true → s.bell.rung = false → (∀ i, s.bell.phase i = .quiet) →
      s.tasks = [] ∧ s.stop = false ∧
      (∀ c, (s.controls c).stage = .running →
        (s.controls c).commands = [] ∧ (s.controls c).stop = false) ∧
      (∀ i made, s.calls i = .receiving made → s.replies i ≠ none) ∧
      ∀ i c, s.calls i = .completing c → (s.controls c).stage = .gone := by
  intro s hworker hrung hquiet
  obtain ⟨hs, hwaits, hcovered⟩ : Attended s := attended_run actions
  have hnothing : ∀ w, ¬ s.Has w := by
    intro w hw
    obtain hahead | htold := hcovered w hw
    · rw [Ahead, hworker] at hahead
      exact hahead
    · rw [asleep, hworker] at htold
      exact Doorbell.not_told_of_quiet hquiet hrung htold
  have htasks : s.tasks = [] := by
    by_contra hne
    exact hnothing .task hne
  have hopen : s.stop = false := by
    by_contra hstop
    exact hnothing .close ⟨by simpa using hstop, by simp [hworker]⟩
  have hqueued : ∀ c, (s.controls c).stage ≠ .queued := by
    intro c hc
    rw [← hs.tasks, htasks] at hc
    exact absurd hc List.not_mem_nil
  have hcommands : ∀ c, (s.controls c).stage = .running → (s.controls c).commands = [] := by
    intro c hc
    by_contra hne
    exact hnothing (.command c) ⟨hc, hne⟩
  have hstops : ∀ c, (s.controls c).stage = .running → (s.controls c).stop = false := by
    intro c hc
    by_contra hstop
    exact hnothing (.stop c) ⟨hc, by simpa using hstop, hopen⟩
  refine ⟨htasks, hopen, fun c hc => ⟨hcommands c hc, hstops c hc⟩, fun i made hi hnone => ?_,
    fun i c hi => ?_⟩
  · obtain ⟨c, hc, howed⟩ := hwaits.receiving i made hi hnone
    have hrunning := hc.resolve_left (hqueued c)
    rw [mem_owed, hcommands c hrunning, hrunning] at howed
    simp at howed
  · obtain ⟨habsent, hheld⟩ := hwaits.handles i c (Or.inl hi)
    have hstop := hwaits.completing i c hi
    have hnot := hqueued c
    have hnotrunning : (s.controls c).stage ≠ .running := fun hc => by
      rw [hstops c hc] at hstop
      cases hstop
    cases hstage : (s.controls c).stage with
    | absent => exact absurd hstage habsent
    | held => exact absurd hstage hheld
    | queued => exact absurd hstage hnot
    | running => exact absurd hstage hnotrunning
    | gone => rfl

/-- A step of the worker in which everything goes well and nothing else is to do. -/
def easyChoice : WorkerChoice where
  created := true
  io := true
  succeeded := true
  alive := true
  ready := false
  pollFails := false

/-- A follower is made and sent a command while the worker looks for tasks. -/
def commandedFollower : List EngineAction :=
  [.begin 0 (.spawn 5 false), .advance 0, .advance 0, .advance 0, .advance 0,
    .worker easyChoice, .worker easyChoice, .begin 1 (.command 5 true), .advance 1, .advance 0,
    .worker easyChoice, .worker easyChoice, .worker easyChoice, .advance 1, .advance 1] ++
    List.replicate 23 (.worker easyChoice)

theorem no_call_slept_through_by_follower :
    let s := Machine.run step new commandedFollower
    s.worker = .polling true ∧ s.jobs = [5] ∧ s.calls 1 = .receiving none ∧
      s.replies 1 ≠ none := by
  have hquiet : ∀ i, (Machine.run step new commandedFollower).bell.phase i = .quiet := by
    intro i
    match i with
    | 0 => decide +kernel
    | 1 => decide +kernel
    | _ + 2 => rfl
  have hcall : (Machine.run step new commandedFollower).calls 1 = .receiving none := by
    decide +kernel
  exact ⟨by decide +kernel, by decide +kernel, hcall,
    (no_call_slept_through commandedFollower (by decide +kernel) (by decide +kernel)
      hquiet).2.2.2.1 1 none hcall⟩

/-- Steps the worker takes at most until it has left its loop, once the engine is stopped: what
is left of the pass, and if that no longer looks at the stop flag, a whole pass more. -/
def toExit (s : Engine) : Nat :=
  let steps := (commandBatch + 4) * s.ahead.length + 2
  let takes := fun n =>
    (commandBatch + 5) * (taskBatch - n) + (commandBatch + 4) * s.jobs.length + 3
  match s.worker with
  | .taking n => takes n
  | .stepping => steps
  | .commands _ n => commandBatch - n + 2 + steps
  | .finishing _ => 1 + steps
  | .checking => 1
  | .exited => 0
  | .start => takes 0 + 1
  | .polling _ => takes 0 + 2
  | .deciding => takes 0 + 3

theorem length_jobs_runTask (s : Engine) (c : ControlId) (created : Bool) :
    (s.runTask c created).jobs.length ≤ s.jobs.length + 1 := by
  cases created with
  | true =>
      simp only [Engine.runTask, if_true]
      exact (List.length_append).le
  | false =>
      have hjobs : (s.runTask c false).jobs = s.jobs.filter (· ≠ c) := by
        simp only [Engine.runTask, Bool.false_eq_true, if_false, Engine.drop, Engine.setControl]
        split_ifs <;> rfl
      rw [hjobs]
      exact (List.length_filter_le _ _).trans (Nat.le_succ _)

/-- Each step of the worker brings it nearer to its exit. -/
theorem toExit_workerStep {s : Engine} (hs : Consistent s) (hstop : s.stop = true)
    (x : WorkerChoice) (hrunning : s.worker ≠ .exited) :
    (s.workerStep x).toExit < s.toExit := by
  cases hworker : s.worker with
  | start =>
      rw [Engine.workerStep, hworker]
      simp [toExit, hworker]
  | taking n =>
      have hn := hs.taking n hworker
      rw [Engine.workerStep]
      split <;> rename_i hpc <;> rw [hworker] at hpc <;> cases hpc
      split
      case h_1 htasks =>
          simp only [toExit, hworker, Engine.beginSteps, List.length_rotate]
          omega
      case h_2 c rest htasks =>
          have hlength := length_jobs_runTask
            { s with tasks := rest, taskMore := decide (n = taskBatch - 1) } c x.created
          dsimp only at hlength ⊢
          generalize ({ s with tasks := rest, taskMore := decide (n = taskBatch - 1) } :
            Engine).runTask c x.created = t at hlength ⊢
          split_ifs with hlast
          · simp only [toExit, hworker, taskBatch, commandBatch] at hn hlast ⊢
            omega
          · simp only [toExit, hworker, Engine.beginSteps, List.length_rotate, taskBatch,
              commandBatch] at hn hlast ⊢
            omega
  | stepping =>
      rw [Engine.workerStep]
      split <;> rename_i hpc <;> rw [hworker] at hpc <;> cases hpc
      split
      case h_1 hahead => simp [toExit, hworker]
      case h_2 c rest hahead =>
          dsimp only
          split_ifs <;>
            simp only [toExit, hworker, hahead, List.length_cons, Engine.drop, Engine.setControl,
              commandBatch] <;> omega
  | commands c n =>
      have hn := hs.commands c n hworker
      rw [Engine.workerStep]
      split <;> rename_i hpc <;> rw [hworker] at hpc <;> cases hpc
      split
      case h_1 hcommands =>
          simp only [toExit, hworker, commandBatch] at hn ⊢
          omega
      case h_2 waiting rest hcommands =>
          have hahead : ((s.setControl c { s.controls c with
              commands := rest, commandMore := decide (n = commandBatch - 1) }).answer waiting
                x.succeeded).ahead = s.ahead := by
            cases waiting <;> rfl
          dsimp only
          split_ifs <;> simp only [toExit, hworker, hahead] <;> simp only [commandBatch] at * <;>
            omega
  | finishing c =>
      rw [Engine.workerStep]
      split <;> rename_i hpc <;> rw [hworker] at hpc <;> cases hpc
      split_ifs <;> simp only [toExit, hworker, Engine.drop] <;> omega
  | checking =>
      rw [Engine.workerStep, hworker]
      simp [toExit, hworker, hstop, Engine.exit]
  | deciding =>
      rw [Engine.workerStep, hworker]
      simp [toExit, hworker]
  | polling sleeps =>
      rw [Engine.workerStep, hworker]
      dsimp only
      split_ifs
      · simp [toExit, hworker, Engine.exit]
      · simp [toExit, hworker]
  | exited => exact absurd hworker hrunning

theorem toExit_le {s : Engine} (hs : Consistent s) :
    s.toExit ≤ (commandBatch + 4) * s.jobs.length + (commandBatch + 5) * taskBatch + 6 := by
  have hahead : s.ahead.length ≤ s.jobs.length :=
    (hs.ahead_nodup.subperm fun c hc => (hs.jobs c).mpr (hs.ahead c hc)).length_le
  unfold toExit
  dsimp only [commandBatch, taskBatch]
  split <;> omega

/-- The other threads leave the worker where it is, and never take back that the engine is
stopped. -/
theorem advance_frame (s : Engine) (i : CallId) :
    (s.advance i).worker = s.worker ∧ (s.advance i).jobs = s.jobs ∧
      (s.advance i).ahead = s.ahead ∧ (s.stop = true → (s.advance i).stop = true) := by
  unfold Engine.advance
  split
  case h_1 => exact ⟨rfl, rfl, rfl, id⟩
  case h_2 => exact ⟨rfl, rfl, rfl, id⟩
  case h_3 =>
      unfold Engine.proceed Engine.sendTask Engine.sendCommand
      dsimp only
      repeat' split
      all_goals first | exact ⟨rfl, rfl, rfl, id⟩ | exact ⟨rfl, rfl, rfl, fun _ => rfl⟩

theorem begin_frame (s : Engine) (i : CallId) (op : CallOp) :
    (s.begin i op).worker = s.worker ∧ (s.begin i op).jobs = s.jobs ∧
      (s.begin i op).ahead = s.ahead ∧ (s.stop = true → (s.begin i op).stop = true) := by
  unfold Engine.begin
  repeat' split
  all_goals exact ⟨rfl, rfl, rfl, id⟩

theorem timeout_frame (s : Engine) (i : CallId) :
    (s.timeout i).worker = s.worker ∧ (s.timeout i).jobs = s.jobs ∧
      (s.timeout i).ahead = s.ahead ∧ (s.stop = true → (s.timeout i).stop = true) := by
  unfold Engine.timeout
  split
  · exact ⟨rfl, rfl, rfl, id⟩
  · exact ⟨rfl, rfl, rfl, id⟩

theorem stop_workerStep (s : Engine) (x : WorkerChoice) : (s.workerStep x).stop = s.stop := by
  have hanswer : ∀ (t : Engine) waiting ok, (t.answer waiting ok).stop = t.stop := by
    intro t waiting ok
    cases waiting <;> rfl
  have hrun : ∀ (t : Engine) c created, (t.runTask c created).stop = t.stop := by
    intro t c created
    unfold Engine.runTask
    dsimp only
    split_ifs <;> rfl
  unfold Engine.workerStep
  split
  case h_2 n hw =>
      split
      · rfl
      · dsimp only
        split_ifs
        · exact hrun _ _ _
        · exact hrun _ _ _
  case h_4 c n hw =>
      split
      · rfl
      · exact hanswer _ _ _
  case h_3 hw =>
      split
      · rfl
      · dsimp only
        split_ifs <;> rfl
  all_goals repeat' split
  all_goals rfl

/-- Steps of the worker in a list of actions. -/
def workerSteps (actions : List EngineAction) : Nat :=
  actions.countP fun a => match a with
    | .worker _ => true
    | _ => false

theorem exited_step {s : Engine} (h : s.worker = .exited) (a : EngineAction) :
    (s.step a).1.worker = .exited := by
  cases a with
  | begin i op => exact (begin_frame s i op).1.trans h
  | advance i => exact (advance_frame s i).1.trans h
  | timeout i => exact (timeout_frame s i).1.trans h
  | worker x =>
      change (s.workerStep x).worker = .exited
      rw [Engine.workerStep, h]
      exact h

/-- Once the engine is stopped, the worker's own steps lead to its exit, whatever the others do. -/
theorem exited_of_workerSteps {s : Engine} (hs : Attended s) (hstop : s.stop = true)
    (actions : List EngineAction) (hsteps : s.toExit < workerSteps actions) :
    (Machine.run step s actions).worker = .exited := by
  induction actions generalizing s with
  | nil => exact absurd hsteps (Nat.not_lt_zero _)
  | cons a rest ih =>
      have hnext := hs.step a
      have hother : ∀ t : Engine, t.worker = s.worker → t.jobs = s.jobs → t.ahead = s.ahead →
          t.toExit = s.toExit := by
        intro t hworker hjobs hahead
        simp only [toExit, hworker, hjobs, hahead]
      cases a with
      | begin i op =>
          obtain ⟨hworker, hjobs, hahead, hstops⟩ := begin_frame s i op
          refine ih hnext (hstops hstop) ?_
          rw [Engine.step, hother _ hworker hjobs hahead]
          exact hsteps
      | advance i =>
          obtain ⟨hworker, hjobs, hahead, hstops⟩ := advance_frame s i
          refine ih hnext (hstops hstop) ?_
          rw [Engine.step, hother _ hworker hjobs hahead]
          exact hsteps
      | timeout i =>
          obtain ⟨hworker, hjobs, hahead, hstops⟩ := timeout_frame s i
          refine ih hnext (hstops hstop) ?_
          rw [Engine.step, hother _ hworker hjobs hahead]
          exact hsteps
      | worker x =>
          by_cases hexited : s.worker = .exited
          · exact Machine.run_invariant (P := fun t : Engine => t.worker = .exited)
              (fun _ a h => exited_step h a) (exited_step hexited _) rest
          · have hnearer := toExit_workerStep hs.consistent hstop x hexited
            refine ih hnext ((stop_workerStep s x).trans hstop) ?_
            have hcount : workerSteps (.worker x :: rest) = workerSteps rest + 1 := by
              simp [workerSteps]
            change (s.workerStep x).toExit < workerSteps rest
            omega

/-- A shutdown takes effect within so many steps of the worker, and leaves nothing behind: once
the engine is stopped and the worker has taken one pass and what was left of another, whatever
the other threads do meanwhile and afterwards, it has left its loop, no job runs or can be
started, and whoever waits for a reply or for the end of a job is released. -/
theorem shutdown_releases (before after : List EngineAction) :
    let s := Machine.run step new before
    let last := Machine.run step new (before ++ after)
    s.stop = true →
    (commandBatch + 4) * s.jobs.length + (commandBatch + 5) * taskBatch + 7 ≤ workerSteps after →
      last.worker = .exited ∧
      (∀ c, (last.controls c).stage ≠ .queued ∧ (last.controls c).stage ≠ .running) ∧
      (∀ i made, last.calls i = .receiving made → last.replies i ≠ none) ∧
      ∀ i c, last.calls i = .completing c → (last.controls c).stage = .gone := by
  intro s last hstop hsteps
  have hs : Attended s := attended_run before
  obtain ⟨hconsistent, hwaits, -⟩ : Attended last := attended_run (before ++ after)
  have hexited : last.worker = .exited := by
    have hbound := toExit_le hs.consistent
    have hrun := exited_of_workerSteps hs hstop after (by omega)
    rwa [← Machine.run_append] at hrun
  obtain ⟨htasks, hjobs⟩ := hconsistent.exited hexited
  have hstage : ∀ c, (last.controls c).stage ≠ .queued ∧ (last.controls c).stage ≠ .running := by
    intro c
    refine ⟨fun hc => ?_, fun hc => ?_⟩
    · rw [← hconsistent.tasks, htasks] at hc
      exact absurd hc List.not_mem_nil
    · rw [← hconsistent.jobs, hjobs] at hc
      exact absurd hc List.not_mem_nil
  refine ⟨hexited, hstage, fun i made hi hnone => ?_, fun i c hi => ?_⟩
  · obtain ⟨c, hc, -⟩ := hwaits.receiving i made hi hnone
    exact hc.elim (hstage c).1 (hstage c).2
  · obtain ⟨habsent, hheld⟩ := hwaits.handles i c (Or.inl hi)
    cases hc : (last.controls c).stage with
    | absent => exact absurd hc habsent
    | held => exact absurd hc hheld
    | queued => exact absurd hc (hstage c).1
    | running => exact absurd hc (hstage c).2
    | gone => rfl

/-- A follower's shutdown waits when the engine is stopped. -/
def stoppedFollower : List EngineAction :=
  [.begin 0 (.spawn 5 false), .advance 0, .advance 0, .advance 0, .advance 0, .advance 0,
    .worker easyChoice, .worker easyChoice, .worker easyChoice, .begin 2 .shutdown, .advance 2,
    .begin 1 (.stop 5 true), .advance 1]

theorem shutdown_releases_of_stopped :
    (Machine.run step new stoppedFollower).calls 1 = .completing 5 ∧
      let last := Machine.run step new
        (stoppedFollower ++ List.replicate 2411 (.worker easyChoice))
      last.worker = .exited ∧
        ∀ i c, last.calls i = .completing c → (last.controls c).stage = .gone := by
  have h := shutdown_releases stoppedFollower (List.replicate 2411 (.worker easyChoice))
    (by decide +kernel) (by rw [workerSteps, List.countP_replicate]; decide +kernel)
  exact ⟨by decide +kernel, h.1, h.2.2.2⟩

end Engine

end Tidkod
