import Mathlib.Tactic
import Tidkod.Lib.Doorbell
import Tidkod.Lib.Machine

/-!
The threads of an engine (`worker.rs`, and `Engine`, `Control` and `Completion` in `api.rs`).
Any number of callers share channels and flags with one worker. An action of the model is one
access of one thread to what they share, so that a run is an interleaving; the orderings of the
atomics are taken as sequentially consistent. What a job does besides its commands, and why a
sleeping worker wakes, are inputs.
-/

namespace Tidkod

abbrev ControlId := Nat
abbrev CallId := Nat

/-- `COMMAND_CAPACITY`, of the tasks of an engine and of the commands of a control. -/
def commandCapacity : Nat := 64

/-- Tasks a pass of the worker takes at most. -/
def taskBatch : Nat := 64

/-- Commands a step of a job takes at most. -/
def commandBatch : Nat := 32

/-- Where the receiver and the `Completion` of a control are. -/
inductive Stage where
  | absent
  /-- With the call that makes the control. -/
  | held
  /-- In a task the worker has not taken. -/
  | queued
  /-- In a job. -/
  | running
  /-- Dropped: sending fails, and whoever waits for completion is released. -/
  | gone
  deriving DecidableEq, Repr

/-- `Control` with the state of its job that other threads wait on. A command carries the call
that waits for its reply. `receiveMore` stays set when receiving has failed. -/
structure Control where
  stage : Stage
  leads : Bool
  maker : CallId
  commands : List (Option CallId)
  stop : Bool
  commandMore : Bool
  receiveMore : Bool
  deriving DecidableEq, Repr

inductive Reply where
  | sent (ok : Bool)
  | dropped
  deriving DecidableEq, Repr

/-- What a call does next. -/
inductive Call where
  | returned (ok : Bool)
  | registering (c : ControlId)
  | checking (c : ControlId)
  | sending (c : ControlId)
  /-- The control is dropped again. -/
  | giveUp (c : ControlId)
  | commanding (c : ControlId) (awaits : Bool)
  | receiving (made : Option ControlId)
  | stopping (c : ControlId) (waits : Bool)
  | completing (c : ControlId)
  | closing
  /-- In `Engine::shutdown`, the stop flags still to set under the lock. -/
  | storing (stops : List ControlId)
  | joining
  deriving DecidableEq, Repr

/-- What the worker does next. -/
inductive WorkerPc where
  | start
  | taking (n : Nat)
  | stepping
  | commands (c : ControlId) (n : Nat)
  | finishing (c : ControlId)
  | checking
  | deciding
  | polling (sleeps : Bool)
  | exited
  deriving DecidableEq, Repr

structure Engine where
  tasks : List ControlId
  stop : Bool
  /-- The stop flags registered, and whether their mutex is held by `shutdown`. -/
  stops : List ControlId
  locked : Bool
  bell : Doorbell CallId
  worker : WorkerPc
  taskMore : Bool
  jobs : List ControlId
  /-- The jobs this pass has yet to step. -/
  ahead : List ControlId
  controls : ControlId → Control
  calls : CallId → Call
  replies : CallId → Option Reply

/-- What the environment decides in a step of the worker. -/
structure WorkerChoice where
  /-- The job could be made. -/
  created : Bool
  /-- Its endpoint and drivers made progress without an error. One is of receiving: mio takes
  every change of interest. -/
  io : Bool
  /-- The command succeeded. -/
  succeeded : Bool
  /-- The rest of its step succeeded. -/
  alive : Bool
  /-- A job wants another pass for what its network has left. -/
  ready : Bool
  pollFails : Bool
  deriving DecidableEq, Repr

inductive CallOp where
  | spawn (c : ControlId) (leads : Bool)
  | command (c : ControlId) (awaits : Bool)
  | stop (c : ControlId) (waits : Bool)
  | shutdown
  deriving DecidableEq, Repr

inductive EngineAction where
  | begin (i : CallId) (op : CallOp)
  | advance (i : CallId)
  | timeout (i : CallId)
  | worker (x : WorkerChoice)
  deriving DecidableEq, Repr

/-- The control a call is making. -/
def Call.making : Call → Option ControlId
  | .registering c | .checking c | .sending c => some c
  | _ => none

namespace Engine

def new : Engine where
  tasks := []
  stop := false
  stops := []
  locked := false
  bell := .new
  worker := .start
  taskMore := false
  jobs := []
  ahead := []
  controls := fun _ => ⟨.absent, false, 0, [], false, false, false⟩
  calls := fun _ => .returned true
  replies := fun _ => none

def setCall (s : Engine) (i : CallId) (k : Call) : Engine :=
  { s with calls := Function.update s.calls i k }

def setControl (s : Engine) (c : ControlId) (k : Control) : Engine :=
  { s with controls := Function.update s.controls c k }

def setStop (s : Engine) (c : ControlId) : Engine :=
  s.setControl c { s.controls c with stop := true }

/-- Something the worker must see is in place: the call goes on once it has notified. -/
def publish (s : Engine) (i : CallId) (k : Call) : Engine :=
  { s with calls := Function.update s.calls i k, bell := s.bell.announce i }

def setReply (s : Engine) (i : CallId) (r : Option Reply) : Engine :=
  { s with replies := Function.update s.replies i r }

def answer (s : Engine) (waiting : Option CallId) (ok : Bool) : Engine :=
  match waiting with
  | none => s
  | some i => s.setReply i (some (.sent ok))

/-- The calls that wait for a reply from the task or the job of a control. -/
def owed (s : Engine) (c : ControlId) : List CallId :=
  let k := s.controls c
  k.commands.filterMap id ++ if k.stage = .queued ∧ k.leads = true then [k.maker] else []

/-- The task or the job of a control is dropped, and with it the commands it has left. -/
def drop (s : Engine) (c : ControlId) : Engine :=
  { s with
    jobs := s.jobs.filter (· ≠ c)
    controls := Function.update s.controls c
      { s.controls c with stage := .gone, commands := [] }
    replies := fun i => if i ∈ s.owed c then some .dropped else s.replies i }

/-- The worker returns: its jobs and the tasks it has not taken are dropped. -/
def exit (s : Engine) : Engine :=
  { s with
    worker := .exited
    tasks := []
    jobs := []
    ahead := []
    controls := fun c =>
      if c ∈ s.tasks ++ s.jobs then { s.controls c with stage := .gone, commands := [] }
      else s.controls c
    replies := fun i =>
      if ∃ c ∈ s.tasks ++ s.jobs, i ∈ s.owed c then some .dropped else s.replies i }

/-- The tasks of the pass are taken: the jobs are rotated and stepped. -/
def beginSteps (s : Engine) : Engine :=
  { s with worker := .stepping, jobs := s.jobs.rotate 1, ahead := s.jobs.rotate 1 }

/-- A task is run: a leader's says whether it could start. -/
def runTask (s : Engine) (c : ControlId) (created : Bool) : Engine :=
  let k := s.controls c
  let told := if k.leads then s.setReply k.maker (some (.sent created)) else s
  if created then
    { told.setControl c { k with stage := .running } with jobs := s.jobs ++ [c] }
  else
    -- its own sender of the reply is used up
    (told.setControl c { k with stage := .held }).drop c

def workerStep (s : Engine) (x : WorkerChoice) : Engine :=
  match s.worker with
  | .start => { s with bell := s.bell.lower, taskMore := false, worker := .taking 0 }
  | .taking n =>
      match s.tasks with
      | [] => s.beginSteps
      | c :: rest =>
          let taken :=
            { s with tasks := rest, taskMore := decide (n = taskBatch - 1) }.runTask c x.created
          if n + 1 < taskBatch then { taken with worker := .taking (n + 1) } else taken.beginSteps
  | .stepping =>
      match s.ahead with
      | [] => { s with worker := .checking }
      | c :: rest =>
          let k := s.controls c
          let next := { s with ahead := rest }
          if k.stop then next.drop c
          else if x.io then
            { next.setControl c { k with commandMore := false, receiveMore := false } with
              worker := .commands c 0 }
          else if k.leads then next.drop c
          else next.setControl c { k with receiveMore := true }
  | .commands c n =>
      match (s.controls c).commands with
      | [] => { s with worker := .finishing c }
      | waiting :: rest =>
          let k := { s.controls c with
            commands := rest, commandMore := decide (n = commandBatch - 1) }
          { (s.setControl c k).answer waiting x.succeeded with
            worker := if n + 1 < commandBatch then .commands c (n + 1) else .finishing c }
  | .finishing c =>
      if (s.controls c).leads && !x.alive then { s.drop c with worker := .stepping }
      else { s with worker := .stepping }
  | .checking => if s.stop then s.exit else { s with worker := .deciding }
  | .deciding =>
      let immediate := s.taskMore || s.bell.flag || x.ready ||
        s.jobs.any fun c => (s.controls c).commandMore || (s.controls c).receiveMore
      { s with worker := .polling (!immediate) }
  | .polling _ =>
      if x.pollFails then s.exit else { s with bell := s.bell.wake, worker := .start }
  | .exited => s

/-- A task that could not be sent is dropped with the receiver in it. -/
def refuse (s : Engine) (i : CallId) (c : ControlId) : Engine :=
  (s.setControl c { s.controls c with stage := .gone }).setCall i (.giveUp c)

/-- `Sender::try_send` of a task, before it notifies. -/
def sendTask (s : Engine) (i : CallId) (c : ControlId) : Engine :=
  if s.worker = .exited ∨ commandCapacity ≤ s.tasks.length then s.refuse i c
  else
    let k := s.controls c
    let sent := { s with tasks := s.tasks ++ [c] }.setControl c { k with stage := .queued }
    if k.leads then (sent.setReply i none).publish i (.receiving (some c))
    else sent.publish i (.returned true)

/-- `Sender::try_send` of a command, before it notifies. -/
def sendCommand (s : Engine) (i : CallId) (c : ControlId) (awaits : Bool) : Engine :=
  let k := s.controls c
  if (k.stage = .queued ∨ k.stage = .running) ∧ k.commands.length < commandCapacity then
    if awaits then
      ((s.setControl c { k with commands := k.commands ++ [some i] }).setReply i none).publish i
        (.receiving none)
    else
      (s.setControl c { k with commands := k.commands ++ [none] }).publish i (.returned true)
  else s.setCall i (.returned false)

def proceed (s : Engine) (i : CallId) : Engine :=
  match s.calls i with
  | .returned _ => s
  | .registering c =>
      if s.locked then s
      else if s.stop then s.refuse i c
      else { s with stops := s.stops ++ [c] }.setCall i (.checking c)
  | .checking c => if s.stop then s.refuse i c else s.setCall i (.sending c)
  | .sending c => s.sendTask i c
  | .giveUp c => (s.setStop c).publish i (.returned false)
  | .commanding c awaits => s.sendCommand i c awaits
  | .receiving made =>
      match s.replies i, made with
      | none, _ => s
      | some (.sent true), _ => s.setCall i (.returned true)
      | some _, some c => s.setCall i (.giveUp c)
      | some _, none => s.setCall i (.returned false)
  | .stopping c waits =>
      (s.setStop c).publish i (if waits then .completing c else .returned true)
  | .completing c =>
      if (s.controls c).stage = .gone then s.setCall i (.returned true) else s
  | .closing =>
      if s.locked then s
      else { s with locked := true, stop := true }.publish i (.storing s.stops)
  | .storing [] => { s with locked := false }.setCall i .joining
  | .storing (c :: rest) => (s.setStop c).setCall i (.storing rest)
  | .joining => if s.worker = .exited then s.setCall i (.returned true) else s

/-- The next access of a call: it first finishes `Signal::notify`. -/
def advance (s : Engine) (i : CallId) : Engine :=
  match s.bell.phase i with
  | .announced => { s with bell := s.bell.raise i }
  | .raised => { s with bell := s.bell.ring i }
  | .quiet => s.proceed i

/-- A control is made by the call that spawns its job, and is there for others once the worker
has been sent the task. -/
def begin (s : Engine) (i : CallId) (op : CallOp) : Engine :=
  match s.calls i, s.bell.phase i with
  | .returned _, .quiet =>
      match op with
      | .spawn c leads =>
          if (s.controls c).stage = .absent then
            (s.setControl c ⟨.held, leads, i, [], false, false, false⟩).setCall i (.registering c)
          else s
      | .command c awaits =>
          if (s.controls c).stage = .absent ∨ (s.controls c).stage = .held then s
          else s.setCall i (.commanding c awaits)
      | .stop c waits =>
          if (s.controls c).stage = .absent ∨ (s.controls c).stage = .held then s
          else s.setCall i (.stopping c waits)
      | .shutdown => s.setCall i .closing
  | _, _ => s

/-- `Control::shutdown` waits five seconds at most. -/
def timeout (s : Engine) (i : CallId) : Engine :=
  match s.calls i, s.bell.phase i with
  | .completing _, .quiet => s.setCall i (.returned false)
  | _, _ => s

def step (s : Engine) : EngineAction → Engine × Unit
  | .begin i op => (s.begin i op, ())
  | .advance i => (s.advance i, ())
  | .timeout i => (s.timeout i, ())
  | .worker x => (s.workerStep x, ())

/-- Which lists the stages of the controls are told by. -/
structure Consistent (s : Engine) : Prop where
  tasks : ∀ c, c ∈ s.tasks ↔ (s.controls c).stage = .queued
  jobs : ∀ c, c ∈ s.jobs ↔ (s.controls c).stage = .running
  tasks_nodup : s.tasks.Nodup
  jobs_nodup : s.jobs.Nodup
  ahead : ∀ c ∈ s.ahead, (s.controls c).stage = .running
  ahead_nodup : s.ahead.Nodup
  taking : ∀ n, s.worker = .taking n → n < taskBatch
  commands : ∀ c n, s.worker = .commands c n → n < commandBatch
  current : ∀ c, (∃ n, s.worker = .commands c n) ∨ s.worker = .finishing c →
    (s.controls c).stage = .running ∧ c ∉ s.ahead
  making : ∀ i c, (s.calls i).making = some c →
    (s.controls c).stage = .held ∧ (s.controls c).maker = i
  exited : s.worker = .exited → s.tasks = [] ∧ s.jobs = []

theorem consistent_new : Consistent new where
  tasks := fun c => by simp [new]
  jobs := fun c => by simp [new]
  tasks_nodup := List.nodup_nil
  jobs_nodup := List.nodup_nil
  ahead := fun c hc => absurd hc List.not_mem_nil
  ahead_nodup := List.nodup_nil
  taking := by rintro _ ⟨⟩
  commands := by rintro _ _ ⟨⟩
  current := by rintro _ (⟨_, hc⟩ | hc) <;> cases hc
  making := by rintro _ _ ⟨⟩
  exited := by rintro ⟨⟩

theorem Consistent.congr {s t : Engine} (h : Consistent s) (htasks : t.tasks = s.tasks)
    (hjobs : t.jobs = s.jobs) (hahead : t.ahead = s.ahead) (hworker : t.worker = s.worker)
    (hstage : ∀ c, (t.controls c).stage = (s.controls c).stage)
    (hmaking : ∀ i c, (t.calls i).making = some c →
      (t.controls c).stage = .held ∧ (t.controls c).maker = i) : Consistent t where
  tasks := fun c => by rw [htasks, hstage]; exact h.tasks c
  jobs := fun c => by rw [hjobs, hstage]; exact h.jobs c
  tasks_nodup := htasks ▸ h.tasks_nodup
  jobs_nodup := hjobs ▸ h.jobs_nodup
  ahead := fun c hc => by rw [hstage]; exact h.ahead c (hahead ▸ hc)
  ahead_nodup := hahead ▸ h.ahead_nodup
  taking := fun n hn => h.taking n (hworker ▸ hn)
  commands := fun c n hn => h.commands c n (hworker ▸ hn)
  current := fun c hc => by
    rw [hworker] at hc
    rw [hstage, hahead]
    exact h.current c hc
  making := hmaking
  exited := fun hexited => by
    rw [htasks, hjobs]
    exact h.exited (hworker ▸ hexited)

/-- A call goes on to what makes no control, or what makes the one it made before. -/
theorem Consistent.making_update {s : Engine} (h : Consistent s) {i : CallId} {k : Call}
    (hk : ∀ c, k.making = some c → (s.calls i).making = some c) (j : CallId) (c : ControlId)
    (hj : (Function.update s.calls i k j).making = some c) :
    (s.controls c).stage = .held ∧ (s.controls c).maker = j := by
  obtain rfl | hne := eq_or_ne j i
  · rw [Function.update_self] at hj
    exact h.making j c (hk c hj)
  · rw [Function.update_of_ne hne] at hj
    exact h.making j c hj

theorem Consistent.setCall {s : Engine} (h : Consistent s) {i : CallId} {k : Call}
    (hk : ∀ c, k.making = some c → (s.calls i).making = some c) : Consistent (s.setCall i k) :=
  h.congr rfl rfl rfl rfl (fun _ => rfl) (h.making_update hk)

theorem Consistent.publish {s : Engine} (h : Consistent s) {i : CallId} {k : Call}
    (hk : ∀ c, k.making = some c → (s.calls i).making = some c) : Consistent (s.publish i k) :=
  h.congr rfl rfl rfl rfl (fun _ => rfl) (h.making_update hk)

theorem Consistent.setReply {s : Engine} (h : Consistent s) (i : CallId) (r : Option Reply) :
    Consistent (s.setReply i r) :=
  h.congr rfl rfl rfl rfl (fun _ => rfl) h.making

theorem Consistent.answer {s : Engine} (h : Consistent s) (waiting : Option CallId) (ok : Bool) :
    Consistent (s.answer waiting ok) := by
  cases waiting with
  | none => exact h
  | some i => exact h.setReply i _

theorem Consistent.setControl {s : Engine} (h : Consistent s) {c : ControlId} {k : Control}
    (hstage : k.stage = (s.controls c).stage) (hmaker : k.maker = (s.controls c).maker) :
    Consistent (s.setControl c k) := by
  have hsame : ∀ x, ((s.setControl c k).controls x).stage = (s.controls x).stage ∧
      ((s.setControl c k).controls x).maker = (s.controls x).maker := by
    intro x
    simp only [Engine.setControl, Function.update_apply]
    split_ifs with hx
    · rw [hx]
      exact ⟨hstage, hmaker⟩
    · exact ⟨rfl, rfl⟩
  refine h.congr rfl rfl rfl rfl (fun x => (hsame x).1) fun i x hx => ?_
  rw [(hsame x).1, (hsame x).2]
  exact h.making i x hx

theorem Consistent.setStop {s : Engine} (h : Consistent s) (c : ControlId) :
    Consistent (s.setStop c) :=
  h.setControl rfl rfl

/-- A control that its call still holds is in none of the lists. -/
theorem Consistent.not_listed {s : Engine} (h : Consistent s) {c : ControlId}
    (hc : (s.controls c).stage ≠ .queued ∧ (s.controls c).stage ≠ .running) :
    c ∉ s.tasks ∧ c ∉ s.jobs ∧ c ∉ s.ahead :=
  ⟨fun hmem => hc.1 ((h.tasks c).mp hmem), fun hmem => hc.2 ((h.jobs c).mp hmem),
    fun hmem => hc.2 (h.ahead c hmem)⟩

/-- A control that is in none of the lists moves to another stage outside of them. -/
theorem Consistent.restage {s : Engine} (h : Consistent s) {c : ControlId} {k : Control}
    (hc : (s.controls c).stage ≠ .queued ∧ (s.controls c).stage ≠ .running)
    (hk : k.stage ≠ .queued ∧ k.stage ≠ .running)
    {calls : CallId → Call}
    (hmaking : ∀ j x, (calls j).making = some x →
      (Function.update s.controls c k x).stage = .held ∧
        (Function.update s.controls c k x).maker = j) :
    Consistent { s with controls := Function.update s.controls c k, calls := calls } := by
  obtain ⟨htasks, hjobs, hahead⟩ := h.not_listed hc
  have hother : ∀ x, x ≠ c → Function.update s.controls c k x = s.controls x :=
    fun x hx => Function.update_of_ne hx _ _
  refine { h with tasks := fun x => ?_, jobs := fun x => ?_, ahead := fun x hx => ?_,
                  current := fun x hx => ?_, making := hmaking }
  · obtain rfl | hx := eq_or_ne x c
    · simp only [Function.update_self]
      exact iff_of_false htasks hk.1
    · simp only [hother x hx]
      exact h.tasks x
  · obtain rfl | hx := eq_or_ne x c
    · simp only [Function.update_self]
      exact iff_of_false hjobs hk.2
    · simp only [hother x hx]
      exact h.jobs x
  · have hne : x ≠ c := fun heq => hahead (heq ▸ hx)
    simp only [hother x hne]
    exact h.ahead x hx
  · obtain ⟨hrunning, hpassed⟩ := h.current x hx
    have hne : x ≠ c := fun heq => hc.2 (heq ▸ hrunning)
    simp only [hother x hne]
    exact ⟨hrunning, hpassed⟩

theorem Consistent.refuse {s : Engine} (h : Consistent s) {i : CallId} {c : ControlId}
    (hi : (s.calls i).making = some c) : Consistent (s.refuse i c) := by
  obtain ⟨hheld, hmaker⟩ := h.making i c hi
  refine h.restage (k := { s.controls c with stage := .gone }) (by simp [hheld]) (by simp)
    fun j x hj => ?_
  have hji : j ≠ i := fun heq => by
    change (Function.update s.calls i (.giveUp c) j).making = some x at hj
    rw [heq, Function.update_self] at hj
    cases hj
  change (Function.update s.calls i (.giveUp c) j).making = some x at hj
  rw [Function.update_of_ne hji] at hj
  obtain ⟨hx, hxj⟩ := h.making j x hj
  have hne : x ≠ c := fun heq => hji (by rw [← hxj, heq, hmaker])
  rw [Function.update_of_ne hne]
  exact ⟨hx, hxj⟩

theorem Consistent.sent {s : Engine} (h : Consistent s) {i : CallId} {c : ControlId}
    (hi : (s.calls i).making = some c) (hrunning : s.worker ≠ .exited) {k : Call}
    (hk : k.making = none) :
    Consistent { s with
      tasks := s.tasks ++ [c]
      controls := Function.update s.controls c { s.controls c with stage := .queued }
      calls := Function.update s.calls i k } := by
  obtain ⟨hheld, hmaker⟩ := h.making i c hi
  obtain ⟨htasks, hjobs, hahead⟩ := h.not_listed (c := c) (by simp [hheld])
  have hother : ∀ x, x ≠ c →
      Function.update s.controls c { s.controls c with stage := .queued } x = s.controls x :=
    fun x hx => Function.update_of_ne hx _ _
  refine { h with
    tasks := fun x => ?_, jobs := fun x => ?_, tasks_nodup := ?_, ahead := fun x hx => ?_,
    current := fun x hx => ?_, making := fun j x hj => ?_,
    exited := fun hexited => absurd hexited hrunning }
  · obtain rfl | hx := eq_or_ne x c
    · simp
    · simp only [hother x hx, List.mem_append, List.mem_singleton, hx, or_false]
      exact h.tasks x
  · obtain rfl | hx := eq_or_ne x c
    · simp [hjobs]
    · simp only [hother x hx]
      exact h.jobs x
  · exact List.nodup_append.mpr ⟨h.tasks_nodup, List.nodup_singleton c, by
      rintro x hx y hy rfl
      exact htasks (List.mem_singleton.mp hy ▸ hx)⟩
  · have hne : x ≠ c := fun heq => hahead (heq ▸ hx)
    simp only [hother x hne]
    exact h.ahead x hx
  · obtain ⟨hruns, hpassed⟩ := h.current x hx
    have hne : x ≠ c := fun heq => by
      rw [heq, hheld] at hruns
      cases hruns
    simp only [hother x hne]
    exact ⟨hruns, hpassed⟩
  · have hji : j ≠ i := fun heq => by
      simp only [heq, Function.update_self, hk] at hj
      cases hj
    simp only [Function.update_of_ne hji] at hj
    obtain ⟨hx, hxj⟩ := h.making j x hj
    have hne : x ≠ c := fun heq => hji (by rw [← hxj, heq, hmaker])
    simp only [hother x hne]
    exact ⟨hx, hxj⟩


theorem Consistent.sendTask {s : Engine} (h : Consistent s) {i : CallId} {c : ControlId}
    (hi : (s.calls i).making = some c) : Consistent (s.sendTask i c) := by
  unfold Engine.sendTask
  dsimp only
  split_ifs with hfull
  · exact h.refuse hi
  · have hsent := h.sent hi (fun hexited => hfull (Or.inl hexited))
      (show (Call.receiving (some c)).making = none from rfl)
    exact hsent.congr rfl rfl rfl rfl (fun _ => rfl) hsent.making
  · have hsent := h.sent hi (fun hexited => hfull (Or.inl hexited))
      (show (Call.returned true).making = none from rfl)
    exact hsent.congr rfl rfl rfl rfl (fun _ => rfl) hsent.making

theorem Consistent.sendCommand {s : Engine} (h : Consistent s) (i : CallId) (c : ControlId)
    (awaits : Bool) : Consistent (s.sendCommand i c awaits) := by
  unfold Engine.sendCommand
  dsimp only
  split_ifs
  · refine Consistent.publish (Consistent.setReply ?_ i none) (by rintro _ ⟨⟩)
    exact h.setControl rfl rfl
  · refine Consistent.publish ?_ (by rintro _ ⟨⟩)
    exact h.setControl rfl rfl
  · exact h.setCall (by rintro _ ⟨⟩)

theorem Consistent.proceed {s : Engine} (h : Consistent s) (i : CallId) :
    Consistent (s.proceed i) := by
  unfold Engine.proceed
  split
  case h_1 => exact h
  case h_2 c hi =>
      split_ifs
      · exact h
      · exact h.refuse (by rw [hi]; rfl)
      · have hregistered : Consistent { s with stops := s.stops ++ [c] } :=
          h.congr rfl rfl rfl rfl (fun _ => rfl) h.making
        exact hregistered.setCall (by simp [hi, Call.making])
  case h_3 c hi =>
      split_ifs
      · exact h.refuse (by rw [hi]; rfl)
      · exact h.setCall (by simp [hi, Call.making])
  case h_4 c hi => exact h.sendTask (by rw [hi]; rfl)
  case h_5 c hi => exact (h.setStop c).publish (by rintro _ ⟨⟩)
  case h_6 c awaits hi => exact h.sendCommand i c awaits
  case h_7 made hi =>
      split
      · exact h
      · exact h.setCall (by rintro _ ⟨⟩)
      · exact h.setCall (by rintro _ ⟨⟩)
      · exact h.setCall (by rintro _ ⟨⟩)
  case h_8 c waits hi =>
      refine (h.setStop c).publish ?_
      cases waits <;> rintro _ ⟨⟩
  case h_9 c hi =>
      split_ifs
      · exact h.setCall (by rintro _ ⟨⟩)
      · exact h
  case h_10 hi =>
      split_ifs
      · exact h
      · have hlocked : Consistent { s with locked := true, stop := true } :=
          h.congr rfl rfl rfl rfl (fun _ => rfl) h.making
        exact hlocked.publish (by rintro _ ⟨⟩)
  case h_11 hi =>
      have hunlocked : Consistent { s with locked := false } :=
        h.congr rfl rfl rfl rfl (fun _ => rfl) h.making
      exact hunlocked.setCall (by rintro _ ⟨⟩)
  case h_12 c rest hi => exact (h.setStop c).setCall (by rintro _ ⟨⟩)
  case h_13 hi =>
      split_ifs
      · exact h.setCall (by rintro _ ⟨⟩)
      · exact h

theorem Consistent.advance {s : Engine} (h : Consistent s) (i : CallId) :
    Consistent (s.advance i) := by
  unfold Engine.advance
  split
  · exact h.congr rfl rfl rfl rfl (fun _ => rfl) h.making
  · exact h.congr rfl rfl rfl rfl (fun _ => rfl) h.making
  · exact h.proceed i

theorem Consistent.begin {s : Engine} (h : Consistent s) (i : CallId) (op : CallOp) :
    Consistent (s.begin i op) := by
  unfold Engine.begin
  split
  case h_2 => exact h
  case h_1 ok hi hquiet =>
      cases op with
      | spawn c leads =>
          dsimp only
          split_ifs with habsent
          · refine h.restage (by simp [habsent]) (by simp) fun j x hj => ?_
            obtain rfl | hji := eq_or_ne j i
            · simp only [Function.update_self, Call.making, Option.some.injEq] at hj
              subst hj
              simp
            · change (Function.update s.calls i (.registering c) j).making = some x at hj
              rw [Function.update_of_ne hji] at hj
              have hx := h.making j x hj
              have hne : x ≠ c := fun heq => by
                rw [heq, habsent] at hx
                cases hx.1
              rw [Function.update_of_ne hne]
              exact hx
          · exact h
      | command c awaits =>
          dsimp only
          split_ifs
          · exact h
          · exact h.setCall (by rintro _ ⟨⟩)
      | stop c waits =>
          dsimp only
          split_ifs
          · exact h
          · exact h.setCall (by rintro _ ⟨⟩)
      | shutdown => exact h.setCall (by rintro _ ⟨⟩)

theorem Consistent.timeout {s : Engine} (h : Consistent s) (i : CallId) :
    Consistent (s.timeout i) := by
  unfold Engine.timeout
  split
  · exact h.setCall (by rintro _ ⟨⟩)
  · exact h


/-- The task or the job of a control goes, out of the lists it was in. -/
theorem Consistent.drop {s : Engine} (h : Consistent s) {c : ControlId}
    (hc : (s.controls c).stage ≠ .absent ∧ (s.controls c).stage ≠ .held) (htasks : c ∉ s.tasks)
    (hahead : c ∉ s.ahead)
    (hcurrent : ¬ ((∃ n, s.worker = .commands c n) ∨ s.worker = .finishing c)) :
    Consistent (s.drop c) := by
  have hother : ∀ x, x ≠ c → (s.drop c).controls x = s.controls x :=
    fun x hx => Function.update_of_ne hx _ _
  have hself : ((s.drop c).controls c).stage = .gone := by simp [Engine.drop]
  refine { h with
    tasks := fun x => ?_, jobs := fun x => ?_, jobs_nodup := h.jobs_nodup.filter _,
    ahead := fun x hx => ?_, current := fun x hx => ?_, making := fun j x hj => ?_,
    exited := fun hexited => ?_ }
  · obtain rfl | hx := eq_or_ne x c
    · rw [hself]
      exact iff_of_false htasks (by simp)
    · rw [hother x hx]
      exact h.tasks x
  · obtain rfl | hx := eq_or_ne x c
    · rw [hself]
      simp [Engine.drop]
    · rw [hother x hx, ← h.jobs x]
      simp [Engine.drop, hx]
  · have hne : x ≠ c := fun heq => hahead (heq ▸ hx)
    rw [hother x hne]
    exact h.ahead x hx
  · have hne : x ≠ c := fun heq => hcurrent (heq ▸ hx)
    rw [hother x hne]
    exact h.current x hx
  · have hx := h.making j x hj
    have hne : x ≠ c := fun heq => hc.2 (heq ▸ hx.1)
    rw [hother x hne]
    exact hx
  · obtain ⟨ht, hj⟩ := h.exited hexited
    exact ⟨ht, by simp [Engine.drop, hj]⟩

theorem Consistent.exit {s : Engine} (h : Consistent s) : Consistent s.exit := by
  have hstage : ∀ c,
      (s.exit.controls c).stage ≠ .queued ∧ (s.exit.controls c).stage ≠ .running := by
    intro c
    simp only [Engine.exit]
    split_ifs with hc
    · simp
    · rw [List.mem_append, h.tasks, h.jobs, not_or] at hc
      exact hc
  refine ⟨fun c => iff_of_false List.not_mem_nil (hstage c).1,
    fun c => iff_of_false List.not_mem_nil (hstage c).2, List.nodup_nil, List.nodup_nil,
    fun c hc => absurd hc List.not_mem_nil, List.nodup_nil, (by rintro _ ⟨⟩), (by rintro _ _ ⟨⟩),
    (by rintro _ (⟨_, hc⟩ | hc) <;> cases hc), fun j c hj => ?_, fun _ => ⟨rfl, rfl⟩⟩
  have hc := h.making j c hj
  have hlisted : c ∉ s.tasks ++ s.jobs := by
    rw [List.mem_append, h.tasks, h.jobs, hc.1]
    simp
  simp only [Engine.exit, if_neg hlisted]
  exact hc

theorem Consistent.beginSteps {s : Engine} (h : Consistent s) : Consistent s.beginSteps where
  tasks := h.tasks
  jobs := fun c => List.mem_rotate.trans (h.jobs c)
  tasks_nodup := h.tasks_nodup
  jobs_nodup := List.nodup_rotate.mpr h.jobs_nodup
  ahead := fun c hc => (h.jobs c).mp (List.mem_rotate.mp hc)
  ahead_nodup := List.nodup_rotate.mpr h.jobs_nodup
  taking := by rintro _ ⟨⟩
  commands := by rintro _ _ ⟨⟩
  current := by rintro _ (⟨_, hc⟩ | hc) <;> cases hc
  making := h.making
  exited := by rintro ⟨⟩


/-- The first task of the queue is out of it, in a job or dropped. -/
theorem Consistent.taken {s t : Engine} (h : Consistent s) {c : ControlId}
    {rest : List ControlId} (htasks : s.tasks = c :: rest) {n : Nat}
    (hworker : s.worker = .taking n) (htaken : t.tasks = rest) (hahead : t.ahead = s.ahead)
    (hsame : t.worker = s.worker) (hcalls : t.calls = s.calls)
    (hother : ∀ x, x ≠ c → t.controls x = s.controls x)
    (hself : (t.controls c).stage ≠ .queued) (hnodup : t.jobs.Nodup)
    (hjobs : ∀ x, x ∈ t.jobs ↔ (x ≠ c ∧ x ∈ s.jobs) ∨ (x = c ∧ (t.controls c).stage = .running)) :
    Consistent t := by
  have hqueued : (s.controls c).stage = .queued := (h.tasks c).mp (by simp [htasks])
  obtain ⟨hrest, hrestnodup⟩ := List.nodup_cons.mp (htasks ▸ h.tasks_nodup)
  refine ⟨fun x => ?_, fun x => ?_, htaken ▸ hrestnodup, hnodup, fun x hx => ?_,
    hahead ▸ h.ahead_nodup, fun m hm => h.taking m (hsame ▸ hm), fun x m hm => ?_, fun x hx => ?_,
    fun j x hj => ?_, fun hexited => ?_⟩
  · rw [htaken]
    obtain rfl | hx := eq_or_ne x c
    · exact iff_of_false hrest hself
    · rw [hother x hx, ← h.tasks x, htasks]
      simp [hx]
  · rw [hjobs]
    obtain rfl | hx := eq_or_ne x c
    · simp
    · rw [hother x hx, ← h.jobs x]
      simp [hx]
  · rw [hahead] at hx
    have hrunning := h.ahead x hx
    have hne : x ≠ c := fun heq => by
      rw [heq, hqueued] at hrunning
      cases hrunning
    rw [hother x hne]
    exact hrunning
  · rw [hsame, hworker] at hm
    cases hm
  · rw [hsame, hworker] at hx
    obtain ⟨m, hx⟩ | hx := hx <;> cases hx
  · rw [hcalls] at hj
    have hx := h.making j x hj
    have hne : x ≠ c := fun heq => by
      rw [heq, hqueued] at hx
      cases hx.1
    rw [hother x hne]
    exact hx
  · rw [hsame, hworker] at hexited
    cases hexited

theorem Consistent.runTask {s : Engine} (h : Consistent s) {c : ControlId}
    {rest : List ControlId} (htasks : s.tasks = c :: rest) {n : Nat}
    (hworker : s.worker = .taking n) (more created : Bool) :
    Consistent ({ s with tasks := rest, taskMore := more }.runTask c created) := by
  have hqueued : (s.controls c).stage = .queued := (h.tasks c).mp (by simp [htasks])
  have hjobs : c ∉ s.jobs := fun hc => by
    rw [h.jobs, hqueued] at hc
    cases hc
  cases created with
  | true =>
      refine h.taken htasks hworker ?_ ?_ ?_ ?_ (fun x hx => ?_) ?_ ?_ fun x => ?_ <;>
        simp only [Engine.runTask, if_true, Engine.setControl]
      · split_ifs <;> rfl
      · split_ifs <;> rfl
      · split_ifs <;> rfl
      · split_ifs <;> rfl
      · rw [Function.update_of_ne hx]
        split_ifs <;> rfl
      · simp
      · exact List.nodup_append.mpr ⟨h.jobs_nodup, List.nodup_singleton c, by
          rintro x hx y hy rfl
          exact hjobs (List.mem_singleton.mp hy ▸ hx)⟩
      · obtain rfl | hx := eq_or_ne x c
        · simp
        · simp [hx]
  | false =>
      refine h.taken htasks hworker ?_ ?_ ?_ ?_ (fun x hx => ?_) ?_ ?_ fun x => ?_ <;>
        simp only [Engine.runTask, Bool.false_eq_true, if_false, Engine.setControl, Engine.drop]
      · split_ifs <;> rfl
      · split_ifs <;> rfl
      · split_ifs <;> rfl
      · split_ifs <;> rfl
      · rw [Function.update_of_ne hx, Function.update_of_ne hx]
        split_ifs <;> rfl
      · simp
      · refine List.Nodup.filter _ ?_
        split_ifs
        · exact h.jobs_nodup
        · exact h.jobs_nodup
      · obtain rfl | hx := eq_or_ne x c
        · simp
        · split_ifs <;> simp [hx, Engine.setReply]

/-- The worker goes on to where it looks at no task, job or command. -/
theorem Consistent.setWorker {s : Engine} (h : Consistent s) {w : WorkerPc}
    (htaking : ∀ n, w = .taking n → n < taskBatch)
    (hcommands : ∀ c n, w = .commands c n → n < commandBatch)
    (hcurrent : ∀ c, (∃ n, w = .commands c n) ∨ w = .finishing c →
      (s.controls c).stage = .running ∧ c ∉ s.ahead)
    (hexited : w ≠ .exited) : Consistent { s with worker := w } :=
  { h with
    taking := htaking, commands := hcommands, current := hcurrent,
    exited := fun h => absurd h hexited }

theorem Consistent.workerStep {s : Engine} (h : Consistent s) (x : WorkerChoice) :
    Consistent (s.workerStep x) := by
  unfold Engine.workerStep
  split
  case h_1 hw =>
      have hlowered : Consistent { s with bell := s.bell.lower, taskMore := false } :=
        h.congr rfl rfl rfl rfl (fun _ => rfl) h.making
      exact hlowered.setWorker (fun n hn => by cases hn; decide) (by rintro _ _ ⟨⟩)
        (by rintro _ (⟨_, hc⟩ | hc) <;> cases hc) (by simp)
  case h_2 n hw =>
      split
      · exact h.beginSteps
      · rename_i c rest htasks
        have htaken := h.runTask htasks hw (decide (n = taskBatch - 1)) x.created
        dsimp only
        split_ifs with hn
        · exact htaken.setWorker (fun m hm => by cases hm; exact hn) (by rintro _ _ ⟨⟩)
            (by rintro _ (⟨_, hc⟩ | hc) <;> cases hc) (by simp)
        · exact htaken.beginSteps
  case h_3 hw =>
      split
      · exact h.setWorker (by rintro _ ⟨⟩) (by rintro _ _ ⟨⟩)
          (by rintro _ (⟨_, hc⟩ | hc) <;> cases hc) (by simp)
      · rename_i c rest hahead
        obtain ⟨hrest, hrestnodup⟩ := List.nodup_cons.mp (hahead ▸ h.ahead_nodup)
        have hrunning : (s.controls c).stage = .running := h.ahead c (by simp [hahead])
        have hnext : Consistent { s with ahead := rest } :=
          { h with
            ahead := fun y hy => h.ahead y (by simp [hahead, hy])
            ahead_nodup := hrestnodup
            current := fun y hy => by
              rw [hw] at hy
              obtain ⟨n, hy⟩ | hy := hy <;> cases hy }
        have hdrop : Consistent ({ s with ahead := rest }.drop c) := by
          refine hnext.drop (by simp [hrunning]) (fun hc => ?_) hrest ?_
          · rw [h.tasks, hrunning] at hc
            cases hc
          · change ¬ ((∃ n, s.worker = .commands c n) ∨ s.worker = .finishing c)
            rw [hw]
            rintro (⟨n, hc⟩ | hc) <;> cases hc
        dsimp only
        split_ifs
        · exact hdrop
        · have hset : Consistent ({ s with ahead := rest }.setControl c
              { s.controls c with commandMore := false, receiveMore := false }) :=
            hnext.setControl rfl rfl
          refine hset.setWorker (by rintro _ ⟨⟩) (by rintro _ _ ⟨⟩; decide) (fun y hy => ?_)
            (by simp)
          obtain ⟨n, hy⟩ | hy := hy
          · cases hy
            simpa [Engine.setControl, hrunning] using hrest
          · cases hy
        · exact hdrop
        · exact hnext.setControl rfl rfl
  case h_4 c n hw =>
      have hc := h.current c (Or.inl ⟨n, hw⟩)
      split
      · exact h.setWorker (by rintro _ ⟨⟩) (by rintro _ _ ⟨⟩)
          (fun y hy => by obtain ⟨m, hy⟩ | hy := hy <;> cases hy; exact hc) (by simp)
      · rename_i waiting rest hcommands
        have hset : Consistent (s.setControl c { s.controls c with
            commands := rest, commandMore := decide (n = commandBatch - 1) }) :=
          h.setControl rfl rfl
        have hanswered := hset.answer waiting x.succeeded
        dsimp only
        refine hanswered.setWorker (fun m hm => ?_) (fun y m hm => ?_) (fun y hy => ?_) ?_
        · split_ifs at hm
        · split_ifs at hm with hn
          cases hm
          exact hn
        · have heq : y = c := by
            obtain ⟨m, hy⟩ | hy := hy <;> split_ifs at hy <;> cases hy <;> rfl
          rw [heq]
          cases waiting <;> simpa [Engine.answer, Engine.setReply, Engine.setControl] using hc
        · split_ifs <;> simp
  case h_5 c hw =>
      have hc := h.current c (Or.inr hw)
      have hstepping : Consistent { s with worker := .stepping } :=
        h.setWorker (by rintro _ ⟨⟩) (by rintro _ _ ⟨⟩)
          (by rintro _ (⟨_, hc⟩ | hc) <;> cases hc) (by simp)
      split_ifs
      · refine Consistent.drop hstepping (by simp [hc.1]) (fun hmem => ?_) hc.2
          (by rintro (⟨_, hc⟩ | hc) <;> cases hc)
        rw [hstepping.tasks] at hmem
        rw [hc.1] at hmem
        cases hmem
      · exact hstepping
  case h_6 hw =>
      split_ifs
      · exact h.exit
      · exact h.setWorker (by rintro _ ⟨⟩) (by rintro _ _ ⟨⟩)
          (by rintro _ (⟨_, hc⟩ | hc) <;> cases hc) (by simp)
  case h_7 hw =>
      exact h.setWorker (by rintro _ ⟨⟩) (by rintro _ _ ⟨⟩)
        (by rintro _ (⟨_, hc⟩ | hc) <;> cases hc) (by simp)
  case h_8 b hw =>
      split_ifs
      · exact h.exit
      · have hwoken : Consistent { s with bell := s.bell.wake } :=
          h.congr rfl rfl rfl rfl (fun _ => rfl) h.making
        exact hwoken.setWorker (by rintro _ ⟨⟩) (by rintro _ _ ⟨⟩)
          (by rintro _ (⟨_, hc⟩ | hc) <;> cases hc) (by simp)
  case h_9 => exact h

end Engine

end Tidkod
