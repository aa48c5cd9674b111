import Ferry.Proofs.Orchestrator.Control

/-!
# Where calls and workers stand

What is left of a program is a function and cannot be looked at. The places at
which a call of `start` or `stop` may stand are few, though, and so are the
places of a worker in its round. A `Plan` says of everybody where they stand and
moves them from place to place; read as programs it is the state it stands for,
and it moves as that state does (`control_move`).
-/

namespace Ferry.Supervision

open Supervisor (Handle)

/-- Where a call stands: before the request it is named after, or at its end. -/
inductive Point where
  /-- Of a start. -/
  | lock
  | raise
  | giveUp
  | take
  | wait (h : Handle)
  | hire
  | unlock
  /-- Of a stop. -/
  | lower
  | enter (wasRunning : Bool)
  | seize (wasRunning : Bool)
  | exit (wasRunning : Bool) (found : Option Handle)
  | signal (found : Option Handle)
  | join (h : Handle)
  | finished (order : Order)

namespace Point

def order : Point → Order
  | lock | raise | giveUp | take | wait _ | hire | unlock => .start
  | lower | enter _ | seize _ | exit _ _ | signal _ | join _ => .stop
  | finished order => order

/-- What is left of a call that stands here. -/
def rest : Point → Supervisor.Task Unit
  | lock => Supervisor.start
  | raise => do
    if ← Supervisor.ask (.swapRunning true) then
      Supervisor.ask .unlock
    else
      Supervisor.awaitIfAny (← Supervisor.ask .takeHandle)
      Supervisor.ask .spawn
      Supervisor.ask .unlock
  | giveUp => Supervisor.ask .unlock
  | take => do
    Supervisor.awaitIfAny (← Supervisor.ask .takeHandle)
    Supervisor.ask .spawn
    Supervisor.ask .unlock
  | wait h => do
    Supervisor.awaitIfAny (some h)
    Supervisor.ask .spawn
    Supervisor.ask .unlock
  | hire => do
    Supervisor.ask .spawn
    Supervisor.ask .unlock
  | unlock => Supervisor.ask .unlock
  | lower => Supervisor.stop
  | enter wasRunning => do
    Supervisor.ask .lock
    let handle ← Supervisor.ask .takeHandle
    Supervisor.ask .unlock
    if !wasRunning && handle.isNone then
      pure ()
    else
      Supervisor.ask .interrupt
      Supervisor.awaitIfAny handle
  | seize wasRunning => do
    let handle ← Supervisor.ask .takeHandle
    Supervisor.ask .unlock
    if !wasRunning && handle.isNone then
      pure ()
    else
      Supervisor.ask .interrupt
      Supervisor.awaitIfAny handle
  | exit wasRunning found => do
    Supervisor.ask .unlock
    if !wasRunning && found.isNone then
      pure ()
    else
      Supervisor.ask .interrupt
      Supervisor.awaitIfAny found
  | signal found => do
    Supervisor.ask .interrupt
    Supervisor.awaitIfAny found
  | join h => Supervisor.awaitIfAny (some h)
  | finished _ => pure ()

def caller (q : Point) : Caller :=
  ⟨q.order, q.rest⟩

/-- A stop that has lowered the flag, and has yet to send its order or to see its
worker end. -/
def Pending (live : Handle → Prop) : Point → Prop
  | enter _ | seize _ | exit _ _ | signal _ => True
  | join h => live h
  | _ => False

/-- Where a start goes that has taken what there was for a handle. -/
def hiring : Option Handle → Point
  | none => hire
  | some h => wait h

/-- Where a stop goes that has sent its order. -/
def joining : Option Handle → Point
  | none => finished .stop
  | some h => join h

end Point

/-- Where a worker stands in its round. -/
inductive Spot where
  | asking
  | cycling
  | telling (report : CycleReport)
  | idling
  | sleeping (delay : Nat)
  | counting (e : OrchestratorError)
  | erring
  | leaving (exit : Worker.Exit)
  | between
  | gone (exit : Worker.Exit)

namespace Spot

/-- What is left of the round. -/
def rest : Spot → Worker.Task (Option Worker.Exit)
  | asking => Worker.work 1
  | cycling => do
    let result ← Worker.ask .cycle
    Worker.settle result (pure none)
  | telling report => Worker.settle (.ok report) (pure none)
  | idling => do
    let delay ← Worker.ask .idleDelay
    Worker.pause delay (pure none)
  | sleeping delay => Worker.pause delay (pure none)
  | counting e => Worker.settle (.error e) (pure none)
  | erring => do
    let delay ← Worker.ask .errorDelay
    Worker.pause delay (pure none)
  | leaving exit => Worker.leave exit
  | between => pure none
  | gone exit => pure (some exit)

theorem rest_counting (e : OrchestratorError) :
    (counting e).rest =
      .call (.countError e.isFatal) fun _ =>
        if e.isFatal then (leaving (.error e)).rest else erring.rest := by
  simp only [rest, Worker.settle]
  cases e.isFatal <;> rfl

def next (running mail : Bool) (turn : Turn) : Spot → Spot
  | asking => if running then cycling else leaving (.ok ())
  | cycling =>
    match turn.result with
    | .ok report => telling report
    | .error e => counting e
  | telling report => if report.isIdle then idling else between
  | idling => sleeping turn.delay
  | sleeping _ => if mail && turn.heeds then leaving (.ok ()) else between
  | counting e => if e.isFatal then leaving (.error e) else erring
  | erring => sleeping turn.delay
  | leaving exit => gone exit
  | between => asking
  | gone exit => gone exit

def isLeaving : Spot → Bool
  | leaving _ => true
  | _ => false

def isGone : Spot → Bool
  | gone _ => true
  | _ => false

end Spot

/-- A worker by its place. -/
structure Post where
  spot : Spot := .gone (.ok ())
  mail : Bool := false
  recalled : Bool := false

def Post.hand (w : Post) : Hand :=
  ⟨w.spot.rest, w.mail, w.recalled⟩

/-- A state by the places of all calls and workers. -/
structure Plan where
  running : Bool := false
  locked : Bool := false
  handle : Option Handle := none
  recalled : Bool := false
  spawned : Nat := 0
  workers : Handle → Post := fun _ => {}
  callers : Nat → Point

namespace Plan

/-- The state a plan stands for. -/
def control (p : Plan) : Control :=
  { running := p.running, locked := p.locked, handle := p.handle, recalled := p.recalled,
    spawned := p.spawned, workers := fun h => (p.workers h).hand,
    callers := fun i => (p.callers i).caller }

def put (p : Plan) (i : Nat) (q : Point) : Plan :=
  { p with callers := Function.update p.callers i q }

def isGone (p : Plan) (h : Handle) : Bool :=
  (p.workers h).spot.isGone

/-- With a new worker. -/
def hired (p : Plan) : Plan :=
  { p with
    handle := some p.spawned, spawned := p.spawned + 1,
    workers := Function.update p.workers p.spawned
      { spot := .asking, recalled := p.recalled } }

/-- With the flag lowered by a stop. -/
def lowered (p : Plan) : Plan :=
  { p with
    running := false, recalled := true,
    workers := fun h => { p.workers h with recalled := true } }

/-- With an order to stop in every mailbox. -/
def signalled (p : Plan) : Plan :=
  { p with workers := fun h => { p.workers h with mail := true } }

def call (p : Plan) (i : Nat) : Plan :=
  match p.callers i with
  | .lock => if p.locked then p else { p with locked := true }.put i .raise
  | .raise =>
    if p.running then p.put i .giveUp
    else { p with running := true, recalled := false }.put i .take
  | .giveUp => { p with locked := false }.put i (.finished .start)
  | .take => { p with handle := none }.put i (.hiring p.handle)
  | .wait h => if p.isGone h then p.put i .hire else p
  | .hire => p.hired.put i .unlock
  | .unlock => { p with locked := false }.put i (.finished .start)
  | .lower => p.lowered.put i (.enter p.running)
  | .enter wasRunning =>
    if p.locked then p else { p with locked := true }.put i (.seize wasRunning)
  | .seize wasRunning => { p with handle := none }.put i (.exit wasRunning p.handle)
  | .exit wasRunning found =>
    { p with locked := false }.put i
      (if !wasRunning && found.isNone then .finished .stop else .signal found)
  | .signal found => p.signalled.put i (.joining found)
  | .join h => if p.isGone h then p.put i (.finished .stop) else p
  | .finished _ => p

def work (p : Plan) (h : Handle) (turn : Turn) : Plan :=
  { p with
    running := p.running && !(p.workers h).spot.isLeaving
    workers := Function.update p.workers h
      { p.workers h with spot := (p.workers h).spot.next p.running (p.workers h).mail turn } }

def move (p : Plan) : Move → Plan
  | .call i => p.call i
  | .work h turn => p.work h turn

theorem control_callers (p : Plan) (i : Nat) : p.control.callers i = (p.callers i).caller :=
  rfl

theorem control_hand {p : Plan} {h : Handle} {q : Spot} (hq : (p.workers h).spot = q) :
    p.control.workers h = ⟨q.rest, (p.workers h).mail, (p.workers h).recalled⟩ := by
  rw [← hq]
  rfl

theorem hand_update (workers : Handle → Post) (h : Handle) (w : Post) :
    (fun h' => (Function.update workers h w h').hand) =
      Function.update (fun h' => (workers h').hand) h w.hand :=
  funext fun h' => Function.apply_update (fun _ => Post.hand) workers h w h'

theorem put_control (p : Plan) (i : Nat) (q : Point) :
    (p.put i q).control =
      { p.control with callers := Function.update p.control.callers i q.caller } := by
  have hcallers : (fun j => (Function.update p.callers i q j).caller) =
      Function.update (fun j => (p.callers j).caller) i q.caller :=
    funext fun j => Function.apply_update (fun _ => Point.caller) p.callers i q j
  simp only [control, put, hcallers]

section

variable {p p' : Plan} {i : Nat} {q q' : Point} {c : Supervisor.Request}
  {next : c.Reply → Supervisor.Task Unit} {r : c.Reply}

/-- A plan that moves a call moves the state it stands for. -/
theorem control_replied (hi : p.callers i = q) (hrest : q.rest = .call c next)
    (hr : p.control.reply? c = some r) (heffect : p'.control = p.control.effect c)
    (hnext : q'.caller = ⟨q.order, next r⟩) :
    (p'.put i q').control = p.control.call i := by
  have hcaller : p.control.callers i = ⟨q.order, .call c next⟩ := by
    rw [control_callers, hi, ← hrest]
    rfl
  rw [put_control, Control.call_replied hcaller hr, heffect, hnext, Control.effect_callers]

theorem control_waits (hi : p.callers i = q) (hrest : q.rest = .call c next)
    (hr : p.control.reply? c = none) : p.control = p.control.call i := by
  have hcaller : p.control.callers i = ⟨q.order, .call c next⟩ := by
    rw [control_callers, hi, ← hrest]
    rfl
  exact (Control.call_waits hcaller hr).symm

end

theorem reply?_lock (p : Plan) :
    p.control.reply? .lock = if p.locked then none else some () :=
  rfl

theorem reply?_swapRunning (p : Plan) (value : Bool) :
    p.control.reply? (.swapRunning value) = some p.running :=
  rfl

theorem reply?_await (p : Plan) (h : Handle) :
    p.control.reply? (.await h) =
      match (p.workers h).spot.rest with
      | .done exit => exit
      | .call .. => none :=
  rfl

theorem reply?_await_gone {p : Plan} {h : Handle} (hgone : p.isGone h = true) :
    ∃ exit, p.control.reply? (.await h) = some exit := by
  rw [reply?_await]
  unfold isGone at hgone
  cases hspot : (p.workers h).spot <;> rw [hspot] at hgone <;> try cases hgone
  exact ⟨_, rfl⟩

theorem reply?_await_live {p : Plan} {h : Handle} (hlive : p.isGone h = false) :
    p.control.reply? (.await h) = none := by
  rw [reply?_await]
  unfold isGone at hlive
  cases hspot : (p.workers h).spot with
  | gone exit => rw [hspot] at hlive; cases hlive
  | counting e =>
      by_cases hfatal : e.isFatal <;> simp only [Spot.rest, Worker.settle, hfatal] <;> rfl
  | _ => rfl

theorem hiring_caller (found : Option Handle) :
    (Point.hiring found).caller =
      ⟨.start, do
        Supervisor.awaitIfAny found
        Supervisor.ask .spawn
        Supervisor.ask .unlock⟩ := by
  cases found <;> rfl

theorem joining_caller (found : Option Handle) :
    (Point.joining found).caller = ⟨.stop, Supervisor.awaitIfAny found⟩ := by
  cases found <;> rfl

theorem signal_caller (wasRunning : Bool) (found : Option Handle) :
    (if !wasRunning && found.isNone then Point.finished .stop else .signal found).caller =
      ⟨.stop,
        if !wasRunning && found.isNone then pure ()
        else do
          Supervisor.ask .interrupt
          Supervisor.awaitIfAny found⟩ := by
  cases wasRunning <;> cases found <;> rfl

theorem control_lock {p : Plan} {i : Nat} {q q' : Point} {next : Unit → Supervisor.Task Unit}
    (hi : p.callers i = q) (hrest : q.rest = .call .lock next)
    (hnext : q'.caller = ⟨q.order, next ()⟩) :
    (if p.locked then p else { p with locked := true }.put i q').control =
      p.control.call i := by
  by_cases hlocked : p.locked
  · rw [if_pos hlocked]
    exact control_waits hi hrest (by simp [reply?_lock, hlocked])
  · rw [if_neg hlocked]
    exact control_replied hi hrest (by simp [reply?_lock, hlocked]) rfl hnext

theorem control_await {p : Plan} {i : Nat} {h : Handle} {q q' : Point}
    {next : Worker.Exit → Supervisor.Task Unit}
    (hi : p.callers i = q) (hrest : q.rest = .call (.await h) next)
    (hnext : ∀ exit, q'.caller = ⟨q.order, next exit⟩) :
    (if p.isGone h then p.put i q' else p).control = p.control.call i := by
  cases hgone : p.isGone h with
  | true =>
      obtain ⟨exit, hr⟩ := reply?_await_gone hgone
      exact control_replied hi hrest hr rfl (hnext exit)
  | false => exact control_waits hi hrest (reply?_await_live hgone)

/-- A call moves in a plan as it moves in the state the plan stands for. -/
theorem control_call (p : Plan) (i : Nat) : (p.call i).control = p.control.call i := by
  cases hi : p.callers i with
  | lock => simp only [call, hi]; exact control_lock hi rfl rfl
  | raise =>
      have hr := reply?_swapRunning p true
      cases hrunning : p.running with
      | true =>
          simp only [call, hi, hrunning, if_true]
          refine control_replied hi rfl (hrunning ▸ hr) ?_ rfl
          simp [control, Control.effect, hrunning]
      | false =>
          simp only [call, hi, hrunning]
          refine control_replied hi rfl (hrunning ▸ hr) ?_ rfl
          simp [control, Control.effect, hrunning]
  | take => simp only [call, hi]; exact control_replied hi rfl rfl rfl (hiring_caller p.handle)
  | wait h => simp only [call, hi]; exact control_await hi rfl fun _ => rfl
  | hire =>
      simp only [call, hi]
      refine control_replied hi rfl rfl ?_ rfl
      simp only [control, hired, Control.effect, hand_update]
      rfl
  | giveUp | unlock | lower | seize =>
      simp only [call, hi]
      exact control_replied hi rfl rfl rfl rfl
  | enter wasRunning => simp only [call, hi]; exact control_lock hi rfl rfl
  | exit wasRunning found =>
      simp only [call, hi]
      exact control_replied hi rfl rfl rfl (signal_caller wasRunning found)
  | signal found =>
      simp only [call, hi]
      exact control_replied hi rfl rfl rfl (joining_caller found)
  | join h => simp only [call, hi]; exact control_await hi rfl fun _ => rfl
  | finished order =>
      simp only [call, hi, Control.call, control_callers]
      rfl

theorem work_control (p : Plan) (h : Handle) (turn : Turn) :
    (p.work h turn).control =
      { p.control with
        running := p.running && !(p.workers h).spot.isLeaving
        workers := Function.update p.control.workers h
          ⟨((p.workers h).spot.next p.running (p.workers h).mail turn).rest,
            (p.workers h).mail, (p.workers h).recalled⟩ } := by
  simp only [control, work, hand_update]
  rfl

theorem control_answered {p : Plan} {h : Handle} {turn : Turn} {q : Spot}
    {c : Worker.Request} {next : c.Reply → Worker.Task (Option Worker.Exit)}
    (hq : (p.workers h).spot = q) (hrest : q.rest = .call c next)
    (hafter : p.control.afterWork c =
      { p.control with running := p.running && !q.isLeaving })
    (hnext : (q.next p.running (p.workers h).mail turn).rest =
      next (p.control.answer (p.workers h).mail turn c)) :
    (p.work h turn).control = p.control.work h turn := by
  have hhand := control_hand hq
  rw [hrest] at hhand
  rw [work_control, Control.work_answered turn hhand, hafter, hq, hnext]

/-- A worker moves in a plan as it moves in the state the plan stands for. -/
theorem control_work (p : Plan) (h : Handle) (turn : Turn) :
    (p.work h turn).control = p.control.work h turn := by
  have hkeep : p.control = { p.control with running := p.running && !false } := by
    rw [Bool.not_false, Bool.and_true]
    rfl
  cases hq : (p.workers h).spot with
  | asking =>
      refine control_answered hq rfl hkeep ?_
      cases hrunning : p.running <;> simp only [Control.answer, control, hrunning] <;> rfl
  | cycling =>
      refine control_answered hq rfl hkeep ?_
      unfold Spot.next
      cases hresult : turn.result <;> simp only [Control.answer, hresult] <;> rfl
  | telling report =>
      refine control_answered hq rfl hkeep ?_
      unfold Spot.next
      cases hidle : report.isIdle <;> simp only [hidle] <;> rfl
  | idling => exact control_answered hq rfl hkeep rfl
  | sleeping delay =>
      refine control_answered hq rfl hkeep ?_
      unfold Spot.next
      cases hheeds : (p.workers h).mail && turn.heeds <;>
        simp only [Control.answer, hheeds] <;> rfl
  | counting e =>
      refine control_answered hq (Spot.rest_counting e) hkeep ?_
      simp only [Spot.next, apply_ite Spot.rest]
  | erring => exact control_answered hq rfl hkeep rfl
  | leaving exit =>
      refine control_answered hq rfl ?_ rfl
      simp [Control.afterWork, Spot.isLeaving]
  | between =>
      rw [work_control, Control.work_between turn (control_hand hq), hq]
      simp [Spot.isLeaving, Spot.next, Spot.rest, control]
  | gone exit =>
      have hself := Function.update_eq_self h p.control.workers
      rw [control_hand hq] at hself
      rw [work_control, Control.work_gone turn (control_hand hq), hq]
      simp only [Spot.isLeaving, Spot.next, Spot.rest]
      exact (congrArg (fun workers => { p.control with
        running := p.running && !false, workers }) hself).trans hkeep.symm

theorem control_move (p : Plan) (m : Move) : (p.move m).control = p.control.move m := by
  cases m with
  | call i => exact control_call p i
  | work h turn => exact control_work p h turn

/-! ## What is asked of a schedule, by places -/

/-- The worker is inside its loop. -/
def Live (p : Plan) (h : Handle) : Prop :=
  (p.workers h).spot.isGone = false

def Stopping (p : Plan) (j : Nat) : Prop :=
  (p.callers j).Pending p.Live

end Plan

theorem Spot.rest_ne_done {q : Spot} (hlive : q.isGone = false) (exit : Worker.Exit) :
    q.rest ≠ .done (some exit) := by
  intro hdone
  cases q with
  | gone exit => cases hlive
  | counting e =>
      cases hfatal : e.isFatal <;>
        simp only [Spot.rest, Worker.settle, hfatal] at hdone <;> cases hdone
  | _ => cases hdone

namespace Plan

theorem live_control {p : Plan} {h : Handle} : p.control.Live h ↔ p.Live h := by
  constructor
  · intro hlive
    cases hspot : (p.workers h).spot with
    | gone exit =>
        refine absurd ?_ (hlive exit)
        rw [control_hand hspot]
        rfl
    | _ => simp [Live, hspot, Spot.isGone]
  · intro hlive exit
    exact Spot.rest_ne_done hlive exit

theorem stopping_control {p : Plan} {j : Nat} : p.control.Stopping j ↔ p.Stopping j := by
  unfold Control.Stopping Stopping
  rw [control_callers]
  cases p.callers j with
  | join h =>
      exact ⟨fun hstop => live_control.1 hstop.2, fun hlive => ⟨rfl, live_control.2 hlive⟩⟩
  | enter | seize | exit | signal => exact ⟨fun _ => trivial, fun _ => ⟨rfl, trivial⟩⟩
  | finished | lower => exact ⟨fun hstop => hstop.2, False.elim⟩
  | _ => exact ⟨fun hstop => Order.noConfusion hstop.1, False.elim⟩

theorem crosses_control {p : Plan} {i : Nat} :
    p.control.Crosses (.call i) ↔
      p.callers i = .raise ∧ p.running = false ∧ ∃ j, p.Stopping j := by
  unfold Control.Crosses
  simp only [stopping_control]
  refine and_congr_left fun _ => ?_
  rw [control_callers]
  cases hi : p.callers i with
  | raise => exact ⟨fun _ => rfl, fun _ => ⟨_, rfl⟩⟩
  | _ =>
      refine ⟨fun hraise => ?_, fun hraise => by cases hraise⟩
      obtain ⟨next, hnext⟩ := hraise
      cases hnext

/-- The next call of the worker makes it leave its loop: it will find the flag down, or be woken by
the order of a stop. -/
def Leaving (p : Plan) (h : Handle) (turn : Turn) : Prop :=
  match (p.workers h).spot with
  | .asking => p.running = false
  | .sleeping _ => (p.workers h).mail = true ∧ turn.heeds = true
  | _ => False

theorem leaving_control {p : Plan} {h : Handle} {turn : Turn} :
    p.control.Leaving h turn ↔ p.Leaving h turn := by
  have hhand : p.control.workers h = (p.workers h).hand := rfl
  unfold Control.Leaving Leaving
  simp only [hhand, Post.hand]
  cases hspot : (p.workers h).spot with
  | counting e =>
      by_cases hfatal : e.isFatal <;> simp only [Spot.rest, Worker.settle, hfatal] <;> rfl
  | _ => rfl

/-! ## Schedules of a plan -/

def first (orders : Nat → Order) : Plan :=
  { callers := fun i =>
      match orders i with
      | .start => .lock
      | .stop => .lower }

theorem first_control (orders : Nat → Order) : (first orders).control = initial orders := by
  have hcallers : (fun i => ((first orders).callers i).caller) =
      fun i => ⟨orders i, (orders i).task⟩ := by
    funext i
    cases hi : orders i <;> simp only [first, hi] <;> rfl
  simp only [control, hcallers, initial]
  rfl

/-- The plan a schedule leads to. -/
def reached (orders : Nat → Order) (moves : List Move) : Plan :=
  moves.foldl move (first orders)

theorem reached_control (orders : Nat → Order) (moves : List Move) :
    (reached orders moves).control = after orders moves := by
  rw [after, ← first_control]
  exact (List.foldl_hom control fun p m => (control_move p m).symm).symm

end Plan

end Ferry.Supervision
