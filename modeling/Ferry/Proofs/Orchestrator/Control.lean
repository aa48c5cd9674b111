import Ferry.Orchestrator.Supervisor
import Mathlib.Logic.Function.Basic

/-!
# Calls and workers side by side

Any number of calls of `start` and `stop` are under way at once, each with a
worker or without one to wait for, and every worker that was ever spawned moves
beside them. A state holds what they share, that is the flag, the lock, the
handle and the mailboxes, and of each call and each worker what is left of its
program. A move is one request of one of them; whoever has to wait does not
move. Which of them moves, how a cycle ends and whether a sleeper who could go
on looks into its mailbox first is the schedule's choice.

A worker runs for as long as it is let. Its program is taken one round at a
time, and a worker whose round is over begins the next.

Nobody reads `recalled`. It remembers whether a stop lowered the flag after the
last start raised it, and each worker remembers it of the start that hired it.
-/

namespace Ferry

namespace Supervision

open Supervisor (Handle)

inductive Order where
  | start
  | stop
deriving DecidableEq

def Order.task : Order → Supervisor.Task Unit
  | start => Supervisor.start
  | stop => Supervisor.stop

/-- A call, and what is left of it. -/
structure Caller where
  order : Order
  rest : Supervisor.Task Unit

/-- A worker, and what is left of its round. Nothing is left of one that was
never spawned. -/
structure Hand where
  rest : Worker.Task (Option Worker.Exit) := .done (some (.ok ()))
  /-- An order to stop was sent since it was spawned. -/
  mail : Bool := false
  /-- A stop lowered the flag after the start that hired it had raised it. -/
  recalled : Bool := false

/-- What a worker meets when it moves. -/
structure Turn where
  /-- How the cycle ends. -/
  result : Except OrchestratorError CycleReport := .ok {}
  /-- How long it is to sleep. -/
  delay : Nat := 0
  /-- It looks into its mailbox before the sleep is over. -/
  heeds : Bool := true

inductive Move where
  /-- A call makes its next request. -/
  | call (caller : Nat)
  /-- A worker makes its next request, or begins a round. -/
  | work (worker : Handle) (turn : Turn)

structure Control where
  running : Bool := false
  locked : Bool := false
  handle : Option Handle := none
  recalled : Bool := false
  spawned : Nat := 0
  workers : Handle → Hand := fun _ => {}
  callers : Nat → Caller

namespace Control

/-- The reply to a request, unless it has to wait. -/
def reply? (s : Control) : (c : Supervisor.Request) → Option c.Reply
  | .lock => if s.locked then none else some ()
  | .swapRunning _ => some s.running
  | .takeHandle => some s.handle
  | .await h =>
    match (s.workers h).rest with
    | .done exit => exit
    | .call .. => none
  | .unlock | .spawn | .interrupt => some ()

def effect (s : Control) : Supervisor.Request → Control
  | .lock => { s with locked := true }
  | .unlock => { s with locked := false }
  | .swapRunning true => { s with running := true, recalled := s.running && s.recalled }
  | .swapRunning false => { s with
      running := false, recalled := true,
      workers := fun h => { s.workers h with recalled := true } }
  | .takeHandle => { s with handle := none }
  | .spawn => { s with
      handle := some s.spawned, spawned := s.spawned + 1,
      workers := Function.update s.workers s.spawned
        { rest := Worker.work 1, recalled := s.recalled } }
  | .interrupt => { s with workers := fun h => { s.workers h with mail := true } }
  | .await _ => s

def call (s : Control) (i : Nat) : Control :=
  match s.callers i with
  | ⟨_, .done _⟩ => s
  | ⟨order, .call c next⟩ =>
    match s.reply? c with
    | none => s
    | some r => { s.effect c with callers := Function.update s.callers i ⟨order, next r⟩ }

theorem effect_callers (s : Control) (c : Supervisor.Request) :
    (s.effect c).callers = s.callers := by
  cases c with
  | swapRunning value => cases value <;> rfl
  | _ => rfl

theorem call_replied {s : Control} {i : Nat} {order : Order} {c : Supervisor.Request}
    {next : c.Reply → Supervisor.Task Unit} {r : c.Reply}
    (hi : s.callers i = ⟨order, .call c next⟩) (hr : s.reply? c = some r) :
    s.call i =
      { s.effect c with callers := Function.update s.callers i ⟨order, next r⟩ } := by
  unfold call
  rw [hi]
  simp only [hr]

theorem call_waits {s : Control} {i : Nat} {order : Order} {c : Supervisor.Request}
    {next : c.Reply → Supervisor.Task Unit}
    (hi : s.callers i = ⟨order, .call c next⟩) (hr : s.reply? c = none) : s.call i = s := by
  unfold call
  rw [hi]
  simp only [hr]

/-- The reply to a worker's request. -/
def answer (s : Control) (mail : Bool) (turn : Turn) : (c : Worker.Request) → c.Reply
  | .isRunning => s.running
  | .cycle => turn.result
  | .idleDelay => turn.delay
  | .errorDelay => turn.delay
  | .sleep _ => !(mail && turn.heeds)
  | .succeeded => ()
  | .countError _ => ()
  | .clearRunning => ()

def afterWork (s : Control) : Worker.Request → Control
  | .clearRunning => { s with running := false }
  | _ => s

def work (s : Control) (h : Handle) (turn : Turn) : Control :=
  match s.workers h with
  | ⟨.done (some _), _, _⟩ => s
  | ⟨.done none, mail, recalled⟩ =>
    { s with workers := Function.update s.workers h ⟨Worker.work 1, mail, recalled⟩ }
  | ⟨.call c next, mail, recalled⟩ =>
    { s.afterWork c with
      workers := Function.update s.workers h ⟨next (s.answer mail turn c), mail, recalled⟩ }

theorem work_answered {s : Control} {h : Handle} {c : Worker.Request}
    {next : c.Reply → Worker.Task (Option Worker.Exit)} {mail recalled : Bool} (turn : Turn)
    (hh : s.workers h = ⟨.call c next, mail, recalled⟩) :
    s.work h turn =
      { s.afterWork c with
        workers := Function.update s.workers h
          ⟨next (s.answer mail turn c), mail, recalled⟩ } := by
  unfold work
  rw [hh]

theorem work_between {s : Control} {h : Handle} {mail recalled : Bool} (turn : Turn)
    (hh : s.workers h = ⟨.done none, mail, recalled⟩) :
    s.work h turn =
      { s with workers := Function.update s.workers h ⟨Worker.work 1, mail, recalled⟩ } := by
  unfold work
  rw [hh]

theorem work_gone {s : Control} {h : Handle} {exit : Worker.Exit} {mail recalled : Bool}
    (turn : Turn) (hh : s.workers h = ⟨.done (some exit), mail, recalled⟩) :
    s.work h turn = s := by
  unfold work
  rw [hh]

def move (s : Control) : Move → Control
  | .call i => s.call i
  | .work h turn => s.work h turn

end Control

/-- Nobody has moved. -/
def initial (orders : Nat → Order) : Control :=
  { callers := fun i => ⟨orders i, (orders i).task⟩ }

/-- The state a schedule leads to. -/
def after (orders : Nat → Order) (moves : List Move) : Control :=
  moves.foldl Control.move (initial orders)

/-! ## What a schedule is asked to keep -/

namespace Control

/-- The worker is inside its loop. -/
def Live (s : Control) (h : Handle) : Prop :=
  ∀ exit, (s.workers h).rest ≠ .done (some exit)

/-- The worker is inside a cycle. -/
def InCycle (s : Control) (h : Handle) : Prop :=
  ∃ next, (s.workers h).rest = .call .cycle next

/-- The worker is about to leave its loop because the flag is down or because it
was told to. -/
def Leaving (s : Control) (h : Handle) (turn : Turn) : Prop :=
  match (s.workers h).rest with
  | .call .isRunning _ => s.running = false
  | .call (.sleep _) _ => (s.workers h).mail = true ∧ turn.heeds = true
  | _ => False

/-- A worker leaves its loop like that although no stop lowered the flag after the
start that hired it. -/
def LeavesUnrecalled (s : Control) : Move → Prop
  | .call _ => False
  | .work h turn => (s.workers h).recalled = false ∧ s.Leaving h turn

/-- A stop has lowered the flag, and has yet to send its order or to see its
worker end. -/
def Stopping (s : Control) (i : Nat) : Prop :=
  (s.callers i).order = .stop ∧
    match (s.callers i).rest with
    | .done _ => False
    | .call (.swapRunning _) _ => False
    | .call (.await h) _ => s.Live h
    | .call _ _ => True

/-- A start raises the flag while a stop is under way. -/
def Crosses (s : Control) : Move → Prop
  | .work _ _ => False
  | .call i =>
    (∃ next, (s.callers i).rest = .call (.swapRunning true) next) ∧
      s.running = false ∧ ∃ j, s.Stopping j

end Control

/-- There is never more than one worker, and a worker leaves its loop for a stop
only if the stop came after its start. -/
structure SoleWorker (orders : Nat → Order) (moves : List Move) : Prop where
  single : ∀ before, before <+: moves → ∀ h h',
    (after orders before).Live h → (after orders before).Live h' → h = h'
  undisturbed : ∀ before m, before ++ [m] <+: moves →
    ¬ (after orders before).LeavesUnrecalled m

/-- Somewhere a start crosses a stop. -/
def Crossed (orders : Nat → Order) (moves : List Move) : Prop :=
  ∃ before m, before ++ [m] <+: moves ∧ (after orders before).Crosses m

end Supervision

end Ferry
