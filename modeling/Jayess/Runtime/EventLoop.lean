import Mathlib.Logic.Relation
import Mathlib.Data.List.Sort
import Jayess.Number.Word

/-! # The event loop -/

namespace Jayess.Runtime

structure TimerHandle where
  id : Nat
  repeats : Bool
  delay : Int64
  canceled : Bool
deriving DecidableEq, Repr

structure ScheduledTimer (Task : Type) where
  handle : TimerHandle
  due : Int64
  task : Task
deriving DecidableEq, Repr

/-- `runtime.EventLoop`; the map of timers is the list of its values, each under the ID of its handle. -/
structure EventLoop (Task : Type) where
  now : Int64
  nextID : Nat
  microtasks : List Task
  timers : List (ScheduledTimer Task)
deriving DecidableEq, Repr

variable {Task : Type}

namespace EventLoop

def newEventLoop : EventLoop Task := ⟨0, 0, [], []⟩

def queueMicrotask (loop : EventLoop Task) (task : Option Task) : EventLoop Task :=
  match task with
  | none => loop
  | some task => { loop with microtasks := loop.microtasks ++ [task] }

def clamped (delay : Int64) : Int64 := if delay < 0 then 0 else delay

/-- `scheduleTimer`, with the handle that it returns. -/
def scheduleTimer (loop : EventLoop Task) (task : Option Task) (delay : Int64) (repeats : Bool) :
    EventLoop Task × TimerHandle :=
  match task with
  | none => (loop, ⟨0, false, 0, false⟩)
  | some task =>
      let handle := ⟨loop.nextID + 1, repeats, clamped delay, false⟩
      ({ loop with
          nextID := loop.nextID + 1
          timers := ⟨handle, loop.now + clamped delay, task⟩ :: loop.timers }, handle)

/-- `ClearTimer`, with what it returns. The timer is marked as cancelled where it is in the map, and then
nothing refers to it any more. -/
def clearTimer (loop : EventLoop Task) (id : Nat) : EventLoop Task × Bool :=
  if id = 0 then (loop, false)
  else if loop.timers.any fun timer => timer.handle.id = id then
    ({ loop with timers := loop.timers.filter fun timer => timer.handle.id ≠ id }, true)
  else (loop, false)

/-- What `Advance` does before it runs what is ready. -/
def pass (loop : EventLoop Task) (delta : Int64) : EventLoop Task :=
  if 0 < delta then { loop with now := loop.now + delta } else loop

def less (first second : ScheduledTimer Task) : Bool :=
  if first.due = second.due then decide (first.handle.id < second.handle.id)
  else decide (first.due < second.due)

/-- `readyTimers`: the timers that are due, in order. -/
def readyTimers (loop : EventLoop Task) : List (ScheduledTimer Task) :=
  (loop.timers.filter fun timer => timer.due ≤ loop.now).insertionSort fun first second =>
    less second first = false

/-- What `readyTimers` leaves in the map. -/
def waiting (loop : EventLoop Task) : EventLoop Task :=
  { loop with timers := loop.timers.filter fun timer => ¬timer.due ≤ loop.now }

/-- What `RunReady` does with a timer when its task and the microtasks have run. -/
def rearm (loop : EventLoop Task) (timer : ScheduledTimer Task) : EventLoop Task :=
  if timer.handle.repeats && !timer.handle.canceled then
    { loop with
      timers := { timer with due := loop.now + timer.handle.delay } ::
        loop.timers.filter fun other => other.handle.id ≠ timer.handle.id }
  else loop

section Ready

variable {loop : EventLoop Task} {timer : ScheduledTimer Task}

theorem mem_readyTimers : timer ∈ loop.readyTimers ↔ timer ∈ loop.timers ∧ timer.due ≤ loop.now := by
  rw [readyTimers, List.mem_insertionSort, List.mem_filter, decide_eq_true_eq]

theorem mem_waiting : timer ∈ loop.waiting.timers ↔
    timer ∈ loop.timers ∧ ¬timer.due ≤ loop.now := by
  rw [waiting, List.mem_filter, decide_eq_true_eq]

theorem readyTimers_eq_nil_iff : loop.readyTimers = [] ↔
    ∀ timer ∈ loop.timers, ¬timer.due ≤ loop.now := by
  rw [List.eq_nil_iff_forall_not_mem]
  simp only [mem_readyTimers, not_and]

theorem timers_perm (loop : EventLoop Task) :
    (loop.readyTimers ++ loop.waiting.timers).Perm loop.timers := by
  have hsorted : loop.readyTimers.Perm (loop.timers.filter fun timer => timer.due ≤ loop.now) :=
    List.perm_insertionSort _ _
  have hsplit := List.filter_append_perm (fun timer => decide (timer.due ≤ loop.now)) loop.timers
  refine (hsorted.append_right _).trans ?_
  rw [waiting]
  simpa only [decide_not] using hsplit

end Ready

end EventLoop

/-- A call that a program or a task makes. -/
inductive LoopCall (Task : Type) where
  | setTimeout (task : Option Task) (delay : Int64)
  | setInterval (task : Option Task) (delay : Int64)
  | clearTimer (id : Nat)
  | queueMicrotask (task : Option Task)
  | advance (delta : Int64)
deriving DecidableEq, Repr

/-- A call in progress. -/
inductive Frame (Task : Type) where
  /-- Code of the program or of a task, with the calls that it still makes. -/
  | code (calls : List (LoopCall Task))
  /-- `RunMicrotasks`, at the head of its loop. -/
  | microtasks
  /-- `RunReady`, at the head of its loop. -/
  | rounds
  /-- The loop of `RunReady` over the timers of a round, with those still to run. -/
  | batch (ready : List (ScheduledTimer Task))
  /-- The same loop where the task of a timer and the microtasks run. -/
  | settle (timer : ScheduledTimer Task) (ready : List (ScheduledTimer Task))
deriving DecidableEq, Repr

/-- What happens in a run. -/
inductive LoopEvent (Task : Type) where
  | scheduled (id : Nat) (now delay : Int64)
  | cleared (id : Nat) (held : Bool)
  | queued (task : Task)
  | advanced (now delta : Int64)
  | round (now : Int64) (ids : List Nat)
  | started (id : Nat) (now : Int64) (waiting : List Task)
  | ran (task : Task)
  | returned (now : Int64)
deriving DecidableEq, Repr

/-- A loop, the calls in progress with the innermost first, and what happened with the latest first. -/
structure LoopRun (Task : Type) where
  loop : EventLoop Task
  stack : List (Frame Task)
  past : List (LoopEvent Task)
deriving DecidableEq, Repr

def Frame.holds (id : Nat) : Frame Task → Bool
  | .batch ready => ready.any fun timer => timer.handle.id = id
  | .settle timer ready => (timer.handle.repeats && timer.handle.id = id) ||
      ready.any fun timer => timer.handle.id = id
  | _ => false

namespace LoopRun

/-- A call other than `Advance`, with what happens. -/
def perform (run : LoopRun Task) : LoopCall Task → EventLoop Task × List (LoopEvent Task)
  | .setTimeout task delay =>
      ((run.loop.scheduleTimer task delay false).1,
        task.toList.map fun _ => .scheduled (run.loop.nextID + 1) run.loop.now delay)
  | .setInterval task delay =>
      ((run.loop.scheduleTimer task delay true).1,
        task.toList.map fun _ => .scheduled (run.loop.nextID + 1) run.loop.now delay)
  | .clearTimer id =>
      ((run.loop.clearTimer id).1, [.cleared id (run.stack.any fun frame => frame.holds id)])
  | .queueMicrotask task => (run.loop.queueMicrotask task, task.toList.map .queued)
  | .advance delta => (run.loop.pass delta, [.advanced run.loop.now delta])

/-- The frames that a call puts on the stack: `Advance` runs what is ready. -/
def opened : LoopCall Task → List (Frame Task)
  | .advance _ => [.microtasks, .rounds]
  | _ => []

/-- One step, where `behave` gives the calls of each execution of a task; nothing when all has returned. -/
def next (behave : List (LoopEvent Task) → Task → List (LoopCall Task)) (run : LoopRun Task) :
    Option (LoopRun Task) :=
  match run.stack with
  | [] => none
  | .code [] :: stack => some { run with stack := stack }
  | .code (call :: calls) :: stack =>
      some ⟨(run.perform call).1, opened call ++ .code calls :: stack,
        (run.perform call).2 ++ run.past⟩
  | .microtasks :: stack =>
      match run.loop.microtasks with
      | [] => some { run with stack := stack }
      | task :: rest =>
          some ⟨{ run.loop with microtasks := rest },
            .code (behave run.past task) :: .microtasks :: stack, .ran task :: run.past⟩
  | .rounds :: stack =>
      if run.loop.readyTimers = [] then
        some ⟨run.loop, stack, .returned run.loop.now :: run.past⟩
      else
        some ⟨run.loop.waiting, .batch run.loop.readyTimers :: .rounds :: stack,
          .round run.loop.now (run.loop.readyTimers.map fun timer => timer.handle.id) :: run.past⟩
  | .batch [] :: stack => some { run with stack := stack }
  | .batch (timer :: ready) :: stack =>
      some ⟨run.loop, .code (behave run.past timer.task) :: .microtasks :: .settle timer ready :: stack,
        .started timer.handle.id run.loop.now run.loop.microtasks :: run.past⟩
  | .settle timer ready :: stack =>
      some ⟨run.loop.rearm timer, .batch ready :: stack, run.past⟩

/-- What one step does. -/
inductive Step (behave : List (LoopEvent Task) → Task → List (LoopCall Task)) :
    LoopRun Task → LoopRun Task → Prop
  | done (loop stack past) : Step behave ⟨loop, .code [] :: stack, past⟩ ⟨loop, stack, past⟩
  | call (run : LoopRun Task) (call calls stack) (hstack : run.stack = .code (call :: calls) :: stack) :
      Step behave run ⟨(run.perform call).1, opened call ++ .code calls :: stack,
        (run.perform call).2 ++ run.past⟩
  | drained (loop stack past) (hnone : loop.microtasks = []) :
      Step behave ⟨loop, .microtasks :: stack, past⟩ ⟨loop, stack, past⟩
  | microtask (loop stack past task rest) (hsome : loop.microtasks = task :: rest) :
      Step behave ⟨loop, .microtasks :: stack, past⟩ ⟨{ loop with microtasks := rest },
        .code (behave past task) :: .microtasks :: stack, .ran task :: past⟩
  | quiet (loop stack past) (hnone : loop.readyTimers = []) :
      Step behave ⟨loop, .rounds :: stack, past⟩ ⟨loop, stack, .returned loop.now :: past⟩
  | round (loop stack past) (hsome : loop.readyTimers ≠ []) :
      Step behave ⟨loop, .rounds :: stack, past⟩
        ⟨loop.waiting, .batch loop.readyTimers :: .rounds :: stack,
          .round loop.now (loop.readyTimers.map fun timer => timer.handle.id) :: past⟩
  | roundDone (loop stack past) : Step behave ⟨loop, .batch [] :: stack, past⟩ ⟨loop, stack, past⟩
  | start (loop stack past timer ready) :
      Step behave ⟨loop, .batch (timer :: ready) :: stack, past⟩
        ⟨loop, .code (behave past timer.task) :: .microtasks :: .settle timer ready :: stack,
          .started timer.handle.id loop.now loop.microtasks :: past⟩
  | settled (loop stack past timer ready) :
      Step behave ⟨loop, .settle timer ready :: stack, past⟩
        ⟨loop.rearm timer, .batch ready :: stack, past⟩

section Step

variable {behave : List (LoopEvent Task) → Task → List (LoopCall Task)} {run later : LoopRun Task}

theorem step_of_next (hnext : run.next behave = some later) : Step behave run later := by
  obtain ⟨loop, stack, past⟩ := run
  unfold next at hnext
  dsimp only at hnext
  split at hnext
  · cases hnext
  · cases hnext
    exact .done _ _ _
  · cases hnext
    exact .call _ _ _ _ rfl
  · split at hnext
    · rename_i hnone
      cases hnext
      exact .drained _ _ _ hnone
    · rename_i hsome
      cases hnext
      exact .microtask _ _ _ _ _ hsome
  · split at hnext
    · rename_i hnone
      cases hnext
      exact .quiet _ _ _ hnone
    · rename_i hsome
      cases hnext
      exact .round _ _ _ hsome
  · cases hnext
    exact .roundDone _ _ _
  · cases hnext
    exact .start _ _ _ _ _
  · cases hnext
    exact .settled _ _ _ _ _

end Step

/-- Some number of steps. -/
def Reaches (behave : List (LoopEvent Task) → Task → List (LoopCall Task)) :
    LoopRun Task → LoopRun Task → Prop :=
  Relation.ReflTransGen (Step behave)

/-- A program on a new loop. -/
def begin (calls : List (LoopCall Task)) : LoopRun Task := ⟨.newEventLoop, [.code calls], []⟩

theorem Reaches.invariant {behave : List (LoopEvent Task) → Task → List (LoopCall Task)}
    {run later : LoopRun Task} (hreaches : Reaches behave run later) (holds : LoopRun Task → Prop)
    (hfirst : holds run)
    (hstep : ∀ run later, Step behave run later → holds run → holds later) : holds later := by
  induction hreaches with
  | refl => exact hfirst
  | tail _ hlast ih => exact hstep _ _ hlast ih

/-- Some number of steps, computed. -/
def steps (behave : List (LoopEvent Task) → Task → List (LoopCall Task)) :
    Nat → LoopRun Task → Option (LoopRun Task)
  | 0, run => some run
  | count + 1, run =>
      match run.next behave with
      | none => none
      | some later => steps behave count later

theorem reaches_of_steps {behave : List (LoopEvent Task) → Task → List (LoopCall Task)}
    {count : Nat} {run later : LoopRun Task} (hsteps : steps behave count run = some later) :
    Reaches behave run later := by
  induction count generalizing run with
  | zero =>
      cases hsteps
      exact .refl
  | succ count ih =>
      unfold steps at hsteps
      split at hsteps
      · cases hsteps
      · rename_i middle hnext
        exact .head (step_of_next hnext) (ih hsteps)

end LoopRun

end Jayess.Runtime
