import Mathlib.Data.List.Chain
import Jayess.Runtime.TimerCancellation
import Jayess.Runtime.TimerTermination

/-!
# The order of timers and microtasks

Timeouts and microtasks that are never cancelled: each timeout starts once, in the first round in
which it is due and in the order of its round, and each microtask runs once, in the order of the
queue and before the next timeout.
-/

namespace Jayess.Runtime

variable {Task : Type}

/-- The call neither cancels nor repeats. -/
def LoopCall.Plain : LoopCall Task → Prop
  | .setTimeout _ _ | .queueMicrotask _ | .advance _ => True
  | _ => False

/-- The times of the call fit a duration. -/
def LoopEvent.Fits : LoopEvent Task → Prop
  | .scheduled _ now delay => now.toInt + max delay.toInt 0 < 2 ^ 63
  | .advanced now delta => now.toInt + max delta.toInt 0 < 2 ^ 63
  | _ => True

namespace LoopRun

/-! ## What happened -/

def Due (past : List (LoopEvent Task)) (id : Nat) (due : Int) : Prop :=
  ∃ now delay, .scheduled id now delay ∈ past ∧ due = now.toInt + max delay.toInt 0

def LoopEvent.collected : LoopEvent Task → List Nat
  | .round _ ids => ids
  | _ => []

def LoopEvent.startedID : LoopEvent Task → Option Nat
  | .started id _ _ => some id
  | _ => none

def LoopEvent.queuedTask : LoopEvent Task → Option Task
  | .queued task => some task
  | _ => none

def LoopEvent.ranTask : LoopEvent Task → Option Task
  | .ran task => some task
  | _ => none

def collected (past : List (LoopEvent Task)) : List Nat := past.flatMap LoopEvent.collected

def startedIDs (past : List (LoopEvent Task)) : List Nat := past.filterMap LoopEvent.startedID

def queuedTasks (past : List (LoopEvent Task)) : List Task :=
  (past.filterMap LoopEvent.queuedTask).reverse

def ranTasks (past : List (LoopEvent Task)) : List Task :=
  (past.filterMap LoopEvent.ranTask).reverse

/-- A timer starts once, when it is due, with no microtask waiting, and after those before it in its round.
A round takes the timers that are due and that no round took before, in the order of their times and then
of their IDs. The microtask that runs is the next in the queue. Where `RunReady` returns, no microtask is
left and every timer that is due was taken by a round. -/
def InOrder (past : List (LoopEvent Task)) : LoopEvent Task → Prop
  | .started id now waiting => waiting = [] ∧ id ∉ startedIDs past ∧
      (∃ due, Due past id due ∧ due ≤ now.toInt) ∧
      ∃ time ids before after, .round time ids ∈ past ∧ ids = before ++ id :: after ∧
        ∀ other ∈ before, other ∈ startedIDs past
  | .round now ids =>
      (∀ id, id ∈ ids ↔ id ∉ collected past ∧ ∃ due, Due past id due ∧ due ≤ now.toInt) ∧
      ids.Pairwise fun first second => ∀ early late, Due past first early → Due past second late →
        early < late ∨ early = late ∧ first < second
  | .ran task => ∃ rest, queuedTasks past = ranTasks past ++ task :: rest
  | .returned now => queuedTasks past = ranTasks past ∧
      ∀ id due, Due past id due → due ≤ now.toInt → id ∈ collected past
  | _ => True

def AllInOrder : List (LoopEvent Task) → Prop
  | [] => True
  | event :: past => InOrder past event ∧ AllInOrder past

end LoopRun

def Frame.pending : Frame Task → Option (List (ScheduledTimer Task))
  | .batch ready | .settle _ ready => some ready
  | _ => none

namespace LoopRun

/-- Everything was in order; and where no round is in progress, every timer that a round took started. -/
def Orderly (run : LoopRun Task) : Prop :=
  AllInOrder run.past ∧ ((∀ frame ∈ run.stack, frame.pending = none) →
    ∀ id ∈ collected run.past, id ∈ startedIDs run.past)

def pending (stack : List (Frame Task)) : List (ScheduledTimer Task) :=
  stack.flatMap fun frame => frame.pending.getD []

/-- Code runs in the program or below `RunMicrotasks`. -/
def Nested (above below : Frame Task) : Prop := ∀ calls, above = .code calls → below = .microtasks

/-- What holds at every state of a run of timeouts and microtasks. -/
structure Keeps (run : LoopRun Task) : Prop where
  inOrder : AllInOrder run.past
  plain : ∀ calls, .code calls ∈ run.stack → ∀ call ∈ calls, call.Plain
  issued : ∀ id due, Due run.past id due → id ≤ run.loop.nextID
  unique : ∀ id due due', Due run.past id due → Due run.past id due' → due = due'
  keys : (run.loop.timers.map fun timer => timer.handle.id).Nodup
  table : ∀ timer ∈ run.loop.timers, ¬timer.Rearmed ∧ Due run.past timer.handle.id timer.due.toInt ∧
    timer.handle.id ∉ collected run.past
  complete : ∀ id due, Due run.past id due → id ∈ collected run.past ∨
    ∃ timer ∈ run.loop.timers, timer.handle.id = id
  known : ∀ id ∈ collected run.past, ∃ due, Due run.past id due
  settles : ∀ timer ready, .settle timer ready ∈ run.stack → ¬timer.Rearmed
  starts : ∀ timer ∈ pending run.stack, ¬timer.Rearmed ∧
    (∃ due, Due run.past timer.handle.id due ∧ due ≤ run.loop.now.toInt) ∧
    timer.handle.id ∉ startedIDs run.past
  once : ((pending run.stack).map fun timer => timer.handle.id).Nodup
  taken : ∀ id, id ∈ collected run.past ↔ id ∈ startedIDs run.past ∨
    ∃ timer ∈ pending run.stack, timer.handle.id = id
  rounds : ∀ frame ∈ run.stack, ∀ ready, frame.pending = some ready → ∃ time ids before,
    .round time ids ∈ run.past ∧ ids = before ++ ready.map (fun timer => timer.handle.id) ∧
      ∀ other ∈ before, other ∈ startedIDs run.past
  queue : queuedTasks run.past = ranTasks run.past ++ run.loop.microtasks
  nested : run.stack.IsChain Nested
  drained : ∀ frame stack, run.stack = frame :: stack → frame = .rounds ∨ frame.pending ≠ none →
    run.loop.microtasks = []

section Ready

variable {loop : EventLoop Task}

theorem less_iff (first second : ScheduledTimer Task) : EventLoop.less first second = true ↔
    first.due.toInt < second.due.toInt ∨
      first.due.toInt = second.due.toInt ∧ first.handle.id < second.handle.id := by
  unfold EventLoop.less
  by_cases heq : first.due = second.due
  · simp [heq]
  · have hne : first.due.toInt ≠ second.due.toInt := fun h => heq (Int64.toInt_inj.mp h)
    rw [if_neg heq, decide_eq_true_eq, Int64.lt_iff_toInt_lt]
    simp [hne]

theorem readyTimers_pairwise (hkeys : (loop.timers.map fun timer => timer.handle.id).Nodup) :
    loop.readyTimers.Pairwise fun first second => first.due.toInt < second.due.toInt ∨
      first.due.toInt = second.due.toInt ∧ first.handle.id < second.handle.id := by
  let notAfter : ScheduledTimer Task → ScheduledTimer Task → Prop :=
    fun first second => EventLoop.less second first = false
  have hnot : ∀ first second, notAfter first second ↔ ¬(second.due.toInt < first.due.toInt ∨
      second.due.toInt = first.due.toInt ∧ second.handle.id < first.handle.id) := by
    intro first second
    rw [← less_iff, Bool.not_eq_true]
  have : Std.Total notAfter := ⟨fun first second => by
    rw [hnot, hnot]
    omega⟩
  have : IsTrans (ScheduledTimer Task) notAfter := ⟨fun first second third => by
    rw [hnot, hnot, hnot]
    omega⟩
  have hsorted : loop.readyTimers.Pairwise notAfter := List.pairwise_insertionSort notAfter _
  have hnodup : (loop.readyTimers.map fun timer => timer.handle.id).Nodup := by
    have hall := (EventLoop.timers_perm loop).map fun timer => timer.handle.id
    rw [List.map_append] at hall
    exact (List.nodup_append.mp (hall.nodup_iff.mpr hkeys)).1
  have hdistinct : loop.readyTimers.Pairwise fun first second =>
      first.handle.id ≠ second.handle.id := List.pairwise_map.mp hnodup
  refine (hsorted.and hdistinct).imp ?_
  intro first second hboth
  have hle := (hnot first second).mp hboth.1
  have hne := hboth.2
  omega

end Ready

section Events

variable {past : List (LoopEvent Task)} {event : LoopEvent Task} {id : Nat} {due : Int}

theorem Due.cons (hdue : Due past id due) (event : LoopEvent Task) : Due (event :: past) id due := by
  obtain ⟨now, delay, hmem, heq⟩ := hdue
  exact ⟨now, delay, .tail _ hmem, heq⟩

theorem due_cons_iff (hevent : ∀ id now delay, event ≠ .scheduled id now delay) :
    Due (event :: past) id due ↔ Due past id due := by
  constructor
  · rintro ⟨now, delay, hmem, heq⟩
    rcases List.mem_cons.mp hmem with rfl | hmem
    · exact absurd rfl (hevent id now delay)
    · exact ⟨now, delay, hmem, heq⟩
  · exact fun hdue => hdue.cons event

theorem due_scheduled_iff {now delay : Int64} {other : Nat} :
    Due (.scheduled other now delay :: past) id due ↔
      (id = other ∧ due = now.toInt + max delay.toInt 0) ∨ Due past id due := by
  constructor
  · rintro ⟨now', delay', hmem, heq⟩
    rcases List.mem_cons.mp hmem with hsame | hmem
    · cases hsame
      exact .inl ⟨rfl, heq⟩
    · exact .inr ⟨now', delay', hmem, heq⟩
  · rintro (⟨rfl, heq⟩ | hdue)
    · exact ⟨now, delay, List.mem_cons_self, heq⟩
    · exact hdue.cons _

end Events

/-! ## Steps -/

section Step

variable {behave : List (LoopEvent Task) → Task → List (LoopCall Task)} {run later : LoopRun Task}
  {loop : EventLoop Task} {stack : List (Frame Task)} {past : List (LoopEvent Task)}
  {frame : Frame Task} {event : LoopEvent Task} {calls : List (LoopCall Task)}

theorem toInt_clamped (delay : Int64) : (EventLoop.clamped delay).toInt = max delay.toInt 0 := by
  unfold EventLoop.clamped
  have hzero : (0 : Int64).toInt = 0 := rfl
  split
  · rename_i hnegative
    rw [Int64.lt_iff_toInt_lt] at hnegative
    omega
  · rename_i hnonneg
    rw [Int64.lt_iff_toInt_lt] at hnonneg
    omega

theorem toInt_add_of_fits {now delay : Int64} (hnonneg : 0 ≤ delay.toInt)
    (hfits : now.toInt + delay.toInt < 2 ^ 63) : (now + delay).toInt = now.toInt + delay.toInt := by
  have hbounds := Word.toInt_bounds now
  rw [Int64.toInt_add]
  exact Word.bmod_eq_self (by omega) hfits

theorem Keeps.pop (hkeeps : Keeps ⟨loop, frame :: stack, past⟩)
    (hpending : frame.pending.getD [] = [])
    (hdrained : loop.microtasks = [] ∨ ∃ calls, frame = .code calls) :
    Keeps ⟨loop, stack, past⟩ where
  inOrder := hkeeps.inOrder
  plain calls hmem := hkeeps.plain calls (.tail _ hmem)
  issued := hkeeps.issued
  unique := hkeeps.unique
  keys := hkeeps.keys
  table := hkeeps.table
  complete := hkeeps.complete
  known := hkeeps.known
  settles timer ready hmem := hkeeps.settles timer ready (.tail _ hmem)
  starts timer hmem := hkeeps.starts timer (List.mem_append_right _ hmem)
  once := by
    have honce := hkeeps.once
    rwa [pending, List.flatMap_cons, hpending] at honce
  taken := by
    have htaken := hkeeps.taken
    rwa [pending, List.flatMap_cons, hpending] at htaken
  rounds other hmem := hkeeps.rounds other (.tail _ hmem)
  queue := hkeeps.queue
  nested := hkeeps.nested.tail
  drained other rest hstack hother := by
    rcases hdrained with hnone | ⟨calls, rfl⟩
    · exact hnone
    · rw [show stack = other :: rest from hstack] at hkeeps
      have hbelow : other = .microtasks :=
        (List.isChain_cons_cons.mp hkeeps.nested).1 calls rfl
      rw [hbelow] at hother
      rcases hother with heq | hne
      · cases heq
      · exact absurd rfl hne

theorem Keeps.push (hkeeps : Keeps ⟨loop, stack, past⟩) (hpending : frame.pending = none)
    (hframe : frame ≠ .rounds ∨ loop.microtasks = [])
    (hplain : ∀ calls, frame = .code calls → ∀ call ∈ calls, call.Plain)
    (hnested : ∀ below rest, stack = below :: rest → Nested frame below) :
    Keeps ⟨loop, frame :: stack, past⟩ where
  inOrder := hkeeps.inOrder
  plain calls hmem := by
    rcases List.mem_cons.mp hmem with heq | hmem
    · exact hplain calls heq.symm
    · exact hkeeps.plain calls hmem
  issued := hkeeps.issued
  unique := hkeeps.unique
  keys := hkeeps.keys
  table := hkeeps.table
  complete := hkeeps.complete
  known := hkeeps.known
  settles timer ready hmem := by
    rcases List.mem_cons.mp hmem with rfl | hmem
    · cases hpending
    · exact hkeeps.settles timer ready hmem
  starts timer hmem := by
    rw [pending, List.flatMap_cons, hpending] at hmem
    exact hkeeps.starts timer hmem
  once := by
    rw [pending, List.flatMap_cons, hpending]
    exact hkeeps.once
  taken := by
    rw [pending, List.flatMap_cons, hpending]
    exact hkeeps.taken
  rounds other hmem ready hready := by
    rcases List.mem_cons.mp hmem with rfl | hmem
    · rw [hpending] at hready
      cases hready
    · exact hkeeps.rounds other hmem ready hready
  queue := hkeeps.queue
  nested := by
    cases stack with
    | nil => exact List.isChain_singleton _
    | cons below rest => exact List.isChain_cons_cons.mpr ⟨hnested below rest rfl, hkeeps.nested⟩
  drained other rest hstack hother := by
    obtain ⟨rfl, rfl⟩ := List.cons.inj hstack
    rcases hother with rfl | hne
    · exact hframe.resolve_left fun hne => hne rfl
    · exact absurd hpending hne

theorem Keeps.skip {call : LoopCall Task} {calls : List (LoopCall Task)}
    (hkeeps : Keeps ⟨loop, .code (call :: calls) :: stack, past⟩) :
    Keeps ⟨loop, .code calls :: stack, past⟩ := by
  have hpopped := hkeeps.pop rfl (.inr ⟨_, rfl⟩)
  refine hpopped.push rfl (.inl nofun) ?_ ?_
  · rintro _ ⟨⟩ other hmem
    exact hkeeps.plain _ List.mem_cons_self other (.tail _ hmem)
  · rintro below rest rfl _ _
    exact (List.isChain_cons_cons.mp hkeeps.nested).1 _ rfl

theorem Keeps.change (hkeeps : Keeps ⟨loop, stack, past⟩) (microtasks : List Task)
    (hevent : InOrder past event) (hcollected : LoopEvent.collected event = [])
    (hstarted : LoopEvent.startedID event = none)
    (hscheduled : ∀ id now delay, event ≠ .scheduled id now delay)
    (hqueue : queuedTasks (event :: past) = ranTasks (event :: past) ++ microtasks)
    (hdrained : ∀ frame rest, stack = frame :: rest → frame = .rounds ∨ frame.pending ≠ none →
      microtasks = []) :
    Keeps ⟨{ loop with microtasks := microtasks }, stack, event :: past⟩ := by
  have hdue : Due (event :: past) = Due past := by
    funext id due
    exact propext (due_cons_iff hscheduled)
  have hcollecteds : collected (event :: past) = collected past := by
    rw [collected, List.flatMap_cons, hcollected, List.nil_append]
    rfl
  have hstarteds : startedIDs (event :: past) = startedIDs past := by
    rw [startedIDs, List.filterMap_cons_none hstarted]
    rfl
  refine ⟨⟨hevent, hkeeps.inOrder⟩, hkeeps.plain, ?_, ?_, hkeeps.keys, ?_, ?_, ?_, hkeeps.settles,
    ?_, hkeeps.once, ?_, ?_, hqueue, hkeeps.nested, hdrained⟩
  · rw [hdue]
    exact hkeeps.issued
  · rw [hdue]
    exact hkeeps.unique
  · rw [hdue, hcollecteds]
    exact hkeeps.table
  · rw [hdue, hcollecteds]
    exact hkeeps.complete
  · rw [hdue, hcollecteds]
    exact hkeeps.known
  · rw [hdue, hstarteds]
    exact hkeeps.starts
  · rw [hcollecteds, hstarteds]
    exact hkeeps.taken
  · intro frame hmem ready hready
    obtain ⟨time, ids, before, hround, hids, hbefore⟩ := hkeeps.rounds frame hmem ready hready
    rw [hstarteds]
    exact ⟨time, ids, before, .tail _ hround, hids, hbefore⟩

theorem Keeps.cons (hkeeps : Keeps ⟨loop, stack, past⟩) (hevent : InOrder past event)
    (hcollected : LoopEvent.collected event = []) (hstarted : LoopEvent.startedID event = none)
    (hqueued : LoopEvent.queuedTask event = none) (hran : LoopEvent.ranTask event = none)
    (hscheduled : ∀ id now delay, event ≠ .scheduled id now delay) :
    Keeps ⟨loop, stack, event :: past⟩ := by
  refine hkeeps.change loop.microtasks hevent hcollected hstarted hscheduled ?_ hkeeps.drained
  rw [queuedTasks, ranTasks, List.filterMap_cons_none hqueued, List.filterMap_cons_none hran]
  exact hkeeps.queue

theorem Keeps.schedule (hkeeps : Keeps ⟨loop, stack, past⟩) (task : Option Task) (delay : Int64)
    (hfits : task ≠ none → loop.now.toInt + max delay.toInt 0 < 2 ^ 63) :
    Keeps ⟨(loop.scheduleTimer task delay false).1, stack,
      (task.toList.map fun _ => .scheduled (loop.nextID + 1) loop.now delay) ++ past⟩ := by
  cases task with
  | none => exact hkeeps
  | some task =>
      have hclamped := toInt_clamped delay
      have hexact : (loop.now + EventLoop.clamped delay).toInt =
          loop.now.toInt + max delay.toInt 0 := by
        rw [toInt_add_of_fits (by omega) (by rw [hclamped]; exact hfits nofun), hclamped]
      have hnew : ∀ due, ¬Due past (loop.nextID + 1) due := fun due hdue =>
        absurd (hkeeps.issued _ due hdue) (Nat.not_succ_le_self _)
      refine ⟨⟨trivial, hkeeps.inOrder⟩, hkeeps.plain, ?_, ?_, ?_, ?_, ?_, ?_, hkeeps.settles, ?_,
        hkeeps.once, hkeeps.taken, ?_, hkeeps.queue, hkeeps.nested, hkeeps.drained⟩
      · intro id due hdue
        change id ≤ loop.nextID + 1
        rcases due_scheduled_iff.mp hdue with ⟨rfl, _⟩ | hdue
        · exact Nat.le_refl _
        · exact Nat.le_succ_of_le (hkeeps.issued id due hdue)
      · intro id due due' hdue hdue'
        rcases due_scheduled_iff.mp hdue with ⟨rfl, rfl⟩ | hdue
        · rcases due_scheduled_iff.mp hdue' with ⟨_, rfl⟩ | hdue'
          · rfl
          · exact absurd hdue' (hnew due')
        · rcases due_scheduled_iff.mp hdue' with ⟨rfl, _⟩ | hdue'
          · exact absurd hdue (hnew due)
          · exact hkeeps.unique id due due' hdue hdue'
      · change (List.map _ (_ :: loop.timers)).Nodup
        refine List.nodup_cons.mpr ⟨fun hmem => ?_, hkeeps.keys⟩
        obtain ⟨timer, htimer, heq⟩ := List.mem_map.mp hmem
        have hdue := (hkeeps.table timer htimer).2.1
        rw [show timer.handle.id = loop.nextID + 1 from heq] at hdue
        exact hnew _ hdue
      · intro timer hmem
        rcases List.mem_cons.mp hmem with rfl | hmem
        · refine ⟨nofun, ⟨loop.now, delay, List.mem_cons_self, hexact⟩, fun hcollected => ?_⟩
          obtain ⟨due, hdue⟩ := hkeeps.known _ hcollected
          exact hnew due hdue
        · obtain ⟨hrearmed, hdue, hnot⟩ := hkeeps.table timer hmem
          exact ⟨hrearmed, hdue.cons _, hnot⟩
      · intro id due hdue
        rcases due_scheduled_iff.mp hdue with ⟨rfl, _⟩ | hdue
        · exact .inr ⟨_, List.mem_cons_self, rfl⟩
        · refine (hkeeps.complete id due hdue).imp_right ?_
          rintro ⟨timer, hmem, heq⟩
          exact ⟨timer, .tail _ hmem, heq⟩
      · intro id hmem
        obtain ⟨due, hdue⟩ := hkeeps.known id hmem
        exact ⟨due, hdue.cons _⟩
      · intro timer hmem
        obtain ⟨hrearmed, ⟨due, hdue, hle⟩, hnot⟩ := hkeeps.starts timer hmem
        exact ⟨hrearmed, ⟨due, hdue.cons _, hle⟩, hnot⟩
      · intro frame hmem ready hready
        obtain ⟨time, ids, before, hround, hids, hbefore⟩ := hkeeps.rounds frame hmem ready hready
        exact ⟨time, ids, before, .tail _ hround, hids, hbefore⟩

theorem Keeps.enqueue (hkeeps : Keeps ⟨loop, .code calls :: stack, past⟩) (task : Option Task) :
    Keeps ⟨loop.queueMicrotask task, .code calls :: stack, task.toList.map .queued ++ past⟩ := by
  cases task with
  | none => exact hkeeps
  | some task =>
      refine hkeeps.change (loop.microtasks ++ [task]) trivial rfl rfl nofun ?_ ?_
      · have hqueue := hkeeps.queue
        change (task :: past.filterMap LoopEvent.queuedTask).reverse =
          ranTasks past ++ (loop.microtasks ++ [task])
        rw [List.reverse_cons, ← List.append_assoc]
        exact congrArg (· ++ [task]) hqueue
      · intro frame rest hstack hframe
        obtain ⟨rfl, rfl⟩ := List.cons.inj hstack
        rcases hframe with heq | hne
        · cases heq
        · exact absurd rfl hne

theorem Keeps.elapse (hkeeps : Keeps ⟨loop, stack, past⟩) (delta : Int64)
    (hfits : loop.now.toInt + max delta.toInt 0 < 2 ^ 63) :
    Keeps ⟨loop.pass delta, stack, .advanced loop.now delta :: past⟩ := by
  have hnow : loop.now.toInt ≤ (loop.pass delta).now.toInt := by
    unfold EventLoop.pass
    split
    · rename_i hpositive
      rw [Int64.lt_iff_toInt_lt] at hpositive
      have hdelta : 0 < delta.toInt := hpositive
      change loop.now.toInt ≤ (loop.now + delta).toInt
      rw [toInt_add_of_fits (by omega) (by omega)]
      omega
    · exact Int.le_refl _
  have hevent := @Keeps.cons _ _ _ _ (.advanced loop.now delta) hkeeps trivial rfl rfl rfl rfl nofun
  rw [EventLoop.pass_eq]
  refine ⟨hevent.inOrder, hevent.plain, hevent.issued, hevent.unique, hevent.keys, hevent.table,
    hevent.complete, hevent.known, hevent.settles, ?_, hevent.once, hevent.taken, hevent.rounds,
    hevent.queue, hevent.nested, hevent.drained⟩
  intro timer hmem
  obtain ⟨hrearmed, ⟨due, hdue, hle⟩, hnot⟩ := hevent.starts timer hmem
  exact ⟨hrearmed, ⟨due, hdue, Int.le_trans hle hnow⟩, hnot⟩

theorem Keeps.round (hkeeps : Keeps ⟨loop, .rounds :: stack, past⟩) :
    Keeps ⟨loop.waiting, .batch loop.readyTimers :: .rounds :: stack,
      .round loop.now (loop.readyTimers.map fun timer => timer.handle.id) :: past⟩ := by
  set ids := loop.readyTimers.map fun timer => timer.handle.id with hids
  have hdue : Due (.round loop.now ids :: past) = Due past := by
    funext id due
    exact propext (due_cons_iff fun _ _ _ heq => by cases heq)
  have hready : ∀ id, id ∈ ids ↔
      id ∉ collected past ∧ ∃ due, Due past id due ∧ due ≤ loop.now.toInt := by
    intro id
    constructor
    · intro hmem
      obtain ⟨timer, htimer, rfl⟩ := List.mem_map.mp hmem
      obtain ⟨hthere, hle⟩ := EventLoop.mem_readyTimers.mp htimer
      obtain ⟨_, hscheduled, hnot⟩ := hkeeps.table timer hthere
      exact ⟨hnot, _, hscheduled, Int64.le_iff_toInt_le.mp hle⟩
    · rintro ⟨hnot, due, hscheduled, hle⟩
      obtain ⟨timer, hthere, rfl⟩ := (hkeeps.complete id due hscheduled).resolve_left hnot
      have heq := hkeeps.unique _ _ _ hscheduled (hkeeps.table timer hthere).2.1
      refine List.mem_map_of_mem (EventLoop.mem_readyTimers.mpr ⟨hthere, ?_⟩)
      rw [Int64.le_iff_toInt_le, ← heq]
      exact hle
  have hnodup : (loop.readyTimers ++ loop.waiting.timers).map (fun timer => timer.handle.id)
      |>.Nodup := (((EventLoop.timers_perm _).map _).nodup_iff).mpr hkeeps.keys
  rw [List.map_append, List.nodup_append] at hnodup
  have hcollected : ∀ id, id ∈ collected (.round loop.now ids :: past) ↔
      id ∈ ids ∨ id ∈ collected past := fun id => List.mem_append
  have hsorted : ids.Pairwise fun first second => ∀ early late, Due past first early →
      Due past second late → early < late ∨ early = late ∧ first < second := by
    refine List.pairwise_map.mpr ((readyTimers_pairwise hkeeps.keys).imp_of_mem ?_)
    intro first second hfirst hsecond hless early late hearly hlate
    have hfirst' := (hkeeps.table first (EventLoop.mem_readyTimers.mp hfirst).1).2.1
    have hsecond' := (hkeeps.table second (EventLoop.mem_readyTimers.mp hsecond).1).2.1
    rw [hkeeps.unique _ _ _ hearly hfirst', hkeeps.unique _ _ _ hlate hsecond']
    exact hless
  refine ⟨⟨⟨hready, hsorted⟩, hkeeps.inOrder⟩, ?_, ?_, ?_, hnodup.2.1, ?_, ?_, ?_, ?_, ?_, ?_, ?_,
    ?_, ?_, ?_, ?_⟩
  · intro calls hmem
    rcases List.mem_cons.mp hmem with heq | hmem
    · cases heq
    · exact hkeeps.plain calls hmem
  · rw [show Due _ = _ from hdue]
    exact hkeeps.issued
  · rw [show Due _ = _ from hdue]
    exact hkeeps.unique
  · intro timer hmem
    obtain ⟨hrearmed, hscheduled, hnot⟩ := hkeeps.table timer (EventLoop.mem_waiting.mp hmem).1
    refine ⟨hrearmed, hscheduled.cons _, fun hin => ?_⟩
    rcases (hcollected _).mp hin with hin | hin
    · exact hnodup.2.2 _ hin _ (List.mem_map_of_mem hmem) rfl
    · exact hnot hin
  · intro id due hscheduled
    rw [show Due _ = _ from hdue] at hscheduled
    rcases hkeeps.complete id due hscheduled with hin | ⟨timer, hmem, rfl⟩
    · exact .inl ((hcollected id).mpr (.inr hin))
    · by_cases hle : timer.due ≤ loop.now
      · exact .inl ((hcollected _).mpr (.inl
          (List.mem_map_of_mem (EventLoop.mem_readyTimers.mpr ⟨hmem, hle⟩))))
      · exact .inr ⟨timer, EventLoop.mem_waiting.mpr ⟨hmem, hle⟩, rfl⟩
  · intro id hmem
    rw [show Due _ = _ from hdue]
    rcases (hcollected id).mp hmem with hin | hin
    · obtain ⟨_, due, hscheduled, _⟩ := (hready id).mp hin
      exact ⟨due, hscheduled⟩
    · exact hkeeps.known id hin
  · intro timer ready hmem
    rcases List.mem_cons.mp hmem with heq | hmem
    · cases heq
    · exact hkeeps.settles timer ready hmem
  · intro timer hmem
    rcases List.mem_append.mp hmem with hready' | hmem
    · obtain ⟨hthere, hle⟩ := EventLoop.mem_readyTimers.mp hready'
      obtain ⟨hrearmed, hscheduled, hnot⟩ := hkeeps.table timer hthere
      refine ⟨hrearmed, ⟨_, hscheduled.cons _, Int64.le_iff_toInt_le.mp hle⟩, fun hstarted => ?_⟩
      exact hnot ((hkeeps.taken _).mpr (.inl hstarted))
    · obtain ⟨hrearmed, ⟨due, hscheduled, hle⟩, hnot⟩ := hkeeps.starts timer hmem
      exact ⟨hrearmed, ⟨due, hscheduled.cons _, hle⟩, hnot⟩
  · change ((loop.readyTimers ++ pending (.rounds :: stack)).map _).Nodup
    rw [List.map_append]
    refine List.nodup_append.mpr ⟨hnodup.1, hkeeps.once, ?_⟩
    rintro id hid _ hother rfl
    obtain ⟨timer, htimer, rfl⟩ := List.mem_map.mp hother
    exact ((hready _).mp hid).1 ((hkeeps.taken _).mpr (.inr ⟨timer, htimer, rfl⟩))
  · intro id
    rw [hcollected, hkeeps.taken]
    change _ ↔ id ∈ startedIDs past ∨ ∃ timer ∈ loop.readyTimers ++ pending (.rounds :: stack), _
    simp only [List.mem_append, or_and_right, exists_or, hids, List.mem_map]
    exact or_left_comm
  · intro frame hmem ready hframe
    rcases List.mem_cons.mp hmem with rfl | hmem
    · cases hframe
      exact ⟨loop.now, ids, [], List.mem_cons_self, rfl,
        fun other hother => absurd hother List.not_mem_nil⟩
    · obtain ⟨time, ids', before, hround, hids', hbefore⟩ := hkeeps.rounds frame hmem ready hframe
      exact ⟨time, ids', before, .tail _ hround, hids', hbefore⟩
  · exact hkeeps.queue
  · refine List.isChain_cons_cons.mpr ⟨fun calls heq => ?_, hkeeps.nested⟩
    cases heq
  · intro frame rest _ _
    exact hkeeps.drained .rounds stack rfl (.inl rfl)

theorem Keeps.start {timer : ScheduledTimer Task} {ready : List (ScheduledTimer Task)}
    (hkeeps : Keeps ⟨loop, .batch (timer :: ready) :: stack, past⟩) :
    Keeps ⟨loop, .settle timer ready :: stack,
      .started timer.handle.id loop.now loop.microtasks :: past⟩ := by
  set event : LoopEvent Task := .started timer.handle.id loop.now loop.microtasks with hevent
  have hdue : Due (event :: past) = Due past := by
    funext id due
    exact propext (due_cons_iff nofun)
  have hstarted : ∀ id, id ∈ startedIDs (event :: past) ↔
      id = timer.handle.id ∨ id ∈ startedIDs past := fun id => List.mem_cons
  have hpending : pending (.batch (timer :: ready) :: stack) =
      timer :: pending (.settle timer ready :: stack) := rfl
  obtain ⟨hrearmed, hscheduled, hnot⟩ := hkeeps.starts timer List.mem_cons_self
  have honce := hkeeps.once
  rw [hpending, List.map_cons, List.nodup_cons] at honce
  obtain ⟨time, ids, before, hround, hids, hbefore⟩ :=
    hkeeps.rounds _ List.mem_cons_self (timer :: ready) rfl
  have hright : InOrder past event :=
    ⟨hkeeps.drained _ stack rfl (.inr nofun), hnot, hscheduled, time, ids, before, _, hround, hids,
      hbefore⟩
  refine ⟨⟨hright, hkeeps.inOrder⟩, ?_, ?_, ?_, hkeeps.keys, ?_, ?_, ?_, ?_, ?_, honce.2, ?_, ?_,
    hkeeps.queue, ?_, ?_⟩
  · intro calls hmem
    exact hkeeps.plain calls (.tail _ ((List.mem_cons.mp hmem).resolve_left nofun))
  · rw [show Due _ = _ from hdue]
    exact hkeeps.issued
  · rw [show Due _ = _ from hdue]
    exact hkeeps.unique
  · rw [show Due _ = _ from hdue]
    exact hkeeps.table
  · rw [show Due _ = _ from hdue]
    exact hkeeps.complete
  · rw [show Due _ = _ from hdue]
    exact hkeeps.known
  · intro other ready' hmem
    rcases List.mem_cons.mp hmem with heq | hmem
    · cases heq
      exact hrearmed
    · exact hkeeps.settles other ready' (.tail _ hmem)
  · intro other hmem
    obtain ⟨hrearmed', hscheduled', hnot'⟩ := hkeeps.starts other (.tail _ hmem)
    rw [show Due _ = _ from hdue]
    refine ⟨hrearmed', hscheduled', fun hin => ?_⟩
    rcases (hstarted _).mp hin with heq | hin
    · exact honce.1 (heq ▸ List.mem_map_of_mem hmem)
    · exact hnot' hin
  · intro id
    have htaken := hkeeps.taken id
    rw [hpending] at htaken
    rw [hstarted]
    change id ∈ collected past ↔ _
    rw [htaken]
    simp only [List.mem_cons, exists_eq_or_imp, eq_comm (a := timer.handle.id)]
    tauto
  · intro frame hmem ready' hframe
    rcases List.mem_cons.mp hmem with rfl | hmem
    · cases hframe
      refine ⟨time, ids, before ++ [timer.handle.id], .tail _ hround, ?_, ?_⟩
      · rw [hids, List.append_assoc]
        rfl
      · intro other hother
        rw [hstarted]
        rcases List.mem_append.mp hother with hother | hother
        · exact .inr (hbefore other hother)
        · exact .inl (List.mem_singleton.mp hother)
    · obtain ⟨time', ids', before', hround', hids', hbefore'⟩ :=
        hkeeps.rounds frame (.tail _ hmem) ready' hframe
      refine ⟨time', ids', before', .tail _ hround', hids', fun other hother => ?_⟩
      exact (hstarted other).mpr (.inr (hbefore' other hother))
  · have hnested := hkeeps.nested
    cases stack with
    | nil => exact List.isChain_singleton _
    | cons below rest =>
        exact List.isChain_cons_cons.mpr ⟨nofun, (List.isChain_cons_cons.mp hnested).2⟩
  · intro frame rest _ _
    exact hkeeps.drained _ stack rfl (.inr nofun)

theorem Keeps.advance (hkeeps : Keeps ⟨loop, stack, past⟩) :
    Keeps ⟨loop, .microtasks :: .rounds :: stack, past⟩ where
  inOrder := hkeeps.inOrder
  plain calls hmem := by
    have htail := (List.mem_cons.mp hmem).resolve_left nofun
    exact hkeeps.plain calls ((List.mem_cons.mp htail).resolve_left nofun)
  issued := hkeeps.issued
  unique := hkeeps.unique
  keys := hkeeps.keys
  table := hkeeps.table
  complete := hkeeps.complete
  known := hkeeps.known
  settles timer ready hmem := by
    have htail := (List.mem_cons.mp hmem).resolve_left nofun
    exact hkeeps.settles timer ready ((List.mem_cons.mp htail).resolve_left nofun)
  starts := hkeeps.starts
  once := hkeeps.once
  taken := hkeeps.taken
  rounds frame hmem ready hready := by
    rcases List.mem_cons.mp hmem with rfl | hmem
    · cases hready
    rcases List.mem_cons.mp hmem with rfl | hmem
    · cases hready
    exact hkeeps.rounds frame hmem ready hready
  queue := hkeeps.queue
  nested := by
    refine List.isChain_cons_cons.mpr ⟨nofun, ?_⟩
    have hnested := hkeeps.nested
    cases stack with
    | nil => exact List.isChain_singleton _
    | cons below rest => exact List.isChain_cons_cons.mpr ⟨nofun, hnested⟩
  drained frame rest hstack hframe := by
    obtain ⟨rfl, rfl⟩ := List.cons.inj hstack
    rcases hframe with heq | hne
    · cases heq
    · exact absurd rfl hne

theorem Keeps.settled {timer : ScheduledTimer Task} {ready : List (ScheduledTimer Task)}
    (hkeeps : Keeps ⟨loop, .settle timer ready :: stack, past⟩) :
    Keeps ⟨loop, .batch ready :: stack, past⟩ where
  inOrder := hkeeps.inOrder
  plain calls hmem := hkeeps.plain calls (.tail _ ((List.mem_cons.mp hmem).resolve_left nofun))
  issued := hkeeps.issued
  unique := hkeeps.unique
  keys := hkeeps.keys
  table := hkeeps.table
  complete := hkeeps.complete
  known := hkeeps.known
  settles other ready' hmem :=
    hkeeps.settles other ready' (.tail _ ((List.mem_cons.mp hmem).resolve_left nofun))
  starts := hkeeps.starts
  once := hkeeps.once
  taken := hkeeps.taken
  rounds frame hmem ready' hready := by
    rcases List.mem_cons.mp hmem with rfl | hmem
    · exact hkeeps.rounds _ List.mem_cons_self ready' hready
    · exact hkeeps.rounds frame (.tail _ hmem) ready' hready
  queue := hkeeps.queue
  nested := by
    have hnested := hkeeps.nested
    cases stack with
    | nil => exact List.isChain_singleton _
    | cons below rest =>
        exact List.isChain_cons_cons.mpr ⟨nofun, (List.isChain_cons_cons.mp hnested).2⟩
  drained _ _ _ _ := hkeeps.drained _ stack rfl (.inr nofun)

theorem Keeps.quiet (hkeeps : Keeps ⟨loop, .rounds :: stack, past⟩) (hnone : loop.readyTimers = []) :
    Keeps ⟨loop, stack, .returned loop.now :: past⟩ := by
  have hqueue := hkeeps.drained .rounds stack rfl (.inl rfl)
  have hright : InOrder past (.returned loop.now) := by
    refine ⟨?_, fun id due hdue hle => ?_⟩
    · have hall := hkeeps.queue
      rwa [show loop.microtasks = [] from hqueue, List.append_nil] at hall
    · refine (hkeeps.complete id due hdue).resolve_right ?_
      rintro ⟨timer, hmem, rfl⟩
      refine EventLoop.readyTimers_eq_nil_iff.mp hnone timer hmem ?_
      rw [Int64.le_iff_toInt_le, ← hkeeps.unique _ _ _ hdue (hkeeps.table timer hmem).2.1]
      exact hle
  exact (hkeeps.cons hright rfl rfl rfl rfl nofun).pop rfl (.inl hqueue)

theorem Keeps.step (hkeeps : run.Keeps) (hstep : Step behave run later)
    (hplain : ∀ past task, ∀ call ∈ behave past task, call.Plain)
    (hfits : ∀ event ∈ later.past, event.Fits) : later.Keeps := by
  cases hstep with
  | done loop stack past => exact hkeeps.pop rfl (.inr ⟨_, rfl⟩)
  | call run call calls stack hstack =>
      obtain ⟨loop, stack', past⟩ := run
      obtain rfl : stack' = .code (call :: calls) :: stack := hstack
      have hcall := hkeeps.plain _ List.mem_cons_self call List.mem_cons_self
      cases call with
      | setTimeout task delay =>
          refine hkeeps.skip.schedule task delay fun hsome => ?_
          obtain ⟨task, rfl⟩ := Option.ne_none_iff_exists'.mp hsome
          exact hfits _ List.mem_cons_self
      | setInterval task delay => exact absurd hcall id
      | clearTimer id => exact absurd hcall (fun hfalse => hfalse)
      | queueMicrotask task => exact hkeeps.skip.enqueue task
      | advance delta => exact (hkeeps.skip.elapse delta (hfits _ List.mem_cons_self)).advance
  | drained loop stack past hnone => exact hkeeps.pop rfl (.inl hnone)
  | microtask loop stack past task rest hsome =>
      have hqueue := hkeeps.queue
      dsimp only at hqueue
      rw [hsome] at hqueue
      have hran := @Keeps.change _ _ _ _ (.ran task) hkeeps rest ⟨rest, hqueue⟩ rfl rfl nofun
        (by
          change queuedTasks past = (task :: past.filterMap LoopEvent.ranTask).reverse ++ rest
          rw [hqueue, List.reverse_cons, List.append_assoc]
          rfl)
        (by
          intro frame stack' hstack hframe
          obtain ⟨rfl, rfl⟩ := List.cons.inj hstack
          rcases hframe with heq | hne
          · cases heq
          · exact absurd rfl hne)
      refine hran.push rfl (.inl nofun) ?_ ?_
      · rintro _ ⟨⟩
        exact hplain past task
      · rintro below stack' hstack _ _
        exact (List.cons.inj hstack).1.symm
  | quiet loop stack past hnone => exact hkeeps.quiet hnone
  | round loop stack past hsome => exact hkeeps.round
  | roundDone loop stack past => exact hkeeps.pop rfl (.inl (hkeeps.drained _ stack rfl (.inr nofun)))
  | start loop stack past timer ready =>
      have hdraining : Keeps ⟨loop, .microtasks :: .settle timer ready :: stack,
          .started timer.handle.id loop.now loop.microtasks :: past⟩ :=
        hkeeps.start.push rfl (.inl nofun) nofun fun _ _ _ => nofun
      refine hdraining.push rfl (.inl nofun) ?_ ?_
      · rintro _ ⟨⟩
        exact hplain past timer.task
      · rintro below stack' hstack _ _
        exact (List.cons.inj hstack).1.symm
  | settled loop stack past timer ready =>
      rw [rearm_of_not_rearmed (hkeeps.settles timer ready List.mem_cons_self)]
      exact hkeeps.settled

end Step

theorem keeps_begin {calls : List (LoopCall Task)} (hcalls : ∀ call ∈ calls, call.Plain) :
    (begin calls).Keeps where
  inOrder := trivial
  plain calls' hmem := by
    cases List.mem_singleton.mp hmem
    exact hcalls
  issued := by
    rintro id due ⟨now, delay, hmem, _⟩
    exact absurd hmem List.not_mem_nil
  unique := by
    rintro id due due' ⟨now, delay, hmem, _⟩
    exact absurd hmem List.not_mem_nil
  keys := List.nodup_nil
  table := nofun
  complete := by
    rintro id due ⟨now, delay, hmem, _⟩
    exact absurd hmem List.not_mem_nil
  known := nofun
  settles timer ready hmem := by cases List.mem_singleton.mp hmem
  starts := nofun
  once := List.nodup_nil
  taken id := by
    refine iff_of_false List.not_mem_nil ?_
    rintro (hstarted | ⟨timer, hmem, _⟩)
    · exact List.not_mem_nil hstarted
    · exact List.not_mem_nil hmem
  rounds frame hmem ready hready := by
    rw [List.mem_singleton.mp hmem] at hready
    cases hready
  queue := rfl
  nested := List.isChain_singleton _
  drained _ _ _ _ := rfl

/-- In every run of timeouts, microtasks and advances whose times fit a duration, everything is in
order. -/
theorem orderly_of_reaches (behave : List (LoopEvent Task) → Task → List (LoopCall Task))
    (hbehave : ∀ past task, ∀ call ∈ behave past task, call.Plain) (calls : List (LoopCall Task))
    (hcalls : ∀ call ∈ calls, call.Plain) (run : LoopRun Task)
    (hreaches : Reaches behave (begin calls) run) (hfits : ∀ event ∈ run.past, event.Fits) :
    run.Orderly := by
  have hkeeps : run.Keeps := by
    refine hreaches.invariant (fun run => (∀ event ∈ run.past, event.Fits) → run.Keeps)
      (fun _ => keeps_begin hcalls) ?_ hfits
    intro run later hstep ih hfits
    exact (ih fun event hmem => hfits event (past_of_step hstep hmem)).step hstep hbehave hfits
  refine ⟨hkeeps.inOrder, fun hidle id hmem => ?_⟩
  refine ((hkeeps.taken id).mp hmem).resolve_right ?_
  rintro ⟨timer, htimer, _⟩
  obtain ⟨frame, hframe, hpending⟩ := List.mem_flatMap.mp htimer
  rw [hidle frame hframe] at hpending
  exact absurd hpending List.not_mem_nil

/-- Two timeouts in the order of their times, of which the second queues a microtask and schedules a third
timeout for the next round. -/
theorem orderly_of_two_timeouts : ∃ run : LoopRun Nat,
    Reaches (fun _ task => if task = 0 then [.queueMicrotask (some 9), .setTimeout (some 5) 0] else [])
      (begin [.setTimeout (some 0) 5, .setTimeout (some 1) 3, .queueMicrotask (some 7), .advance 5])
      run ∧
    run.past.take 5 = [.returned 5, .started 3 5 [], .round 5 [3], .ran 9, .scheduled 3 5 0] ∧
      run.Orderly := by
  let run : LoopRun Nat := ⟨⟨5, 3, [], []⟩, [],
    [.returned 5, .started 3 5 [], .round 5 [3], .ran 9, .scheduled 3 5 0, .queued 9, .started 1 5 [],
      .started 2 5 [], .round 5 [2, 1], .ran 7, .advanced 0 5, .queued 7, .scheduled 2 0 3,
      .scheduled 1 0 5]⟩
  have hreaches : Reaches
      (fun _ task => if task = 0 then [.queueMicrotask (some 9), .setTimeout (some 5) 0] else [])
      (begin [.setTimeout (some 0) 5, .setTimeout (some 1) 3, .queueMicrotask (some 7), .advance 5])
      run :=
    @reaches_of_steps _ _ 29 _ _ (by decide)
  refine ⟨run, hreaches, rfl, orderly_of_reaches _ ?_ _ ?_ run hreaches ?_⟩
  · intro past task call hmem
    split at hmem
    · rcases List.mem_pair.mp hmem with rfl | rfl <;> exact trivial
    · exact absurd hmem List.not_mem_nil
  · simp [LoopCall.Plain]
  · simp [run, LoopEvent.Fits]

/-- The time of a timeout with the longest delay wraps around as soon as the loop has advanced, and the
timeout starts at once. -/
theorem longest_delay_starts_at_once :
    ¬∀ (behave : List (LoopEvent Unit) → Unit → List (LoopCall Unit))
        (calls : List (LoopCall Unit)) (run : LoopRun Unit),
      (∀ past task, ∀ call ∈ behave past task, call.Plain) → (∀ call ∈ calls, call.Plain) →
        Reaches behave (begin calls) run → run.Orderly := by
  intro hclaim
  let run : LoopRun Unit := ⟨⟨1, 1, [], []⟩, [],
    [.returned 1, .started 1 1 [], .round 1 [1], .advanced 1 0, .scheduled 1 1 9223372036854775807,
      .returned 1, .advanced 0 1]⟩
  have hreaches : Reaches (fun _ _ => [])
      (begin [.advance 1, .setTimeout (some ()) 9223372036854775807, .advance 0]) run :=
    @reaches_of_steps _ _ 14 _ _ (by decide)
  have horderly : run.Orderly :=
    hclaim _ _ run (fun _ _ _ hmem => absurd hmem List.not_mem_nil) (by simp [LoopCall.Plain]) hreaches
  obtain ⟨-, -, ⟨due, ⟨now, delay, hmem, hdue⟩, hle⟩, -⟩ := horderly.1.2.1
  have hpast : now = 1 ∧ delay = 9223372036854775807 := by simpa using hmem
  rw [hpast.1, hpast.2] at hdue
  have hexact : due = 2 ^ 63 := hdue.trans (by decide)
  have hone : (1 : Int64).toInt = 1 := by decide
  omega

end LoopRun

end Jayess.Runtime
