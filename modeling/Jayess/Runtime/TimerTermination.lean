import Jayess.Runtime.EventLoop

/-!
# Advancing returns

Where no task schedules anything and every interval is armed again for a later time, `Advance`
returns: a task that advances the loop again holds a timer or a microtask that is not in the loop
meanwhile.
-/

namespace Jayess.Runtime

variable {Task : Type}

/-- The call schedules nothing. -/
def LoopCall.Passive : LoopCall Task → Prop
  | .clearTimer _ | .advance _ => True
  | _ => False

/-- `RunReady` arms the timer again. -/
def ScheduledTimer.Rearmed (timer : ScheduledTimer Task) : Prop :=
  (timer.handle.repeats && !timer.handle.canceled) = true

/-- Armed again at that time, the timer is due later. -/
def ScheduledTimer.Later (now : Int64) (timer : ScheduledTimer Task) : Prop :=
  timer.Rearmed → ¬now + timer.handle.delay ≤ now

namespace EventLoop

def size (loop : EventLoop Task) : Nat := loop.timers.length + loop.microtasks.length

def Calm (loop : EventLoop Task) : Prop :=
  loop.microtasks = [] ∧ ∀ timer ∈ loop.timers, ¬timer.due ≤ loop.now

section Calm

variable {loop : EventLoop Task} {timer : ScheduledTimer Task}

theorem size_waiting (loop : EventLoop Task) :
    loop.waiting.size + loop.readyTimers.length = loop.size := by
  have hlength := (timers_perm loop).length_eq
  rw [List.length_append] at hlength
  have hmicrotasks : loop.waiting.microtasks = loop.microtasks := rfl
  rw [size, size, hmicrotasks]
  omega

theorem size_clearTimer (loop : EventLoop Task) (id : Nat) :
    (loop.clearTimer id).1.size ≤ loop.size := by
  unfold clearTimer
  split
  · exact Nat.le_refl _
  · split
    · exact Nat.add_le_add_right (List.length_filter_le _ _) _
    · exact Nat.le_refl _

theorem Calm.clearTimer (hcalm : loop.Calm) (id : Nat) : (loop.clearTimer id).1.Calm := by
  unfold EventLoop.clearTimer
  split
  · exact hcalm
  · split
    · exact ⟨hcalm.1, fun timer hmem => hcalm.2 timer (List.mem_filter.mp hmem).1⟩
    · exact hcalm

theorem pass_eq (loop : EventLoop Task) (delta : Int64) :
    loop.pass delta = { loop with now := (loop.pass delta).now } := by
  unfold pass
  split
  · rfl
  · rfl

theorem size_pass (loop : EventLoop Task) (delta : Int64) : (loop.pass delta).size = loop.size := by
  rw [pass_eq]
  rfl

theorem size_rearm (loop : EventLoop Task) (timer : ScheduledTimer Task) :
    (loop.rearm timer).size ≤ loop.size + 1 := by
  unfold rearm
  split
  · have hfilter : (loop.timers.filter fun other => other.handle.id ≠ timer.handle.id).length ≤
        loop.timers.length := List.length_filter_le _ _
    simp only [size, List.length_cons]
    omega
  · exact Nat.le_succ _

theorem Calm.rearm (hcalm : loop.Calm) (hlater : timer.Later loop.now) : (loop.rearm timer).Calm := by
  unfold EventLoop.rearm
  split
  · rename_i hrearmed
    refine ⟨hcalm.1, fun other hmem => ?_⟩
    rcases List.mem_cons.mp hmem with rfl | hmem
    · exact hlater hrearmed
    · exact hcalm.2 other (List.mem_filter.mp hmem).1
  · exact hcalm

end Calm

end EventLoop

namespace LoopRun

/-- `Advance` on a loop, called by code that is not shown. -/
def advancing (loop : EventLoop Task) (delta : Int64) (past : List (LoopEvent Task)) :
    LoopRun Task := ⟨loop.pass delta, [.microtasks, .rounds], past⟩

/-- Everything that was in progress returns, after finitely many steps. -/
def Returns (behave : List (LoopEvent Task) → Task → List (LoopCall Task)) (run : LoopRun Task) :
    Prop := ∃ loop past, Reaches behave run ⟨loop, [], past⟩

def RearmsLater (run : LoopRun Task) : Prop :=
  ∀ timer ready stack, run.stack = .settle timer ready :: stack → timer.Later run.loop.now

/-- Every timer that is armed again is so for a later time. -/
def Safe (behave : List (LoopEvent Task) → Task → List (LoopCall Task)) (run : LoopRun Task) : Prop :=
  ∀ later, Reaches behave run later → later.RearmsLater

section Passive

variable {behave : List (LoopEvent Task) → Task → List (LoopCall Task)} {run later : LoopRun Task}

theorem Safe.after (hsafe : Safe behave run) (hreaches : Reaches behave run later) :
    Safe behave later := fun last hlast => hsafe last (hreaches.trans hlast)

/-- From any such loop, `Advance` comes to the code that called it, with nothing ready. -/
def Advances (behave : List (LoopEvent Task) → Task → List (LoopCall Task)) (bound : Nat) : Prop :=
  ∀ (loop : EventLoop Task) stack past, loop.size ≤ bound →
    Safe behave ⟨loop, .microtasks :: .rounds :: stack, past⟩ →
    ∃ loop' past', Reaches behave ⟨loop, .microtasks :: .rounds :: stack, past⟩ ⟨loop', stack, past'⟩ ∧
      loop'.size ≤ loop.size ∧ loop'.Calm

variable {bound : Nat}

theorem Advances.code (hadvances : Advances behave bound) (calls : List (LoopCall Task))
    (hpassive : ∀ call ∈ calls, call.Passive) (loop : EventLoop Task) (stack : List (Frame Task))
    (past : List (LoopEvent Task)) (hsize : loop.size ≤ bound)
    (hsafe : Safe behave ⟨loop, .code calls :: stack, past⟩) :
    ∃ loop' past', Reaches behave ⟨loop, .code calls :: stack, past⟩ ⟨loop', stack, past'⟩ ∧
      loop'.size ≤ loop.size ∧ (loop.Calm → loop'.Calm) := by
  induction calls generalizing loop past with
  | nil =>
      exact ⟨loop, past, .single (.done loop stack past), Nat.le_refl _, fun hcalm => hcalm⟩
  | cons call calls ih =>
      have hrest : ∀ call ∈ calls, call.Passive := fun other hmem => hpassive other (.tail _ hmem)
      have hfirst : Reaches behave ⟨loop, .code (call :: calls) :: stack, past⟩ _ :=
        .single (.call ⟨loop, .code (call :: calls) :: stack, past⟩ call calls stack rfl)
      cases call with
      | clearTimer id =>
          have hclear := loop.size_clearTimer id
          obtain ⟨loop', past', hreaches, hsize', hcalm'⟩ :=
            ih hrest (loop.clearTimer id).1 _ (hclear.trans hsize) (hsafe.after hfirst)
          exact ⟨loop', past', hfirst.trans hreaches, hsize'.trans hclear,
            fun hcalm => hcalm' (hcalm.clearTimer id)⟩
      | advance delta =>
          have hpass := loop.size_pass delta
          obtain ⟨middle, past', hreaches, hsize', hcalm'⟩ :=
            hadvances (loop.pass delta) (.code calls :: stack) _ (by omega) (hsafe.after hfirst)
          obtain ⟨loop', past'', hreaches', hsize'', hcalm''⟩ :=
            ih hrest middle past' (by omega) (hsafe.after (hfirst.trans hreaches))
          exact ⟨loop', past'', (hfirst.trans hreaches).trans hreaches', by omega,
            fun _ => hcalm'' hcalm'⟩
      | _ => exact absurd (hpassive _ List.mem_cons_self) id

theorem Advances.drain (hadvances : Advances behave bound)
    (hpassive : ∀ past task, ∀ call ∈ behave past task, call.Passive) (count : Nat) :
    ∀ (loop : EventLoop Task) stack past, loop.size ≤ count → count ≤ bound + 1 →
      Safe behave ⟨loop, .microtasks :: stack, past⟩ →
      ∃ loop' past', Reaches behave ⟨loop, .microtasks :: stack, past⟩ ⟨loop', stack, past'⟩ ∧
        loop'.size ≤ loop.size ∧ loop'.microtasks = [] := by
  induction count with
  | zero =>
      intro loop stack past hsize _ _
      have hnone : loop.microtasks = [] := by
        refine List.eq_nil_of_length_eq_zero ?_
        unfold EventLoop.size at hsize
        omega
      exact ⟨loop, past, .single (.drained loop stack past hnone), Nat.le_refl _, hnone⟩
  | succ count ih =>
      intro loop stack past hsize hbound hsafe
      cases hqueue : loop.microtasks with
      | nil => exact ⟨loop, past, .single (.drained loop stack past hqueue), Nat.le_refl _, hqueue⟩
      | cons task rest =>
          have hpopped : { loop with microtasks := rest }.size + 1 = loop.size := by
            simp only [EventLoop.size, hqueue, List.length_cons]
            omega
          have hfirst : Reaches behave ⟨loop, .microtasks :: stack, past⟩ _ :=
            .single (.microtask loop stack past task rest hqueue)
          obtain ⟨middle, past', hreaches, hsize', _⟩ :=
            hadvances.code (behave past task) (hpassive past task) { loop with microtasks := rest }
              (.microtasks :: stack) (.ran task :: past) (by omega) (hsafe.after hfirst)
          obtain ⟨loop', past'', hreaches', hsize'', hnone⟩ :=
            ih middle stack past' (by omega) (by omega) (hsafe.after (hfirst.trans hreaches))
          exact ⟨loop', past'', (hfirst.trans hreaches).trans hreaches', by omega, hnone⟩

/-- The timers of a round run, and nothing becomes ready: each is armed again for a later time, and a task
that lets time pass runs what becomes due itself. -/
theorem Advances.batch (hadvances : Advances behave bound)
    (hpassive : ∀ past task, ∀ call ∈ behave past task, call.Passive)
    (ready : List (ScheduledTimer Task)) (loop : EventLoop Task) (stack : List (Frame Task))
    (past : List (LoopEvent Task)) (hsize : loop.size + ready.length ≤ bound + 1)
    (hcalm : loop.Calm) (hsafe : Safe behave ⟨loop, .batch ready :: stack, past⟩) :
    ∃ loop' past', Reaches behave ⟨loop, .batch ready :: stack, past⟩ ⟨loop', stack, past'⟩ ∧
      loop'.size ≤ loop.size + ready.length ∧ loop'.Calm := by
  induction ready generalizing loop past with
  | nil => exact ⟨loop, past, .single (.roundDone loop stack past), Nat.le_refl _, hcalm⟩
  | cons timer ready ih =>
      rw [List.length_cons] at hsize
      have hstart : Reaches behave ⟨loop, .batch (timer :: ready) :: stack, past⟩ _ :=
        .single (.start loop stack past timer ready)
      obtain ⟨middle, past', htask, hsize', hcalm'⟩ :=
        hadvances.code (behave past timer.task) (hpassive past timer.task) loop
          (.microtasks :: .settle timer ready :: stack) _ (by omega) (hsafe.after hstart)
      have hdrained : Reaches behave ⟨middle, .microtasks :: .settle timer ready :: stack, past'⟩
          ⟨middle, .settle timer ready :: stack, past'⟩ :=
        .single (.drained middle _ past' (hcalm' hcalm).1)
      have hran := (hstart.trans htask).trans hdrained
      have hlater : timer.Later middle.now := hsafe _ hran timer ready stack rfl
      have hsettled := hran.trans (.single (.settled middle stack past' timer ready))
      have hrearm := middle.size_rearm timer
      obtain ⟨loop', past'', hreaches, hsize'', hcalm''⟩ :=
        ih (middle.rearm timer) past' (by omega) ((hcalm' hcalm).rearm hlater) (hsafe.after hsettled)
      refine ⟨loop', past'', hsettled.trans hreaches, ?_, hcalm''⟩
      rw [List.length_cons]
      omega

theorem quiet_of_calm {loop : EventLoop Task} (hcalm : loop.Calm) (stack : List (Frame Task))
    (past : List (LoopEvent Task)) :
    Reaches behave ⟨loop, .rounds :: stack, past⟩ ⟨loop, stack, .returned loop.now :: past⟩ :=
  .single (.quiet loop stack past (EventLoop.readyTimers_eq_nil_iff.mpr hcalm.2))

theorem advances (hpassive : ∀ past task, ∀ call ∈ behave past task, call.Passive) (bound : Nat) :
    Advances behave bound := by
  induction bound with
  | zero =>
      intro loop stack past hsize _
      have hempty : loop.microtasks = [] ∧ loop.timers = [] := by
        unfold EventLoop.size at hsize
        exact ⟨List.eq_nil_of_length_eq_zero (by omega), List.eq_nil_of_length_eq_zero (by omega)⟩
      have hcalm : loop.Calm := ⟨hempty.1, by simp [hempty.2]⟩
      exact ⟨loop, _, .head (.drained loop _ past hempty.1) (quiet_of_calm hcalm stack past),
        Nat.le_refl _, hcalm⟩
  | succ bound hadvances =>
      intro loop stack past hsize hsafe
      obtain ⟨middle, past', hdrained, hsize', hnone⟩ :=
        hadvances.drain hpassive (bound + 1) loop (.rounds :: stack) past hsize (Nat.le_refl _) hsafe
      by_cases hquiet : middle.readyTimers = []
      · have hcalm : middle.Calm := ⟨hnone, EventLoop.readyTimers_eq_nil_iff.mp hquiet⟩
        exact ⟨middle, _, hdrained.trans (quiet_of_calm hcalm stack past'), hsize', hcalm⟩
      · have hround := hdrained.trans (.single (.round middle stack past' hquiet))
        have hwaiting := middle.size_waiting
        have hcalm : middle.waiting.Calm :=
          ⟨hnone, fun timer hmem => (EventLoop.mem_waiting.mp hmem).2⟩
        obtain ⟨loop', past'', hbatch, hsize'', hcalm'⟩ :=
          hadvances.batch hpassive middle.readyTimers middle.waiting (.rounds :: stack) _ (by omega)
            hcalm (hsafe.after hround)
        exact ⟨loop', _, (hround.trans hbatch).trans (quiet_of_calm hcalm' stack past''), by omega,
          hcalm'⟩

theorem returns_of_safe (hpassive : ∀ past task, ∀ call ∈ behave past task, call.Passive)
    (loop : EventLoop Task) (delta : Int64) (past : List (LoopEvent Task))
    (hsafe : Safe behave (advancing loop delta past)) :
    Returns behave (advancing loop delta past) := by
  obtain ⟨loop', past', hreaches, _⟩ :=
    advances hpassive (loop.pass delta).size (loop.pass delta) [] past (Nat.le_refl _) hsafe
  exact ⟨loop', past', hreaches⟩

end Passive

/-! ## Tasks that do nothing with the loop -/

/-- Tasks that make no calls. -/
def idle : List (LoopEvent Task) → Task → List (LoopCall Task) := fun _ _ => []

end LoopRun

/-- The timers that a frame holds. -/
def Frame.timers : Frame Task → List (ScheduledTimer Task)
  | .batch ready => ready
  | .settle timer ready => timer :: ready
  | _ => []

namespace LoopRun

def held (stack : List (Frame Task)) : List (ScheduledTimer Task) := stack.flatMap Frame.timers

def Finished (stack : List (Frame Task)) : Prop := ∀ calls, .code calls ∈ stack → calls = []

structure Settles (now : Int64) (run : LoopRun Task) : Prop where
  clock : run.loop.now = now
  finished : Finished run.stack
  due : ∀ timer ∈ run.loop.timers, timer.due ≤ now → timer.Later now
  held : ∀ timer ∈ held run.stack, timer.Later now

/-- A timer that is armed again and again for a time that is due is in the map or in a round. -/
structure Stuck (now : Int64) (run : LoopRun Task) : Prop where
  clock : run.loop.now = now
  finished : Finished run.stack
  keys : ((run.loop.timers ++ held run.stack).map fun timer => timer.handle.id).Nodup
  rounds : ∃ above, run.stack = above ++ [.rounds] ∧ .rounds ∉ above
  bad : (∃ timer ∈ run.loop.timers, timer.due ≤ now ∧ ¬timer.Later now) ∨
    ∃ timer ∈ held run.stack, ¬timer.Later now

section Idle

variable {now : Int64} {run later : LoopRun Task} {stack : List (Frame Task)} {frame : Frame Task}

theorem Finished.tail (hfinished : Finished (frame :: stack)) : Finished stack :=
  fun calls hmem => hfinished calls (.tail _ hmem)

theorem Finished.cons (hfinished : Finished stack) (hframe : ∀ calls, frame = .code calls → calls = []) :
    Finished (frame :: stack) := by
  intro calls hmem
  rcases List.mem_cons.mp hmem with heq | hmem
  · exact hframe calls heq.symm
  · exact hfinished calls hmem

theorem Finished.started (hfinished : Finished stack) {timer : ScheduledTimer Task}
    {ready : List (ScheduledTimer Task)} :
    Finished (.code [] :: .microtasks :: .settle timer ready :: stack) := by
  refine Finished.cons (Finished.cons (Finished.cons hfinished nofun) nofun) ?_
  rintro calls ⟨⟩
  rfl

theorem rounds_tail (hrounds : ∃ above, frame :: stack = above ++ [.rounds] ∧ .rounds ∉ above)
    (hne : frame ≠ .rounds) : ∃ above, stack = above ++ [.rounds] ∧ .rounds ∉ above := by
  obtain ⟨above, heq, hnot⟩ := hrounds
  cases above with
  | nil => exact absurd (List.cons.inj heq).1 hne
  | cons first above =>
      obtain ⟨rfl, rfl⟩ := List.cons.inj heq
      exact ⟨above, rfl, fun hmem => hnot (.tail _ hmem)⟩

theorem rounds_cons (hrounds : ∃ above, stack = above ++ [.rounds] ∧ .rounds ∉ above)
    (hne : frame ≠ .rounds) : ∃ above, frame :: stack = above ++ [.rounds] ∧ .rounds ∉ above := by
  obtain ⟨above, rfl, hnot⟩ := hrounds
  refine ⟨frame :: above, rfl, fun hmem => ?_⟩
  rcases List.mem_cons.mp hmem with heq | hmem
  · exact hne heq.symm
  · exact hnot hmem

theorem rounds_head (hrounds : ∃ above, (.rounds : Frame Task) :: stack = above ++ [.rounds] ∧
    .rounds ∉ above) : stack = [] := by
  obtain ⟨above, heq, hnot⟩ := hrounds
  cases above with
  | nil => exact (List.cons.inj heq).2
  | cons first above =>
      rw [(List.cons.inj heq).1] at hnot
      exact absurd List.mem_cons_self hnot

theorem rearm_of_rearmed {loop : EventLoop Task} {timer : ScheduledTimer Task}
    (hrearmed : timer.Rearmed) : (loop.rearm timer).timers =
      { timer with due := loop.now + timer.handle.delay } ::
        loop.timers.filter fun other => other.handle.id ≠ timer.handle.id := by
  unfold ScheduledTimer.Rearmed at hrearmed
  unfold EventLoop.rearm
  rw [if_pos hrearmed]

theorem rearm_of_not_rearmed {loop : EventLoop Task} {timer : ScheduledTimer Task}
    (hrearmed : ¬timer.Rearmed) : loop.rearm timer = loop := if_neg hrearmed

theorem now_rearm (loop : EventLoop Task) (timer : ScheduledTimer Task) :
    (loop.rearm timer).now = loop.now := by
  unfold EventLoop.rearm
  split
  · rfl
  · rfl

theorem Settles.step (hsettles : Settles now run) (hstep : Step idle run later) :
    Settles now later := by
  cases hstep with
  | done loop stack past =>
      exact ⟨hsettles.clock, hsettles.finished.tail, hsettles.due, hsettles.held⟩
  | call run call calls stack hstack =>
      have hmem : Frame.code (call :: calls) ∈ run.stack := by
        rw [hstack]
        exact List.mem_cons_self
      exact absurd (hsettles.finished _ hmem) (List.cons_ne_nil call calls)
  | drained loop stack past hnone =>
      exact ⟨hsettles.clock, hsettles.finished.tail, hsettles.due, hsettles.held⟩
  | microtask loop stack past task rest hsome =>
      refine ⟨hsettles.clock, hsettles.finished.cons ?_, hsettles.due, hsettles.held⟩
      rintro calls ⟨⟩
      rfl
  | quiet loop stack past hnone =>
      exact ⟨hsettles.clock, hsettles.finished.tail, hsettles.due, hsettles.held⟩
  | round loop stack past hsome =>
      refine ⟨hsettles.clock, hsettles.finished.cons nofun, ?_, ?_⟩
      · intro timer hmem
        exact hsettles.due timer (EventLoop.mem_waiting.mp hmem).1
      · intro timer hmem
        rcases List.mem_append.mp hmem with hready | hmem
        · obtain ⟨hthere, hdue⟩ := EventLoop.mem_readyTimers.mp hready
          exact hsettles.due timer hthere (by rwa [← hsettles.clock])
        · exact hsettles.held timer hmem
  | roundDone loop stack past =>
      exact ⟨hsettles.clock, hsettles.finished.tail, hsettles.due, hsettles.held⟩
  | start loop stack past timer ready =>
      exact ⟨hsettles.clock, hsettles.finished.tail.started, hsettles.due, hsettles.held⟩
  | settled loop stack past timer ready =>
      have htimer : timer.Later now := hsettles.held timer List.mem_cons_self
      refine ⟨(now_rearm loop timer).trans hsettles.clock, hsettles.finished.tail.cons nofun, ?_, ?_⟩
      · intro other hmem
        by_cases hrearmed : timer.Rearmed
        · rw [rearm_of_rearmed hrearmed] at hmem
          rcases List.mem_cons.mp hmem with rfl | hmem
          · exact fun _ => htimer
          · exact hsettles.due other (List.mem_filter.mp hmem).1
        · rw [rearm_of_not_rearmed hrearmed] at hmem
          exact hsettles.due other hmem
      · exact fun other hmem => hsettles.held other (.tail _ hmem)

theorem Settles.rearmsLater (hsettles : Settles now run) : run.RearmsLater := by
  intro timer ready stack hstack
  rw [hsettles.clock]
  refine hsettles.held timer ?_
  rw [hstack]
  exact List.mem_cons_self

theorem Stuck.step (hstuck : Stuck now run) (hstep : Step idle run later) : Stuck now later := by
  cases hstep with
  | done loop stack past =>
      exact ⟨hstuck.clock, hstuck.finished.tail, hstuck.keys, rounds_tail hstuck.rounds nofun,
        hstuck.bad⟩
  | call run call calls stack hstack =>
      have hmem : Frame.code (call :: calls) ∈ run.stack := by
        rw [hstack]
        exact List.mem_cons_self
      exact absurd (hstuck.finished _ hmem) (List.cons_ne_nil call calls)
  | drained loop stack past hnone =>
      exact ⟨hstuck.clock, hstuck.finished.tail, hstuck.keys, rounds_tail hstuck.rounds nofun,
        hstuck.bad⟩
  | microtask loop stack past task rest hsome =>
      refine ⟨hstuck.clock, hstuck.finished.cons ?_, hstuck.keys, rounds_cons hstuck.rounds nofun,
        hstuck.bad⟩
      rintro calls ⟨⟩
      rfl
  | quiet loop stack past hnone =>
      -- the timer cannot be held by the rounds alone, so it is in the map and due
      have hstack := rounds_head hstuck.rounds
      rcases hstuck.bad with ⟨timer, hmem, hdue, _⟩ | ⟨timer, hmem, _⟩
      · rw [← hstuck.clock] at hdue
        exact absurd hdue (EventLoop.readyTimers_eq_nil_iff.mp hnone timer hmem)
      · rw [hstack] at hmem
        exact absurd hmem List.not_mem_nil
  | round loop stack past hsome =>
      refine ⟨hstuck.clock, hstuck.finished.cons nofun, ?_, rounds_cons hstuck.rounds nofun, ?_⟩
      · have hperm : (loop.waiting.timers ++ held (.batch loop.readyTimers :: .rounds :: stack)).Perm
            (loop.timers ++ held (.rounds :: stack)) := by
          change (loop.waiting.timers ++ (loop.readyTimers ++ held (.rounds :: stack))).Perm _
          rw [← List.append_assoc]
          exact (List.perm_append_comm.trans (EventLoop.timers_perm _)).append_right _
        exact ((hperm.map _).nodup_iff).mpr hstuck.keys
      · rcases hstuck.bad with ⟨timer, hmem, hdue, hbad⟩ | ⟨timer, hmem, hbad⟩
        · rw [← hstuck.clock] at hdue
          exact .inr ⟨timer,
            List.mem_append_left _ (EventLoop.mem_readyTimers.mpr ⟨hmem, hdue⟩), hbad⟩
        · exact .inr ⟨timer, List.mem_append_right _ hmem, hbad⟩
  | roundDone loop stack past =>
      exact ⟨hstuck.clock, hstuck.finished.tail, hstuck.keys, rounds_tail hstuck.rounds nofun,
        hstuck.bad⟩
  | start loop stack past timer ready =>
      have hsettle : Frame.settle timer ready ≠ .rounds := nofun
      have hmicrotasks : (.microtasks : Frame Task) ≠ .rounds := nofun
      have hcode : (.code [] : Frame Task) ≠ .rounds := nofun
      exact ⟨hstuck.clock, hstuck.finished.tail.started, hstuck.keys,
        rounds_cons (rounds_cons (rounds_cons (rounds_tail hstuck.rounds nofun) hsettle)
          hmicrotasks) hcode, hstuck.bad⟩
  | settled loop stack past timer ready =>
      have hkeys : ((loop.timers ++ timer :: (ready ++ held stack)).map
          fun timer => timer.handle.id).Nodup := hstuck.keys
      have hperm : (loop.timers ++ timer :: (ready ++ held stack)).Perm
          (timer :: (loop.timers ++ (ready ++ held stack))) := List.perm_middle
      rw [(hperm.map _).nodup_iff, List.map_cons, List.nodup_cons] at hkeys
      have hother : ∀ other ∈ loop.timers, other.handle.id ≠ timer.handle.id := by
        intro other hmem heq
        exact hkeys.1 (heq ▸ List.mem_map_of_mem (List.mem_append_left _ hmem))
      refine ⟨(now_rearm loop timer).trans hstuck.clock, hstuck.finished.tail.cons nofun, ?_,
        rounds_cons (rounds_tail hstuck.rounds nofun) nofun, ?_⟩
      · change (((loop.rearm timer).timers ++ (ready ++ held stack)).map _).Nodup
        by_cases hrearmed : timer.Rearmed
        · have hall : (loop.timers.filter fun other => other.handle.id ≠ timer.handle.id) =
              loop.timers :=
            List.filter_eq_self.mpr fun other hmem => decide_eq_true (hother other hmem)
          rw [rearm_of_rearmed hrearmed, hall, List.cons_append, List.map_cons, List.nodup_cons]
          exact hkeys
        · rw [rearm_of_not_rearmed hrearmed]
          exact hkeys.2
      · rcases hstuck.bad with ⟨other, hmem, hdue, hbad⟩ | ⟨other, hmem, hbad⟩
        · refine .inl ⟨other, ?_, hdue, hbad⟩
          by_cases hrearmed : timer.Rearmed
          · rw [rearm_of_rearmed hrearmed]
            exact .tail _ (List.mem_filter.mpr ⟨hmem, decide_eq_true (hother other hmem)⟩)
          · rw [rearm_of_not_rearmed hrearmed]
            exact hmem
        · rcases List.mem_cons.mp hmem with rfl | hmem
          · have hsplit : other.Rearmed ∧ now + other.handle.delay ≤ now := by
              simpa only [ScheduledTimer.Later, Classical.not_imp, not_not] using hbad
            refine .inl ⟨{ other with due := loop.now + other.handle.delay }, ?_, ?_, hbad⟩
            · rw [rearm_of_rearmed hsplit.1]
              exact List.mem_cons_self
            · change loop.now + other.handle.delay ≤ now
              rw [show loop.now = now from hstuck.clock]
              exact hsplit.2
          · exact .inr ⟨other, hmem, hbad⟩

/-- Tasks that do nothing: `Advance` returns exactly where no due interval is armed again for a time that
is due. -/
theorem returns_idle_iff (loop : EventLoop Task)
    (hkeys : (loop.timers.map fun timer => timer.handle.id).Nodup) (delta : Int64)
    (past : List (LoopEvent Task)) :
    Returns idle (advancing loop delta past) ↔ ∀ timer ∈ loop.timers,
      timer.due ≤ (loop.pass delta).now → timer.Later (loop.pass delta).now := by
  have htimers : (loop.pass delta).timers = loop.timers := by rw [EventLoop.pass_eq]
  have hfinished : Finished (advancing loop delta past).stack := by
    intro calls hmem
    simp [advancing] at hmem
  constructor
  · intro hreturns
    by_contra hbad
    push Not at hbad
    obtain ⟨timer, hmem, hdue, hbad⟩ := hbad
    have hstart : Stuck (loop.pass delta).now (advancing loop delta past) := by
      refine ⟨rfl, hfinished, ?_, ⟨[.microtasks], rfl, by simp⟩, .inl ⟨timer, ?_, hdue, hbad⟩⟩
      · change (((loop.pass delta).timers ++ []).map _).Nodup
        rwa [List.append_nil, htimers]
      · change timer ∈ (loop.pass delta).timers
        rwa [htimers]
    obtain ⟨loop', past', hreaches⟩ := hreturns
    have hlast := hreaches.invariant (Stuck (loop.pass delta).now) hstart
      fun run later hstep hstuck => hstuck.step hstep
    obtain ⟨above, hstack, _⟩ := hlast.rounds
    simp at hstack
  · intro hlater
    have hstart : Settles (loop.pass delta).now (advancing loop delta past) := by
      refine ⟨rfl, hfinished, fun timer hmem => hlater timer ?_, ?_⟩
      · change timer ∈ (loop.pass delta).timers at hmem
        rwa [htimers] at hmem
      · intro timer hmem
        simp [advancing, held, Frame.timers] at hmem
    refine returns_of_safe nofun loop delta past fun run hreaches => ?_
    exact (hreaches.invariant (Settles (loop.pass delta).now) hstart
      fun run later hstep hsettles => hsettles.step hstep).rearmsLater

end Idle

/-- Where the tasks schedule nothing, `Advance` returns in every run in which each timer that is armed
again is so for a later time; and where they do nothing with the loop at all, exactly where that is so of
each timer that is due. -/
theorem advance_returns (loop : EventLoop Task)
    (hkeys : (loop.timers.map fun timer => timer.handle.id).Nodup) (delta : Int64)
    (past : List (LoopEvent Task)) :
    (∀ behave, (∀ past task, ∀ call ∈ behave past task, call.Passive) →
      Safe behave (advancing loop delta past) → Returns behave (advancing loop delta past)) ∧
    (Returns idle (advancing loop delta past) ↔ ∀ timer ∈ loop.timers,
      timer.due ≤ (loop.pass delta).now → timer.Later (loop.pass delta).now) :=
  ⟨fun _ hpassive hsafe => returns_of_safe hpassive loop delta past hsafe,
    returns_idle_iff loop hkeys delta past⟩

/-- An interval of five, due at five, that is advanced to. -/
theorem advance_returns_interval :
    Returns idle (advancing ⟨0, 1, [], [⟨⟨1, true, 5, false⟩, 5, ()⟩]⟩ 5 []) :=
  (advance_returns _ (by decide) 5 []).2.mpr (by
    unfold ScheduledTimer.Later ScheduledTimer.Rearmed
    decide)

/-- An interval without delay runs for ever. -/
theorem interval_without_delay_runs_on :
    ¬∀ (loop : EventLoop Unit) (delta : Int64) (past : List (LoopEvent Unit))
      (behave : List (LoopEvent Unit) → Unit → List (LoopCall Unit)),
      (loop.timers.map fun timer => timer.handle.id).Nodup →
      (∀ past task, ∀ call ∈ behave past task, call.Passive) →
      Returns behave (advancing loop delta past) := by
  intro hclaim
  have hreturns := hclaim ⟨0, 1, [], [⟨⟨1, true, 0, false⟩, 0, ()⟩]⟩ 0 [] idle (by decide) nofun
  have hlater := (returns_idle_iff _ (by decide) 0 []).mp hreturns _ List.mem_cons_self (by decide)
  exact hlater rfl (by decide)

end LoopRun

end Jayess.Runtime
