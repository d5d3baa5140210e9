import Jayess.Runtime.EventLoop

/-!
# Cancelled timers
-/

namespace Jayess.Runtime

variable {Task : Type}

namespace LoopRun

def Cancelled (past : List (LoopEvent Task)) (id : Nat) : Prop :=
  ∃ newer older held now delay, past = newer ++ .cleared id held :: older ∧
    .scheduled id now delay ∈ older

/-- No timer started after it was cleared. -/
def Obeyed : List (LoopEvent Task) → Prop
  | [] => True
  | .started id _ _ :: past => ¬Cancelled past id ∧ Obeyed past
  | _ :: past => Obeyed past

def Live (run : LoopRun Task) (id : Nat) : Prop :=
  (∃ timer ∈ run.loop.timers, timer.handle.id = id) ∨ ∃ frame ∈ run.stack, frame.holds id = true

structure Cleared (run : LoopRun Task) : Prop where
  obeyed : Obeyed run.past
  dead : ∀ id, Cancelled run.past id → ¬run.Live id
  issued : ∀ id, run.Live id → id ≤ run.loop.nextID
  scheduled : ∀ id now delay, .scheduled id now delay ∈ run.past →
    id ≠ 0 ∧ id ≤ run.loop.nextID

section Past

variable {past : List (LoopEvent Task)} {event : LoopEvent Task} {id : Nat}

theorem cancelled_cons : Cancelled (event :: past) id ↔
    Cancelled past id ∨ (∃ held, event = .cleared id held) ∧
      ∃ now delay, .scheduled id now delay ∈ past := by
  constructor
  · rintro ⟨newer, older, held, now, delay, hpast, hscheduled⟩
    cases newer with
    | nil =>
        obtain ⟨rfl, rfl⟩ := List.cons.inj hpast
        exact .inr ⟨⟨held, rfl⟩, now, delay, hscheduled⟩
    | cons first newer =>
        obtain ⟨rfl, rfl⟩ := List.cons.inj hpast
        exact .inl ⟨newer, older, held, now, delay, rfl, hscheduled⟩
  · rintro (⟨newer, older, held, now, delay, rfl, hscheduled⟩ | ⟨⟨held, rfl⟩, now, delay, hscheduled⟩)
    · exact ⟨event :: newer, older, held, now, delay, rfl, hscheduled⟩
    · exact ⟨[], past, held, now, delay, rfl, hscheduled⟩

theorem cancelled_nil : ¬Cancelled ([] : List (LoopEvent Task)) id := by
  rintro ⟨newer, older, held, now, delay, hpast, _⟩
  simp at hpast

end Past

section Step

variable {behave : List (LoopEvent Task) → Task → List (LoopCall Task)} {run later : LoopRun Task}
  {loop : EventLoop Task} {stack : List (Frame Task)} {past : List (LoopEvent Task)}
  {event : LoopEvent Task}

theorem Cleared.of_live (hcleared : run.Cleared) (hpast : later.past = run.past)
    (hnext : later.loop.nextID = run.loop.nextID) (hlive : ∀ id, later.Live id → run.Live id) :
    later.Cleared where
  obeyed := by
    rw [hpast]
    exact hcleared.obeyed
  dead id hcancelled hlater := by
    rw [hpast] at hcancelled
    exact hcleared.dead id hcancelled (hlive id hlater)
  issued id hlater := by
    rw [hnext]
    exact hcleared.issued id (hlive id hlater)
  scheduled id now delay hmem := by
    rw [hpast] at hmem
    rw [hnext]
    exact hcleared.scheduled id now delay hmem

theorem Cleared.cons (hcleared : Cleared ⟨loop, stack, past⟩)
    (hstarted : ∀ id now waiting, event ≠ .started id now waiting)
    (hclears : ∀ id held, event ≠ .cleared id held)
    (hschedules : ∀ id now delay, event ≠ .scheduled id now delay) :
    Cleared ⟨loop, stack, event :: past⟩ where
  obeyed := by
    cases event with
    | started id now waiting => exact absurd rfl (hstarted id now waiting)
    | _ => exact hcleared.obeyed
  dead id hcancelled := by
    rcases cancelled_cons.mp hcancelled with hold | ⟨⟨held, rfl⟩, _⟩
    · exact hcleared.dead id hold
    · exact absurd rfl (hclears id held)
  issued := hcleared.issued
  scheduled id now delay hmem := by
    rcases List.mem_cons.mp hmem with rfl | hold
    · exact absurd rfl (hschedules id now delay)
    · exact hcleared.scheduled id now delay hold

theorem Cleared.start (hcleared : Cleared ⟨loop, stack, past⟩) {id : Nat}
    (hlive : Live ⟨loop, stack, past⟩ id) (now : Int64) (waiting : List Task) :
    Cleared ⟨loop, stack, .started id now waiting :: past⟩ where
  obeyed := ⟨fun hcancelled => hcleared.dead id hcancelled hlive, hcleared.obeyed⟩
  dead other hcancelled := by
    rcases cancelled_cons.mp hcancelled with hold | ⟨⟨held, heq⟩, _⟩
    · exact hcleared.dead other hold
    · cases heq
  issued := hcleared.issued
  scheduled other now' delay hmem := by
    rcases List.mem_cons.mp hmem with heq | hold
    · cases heq
    · exact hcleared.scheduled other now' delay hold

theorem Cleared.schedule (hcleared : Cleared ⟨loop, stack, past⟩) (task : Option Task)
    (delay : Int64) (repeats : Bool) :
    Cleared ⟨(loop.scheduleTimer task delay repeats).1, stack,
      (task.toList.map fun _ => .scheduled (loop.nextID + 1) loop.now delay) ++ past⟩ := by
  cases task with
  | none => exact hcleared
  | some task =>
      have hlive : ∀ id, Live ⟨(loop.scheduleTimer (some task) delay repeats).1, stack, past⟩ id →
          id = loop.nextID + 1 ∨ Live ⟨loop, stack, past⟩ id := by
        rintro id (⟨timer, htimer, rfl⟩ | hframe)
        · rcases List.mem_cons.mp htimer with rfl | hold
          · exact .inl rfl
          · exact .inr (.inl ⟨timer, hold, rfl⟩)
        · exact .inr (.inr hframe)
      constructor
      · exact hcleared.obeyed
      · intro id hcancelled hlater
        rcases cancelled_cons.mp hcancelled with hold | ⟨⟨held, heq⟩, _⟩
        · rcases hlive id hlater with rfl | hbefore
          · obtain ⟨newer, older, held, now, delay, rfl, hmem⟩ := hold
            have hbound := (hcleared.scheduled _ now delay
              (List.mem_append_right _ (.tail _ hmem))).2
            exact absurd hbound (Nat.not_succ_le_self _)
          · exact hcleared.dead id hold hbefore
        · cases heq
      · intro id hlater
        change id ≤ loop.nextID + 1
        rcases hlive id hlater with rfl | hbefore
        · exact Nat.le_refl _
        · exact Nat.le_succ_of_le (hcleared.issued id hbefore)
      · intro id now delay' hmem
        change id ≠ 0 ∧ id ≤ loop.nextID + 1
        rcases List.mem_cons.mp hmem with heq | hold
        · cases heq
          exact ⟨Nat.succ_ne_zero _, Nat.le_refl _⟩
        · have hbound := hcleared.scheduled id now delay' hold
          exact ⟨hbound.1, Nat.le_succ_of_le hbound.2⟩

theorem mem_timers_clearTimer {id : Nat} {timer : ScheduledTimer Task}
    (hmem : timer ∈ (loop.clearTimer id).1.timers) :
    timer ∈ loop.timers ∧ (id ≠ 0 → timer.handle.id ≠ id) := by
  unfold EventLoop.clearTimer at hmem
  split at hmem
  · rename_i hzero
    exact ⟨hmem, fun hne => absurd hzero hne⟩
  · split at hmem
    · have hkept := List.mem_filter.mp hmem
      exact ⟨hkept.1, fun _ => of_decide_eq_true hkept.2⟩
    · rename_i hnone
      refine ⟨hmem, fun _ heq => hnone ?_⟩
      exact List.any_eq_true.mpr ⟨timer, hmem, decide_eq_true heq⟩

theorem nextID_clearTimer (loop : EventLoop Task) (id : Nat) :
    (loop.clearTimer id).1.nextID = loop.nextID := by
  unfold EventLoop.clearTimer
  split
  · rfl
  · split
    · rfl
    · rfl

theorem Cleared.clear (hcleared : Cleared ⟨loop, stack, past⟩) {id : Nat} {held : Bool}
    (hfree : ∀ frame ∈ stack, frame.holds id = false) :
    Cleared ⟨(loop.clearTimer id).1, stack, .cleared id held :: past⟩ where
  obeyed := hcleared.obeyed
  dead other hcancelled := by
    rintro (⟨timer, htimer, rfl⟩ | hframe)
    · obtain ⟨hold, hkept⟩ := mem_timers_clearTimer htimer
      rcases cancelled_cons.mp hcancelled with hbefore | ⟨⟨held', heq⟩, now, delay, hmem⟩
      · exact hcleared.dead _ hbefore (.inl ⟨timer, hold, rfl⟩)
      · cases heq
        exact hkept (hcleared.scheduled _ now delay hmem).1 rfl
    · rcases cancelled_cons.mp hcancelled with hbefore | ⟨⟨held', heq⟩, _⟩
      · exact hcleared.dead other hbefore (.inr hframe)
      · cases heq
        obtain ⟨frame, hmem, hholds⟩ := hframe
        rw [hfree frame hmem] at hholds
        cases hholds
  issued other hlater := by
    rw [nextID_clearTimer]
    rcases hlater with ⟨timer, htimer, rfl⟩ | hframe
    · exact hcleared.issued _ (.inl ⟨timer, (mem_timers_clearTimer htimer).1, rfl⟩)
    · exact hcleared.issued other (.inr hframe)
  scheduled other now delay hmem := by
    rw [nextID_clearTimer]
    rcases List.mem_cons.mp hmem with heq | hold
    · cases heq
    · exact hcleared.scheduled other now delay hold

theorem live_stack {first second : List (Frame Task)} {id : Nat}
    (hholds : ∀ frame ∈ second, frame.holds id = true → ∃ other ∈ first, other.holds id = true)
    (hlive : Live ⟨loop, second, past⟩ id) : Live ⟨loop, first, past⟩ id := by
  refine hlive.imp_right ?_
  rintro ⟨frame, hmem, hframe⟩
  exact hholds frame hmem hframe

theorem holds_opened {call : LoopCall Task} {id : Nat} {frame : Frame Task}
    (hmem : frame ∈ opened call) : frame.holds id = false := by
  cases call with
  | advance delta =>
      rcases List.mem_cons.mp hmem with rfl | hmem
      · rfl
      · rw [List.mem_singleton.mp hmem]
        rfl
  | _ => exact absurd hmem List.not_mem_nil

theorem Cleared.perform (hcleared : run.Cleared) (call : LoopCall Task)
    (hfree : ∀ id, LoopEvent.cleared id true ∉ (run.perform call).2) :
    Cleared ⟨(run.perform call).1, run.stack, (run.perform call).2 ++ run.past⟩ := by
  obtain ⟨loop, stack, past⟩ := run
  cases call with
  | setTimeout task delay => exact hcleared.schedule task delay false
  | setInterval task delay => exact hcleared.schedule task delay true
  | clearTimer id =>
      refine hcleared.clear fun frame hmem => ?_
      have hnot : (stack.any fun frame => frame.holds id) = false := by
        have hevent := hfree id
        rw [LoopRun.perform, List.mem_singleton] at hevent
        by_contra hheld
        rw [Bool.not_eq_false] at hheld
        exact hevent (by rw [hheld])
      simpa using List.any_eq_false.mp hnot frame hmem
  | queueMicrotask task =>
      cases task with
      | none => exact hcleared
      | some task =>
          refine Cleared.cons ?_ nofun nofun nofun
          exact hcleared.of_live rfl rfl fun id hlive => hlive
  | advance delta =>
      refine Cleared.cons ?_ nofun nofun nofun
      have hpass : (loop.pass delta).timers = loop.timers ∧
          (loop.pass delta).nextID = loop.nextID := by
        unfold EventLoop.pass
        split
        · exact ⟨rfl, rfl⟩
        · exact ⟨rfl, rfl⟩
      refine hcleared.of_live rfl hpass.2 fun id => ?_
      rw [Live, Live]
      dsimp only [LoopRun.perform]
      rw [hpass.1]
      exact fun hlive => hlive

theorem Cleared.step (hcleared : run.Cleared) (hstep : Step behave run later)
    (hfree : ∀ id, LoopEvent.cleared id true ∉ later.past) : later.Cleared := by
  cases hstep with
  | done loop stack past =>
      exact hcleared.of_live rfl rfl fun id => live_stack fun frame hmem hholds =>
        ⟨frame, .tail _ hmem, hholds⟩
  | call run call calls stack hstack =>
      have hperformed := hcleared.perform call fun id hmem =>
        hfree id (List.mem_append_left _ hmem)
      refine hperformed.of_live rfl rfl fun id => live_stack fun frame hmem hholds => ?_
      rw [hstack]
      rcases List.mem_append.mp hmem with hopened | hmem
      · rw [holds_opened hopened] at hholds
        cases hholds
      · rcases List.mem_cons.mp hmem with rfl | hmem
        · cases hholds
        · exact ⟨frame, .tail _ hmem, hholds⟩
  | drained loop stack past hnone =>
      exact hcleared.of_live rfl rfl fun id => live_stack fun frame hmem hholds =>
        ⟨frame, .tail _ hmem, hholds⟩
  | microtask loop stack past task rest hsome =>
      refine Cleared.cons ?_ nofun nofun nofun
      refine hcleared.of_live rfl rfl fun id hlive => ?_
      refine live_stack (fun frame hmem hholds => ?_) hlive
      rcases List.mem_cons.mp hmem with rfl | hmem
      · cases hholds
      · exact ⟨frame, hmem, hholds⟩
  | quiet loop stack past hnone =>
      refine Cleared.cons ?_ nofun nofun nofun
      exact hcleared.of_live rfl rfl fun id => live_stack fun frame hmem hholds =>
        ⟨frame, .tail _ hmem, hholds⟩
  | round loop stack past hsome =>
      refine Cleared.cons ?_ nofun nofun nofun
      refine hcleared.of_live rfl rfl fun id hlive => ?_
      rcases hlive with ⟨timer, htimer, rfl⟩ | ⟨frame, hmem, hholds⟩
      · exact .inl ⟨timer, (List.mem_filter.mp htimer).1, rfl⟩
      · rcases List.mem_cons.mp hmem with rfl | hmem
        · obtain ⟨timer, htimer, heq⟩ := List.any_eq_true.mp hholds
          have hready := (List.mem_insertionSort _).mp htimer
          exact .inl ⟨timer, (List.mem_filter.mp hready).1, of_decide_eq_true heq⟩
        · exact .inr ⟨frame, hmem, hholds⟩
  | roundDone loop stack past =>
      exact hcleared.of_live rfl rfl fun id => live_stack fun frame hmem hholds =>
        ⟨frame, .tail _ hmem, hholds⟩
  | start loop stack past timer ready =>
      have hbatch : ∀ id, Frame.holds id (.settle timer ready) = true →
          Frame.holds id (.batch (timer :: ready)) = true := by
        intro id hholds
        rw [Frame.holds, Bool.or_eq_true, Bool.and_eq_true] at hholds
        rw [Frame.holds, List.any_cons, Bool.or_eq_true]
        exact hholds.imp_left And.right
      have hlive : Live ⟨loop, .batch (timer :: ready) :: stack, past⟩ timer.handle.id :=
        .inr ⟨_, List.mem_cons_self, by simp [Frame.holds]⟩
      have hstarted := hcleared.start hlive loop.now loop.microtasks
      refine hstarted.of_live rfl rfl fun id => live_stack fun frame hmem hholds => ?_
      rcases List.mem_cons.mp hmem with rfl | hmem
      · cases hholds
      rcases List.mem_cons.mp hmem with rfl | hmem
      · cases hholds
      rcases List.mem_cons.mp hmem with rfl | hmem
      · exact ⟨_, List.mem_cons_self, hbatch id hholds⟩
      · exact ⟨frame, .tail _ hmem, hholds⟩
  | settled loop stack past timer ready =>
      have hnextID : (loop.rearm timer).nextID = loop.nextID := by
        unfold EventLoop.rearm
        split
        · rfl
        · rfl
      refine hcleared.of_live rfl hnextID fun id hlive => ?_
      rcases hlive with ⟨other, hother, rfl⟩ | ⟨frame, hmem, hholds⟩
      · dsimp only [EventLoop.rearm] at hother
        split at hother
        · rename_i hrepeats
          rcases List.mem_cons.mp hother with rfl | hkept
          · refine .inr ⟨_, List.mem_cons_self, ?_⟩
            rw [Bool.and_eq_true] at hrepeats
            simp [Frame.holds, hrepeats.1]
          · exact .inl ⟨other, (List.mem_filter.mp hkept).1, rfl⟩
        · exact .inl ⟨other, hother, rfl⟩
      · rcases List.mem_cons.mp hmem with rfl | hmem
        · refine .inr ⟨_, List.mem_cons_self, ?_⟩
          rw [Frame.holds, Bool.or_eq_true]
          exact .inr hholds
        · exact .inr ⟨frame, .tail _ hmem, hholds⟩

theorem past_of_step (hstep : Step behave run later) {event : LoopEvent Task}
    (hmem : event ∈ run.past) : event ∈ later.past := by
  cases hstep with
  | call run call calls stack hstack => exact List.mem_append_right _ hmem
  | microtask | quiet | round | start => exact .tail _ hmem
  | _ => exact hmem

end Step

theorem cleared_begin (calls : List (LoopCall Task)) : (begin calls).Cleared where
  obeyed := trivial
  dead id hcancelled := absurd hcancelled cancelled_nil
  issued id hlive := by
    rcases hlive with ⟨timer, htimer, _⟩ | ⟨frame, hmem, hholds⟩
    · exact absurd htimer List.not_mem_nil
    · rw [List.mem_singleton.mp hmem] at hholds
      cases hholds
  scheduled id now delay hmem := absurd hmem List.not_mem_nil

/-- In every run in which no timer is cleared while a round holds it for another start, no timer starts
after it was cleared. -/
theorem obeyed_of_reaches (behave : List (LoopEvent Task) → Task → List (LoopCall Task))
    (calls : List (LoopCall Task)) (run : LoopRun Task) (hreaches : Reaches behave (begin calls) run)
    (hfree : ∀ id, LoopEvent.cleared id true ∉ run.past) : Obeyed run.past := by
  have hcleared : (∀ id, LoopEvent.cleared id true ∉ run.past) → run.Cleared := by
    refine hreaches.invariant
      (fun run => (∀ id, LoopEvent.cleared id true ∉ run.past) → run.Cleared)
      (fun _ => cleared_begin calls) ?_
    intro run later hstep ih hfree
    exact (ih fun id hmem => hfree id (past_of_step hstep hmem)).step hstep hfree
  exact (hcleared hfree).obeyed

/-- A timeout that is cleared before it is due never starts. -/
theorem obeyed_of_cleared_timeout :
    (∃ run, Reaches (fun _ _ => []) (begin [.setTimeout (some ()) 5, .clearTimer 1, .advance 9]) run ∧
      LoopEvent.cleared 1 false ∈ run.past ∧ LoopEvent.returned 9 ∈ run.past ∧ Obeyed run.past) := by
  let run : LoopRun Unit := ⟨⟨9, 1, [], []⟩, [.code []],
    [.returned 9, .advanced 0 9, .cleared 1 false, .scheduled 1 0 5]⟩
  have hreaches : Reaches (fun _ _ => [])
      (begin [.setTimeout (some ()) 5, .clearTimer 1, .advance 9]) run :=
    @reaches_of_steps _ _ 5 _ _ (by decide)
  exact ⟨run, hreaches, by decide, by decide, obeyed_of_reaches _ _ run hreaches (by
    intro id
    simp [run])⟩

/-- An interval that clears itself starts again. -/
theorem interval_survives_clear :
    ¬∀ (behave : List (LoopEvent Unit) → Unit → List (LoopCall Unit)) calls run,
      Reaches behave (begin calls) run → Obeyed run.past := by
  intro hclaim
  let run : LoopRun Unit := ⟨⟨10, 1, [], []⟩,
    [.code [.clearTimer 1], .microtasks, .settle ⟨⟨1, true, 5, false⟩, 10, ()⟩ [], .rounds, .code []],
    [.started 1 10 [], .round 10 [1], .advanced 5 5, .returned 5, .cleared 1 true, .started 1 5 [],
      .round 5 [1], .advanced 0 5, .scheduled 1 0 5]⟩
  have hreaches : Reaches (fun _ _ => [.clearTimer 1])
      (begin [.setInterval (some ()) 5, .advance 5, .advance 5]) run :=
    @reaches_of_steps _ _ 15 _ _ (by decide)
  have hobeyed := hclaim _ _ run hreaches
  refine hobeyed.1 ⟨[.round 10 [1], .advanced 5 5, .returned 5], _, true, 0, 5, rfl, ?_⟩
  simp

end LoopRun

end Jayess.Runtime
