import Jayess.Runtime.HttpServerEvents

/-!
# Runs of listeners

What a run of a server must look like: a listener that should run once does, one that was taken out
runs in no later emission, and an emission runs the listeners that are registered when it starts.
-/

namespace Jayess.Runtime

variable {Handler : Type}

/-- The listeners of an event, from what happened: in the order of their registration, without those that
were taken out. -/
def registeredAt (name : String) : List (ServerEvent Handler) → List (HttpServerListener Handler)
  | [] => []
  | .registered other listener :: past =>
      if other = name then registeredAt name past ++ [listener] else registeredAt name past
  | .removed other id :: past =>
      if other = name then (registeredAt name past).filter (·.id ≠ id) else registeredAt name past
  | .cleared other :: past => if other = "" ∨ other = name then [] else registeredAt name past
  | .started .. :: past | .ran .. :: past | .finished _ :: past => registeredAt name past

def ServerEvent.ranIn (number : Nat) : ServerEvent Handler → Option (HttpServerListener Handler)
  | .ran other listener => if other = number then some listener else none
  | _ => none

def ranIn (number : Nat) (past : List (ServerEvent Handler)) : List (HttpServerListener Handler) :=
  (past.filterMap (·.ranIn number)).reverse

def ServerEvent.runs (id : Int64) : ServerEvent Handler → Bool
  | .ran _ listener => listener.id = id
  | _ => false

def ServerEvent.isRegistration : ServerEvent Handler → Bool
  | .registered .. => true
  | _ => false

/-- A listener registered with `Once` runs at most once. -/
def OnceRunsOnce (past : List (ServerEvent Handler)) : Prop :=
  ∀ name listener, .registered name listener ∈ past → listener.once = true →
    past.countP (·.runs listener.id) ≤ 1

/-- A listener whose `Off` returned true is run by no emission that starts later. -/
def OffIsFinal (past : List (ServerEvent Handler)) : Prop :=
  ∀ later earlier name id, past = later ++ .removed name id :: earlier →
    ∀ number event snapshot, .started number event snapshot ∈ later →
      ∀ listener, .ran number listener ∈ past → listener.id ≠ id

/-- An emission runs the listeners that are registered when it starts, in order, each once, and all of them
by its end. -/
def EmitsComplete (past : List (ServerEvent Handler)) : Prop :=
  ∀ later earlier number name snapshot, past = later ++ .started number name snapshot :: earlier →
    (registeredAt name earlier).Nodup ∧ ranIn number past <+: registeredAt name earlier ∧
      (.finished number ∈ past → ranIn number past = registeredAt name earlier)

namespace ServerRun

/-- A step that keeps the rules: the IDs do not run out, and no listener that should run once is in the
snapshot of an emission while another one of the same event has still to run it, or is running it. -/
def Safe (state : ServerRun Handler) : ServerAct Handler → Prop
  | .on .. => state.past.countP (·.isRegistration) + 1 < 2 ^ 64
  | .emit name => ∀ listener ∈ state.events.snapshot name, listener.once = true →
      ∀ emission ∈ state.stack, emission.name = name → listener ∉ emission.unfinished
  | _ => True

/-- The states that allowed steps lead to. -/
inductive Reaches (allowed : ServerRun Handler → ServerAct Handler → Prop) : ServerRun Handler → Prop
  | start : Reaches allowed start
  | step {state next : ServerRun Handler} (act : ServerAct Handler) (hreaches : Reaches allowed state)
      (hallowed : allowed state act) (hstep : state.step act = some next) : Reaches allowed next

end ServerRun

/-- Every event of the past was possible when it happened. -/
def Orderly : List (ServerEvent Handler) → Prop
  | [] => True
  | .registered name listener :: past =>
      name ≠ "" ∧ listener.id ≠ 0 ∧
        (∀ other listener', .registered other listener' ∈ past → listener'.id ≠ listener.id) ∧
          Orderly past
  | .removed name id :: past => (∃ listener ∈ registeredAt name past, listener.id = id) ∧ Orderly past
  | .started number name snapshot :: past =>
      snapshot = registeredAt name past ∧
        (∀ other snapshot', .started number other snapshot' ∉ past) ∧ ranIn number past = [] ∧
          .finished number ∉ past ∧ Orderly past
  | .cleared _ :: past | .ran .. :: past | .finished _ :: past => Orderly past

section Orderly

variable {past : List (ServerEvent Handler)} {name other : String}
  {listener second : HttpServerListener Handler} {id : Int64}

theorem Orderly.tail {event : ServerEvent Handler} (horderly : Orderly (event :: past)) :
    Orderly past := by
  cases event with
  | registered => exact horderly.2.2.2
  | removed => exact horderly.2
  | started => exact horderly.2.2.2.2
  | cleared | ran | finished => exact horderly

theorem mem_of_registeredAt (hmem : listener ∈ registeredAt name past) :
    .registered name listener ∈ past := by
  induction past with
  | nil => exact absurd hmem List.not_mem_nil
  | cons event past ih =>
      cases event with
      | registered other listener' =>
          rw [registeredAt] at hmem
          split at hmem
          · rename_i heq
            rcases List.mem_append.mp hmem with hold | hnew
            · exact .tail _ (ih hold)
            · rw [List.mem_singleton.mp hnew, heq]
              exact .head _
          · exact .tail _ (ih hmem)
      | removed =>
          rw [registeredAt] at hmem
          split at hmem
          · exact .tail _ (ih (List.mem_filter.mp hmem).1)
          · exact .tail _ (ih hmem)
      | cleared =>
          rw [registeredAt] at hmem
          split at hmem
          · exact absurd hmem List.not_mem_nil
          · exact .tail _ (ih hmem)
      | started | ran | finished => exact .tail _ (ih hmem)

theorem Orderly.unique (horderly : Orderly past) (hfirst : .registered name listener ∈ past)
    (hsecond : .registered other second ∈ past) (hid : listener.id = second.id) :
    name = other ∧ listener = second := by
  induction past with
  | nil => exact absurd hfirst List.not_mem_nil
  | cons event past ih =>
      rcases List.mem_cons.mp hfirst with rfl | hearlier
      · rcases List.mem_cons.mp hsecond with heq | hearlier
        · injection heq with hname hlistener
          exact ⟨hname.symm, hlistener.symm⟩
        · exact absurd hid.symm (horderly.2.2.1 _ _ hearlier)
      · rcases List.mem_cons.mp hsecond with rfl | hearlier'
        · exact absurd hid (horderly.2.2.1 _ _ hearlier)
        · exact ih horderly.tail hearlier hearlier'

theorem Orderly.registered_of_removed (horderly : Orderly past) (hremoved : .removed name id ∈ past) :
    ∃ listener, .registered name listener ∈ past ∧ listener.id = id := by
  induction past with
  | nil => exact absurd hremoved List.not_mem_nil
  | cons event past ih =>
      rcases List.mem_cons.mp hremoved with rfl | hremoved
      · obtain ⟨listener, hmem, hid⟩ := horderly.1
        exact ⟨listener, .tail _ (mem_of_registeredAt hmem), hid⟩
      · obtain ⟨listener, hmem, hid⟩ := ih horderly.tail hremoved
        exact ⟨listener, .tail _ hmem, hid⟩

theorem Orderly.nodup (horderly : Orderly past) (name : String) :
    ((registeredAt name past).map (·.id)).Nodup := by
  induction past with
  | nil => exact List.nodup_nil
  | cons event past ih =>
      have hold := ih horderly.tail
      cases event with
      | registered other listener =>
          rw [registeredAt]
          split
          · rw [List.map_append, List.nodup_append]
            refine ⟨hold, List.nodup_singleton _, ?_⟩
            intro id hid second hsecond heq
            obtain ⟨listener', hmem, rfl⟩ := List.mem_map.mp hid
            rw [List.map_singleton, List.mem_singleton] at hsecond
            exact horderly.2.2.1 _ _ (mem_of_registeredAt hmem) (heq.trans hsecond)
          · exact hold
      | removed =>
          rw [registeredAt]
          split
          · exact hold.sublist (List.filter_sublist.map _)
          · exact hold
      | cleared =>
          rw [registeredAt]
          split
          · exact List.nodup_nil
          · exact hold
      | started | ran | finished => exact hold

theorem Orderly.not_mem_of_removed (horderly : Orderly past) (hremoved : .removed name id ∈ past)
    (hmem : listener ∈ registeredAt other past) : listener.id ≠ id := by
  induction past with
  | nil => exact absurd hremoved List.not_mem_nil
  | cons event past ih =>
      cases event with
      | registered third listener' =>
          have hremoved : .removed name id ∈ past := by simpa using hremoved
          rw [registeredAt] at hmem
          split at hmem
          · rcases List.mem_append.mp hmem with hold | hnew
            · exact ih horderly.tail hremoved hold
            · rw [List.mem_singleton.mp hnew]
              obtain ⟨earlier, hearlier, rfl⟩ := horderly.tail.registered_of_removed hremoved
              exact fun heq => horderly.2.2.1 _ _ hearlier heq.symm
          · exact ih horderly.tail hremoved hmem
      | removed third id' =>
          rcases List.mem_cons.mp hremoved with heq | hremoved
          · injection heq with hname hid
            subst hname hid
            obtain ⟨taken, htaken, rfl⟩ := horderly.1
            rw [registeredAt] at hmem
            split at hmem
            · simpa using (List.mem_filter.mp hmem).2
            · rename_i hother
              intro heq
              exact hother (horderly.tail.unique (mem_of_registeredAt htaken)
                (mem_of_registeredAt hmem) heq.symm).1
          · rw [registeredAt] at hmem
            split at hmem
            · exact ih horderly.tail hremoved (List.mem_filter.mp hmem).1
            · exact ih horderly.tail hremoved hmem
      | cleared =>
          have hremoved : .removed name id ∈ past := by simpa using hremoved
          rw [registeredAt] at hmem
          split at hmem
          · exact absurd hmem List.not_mem_nil
          · exact ih horderly.tail hremoved hmem
      | started | ran | finished =>
          have hremoved : .removed name id ∈ past := by simpa using hremoved
          exact ih horderly.tail hremoved hmem

end Orderly

section Traced

variable {past : List (ServerEvent Handler)} {event : ServerEvent Handler} {number other : Nat}
  {listener : HttpServerListener Handler}

theorem ranIn_cons (hevent : event.ranIn number = none) :
    ranIn number (event :: past) = ranIn number past := by
  rw [ranIn, List.filterMap_cons_none hevent, ranIn]

theorem ranIn_ran_self : ranIn number (.ran number listener :: past) = ranIn number past ++ [listener] := by
  have hran : (ServerEvent.ran number listener).ranIn number = some listener := if_pos rfl
  rw [ranIn, List.filterMap_cons_some hran, List.reverse_cons, ranIn]

theorem ranIn_ran_other (hother : other ≠ number) :
    ranIn number (.ran other listener :: past) = ranIn number past :=
  ranIn_cons (if_neg hother)

theorem mem_ranIn : listener ∈ ranIn number past ↔ .ran number listener ∈ past := by
  rw [ranIn, List.mem_reverse, List.mem_filterMap]
  constructor
  · rintro ⟨event, hmem, hran⟩
    cases event with
    | ran other second =>
        rw [ServerEvent.ranIn] at hran
        split at hran
        · rename_i heq
          rwa [heq, Option.some.inj hran] at hmem
        · exact absurd hran (Option.some_ne_none _).symm
    | registered | removed | cleared | started | finished =>
        exact absurd hran (Option.some_ne_none _).symm
  · exact fun hmem => ⟨_, hmem, if_pos rfl⟩

/-- The stacked emissions have run what is not pending, and the finished ones everything. -/
structure Traced (stack : List (Emission Handler)) (emissions : Nat) (past : List (ServerEvent Handler)) :
    Prop where
  distinct : (stack.map (·.number)).Nodup
  fresh : ∀ number, emissions ≤ number → ranIn number past = [] ∧ .finished number ∉ past ∧
    ∀ name snapshot, .started number name snapshot ∉ past
  stacked : ∀ emission ∈ stack, emission.number < emissions ∧ .finished emission.number ∉ past ∧
    ∀ name snapshot, .started emission.number name snapshot ∈ past →
      snapshot = ranIn emission.number past ++ emission.pending
  ended : ∀ number name snapshot, .finished number ∈ past → .started number name snapshot ∈ past →
    ranIn number past = snapshot
  either : ∀ number name snapshot, .started number name snapshot ∈ past →
    .finished number ∈ past ∨ ∃ emission ∈ stack, emission.number = number

def ServerEvent.isTable : ServerEvent Handler → Bool
  | .registered .. | .removed .. | .cleared .. => true
  | .started .. | .ran .. | .finished .. => false

variable {stack : List (Emission Handler)} {emission : Emission Handler} {emissions : Nat} {name : String}
  {pending snapshot : List (HttpServerListener Handler)}

theorem Traced.ranIn_prefix (htraced : Traced stack emissions past)
    (hstarted : .started number name snapshot ∈ past) : ranIn number past <+: snapshot := by
  rcases htraced.either _ _ _ hstarted with hfinished | ⟨emission, hmem, rfl⟩
  · exact (htraced.ended _ _ _ hfinished hstarted).symm ▸ List.prefix_rfl
  · rw [(htraced.stacked _ hmem).2.2 _ _ hstarted]
    exact List.prefix_append _ _

theorem Traced.table (htraced : Traced stack emissions past) (htable : event.isTable = true) :
    Traced stack emissions (event :: past) := by
  have hran : ∀ number, ranIn number (event :: past) = ranIn number past := by
    intro number
    refine ranIn_cons ?_
    cases event with
    | registered | removed | cleared => rfl
    | started | ran | finished => exact absurd htable Bool.false_ne_true
  have hfinished : ∀ number, .finished number ∈ event :: past ↔ .finished number ∈ past := by
    intro number
    cases event with
    | registered | removed | cleared => simp
    | started | ran | finished => exact absurd htable Bool.false_ne_true
  have hstarted : ∀ number name snapshot,
      .started number name snapshot ∈ event :: past ↔ .started number name snapshot ∈ past := by
    intro number name snapshot
    cases event with
    | registered | removed | cleared => simp
    | started | ran | finished => exact absurd htable Bool.false_ne_true
  obtain ⟨hdistinct, hfresh, hstacked, hended, heither⟩ := htraced
  constructor
  · exact hdistinct
  · simpa only [hran, hfinished, hstarted] using hfresh
  · simpa only [hran, hfinished, hstarted] using hstacked
  · simpa only [hran, hfinished, hstarted] using hended
  · simpa only [hfinished, hstarted] using heither

theorem Traced.start (htraced : Traced stack emissions past) :
    Traced (⟨emissions, name, none, snapshot⟩ :: stack) (emissions + 1)
      (.started emissions name snapshot :: past) := by
  have hran : ∀ number, ranIn number (.started emissions name snapshot :: past) = ranIn number past :=
    fun _ => ranIn_cons rfl
  obtain ⟨hnone, hunfinished, hunstarted⟩ := htraced.fresh emissions le_rfl
  constructor
  · rw [List.map_cons, List.nodup_cons]
    refine ⟨fun hmem => ?_, htraced.distinct⟩
    obtain ⟨emission, hemission, heq⟩ := List.mem_map.mp hmem
    exact absurd (htraced.stacked emission hemission).1 (by rw [heq]; exact lt_irrefl _)
  · intro number hle
    obtain ⟨hranIn, hfinished, hstarted⟩ := htraced.fresh number (by omega)
    refine ⟨(hran number).trans hranIn, by simpa using hfinished, fun name' snapshot' hmem => ?_⟩
    rcases List.mem_cons.mp hmem with heq | hmem
    · injection heq with hnumber
      omega
    · exact hstarted _ _ hmem
  · intro emission hmem
    rcases List.mem_cons.mp hmem with rfl | hmem
    · refine ⟨Nat.lt_succ_self _, by simpa using hunfinished, fun name' snapshot' hstarted => ?_⟩
      rcases List.mem_cons.mp hstarted with heq | hstarted
      · injection heq with _ _ hsnapshot
        rw [hran, hnone, List.nil_append, hsnapshot]
      · exact absurd hstarted (hunstarted _ _)
    · obtain ⟨hlt, hfinished, hstarted⟩ := htraced.stacked emission hmem
      refine ⟨Nat.lt_succ_of_lt hlt, by simpa using hfinished, fun name' snapshot' hmem => ?_⟩
      rcases List.mem_cons.mp hmem with heq | hmem
      · injection heq with hnumber
        exact absurd hnumber (Nat.ne_of_lt hlt)
      · rw [hran]
        exact hstarted _ _ hmem
  · intro number name' snapshot' hfinished hstarted
    have hfinished : .finished number ∈ past := by simpa using hfinished
    rw [hran]
    rcases List.mem_cons.mp hstarted with heq | hstarted
    · injection heq with hnumber
      exact absurd (hnumber ▸ hfinished) hunfinished
    · exact htraced.ended _ _ _ hfinished hstarted
  · intro number name' snapshot' hstarted
    rcases List.mem_cons.mp hstarted with heq | hstarted
    · injection heq with hnumber
      exact .inr ⟨_, .head _, hnumber.symm⟩
    · rcases htraced.either _ _ _ hstarted with hfinished | ⟨emission, hmem, heq⟩
      · exact .inl (.tail _ hfinished)
      · exact .inr ⟨emission, .tail _ hmem, heq⟩

variable {running : Option (HttpServerListener Handler)}

theorem Traced.ran
    (htraced : Traced (⟨number, name, running, listener :: pending⟩ :: stack) emissions past) :
    Traced (⟨number, name, some listener, pending⟩ :: stack) emissions (.ran number listener :: past) := by
  obtain ⟨hlt, hunfinished, hopen⟩ := htraced.stacked _ (.head _)
  have hdistinct := htraced.distinct
  rw [List.map_cons, List.nodup_cons] at hdistinct
  constructor
  · exact htraced.distinct
  · intro other hle
    obtain ⟨hranIn, hfinished, hstarted⟩ := htraced.fresh other hle
    refine ⟨?_, by simpa using hfinished, by simpa using hstarted⟩
    rw [ranIn_ran_other (by change number < emissions at hlt; omega), hranIn]
  · intro emission hmem
    rcases List.mem_cons.mp hmem with rfl | hmem
    · refine ⟨hlt, by simpa using hunfinished, fun name' snapshot' hstarted => ?_⟩
      have hstarted : .started number name' snapshot' ∈ past := by simpa using hstarted
      rw [ranIn_ran_self, List.append_assoc, hopen _ _ hstarted]
      rfl
    · obtain ⟨hlt', hfinished, hstarted⟩ := htraced.stacked emission (.tail _ hmem)
      refine ⟨hlt', by simpa using hfinished, fun name' snapshot' hstarted' => ?_⟩
      have hne : number ≠ emission.number := fun heq => hdistinct.1 (List.mem_map.mpr ⟨emission, hmem, heq.symm⟩)
      rw [ranIn_ran_other hne]
      exact hstarted _ _ (by simpa using hstarted')
  · intro other name' snapshot' hfinished hstarted
    have hfinished : .finished other ∈ past := by simpa using hfinished
    have hne : number ≠ other := by
      rintro rfl
      exact hunfinished hfinished
    rw [ranIn_ran_other hne]
    exact htraced.ended _ _ _ hfinished (by simpa using hstarted)
  · intro other name' snapshot' hstarted
    rcases htraced.either _ _ _ (by simpa using hstarted) with hfinished | ⟨emission, hmem, rfl⟩
    · exact .inl (.tail _ hfinished)
    · rcases List.mem_cons.mp hmem with rfl | hmem
      · exact .inr ⟨_, .head _, rfl⟩
      · exact .inr ⟨emission, .tail _ hmem, rfl⟩

theorem Traced.returned
    (htraced : Traced (⟨number, name, running, pending⟩ :: stack) emissions past) :
    Traced (⟨number, name, none, pending⟩ :: stack) emissions past := by
  constructor
  · exact htraced.distinct
  · exact htraced.fresh
  · intro emission hmem
    rcases List.mem_cons.mp hmem with rfl | hmem
    · exact htraced.stacked ⟨number, name, running, pending⟩ (.head _)
    · exact htraced.stacked _ (.tail _ hmem)
  · exact htraced.ended
  · intro other name' snapshot' hstarted
    rcases htraced.either _ _ _ hstarted with hfinished | ⟨emission, hmem, rfl⟩
    · exact .inl hfinished
    · rcases List.mem_cons.mp hmem with rfl | hmem
      · exact .inr ⟨_, .head _, rfl⟩
      · exact .inr ⟨emission, .tail _ hmem, rfl⟩

theorem Traced.finished (htraced : Traced (⟨number, name, running, []⟩ :: stack) emissions past) :
    Traced stack emissions (.finished number :: past) := by
  obtain ⟨hlt, hunfinished, hopen⟩ := htraced.stacked _ (.head _)
  have hran : ∀ other, ranIn other (.finished number :: past) = ranIn other past := fun _ => ranIn_cons rfl
  have hdistinct := htraced.distinct
  rw [List.map_cons, List.nodup_cons] at hdistinct
  constructor
  · exact hdistinct.2
  · intro other hle
    obtain ⟨hranIn, hfinished, hstarted⟩ := htraced.fresh other hle
    refine ⟨(hran other).trans hranIn, ?_, by simpa using hstarted⟩
    have hne : other ≠ number := by change number < emissions at hlt; omega
    simpa [hne] using hfinished
  · intro emission hmem
    obtain ⟨hlt', hfinished, hstarted⟩ := htraced.stacked emission (.tail _ hmem)
    have hne : emission.number ≠ number := fun heq => hdistinct.1 (List.mem_map.mpr ⟨emission, hmem, heq⟩)
    refine ⟨hlt', by simpa [hne] using hfinished, fun name' snapshot' hstarted' => ?_⟩
    rw [hran]
    exact hstarted _ _ (by simpa using hstarted')
  · intro other name' snapshot' hfinished hstarted
    have hearlier : .started other name' snapshot' ∈ past := by simpa using hstarted
    rw [hran]
    rcases List.mem_cons.mp hfinished with heq | hfinished
    · injection heq with hnumber
      subst hnumber
      rw [hopen _ _ hearlier, List.append_nil]
    · exact htraced.ended _ _ _ hfinished hearlier
  · intro other name' snapshot' hstarted
    rcases htraced.either _ _ _ (by simpa using hstarted) with hfinished | ⟨emission, hmem, rfl⟩
    · exact .inl (.tail _ hfinished)
    · rcases List.mem_cons.mp hmem with rfl | hmem
      · exact .inl (.head _)
      · exact .inr ⟨emission, hmem, rfl⟩

end Traced

end Jayess.Runtime
