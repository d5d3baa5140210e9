import Jayess.Runtime.ListenerRuns

/-!
# Safe runs of listeners

The invariant of the table, the stacked emissions and what happened, kept by every safe step, and
from it that the runs of a server are as they should be.
-/

namespace Jayess.Runtime

variable {Handler : Type}

/-- The table holds what is registered, and the emissions run nothing else. -/
structure ServerRun.Consistent (state : ServerRun Handler) : Prop where
  traced : Traced state.stack state.emissions state.past
  orderly : Orderly state.past
  counted : state.events.nextID.toBitVec.toNat = state.past.countP (·.isRegistration)
  current : ∀ name, state.events.snapshot name = registeredAt name state.past
  issued : ∀ name listener, .registered name listener ∈ state.past →
    listener.id.toBitVec.toNat ≤ state.past.countP (·.isRegistration)
  waiting : ∀ emission ∈ state.stack, ∀ listener ∈ emission.unfinished,
    .registered emission.name listener ∈ state.past
  known : ∀ number listener, .ran number listener ∈ state.past →
    ∃ name, .registered name listener ∈ state.past

def waitingFor (id : Int64) (stack : List (Emission Handler)) : Nat :=
  (stack.map fun emission => emission.pending.countP (·.id = id)).sum

/-- A listener that should run once has run or is to run at most once, and while it is registered only
if an emission of its event has not finished with it. -/
def ServerRun.Single (state : ServerRun Handler) : Prop :=
  ∀ name listener, .registered name listener ∈ state.past → listener.once = true →
    state.past.countP (·.runs listener.id) + waitingFor listener.id state.stack ≤ 1 ∧
      (listener ∈ registeredAt name state.past →
        state.past.countP (·.runs listener.id) + waitingFor listener.id state.stack = 0 ∨
          ∃ emission ∈ state.stack, emission.name = name ∧ listener ∈ emission.unfinished)

section Past

variable {past : List (ServerEvent Handler)} {name : String} {listener second : HttpServerListener Handler}

theorem Orderly.registered_ne (horderly : Orderly past) (hmem : .registered name listener ∈ past) :
    name ≠ "" ∧ listener.id ≠ 0 := by
  induction past with
  | nil => exact absurd hmem List.not_mem_nil
  | cons event past ih =>
      rcases List.mem_cons.mp hmem with rfl | hearlier
      · exact ⟨horderly.1, horderly.2.1⟩
      · exact ih horderly.tail hearlier

theorem Orderly.registeredAt_empty (horderly : Orderly past) : registeredAt "" past = [] := by
  refine List.eq_nil_iff_forall_not_mem.mpr fun listener hmem => ?_
  exact (horderly.registered_ne (mem_of_registeredAt hmem)).1 rfl

theorem Orderly.countP_registeredAt (horderly : Orderly past) (hmem : listener ∈ registeredAt name past) :
    (registeredAt name past).countP (·.id = listener.id) = 1 := by
  have hnodup := horderly.nodup name
  have hcount : ((registeredAt name past).map (·.id)).count listener.id = 1 :=
    List.count_eq_one_of_mem hnodup (List.mem_map_of_mem hmem)
  rw [List.count, List.countP_map] at hcount
  rw [← hcount]
  refine List.countP_congr fun second _ => ?_
  simp

theorem countP_runs_eq_zero
    (habsent : ∀ number listener, .ran number listener ∈ past → listener.id ≠ second.id) :
    past.countP (·.runs second.id) = 0 := by
  refine List.countP_eq_zero.mpr fun event hmem => ?_
  cases event with
  | ran number listener => simpa [ServerEvent.runs] using habsent number listener hmem
  | registered | removed | cleared | started | finished => exact Bool.false_ne_true

end Past

section Waiting

variable {stack : List (Emission Handler)} {emission : Emission Handler} {id : Int64}

@[simp]
theorem waitingFor_cons :
    waitingFor id (emission :: stack) = emission.pending.countP (·.id = id) + waitingFor id stack := by
  rw [waitingFor, List.map_cons, List.sum_cons, waitingFor]

theorem waitingFor_eq_zero (habsent : ∀ emission ∈ stack, ∀ listener ∈ emission.pending, listener.id ≠ id) :
    waitingFor id stack = 0 := by
  induction stack with
  | nil => rfl
  | cons emission rest ih =>
      rw [waitingFor_cons, ih fun second hmem => habsent second (.tail _ hmem)]
      refine List.countP_eq_zero.mpr fun listener hmem => ?_
      simpa using habsent emission (.head _) listener hmem

end Waiting

namespace ServerRun

variable {state : ServerRun Handler} {name : String} {id : Int64}

theorem Consistent.start : (start : ServerRun Handler).Consistent := by
  refine ⟨⟨List.nodup_nil, fun number _ => ⟨rfl, List.not_mem_nil, fun _ _ => List.not_mem_nil⟩, ?_, ?_, ?_⟩,
    trivial, rfl, fun _ => rfl, ?_, ?_, ?_⟩
  · exact fun _ hmem => absurd hmem List.not_mem_nil
  · exact fun _ _ _ hmem => absurd hmem List.not_mem_nil
  · exact fun _ _ _ hmem => absurd hmem List.not_mem_nil
  · exact fun _ _ hmem => absurd hmem List.not_mem_nil
  · exact fun _ hmem => absurd hmem List.not_mem_nil
  · exact fun _ _ hmem => absurd hmem List.not_mem_nil

theorem Single.start : (start : ServerRun Handler).Single :=
  fun _ _ hmem => absurd hmem List.not_mem_nil

theorem Consistent.table {events : HttpServerEvents Handler} {event : ServerEvent Handler}
    (hconsistent : state.Consistent) (htable : event.isTable = true) (horderly : Orderly (event :: state.past))
    (hcounted : events.nextID.toBitVec.toNat = (event :: state.past).countP (·.isRegistration))
    (hcurrent : ∀ name, events.snapshot name = registeredAt name (event :: state.past))
    (hissued : ∀ name listener, .registered name listener ∈ event :: state.past →
      listener.id.toBitVec.toNat ≤ (event :: state.past).countP (·.isRegistration)) :
    { state with events, past := event :: state.past }.Consistent where
  traced := hconsistent.traced.table htable
  orderly := horderly
  counted := hcounted
  current := hcurrent
  issued := hissued
  waiting emission hemission listener hlistener :=
    .tail _ (hconsistent.waiting emission hemission listener hlistener)
  known number listener hmem := by
    have hmem : .ran number listener ∈ state.past := by
      cases event with
      | registered | removed | cleared => simpa using hmem
      | started | ran | finished => exact absurd htable Bool.false_ne_true
    obtain ⟨name, hregistered⟩ := hconsistent.known number listener hmem
    exact ⟨name, .tail _ hregistered⟩

theorem Single.shrink {events : HttpServerEvents Handler} {event : ServerEvent Handler}
    (hsingle : state.Single) (htable : event.isTable = true) (hregistration : event.isRegistration = false)
    (hsubset : ∀ name, registeredAt name (event :: state.past) ⊆ registeredAt name state.past) :
    { state with events, past := event :: state.past }.Single := by
  intro name listener hmem honce
  have hmem : .registered name listener ∈ state.past := by
    cases event with
    | removed | cleared => simpa using hmem
    | registered => exact absurd hregistration.symm Bool.false_ne_true
    | started | ran | finished => exact absurd htable Bool.false_ne_true
  have hruns : ¬event.runs listener.id = true := by
    cases event with
    | registered | removed | cleared => exact Bool.false_ne_true
    | started | ran | finished => exact absurd htable Bool.false_ne_true
  rw [List.countP_cons_of_neg hruns]
  obtain ⟨hle, hregistered⟩ := hsingle name listener hmem honce
  exact ⟨hle, fun hpresent => hregistered (hsubset name hpresent)⟩

theorem Consistent.callOff_cases (hconsistent : state.Consistent) (name : String) (id : Int64) :
    (∃ events : HttpServerEvents Handler,
        state.callOff name id = { state with events, past := .removed name id :: state.past } ∧
          events.nextID = state.events.nextID ∧
          (∀ other, events.snapshot other = registeredAt other (.removed name id :: state.past)) ∧
            ∃ listener ∈ registeredAt name state.past, listener.id = id) ∨
      state.callOff name id = state ∧ ∀ listener ∈ registeredAt name state.past, listener.id ≠ id := by
  by_cases hpresent : ∃ listener ∈ registeredAt name state.past, listener.id = id
  · left
    obtain ⟨listener, hmem, hid⟩ := hpresent
    have hne := hconsistent.orderly.registered_ne (mem_of_registeredAt hmem)
    have hnodup := hconsistent.orderly.nodup name
    have hsnapshot := hconsistent.current name
    rw [← hsnapshot] at hnodup hmem
    have hoff := HttpServerEvents.off_of_present hne.1 (hid ▸ hne.2) hnodup ⟨listener, hmem, hid⟩
    refine ⟨{ state.events with
      listeners := state.events.listeners.insert name ((state.events.snapshot name).filter (·.id ≠ id)) },
      by rw [callOff, hoff]; rfl, rfl, fun other => ?_, listener, hsnapshot ▸ hmem, hid⟩
    rw [HttpServerEvents.snapshot_insert, hconsistent.current, hconsistent.current, registeredAt]
    split
    · rename_i heq
      rw [heq]
    · rfl
  · right
    have habsent : ∀ listener ∈ registeredAt name state.past, listener.id ≠ id := by
      simpa using hpresent
    refine ⟨?_, habsent⟩
    rw [callOff, HttpServerEvents.off_of_absent (by rwa [hconsistent.current])]
    rfl

theorem Consistent.callOff (hconsistent : state.Consistent) : (state.callOff name id).Consistent := by
  rcases hconsistent.callOff_cases name id with ⟨events, heq, hnext, hcurrent, hpresent⟩ | ⟨heq, -⟩
  · rw [heq]
    refine hconsistent.table rfl ⟨hpresent, hconsistent.orderly⟩ ?_ hcurrent fun other listener hmem => ?_
    · rw [hnext, hconsistent.counted]
      rfl
    · exact hconsistent.issued other listener (by simpa using hmem)
  · rwa [heq]

theorem Single.callOff (hsingle : state.Single) (hconsistent : state.Consistent) :
    (state.callOff name id).Single := by
  rcases hconsistent.callOff_cases name id with ⟨events, heq, -⟩ | ⟨heq, -⟩
  · rw [heq]
    refine hsingle.shrink rfl rfl fun other => ?_
    rw [registeredAt]
    split
    · exact List.filter_subset_self _ 
    · exact List.Subset.refl _
  · rwa [heq]

theorem Consistent.callRemoveAll (hconsistent : state.Consistent) :
    (state.callRemoveAll name).Consistent := by
  refine hconsistent.table rfl hconsistent.orderly ?_ (fun other => ?_) fun other listener hmem => ?_
  · rw [HttpServerEvents.nextID_removeAll, hconsistent.counted]
    rfl
  · rw [HttpServerEvents.snapshot_removeAll, hconsistent.current]
    rfl
  · exact hconsistent.issued other listener (by simpa using hmem)

theorem Single.callRemoveAll (hsingle : state.Single) : (state.callRemoveAll name).Single := by
  refine hsingle.shrink rfl rfl fun other => ?_
  rw [registeredAt]
  split
  · exact List.nil_subset _
  · exact List.Subset.refl _

section On

variable {handler : Handler} {once : Bool}

theorem callOn_empty (handler : Option Handler) : state.callOn "" handler once = state := by
  cases handler <;> rfl

theorem callOn_some (hname : name ≠ "") :
    state.callOn name (some handler) once =
      { state with
        events := ⟨state.events.nextID + 1, state.events.listeners.insert name
          (state.events.snapshot name ++ [⟨state.events.nextID + 1, handler, once⟩])⟩
        past := .registered name ⟨state.events.nextID + 1, handler, once⟩ :: state.past } := by
  simp only [callOn, HttpServerEvents.on, if_neg hname]

theorem Consistent.nextID_toNat (hconsistent : state.Consistent)
    (hfits : state.past.countP (·.isRegistration) + 1 < 2 ^ 64) :
    (state.events.nextID + 1).toBitVec.toNat = state.past.countP (·.isRegistration) + 1 := by
  rw [Int64.toBitVec_add, BitVec.toNat_add, hconsistent.counted]
  exact Nat.mod_eq_of_lt hfits

theorem Consistent.nextID_fresh (hconsistent : state.Consistent)
    (hfits : state.past.countP (·.isRegistration) + 1 < 2 ^ 64) {listener : HttpServerListener Handler}
    (hmem : .registered name listener ∈ state.past) : listener.id ≠ state.events.nextID + 1 := by
  intro heq
  have hle := hconsistent.issued name listener hmem
  rw [heq, hconsistent.nextID_toNat hfits] at hle
  omega

theorem Consistent.callOn (hconsistent : state.Consistent)
    (hfits : state.past.countP (·.isRegistration) + 1 < 2 ^ 64) (handler : Option Handler) :
    (state.callOn name handler once).Consistent := by
  cases handler with
  | none => exact hconsistent
  | some handler =>
      by_cases hname : name = ""
      · rwa [hname, callOn_empty]
      rw [callOn_some hname]
      have hnext := hconsistent.nextID_toNat hfits
      have hcount : (ServerEvent.registered name ⟨state.events.nextID + 1, handler, once⟩ :: state.past).countP
          (·.isRegistration) = state.past.countP (·.isRegistration) + 1 := List.countP_cons_of_pos rfl
      refine hconsistent.table rfl ⟨hname, fun hzero => ?_, fun other listener hmem => ?_, hconsistent.orderly⟩
        ?_ (fun other => ?_) fun other listener hmem => ?_
      · change state.events.nextID + 1 = 0 at hzero
        rw [hzero] at hnext
        exact absurd hnext (Nat.zero_ne_add_one _)
      · exact hconsistent.nextID_fresh hfits hmem
      · rw [hcount, hnext]
      · rw [HttpServerEvents.snapshot_insert, hconsistent.current, hconsistent.current, registeredAt]
        split
        · rename_i heq
          rw [heq]
        · rfl
      · rw [hcount]
        rcases List.mem_cons.mp hmem with heq | hearlier
        · injection heq with _ hlistener
          rw [hlistener, hnext]
        · exact le_trans (hconsistent.issued other listener hearlier) (Nat.le_succ _)

theorem Single.callOn (hsingle : state.Single) (hconsistent : state.Consistent)
    (hfits : state.past.countP (·.isRegistration) + 1 < 2 ^ 64) (handler : Option Handler) :
    (state.callOn name handler once).Single := by
  cases handler with
  | none => exact hsingle
  | some handler =>
      by_cases hname : name = ""
      · rwa [hname, callOn_empty]
      rw [callOn_some hname]
      intro other listener hmem honce
      rw [List.countP_cons_of_neg (by exact Bool.false_ne_true)]
      rcases List.mem_cons.mp hmem with heq | hearlier
      · injection heq with _ hlistener
        -- the listener is new, so it has not run and no emission waits for it
        have hzero : state.past.countP (·.runs listener.id) + waitingFor listener.id state.stack = 0 := by
          rw [countP_runs_eq_zero, waitingFor_eq_zero]
          · intro emission hemission second hsecond
            rw [hlistener]
            exact hconsistent.nextID_fresh hfits
              (hconsistent.waiting emission hemission second (List.mem_append_right _ hsecond))
          · intro number second hran
            obtain ⟨name', hregistered⟩ := hconsistent.known number second hran
            rw [hlistener]
            exact hconsistent.nextID_fresh hfits hregistered
        exact ⟨le_trans (le_of_eq hzero) (Nat.zero_le 1), fun _ => .inl hzero⟩
      · obtain ⟨hle, hregistered⟩ := hsingle other listener hearlier honce
        refine ⟨hle, fun hpresent => hregistered ?_⟩
        rw [registeredAt] at hpresent
        split at hpresent
        · rcases List.mem_append.mp hpresent with hold | hnew
          · exact hold
          · refine absurd ?_ (hconsistent.nextID_fresh hfits hearlier)
            rw [List.mem_singleton.mp hnew]
        · exact hpresent

end On

section Emit

variable {number : Nat} {listener : HttpServerListener Handler} {pending : List (HttpServerListener Handler)}
  {outer : List (Emission Handler)} {running : Option (HttpServerListener Handler)}

/-- An emission that starts: `emit` up to its loop. -/
def begin (state : ServerRun Handler) (name : String) : ServerRun Handler :=
  { state with
    stack := ⟨state.emissions, name, none, state.events.snapshot name⟩ :: state.stack
    emissions := state.emissions + 1
    past := .started state.emissions name (state.events.snapshot name) :: state.past }

theorem Consistent.begin (hconsistent : state.Consistent) : (state.begin name).Consistent where
  traced := hconsistent.traced.start
  orderly :=
    ⟨hconsistent.current name, fun other snapshot hmem =>
        (hconsistent.traced.fresh _ le_rfl).2.2 other snapshot hmem,
      (hconsistent.traced.fresh _ le_rfl).1, (hconsistent.traced.fresh _ le_rfl).2.1, hconsistent.orderly⟩
  counted := hconsistent.counted
  current := hconsistent.current
  issued other listener hmem := hconsistent.issued other listener (by simpa [ServerRun.begin] using hmem)
  waiting emission hemission listener hlistener := by
    rcases List.mem_cons.mp hemission with rfl | hemission
    · have hmem : listener ∈ state.events.snapshot name := hlistener
      rw [hconsistent.current] at hmem
      exact .tail _ (mem_of_registeredAt hmem)
    · exact .tail _ (hconsistent.waiting emission hemission listener hlistener)
  known number listener hmem := by
    obtain ⟨name', hregistered⟩ := hconsistent.known number listener (by simpa [ServerRun.begin] using hmem)
    exact ⟨name', .tail _ hregistered⟩

theorem Single.begin (hsingle : state.Single) (hconsistent : state.Consistent)
    (hsafe : state.Safe (.emit name)) : (state.begin name).Single := by
  intro other listener hmem honce
  have hmem : .registered other listener ∈ state.past := by simpa [ServerRun.begin] using hmem
  obtain ⟨hle, hregistered⟩ := hsingle other listener hmem honce
  have hruns : (state.begin name).past.countP (·.runs listener.id) = state.past.countP (·.runs listener.id) :=
    List.countP_cons_of_neg Bool.false_ne_true
  have hwaiting : waitingFor listener.id (state.begin name).stack =
      (registeredAt name state.past).countP (·.id = listener.id) + waitingFor listener.id state.stack := by
    rw [ServerRun.begin, waitingFor_cons, hconsistent.current]
  rw [hruns, hwaiting]
  by_cases hpresent : listener ∈ registeredAt name state.past
  · -- no emission of the event has the listener unfinished, so this one is the first
    have hname := (hconsistent.orderly.unique hmem (mem_of_registeredAt hpresent) rfl).1
    have hzero : state.past.countP (·.runs listener.id) + waitingFor listener.id state.stack = 0 := by
      rcases hregistered (hname ▸ hpresent) with hzero | ⟨emission, hemission, heq, hunfinished⟩
      · exact hzero
      · exact absurd hunfinished
          (hsafe listener (by rwa [hconsistent.current]) honce emission hemission (heq.trans hname))
    rw [hconsistent.orderly.countP_registeredAt hpresent]
    refine ⟨by omega, fun _ => .inr ⟨_, .head _, hname.symm, ?_⟩⟩
    rw [Emission.unfinished, hconsistent.current]
    exact hpresent
  · have hnone : (registeredAt name state.past).countP (·.id = listener.id) = 0 := by
      refine List.countP_eq_zero.mpr fun second hsecond => ?_
      have hne : second.id ≠ listener.id := by
        intro heq
        have hsame := hconsistent.orderly.unique (mem_of_registeredAt hsecond) hmem heq
        exact hpresent (hsame.2 ▸ hsecond)
      simpa using hne
    rw [hnone, Nat.zero_add]
    refine ⟨hle, fun hpresent' => ?_⟩
    rcases hregistered hpresent' with hzero | ⟨emission, hemission, heq⟩
    · exact .inl hzero
    · exact .inr ⟨emission, .tail _ hemission, heq⟩

theorem Consistent.run (hconsistent : state.Consistent)
    (hstack : state.stack = ⟨number, name, none, listener :: pending⟩ :: outer) :
    { state with
      stack := ⟨number, name, some listener, pending⟩ :: outer
      past := .ran number listener :: state.past }.Consistent where
  traced := by
    have htraced := hconsistent.traced
    rw [hstack] at htraced
    exact htraced.ran
  orderly := hconsistent.orderly
  counted := hconsistent.counted
  current := hconsistent.current
  issued other second hmem := hconsistent.issued other second (by simpa using hmem)
  waiting emission hemission second hsecond := by
    have hwaiting := hconsistent.waiting
    rw [hstack] at hwaiting
    rcases List.mem_cons.mp hemission with rfl | hemission
    · exact .tail _ (hwaiting _ (.head _) second hsecond)
    · exact .tail _ (hwaiting emission (.tail _ hemission) second hsecond)
  known other second hmem := by
    rcases List.mem_cons.mp hmem with heq | hearlier
    · injection heq with _ hlistener
      have hwaiting := hconsistent.waiting
      rw [hstack] at hwaiting
      exact ⟨name, .tail _ (hlistener ▸ hwaiting _ (.head _) listener (.head _))⟩
    · obtain ⟨name', hregistered⟩ := hconsistent.known other second hearlier
      exact ⟨name', .tail _ hregistered⟩

theorem Single.run (hsingle : state.Single)
    (hstack : state.stack = ⟨number, name, none, listener :: pending⟩ :: outer) :
    { state with
      stack := ⟨number, name, some listener, pending⟩ :: outer
      past := .ran number listener :: state.past }.Single := by
  intro other second hmem honce
  obtain ⟨hle, hregistered⟩ := hsingle other second (by simpa using hmem) honce
  rw [hstack, waitingFor_cons, List.countP_cons] at hle hregistered
  have hsum : (ServerEvent.ran number listener :: state.past).countP (·.runs second.id) +
        waitingFor second.id (⟨number, name, some listener, pending⟩ :: outer) =
      state.past.countP (·.runs second.id) +
        (pending.countP (·.id = second.id) + (if decide (listener.id = second.id) = true then 1 else 0) +
          waitingFor second.id outer) := by
    rw [waitingFor_cons, List.countP_cons, ServerEvent.runs]
    dsimp only
    omega
  rw [hsum]
  refine ⟨hle, fun hpresent => ?_⟩
  rcases hregistered hpresent with hzero | ⟨emission, hemission, heq, hunfinished⟩
  · exact .inl hzero
  · rcases List.mem_cons.mp hemission with rfl | hemission
    · exact .inr ⟨_, .head _, heq, hunfinished⟩
    · exact .inr ⟨emission, .tail _ hemission, heq, hunfinished⟩

theorem Consistent.returned (hconsistent : state.Consistent)
    (hstack : state.stack = ⟨number, name, running, pending⟩ :: outer) :
    { state with stack := ⟨number, name, none, pending⟩ :: outer }.Consistent where
  traced := by
    have htraced := hconsistent.traced
    rw [hstack] at htraced
    exact htraced.returned
  orderly := hconsistent.orderly
  counted := hconsistent.counted
  current := hconsistent.current
  issued := hconsistent.issued
  waiting emission hemission second hsecond := by
    have hwaiting := hconsistent.waiting
    rw [hstack] at hwaiting
    rcases List.mem_cons.mp hemission with rfl | hemission
    · exact hwaiting _ (.head _) second (List.mem_append_right _ hsecond)
    · exact hwaiting emission (.tail _ hemission) second hsecond
  known := hconsistent.known

theorem Consistent.finish (hconsistent : state.Consistent)
    (hstack : state.stack = ⟨number, name, none, []⟩ :: outer) :
    { state with stack := outer, past := .finished number :: state.past }.Consistent where
  traced := by
    have htraced := hconsistent.traced
    rw [hstack] at htraced
    exact htraced.finished
  orderly := hconsistent.orderly
  counted := hconsistent.counted
  current := hconsistent.current
  issued other second hmem := hconsistent.issued other second (by simpa using hmem)
  waiting emission hemission second hsecond := by
    have hwaiting := hconsistent.waiting
    rw [hstack] at hwaiting
    exact .tail _ (hwaiting emission (.tail _ hemission) second hsecond)
  known other second hmem := by
    obtain ⟨name', hregistered⟩ := hconsistent.known other second (by simpa using hmem)
    exact ⟨name', .tail _ hregistered⟩

theorem Single.finish (hsingle : state.Single)
    (hstack : state.stack = ⟨number, name, none, []⟩ :: outer) :
    { state with stack := outer, past := .finished number :: state.past }.Single := by
  intro other second hmem honce
  obtain ⟨hle, hregistered⟩ := hsingle other second (by simpa using hmem) honce
  rw [hstack, waitingFor_cons, List.countP_nil, Nat.zero_add] at hle hregistered
  rw [List.countP_cons_of_neg (by exact Bool.false_ne_true)]
  refine ⟨hle, fun hpresent => ?_⟩
  rcases hregistered hpresent with hzero | ⟨emission, hemission, heq, hunfinished⟩
  · exact .inl hzero
  · rcases List.mem_cons.mp hemission with rfl | hemission
    · exact absurd hunfinished List.not_mem_nil
    · exact .inr ⟨emission, hemission, heq, hunfinished⟩

/-- The handler of the innermost emission returns, and its listener is no longer registered if it should run
once. -/
theorem Single.returned {events : HttpServerEvents Handler} {past : List (ServerEvent Handler)}
    (hsingle : state.Single) (hstack : state.stack = ⟨number, name, some listener, pending⟩ :: outer)
    (hpast : ∀ other second, .registered other second ∈ past → .registered other second ∈ state.past)
    (hruns : ∀ id, past.countP (·.runs id) = state.past.countP (·.runs id))
    (hgone : ∀ other second, second.once = true → second ∈ registeredAt other past →
      second ∈ registeredAt other state.past ∧ second ≠ listener) :
    { state with events, stack := ⟨number, name, none, pending⟩ :: outer, past }.Single := by
  intro other second hmem honce
  obtain ⟨hle, hregistered⟩ := hsingle other second (hpast other second hmem) honce
  rw [hstack, waitingFor_cons, ← hruns] at hle hregistered
  rw [waitingFor_cons]
  refine ⟨hle, fun hpresent => ?_⟩
  obtain ⟨hpresent, hne⟩ := hgone other second honce hpresent
  rcases hregistered hpresent with hzero | ⟨emission, hemission, heq, hunfinished⟩
  · exact .inl hzero
  · rcases List.mem_cons.mp hemission with rfl | hemission
    · rcases List.mem_cons.mp hunfinished with heq' | hpending
      · exact absurd heq' hne
      · exact .inr ⟨_, .head _, heq, hpending⟩
    · exact .inr ⟨emission, .tail _ hemission, heq, hunfinished⟩

theorem Single.return (hsingle : state.Single) (hconsistent : state.Consistent)
    (hstack : state.stack = ⟨number, name, some listener, pending⟩ :: outer) :
    (if listener.once then
        ServerRun.callOff { state with stack := ⟨number, name, none, pending⟩ :: outer } name listener.id
      else { state with stack := ⟨number, name, none, pending⟩ :: outer }).Single := by
  by_cases honce : listener.once = true
  · rw [if_pos honce]
    have hregistered : .registered name listener ∈ state.past :=
      hconsistent.waiting ⟨number, name, some listener, pending⟩ (hstack ▸ .head _) listener (.head _)
    rcases (hconsistent.returned hstack).callOff_cases name listener.id with ⟨events, heq, -⟩ | ⟨heq, habsent⟩
    · rw [heq]
      refine hsingle.returned hstack (fun other second hmem => by simpa using hmem)
        (fun id => List.countP_cons_of_neg Bool.false_ne_true) fun other second _ hpresent => ?_
      change second ∈ registeredAt other (.removed name listener.id :: state.past) at hpresent
      rw [registeredAt] at hpresent
      split at hpresent
      · have hmem := List.mem_filter.mp hpresent
        refine ⟨hmem.1, ?_⟩
        rintro rfl
        simp at hmem
      · rename_i hother
        refine ⟨hpresent, ?_⟩
        rintro rfl
        exact hother (hconsistent.orderly.unique hregistered (mem_of_registeredAt hpresent) rfl).1
    · rw [heq]
      refine hsingle.returned hstack (fun _ _ hmem => hmem) (fun _ => rfl) fun other second _ hpresent => ?_
      refine ⟨hpresent, ?_⟩
      rintro rfl
      rw [← (hconsistent.orderly.unique hregistered (mem_of_registeredAt hpresent) rfl).1] at hpresent
      exact habsent second hpresent rfl
  · rw [if_neg honce]
    refine hsingle.returned hstack (fun _ _ hmem => hmem) (fun _ => rfl) fun other second hsecond hpresent => ?_
    refine ⟨hpresent, ?_⟩
    rintro rfl
    exact honce hsecond

end Emit

variable {next : ServerRun Handler} {act : ServerAct Handler}

theorem Consistent.callEmit_cases (hconsistent : state.Consistent) (name : String) :
    state.callEmit name = state.begin name ∨
      (state.begin name).stack = ⟨state.emissions, name, none, []⟩ :: state.stack ∧
        state.callEmit name =
          { state.begin name with
            stack := state.stack, past := .finished state.emissions :: (state.begin name).past } := by
  by_cases hempty : name = "" ∨ state.events.snapshot name = []
  · right
    have hnone : state.events.snapshot name = [] := by
      rcases hempty with rfl | hnone
      · rw [hconsistent.current, hconsistent.orderly.registeredAt_empty]
      · exact hnone
    rw [callEmit, if_pos hempty, ServerRun.begin, hnone]
    exact ⟨rfl, rfl⟩
  · left
    rw [callEmit, if_neg hempty, ServerRun.begin]

theorem step_cases (hstep : state.step act = some next) :
    (∃ name handler once, act = .on name handler once ∧ next = state.callOn name handler once) ∨
    (∃ name id, act = .off name id ∧ next = state.callOff name id) ∨
    (∃ name, act = .removeAll name ∧ next = state.callRemoveAll name) ∨
    (∃ name, act = .emit name ∧ next = state.callEmit name) ∨
    (∃ number name listener pending outer, state.stack = ⟨number, name, none, listener :: pending⟩ :: outer ∧
      next = { state with
        stack := ⟨number, name, some listener, pending⟩ :: outer
        past := .ran number listener :: state.past }) ∨
    (∃ number name listener pending outer, state.stack = ⟨number, name, some listener, pending⟩ :: outer ∧
      next = if listener.once then
          ServerRun.callOff { state with stack := ⟨number, name, none, pending⟩ :: outer } name listener.id
        else { state with stack := ⟨number, name, none, pending⟩ :: outer }) ∨
    (∃ number name outer, state.stack = ⟨number, name, none, []⟩ :: outer ∧
      next = { state with stack := outer, past := .finished number :: state.past }) := by
  cases act with
  | on name handler once =>
      have hnext := (Option.ite_none_right_eq_some.mp hstep).2
      exact .inl ⟨name, handler, once, rfl, (Option.some.inj hnext).symm⟩
  | off name id =>
      have hnext := (Option.ite_none_right_eq_some.mp hstep).2
      exact .inr (.inl ⟨name, id, rfl, (Option.some.inj hnext).symm⟩)
  | removeAll name =>
      have hnext := (Option.ite_none_right_eq_some.mp hstep).2
      exact .inr (.inr (.inl ⟨name, rfl, (Option.some.inj hnext).symm⟩))
  | emit name =>
      have hnext := (Option.ite_none_right_eq_some.mp hstep).2
      exact .inr (.inr (.inr (.inl ⟨name, rfl, (Option.some.inj hnext).symm⟩)))
  | run =>
      simp only [step] at hstep
      split at hstep
      · rename_i hstack
        exact .inr (.inr (.inr (.inr (.inl ⟨_, _, _, _, _, hstack, (Option.some.inj hstep).symm⟩))))
      · exact absurd hstep (Option.some_ne_none _).symm
  | «return» =>
      simp only [step] at hstep
      split at hstep
      · rename_i hstack
        exact .inr (.inr (.inr (.inr (.inr (.inl ⟨_, _, _, _, _, hstack, (Option.some.inj hstep).symm⟩)))))
      · exact absurd hstep (Option.some_ne_none _).symm
  | finish =>
      simp only [step] at hstep
      split at hstep
      · rename_i hstack
        exact .inr (.inr (.inr (.inr (.inr (.inr ⟨_, _, _, hstack, (Option.some.inj hstep).symm⟩)))))
      · exact absurd hstep (Option.some_ne_none _).symm

theorem Consistent.step (hconsistent : state.Consistent) (hsingle : state.Single) (hsafe : state.Safe act)
    (hstep : state.step act = some next) : next.Consistent ∧ next.Single := by
  rcases step_cases hstep with ⟨name, handler, once, rfl, rfl⟩ | ⟨name, id, rfl, rfl⟩ | ⟨name, rfl, rfl⟩ |
    ⟨name, rfl, rfl⟩ | ⟨number, name, listener, pending, outer, hstack, rfl⟩ |
    ⟨number, name, listener, pending, outer, hstack, rfl⟩ | ⟨number, name, outer, hstack, rfl⟩
  · exact ⟨hconsistent.callOn hsafe handler, hsingle.callOn hconsistent hsafe handler⟩
  · exact ⟨hconsistent.callOff, hsingle.callOff hconsistent⟩
  · exact ⟨hconsistent.callRemoveAll, hsingle.callRemoveAll⟩
  · rcases hconsistent.callEmit_cases name with heq | ⟨hstack, heq⟩
    · rw [heq]
      exact ⟨hconsistent.begin, hsingle.begin hconsistent hsafe⟩
    · rw [heq]
      exact ⟨hconsistent.begin.finish hstack, (hsingle.begin hconsistent hsafe).finish hstack⟩
  · exact ⟨hconsistent.run hstack, hsingle.run hstack⟩
  · refine ⟨?_, hsingle.return hconsistent hstack⟩
    split
    · exact (hconsistent.returned hstack).callOff
    · exact hconsistent.returned hstack
  · exact ⟨hconsistent.finish hstack, hsingle.finish hstack⟩

theorem Reaches.consistent (hreaches : Reaches Safe state) : state.Consistent ∧ state.Single := by
  induction hreaches with
  | start => exact ⟨Consistent.start, Single.start⟩
  | step act _ hsafe hstep ih => exact ih.1.step ih.2 hsafe hstep

end ServerRun

section Past

variable {past later earlier : List (ServerEvent Handler)} {stack : List (Emission Handler)}
  {emissions : Nat}

theorem Orderly.drop (later : List (ServerEvent Handler)) (horderly : Orderly (later ++ earlier)) :
    Orderly earlier := by
  induction later with
  | nil => exact horderly
  | cons event later ih => exact ih horderly.tail

theorem Traced.offIsFinal (htraced : Traced stack emissions past) (horderly : Orderly past) :
    OffIsFinal past := by
  intro later earlier name id heq number event snapshot hstarted listener hran
  have hprefix := htraced.ranIn_prefix (heq ▸ List.mem_append_left _ hstarted)
  obtain ⟨after, before, rfl⟩ := List.append_of_mem hstarted
  -- the emission started when the listener was already out
  have hthen : Orderly (.started number event snapshot :: (before ++ .removed name id :: earlier)) := by
    refine Orderly.drop after ?_
    rw [heq, List.append_assoc] at horderly
    exact horderly
  have hmem : listener ∈ snapshot := hprefix.subset (mem_ranIn.mpr hran)
  rw [hthen.1] at hmem
  exact hthen.tail.not_mem_of_removed (List.mem_append_right _ (.head _)) hmem

theorem Traced.emitsComplete (htraced : Traced stack emissions past) (horderly : Orderly past) :
    EmitsComplete past := by
  intro later earlier number name snapshot heq
  have hstarted : .started number name snapshot ∈ past := heq ▸ List.mem_append_right _ (.head _)
  have hthen : Orderly (.started number name snapshot :: earlier) := Orderly.drop later (heq ▸ horderly)
  rw [← hthen.1]
  refine ⟨?_, htraced.ranIn_prefix hstarted, fun hfinished => htraced.ended _ _ _ hfinished hstarted⟩
  have hnodup := hthen.tail.nodup name
  rw [hthen.1]
  exact hnodup.of_map _

end Past

/-- In every run of safe steps the listeners run as they should. -/
theorem ServerRun.Reaches.runs_as_registered {state : ServerRun Handler} (hreaches : Reaches Safe state) :
    OnceRunsOnce state.past ∧ OffIsFinal state.past ∧ EmitsComplete state.past := by
  obtain ⟨hconsistent, hsingle⟩ := hreaches.consistent
  refine ⟨fun name listener hmem honce => ?_, hconsistent.traced.offIsFinal hconsistent.orderly,
    hconsistent.traced.emitsComplete hconsistent.orderly⟩
  exact le_trans (Nat.le_add_right _ _) (hsingle name listener hmem honce).1

/-- The handler of "request" emits "close", whose only listener it took out. -/
theorem nestedClose_runs_as_registered :
    ∃ state : ServerRun Unit, state.past.length = 9 ∧
      OnceRunsOnce state.past ∧ OffIsFinal state.past ∧ EmitsComplete state.past := by
  have hregistered : ServerRun.Reaches ServerRun.Safe
      (((ServerRun.start : ServerRun Unit).callOn "request" (some ()) true).callOn "close" (some ()) false) :=
    .step (.on "close" (some ()) false)
      (.step (.on "request" (some ()) true) .start (by change 0 + 1 < 2 ^ 64; decide) rfl)
      (by change 1 + 1 < 2 ^ 64; decide) rfl
  have hran := ServerRun.Reaches.step .run
    (.step (.emit "request") hregistered
      (fun _ _ _ _ hmem => absurd hmem List.not_mem_nil) rfl) trivial rfl
  have hclosed := ServerRun.Reaches.step (.emit "close")
    (.step (.off "close" 2) hran trivial rfl) (fun _ hmem => absurd hmem List.not_mem_nil) rfl
  have hfinished := ServerRun.Reaches.step .finish
    (.step .return hclosed trivial rfl) trivial rfl
  exact ⟨_, rfl, ServerRun.Reaches.runs_as_registered hfinished⟩

/-- A handler that should run once and emits its own event runs again. -/
theorem once_runs_twice :
    ¬∀ state : ServerRun Unit, ServerRun.Reaches (fun _ _ => True) state →
      OnceRunsOnce state.past ∧ OffIsFinal state.past ∧ EmitsComplete state.past := by
  intro hholds
  have hstart : ServerRun.Reaches (fun _ _ => True) (ServerRun.start : ServerRun Unit) := .start
  have hran := ServerRun.Reaches.step .run
    (.step (.emit "request") (.step (.on "request" (some ()) true) hstart trivial rfl) trivial rfl) trivial rfl
  have hagain := ServerRun.Reaches.step .run
    (.step (.emit "request") hran trivial rfl) trivial rfl
  have hle := (hholds _ hagain).1 "request" ⟨1, (), true⟩
    (.tail _ (.tail _ (.tail _ (.tail _ (.head _))))) rfl
  exact absurd hle (by decide)

end Jayess.Runtime
