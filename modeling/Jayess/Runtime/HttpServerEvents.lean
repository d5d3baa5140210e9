import Mathlib.Data.List.AList
import Jayess.Number.Word

/-! # The events of a server -/

namespace Jayess.Runtime

variable {Handler : Type}

structure HttpServerListener (Handler : Type) where
  id : Int64
  handler : Handler
  once : Bool
deriving DecidableEq

structure HttpServerEvents (Handler : Type) where
  nextID : Int64
  listeners : AList fun _ : String => List (HttpServerListener Handler)

namespace HttpServerEvents

/-- `newHTTPServerEvents`. -/
def newEvents : HttpServerEvents Handler := ⟨0, ∅⟩

variable (events : HttpServerEvents Handler) (name : String)

/-- The listeners of an event: `snapshot`. -/
def snapshot : List (HttpServerListener Handler) := (events.listeners.lookup name).getD []

/-- `on`, with what it returns; a nil handler is none. -/
def on (handler : Option Handler) (once : Bool) : HttpServerEvents Handler × Int64 :=
  match handler with
  | none => (events, 0)
  | some handler =>
      if name = "" then (events, 0)
      else
        ({ nextID := events.nextID + 1
           listeners := events.listeners.insert name
             (events.snapshot name ++ [⟨events.nextID + 1, handler, once⟩]) },
          events.nextID + 1)

/-- The loop of `off`: the first listener with the ID is taken out. -/
def removeListener (id : Int64) : List (HttpServerListener Handler) →
    Option (List (HttpServerListener Handler))
  | [] => none
  | listener :: rest => if listener.id ≠ id then (removeListener id rest).map (listener :: ·) else some rest

/-- `off`, with what it returns. -/
def off (id : Int64) : HttpServerEvents Handler × Bool :=
  if name = "" ∨ id = 0 then (events, false)
  else
    match removeListener id (events.snapshot name) with
    | some rest => ({ events with listeners := events.listeners.insert name rest }, true)
    | none => (events, false)

def removeAll : HttpServerEvents Handler :=
  if name = "" then { events with listeners := ∅ }
  else { events with listeners := events.listeners.erase name }

section Lemmas

variable {events : HttpServerEvents Handler} {name other : String} {id : Int64}
  {listeners : List (HttpServerListener Handler)}

@[simp]
theorem snapshot_newEvents : (newEvents : HttpServerEvents Handler).snapshot name = [] := rfl

theorem snapshot_insert (nextID : Int64) :
    (⟨nextID, events.listeners.insert name listeners⟩ : HttpServerEvents Handler).snapshot other =
      if name = other then listeners else events.snapshot other := by
  unfold snapshot
  split
  · rename_i heq
    rw [heq, AList.lookup_insert]
    rfl
  · rename_i hne
    rw [AList.lookup_insert_ne (Ne.symm hne)]

theorem snapshot_removeAll :
    (events.removeAll name).snapshot other =
      if name = "" ∨ name = other then [] else events.snapshot other := by
  by_cases hempty : name = ""
  · rw [removeAll, if_pos hempty, if_pos (.inl hempty)]
    rfl
  · rw [removeAll, if_neg hempty]
    unfold snapshot
    by_cases heq : name = other
    · rw [if_pos (.inr heq), heq, AList.lookup_erase]
      rfl
    · rw [if_neg (by simp [hempty, heq]), AList.lookup_erase_ne (Ne.symm heq)]

@[simp]
theorem nextID_removeAll : (events.removeAll name).nextID = events.nextID := by
  unfold removeAll
  split <;> rfl

theorem removeListener_eq_none (habsent : ∀ listener ∈ listeners, listener.id ≠ id) :
    removeListener id listeners = none := by
  induction listeners with
  | nil => rfl
  | cons listener rest ih =>
      rw [removeListener, if_pos (habsent listener List.mem_cons_self),
        ih fun second hmem => habsent second (.tail _ hmem)]
      rfl

theorem removeListener_eq_some (hnodup : (listeners.map (·.id)).Nodup)
    (hpresent : ∃ listener ∈ listeners, listener.id = id) :
    removeListener id listeners = some (listeners.filter (·.id ≠ id)) := by
  induction listeners with
  | nil => obtain ⟨listener, hmem, -⟩ := hpresent; exact absurd hmem List.not_mem_nil
  | cons listener rest ih =>
      rw [List.map_cons, List.nodup_cons] at hnodup
      by_cases hid : listener.id = id
      · have hrest : rest.filter (·.id ≠ id) = rest := by
          refine List.filter_eq_self.mpr fun second hmem => ?_
          have hne : second.id ≠ id := fun heq => hnodup.1 (List.mem_map.mpr ⟨second, hmem, heq.trans hid.symm⟩)
          simpa using hne
        rw [removeListener, if_neg (not_not.mpr hid), List.filter_cons_of_neg (by simpa using hid), hrest]
      · obtain ⟨found, hmem, hfound⟩ := hpresent
        have hmem : found ∈ rest := by
          rcases List.mem_cons.mp hmem with rfl | hmem
          · exact absurd hfound hid
          · exact hmem
        rw [removeListener, if_pos hid, ih hnodup.2 ⟨found, hmem, hfound⟩,
          List.filter_cons_of_pos (by simpa using hid)]
        rfl

theorem off_of_absent (habsent : ∀ listener ∈ events.snapshot name, listener.id ≠ id) :
    events.off name id = (events, false) := by
  unfold off
  split
  · rfl
  · rw [removeListener_eq_none habsent]

theorem off_of_present (hname : name ≠ "") (hid : id ≠ 0)
    (hnodup : ((events.snapshot name).map (·.id)).Nodup)
    (hpresent : ∃ listener ∈ events.snapshot name, listener.id = id) :
    events.off name id =
      ({ events with
         listeners := events.listeners.insert name ((events.snapshot name).filter (·.id ≠ id)) },
        true) := by
  rw [off, if_neg (by simp [hname, hid]), removeListener_eq_some hnodup hpresent]

end Lemmas

end HttpServerEvents

/-- A call of `emit` that has not returned: the listener whose handler is running, and those of the snapshot
that are still to run. -/
structure Emission (Handler : Type) where
  number : Nat
  name : String
  running : Option (HttpServerListener Handler)
  pending : List (HttpServerListener Handler)

def Emission.unfinished (emission : Emission Handler) : List (HttpServerListener Handler) :=
  emission.running.toList ++ emission.pending

/-- What happened to the events of a server. -/
inductive ServerEvent (Handler : Type) where
  | registered (name : String) (listener : HttpServerListener Handler)
  /-- an `off` that returned true -/
  | removed (name : String) (id : Int64)
  | cleared (name : String)
  | started (number : Nat) (name : String) (snapshot : List (HttpServerListener Handler))
  | ran (number : Nat) (listener : HttpServerListener Handler)
  | finished (number : Nat)

/-- A server in the middle of a run: the emissions are stacked, the innermost first, and what happened is
kept, the latest first. -/
structure ServerRun (Handler : Type) where
  events : HttpServerEvents Handler
  stack : List (Emission Handler)
  emissions : Nat
  past : List (ServerEvent Handler)

/-- The calls of the program or of a running handler, and the steps of the loop of `emit`. -/
inductive ServerAct (Handler : Type) where
  | on (name : String) (handler : Option Handler) (once : Bool)
  | off (name : String) (id : Int64)
  | removeAll (name : String)
  | emit (name : String)
  | run
  | return
  | finish

namespace ServerRun

def start : ServerRun Handler := ⟨.newEvents, [], 0, []⟩

variable (state : ServerRun Handler)

/-- The program or a handler is running, and may call. -/
def ready : Bool :=
  match state.stack with
  | [] => true
  | emission :: _ => emission.running.isSome

def callOn (name : String) (handler : Option Handler) (once : Bool) : ServerRun Handler :=
  let (events, id) := state.events.on name handler once
  match handler with
  | some handler =>
      if name = "" then { state with events }
      else { state with events, past := .registered name ⟨id, handler, once⟩ :: state.past }
  | none => { state with events }

def callOff (name : String) (id : Int64) : ServerRun Handler :=
  let (events, found) := state.events.off name id
  { state with events, past := if found then .removed name id :: state.past else state.past }

def callRemoveAll (name : String) : ServerRun Handler :=
  { state with events := state.events.removeAll name, past := .cleared name :: state.past }

/-- `emit` up to its loop; without listeners it returns at once. -/
def callEmit (name : String) : ServerRun Handler :=
  if name = "" ∨ state.events.snapshot name = [] then
    { state with
      emissions := state.emissions + 1
      past := .finished state.emissions :: .started state.emissions name [] :: state.past }
  else
    { state with
      stack := ⟨state.emissions, name, none, state.events.snapshot name⟩ :: state.stack
      emissions := state.emissions + 1
      past := .started state.emissions name (state.events.snapshot name) :: state.past }

def step : ServerAct Handler → Option (ServerRun Handler)
  | .on name handler once => if state.ready then some (state.callOn name handler once) else none
  | .off name id => if state.ready then some (state.callOff name id) else none
  | .removeAll name => if state.ready then some (state.callRemoveAll name) else none
  | .emit name => if state.ready then some (state.callEmit name) else none
  | .run =>
      match state.stack with
      | ⟨number, name, none, listener :: pending⟩ :: outer =>
          some { state with
            stack := ⟨number, name, some listener, pending⟩ :: outer
            past := .ran number listener :: state.past }
      | _ => none
  | .return =>
      match state.stack with
      | ⟨number, name, some listener, pending⟩ :: outer =>
          let returned := { state with stack := ⟨number, name, none, pending⟩ :: outer }
          some (if listener.once then returned.callOff name listener.id else returned)
      | _ => none
  | .finish =>
      match state.stack with
      | ⟨number, _, none, []⟩ :: outer =>
          some { state with stack := outer, past := .finished number :: state.past }
      | _ => none

end ServerRun

end Jayess.Runtime
