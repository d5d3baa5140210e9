import Mathlib.Data.List.Basic

/-!
# Destructuring

What JavaScript does to bind the names of a pattern, and a variant of it that evaluates every
default and takes no key from what is left of an object.
-/

namespace Jayess.Destructure

variable {Initial Value State : Type}

/-- A pattern, with the parts of an array or an object one after the other. Initialisers stand for
the defaults and for the keys of properties. -/
inductive Pattern (Initial : Type) where
  | done
  | name (name : String)
  | default (initial : Initial) (inner : Pattern Initial)
  | element (index : Nat) (inner rest : Pattern Initial)
  | elements (start : Nat) (inner rest : Pattern Initial)
  | property (key : Initial) (inner rest : Pattern Initial)
  | others (inner rest : Pattern Initial)

/-- The values a value is taken apart into. -/
structure Extraction (Value : Type) where
  isUndefined : Value → Bool
  element : Value → Nat → Value
  elements : Value → Nat → Value
  property : Value → Value → Value
  without : Value → List Value → Value

structure Semantics (Initial Value State : Type) extends Extraction Value where
  evaluate : Initial → State → Value × State
  assign : String → Value → State → State

inductive Event (Initial Value : Type) where
  | evaluated (initial : Initial)
  | received (value : Value)

structure Outcome (Initial Value State : Type) where
  state : State
  events : List (Event Initial Value)

/-- The outcome of what follows some events. -/
def Outcome.after (outcome : Outcome Initial Value State) (events : List (Event Initial Value)) :
    Outcome Initial Value State :=
  { outcome with events := events ++ outcome.events }

namespace Pattern

def map {Source : Type} (f : Initial → Source) : Pattern Initial → Pattern Source
  | done => done
  | name binding => name binding
  | default initial inner => default (f initial) (inner.map f)
  | element index inner rest => element index (inner.map f) (rest.map f)
  | elements start inner rest => elements start (inner.map f) (rest.map f)
  | property key inner rest => property (f key) (inner.map f) (rest.map f)
  | others inner rest => others (inner.map f) (rest.map f)

/-- The names a pattern binds. -/
def names : Pattern Initial → List String
  | done => []
  | name binding => [binding]
  | default _ inner => inner.names
  | element _ inner rest | elements _ inner rest | property _ inner rest | others inner rest =>
      inner.names ++ rest.names

@[simp] theorem names_map {Source : Type} (f : Initial → Source) (pattern : Pattern Initial) :
    (pattern.map f).names = pattern.names := by
  induction pattern with
  | done | name => rfl
  | default _ inner ih => exact ih
  | element _ inner rest ihinner ihrest | elements _ inner rest ihinner ihrest
    | property _ inner rest ihinner ihrest | others inner rest ihinner ihrest =>
      rw [map, names, names, ihinner, ihrest]

variable (semantics : Semantics Initial Value State)

/-- Takes a value apart along a pattern; `taken` are the keys the pattern has taken so far. A default
whose value is not needed is evaluated only if `eager`. -/
def run (eager : Bool) (remaining : Value → List Value → Value) :
    Pattern Initial → Value → List Value → State → Outcome Initial Value State
  | done, _, _, state => ⟨state, []⟩
  | name binding, value, _, state => ⟨semantics.assign binding value state, []⟩
  | default initial inner, value, _, state =>
      if semantics.isUndefined value then
        let initialised := semantics.evaluate initial state
        (inner.run eager remaining initialised.1 [] initialised.2).after [.evaluated initial]
      else if eager then
        let initialised := semantics.evaluate initial state
        (inner.run eager remaining value [] initialised.2).after [.evaluated initial]
      else inner.run eager remaining value [] state
  | element index inner rest, value, taken, state =>
      let first := inner.run eager remaining (semantics.element value index) [] state
      (rest.run eager remaining value taken first.state).after first.events
  | elements start inner rest, value, taken, state =>
      let first := inner.run eager remaining (semantics.elements value start) [] state
      (rest.run eager remaining value taken first.state).after first.events
  | property key inner rest, value, taken, state =>
      let keyed := semantics.evaluate key state
      let first := inner.run eager remaining (semantics.property value keyed.1) [] keyed.2
      (rest.run eager remaining value (keyed.1 :: taken) first.state).after first.events
  | others inner rest, value, taken, state =>
      let left := remaining value taken
      let first := inner.run eager remaining left [] state
      (rest.run eager remaining value taken first.state).after (.received left :: first.events)

/-- JavaScript's destructuring: a default only where the value is undefined, and the rest of an
object without the keys taken. -/
def javaScript : Pattern Initial → Value → List Value → State → Outcome Initial Value State :=
  run semantics false semantics.without

def eager (copied : Value → Value) :
    Pattern Initial → Value → List Value → State → Outcome Initial Value State :=
  run semantics true fun value _ => copied value

/-- Along the JavaScript run every default meets an undefined value, and at every object rest the
copy of the object is what is left of it. -/
def Whole (copied : Value → Value) : Pattern Initial → Value → List Value → State → Prop
  | done, _, _, _ | name _, _, _, _ => True
  | default initial inner, value, _, state =>
      semantics.isUndefined value = true ∧
        let initialised := semantics.evaluate initial state
        inner.Whole copied initialised.1 [] initialised.2
  | element index inner rest, value, taken, state =>
      let part := semantics.element value index
      inner.Whole copied part [] state ∧
        rest.Whole copied value taken (inner.javaScript semantics part [] state).state
  | elements start inner rest, value, taken, state =>
      let part := semantics.elements value start
      inner.Whole copied part [] state ∧
        rest.Whole copied value taken (inner.javaScript semantics part [] state).state
  | property key inner rest, value, taken, state =>
      let keyed := semantics.evaluate key state
      let part := semantics.property value keyed.1
      inner.Whole copied part [] keyed.2 ∧
        rest.Whole copied value (keyed.1 :: taken)
          (inner.javaScript semantics part [] keyed.2).state
  | others inner rest, value, taken, state =>
      let left := semantics.without value taken
      copied value = left ∧ inner.Whole copied left [] state ∧
        rest.Whole copied value taken (inner.javaScript semantics left [] state).state

def eventCount : Pattern Initial → Nat
  | done | name _ => 0
  | default _ inner => inner.eventCount + 1
  | element _ inner rest | elements _ inner rest | property _ inner rest =>
      inner.eventCount + rest.eventCount
  | others inner rest => inner.eventCount + 1 + rest.eventCount

variable {semantics} {copied : Value → Value}

@[simp] theorem after_events (outcome : Outcome Initial Value State)
    (events : List (Event Initial Value)) :
    (outcome.after events).events = events ++ outcome.events := rfl

theorem eager_default (initial : Initial) (inner : Pattern Initial) (value : Value)
    (taken : List Value) (state : State) :
    (default initial inner).eager semantics copied value taken state =
      let initialised := semantics.evaluate initial state
      (inner.eager semantics copied
        (if semantics.isUndefined value then initialised.1 else value) [] initialised.2).after
          [.evaluated initial] := by
  unfold eager
  rw [run]
  by_cases hundefined : semantics.isUndefined value = true
  · simp only [if_pos hundefined]
  · simp only [if_neg hundefined, if_true]

theorem length_eager (pattern : Pattern Initial) (value : Value) (taken : List Value)
    (state : State) :
    (pattern.eager semantics copied value taken state).events.length = pattern.eventCount := by
  unfold eager
  induction pattern generalizing value taken state with
  | done | name => rfl
  | default initial inner ih =>
      rw [run, eventCount]
      split <;> simp [ih, Nat.add_comm]
  | element _ inner rest ihinner ihrest | elements _ inner rest ihinner ihrest
    | property _ inner rest ihinner ihrest =>
      simp [run, eventCount, ihinner, ihrest]
  | others inner rest ihinner ihrest =>
      simp [run, eventCount, ihinner, ihrest, Nat.add_right_comm]

theorem length_javaScript_le (pattern : Pattern Initial) (value : Value) (taken : List Value)
    (state : State) :
    (pattern.javaScript semantics value taken state).events.length ≤ pattern.eventCount := by
  unfold javaScript
  induction pattern generalizing value taken state with
  | done | name => exact Nat.le_refl 0
  | default initial inner ih =>
      rw [run, eventCount]
      split
      · simpa [Nat.add_comm] using ih _ _ _
      · exact Nat.le_succ_of_le (ih _ _ _)
  | element _ inner rest ihinner ihrest | elements _ inner rest ihinner ihrest
    | property _ inner rest ihinner ihrest =>
      simpa [run, eventCount] using Nat.add_le_add (ihinner _ _ _) (ihrest _ _ _)
  | others inner rest ihinner ihrest =>
      have hinner := ihinner (semantics.without value taken) [] state
      have hrest := ihrest value taken
        (inner.run semantics false semantics.without (semantics.without value taken) [] state).state
      simp only [run, eventCount, after_events, List.length_append, List.length_cons]
      omega

variable {pattern : Pattern Initial} {value : Value} {taken : List Value} {state : State}

theorem eager_eq_of_whole (hwhole : pattern.Whole semantics copied value taken state) :
    pattern.eager semantics copied value taken state =
      pattern.javaScript semantics value taken state := by
  induction pattern generalizing value taken state with
  | done | name => rfl
  | default initial inner ih =>
      obtain ⟨hundefined, hinner⟩ := hwhole
      have hinner := ih hinner
      unfold eager javaScript at hinner ⊢
      simp only [run, if_pos hundefined, hinner]
  | element _ inner rest ihinner ihrest | elements _ inner rest ihinner ihrest
    | property _ inner rest ihinner ihrest =>
      obtain ⟨hinner, hrest⟩ := hwhole
      have hinner := ihinner hinner
      have hrest := ihrest hrest
      unfold eager javaScript at hinner hrest ⊢
      simp only [run, hinner, hrest]
  | others inner rest ihinner ihrest =>
      obtain ⟨hcopied, hinner, hrest⟩ := hwhole
      have hinner := ihinner hinner
      have hrest := ihrest hrest
      unfold eager javaScript at hinner hrest ⊢
      simp only [run, hcopied, hinner, hrest]

/-- Where the events of two parts agree those of each part do: the eager variant has as many as a
part can have. So the second part starts in one state. -/
theorem parts_events_eq {inner rest : Pattern Initial} {part : Value}
    (hwhole : (inner.eager semantics copied part [] state).events =
        (inner.javaScript semantics part [] state).events →
      inner.Whole semantics copied part [] state)
    (hevents : (inner.eager semantics copied part [] state).events ++
        (rest.eager semantics copied value taken
          (inner.eager semantics copied part [] state).state).events =
      (inner.javaScript semantics part [] state).events ++
        (rest.javaScript semantics value taken
          (inner.javaScript semantics part [] state).state).events) :
    inner.Whole semantics copied part [] state ∧
      (rest.eager semantics copied value taken
          (inner.javaScript semantics part [] state).state).events =
        (rest.javaScript semantics value taken
          (inner.javaScript semantics part [] state).state).events := by
  have hlengths := congrArg List.length hevents
  have hinner := @length_javaScript_le _ _ _ semantics inner part [] state
  have hrest := @length_javaScript_le _ _ _ semantics rest value taken
    (inner.javaScript semantics part [] state).state
  rw [List.length_append, List.length_append, length_eager, length_eager] at hlengths
  obtain ⟨hparts, hnext⟩ := List.append_inj hevents (by rw [length_eager]; omega)
  have hwhole := hwhole hparts
  rw [eager_eq_of_whole hwhole] at hnext
  exact ⟨hwhole, hnext⟩

theorem whole_of_events_eq (hevents : (pattern.eager semantics copied value taken state).events =
      (pattern.javaScript semantics value taken state).events) :
    pattern.Whole semantics copied value taken state := by
  induction pattern generalizing value taken state with
  | done | name => trivial
  | default initial inner ih =>
      by_cases hundefined : semantics.isUndefined value = true
      · refine ⟨hundefined, ih ?_⟩
        unfold eager javaScript at hevents
        rw [run, run, if_pos hundefined, if_pos hundefined] at hevents
        exact (List.cons.inj hevents).2
      · -- The default the eager variant evaluates is one event too many.
        have hlength := congrArg List.length hevents
        have hle := @length_javaScript_le _ _ _ semantics inner value [] state
        rw [length_eager, eventCount, javaScript, run, if_neg hundefined, if_neg nofun] at hlength
        rw [javaScript] at hle
        omega
  | element _ inner rest ihinner ihrest | elements _ inner rest ihinner ihrest
    | property _ inner rest ihinner ihrest =>
      obtain ⟨hwhole, hnext⟩ := parts_events_eq ihinner hevents
      exact ⟨hwhole, ihrest hnext⟩
  | others inner rest ihinner ihrest =>
      obtain ⟨hreceived, hevents⟩ := List.cons.inj hevents
      have hcopied : copied value = semantics.without value taken := Event.received.inj hreceived
      simp only [hcopied] at hevents
      obtain ⟨hwhole, hnext⟩ := parts_events_eq ihinner hevents
      exact ⟨hcopied, hwhole, ihrest hnext⟩

end Pattern

end Jayess.Destructure
