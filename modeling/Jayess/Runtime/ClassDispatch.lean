import Jayess.Runtime.ClassLayout

/-!
# Super calls
-/

namespace Jayess.Runtime

variable {Value Function : Type*}

section Nearest

variable {α : Type*} {defines : α → Bool} {start position : Nat} {chain : List α}

def nearest (defines : α → Bool) (start : Nat) (chain : List α) : Option Nat :=
  ((chain.drop start).findIdx? defines).map (· + start)

theorem nearest_of_getElem {item : α} (hitem : chain[start]? = some item) :
    nearest defines start chain =
      if defines item then some start else nearest defines (start + 1) chain := by
  obtain ⟨hlt, rfl⟩ := List.getElem?_eq_some_iff.mp hitem
  rw [nearest, List.drop_eq_getElem_cons hlt, List.findIdx?_cons]
  split
  · simp
  · rw [Option.map_map, nearest]
    congr 1
    funext index
    exact Nat.succ_add_eq_add_succ index start

theorem nearest_of_length_le (hle : chain.length ≤ start) : nearest defines start chain = none := by
  rw [nearest, List.drop_eq_nil_of_le hle]
  rfl

theorem nearest_eq_some (hnearest : nearest defines start chain = some position) :
    start ≤ position ∧ position < chain.length ∧ ∃ item, chain[position]? = some item ∧ defines item := by
  rw [nearest, Option.map_eq_some_iff] at hnearest
  obtain ⟨index, hindex, rfl⟩ := hnearest
  obtain ⟨hlt, hdefines, -⟩ := List.findIdx?_eq_some_iff_getElem.mp hindex
  rw [List.length_drop] at hlt
  refine ⟨Nat.le_add_left _ _, by omega, chain[start + index], ?_, ?_⟩
  · rw [Nat.add_comm index, List.getElem?_eq_getElem]
  · rwa [List.getElem_drop] at hdefines

def Clear (defines : α → Bool) (start stop : Nat) (chain : List α) : Prop :=
  ∀ position item, start ≤ position → position < stop → chain[position]? = some item →
    defines item = false

theorem nearest_eq_none_iff :
    nearest defines start chain = none ↔ Clear defines start chain.length chain := by
  rw [nearest, Option.map_eq_none_iff, List.findIdx?_eq_none_iff]
  constructor
  · intro hnone position item hstart _ hitem
    refine hnone item (List.mem_iff_getElem?.mpr ⟨position - start, ?_⟩)
    rw [List.getElem?_drop, Nat.add_sub_cancel' hstart, hitem]
  · intro hclear item hmem
    obtain ⟨index, hindex⟩ := List.mem_iff_getElem?.mp hmem
    rw [List.getElem?_drop] at hindex
    obtain ⟨hlt, -⟩ := List.getElem?_eq_some_iff.mp hindex
    exact hclear (start + index) item (Nat.le_add_right _ _) hlt hindex

theorem nearest_eq_nearest_iff {distance : Nat} :
    nearest defines start chain = nearest defines (start + distance) chain ↔
      Clear defines start (start + distance) chain := by
  induction distance generalizing start with
  | zero => exact iff_of_true rfl fun position item hle hlt _ => absurd hle (Nat.not_le.mpr hlt)
  | succ distance ih =>
      have hshift : start + (distance + 1) = start + 1 + distance := by omega
      rw [hshift]
      cases hitem : chain[start]? with
      | none =>
          have hle : chain.length ≤ start := List.getElem?_eq_none_iff.mp hitem
          rw [nearest_of_length_le hle, nearest_of_length_le (by omega)]
          refine iff_of_true rfl fun position item hstart _ hposition => ?_
          rw [List.getElem?_eq_none (le_trans hle hstart)] at hposition
          cases hposition
      | some item =>
          rw [nearest_of_getElem hitem]
          cases hdefines : defines item with
          | true =>
              refine iff_of_false (fun heq => ?_) fun hclear => ?_
              · obtain ⟨hle, -⟩ := nearest_eq_some heq.symm
                omega
              · have hnot := hclear start item le_rfl (by omega) hitem
                exact Bool.false_ne_true (hnot.symm.trans hdefines)
          | false =>
              rw [if_neg Bool.false_ne_true, ih]
              constructor
              · intro hclear position other hstart hstop hother
                rcases Nat.eq_or_lt_of_le hstart with rfl | hlater
                · rw [hitem] at hother
                  obtain rfl := Option.some.inj hother
                  exact hdefines
                · exact hclear position other hlater hstop hother
              · intro hclear position other hstart
                exact hclear position other (Nat.le_of_succ_le hstart)

end Nearest

/-- `CallSuperMethod` of a name, or `ConstructSuper`. -/
inductive SuperCall where
  | method (name : String)
  | constructor
deriving DecidableEq, Repr

def SuperCall.definition (layout : ClassLayout Value Function) : SuperCall → Option Function
  | method name => layout.methods.lookup name
  | constructor => layout.constructor

def SuperCall.defines (call : SuperCall) (layout : ClassLayout Value Function) : Bool :=
  (call.definition layout).isSome

namespace ClassChain

variable (chain : ClassChain Value Function) (home : Nat)

/-- The function that a super call of a method of the home class runs. -/
def superFunction (object : ClassObject Value Function) : SuperCall → Option Function
  | .method name => { object with ofClass := some chain }.superMethod name
  | .constructor => superConstructor (chain.drop home)

/-- Where the code finds it: a method from the second class on, a constructor in the parent only. -/
def superTarget : SuperCall → Option Nat
  | .method name => nearest (SuperCall.method name).defines 1 chain
  | .constructor => if chain[home + 1]?.any SuperCall.constructor.defines then some (home + 1) else none

def definitionAt (call : SuperCall) (position : Option Nat) : Option Function :=
  position.bind fun position => chain[position]?.bind call.definition

theorem resolveMethod_eq (name : String) (start : Nat) :
    resolveMethod name (chain.drop start) =
      chain.definitionAt (.method name) (nearest (SuperCall.method name).defines start chain) := by
  induction hrest : chain.drop start generalizing start with
  | nil =>
      rw [nearest_of_length_le (List.drop_eq_nil_iff.mp hrest)]
      rfl
  | cons current parents ih =>
      have hcurrent : chain[start]? = some current := by
        rw [← List.head?_drop, hrest]
        rfl
      have hparents : chain.drop (start + 1) = parents := by
        rw [← List.tail_drop, hrest]
        rfl
      rw [nearest_of_getElem hcurrent, resolveMethod]
      cases hmethod : current.methods.lookup name with
      | none =>
          have hdefines : (SuperCall.method name).defines current = false := by
            rw [SuperCall.defines, SuperCall.definition, hmethod]
            rfl
          rw [hdefines, if_neg Bool.false_ne_true]
          exact ih _ hparents
      | some method =>
          have hdefines : (SuperCall.method name).defines current = true := by
            rw [SuperCall.defines, SuperCall.definition, hmethod]
            rfl
          rw [hdefines, if_pos rfl, definitionAt, Option.bind_some, hcurrent, Option.bind_some]
          exact hmethod.symm

theorem superConstructor_eq : chain.superConstructor = chain[1]?.bind (·.constructor) := by
  cases chain with
  | nil => rfl
  | cons current parents => cases parents <;> rfl

theorem superFunction_eq (object : ClassObject Value Function) (call : SuperCall) :
    chain.superFunction home object call = chain.definitionAt call (chain.superTarget home call) := by
  cases call with
  | method name =>
      refine Eq.trans ?_ (chain.resolveMethod_eq name 1)
      rw [List.drop_one]
      cases chain <;> rfl
  | constructor =>
      have hparent : superConstructor (chain.drop home) = chain[home + 1]?.bind (·.constructor) := by
        rw [superConstructor_eq, List.getElem?_drop]
      rw [superFunction, hparent, superTarget]
      cases hlayout : chain[home + 1]? with
      | none => rfl
      | some parent =>
          rw [Option.bind_some, Option.any_some, SuperCall.defines]
          cases hconstructor : SuperCall.constructor.definition parent with
          | none => exact hconstructor
          | some constructor =>
              rw [Option.isSome_some, if_pos rfl, definitionAt, Option.bind_some, hlayout]
              rfl

/-- The nearest definition in a strict ancestor of the home class. -/
def nearestAbove (call : SuperCall) : Option Nat := nearest call.defines (home + 1) chain

/-- No class from the second one to the home class defines the method; the parent of the home class has a
constructor, or no class above has one. -/
def ReachesAbove : SuperCall → Prop
  | .method name => Clear (SuperCall.method name).defines 1 (home + 1) chain
  | .constructor => chain[home + 1]?.any SuperCall.constructor.defines = true ∨
      Clear SuperCall.constructor.defines (home + 1) chain.length chain

theorem superTarget_eq_iff (call : SuperCall) :
    chain.superTarget home call = chain.nearestAbove home call ↔ chain.ReachesAbove home call := by
  cases call with
  | method name =>
      rw [superTarget, nearestAbove, Nat.add_comm home, nearest_eq_nearest_iff, ReachesAbove,
        Nat.add_comm home]
  | constructor =>
      rw [superTarget, nearestAbove, ReachesAbove]
      cases hparent : chain[home + 1]? with
      | none =>
          have hle : chain.length ≤ home + 1 := List.getElem?_eq_none_iff.mp hparent
          refine iff_of_true (nearest_of_length_le hle).symm (.inr ?_)
          exact nearest_eq_none_iff.mp (nearest_of_length_le hle)
      | some parent =>
          rw [Option.any_some]
          cases hdefines : SuperCall.constructor.defines parent with
          | true =>
              rw [nearest_of_getElem hparent, hdefines]
              exact iff_of_true rfl (.inl rfl)
          | false =>
              rw [if_neg Bool.false_ne_true, eq_comm, nearest_eq_none_iff]
              exact ⟨.inr, fun h => h.resolve_left Bool.false_ne_true⟩

/-- A run of super calls, each made by the definition that the one before it reached. -/
inductive SuperRun (chain : ClassChain Value Function) : Nat → List (SuperCall × Nat) → Prop
  | done {home : Nat} : SuperRun chain home []
  | call {home target : Nat} {call : SuperCall} {rest : List (SuperCall × Nat)}
      (htarget : chain.superTarget home call = some target) (hrest : SuperRun chain target rest) :
      SuperRun chain home ((call, target) :: rest)

/-- Every call of a run meets the condition. -/
def AllReach (chain : ClassChain Value Function) : Nat → List (SuperCall × Nat) → Prop
  | _, [] => True
  | home, (call, target) :: rest => chain.ReachesAbove home call ∧ AllReach chain target rest

theorem SuperRun.ascends {home : Nat} {visited : List (SuperCall × Nat)}
    (hrun : SuperRun chain home visited) (hreach : AllReach chain home visited) :
    (home :: visited.map Prod.snd).Pairwise (· < ·) ∧
      visited.length ≤ chain.length - (home + 1) := by
  induction hrun with
  | done => exact ⟨List.pairwise_singleton _ _, Nat.zero_le _⟩
  | @call home target call rest htarget _ ih =>
      obtain ⟨hcall, hrest⟩ := hreach
      obtain ⟨hascends, hlength⟩ := ih hrest
      have hnearest : nearest call.defines (home + 1) chain = some target :=
        ((chain.superTarget_eq_iff home call).mpr hcall).symm.trans htarget
      obtain ⟨habove, hbound, -⟩ := nearest_eq_some hnearest
      refine ⟨List.pairwise_cons.mpr ⟨fun position hmem => ?_, hascends⟩, ?_⟩
      · rcases List.mem_cons.mp hmem with rfl | hlater
        · exact habove
        · exact Nat.lt_trans habove ((List.pairwise_cons.mp hascends).1 position hlater)
      · rw [List.length_cons]
        omega

/-- A super call reaches the nearest definition above its home class exactly where no class in between hides
it, and a run of such calls ascends and ends. -/
theorem superCalls_ascend_iff (chain : ClassChain Value Function) (home : Nat) (call : SuperCall)
    (object : ClassObject Value Function) :
    chain.superFunction home object call = chain.definitionAt call (chain.superTarget home call) ∧
      (chain.superTarget home call = chain.nearestAbove home call ↔ chain.ReachesAbove home call) ∧
      ∀ visited, SuperRun chain home visited → AllReach chain home visited →
        (home :: visited.map Prod.snd).Pairwise (· < ·) ∧
          visited.length ≤ chain.length - (home + 1) :=
  ⟨chain.superFunction_eq home object call, chain.superTarget_eq_iff home call,
    fun _ hrun hreach => SuperRun.ascends chain hrun hreach⟩

/-- Three classes that each define the method, whose number is the address of the class. -/
def threeLevels : ClassChain Unit Nat :=
  [2, 1, 0].map fun address => (ClassLayout.newClass address "").defineMethod "describe" address

/-- The super call of the class in the middle runs its own method, and such calls never end. -/
theorem middle_calls_itself :
    threeLevels.superFunction 1 (newInstance ⟨fun _ => .insertion, fun _ => .insertion⟩ threeLevels)
        (.method "describe") = some 1 ∧
      threeLevels.definitionAt (.method "describe") (threeLevels.nearestAbove 1 (.method "describe")) =
        some 0 ∧
      ∀ length, ∃ visited, visited.length = length ∧ SuperRun threeLevels 1 visited := by
  refine ⟨by decide, by decide, fun length => ?_⟩
  induction length with
  | zero => exact ⟨[], rfl, .done⟩
  | succ length ih =>
      obtain ⟨visited, hlength, hrun⟩ := ih
      have htarget : threeLevels.superTarget 1 (.method "describe") = some 1 := by decide
      exact ⟨(.method "describe", 1) :: visited, congrArg (· + 1) hlength, .call htarget hrun⟩

end ClassChain

end Jayess.Runtime
