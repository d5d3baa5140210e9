import Mathlib.Data.Set.Insert
import Jayess.Backend.Fragment

/-!
# Running a fragment

A machine for the lines of an emitted function: the contents of the slots, the world the runtime
calls act on, and the values computed so far.
-/

namespace Jayess.Backend

variable {Value World : Type}

/-- What the linked runtime does: the value of an operand that has no name, a call, and how a
branch reads a condition. -/
structure Runtime (Value World : Type) where
  constant : Operand → Value
  call : String → List Value → World → Value × World
  truthy : Value → Bool

@[ext]
structure Store (Value World : Type) where
  slots : Nat → Value
  world : World

structure Machine (Value World : Type) where
  values : Nat → Value
  store : Store Value World

def Store.set (store : Store Value World) (slot : Nat) (value : Value) : Store Value World :=
  { store with slots := Function.update store.slots slot value }

namespace Machine

def define (machine : Machine Value World) (result : Nat) (value : Value) :
    Machine Value World :=
  { machine with values := Function.update machine.values result value }

def write (machine : Machine Value World) (slot : Nat) (value : Value) : Machine Value World :=
  { machine with store := machine.store.set slot value }

def inWorld (machine : Machine Value World) (world : World) : Machine Value World :=
  { machine with store := { machine.store with world := world } }

@[simp] theorem define_store (machine : Machine Value World) (result : Nat) (value : Value) :
    (machine.define result value).store = machine.store := rfl

@[simp] theorem write_values (machine : Machine Value World) (slot : Nat) (value : Value) :
    (machine.write slot value).values = machine.values := rfl

@[simp] theorem write_store (machine : Machine Value World) (slot : Nat) (value : Value) :
    (machine.write slot value).store = machine.store.set slot value := rfl

@[simp] theorem inWorld_values (machine : Machine Value World) (world : World) :
    (machine.inWorld world).values = machine.values := rfl

@[simp] theorem inWorld_store (machine : Machine Value World) (world : World) :
    (machine.inWorld world).store = { machine.store with world := world } := rfl

@[simp] theorem inWorld_self (machine : Machine Value World) :
    machine.inWorld machine.store.world = machine := rfl

@[simp] theorem define_values_self (machine : Machine Value World) (result : Nat)
    (value : Value) : (machine.define result value).values result = value := by
  simp [define]

theorem define_values_of_ne {machine : Machine Value World} {result other : Nat} {value : Value}
    (hne : other ≠ result) : (machine.define result value).values other = machine.values other := by
  simp [define, hne]

end Machine

variable (runtime : Runtime Value World)

def Operand.eval (machine : Machine Value World) : Operand → Value
  | .named index => machine.values index
  | constant => runtime.constant constant

/-- A line between two labels. A new slot holds `undef`; a comment does nothing. -/
def Line.run (line : Line) (machine : Machine Value World) : Machine Value World :=
  match line with
  | .alloca slot => machine.write slot.index (runtime.constant .undef)
  | .store value slot => machine.write slot.index (value.eval runtime machine)
  | .load result slot => machine.define result (machine.store.slots slot.index)
  | .call result _ symbol args =>
      let returned := runtime.call symbol (args.map (·.value.eval runtime machine))
        machine.store.world
      (machine.define result returned.1).inWorld returned.2
  | .voidCall symbol args =>
      machine.inWorld (runtime.call symbol (args.map (·.value.eval runtime machine))
        machine.store.world).2
  | _ => machine

namespace Fragment

/-- The code of a fragment. One arm of a branch runs, and the phi gives the value of that arm. -/
def run : Fragment → Machine Value World → Machine Value World
  | nil, machine => machine
  | plain line, machine => line.run runtime machine
  | seq first second, machine => second.run (first.run machine)
  | branch frame onTrue onFalse, machine =>
      if runtime.truthy (frame.condition.eval runtime machine) then
        let final := onTrue.run machine
        final.define frame.result (frame.trueValue.eval runtime final)
      else
        let final := onFalse.run machine
        final.define frame.result (frame.falseValue.eval runtime final)

@[simp] theorem run_nil (machine : Machine Value World) :
    Fragment.nil.run runtime machine = machine := rfl

@[simp] theorem run_seq (first second : Fragment) (machine : Machine Value World) :
    (Fragment.seq first second).run runtime machine =
      second.run runtime (first.run runtime machine) := rfl

end Fragment

variable {runtime}

variable {index : Nat} {counters : Counters} {fragment : Fragment}

theorem Line.run_values {line : Line} (hindex : .value index ∉ line.defs)
    (machine : Machine Value World) :
    (line.run runtime machine).values index = machine.values index := by
  cases line with
  | load result slot =>
      have hne : index ≠ result := by simpa [Line.defs] using hindex
      exact Machine.define_values_of_ne hne
  | call result resultType symbol args =>
      have hne : index ≠ result := by simpa [Line.defs] using hindex
      exact Machine.define_values_of_ne hne
  | _ => rfl

theorem Numbered.value_le {final : Counters} (hnumbered : Numbered counters fragment final) :
    counters.value ≤ final.value := by
  induction hnumbered with
  | nil | act _ _ | alloca => exact le_rfl
  | define _ _ => exact Nat.le_succ _
  | seq _ _ hfirst hsecond => exact hfirst.trans hsecond
  | branch _ _ _ _ _ _ htrue hfalse => exact (htrue.trans hfalse).trans (Nat.le_succ _)

theorem Numbered.run_values {final : Counters} (hnumbered : Numbered counters fragment final)
    (hindex : index < counters.value) (machine : Machine Value World) :
    (fragment.run runtime machine).values index = machine.values index := by
  induction hnumbered generalizing machine with
  | nil => rfl
  | act _ hdefs => exact Line.run_values (by simp [hdefs]) machine
  | define _ hdefs => exact Line.run_values (by simp [hdefs]; omega) machine
  | alloca => rfl
  | seq hfirst _ ihfirst ihsecond =>
      rw [Fragment.run_seq, ihsecond (hindex.trans_le hfirst.value_le), ihfirst hindex]
  | branch htrue hfalse _ _ _ hresult ihtrue ihfalse =>
      have hle := hfalse.value_le
      have hle' := htrue.value_le
      rw [Fragment.run]
      split
      · rw [Machine.define_values_of_ne (by omega)]
        exact ihtrue hindex machine
      · rw [Machine.define_values_of_ne (by omega)]
        exact ihfalse (by omega) machine

theorem Numbered.exports_lt {final : Counters} (hnumbered : Numbered counters fragment final)
    (hindex : .value index ∈ fragment.exports) : index < final.value := by
  induction hnumbered with
  | nil => exact absurd hindex (Set.notMem_empty _)
  | act _ hdefs => simp [Fragment.exports, hdefs] at hindex
  | define _ hdefs =>
      obtain rfl : index = _ := by simpa [Fragment.exports, hdefs] using hindex
      exact Nat.lt_succ_self _
  | alloca => simp [Fragment.exports, Line.defs] at hindex
  | seq _ hsecond ihfirst ihsecond =>
      rcases hindex with hindex | hindex
      · exact (ihfirst hindex).trans_le hsecond.value_le
      · exact ihsecond hindex
  | branch _ _ _ _ _ hresult =>
      obtain rfl : index = _ := by simpa [Fragment.exports] using hindex
      rw [hresult]
      exact Nat.lt_succ_self _

/-- The operand was numbered before the counters. -/
def Operand.Before (counters : Counters) (value : Operand) : Prop :=
  ∀ index, value = .named index → index < counters.value

theorem Operand.Before.mono {final : Counters} {value : Operand} (hvalue : value.Before counters)
    (hle : counters.value ≤ final.value) :
    value.Before final :=
  fun index heq => (hvalue index heq).trans_le hle

theorem Operand.Before.eval_run {counters final : Counters} {fragment : Fragment} {value : Operand}
    (hvalue : value.Before counters) (hnumbered : Numbered counters fragment final)
    (machine : Machine Value World) :
    value.eval runtime (fragment.run runtime machine) = value.eval runtime machine := by
  cases value with
  | named index => exact hnumbered.run_values (hvalue index rfl) machine
  | _ => rfl

structure SameOn (available : Set Name) (left right : Machine Value World) : Prop where
  store : left.store = right.store
  values : ∀ index, .value index ∈ available → left.values index = right.values index

variable {available : Set Name} {left right : Machine Value World}

theorem SameOn.eval (hsame : SameOn available left right) {value : Operand}
    (hvalue : ∀ name ∈ value.names, name ∈ available) :
    value.eval runtime left = value.eval runtime right := by
  cases value with
  | named index => exact hsame.values index (hvalue _ (by simp [Operand.names]))
  | _ => rfl

theorem SameOn.define (hsame : SameOn available left right) {result : Nat} {value value' : Value}
    (hvalue : value = value') :
    SameOn (available ∪ {.value result}) (left.define result value)
      (right.define result value') := by
  subst hvalue
  refine ⟨hsame.store, fun index hindex => ?_⟩
  by_cases heq : index = result
  · rw [heq, Machine.define_values_self, Machine.define_values_self]
  · rw [Machine.define_values_of_ne heq, Machine.define_values_of_ne heq]
    exact hsame.values index (hindex.resolve_right fun hname => heq (Name.value.inj hname))

theorem SameOn.write (hsame : SameOn available left right) {slot : Nat} {value value' : Value}
    (hvalue : value = value') : SameOn available (left.write slot value) (right.write slot value') := by
  subst hvalue
  exact ⟨by simp [hsame.store], hsame.values⟩

theorem SameOn.inWorld (hsame : SameOn available left right) {world world' : World}
    (hworld : world = world') : SameOn available (left.inWorld world) (right.inWorld world') := by
  subst hworld
  exact ⟨by simp [hsame.store], hsame.values⟩

theorem SameOn.on {other : Set Name} (hsame : SameOn available left right)
    (hsub : ∀ index, .value index ∈ other → .value index ∈ available) : SameOn other left right :=
  ⟨hsame.store, fun index hindex => hsame.values index (hsub index hindex)⟩

theorem SameOn.args (hsame : SameOn available left right) {args : List RuntimeCallArg}
    (hargs : ∀ name ∈ args.flatMap fun arg => arg.value.names, name ∈ available) :
    args.map (·.value.eval runtime left) = args.map (·.value.eval runtime right) := by
  refine List.map_congr_left fun arg harg => hsame.eval fun name hname => ?_
  exact hargs name (List.mem_flatMap.mpr ⟨arg, harg, hname⟩)

theorem SameOn.line (hsame : SameOn available left right) {line : Line}
    (huses : ∀ name ∈ line.uses, name ∈ available) (hplain : line.isPlain) :
    SameOn (available ∪ { name | name ∈ line.defs }) (line.run runtime left)
      (line.run runtime right) := by
  cases line with
  | alloca slot => exact (hsame.write rfl).on (by simp [Line.defs])
  | store value slot =>
      have hvalue := @SameOn.eval _ _ runtime _ _ _ hsame value
        fun name hname => huses name (List.mem_cons_of_mem _ hname)
      exact (hsame.write hvalue).on (by simp [Line.defs])
  | load result slot =>
      have hslot : left.store.slots slot.index = right.store.slots slot.index := by
        rw [hsame.store]
      exact (hsame.define hslot).on (by simp [Line.defs])
  | call result resultType symbol args =>
      have hargs := @SameOn.args _ _ runtime _ _ _ hsame args huses
      have hcall : runtime.call symbol (args.map (·.value.eval runtime left)) left.store.world =
          runtime.call symbol (args.map (·.value.eval runtime right)) right.store.world := by
        rw [hargs, hsame.store]
      have hdefined := @SameOn.define _ _ _ _ _ hsame result _ _ (congrArg Prod.fst hcall)
      exact (hdefined.inWorld (congrArg Prod.snd hcall)).on (by simp [Line.defs])
  | voidCall symbol args =>
      have hargs := @SameOn.args _ _ runtime _ _ _ hsame args huses
      have hcall : runtime.call symbol (args.map (·.value.eval runtime left)) left.store.world =
          runtime.call symbol (args.map (·.value.eval runtime right)) right.store.world := by
        rw [hargs, hsame.store]
      exact (hsame.inWorld (congrArg Prod.snd hcall)).on (by simp [Line.defs])
  | legacyCall result resultType symbol args => exact hsame.on (by simp [Line.defs])
  | legacyRet value => exact hsame.on (by simp [Line.defs])
  | _ => simp [Line.isPlain] at hplain

theorem SameOn.run {counters final : Counters} {fragment : Fragment}
    (hnumbered : Numbered counters fragment final) (hclosed : fragment.Closed available)
    (hsame : SameOn available left right) :
    SameOn (available ∪ fragment.exports) (fragment.run runtime left)
      (fragment.run runtime right) := by
  induction hnumbered generalizing available left right with
  | nil => exact hsame.on (by simp [Fragment.exports])
  | act hplain _ => exact hsame.line hclosed hplain
  | define hplain _ => exact hsame.line hclosed hplain
  | alloca => exact hsame.line hclosed rfl
  | seq _ _ ihfirst ihsecond =>
      have hsecond := ihsecond hclosed.2 (ihfirst hclosed.1 hsame)
      rw [Fragment.run_seq, Fragment.run_seq]
      simpa only [Fragment.exports, Set.union_assoc] using hsecond
  | @branch _ _ _ frame onTrue onFalse _ _ _ _ _ _ ihtrue ihfalse =>
      obtain ⟨hcondition, htrue, hfalse, htrueValue, hfalseValue⟩ := hclosed
      rw [Fragment.run, Fragment.run, hsame.eval hcondition]
      split
      · have harm := ihtrue htrue hsame
        refine (harm.define (harm.eval htrueValue)).on fun index hindex => ?_
        exact hindex.imp_left Or.inl
      · have harm := ihfalse hfalse hsame
        refine (harm.define (harm.eval hfalseValue)).on fun index hindex => ?_
        exact hindex.imp_left Or.inl

end Jayess.Backend
