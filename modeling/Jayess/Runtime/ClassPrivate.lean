import Mathlib.Logic.Nontrivial.Basic
import Jayess.Runtime.ClassLayout

/-!
# Private fields
-/

namespace Jayess.Runtime

open DynamicObject

variable {Value Function : Type*}

section Instance

variable {orders : FieldOrders Value Function} {chain : ClassChain Value Function}
  {object : ClassObject Value Function} {name : String}

theorem hasPrivateField_eq : object.hasPrivateField name = (object.getPrivateField name).isSome := by
  rw [hasPrivateField, getPrivateField]
  cases object.privateFields with
  | none => rfl
  | some fields => rw [Bool.eq_iff_iff, decide_eq_true_iff, AList.lookup_isSome]

theorem ofClass_initializeInstance :
    (ClassChain.initializeInstance orders chain object).ofClass = object.ofClass := by
  induction chain with
  | nil => rfl
  | cons layout parents ih =>
      rw [ClassChain.initializeInstance, (foldl_copyPrivate _ _ _).2.2, (foldl_copyNamed _ _ _).2, ih]

theorem getPrivateField_initializeInstance :
    (ClassChain.initializeInstance orders chain object).getPrivateField name =
      (chain.findSome? (·.privateFields.lookup name)).or (object.getPrivateField name) := by
  induction chain with
  | nil => rfl
  | cons layout parents ih =>
      have hkeys : name ∈ (orders.privateFields layout).range layout.privateFields.keys ↔
          (layout.privateFields.lookup name).isSome := by
        rw [((orders.privateFields layout).perm _).mem_iff, AList.lookup_isSome]
        rfl
      rw [ClassChain.initializeInstance, foldl_copyTo
        (fun _ _ _ => getPrivateField_setPrivate_self)
        (fun _ _ _ _ hne => getPrivateField_setPrivate_of_ne hne),
        getPrivateField_congr (foldl_copyNamed _ _ _).1, ih, List.findSome?_cons]
      simp only [hkeys, and_self]
      cases layout.privateFields.lookup name with
      | none => rfl
      | some value => rfl

theorem getPrivateField_newInstance :
    (chain.newInstance orders).getPrivateField name =
      chain.findSome? (·.privateFields.lookup name) :=
  getPrivateField_initializeInstance.trans (Option.or_none)

end Instance

/-- A `SetCheckedPrivateField` by code of a class. -/
structure PrivateWrite (Value Function : Type*) where
  owner : ClassLayout Value Function
  name : String
  value : Value

namespace PrivateWrite

def run (object : ClassObject Value Function) (writes : List (PrivateWrite Value Function)) :
    ClassObject Value Function :=
  writes.foldl (fun object write =>
    (object.setCheckedPrivateField (some write.owner) write.name write.value).1) object

/-- What the field of a class holds after a write, from what it held before: the write must be by code of
the same class, and to a field that the class has. -/
def store (owner : ClassLayout Value Function) (name : String) (held : Option Value)
    (write : PrivateWrite Value Function) : Option Value :=
  if write.owner.address = owner.address ∧ write.name = name then held.map fun _ => write.value
  else held

def fieldOf (owner : ClassLayout Value Function) (name : String)
    (writes : List (PrivateWrite Value Function)) : Option Value :=
  writes.foldl (store owner name) (owner.privateFields.lookup name)

end PrivateWrite

/-- Each class of the chain sees its own private fields, whatever is written by code of the others. -/
def ClassChain.KeepsPrivate (chain : ClassChain Value Function) : Prop :=
  ∀ (orders : FieldOrders Value Function) (writes : List (PrivateWrite Value Function)),
    (∀ write ∈ writes, write.owner ∈ chain) → ∀ owner ∈ chain, ∀ name,
      (PrivateWrite.run (chain.newInstance orders) writes).getCheckedPrivateField (some owner) name =
          PrivateWrite.fieldOf owner name writes ∧
        ∀ value, ((PrivateWrite.run (chain.newInstance orders) writes).setCheckedPrivateField
          (some owner) name value).2 = (owner.privateFields.lookup name).isSome

section Access

variable {chain : ClassChain Value Function} {owner : ClassLayout Value Function}
  {object : ClassObject Value Function} {name other : String} {value : Value}

theorem extendsOrEquals_of_mem (howner : owner ∈ chain) : chain.extendsOrEquals owner = true := by
  induction chain with
  | nil => exact absurd howner List.not_mem_nil
  | cons current parents ih =>
      rw [ClassChain.extendsOrEquals, Bool.or_eq_true]
      rcases List.mem_cons.mp howner with rfl | hparents
      · exact .inl (decide_eq_true rfl)
      · exact .inr (ih hparents)

theorem canAccessPrivate_eq (hclass : object.ofClass = some chain) (howner : owner ∈ chain) :
    object.canAccessPrivate (some owner) name = (object.getPrivateField name).isSome := by
  have haccess : object.canAccessPrivate (some owner) name =
      (chain.extendsOrEquals owner && object.hasPrivateField name) := by
    simp only [canAccessPrivate, hclass]
  rw [haccess, extendsOrEquals_of_mem howner, Bool.true_and, hasPrivateField_eq]

theorem getCheckedPrivateField_eq (hclass : object.ofClass = some chain) (howner : owner ∈ chain) :
    object.getCheckedPrivateField (some owner) name = object.getPrivateField name := by
  rw [getCheckedPrivateField, canAccessPrivate_eq hclass howner]
  cases object.getPrivateField name with
  | none => rfl
  | some value => rfl

theorem setCheckedPrivateField_snd (hclass : object.ofClass = some chain) (howner : owner ∈ chain) :
    (object.setCheckedPrivateField (some owner) name value).2 =
      (object.getPrivateField name).isSome := by
  rw [setCheckedPrivateField, canAccessPrivate_eq hclass howner]
  cases (object.getPrivateField name).isSome with
  | false => rfl
  | true => rfl

theorem ofClass_setChecked :
    (object.setCheckedPrivateField (some owner) name value).1.ofClass = object.ofClass := by
  rw [setCheckedPrivateField]
  split <;> rfl

theorem getPrivateField_setChecked (hclass : object.ofClass = some chain) (howner : owner ∈ chain) :
    (object.setCheckedPrivateField (some owner) name value).1.getPrivateField other =
      if name = other then (object.getPrivateField other).map fun _ => value
      else object.getPrivateField other := by
  rw [setCheckedPrivateField, canAccessPrivate_eq hclass howner]
  by_cases heq : name = other
  · subst heq
    rw [if_pos rfl]
    cases hheld : object.getPrivateField name with
    | none => exact hheld
    | some held => exact getPrivateField_setPrivate_self
  · rw [if_neg heq]
    split
    · exact getPrivateField_setPrivate_of_ne fun hsame => heq hsame.symm
    · rfl

end Access

namespace PrivateWrite

variable {chain : ClassChain Value Function} {object : ClassObject Value Function} {name : String}
  {writes : List (PrivateWrite Value Function)}

theorem ofClass_run : (run object writes).ofClass = object.ofClass := by
  induction writes generalizing object with
  | nil => rfl
  | cons write rest ih =>
      rw [run, List.foldl_cons, ← run, ih]
      exact ofClass_setChecked

theorem getPrivateField_run (hclass : object.ofClass = some chain)
    (howners : ∀ write ∈ writes, write.owner ∈ chain) :
    (run object writes).getPrivateField name =
      writes.foldl (fun held write => if write.name = name then held.map fun _ => write.value else held)
        (object.getPrivateField name) := by
  induction writes generalizing object with
  | nil => rfl
  | cons write rest ih =>
      obtain ⟨hfirst, hrest⟩ := List.forall_mem_cons.mp howners
      rw [run, List.foldl_cons, ← run, ih (ofClass_setChecked.trans hclass) hrest, List.foldl_cons,
        getPrivateField_setChecked hclass hfirst]

theorem foldl_store_eq {owner : ClassLayout Value Function} (held : Option Value)
    (howners : ∀ write ∈ writes, write.owner ∈ [owner]) :
    writes.foldl (fun held write => if write.name = name then held.map fun _ => write.value else held)
        held = writes.foldl (store owner name) held := by
  refine List.foldl_ext _ _ _ fun held write hwrite => ?_
  have haddress : write.owner.address = owner.address :=
    congrArg _ (List.mem_singleton.mp (howners write hwrite))
  rw [store]
  simp only [haddress, true_and]

theorem foldl_none {step : Option Value → PrivateWrite Value Function → Option Value}
    (hstep : ∀ write, step none write = none) : writes.foldl step none = none := by
  induction writes with
  | nil => rfl
  | cons write rest ih => rw [List.foldl_cons, hstep, ih]

theorem isSome_fieldOf {owner : ClassLayout Value Function} :
    (fieldOf owner name writes).isSome = (owner.privateFields.lookup name).isSome := by
  rw [fieldOf]
  generalize owner.privateFields.lookup name = held
  induction writes generalizing held with
  | nil => rfl
  | cons write rest ih =>
      rw [List.foldl_cons, ih, store]
      split
      · exact Option.isSome_map
      · rfl

end PrivateWrite

namespace ClassChain

variable {chain : ClassChain Value Function}

theorem keepsPrivate_singleton (layout : ClassLayout Value Function) :
    KeepsPrivate [layout] := by
  intro orders writes howners owner howner name
  obtain rfl := List.mem_singleton.mp howner
  have hclass : (PrivateWrite.run (newInstance orders [owner]) writes).ofClass = some [owner] :=
    PrivateWrite.ofClass_run.trans ofClass_initializeInstance
  have hfield : (PrivateWrite.run (newInstance orders [owner]) writes).getPrivateField name =
      PrivateWrite.fieldOf owner name writes := by
    rw [PrivateWrite.getPrivateField_run ofClass_initializeInstance howners,
      PrivateWrite.foldl_store_eq _ howners, getPrivateField_newInstance, PrivateWrite.fieldOf]
    congr 1
    cases hlookup : owner.privateFields.lookup name <;> simp [hlookup]
  refine ⟨by rw [getCheckedPrivateField_eq hclass howner, hfield], fun value => ?_⟩
  rw [setCheckedPrivateField_snd hclass howner, hfield]
  exact PrivateWrite.isSome_fieldOf

theorem keepsPrivate_of_none (hnone : ∀ layout ∈ chain, ∀ name, layout.privateFields.lookup name = none) :
    KeepsPrivate chain := by
  intro orders writes howners owner howner name
  have hclass : (PrivateWrite.run (chain.newInstance orders) writes).ofClass = some chain :=
    PrivateWrite.ofClass_run.trans ofClass_initializeInstance
  have hstart : (chain.newInstance orders).getPrivateField name = none := by
    rw [getPrivateField_newInstance, List.findSome?_eq_none_iff]
    exact fun layout hlayout => hnone layout hlayout name
  have hfield : (PrivateWrite.run (chain.newInstance orders) writes).getPrivateField name = none := by
    rw [PrivateWrite.getPrivateField_run ofClass_initializeInstance howners, hstart]
    exact PrivateWrite.foldl_none fun write => ite_self _
  have hideal : PrivateWrite.fieldOf owner name writes = none := by
    rw [PrivateWrite.fieldOf, hnone owner howner name]
    exact PrivateWrite.foldl_none fun write => ite_self _
  refine ⟨by rw [getCheckedPrivateField_eq hclass howner, hfield, hideal], fun value => ?_⟩
  rw [setCheckedPrivateField_snd hclass howner, hfield, hnone owner howner name]

theorem exists_other (hdistinct : (chain.map (·.address)).Nodup) (hlength : 1 < chain.length)
    (layout : ClassLayout Value Function) : ∃ other ∈ chain, layout.address ≠ other.address := by
  rcases chain with _ | ⟨first, _ | ⟨second, rest⟩⟩
  · exact absurd hlength (by simp)
  · exact absurd hlength (by simp)
  · have hne : first.address ≠ second.address := by
      intro heq
      rw [List.map_cons, List.map_cons, heq] at hdistinct
      exact (List.nodup_cons.mp hdistinct).1 List.mem_cons_self
    by_cases heq : layout.address = first.address
    · refine ⟨second, .tail _ (.head _), ?_⟩
      rw [heq]
      exact hne
    · exact ⟨first, .head _, heq⟩

/-- Private fields are kept apart exactly where the chain has one class or no private field. -/
theorem keepsPrivate_iff [Nontrivial Value] (chain : ClassChain Value Function)
    (hdistinct : (chain.map (·.address)).Nodup) :
    chain.KeepsPrivate ↔ chain.length ≤ 1 ∨
      ∀ layout ∈ chain, ∀ name, layout.privateFields.lookup name = none := by
  constructor
  · intro hkeeps
    by_contra hnot
    rw [not_or, not_le] at hnot
    obtain ⟨hlength, hdeclared⟩ := hnot
    push Not at hdeclared
    obtain ⟨owner, howner, name, hfield⟩ := hdeclared
    obtain ⟨other, hother, hne⟩ := exists_other hdistinct hlength owner
    have horders : FieldOrders Value Function := ⟨fun _ => .insertion, fun _ => .insertion⟩
    cases hlookup : other.privateFields.lookup name with
    | none =>
        -- the other class has no such field, but finds that of the owner
        have hread := (hkeeps horders [] (fun _ h => absurd h List.not_mem_nil) other hother name).1
        rw [PrivateWrite.run, List.foldl_nil,
          getCheckedPrivateField_eq ofClass_initializeInstance hother, getPrivateField_newInstance,
          PrivateWrite.fieldOf, List.foldl_nil, hlookup, List.findSome?_eq_none_iff] at hread
        exact hfield (hread owner howner)
    | some held =>
        -- a write by code of the owner shows in the field of the other class
        obtain ⟨value, hvalue⟩ := exists_ne held
        have howners : ∀ write ∈ [(⟨owner, name, value⟩ : PrivateWrite Value Function)],
            write.owner ∈ chain := List.forall_mem_singleton.mpr howner
        have hread := (hkeeps horders _ howners other hother name).1
        have hshown : chain.findSome? (·.privateFields.lookup name) ≠ none := fun hnone =>
          hfield (List.findSome?_eq_none_iff.mp hnone owner howner)
        rw [getCheckedPrivateField_eq (PrivateWrite.ofClass_run.trans ofClass_initializeInstance) hother,
          PrivateWrite.getPrivateField_run ofClass_initializeInstance howners,
          getPrivateField_newInstance, PrivateWrite.fieldOf, hlookup] at hread
        obtain ⟨shown, hshown⟩ := Option.ne_none_iff_exists'.mp hshown
        rw [hshown] at hread
        simp only [List.foldl_cons, List.foldl_nil, if_true, Option.map_some, PrivateWrite.store, hne,
          false_and, if_false, Option.some.injEq] at hread
        exact hvalue hread
  · rintro (hlength | hnone)
    · rcases chain with _ | ⟨layout, _ | ⟨second, rest⟩⟩
      · exact keepsPrivate_of_none fun _ h => absurd h List.not_mem_nil
      · exact keepsPrivate_singleton layout
      · exact absurd hlength (by simp)
    · exact keepsPrivate_of_none hnone

def twoLevels : ClassChain Bool Unit :=
  [.newClass 1 "Derived", (ClassLayout.newClass 0 "Base").definePrivateField "secret" true]

theorem twoLevels_keepsPrivate_iff :
    twoLevels.KeepsPrivate ↔ twoLevels.length ≤ 1 ∨
      ∀ layout ∈ twoLevels, ∀ name, layout.privateFields.lookup name = none :=
  keepsPrivate_iff twoLevels (by decide)

/-- Code of the derived class reads the private field that only the base class has. -/
theorem derived_reads_secret : ¬twoLevels.KeepsPrivate := by
  intro hkeeps
  have hread := (hkeeps ⟨fun _ => .insertion, fun _ => .insertion⟩ [] (by simp)
    (.newClass 1 "Derived") (.head _) "secret").1
  exact absurd hread (by decide)

end ClassChain

end Jayess.Runtime
