import Jayess.Runtime.DynamicObject

/-! # Runtime classes -/

namespace Jayess.Runtime

variable {Value Function : Type*}

/-- `Accessor`; a nil function is none. -/
structure Accessor (Function : Type*) where
  getter : Option Function
  setter : Option Function
deriving DecidableEq

/-- What `runtime.Class` keeps besides its parent; the address tells one pointer from another. -/
structure ClassLayout (Value Function : Type*) where
  address : Nat
  name : String
  constructor : Option Function
  fields : PropertyMap Value
  privateFields : PropertyMap Value
  methods : PropertyMap Function
  privateMethods : PropertyMap Function
  accessors : PropertyMap (Accessor Function)
  staticFields : PropertyMap Value
  staticOrder : List String
  staticBlocks : List (Option Function)
  staticDone : Bool

/-- `*runtime.Class`: the class and those its parent pointers lead to, `[]` for nil. -/
abbrev ClassChain (Value Function : Type*) := List (ClassLayout Value Function)

abbrev ClassObject (Value Function : Type*) := DynamicObject Value (ClassChain Value Function)

/-! ## Definitions -/

namespace ClassLayout

def newClass (address : Nat) (name : String) : ClassLayout Value Function where
  address
  name
  constructor := none
  fields := ∅
  privateFields := ∅
  methods := ∅
  privateMethods := ∅
  accessors := ∅
  staticFields := ∅
  staticOrder := []
  staticBlocks := []
  staticDone := false

variable (layout : ClassLayout Value Function) (name : String)

def defineConstructor (function : Option Function) : ClassLayout Value Function :=
  { layout with constructor := function }

def defineField (value : Value) : ClassLayout Value Function :=
  { layout with fields := layout.fields.insert name value }

def definePrivateField (value : Value) : ClassLayout Value Function :=
  { layout with privateFields := layout.privateFields.insert name value }

def defineMethod (method : Function) : ClassLayout Value Function :=
  { layout with methods := layout.methods.insert name method }

def definePrivateMethod (method : Function) : ClassLayout Value Function :=
  { layout with privateMethods := layout.privateMethods.insert name method }

def defineAccessor (getter setter : Option Function) : ClassLayout Value Function :=
  { layout with accessors := layout.accessors.insert name ⟨getter, setter⟩ }

def defineStaticField (value : Value) : ClassLayout Value Function :=
  { layout with
    staticOrder := if name ∈ layout.staticFields then layout.staticOrder
      else layout.staticOrder ++ [name]
    staticFields := layout.staticFields.insert name value }

def defineStaticBlock (block : Option Function) : ClassLayout Value Function :=
  { layout with staticBlocks := layout.staticBlocks ++ [block] }

/-- `RunStaticBlocks`, with the blocks that it calls. -/
def runStaticBlocks : ClassLayout Value Function × List Function :=
  if layout.staticDone then (layout, [])
  else ({ layout with staticDone := true }, layout.staticBlocks.filterMap id)

end ClassLayout

structure FieldOrders (Value Function : Type*) where
  fields : ClassLayout Value Function → MapOrder
  privateFields : ClassLayout Value Function → MapOrder

namespace ClassChain

open DynamicObject (copyTo setNamedProperty setPrivateField)

variable (orders : FieldOrders Value Function)

def initializeInstance : ClassChain Value Function → ClassObject Value Function →
    ClassObject Value Function
  | [], instance' => instance'
  | layout :: parents, instance' =>
      ((orders.privateFields layout).range layout.privateFields.keys).foldl
        (copyTo layout.privateFields.lookup setPrivateField)
        (((orders.fields layout).range layout.fields.keys).foldl
          (copyTo layout.fields.lookup setNamedProperty)
          (initializeInstance parents instance'))

def newInstance (chain : ClassChain Value Function) : ClassObject Value Function :=
  initializeInstance orders chain { (DynamicObject.newObject : ClassObject Value Function) with
    ofClass := some chain }

variable (name : String)

def resolveMethod : ClassChain Value Function → Option Function
  | [] => none
  | current :: parents =>
      match current.methods.lookup name with
      | some method => some method
      | none => resolveMethod parents

def resolveSuperMethod : ClassChain Value Function → Option Function
  | [] => none
  | _ :: parents => resolveMethod name parents

/-- The constructor that `ConstructSuper` calls; where there is none it returns undefined. -/
def superConstructor : ClassChain Value Function → Option Function
  | [] | [_] => none
  | _ :: parent :: _ => parent.constructor

/-- `ConstructSuper`; an instance is made where none is passed. -/
def constructSuper {Result Argument : Type*} (undefined : Result)
    (call : Function → ClassObject Value Function → List Argument → Result)
    (chain : ClassChain Value Function) (passed : Option (ClassObject Value Function))
    (arguments : List Argument) : Result :=
  match chain.superConstructor with
  | none => undefined
  | some constructor => call constructor (passed.getD (newInstance orders chain)) arguments

def extendsOrEquals (owner : ClassLayout Value Function) : ClassChain Value Function → Bool
  | [] => false
  | current :: parents => decide (current.address = owner.address) || extendsOrEquals owner parents

end ClassChain

namespace DynamicObject

variable (object : ClassObject Value Function)

/-- The method that `CallSuperMethod` calls; where there is none it returns undefined. -/
def superMethod (name : String) : Option Function :=
  match object.ofClass with
  | none => none
  | some chain => chain.resolveSuperMethod name

def callSuperMethod {Result Argument : Type*} (undefined : Result)
    (call : Function → ClassObject Value Function → List Argument → Result) (name : String)
    (arguments : List Argument) : Result :=
  match object.superMethod name with
  | none => undefined
  | some method => call method object arguments

def hasPrivateField (name : String) : Bool :=
  match object.privateFields with
  | none => false
  | some fields => decide (name ∈ fields)

/-- `CanAccessPrivate`; a nil owner is none. -/
def canAccessPrivate (owner : Option (ClassLayout Value Function)) (name : String) : Bool :=
  match owner, object.ofClass with
  | some owner, some chain => chain.extendsOrEquals owner && object.hasPrivateField name
  | _, _ => false

/-- `GetCheckedPrivateField`; nothing where the source returns the undefined value and false. -/
def getCheckedPrivateField (owner : Option (ClassLayout Value Function)) (name : String) :
    Option Value :=
  if object.canAccessPrivate owner name then object.getPrivateField name else none

/-- `SetCheckedPrivateField`, with what it returns. -/
def setCheckedPrivateField (owner : Option (ClassLayout Value Function)) (name : String)
    (value : Value) : ClassObject Value Function × Bool :=
  if object.canAccessPrivate owner name then (object.setPrivateField name value, true)
  else (object, false)

end DynamicObject

end Jayess.Runtime
