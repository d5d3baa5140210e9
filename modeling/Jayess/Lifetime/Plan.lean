import Jayess.Ast

/-!
# The lifetime plan

`lifetime.Plan`: the bindings that are destroyed with their scope, those that outlive it, and what each
closure captures.
-/

namespace Jayess.Lifetime

structure Cleanup where
  binding : String
  line : Nat
  column : Nat
  scopeDepth : Nat
deriving DecidableEq, Repr

structure ExtendedLifetime where
  binding : String
  line : Nat
  column : Nat
  scopeDepth : Nat
deriving DecidableEq, Repr

structure ClosureCapture where
  binding : String
  byReference : Bool
  lifetimeExtended : Bool
  sharedSlot : Nat
  mutated : Bool
  nonDangling : Bool
deriving DecidableEq, Repr

structure ClosureEnvironment where
  line : Nat
  column : Nat
  allocation : String
  captures : List ClosureCapture
deriving DecidableEq, Repr

structure Plan where
  scopeExitCleanups : List Cleanup
  extendedLifetimes : List ExtendedLifetime
  closureEnvironments : List ClosureEnvironment
deriving DecidableEq, Repr

end Jayess.Lifetime
