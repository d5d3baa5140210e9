import Mathlib.Data.List.Basic

/-!
# Blocks of labelled code

Code is a list of instructions some of which define a label and some of which branch to labels.
-/

namespace Flow

universe u v

/-- Instructions with labels and branches. -/
class Instruction (ι : Type u) (label : outParam (Type v)) where
  label? : ι → Option label
  targets : ι → List label

open Instruction

variable {ι : Type u} {label : Type v} [Instruction ι label]

def labels (code : List ι) : List label := code.filterMap label?

def targetsOf (code : List ι) : List label := code.flatMap targets

/-- The block that is open after the code, from the one that is open before it. -/
def blockAfter (block : Option label) : List ι → Option label
  | [] => block
  | instruction :: rest => blockAfter ((label? instruction).or block) rest

/-- The branches of the code: the block each one stands in, and the label it may go to. -/
def edges (block : Option label) : List ι → List (Option label × label)
  | [] => []
  | instruction :: rest =>
      (targets instruction).map (block, ·) ++ edges ((label? instruction).or block) rest

def predecessors [DecidableEq label] (edges : List (Option label × label)) (target : label) :
    List (Option label) :=
  (edges.filter fun edge => edge.2 = target).map Prod.fst

section Append

variable (first second : List ι)

@[simp] theorem labels_nil : labels ([] : List ι) = [] := rfl

@[simp] theorem labels_append : labels (first ++ second) = labels first ++ labels second :=
  List.filterMap_append ..

theorem labels_cons (instruction : ι) :
    labels (instruction :: first) = (label? instruction).toList ++ labels first := by
  cases h : label? instruction <;> simp [labels, h]

@[simp] theorem targetsOf_nil : targetsOf ([] : List ι) = [] := rfl

@[simp] theorem targetsOf_cons (instruction : ι) :
    targetsOf (instruction :: first) = targets instruction ++ targetsOf first :=
  List.flatMap_cons ..

@[simp] theorem targetsOf_append :
    targetsOf (first ++ second) = targetsOf first ++ targetsOf second :=
  List.flatMap_append ..

@[simp] theorem edges_append (block : Option label) :
    edges block (first ++ second) =
      edges block first ++ edges (blockAfter block first) second := by
  induction first generalizing block with
  | nil => rfl
  | cons instruction rest ih => simp only [List.cons_append, edges, blockAfter, ih, List.append_assoc]

end Append

theorem blockAfter_eq (block : Option label) (code : List ι) :
    blockAfter block code = (labels code).getLast?.or block := by
  induction code generalizing block with
  | nil => rfl
  | cons instruction rest ih =>
      rw [blockAfter, ih, labels_cons]
      cases label? instruction with
      | none => simp
      | some name =>
          rw [Option.toList_some, List.singleton_append, List.getLast?_cons]
          cases (labels rest).getLast? <;> simp

theorem mem_targetsOf_of_mem_edges {block : Option label} {code : List ι}
    {edge : Option label × label} (hedge : edge ∈ edges block code) :
    edge.2 ∈ targetsOf code := by
  induction code generalizing block with
  | nil => simp [edges] at hedge
  | cons instruction rest ih =>
      rw [edges, List.mem_append, List.mem_map] at hedge
      rw [targetsOf_cons, List.mem_append]
      rcases hedge with ⟨target, htarget, rfl⟩ | hedge
      · exact Or.inl htarget
      · exact Or.inr (ih hedge)

section Predecessors

variable [DecidableEq label] {target : label}

@[simp] theorem predecessors_nil : predecessors [] target = [] := rfl

@[simp] theorem predecessors_append (first second : List (Option label × label)) :
    predecessors (first ++ second) target =
      predecessors first target ++ predecessors second target := by
  simp [predecessors]

theorem predecessors_cons (edge : Option label × label) (rest : List (Option label × label)) :
    predecessors (edge :: rest) target =
      if edge.2 = target then edge.1 :: predecessors rest target
      else predecessors rest target := by
  by_cases h : edge.2 = target <;> simp [predecessors, h]

theorem predecessors_eq_nil {edges : List (Option label × label)}
    (htarget : ∀ edge ∈ edges, edge.2 ≠ target) : predecessors edges target = [] := by
  rw [predecessors, List.map_eq_nil_iff, List.filter_eq_nil_iff]
  intro edge hedge
  simpa using htarget edge hedge

end Predecessors

end Flow
