import Mathlib.Data.List.Nodup
import Mathlib.Data.List.Perm.Subperm
import Mathlib.Logic.Relation

/-!
# Worklists
-/

namespace Jayess.Graph

open Relation

/-- The nodes still to visit, all that were ever put in the queue, and those that were visited, each in
order. -/
structure Worklist (α : Type) where
  queue : List α
  queued : List α
  done : List α

namespace Worklist

variable {α : Type} {next : α → List α} {root node other : α} {rest nodes : List α}
  {worklist : Worklist α}

def start (root : α) : Worklist α := ⟨[root], [root], []⟩

structure Explores (next : α → List α) (root : α) (worklist : Worklist α) : Prop where
  split : worklist.queued = worklist.done ++ worklist.queue
  nodup : worklist.queued.Nodup
  covers : root ∈ worklist.queued
  reached : ∀ node ∈ worklist.queued, ReflTransGen (fun first second => second ∈ next first) root node
  closed : ∀ node ∈ worklist.done, ∀ other ∈ next node, other ∈ worklist.queued

theorem explores_start : Explores next root (start root) where
  split := rfl
  nodup := List.nodup_singleton root
  covers := List.mem_singleton_self root
  reached node hmem := by
    rw [List.mem_singleton.mp hmem]
  closed _ hmem := absurd hmem List.not_mem_nil

theorem Explores.not_done (hexplores : Explores next root worklist) (hqueue : worklist.queue = node :: rest) :
    node ∉ worklist.done := by
  intro hmem
  have hnodup := hexplores.nodup
  rw [hexplores.split, hqueue] at hnodup
  exact (List.nodup_append.mp hnodup).2.2 node hmem node List.mem_cons_self rfl

theorem Explores.mem_done_iff (hexplores : Explores next root worklist) (hqueue : worklist.queue = []) :
    node ∈ worklist.done ↔ ReflTransGen (fun first second => second ∈ next first) root node := by
  have hsplit := hexplores.split
  rw [hqueue, List.append_nil] at hsplit
  rw [← hsplit]
  refine ⟨hexplores.reached node, fun hreach => ?_⟩
  induction hreach with
  | refl => exact hexplores.covers
  | tail _ hstep ih => exact hexplores.closed _ (hsplit ▸ ih) _ hstep

theorem Explores.length_le (hexplores : Explores next root worklist)
    (hnodes : ∀ node, ReflTransGen (fun first second => second ∈ next first) root node → node ∈ nodes) :
    worklist.done.length + worklist.queue.length ≤ nodes.length := by
  rw [← List.length_append, ← hexplores.split]
  have hsubset : worklist.queued ⊆ nodes := fun node hmem => hnodes node (hexplores.reached node hmem)
  exact (List.subperm_of_subset hexplores.nodup hsubset).length_le

variable [DecidableEq α]

def enqueue (worklist : Worklist α) (node : α) : Worklist α :=
  if node ∈ worklist.queued then worklist
  else { worklist with queue := worklist.queue ++ [node], queued := worklist.queued ++ [node] }

def visit (next : α → List α) (worklist : Worklist α) (node : α) (rest : List α) : Worklist α :=
  (next node).foldl enqueue { worklist with queue := rest, done := worklist.done ++ [node] }

theorem done_foldl_enqueue : (nodes.foldl enqueue worklist).done = worklist.done := by
  induction nodes generalizing worklist with
  | nil => rfl
  | cons node nodes ih =>
      rw [List.foldl_cons, ih, enqueue]
      split <;> rfl

theorem foldl_enqueue_done (done : List α) :
    nodes.foldl enqueue { worklist with done } = { nodes.foldl enqueue worklist with done } := by
  induction nodes generalizing worklist with
  | nil => rfl
  | cons node nodes ih =>
      have hstep : enqueue { worklist with done } node = { enqueue worklist node with done } := by
        unfold enqueue
        split <;> rfl
      rw [List.foldl_cons, List.foldl_cons, hstep, ih]

theorem mem_foldl_enqueue :
    other ∈ (nodes.foldl enqueue worklist).queued ↔ other ∈ worklist.queued ∨ other ∈ nodes := by
  induction nodes generalizing worklist with
  | nil => simp
  | cons node nodes ih =>
      rw [List.foldl_cons, ih, enqueue]
      split
      · rename_i hmem
        constructor
        · rintro (hold | hrest)
          · exact .inl hold
          · exact .inr (.tail _ hrest)
        · rintro (hold | hrest)
          · exact .inl hold
          · rcases List.mem_cons.mp hrest with rfl | hrest
            · exact .inl hmem
            · exact .inr hrest
      · rw [List.mem_append, List.mem_singleton, List.mem_cons, or_assoc]

theorem split_foldl_enqueue (hsplit : worklist.queued = worklist.done ++ worklist.queue) :
    (nodes.foldl enqueue worklist).queued = worklist.done ++ (nodes.foldl enqueue worklist).queue := by
  induction nodes generalizing worklist with
  | nil => exact hsplit
  | cons node nodes ih =>
      rw [List.foldl_cons]
      have hdone : (enqueue worklist node).done = worklist.done := by
        unfold enqueue
        split <;> rfl
      rw [← hdone]
      refine ih ?_
      rw [hdone, enqueue]
      split
      · exact hsplit
      · change worklist.queued ++ [node] = worklist.done ++ (worklist.queue ++ [node])
        rw [hsplit, List.append_assoc]

theorem nodup_foldl_enqueue (hnodup : worklist.queued.Nodup) :
    (nodes.foldl enqueue worklist).queued.Nodup := by
  induction nodes generalizing worklist with
  | nil => exact hnodup
  | cons node nodes ih =>
      rw [List.foldl_cons]
      refine ih ?_
      rw [enqueue]
      split
      · exact hnodup
      · rename_i hnot
        exact List.nodup_append.mpr ⟨hnodup, List.nodup_singleton node, fun first hfirst second hsecond heq =>
          hnot (List.mem_singleton.mp hsecond ▸ heq ▸ hfirst)⟩

theorem Explores.visit (hexplores : Explores next root worklist) (hqueue : worklist.queue = node :: rest) :
    Explores next root (worklist.visit next node rest) where
  split := by
    have hsplit : worklist.queued = (worklist.done ++ [node]) ++ rest := by
      rw [hexplores.split, hqueue, List.append_assoc, List.singleton_append]
    rw [Worklist.visit, done_foldl_enqueue]
    exact split_foldl_enqueue hsplit
  nodup := nodup_foldl_enqueue hexplores.nodup
  covers := mem_foldl_enqueue.mpr (.inl hexplores.covers)
  reached other hmem := by
    rcases mem_foldl_enqueue.mp hmem with hold | hnext
    · exact hexplores.reached other hold
    · refine (hexplores.reached node ?_).tail hnext
      rw [hexplores.split, hqueue]
      exact List.mem_append_right _ List.mem_cons_self
  closed first hmem second hsecond := by
    rw [Worklist.visit, done_foldl_enqueue] at hmem
    refine mem_foldl_enqueue.mpr ?_
    rcases List.mem_append.mp hmem with hold | hnew
    · exact .inl (hexplores.closed first hold second hsecond)
    · rw [List.mem_singleton.mp hnew] at hsecond
      exact .inr hsecond

end Worklist

end Jayess.Graph
