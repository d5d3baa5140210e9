import Mathlib.Data.List.Nodup
import Mathlib.Data.List.Perm.Subperm
import Jayess.Graph.Walk

/-! # Trails -/

namespace Jayess.Graph

open Relation

variable {α : Type} {r : α → α → Prop} {active : α → Option Nat} {stack : List α} {node : α}

/-- The stack is a walk, and `active` is where each node stands on it. -/
structure IsTrail (r : α → α → Prop) (active : α → Option Nat) (stack : List α) : Prop where
  active : ∀ node index, active node = some index ↔ stack[index]? = some node
  path : stack.IsChain r

def Offers (r : α → α → Prop) (stack : List α) (node : α) : Prop :=
  ∀ last ∈ stack.getLast?, r last node

theorem isTrail_nil : IsTrail r (fun _ => none) [] := ⟨by simp, .nil⟩

theorem IsTrail.nodup (htrail : IsTrail r active stack) : stack.Nodup := by
  rw [List.nodup_iff_getElem?_ne_getElem?]
  intro first second hlt hbound heq
  obtain ⟨node, hnode⟩ : ∃ node, stack[first]? = some node :=
    ⟨_, List.getElem?_eq_getElem (hlt.trans hbound)⟩
  have hfirst := (htrail.active node first).mpr hnode
  have hsecond := (htrail.active node second).mpr (heq ▸ hnode)
  rw [hfirst] at hsecond
  exact absurd (Option.some.inj hsecond) hlt.ne

theorem IsTrail.not_mem (htrail : IsTrail r active stack) (hnone : active node = none) :
    node ∉ stack := by
  intro hmem
  obtain ⟨index, hindex⟩ := List.mem_iff_getElem?.mp hmem
  rw [(htrail.active node index).mpr hindex] at hnone
  exact absurd hnone (Option.some_ne_none index)

theorem IsTrail.push [DecidableEq α] (htrail : IsTrail r active stack)
    (hoffers : Offers r stack node) (hnone : active node = none) :
    IsTrail r (Function.update active node (some stack.length)) (stack ++ [node]) where
  active other index := by
    have hnotin := htrail.not_mem hnone
    by_cases hother : other = node
    · subst hother
      rw [Function.update_self, List.getElem?_append, Option.some.injEq]
      by_cases hlt : index < stack.length
      · rw [if_pos hlt]
        constructor
        · rintro rfl
          exact absurd hlt (Nat.lt_irrefl _)
        · intro hmem
          exact absurd (List.mem_of_getElem? hmem) hnotin
      · rw [if_neg hlt, List.getElem?_singleton]
        constructor
        · rintro rfl
          simp
        · intro hsome
          have hzero : index - stack.length = 0 := by
            by_contra hne
            simp [hne] at hsome
          omega
    · rw [Function.update_of_ne hother, htrail.active, List.getElem?_append]
      by_cases hlt : index < stack.length
      · rw [if_pos hlt]
      · rw [if_neg hlt, List.getElem?_eq_none (Nat.not_lt.mp hlt), List.getElem?_singleton]
        constructor
        · intro hsome
          exact absurd hsome (Option.some_ne_none other).symm
        · intro hsome
          split at hsome
          · exact absurd (Option.some.inj hsome).symm hother
          · exact absurd hsome (Option.some_ne_none other).symm
  path := by
    rw [List.isChain_append]
    exact ⟨htrail.path, .singleton _, by simpa [Offers] using hoffers⟩

theorem IsTrail.closing (htrail : IsTrail r active stack) (hoffers : Offers r stack node)
    {index : Nat} (hactive : active node = some index) :
    stack.drop index = node :: stack.drop (index + 1) ∧
      (stack.drop index ++ [node]).IsChain r := by
  have hindex := (htrail.active node index).mp hactive
  obtain ⟨hlt, hget⟩ := List.getElem?_eq_some_iff.mp hindex
  refine ⟨by rw [List.drop_eq_getElem_cons hlt, hget], ?_⟩
  rw [List.isChain_append]
  refine ⟨htrail.path.drop index, .singleton _, ?_⟩
  intro last hlast first hfirst
  obtain rfl : node = first := by simpa using hfirst
  refine hoffers last ?_
  rwa [List.getLast?_drop, if_neg (Nat.not_le.mpr hlt)] at hlast

theorem reaches_of_isChain {first : α} {rest : List α} (hwalk : (first :: rest).IsChain r) :
    ∀ node ∈ first :: rest, ReflTransGen r first node := by
  induction rest generalizing first with
  | nil => simp [ReflTransGen.refl]
  | cons second rest ih =>
      obtain ⟨hstep, hrest⟩ := List.isChain_cons_cons.mp hwalk
      intro node hnode
      rcases List.mem_cons.mp hnode with rfl | hnode
      · exact .refl
      · exact .head hstep (ih hrest node hnode)

theorem IsTrail.cycle (htrail : IsTrail r active stack) (hoffers : Offers r stack node)
    {index : Nat} (hactive : active node = some index) : TransGen r node node := by
  obtain ⟨hdrop, hchain⟩ := htrail.closing hoffers hactive
  rw [hdrop, List.cons_append] at hchain
  cases hrest : stack.drop (index + 1) with
  | nil =>
      rw [hrest] at hchain
      exact .single (List.isChain_cons_cons.mp hchain).1
  | cons second rest =>
      rw [hrest, List.cons_append] at hchain
      obtain ⟨hstep, hchain⟩ := List.isChain_cons_cons.mp hchain
      exact .head' hstep (reaches_of_isChain hchain node (by simp))

theorem IsTrail.length_le [DecidableEq α] (htrail : IsTrail r active stack)
    (hoffers : Offers r stack node)
    {keys : List α} (hkeys : ∀ first second, r first second → first ∈ keys) :
    stack.length ≤ keys.length := by
  have hsubset : stack ⊆ keys := by
    intro other hother
    obtain ⟨before, after, hstack⟩ := List.append_of_mem hother
    obtain _ | ⟨next, after⟩ := after
    · exact hkeys other node (hoffers other (by simp [hstack]))
    · have hpath := htrail.path
      rw [hstack, List.isChain_append] at hpath
      exact hkeys other next (List.isChain_cons_cons.mp hpath.2.1).1
  exact (List.subperm_of_subset htrail.nodup hsubset).length_le

end Jayess.Graph
