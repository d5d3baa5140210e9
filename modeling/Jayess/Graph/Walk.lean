import Mathlib.Data.List.Chain
import Mathlib.Logic.Relation

/-! # Walks -/

namespace Jayess.Graph

open Relation

variable {α : Type} {r : α → α → Prop} {first second last : α} {walk : List α}

structure IsWalk (r : α → α → Prop) (first : α) (walk : List α) : Prop where
  head : walk.head? = some first
  chain : walk.IsChain r

def Bounded (r : α → α → Prop) (first : α) (length : Nat) : Prop :=
  ∀ walk, IsWalk r first walk → walk.length ≤ length

structure Longest (r : α → α → Prop) (first : α) (steps : Nat) : Prop where
  attained : ∃ walk, IsWalk r first walk ∧ walk.length = steps + 1
  bounded : Bounded r first (steps + 1)

theorem IsWalk.singleton : IsWalk r first [first] := ⟨rfl, .singleton first⟩

theorem IsWalk.cons (hstep : r first second) (hwalk : IsWalk r second walk) :
    IsWalk r first (first :: walk) := by
  refine ⟨rfl, List.isChain_cons.mpr ⟨fun next hnext => ?_, hwalk.chain⟩⟩
  rw [hwalk.head] at hnext
  cases hnext
  exact hstep

theorem IsWalk.cases (hwalk : IsWalk r first walk) :
    walk = [first] ∨ ∃ second rest, r first second ∧ IsWalk r second rest ∧ walk = first :: rest := by
  obtain ⟨hhead, hchain⟩ := hwalk
  obtain _ | ⟨node, _ | ⟨second, rest⟩⟩ := walk
  · cases hhead
  · cases hhead
    exact Or.inl rfl
  · cases hhead
    obtain ⟨hstep, hrest⟩ := List.isChain_cons_cons.mp hchain
    exact Or.inr ⟨second, second :: rest, hstep, ⟨rfl, hrest⟩, rfl⟩

theorem IsWalk.length_pos (hwalk : IsWalk r first walk) : 0 < walk.length := by
  rcases hwalk.cases with rfl | ⟨_, _, _, _, rfl⟩ <;> exact Nat.succ_pos _

variable {length steps : Nat}

theorem Bounded.step (hbounded : Bounded r first length) (hstep : r first second) :
    Bounded r second (length - 1) := by
  intro walk hwalk
  have hlonger := hbounded _ (hwalk.cons hstep)
  rw [List.length_cons] at hlonger
  omega

theorem Bounded.pos (hbounded : Bounded r first length) : 0 < length :=
  hbounded [first] .singleton

theorem Bounded.transGen (hbounded : Bounded r first length) (hreaches : TransGen r first last) :
    ∃ shorter < length, Bounded r last shorter := by
  induction hreaches with
  | single hstep => exact ⟨length - 1, Nat.sub_lt hbounded.pos Nat.one_pos, hbounded.step hstep⟩
  | tail _ hstep ih =>
      obtain ⟨shorter, hlt, hshorter⟩ := ih
      exact ⟨shorter - 1, (Nat.sub_le _ _).trans_lt hlt, hshorter.step hstep⟩

theorem Bounded.reflTransGen (hbounded : Bounded r first length)
    (hreaches : ReflTransGen r first last) : ∃ shorter, Bounded r last shorter := by
  rcases reflTransGen_iff_eq_or_transGen.mp hreaches with rfl | hreaches
  · exact ⟨length, hbounded⟩
  · obtain ⟨shorter, -, hshorter⟩ := hbounded.transGen hreaches
    exact ⟨shorter, hshorter⟩

theorem Bounded.not_cycle (hbounded : Bounded r first length) :
    ¬ TransGen r first first := by
  intro hcycle
  induction length using Nat.strong_induction_on with
  | _ length ih =>
      obtain ⟨shorter, hlt, hshorter⟩ := hbounded.transGen hcycle
      exact ih shorter hlt hshorter

theorem Longest.unique {steps' : Nat} (hsteps : Longest r first steps)
    (hsteps' : Longest r first steps') : steps = steps' := by
  obtain ⟨walk, hwalk, hlength⟩ := hsteps.attained
  obtain ⟨walk', hwalk', hlength'⟩ := hsteps'.attained
  have hle := hsteps'.bounded walk hwalk
  have hle' := hsteps.bounded walk' hwalk'
  omega

theorem Longest.lt_of_step {steps' : Nat} (hfirst : Longest r first steps)
    (hsecond : Longest r second steps') (hstep : r first second) : steps' < steps := by
  obtain ⟨walk, hwalk, hlength⟩ := hsecond.attained
  have hle := hfirst.bounded _ (hwalk.cons hstep)
  rw [List.length_cons, hlength] at hle
  omega

theorem Longest.exists_step (hfirst : Longest r first (steps + 1)) :
    ∃ second, r first second ∧ Longest r second steps := by
  obtain ⟨walk, hwalk, hlength⟩ := hfirst.attained
  rcases hwalk.cases with rfl | ⟨second, rest, hstep, hrest, rfl⟩
  · simp at hlength
  · exact ⟨second, hstep, ⟨rest, hrest, by simpa using hlength⟩, hfirst.bounded.step hstep⟩

end Jayess.Graph
