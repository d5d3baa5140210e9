import Jayess.Flow.Blocks
import Jayess.Flow.Traces

/-! # Paths through labelled code -/

namespace Flow

open Instruction

universe u v w

variable {ι : Type u} {label : Type v} {ε : Type w} [Instruction ι label]

structure Observation (ι : Type u) (label : Type v) (ε : Type w) where
  falls : ι → Option (List ε)
  jumps : ι → List (List ε × label)

/-- A path through `code` from what is left of it at the start to what is left of it at the end,
with what is observed on the way. -/
inductive Path (observe : Observation ι label ε) (code : List ι) :
    List ι → List ε → List ι → Prop where
  | refl {rest : List ι} : Path observe code rest [] rest
  | falls {instruction : ι} {rest final : List ι} {observed trace : List ε}
      (hfalls : observe.falls instruction = some observed)
      (hpath : Path observe code rest trace final) :
      Path observe code (instruction :: rest) (observed ++ trace) final
  | jumps {instruction target : ι} {rest before after final : List ι} {name : label}
      {observed trace : List ε} (hjump : (observed, name) ∈ observe.jumps instruction)
      (hcode : code = before ++ target :: after) (hlabel : label? target = some name)
      (hpath : Path observe code after trace final) :
      Path observe code (instruction :: rest) (observed ++ trace) final

namespace Path

variable {observe : Observation ι label ε} {code final : List ι} {trace : List ε}

theorem eq_nil (hpath : Path observe code [] trace final) : trace = [] ∧ final = [] := by
  cases hpath
  exact ⟨rfl, rfl⟩

end Path

section Labels

variable {before before' after after' : List ι} {target target' : ι} {name : label}

theorem after_unique (hnodup : (labels (before ++ target :: after)).Nodup)
    (heq : before ++ target :: after = before' ++ target' :: after')
    (hlabel : label? target = some name) (hlabel' : label? target' = some name) :
    after = after' := by
  induction before generalizing before' with
  | nil =>
      cases before' with
      | nil => exact (List.cons.inj heq).2
      | cons instruction rest =>
          obtain ⟨rfl, hafter⟩ := List.cons.inj heq
          rw [List.nil_append, hafter, labels_cons, hlabel, List.append_eq, labels_append,
            labels_cons, hlabel'] at hnodup
          simp at hnodup
  | cons instruction rest ih =>
      cases before' with
      | nil =>
          obtain ⟨rfl, hrest⟩ := List.cons.inj heq
          rw [List.cons_append, labels_cons, hlabel', labels_append, labels_cons, hlabel] at hnodup
          simp at hnodup
      | cons instruction' rest' =>
          obtain ⟨rfl, hrest⟩ := List.cons.inj heq
          rw [List.cons_append, labels_cons, List.nodup_append] at hnodup
          exact ih hnodup.2.1 hrest

end Labels

namespace Path

variable {observe : Observation ι label ε} {code before after rest final : List ι}
  {instruction target : ι} {name : label} {trace : List ε}

theorem cons_iff_of_falls {observed : List ε} (hfalls : observe.falls instruction = some observed)
    (hjumps : observe.jumps instruction = []) :
    Path observe code (instruction :: rest) trace [] ↔
      ∃ trace', trace = observed ++ trace' ∧ Path observe code rest trace' [] := by
  constructor
  · intro hpath
    cases hpath with
    | falls hfalls' hpath =>
        obtain rfl := Option.some.inj (hfalls.symm.trans hfalls')
        exact ⟨_, rfl, hpath⟩
    | jumps hjump => simp [hjumps] at hjump
  · rintro ⟨trace', rfl, hpath⟩
    exact .falls hfalls hpath

theorem cons_iff_of_jumps (hfalls : observe.falls instruction = none) :
    Path observe code (instruction :: rest) trace [] ↔
      ∃ observed name trace', (observed, name) ∈ observe.jumps instruction ∧
        trace = observed ++ trace' ∧ ∃ before target after, code = before ++ target :: after ∧
          label? target = some name ∧ Path observe code after trace' [] := by
  constructor
  · intro hpath
    cases hpath with
    | falls hfalls' => simp [hfalls] at hfalls'
    | jumps hjump hcode hlabel hpath =>
        exact ⟨_, _, _, hjump, rfl, _, _, _, hcode, hlabel, hpath⟩
  · rintro ⟨observed, name, trace', hjump, rfl, before, target, after, hcode, hlabel, hpath⟩
    exact .jumps hjump hcode hlabel hpath

theorem exists_target_iff (hnodup : (labels code).Nodup) (hcode : code = before ++ target :: after)
    (hlabel : label? target = some name) :
    (∃ before' target' after', code = before' ++ target' :: after' ∧
        label? target' = some name ∧ Path observe code after' trace []) ↔
      Path observe code after trace [] := by
  constructor
  · rintro ⟨before', target', after', hcode', hlabel', hpath⟩
    rw [after_unique (hcode ▸ hnodup) (hcode.symm.trans hcode') hlabel hlabel']
    exact hpath
  · exact fun hpath => ⟨before, target, after, hcode, hlabel, hpath⟩

end Path

end Flow
