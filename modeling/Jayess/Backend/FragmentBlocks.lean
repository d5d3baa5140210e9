import Jayess.Backend.Fragment
import Jayess.Flow.Blocks

/-!
# The blocks of a fragment

The labels of a fragment are the block numbers it takes, each defined once, and it branches to no
other label; a fragment whose shape opens no block defines none.
-/

namespace Jayess.Backend

open Flow

instance : Instruction Line BlockLabel := ⟨Line.label?, Line.targets⟩

variable {counters final : Counters} {fragment : Fragment}

variable {line : Line}

theorem Line.label?_of_isPlain (hplain : line.isPlain) :
    Instruction.label? line = none := by
  cases line <;> simp_all [Instruction.label?, Line.isPlain, Line.label?]

theorem Line.targets_of_isPlain (hplain : line.isPlain) :
    Instruction.targets line = [] := by
  cases line <;> simp_all [Instruction.targets, Line.isPlain, Line.targets]

theorem labels_plain (hplain : line.isPlain) : labels [line] = [] := by
  simp [labels_cons, Line.label?_of_isPlain hplain]

theorem targetsOf_plain (hplain : line.isPlain) : targetsOf [line] = [] := by
  simp [Line.targets_of_isPlain hplain]

@[simp] theorem labels_branch (frame : BranchFrame) (onTrue onFalse : Fragment) :
    labels (Fragment.branch frame onTrue onFalse).lines =
      frame.trueLabel :: labels onTrue.lines ++ frame.falseLabel :: labels onFalse.lines ++
        [frame.endLabel] := by
  simp [Fragment.lines, labels_cons, Instruction.label?, Line.label?]

@[simp] theorem targetsOf_branch (frame : BranchFrame) (onTrue onFalse : Fragment) :
    targetsOf (Fragment.branch frame onTrue onFalse).lines =
      frame.trueLabel :: frame.falseLabel :: targetsOf onTrue.lines ++ frame.endLabel ::
        targetsOf onFalse.lines ++ [frame.endLabel] := by
  simp [Fragment.lines, Instruction.targets, Line.targets]

theorem Numbered.block_le (hnumbered : Numbered counters fragment final) :
    counters.block ≤ final.block := by
  induction hnumbered with
  | nil | act | define | alloca => simp
  | seq _ _ ihfirst ihsecond => exact ihfirst.trans ihsecond
  | branch _ _ _ _ _ _ ihtrue ihfalse => exact (ihtrue.trans ihfalse).trans (Nat.le_add_right _ 3)

theorem Numbered.mem_labels (hnumbered : Numbered counters fragment final) :
    ∀ label ∈ labels fragment.lines,
      counters.block ≤ label.index ∧ label.index < final.block := by
  induction hnumbered with
  | nil => simp [Fragment.lines]
  | act hplain => simp [Fragment.lines, labels_plain hplain]
  | define hplain => simp [Fragment.lines, labels_plain hplain]
  | alloca => simp [Fragment.lines, labels_cons, Instruction.label?, Line.label?]
  | seq hfirst hsecond ihfirst ihsecond =>
      intro label hlabel
      rw [Fragment.lines, labels_append, List.mem_append] at hlabel
      have hle := hfirst.block_le
      have hle' := hsecond.block_le
      rcases hlabel with hlabel | hlabel
      · have := ihfirst label hlabel
        omega
      · have := ihsecond label hlabel
        omega
  | branch htrue hfalse htrueLabel hfalseLabel hendLabel _ ihtrue ihfalse =>
      intro label hlabel
      have hle := htrue.block_le
      have hle' := hfalse.block_le
      simp only [labels_branch, List.cons_append, List.mem_cons, List.mem_append,
        List.not_mem_nil, or_false] at hlabel
      dsimp only
      rcases hlabel with rfl | (hlabel | rfl | hlabel) | rfl
      · omega
      · have := ihtrue label hlabel
        omega
      · omega
      · have := ihfalse label hlabel
        omega
      · omega

theorem Numbered.labels_nodup (hnumbered : Numbered counters fragment final) :
    (labels fragment.lines).Nodup := by
  induction hnumbered with
  | nil => simp [Fragment.lines]
  | act hplain => simp [Fragment.lines, labels_plain hplain]
  | define hplain => simp [Fragment.lines, labels_plain hplain]
  | alloca => simp [Fragment.lines, labels_cons, Instruction.label?, Line.label?]
  | seq hfirst hsecond ihfirst ihsecond =>
      rw [Fragment.lines, labels_append, List.nodup_append]
      refine ⟨ihfirst, ihsecond, fun first hmem second hmem' heq => ?_⟩
      have := hfirst.mem_labels first hmem
      have := hsecond.mem_labels second hmem'
      rw [heq] at *
      omega
  | branch htrue hfalse htrueLabel hfalseLabel hendLabel _ ihtrue ihfalse =>
      have hin := htrue.mem_labels
      have hin' := hfalse.mem_labels
      have hle := hfalse.block_le
      simp only [labels_branch]
      grind [List.nodup_append, List.nodup_cons]

theorem Numbered.targets_subset (hnumbered : Numbered counters fragment final) :
    ∀ target ∈ targetsOf fragment.lines, target ∈ labels fragment.lines := by
  induction hnumbered with
  | nil => simp [Fragment.lines]
  | act hplain => simp [Fragment.lines, targetsOf_plain hplain]
  | define hplain => simp [Fragment.lines, targetsOf_plain hplain]
  | alloca => simp [Fragment.lines, Instruction.targets, Line.targets]
  | seq _ _ ihfirst ihsecond =>
      intro target htarget
      rw [Fragment.lines, targetsOf_append, List.mem_append] at htarget
      rw [Fragment.lines, labels_append, List.mem_append]
      exact htarget.imp (ihfirst target) (ihsecond target)
  | branch _ _ _ _ _ _ ihtrue ihfalse =>
      intro target htarget
      simp only [targetsOf_branch, List.cons_append, List.mem_cons, List.mem_append,
        List.not_mem_nil, or_false] at htarget
      have htrue := ihtrue target
      have hfalse := ihfalse target
      simp only [labels_branch, List.cons_append, List.mem_cons, List.mem_append,
        List.not_mem_nil, or_false]
      tauto

theorem Numbered.labels_eq_nil_iff (hnumbered : Numbered counters fragment final) :
    labels fragment.lines = [] ↔ fragment.shape.opensBlock = false := by
  induction hnumbered with
  | nil => simp [Fragment.lines, Fragment.shape, Shape.straight]
  | act hplain => simp [Fragment.lines, Fragment.shape, Shape.straight, labels_plain hplain]
  | define hplain => simp [Fragment.lines, Fragment.shape, Shape.straight, labels_plain hplain]
  | alloca =>
      simp [Fragment.lines, Fragment.shape, Shape.straight, labels_cons, Instruction.label?,
        Line.label?]
  | seq _ _ ihfirst ihsecond =>
      simp [Fragment.lines, Fragment.shape, Shape.append, ihfirst, ihsecond]
  | branch => simp [Fragment.shape, Shape.branch]

end Jayess.Backend
