import Jayess.Backend.ExpressionSpec
import Jayess.Backend.FragmentBlocks

/-!
# The phis of an expression
-/

namespace Jayess.Backend

open Flow

/-- The phis of the code: the block each one stands in, and the blocks it names. -/
def phis (block : Option BlockLabel) : List Line → List (Option BlockLabel × List BlockLabel)
  | [] => []
  | .phi _ incoming :: rest => (block, incoming.map Prod.snd) :: phis block rest
  | line :: rest => phis (line.label?.or block) rest

/-- A phi names each predecessor of its block once, and nothing else. -/
def NamesPredecessors (branches : List (Option BlockLabel × BlockLabel))
    (phi : Option BlockLabel × List BlockLabel) : Prop :=
  match phi.1 with
  | some block => (phi.2.map some).Perm (predecessors branches block)
  | none => False

instance (branches : List (Option BlockLabel × BlockLabel))
    (phi : Option BlockLabel × List BlockLabel) : Decidable (NamesPredecessors branches phi) := by
  unfold NamesPredecessors
  split <;> infer_instance

@[simp] theorem phis_append (block : Option BlockLabel) (first second : List Line) :
    phis block (first ++ second) = phis block first ++ phis (blockAfter block first) second := by
  induction first generalizing block with
  | nil => rfl
  | cons line rest ih =>
      cases line <;> simp [phis, blockAfter, ih, Instruction.label?, Line.label?]

theorem phis_plain {line : Line} (hplain : line.isPlain) (block : Option BlockLabel) :
    phis block [line] = [] := by
  cases line <;> simp_all [Line.isPlain, phis]

variable {counters final : Counters} {fragment : Fragment}

variable {label : BlockLabel}

theorem Numbered.blockAfter_eq_iff (hnumbered : Numbered counters fragment final)
    (hlabel : final.block ≤ label.index) :
    blockAfter (some label) fragment.lines = some label ↔ fragment.shape.opensBlock = false := by
  rw [← hnumbered.labels_eq_nil_iff, blockAfter_eq]
  constructor
  · intro hlast
    by_contra hne
    rw [List.getLast?_eq_some_getLast hne, Option.some_or, Option.some.injEq] at hlast
    have hmem := hnumbered.mem_labels _ (List.getLast_mem hne)
    rw [hlast] at hmem
    omega
  · intro hnil
    simp [hnil]

theorem Numbered.blockAfter_index_le (hnumbered : Numbered counters fragment final)
    {last : BlockLabel} (hlabel : final.block ≤ label.index)
    (hlast : blockAfter (some label) fragment.lines = some last) : last.index ≤ label.index := by
  rw [blockAfter_eq] at hlast
  cases hlabels : (labels fragment.lines).getLast? with
  | none =>
      obtain rfl : label = last := by simpa [hlabels] using hlast
      exact le_rfl
  | some name =>
      obtain rfl : name = last := by simpa [hlabels] using hlast
      have := hnumbered.mem_labels name (List.mem_of_getLast? hlabels)
      omega

/-- The blocks the arms of a branch end in are the ones they start in exactly when neither arm opens
a block. -/
theorem arms_perm_iff {middle : Counters} {onTrue onFalse : Fragment}
    {trueLabel falseLabel : BlockLabel} (htrue : Numbered counters onTrue middle)
    (hfalse : Numbered middle onFalse final) (htrueLabel : trueLabel.index = final.block)
    (hfalseLabel : falseLabel.index = final.block + 1) :
    [some trueLabel, some falseLabel].Perm
        [blockAfter (some trueLabel) onTrue.lines, blockAfter (some falseLabel) onFalse.lines] ↔
      onTrue.shape.opensBlock = false ∧ onFalse.shape.opensBlock = false := by
  have hle : middle.block ≤ final.block := hfalse.block_le
  have htrueIff : blockAfter (some trueLabel) onTrue.lines = some trueLabel ↔ _ :=
    htrue.blockAfter_eq_iff (by omega)
  have hfalseIff : blockAfter (some falseLabel) onFalse.lines = some falseLabel ↔ _ :=
    hfalse.blockAfter_eq_iff (by omega)
  rw [← htrueIff, ← hfalseIff]
  constructor
  · intro hperm
    have hfalseMem : some falseLabel ∈
        [blockAfter (some trueLabel) onTrue.lines, blockAfter (some falseLabel) onFalse.lines] :=
      hperm.mem_iff.mp (by simp)
    -- the false label is too late to be where the true arm ends
    have hne : some falseLabel ≠ blockAfter (some trueLabel) onTrue.lines := fun heq => by
      have hindex := htrue.blockAfter_index_le (by omega) heq.symm
      omega
    have hfalseEq : some falseLabel = blockAfter (some falseLabel) onFalse.lines := by
      simpa [hne] using hfalseMem
    rw [← hfalseEq] at hperm ⊢
    have hsingle : ([some trueLabel] ++ [some falseLabel]).Perm
        ([blockAfter (some trueLabel) onTrue.lines] ++ [some falseLabel]) := hperm
    rw [List.perm_append_right_iff, List.singleton_perm_singleton] at hsingle
    exact ⟨hsingle.symm, rfl⟩
  · rintro ⟨htrueEq, hfalseEq⟩
    rw [htrueEq, hfalseEq]

section Branch

variable (block : Option BlockLabel) (frame : BranchFrame) (onTrue onFalse : Fragment)

theorem edges_branch :
    edges block (Fragment.branch frame onTrue onFalse).lines =
      [(block, frame.trueLabel), (block, frame.falseLabel)] ++
        edges (some frame.trueLabel) onTrue.lines ++
        [(blockAfter (some frame.trueLabel) onTrue.lines, frame.endLabel)] ++
        edges (some frame.falseLabel) onFalse.lines ++
        [(blockAfter (some frame.falseLabel) onFalse.lines, frame.endLabel)] := by
  simp [Fragment.lines, edges, Instruction.label?, Instruction.targets, Line.label?, Line.targets]

theorem phis_branch :
    phis block (Fragment.branch frame onTrue onFalse).lines =
      phis (some frame.trueLabel) onTrue.lines ++ phis (some frame.falseLabel) onFalse.lines ++
        [(some frame.endLabel, [frame.trueLabel, frame.falseLabel])] := by
  simp [Fragment.lines, phis, Line.label?]

end Branch

theorem Numbered.predecessors_eq_nil (hnumbered : Numbered counters fragment final)
    (hlabel : label.index < counters.block ∨ final.block ≤ label.index) (block : Option BlockLabel)
    : predecessors (edges block fragment.lines) label = [] := by
  refine Flow.predecessors_eq_nil fun edge hedge heq => ?_
  have hmem := hnumbered.targets_subset _ (mem_targetsOf_of_mem_edges hedge)
  have hindex := hnumbered.mem_labels _ hmem
  rw [heq] at hindex
  omega

/-- `branches` holds the branches to the labels of a fragment that stand in the fragment, and no
other branches to them. -/
def OwnEdges (counters final : Counters) (block : Option BlockLabel) (fragment : Fragment)
    (branches : List (Option BlockLabel × BlockLabel)) : Prop :=
  ∀ label : BlockLabel, counters.block ≤ label.index → label.index < final.block →
    predecessors branches label = predecessors (edges block fragment.lines) label

/-- The phis of a fragment name the predecessors of their blocks exactly when the arms of its
branches open no block. -/
theorem Numbered.phis_iff (hnumbered : Numbered counters fragment final)
    {block : Option BlockLabel} {branches : List (Option BlockLabel × BlockLabel)}
    (hown : OwnEdges counters final block fragment branches) :
    (∀ phi ∈ phis block fragment.lines, NamesPredecessors branches phi) ↔
      fragment.shape.straightArms = true := by
  induction hnumbered generalizing block with
  | nil => simp [Fragment.lines, phis, Fragment.shape, Shape.straight]
  | act hplain => simp [Fragment.lines, phis_plain hplain, Fragment.shape, Shape.straight]
  | define hplain => simp [Fragment.lines, phis_plain hplain, Fragment.shape, Shape.straight]
  | alloca => simp [Fragment.lines, phis, Fragment.shape, Shape.straight]
  | @seq counters middle final first second hfirst hsecond ihfirst ihsecond =>
      have hle := hfirst.block_le
      have hle' := hsecond.block_le
      have hownFirst : OwnEdges counters middle block first branches := by
        intro label hge hlt
        rw [hown label hge (by omega), Fragment.lines, edges_append, predecessors_append,
          hsecond.predecessors_eq_nil (Or.inl hlt), List.append_nil]
      have hownSecond :
          OwnEdges middle final (blockAfter block first.lines) second branches := by
        intro label hge hlt
        rw [hown label (by omega) hlt, Fragment.lines, edges_append, predecessors_append,
          hfirst.predecessors_eq_nil (Or.inr hge), List.nil_append]
      rw [Fragment.lines, phis_append, List.forall_mem_append, ihfirst hownFirst,
        ihsecond hownSecond]
      simp [Fragment.shape, Shape.append]
  | @branch counters middle final frame onTrue onFalse htrue hfalse htrueLabel hfalseLabel
      hendLabel hresult ihtrue ihfalse =>
      have hle := htrue.block_le
      have hle' := hfalse.block_le
      have hne : ∀ label : BlockLabel, label.index < final.block →
          frame.trueLabel ≠ label ∧ frame.falseLabel ≠ label ∧ frame.endLabel ≠ label := by
        intro label hlt
        refine ⟨?_, ?_, ?_⟩ <;> rintro rfl <;> omega
      have hownTrue :
          OwnEdges counters middle (some frame.trueLabel) onTrue branches := by
        intro label hge hlt
        obtain ⟨hneTrue, hneFalse, hneEnd⟩ := hne label (by omega)
        rw [hown label hge (by dsimp only; omega), edges_branch]
        simp [predecessors_cons, hneTrue, hneFalse, hneEnd,
          hfalse.predecessors_eq_nil (Or.inl hlt)]
      have hownFalse :
          OwnEdges middle final (some frame.falseLabel) onFalse branches := by
        intro label hge hlt
        obtain ⟨hneTrue, hneFalse, hneEnd⟩ := hne label hlt
        rw [hown label (by omega) (by dsimp only; omega), edges_branch]
        simp [predecessors_cons, hneTrue, hneFalse, hneEnd,
          htrue.predecessors_eq_nil (Or.inr hge)]
      have hownEnd : predecessors branches frame.endLabel =
          [blockAfter (some frame.trueLabel) onTrue.lines,
            blockAfter (some frame.falseLabel) onFalse.lines] := by
        have hneTrue : frame.trueLabel ≠ frame.endLabel := fun heq => by
          rw [heq] at htrueLabel
          omega
        have hneFalse : frame.falseLabel ≠ frame.endLabel := fun heq => by
          rw [heq] at hfalseLabel
          omega
        have htrueEnd : middle.block ≤ frame.endLabel.index := by omega
        have hfalseEnd : final.block ≤ frame.endLabel.index := by omega
        rw [hown frame.endLabel (by omega) (by dsimp only; omega), edges_branch]
        simp [predecessors_cons, hneTrue, hneFalse, htrue.predecessors_eq_nil (Or.inr htrueEnd),
          hfalse.predecessors_eq_nil (Or.inr hfalseEnd)]
      have hphi : NamesPredecessors branches
          (some frame.endLabel, [frame.trueLabel, frame.falseLabel]) ↔
            onTrue.shape.opensBlock = false ∧ onFalse.shape.opensBlock = false := by
        simp only [NamesPredecessors, hownEnd]
        exact arms_perm_iff htrue hfalse htrueLabel hfalseLabel
      rw [phis_branch, List.forall_mem_append, List.forall_mem_append, ihtrue hownTrue,
        ihfalse hownFalse, List.forall_mem_singleton, hphi]
      simp [Fragment.shape, Shape.branch, and_assoc]

/-- The labels an emitter has used in its body come from the numbers it has handed out. -/
def ExpressionEmitter.LabelsBelow (emitter : ExpressionEmitter) : Prop :=
  ∀ label ∈ labels emitter.body ++ targetsOf emitter.body, label.index < emitter.blockIndex

theorem newExpressionEmitter_labelsBelow : newExpressionEmitter.LabelsBelow := by
  simp [ExpressionEmitter.LabelsBelow, newExpressionEmitter]

/-- `a ? (b && c) : d` on literals: the phi of the conditional names the block its true arm starts
in, but the arm ends in the end block of `&&`. -/
def conditionalOverLogical : Expression :=
  .conditional ⟨1, 1⟩ (.booleanLiteral ⟨1, 1⟩ true)
    (.logical ⟨1, 8⟩ .and (.booleanLiteral ⟨1, 8⟩ true) (.booleanLiteral ⟨1, 16⟩ false))
    (.nullLiteral ⟨1, 25⟩)

/-- `a ? b : c` on literals. -/
def conditionalOfLiterals : Expression :=
  .conditional ⟨1, 1⟩ (.booleanLiteral ⟨1, 1⟩ true) (.booleanLiteral ⟨1, 8⟩ true)
    (.nullLiteral ⟨1, 15⟩)

end Jayess.Backend
