import Jayess.Backend.Definitions
import Jayess.Backend.Phi
import Jayess.Flow.Paths

/-!
# Every read comes after its definition
-/

namespace Jayess.Backend

open Flow (Path Observation labels targetsOf)

/-- What a path defines on its way. -/
def definitions : Observation Line BlockLabel Name where
  falls
    | .br _ | .brIf .. | .ret _ => none
    | line => some line.defs
  jumps
    | .br target => [([], target)]
    | .brIf _ onTrue onFalse => [([], onTrue), ([], onFalse)]
    | _ => []

/-- A path has stopped before a line that starts no block, and what the line reads is there. -/
def Stops (available : Set Name) (trace : List Name) (final : List Line) : Prop :=
  ∃ line rest, final = line :: rest ∧ line.label? = none ∧ ∀ name ∈ line.uses, name ∈ available ∨ name ∈ trace

section Paths

variable {code before after rest final : List Line} {trace : List Name} {available : Set Name}

theorem Stops.of_uses {line : Line} (hlabel : line.label? = none) (huses : ∀ name ∈ line.uses, name ∈ available) :
    Stops available trace (line :: rest) :=
  ⟨line, rest, rfl, hlabel, fun name hname => .inl (huses name hname)⟩

theorem Stops.later {early : List Name} {larger : Set Name} (hstops : Stops larger trace final)
    (hlarger : ∀ name ∈ larger, name ∈ available ∨ name ∈ early) : Stops available (early ++ trace) final := by
  obtain ⟨line, rest, hfinal, hlabel, huses⟩ := hstops
  refine ⟨line, rest, hfinal, hlabel, fun name hname => ?_⟩
  rw [List.mem_append]
  rcases huses name hname with hname | hname
  · exact (hlarger name hname).imp_right .inl
  · exact .inr (.inr hname)

theorem path_defines_plain {line : Line} (hplain : line.isPlain) (huses : ∀ name ∈ line.uses, name ∈ available)
    (hpath : Path definitions code (line :: rest) trace final) :
    Stops available trace final ∨
      ∃ late, trace = line.defs ++ late ∧ Path definitions code rest late final := by
  cases hpath with
  | refl => exact .inl (.of_uses (Line.label?_of_isPlain hplain) huses)
  | falls hfalls hrest =>
      have hdefs : definitions.falls line = some line.defs := by
        cases line <;> first | rfl | simp [Line.isPlain] at hplain
      obtain rfl := Option.some.inj (hdefs.symm.trans hfalls)
      exact .inr ⟨_, rfl, hrest⟩
  | jumps hjump => cases line <;> simp [definitions, Line.isPlain] at hjump hplain

theorem path_defines_br {target : BlockLabel} (hnodup : (labels code).Nodup)
    (hcode : code = before ++ .label target :: after)
    (hpath : Path definitions code (.br target :: rest) trace final) :
    Stops available trace final ∨ Path definitions code after trace final := by
  cases hpath with
  | refl => exact .inl (.of_uses rfl (by simp [Line.uses]))
  | falls hfalls => cases hfalls
  | jumps hjump hcode' hlabel hrest =>
      obtain ⟨rfl, rfl⟩ := by simpa [definitions] using hjump
      rw [Flow.after_unique (hcode ▸ hnodup) (hcode.symm.trans hcode') rfl hlabel]
      exact .inr hrest

theorem path_defines_brIf {condition : Operand} {onTrue onFalse : BlockLabel} {before' after' : List Line}
    (huses : ∀ name ∈ condition.names, name ∈ available) (hnodup : (labels code).Nodup)
    (hcode : code = before ++ .label onTrue :: after) (hcode' : code = before' ++ .label onFalse :: after')
    (hpath : Path definitions code (.brIf condition onTrue onFalse :: rest) trace final) :
    Stops available trace final ∨ Path definitions code after trace final ∨
      Path definitions code after' trace final := by
  cases hpath with
  | refl => exact .inl (.of_uses rfl huses)
  | falls hfalls => cases hfalls
  | jumps hjump hplace hlabel hrest =>
      simp only [definitions, List.mem_cons, Prod.mk.injEq, List.not_mem_nil, or_false] at hjump
      rcases hjump with ⟨rfl, rfl⟩ | ⟨rfl, rfl⟩
      · rw [Flow.after_unique (hcode ▸ hnodup) (hcode.symm.trans hplace) rfl hlabel]
        exact .inr (.inl hrest)
      · rw [Flow.after_unique (hcode' ▸ hnodup) (hcode'.symm.trans hplace) rfl hlabel]
        exact .inr (.inr hrest)

/-- A path from the start of a fragment stops in it, or has passed everything it exports when it leaves it. -/
theorem Numbered.path_defines {counters last : Counters} {fragment : Fragment}
    (hnumbered : Numbered counters fragment last) (hclosed : fragment.Closed available)
    (hnodup : (labels code).Nodup) (hcode : code = before ++ fragment.lines ++ after)
    (hpath : Path definitions code (fragment.lines ++ after) trace final) :
    Stops available trace final ∨ ∃ early late, trace = early ++ late ∧ (∀ name ∈ fragment.exports, name ∈ early) ∧
      Path definitions code after late final := by
  induction hnumbered generalizing available before after trace with
  | nil => exact .inr ⟨[], trace, rfl, by simp [Fragment.exports], hpath⟩
  | act hplain | define hplain =>
      rcases path_defines_plain hplain hclosed hpath with hstops | ⟨late, htrace, hrest⟩
      · exact .inl hstops
      · exact .inr ⟨_, late, htrace, fun name hname => hname, hrest⟩
  | alloca =>
      rcases path_defines_plain rfl hclosed hpath with hstops | ⟨late, htrace, hrest⟩
      · exact .inl hstops
      · exact .inr ⟨_, late, htrace, fun name hname => hname, hrest⟩
  | @seq _ _ _ first second _ _ ihfirst ihsecond =>
      rw [Fragment.lines, List.append_assoc] at hpath
      rw [Fragment.lines] at hcode
      rcases ihfirst hclosed.1 (by simpa using hcode) hpath with hstops | ⟨early, late, rfl, hearly, hrest⟩
      · exact .inl hstops
      · rcases ihsecond hclosed.2
          (show code = (before ++ first.lines) ++ second.lines ++ after by simpa using hcode) hrest with
          hstops | ⟨early', late, rfl, hearly', hrest⟩
        · exact .inl (hstops.later fun name hname => hname.imp_right (hearly name))
        · refine .inr ⟨early ++ early', late, by simp, fun name hname => ?_, hrest⟩
          exact List.mem_append.mpr (hname.imp (hearly name) (hearly' name))
  | @branch _ _ _ frame onTrue onFalse _ _ _ _ _ _ ihtrue ihfalse =>
      obtain ⟨hcondition, htrue, hfalse, -, -⟩ := hclosed
      let last := Line.label frame.endLabel :: .phi frame.result
        [(frame.trueValue, frame.trueLabel), (frame.falseValue, frame.falseLabel)] :: after
      let falseArm := onFalse.lines ++ .br frame.endLabel :: last
      let trueArm := onTrue.lines ++ .br frame.endLabel :: .label frame.falseLabel :: falseArm
      let start := before ++ [.brIf frame.condition frame.trueLabel frame.falseLabel]
      have hwhole : code = start ++ .label frame.trueLabel :: trueArm := by
        simp [hcode, Fragment.lines, start, trueArm, falseArm, last]
      have hfalseLabel : code = (start ++ .label frame.trueLabel :: onTrue.lines ++
          [.br frame.endLabel]) ++ .label frame.falseLabel :: falseArm := by
        simp [hwhole, trueArm]
      have hend : code = (start ++ .label frame.trueLabel :: onTrue.lines ++
          [.br frame.endLabel, .label frame.falseLabel] ++ onFalse.lines ++ [.br frame.endLabel]) ++ last := by
        simp [hwhole, trueArm, falseArm]
      have hlast : ∀ {rest : List Line} {late : List Name}, Path definitions code (.br frame.endLabel :: rest) late final →
          Stops available late final ∨ ∃ late', late = .value frame.result :: late' ∧
            Path definitions code after late' final := fun hbr => by
        rcases path_defines_br hnodup hend hbr with hstops | hphi
        · exact .inl hstops
        · cases hphi with
          | refl => exact .inl (.of_uses rfl (by simp [Line.uses]))
          | falls hfalls hrest =>
              obtain rfl := Option.some.inj hfalls
              exact .inr ⟨_, rfl, hrest⟩
          | jumps hjump => simp [definitions] at hjump
      have harm : ∀ {arm : Fragment} {rest : List Line}, (Stops available trace final ∨ ∃ early late,
          trace = early ++ late ∧ (∀ name ∈ arm.exports, name ∈ early) ∧
            Path definitions code (.br frame.endLabel :: rest) late final) →
          Stops available trace final ∨ ∃ early late, trace = early ++ late ∧
            (∀ name ∈ ({.value frame.result} : Set Name), name ∈ early) ∧ Path definitions code after late final := by
        rintro arm rest (hstops | ⟨early, late, rfl, -, hrest⟩)
        · exact .inl hstops
        · rcases hlast hrest with hstops | ⟨late', rfl, hafter⟩
          · exact .inl (hstops.later fun name hname => .inl hname)
          · refine .inr ⟨early ++ [.value frame.result], late', by simp, ?_, hafter⟩
            rintro name rfl
            simp
      have hlines : (Fragment.branch frame onTrue onFalse).lines ++ after =
          .brIf frame.condition frame.trueLabel frame.falseLabel :: .label frame.trueLabel :: trueArm := by
        simp [Fragment.lines, trueArm, falseArm, last]
      rw [hlines] at hpath
      rcases path_defines_brIf hcondition hnodup hwhole hfalseLabel hpath with hstops | hpath | hpath
      · exact .inl hstops
      · have htrueArm : code = (start ++ [.label frame.trueLabel]) ++ onTrue.lines ++
            .br frame.endLabel :: .label frame.falseLabel :: falseArm := by
          simp [hwhole, trueArm]
        exact harm (ihtrue htrue htrueArm hpath)
      · have hfalseArm : code = (start ++ .label frame.trueLabel :: onTrue.lines ++
            [.br frame.endLabel, .label frame.falseLabel]) ++ onFalse.lines ++ .br frame.endLabel :: last := by
          simp [hwhole, trueArm, falseArm]
        exact harm (ihfalse hfalse hfalseArm hpath)

end Paths

/-- A function in single assignment form: every definition is the only one of its name, every branch goes to a label of
the function, and no path reads a name that it has not defined or runs into the start of a block. -/
structure SingleAssignment (function : Function) : Prop extends DefinesOnce function where
  targets : ∀ target ∈ targetsOf function.body, target ∈ labels function.body
  defined : ∀ trace line rest, Path definitions function.body function.body trace (line :: rest) →
    line.label? = none ∧ ∀ name ∈ line.uses, name ∈ trace

/-- Every function of an expression. -/
theorem lowerRuntimeExpressionFunction_singleAssignment {name : String} {expression : Expression} {function : Function}
    {declarations : List Declaration} {globals : List Global}
    (hrun : lowerRuntimeExpressionFunction name expression = .ok (function, declarations, globals)) :
    SingleAssignment function := by
  unfold lowerRuntimeExpressionFunction at hrun
  split at hrun
  · cases hrun
  · split at hrun
    · cases hrun
    · rename_i value emitted hemit
      obtain ⟨rfl, rfl, rfl⟩ := by simpa using hrun
      obtain ⟨fragment, hemission, hvalue, -⟩ := emitExpression_emits expression ∅ _ _ _
        (fun name slot hslot => by simp [newExpressionEmitter] at hslot) hemit
      have hnumbered := hemission.numbered
      have hbody : emitted.body = fragment.lines := hemission.body
      have hret : labels [Line.ret value] = [] ∧ targetsOf [Line.ret value] = [] := ⟨rfl, rfl⟩
      have hnodup : (labels (fragment.lines ++ [Line.ret value])).Nodup := by
        rw [Flow.labels_append, hret.1, List.append_nil]
        exact hnumbered.labels_nodup
      have hnumbers : (fragment.lines.flatMap Line.numbers).Nodup := by
        rw [List.nodup_iff_count_le_one]
        intro number
        have htally := hnumbered.tally_le number
        have htaken : emitted.counters.taken number ≤ 1 := by
          cases number <;> simp only [Counters.taken] <;> split <;> simp
        exact (Nat.le_add_right _ _).trans (htally.trans htaken)
      simp only [hbody]
      refine ⟨⟨?_, hnodup⟩, ?_, fun trace line rest hpath => ?_⟩
      · simpa [Line.defs] using (hnumbers.sublist (defs_sublist _)).of_map _
      · rw [Flow.targetsOf_append, Flow.labels_append, hret.1, hret.2, List.append_nil, List.append_nil]
        exact hnumbered.targets_subset
      · have hstops : Stops ∅ trace (line :: rest) := by
          rcases hnumbered.path_defines hemission.closed hnodup
              (show fragment.lines ++ [Line.ret value] = [] ++ fragment.lines ++ [Line.ret value] from rfl) hpath with
            hstops | ⟨early, late, rfl, hearly, hlast⟩
          · exact hstops
          · cases hlast with
            | refl => exact ⟨_, _, rfl, rfl, fun name hname => .inr
                (List.mem_append_left _ (hearly name (by simpa using hvalue name hname)))⟩
            | falls hfalls => cases hfalls
            | jumps hjump => simp [definitions] at hjump
        obtain ⟨_, _, heq, hlabel, huses⟩ := hstops
        obtain ⟨rfl, rfl⟩ := List.cons.inj heq
        exact ⟨hlabel, fun name hname => (huses name hname).resolve_left (Set.notMem_empty name)⟩

theorem conditionalOverLogical_singleAssignment : ∃ function declarations globals,
    lowerRuntimeExpressionFunction "value" conditionalOverLogical = .ok (function, declarations, globals) ∧
      SingleAssignment function := by
  obtain ⟨function, ⟨declarations, globals⟩, hrun, -⟩ := exists_ok_of_check
    (lowerRuntimeExpressionFunction "value" conditionalOverLogical) (fun _ => true) (by decide +kernel)
  exact ⟨function, declarations, globals, hrun, lowerRuntimeExpressionFunction_singleAssignment hrun⟩

end Jayess.Backend
