import Jayess.Backend.Evaluation
import Jayess.Backend.FragmentBlocks
import Jayess.Flow.Paths

/-!
# Paths through a fragment

What is done on the paths through the lines of a fragment, read off the fragment.
-/

namespace Jayess.Backend

open Flow (Traces Observation Path labels Instruction)
open Flow.Traces (seq choice)

/-- What is observed of a line. A fresh stack slot, a phi and a comment are not. -/
def lineObservation : Observation Line BlockLabel Event where
  falls
    | .load _ slot => some [.load slot]
    | .store _ slot => some [.store slot]
    | .call _ _ symbol _ | .voidCall symbol _ => some [.call symbol]
    | .br _ | .brIf .. | .ret _ => none
    | .alloca _ | .phi .. | .legacyCall .. | .legacyRet _ | .label _ => some []
  jumps
    | .br target => [([], target)]
    | .brIf _ onTrue onFalse => [([.decide true], onTrue), ([.decide false], onFalse)]
    | _ => []

namespace Fragment

/-- Only its plain lines are plain. -/
def Plain : Fragment → Prop
  | nil => True
  | plain line => line.isPlain
  | seq first second => first.Plain ∧ second.Plain
  | branch _ onTrue onFalse => onTrue.Plain ∧ onFalse.Plain

def traces : Fragment → Traces Event
  | nil => [[]]
  | plain line => [(lineObservation.falls line).getD []]
  | seq first second => Flow.Traces.seq first.traces second.traces
  | branch _ onTrue onFalse =>
      choice (.decide true) (.decide false) onTrue.traces onFalse.traces

end Fragment

section Paths

variable {code before after rest : List Line} {trace : List Event}

theorem path_br {target : BlockLabel} (hnodup : (labels code).Nodup)
    (hcode : code = before ++ .label target :: after) :
    Path lineObservation code (.br target :: rest) trace [] ↔
      Path lineObservation code after trace [] := by
  rw [Path.cons_iff_of_jumps rfl, ← Path.exists_target_iff hnodup hcode rfl]
  simp [lineObservation]

theorem path_brIf {condition : Operand} {onTrue onFalse : BlockLabel}
    {before' after' : List Line} (hnodup : (labels code).Nodup)
    (hcode : code = before ++ .label onTrue :: after)
    (hcode' : code = before' ++ .label onFalse :: after') :
    Path lineObservation code (.brIf condition onTrue onFalse :: rest) trace [] ↔
      (∃ trace', trace = .decide true :: trace' ∧ Path lineObservation code after trace' []) ∨
      ∃ trace', trace = .decide false :: trace' ∧ Path lineObservation code after' trace' [] := by
  rw [Path.cons_iff_of_jumps rfl]
  simp only [← Path.exists_target_iff hnodup hcode rfl, ← Path.exists_target_iff hnodup hcode' rfl]
  constructor
  · rintro ⟨observed, name, trace', hjump, rfl, hpath⟩
    simp only [lineObservation, List.mem_cons, Prod.mk.injEq, List.not_mem_nil, or_false] at hjump
    rcases hjump with ⟨rfl, rfl⟩ | ⟨rfl, rfl⟩
    · exact .inl ⟨trace', rfl, hpath⟩
    · exact .inr ⟨trace', rfl, hpath⟩
  · rintro (⟨trace', rfl, hpath⟩ | ⟨trace', rfl, hpath⟩)
    · exact ⟨[.decide true], onTrue, trace', by simp [lineObservation], rfl, hpath⟩
    · exact ⟨[.decide false], onFalse, trace', by simp [lineObservation], rfl, hpath⟩

theorem path_silent {line : Line} (hfalls : lineObservation.falls line = some [])
    (hjumps : lineObservation.jumps line = []) :
    Path lineObservation code (line :: rest) trace [] ↔
      Path lineObservation code rest trace [] := by
  rw [Path.cons_iff_of_falls hfalls hjumps]
  simp

theorem path_plain {line : Line} (hplain : line.isPlain) :
    Path lineObservation code (line :: rest) trace [] ↔
      ∃ trace', trace = (lineObservation.falls line).getD [] ++ trace' ∧
        Path lineObservation code rest trace' [] := by
  cases line with
  | label name | br target | brIf condition onTrue onFalse | ret value | phi result incoming =>
      simp [Line.isPlain] at hplain
  | _ => exact Path.cons_iff_of_falls rfl rfl

theorem Fragment.path_iff {fragment : Fragment} (hplain : fragment.Plain)
    (hnodup : (labels code).Nodup) (hcode : code = before ++ fragment.lines ++ after) :
    Path lineObservation code (fragment.lines ++ after) trace [] ↔
      ∃ early ∈ fragment.traces, ∃ late, trace = early ++ late ∧
        Path lineObservation code after late [] := by
  induction fragment generalizing before after trace with
  | nil => simp [Fragment.lines, Fragment.traces]
  | plain line => simpa [Fragment.lines, Fragment.traces] using path_plain hplain
  | seq first second ihfirst ihsecond =>
      have hcode' : code = before ++ first.lines ++ (second.lines ++ after) := by
        rw [hcode, Fragment.lines, List.append_assoc, List.append_assoc, List.append_assoc]
      have hcode'' : code = before ++ first.lines ++ second.lines ++ after := by
        rw [hcode', List.append_assoc _ second.lines]
      rw [Fragment.lines, List.append_assoc, ihfirst hplain.1 hcode']
      simp only [Fragment.traces, Flow.Traces.mem_seq]
      constructor
      · rintro ⟨early, hearly, _, rfl, hrest⟩
        obtain ⟨middle, hmiddle, late, rfl, hpath⟩ := (ihsecond hplain.2 hcode'').mp hrest
        exact ⟨_, ⟨early, hearly, middle, hmiddle, rfl⟩, late, by rw [List.append_assoc], hpath⟩
      · rintro ⟨_, ⟨early, hearly, middle, hmiddle, rfl⟩, late, rfl, hpath⟩
        refine ⟨early, hearly, middle ++ late, by rw [List.append_assoc], ?_⟩
        exact (ihsecond hplain.2 hcode'').mpr ⟨middle, hmiddle, late, rfl, hpath⟩
  | branch frame onTrue onFalse ihtrue ihfalse =>
      let last := Line.label frame.endLabel :: .phi frame.result
        [(frame.trueValue, frame.trueLabel), (frame.falseValue, frame.falseLabel)] :: after
      let falseArm := onFalse.lines ++ .br frame.endLabel :: last
      let trueArm := onTrue.lines ++ .br frame.endLabel :: .label frame.falseLabel :: falseArm
      let start := before ++ [.brIf frame.condition frame.trueLabel frame.falseLabel]
      have hwhole : code = start ++ .label frame.trueLabel :: trueArm := by
        simp [hcode, Fragment.lines, start, trueArm, falseArm, last]
      have htrueArm : code = (start ++ [.label frame.trueLabel]) ++ onTrue.lines ++
          .br frame.endLabel :: .label frame.falseLabel :: falseArm := by
        simp [hwhole, trueArm]
      have hfalseLabel : code = (start ++ .label frame.trueLabel :: onTrue.lines ++
          [.br frame.endLabel]) ++ .label frame.falseLabel :: falseArm := by
        simp [hwhole, trueArm]
      have hfalseArm : code = (start ++ .label frame.trueLabel :: onTrue.lines ++
          [.br frame.endLabel, .label frame.falseLabel]) ++ onFalse.lines ++
            .br frame.endLabel :: last := by
        simp [hwhole, trueArm, falseArm]
      have hend : code = (start ++ .label frame.trueLabel :: onTrue.lines ++
          [.br frame.endLabel, .label frame.falseLabel] ++ onFalse.lines ++
            [.br frame.endLabel]) ++ last := by
        simp [hwhole, trueArm, falseArm]
      have hlines : (Fragment.branch frame onTrue onFalse).lines ++ after =
          .brIf frame.condition frame.trueLabel frame.falseLabel :: .label frame.trueLabel ::
            trueArm := by
        simp [Fragment.lines, trueArm, falseArm, last]
      have hlast : ∀ {rest : List Line} {late : List Event},
          Path lineObservation code (.br frame.endLabel :: rest) late [] ↔
            Path lineObservation code after late [] := fun {rest late} => by
        rw [path_br hnodup hend, path_silent rfl rfl]
      rw [hlines, path_brIf hnodup hwhole hfalseLabel]
      simp only [trueArm, falseArm, ihtrue hplain.1 htrueArm, ihfalse hplain.2 hfalseArm, hlast,
        Fragment.traces, choice, List.mem_append, List.mem_map]
      constructor
      · rintro (⟨_, rfl, early, hearly, late, rfl, hpath⟩ | ⟨_, rfl, early, hearly, late, rfl, hpath⟩)
        · exact ⟨_, .inl ⟨early, hearly, rfl⟩, late, rfl, hpath⟩
        · exact ⟨_, .inr ⟨early, hearly, rfl⟩, late, rfl, hpath⟩
      · rintro ⟨_, ⟨early, hearly, rfl⟩ | ⟨early, hearly, rfl⟩, late, rfl, hpath⟩
        · exact .inl ⟨_, rfl, early, hearly, late, rfl, hpath⟩
        · exact .inr ⟨_, rfl, early, hearly, late, rfl, hpath⟩

theorem Fragment.path_lines_iff {fragment : Fragment} (hplain : fragment.Plain)
    (hnodup : (labels fragment.lines).Nodup) :
    Path lineObservation fragment.lines fragment.lines trace [] ↔ trace ∈ fragment.traces := by
  have hcode : fragment.lines = [] ++ fragment.lines ++ [] := by simp
  have hpath := @Fragment.path_iff _ _ _ trace _ hplain hnodup hcode
  rw [List.append_nil] at hpath
  rw [hpath]
  constructor
  · rintro ⟨early, hearly, late, rfl, hlate⟩
    rw [hlate.eq_nil.1, List.append_nil]
    exact hearly
  · exact fun htrace => ⟨trace, htrace, [], (List.append_nil trace).symm, .refl⟩

end Paths

end Jayess.Backend
