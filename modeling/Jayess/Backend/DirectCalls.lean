import Jayess.Backend.Signed

/-!
# Direct calls

The calls of standard functions in an expression, with the number of their arguments, by the tables
of imports at it; and that the emitter declares exactly these besides fixed signatures.
-/

namespace Jayess.Backend

/-- An emitter with the tables. -/
def StdlibTables.emitter (tables : StdlibTables) : ExpressionEmitter :=
  { newExpressionEmitter with
    stdlibBindings := tables.bindings, stdlibNamespaces := tables.namespaces }

namespace StdlibTables

variable (tables : StdlibTables)

def callSymbol (name : String) : Option String := stdlibLocalCallSymbol tables.emitter name

def memberSymbol (target : Expression) (property : String) : Option String :=
  (processStreamSymbol target property).or
    (stdlibMemberInvokeSymbol tables.emitter target property false false)

end StdlibTables

end Jayess.Backend

namespace Jayess

open Backend

mutual

/-- The direct calls in an expression. The body of a function expression is not emitted with it, and
a folded operator calls nothing. -/
def Expression.directCalls (tables : StdlibTables) : Expression → List DirectCall
  | .comma _ left right | .instanceof _ left right | .index _ left right _
  | .nullishCoalesce _ left right | .logical _ _ left right =>
      left.directCalls tables ++ right.directCalls tables
  | .unary _ operator right =>
      match operator with
      | .void | .delete => right.directCalls tables
      | _ => []
  | .update _ _ value _ | .typeof _ value | .spread _ value | .member _ value _ _ _ =>
      value.directCalls tables
  | .conditional _ condition consequent alternative =>
      condition.directCalls tables ++
        (consequent.directCalls tables ++ alternative.directCalls tables)
  | .comparison _ operator left right =>
      match operator with
      | .in => left.directCalls tables ++ right.directCalls tables
      | _ => []
  | .objectLiteral _ properties => propertiesDirectCalls tables properties
  | .arrayLiteral _ elements => elementsDirectCalls tables elements
  | .call _ callee arguments =>
      match tables.callSymbol callee with
      | some symbol => argumentsDirectCalls tables arguments ++ [⟨symbol, arguments.length⟩]
      | none => argumentsDirectCalls tables arguments
  | .invoke _ callee arguments _ =>
      match callee with
      | .member _ target property _ _ =>
          match tables.memberSymbol target property with
          | some symbol => argumentsDirectCalls tables arguments ++ [⟨symbol, arguments.length⟩]
          | none => target.directCalls tables ++ argumentsDirectCalls tables arguments
      | callee => callee.directCalls tables ++ argumentsDirectCalls tables arguments
  | .newExpression _ callee arguments =>
      callee.directCalls tables ++ argumentsDirectCalls tables arguments
  | _ => []

def argumentsDirectCalls (tables : StdlibTables) : List Expression → List DirectCall
  | [] => []
  | argument :: rest => argument.directCalls tables ++ argumentsDirectCalls tables rest

def elementsDirectCalls (tables : StdlibTables) : List (Option Expression) → List DirectCall
  | [] => []
  | none :: rest => elementsDirectCalls tables rest
  | some element :: rest => element.directCalls tables ++ elementsDirectCalls tables rest

def propertiesDirectCalls (tables : StdlibTables) : List ObjectProperty → List DirectCall
  | [] => []
  | ⟨_, some keyExpr, value, true, false⟩ :: rest =>
      keyExpr.directCalls tables ++ (value.directCalls tables ++ propertiesDirectCalls tables rest)
  | ⟨_, _, value, _, _⟩ :: rest =>
      value.directCalls tables ++ propertiesDirectCalls tables rest

end

end Jayess

namespace Jayess.Backend

open HasExpressions (expressions)

variable {tables : StdlibTables} {calls more : List DirectCall}

variable {symbol name stem : String} {args : List RuntimeCallArg} {count : Nat}
    {value condition : Operand} {isPrivate optional : Bool} {emitTarget emit : ExprM Operand}
    {operand : Expression} {emitArgs : ExprM (List RuntimeCallArg)}
    {emitThisAndRest : ExprM (Operand × Operand)}

theorem emitRuntimeCall_makes {result : String}
    (hfixed : HasSignature symbol result (args.map (·.irType))) :
    Makes tables (emitRuntimeCall result symbol args) [] := by
  intro emitter value emitted htables hsigned hrun
  obtain ⟨rfl, rfl⟩ := emitRuntimeCall_run hrun
  have hnew : IsFixed (runtimeCallDeclaration symbol result args) := ⟨_, _, _, hfixed, rfl⟩
  refine ⟨htables, trivial, declare_gains hsigned (.fixed hnew) rfl rfl ?_⟩
  simp [Line.declaration?]

theorem emitRuntimeVoidCall_makes (hfixed : HasSignature symbol "void" (args.map (·.irType))) :
    Makes tables (emitRuntimeVoidCall symbol args) [] := by
  intro emitter value emitted htables hsigned hrun
  obtain rfl := emitRuntimeVoidCall_run hrun
  have hnew : IsFixed (runtimeCallDeclaration symbol "void" args) := ⟨_, _, _, hfixed, rfl⟩
  refine ⟨htables, trivial, declare_gains hsigned (.fixed hnew) rfl rfl ?_⟩
  simp [Line.declaration?]

theorem emitDirectCall_makes (hsymbol : symbol ∈ directSymbols)
    (hargs : args.map (·.irType) = values count) :
    Makes tables (emitRuntimeValueCall symbol args) [⟨symbol, count⟩] := by
  intro emitter value emitted htables hsigned hrun
  obtain ⟨rfl, rfl⟩ := emitRuntimeCall_run hrun
  have hnew : DirectCall.declaration ⟨symbol, count⟩ =
      runtimeCallDeclaration symbol runtimeValueIRType args := by
    rw [runtimeCallDeclaration_eq, hargs, DirectCall.declaration]
  refine ⟨htables, trivial, declare_gains hsigned (.direct hsymbol hnew) rfl rfl ?_⟩
  simp [Line.declaration?]

theorem emitUnary_makes (hsymbol : symbol ∈ unarySymbols) :
    Makes tables (emitRuntimeUnaryValue symbol value) [] :=
  emitRuntimeCall_makes (hasSignature_unary hsymbol)

theorem emitBinary_makes {left right : Operand} (hsymbol : symbol ∈ binarySymbols) :
    Makes tables (emitRuntimeBinaryValue symbol left right) [] :=
  emitRuntimeCall_makes (hasSignature_binary hsymbol)

theorem emitCallable_makes {callee thisValue arguments : Operand}
    (hsymbol : symbol ∈ ternarySymbols) :
    Makes tables (emitRuntimeCallable symbol callee thisValue arguments) [] :=
  emitRuntimeCall_makes (hasSignature_ternary hsymbol)

theorem ofExcept_makes {α : Type} {result : Except EmitError α} :
    Makes tables (ofExcept result) [] := by
  intro emitter value emitted htables hsigned hrun
  obtain ⟨-, rfl⟩ := ofExcept_run hrun
  exact ⟨htables, trivial, .of_eq hsigned rfl rfl⟩

theorem lowerRuntimeLiteral_signature (result : Nat) (literal : RuntimeLiteral)
    (stringIndex : Nat) : ∃ declaration, IsFixed declaration ∧
      (lowerRuntimeLiteral result literal stringIndex).declarations = [declaration] ∧
      ∀ line ∈ (lowerRuntimeLiteral result literal stringIndex).body,
        line.declaration? = some declaration ∨ line.declaration? = none := by
  have hnullary : ∀ symbol ∈ nullarySymbols, IsFixed (signature symbol runtimeValueIRType []) :=
    fun symbol hsymbol => ⟨_, _, _, hasSignature_nullary hsymbol, rfl⟩
  have hspecial : ∀ entry ∈ specialSignatures, IsFixed (signature entry.1 entry.2.1 entry.2.2) :=
    fun entry hentry => ⟨_, _, _, hasSignature_special hentry, rfl⟩
  cases literal with
  | undefined =>
      refine ⟨_, hnullary "jayess_value_undefined" (by simp [nullarySymbols]), rfl, ?_⟩
      simp [lowerRuntimeLiteral, Line.declaration?, runtimeLiteralSymbol, runtimeCallDeclaration_eq]
  | null =>
      refine ⟨_, hnullary "jayess_value_null" (by simp [nullarySymbols]), rfl, ?_⟩
      simp [lowerRuntimeLiteral, Line.declaration?, runtimeLiteralSymbol, runtimeCallDeclaration_eq]
  | boolean value =>
      refine ⟨_, hspecial ("jayess_value_from_boolean", runtimeValueIRType, ["i1"])
        (by simp [specialSignatures]), rfl, ?_⟩
      simp [lowerRuntimeLiteral, Line.declaration?, runtimeLiteralSymbol, runtimeCallDeclaration_eq]
  | number value =>
      refine ⟨_, hspecial ("jayess_value_from_number", runtimeValueIRType, ["double"])
        (by simp [specialSignatures]), rfl, ?_⟩
      simp [lowerRuntimeLiteral, Line.declaration?, runtimeLiteralSymbol, runtimeCallDeclaration_eq]
  | bigInt text =>
      refine ⟨_, hspecial ("jayess_value_from_bigint_string", runtimeValueIRType, ["i8*"])
        (by simp [specialSignatures]), rfl, ?_⟩
      simp [lowerRuntimeLiteral, Line.declaration?, runtimeLiteralSymbol, runtimeCallDeclaration_eq]
  | string text =>
      refine ⟨_, hspecial ("jayess_value_from_string_copy", runtimeValueIRType, ["i8*"])
        (by simp [specialSignatures]), rfl, ?_⟩
      simp [lowerRuntimeLiteral, Line.declaration?, runtimeLiteralSymbol, runtimeCallDeclaration_eq]

theorem emitRuntimeLiteral_makes (literal : RuntimeLiteral) :
    Makes tables (emitRuntimeLiteral literal) [] := by
  intro emitter value emitted htables hsigned hrun
  obtain ⟨declaration, hfixed, hdeclaration, hlines⟩ :=
    lowerRuntimeLiteral_signature emitter.valueIndex literal emitter.stringIndex
  obtain ⟨rfl, declared, hdeclared, rfl⟩ := emitRuntimeLiteral_eq hrun
  obtain rfl := List.singleton_injective (hdeclaration.symm.trans hdeclared)
  exact ⟨htables, trivial, declare_gains hsigned (.fixed hfixed) rfl rfl hlines⟩

theorem emitRuntimeUndefined_makes : Makes tables emitRuntimeUndefined [] :=
  emitRuntimeLiteral_makes .undefined

theorem emitRuntimeString_makes {value : String} : Makes tables (emitRuntimeString value) [] :=
  emitRuntimeLiteral_makes (.string value)

theorem appendLines_makes {lines : List Line} (hlines : ∀ line ∈ lines, line.declaration? = none) :
    Makes tables (appendLines lines) [] := by
  intro emitter value emitted htables hsigned hrun
  obtain ⟨-, rfl⟩ := by simpa only [appendLines, Except.ok.injEq, Prod.mk.injEq] using hrun
  exact ⟨htables, trivial, .of_lines hsigned rfl rfl (covers_of_none hlines)⟩

theorem nextValueName_makes : Makes tables nextValueName [] := by
  intro emitter value emitted htables hsigned hrun
  obtain ⟨-, rfl⟩ := by simpa only [nextValueName, Except.ok.injEq, Prod.mk.injEq] using hrun
  exact ⟨htables, trivial, .of_eq hsigned rfl rfl⟩

theorem nextLocalSlot_makes : Makes tables nextLocalSlot [] := by
  intro emitter value emitted htables hsigned hrun
  obtain ⟨-, rfl⟩ := by simpa only [nextLocalSlot, Except.ok.injEq, Prod.mk.injEq] using hrun
  exact ⟨htables, trivial, .of_eq hsigned rfl rfl⟩

theorem loadLocal_makes : Makes tables (loadLocal name) [] := by
  intro emitter value emitted htables hsigned hrun
  obtain ⟨slot, -, rfl, rfl⟩ := loadLocal_run hrun
  exact ⟨htables, trivial, .of_lines hsigned rfl rfl (covers_of_none (by simp [Line.declaration?]))⟩

theorem storeLocal_makes :
    Makes tables (storeLocal name value) [] := by
  intro emitter result emitted htables hsigned hrun
  obtain ⟨slot, -, rfl⟩ := storeLocal_run hrun
  exact ⟨htables, trivial, .of_lines hsigned rfl rfl (covers_of_none (by simp [Line.declaration?]))⟩

def AssignmentTarget.Fixed : AssignmentTarget → Prop
  | .localSlot _ => True
  | .runtimeSet getter setter deleter _ _ =>
      getter ∈ binarySymbols ∧ setter ∈ ternaryVoidSymbols ∧ deleter ∈ binarySymbols

namespace AssignmentTarget.Fixed

variable {target : AssignmentTarget}

theorem property {object key : Operand} : (propertyTarget object key).Fixed := by
  simp [propertyTarget, Fixed, binarySymbols, ternaryVoidSymbols]

theorem index {object key : Operand} : (indexTarget object key).Fixed := by
  simp [indexTarget, Fixed, binarySymbols, ternaryVoidSymbols]

theorem load_makes (htarget : target.Fixed) : Makes tables target.load [] := by
  cases target with
  | localSlot name => exact loadLocal_makes
  | runtimeSet getter setter deleter object key => exact emitBinary_makes htarget.1

theorem store_makes {value : Operand} (htarget : target.Fixed) :
    Makes tables (target.store value) [] := by
  cases target with
  | localSlot name => exact storeLocal_makes
  | runtimeSet getter setter deleter object key =>
      exact emitRuntimeVoidCall_makes (hasSignature_ternaryVoid htarget.2.1)

theorem delete_makes (htarget : target.Fixed) : Makes tables target.delete [] := by
  cases target with
  | localSlot name => exact .fail
  | runtimeSet getter setter deleter object key => exact emitBinary_makes htarget.2.2

end AssignmentTarget.Fixed

abbrev Resolves (tables : StdlibTables) (action : ExprM AssignmentTarget)
    (calls : List DirectCall) : Prop :=
  Signs tables tables action AssignmentTarget.Fixed calls

theorem resolveLocal_resolves : Resolves tables (resolveLocal name) [] := by
  intro emitter target emitted htables hsigned hrun
  obtain ⟨rfl, rfl⟩ := resolveLocal_run hrun
  exact ⟨htables, trivial, .of_eq hsigned rfl rfl⟩

theorem resolveMember_resolves {property : String} (htarget : Makes tables emitTarget calls) :
    Resolves tables (resolveMember isPrivate optional emitTarget property) calls := by
  refine .unless_fail fun _ => .unless_fail fun _ => htarget.fixed fun object _ => ?_
  exact emitRuntimeString_makes.fixed fun key _ => .done .property

theorem resolveIndex_resolves {emitIndex : ExprM Operand} (htarget : Makes tables emitTarget calls)
    (hindex : Makes tables emitIndex more) :
    Resolves tables (resolveIndex optional emitTarget emitIndex) (calls ++ more) := by
  refine .unless_fail fun _ => htarget.step fun object _ => ?_
  exact hindex.fixed fun key _ => .done .index

theorem captureExpression_gains {emitter emitted : ExpressionEmitter}
    {captured : CapturedExpression} (hemit : Makes tables emit calls)
    (htables : emitter.stdlibTables = tables) (hsigned : Signed emitter.declarations)
    (hrun : captureExpression emit emitter = .ok (captured, emitted)) :
    emitted.stdlibTables = tables ∧ Gains calls emitter emitted ∧
      Covers captured.lines emitted.declarations := by
  unfold captureExpression at hrun
  split at hrun
  · cases hrun
  · rename_i value middle hmiddle
    obtain ⟨hmiddleTables, -, hgains⟩ := hemit _ _ _ htables hsigned hmiddle
    obtain ⟨lines, hbody, hcovers⟩ := hgains.lines
    obtain ⟨rfl, rfl⟩ := by simpa using hrun
    have hbody : middle.body = emitter.body ++ lines := hbody
    have hsame : middle.body.take emitter.body.length = emitter.body ++ [] := by simp [hbody]
    have hdrop : middle.body.drop emitter.body.length = lines := by simp [hbody]
    refine ⟨hmiddleTables, ⟨hgains.adds, [], hsame, covers_nil⟩, ?_⟩
    exact hdrop ▸ hcovers

theorem emitCapturedBranchValue_gains {trueBranch falseBranch : CapturedExpression}
    {emitter emitted : ExpressionEmitter} (hsigned : Signed emitter.declarations)
    (htrue : Covers trueBranch.lines emitter.declarations)
    (hfalse : Covers falseBranch.lines emitter.declarations)
    (hrun : emitCapturedBranchValue stem condition trueBranch falseBranch emitter =
      .ok (value, emitted)) :
    emitted.stdlibTables = emitter.stdlibTables ∧ Gains [] emitter emitted := by
  simp only [emitCapturedBranchValue, nextBlockLabel, nextValueName, appendLines, bind_eq_ok,
    Except.ok.injEq, Prod.mk.injEq, pure_eq_ok] at hrun
  obtain ⟨trueLabel, _, ⟨-, rfl⟩, falseLabel, _, ⟨-, rfl⟩, endLabel, _, ⟨-, rfl⟩, result, _,
    ⟨rfl, rfl⟩, _, _, ⟨-, rfl⟩, _, _, ⟨-, rfl⟩, _, _, ⟨-, rfl⟩, _, _, ⟨-, rfl⟩, _, _, ⟨-, rfl⟩, rfl,
    rfl⟩ := hrun
  let phi : Line :=
    .phi emitter.valueIndex [(trueBranch.value, trueLabel), (falseBranch.value, falseLabel)]
  have hcovers : Covers ([.brIf condition trueLabel falseLabel, .label trueLabel] ++
      trueBranch.lines ++ [.br endLabel, .label falseLabel] ++ falseBranch.lines ++
        [.br endLabel, .label endLabel, phi]) emitter.declarations := by
    simp only [covers_append]
    refine ⟨⟨⟨⟨?_, htrue⟩, ?_⟩, hfalse⟩, ?_⟩ <;>
      exact covers_of_none (by simp [Line.declaration?, phi])
  refine ⟨rfl, Gains.of_lines hsigned rfl ?_ hcovers⟩
  simp [phi]

theorem emitTruthiness_makes : Makes tables (emitTruthiness value) [] := by
  have hentry : ("jayess_value_truthy", "i1", values 1) ∈ specialSignatures := by
    simp [specialSignatures]
  exact emitRuntimeCall_makes (hasSignature_special hentry)

theorem emitNullishCheck_makes : Makes tables (emitNullishCheck value) [] := by
  have hentry : ("jayess_value_is_nullish", "i1", values 1) ∈ specialSignatures := by
    simp [specialSignatures]
  exact emitRuntimeCall_makes (hasSignature_special hentry)

theorem branch_makes (swapped : Bool) (hemit : Makes tables emit calls) :
    Makes tables (do
      let branch ← captureExpression emit
      emitCapturedBranchValue stem condition (if swapped then ⟨[], value⟩ else branch)
        (if swapped then branch else ⟨[], value⟩)) calls := by
  intro emitter result emitted htables hsigned hrun
  obtain ⟨branch, middle, hcapture, hvalue⟩ := bind_eq_ok.mp hrun
  obtain ⟨hmiddle, hgains, hcovers⟩ := captureExpression_gains hemit htables hsigned hcapture
  have hbranch : emitted.stdlibTables = middle.stdlibTables ∧ Gains [] middle emitted := by
    cases swapped with
    | true => exact emitCapturedBranchValue_gains hgains.adds.signed covers_nil hcovers hvalue
    | false => exact emitCapturedBranchValue_gains hgains.adds.signed hcovers covers_nil hvalue
  have hall := hgains.trans hbranch.2
  rw [List.append_nil] at hall
  exact ⟨hbranch.1.trans hmiddle, trivial, hall⟩

theorem branches_makes {emitOther : ExprM Operand} (hemit : Makes tables emit calls)
    (hother : Makes tables emitOther more) :
    Makes tables (do
      let trueBranch ← captureExpression emit
      let falseBranch ← captureExpression emitOther
      emitCapturedBranchValue stem condition trueBranch falseBranch) (calls ++ more) := by
  intro emitter result emitted htables hsigned hrun
  obtain ⟨trueBranch, middle, hcapture, hrun⟩ := bind_eq_ok.mp hrun
  obtain ⟨falseBranch, final, hcapture', hvalue⟩ := bind_eq_ok.mp hrun
  obtain ⟨hmiddle, hgains, hcovers⟩ := captureExpression_gains hemit htables hsigned hcapture
  obtain ⟨hfinal, hgains', hcovers'⟩ :=
    captureExpression_gains hother hmiddle hgains.adds.signed hcapture'
  have hbranch := emitCapturedBranchValue_gains hgains'.adds.signed (hcovers.mono hgains'.adds.kept)
    hcovers' hvalue
  have hall := (hgains.trans hgains').trans hbranch.2
  rw [List.append_nil] at hall
  exact ⟨hbranch.1.trans hfinal, trivial, hall⟩

theorem emitConditionalExpression_makes {emitCondition emitConsequent emitAlternative : ExprM Operand}
    {condition consequent alternative : List DirectCall}
    (hcondition : Makes tables emitCondition condition)
    (hconsequent : Makes tables emitConsequent consequent)
    (halternative : Makes tables emitAlternative alternative) :
    Makes tables (emitConditionalExpression emitCondition emitConsequent emitAlternative)
      (condition ++ (consequent ++ alternative)) :=
  hcondition.step fun _ _ => emitTruthiness_makes.step fun _ _ =>
    branches_makes hconsequent halternative

theorem emitLogicalExpression_makes {operator : LogicalOperator} {emitLeft emitRight : ExprM Operand}
    (hleft : Makes tables emitLeft calls) (hright : Makes tables emitRight more) :
    Makes tables (emitLogicalExpression operator emitLeft emitRight) (calls ++ more) := by
  refine hleft.step fun _ _ => emitTruthiness_makes.step fun _ _ => ?_
  cases operator with
  | and => exact branch_makes false hright
  | or => exact branch_makes true hright

theorem emitNullishCoalesceExpression_makes {emitLeft emitRight : ExprM Operand}
    (hleft : Makes tables emitLeft calls) (hright : Makes tables emitRight more) :
    Makes tables (emitNullishCoalesceExpression emitLeft emitRight) (calls ++ more) :=
  hleft.step fun _ _ => emitNullishCheck_makes.step fun _ _ => branch_makes false hright

theorem emitUpdateExpression_makes {operator : UpdateOperator} {isPrefix : Bool}
    {resolve : ExprM AssignmentTarget} (hresolve : Resolves tables resolve calls) :
    Makes tables (emitUpdateExpression operator isPrefix resolve) calls := by
  refine hresolve.fixed fun target htarget => htarget.load_makes.fixed fun previous _ => ?_
  have hupdate : updateSymbol operator ∈ unarySymbols := by
    cases operator <;> simp [updateSymbol, unarySymbols]
  refine (emitUnary_makes hupdate).fixed fun next _ => ?_
  exact htarget.store_makes.fixed fun _ _ => .done trivial

theorem emitBinaryOperands_makes {emitLeft emitRight : ExprM Operand}
    (hsymbol : symbol ∈ binarySymbols) (hleft : Makes tables emitLeft calls)
    (hright : Makes tables emitRight more) :
    Makes tables (emitBinaryOperands symbol emitLeft emitRight) (calls ++ more) :=
  hleft.step fun _ _ => hright.fixed fun _ _ => emitBinary_makes hsymbol

theorem literal_makes {result : Except EmitError RuntimeLiteral} :
    Makes tables (do
      let literal ← ofExcept result
      emitRuntimeLiteral literal) [] :=
  ofExcept_makes.fixed fun literal _ => emitRuntimeLiteral_makes literal

theorem emitBigIntBitNotExpression_makes :
    Makes tables (emitBigIntBitNotExpression operand) [] := by
  unfold emitBigIntBitNotExpression
  split
  · split
    · exact emitRuntimeLiteral_makes _
    · exact ofExcept_makes
  · exact .fail

theorem emitNumericUnaryExpression_makes {operator : UnaryOperator} :
    Makes tables (emitNumericUnaryExpression operator operand) [] := by
  unfold emitNumericUnaryExpression
  split
  · split
    · exact emitRuntimeLiteral_makes _
    · exact .fail
  · exact .fail

theorem emitNegateExpression_makes :
    Makes tables (emitNegateExpression operand) [] := by
  unfold emitNegateExpression
  split
  · split
    · exact emitRuntimeLiteral_makes _
    · exact ofExcept_makes
  · exact emitNumericUnaryExpression_makes

theorem emitBooleanNotExpression_makes :
    Makes tables (emitBooleanNotExpression operand) [] := by
  unfold emitBooleanNotExpression
  split
  · exact emitRuntimeLiteral_makes _
  · exact .fail

theorem emitDeleteExpression_makes {resolve : ExprM AssignmentTarget} {emitValue : ExprM Operand}
    (hresolve : Resolves tables resolve calls) (hvalue : Makes tables emitValue calls) :
    Makes tables (emitDeleteExpression resolve emitValue) calls := by
  intro emitter value emitted htables hsigned hrun
  unfold emitDeleteExpression at hrun
  split at hrun
  · rename_i target resolved hresolved
    have hdelete := hresolve.fixed fun target htarget =>
      (htarget.delete_makes : Makes tables target.delete [])
    exact hdelete _ _ _ htables hsigned (bind_eq_ok.mpr ⟨_, _, hresolved, hrun⟩)
  · have hdeleted : Makes tables (do
        let value ← emitValue
        emitRuntimeUnaryValue "jayess_value_delete_value" value : ExprM Operand) calls :=
      hvalue.fixed fun _ _ => emitUnary_makes (by simp [unarySymbols])
    exact hdeleted _ _ _ htables hsigned hrun

theorem emitMemberExpression_makes {target : Expression} {property : String}
    (htarget : Makes tables (emitExpression target) (target.directCalls tables)) :
    Makes tables (emitMemberExpression target property isPrivate optional (emitExpression target))
      (target.directCalls tables) := by
  refine .get fun emitter htables => ?_
  cases hsymbol : stdlibPropertySymbol emitter target property isPrivate optional with
  | some symbol =>
      obtain ⟨-, -, pos, name, rfl⟩ := stdlibPropertySymbol_identifier hsymbol
      exact emitRuntimeCall_makes (stdlibPropertySymbol_hasSignature hsymbol)
  | none =>
      exact (resolveMember_resolves htarget).fixed fun _ hresolved => hresolved.load_makes

theorem emitIndexExpression_makes {emitIndex : ExprM Operand}
    (htarget : Makes tables emitTarget calls) (hindex : Makes tables emitIndex more) :
    Makes tables (emitIndexExpression optional emitTarget emitIndex) (calls ++ more) :=
  (resolveIndex_resolves htarget hindex).fixed fun _ hresolved => hresolved.load_makes

theorem emitRuntimeArrayNew_makes : Makes tables emitRuntimeArrayNew [] :=
  emitRuntimeCall_makes (hasSignature_nullary (by simp [nullarySymbols]))

theorem emitRuntimeObjectNew_makes : Makes tables emitRuntimeObjectNew [] :=
  emitRuntimeCall_makes (hasSignature_nullary (by simp [nullarySymbols]))

theorem emitRuntimeFunctionNew_makes : Makes tables emitRuntimeFunctionNew [] :=
  emitRuntimeCall_makes (hasSignature_nullary (by simp [nullarySymbols]))

theorem emitFilled_makes {emitNew : ExprM Operand} {emitAll : Operand → ExprM Unit}
    (hnew : Makes tables emitNew []) (hall : ∀ target, Makes tables (emitAll target) calls) :
    Makes tables (do
      let target ← emitNew
      emitAll target
      return target) calls :=
  hnew.step fun target _ => (hall target).fixed fun _ _ => .done trivial

theorem emitCallArguments_makes {emitAll : Operand → ExprM Unit}
    (hall : ∀ target, Makes tables (emitAll target) calls) :
    Makes tables (emitCallArguments emitAll) calls :=
  emitFilled_makes emitRuntimeArrayNew_makes hall

theorem emitCallFunction_makes {emitCallee emitArguments : ExprM Operand}
    (hcallee : Makes tables emitCallee calls) (harguments : Makes tables emitArguments more) :
    Makes tables (emitCallFunction emitCallee emitArguments) (calls ++ more) :=
  hcallee.step fun _ _ => emitRuntimeUndefined_makes.step fun _ _ =>
    harguments.fixed fun _ _ => emitCallable_makes (by simp [ternarySymbols])

def PassesValues (count : Nat) (args : List RuntimeCallArg) : Prop :=
  args.map (·.irType) = values count

theorem emitRuntimeValueArgsCall_makes (hsymbol : symbol ∈ directSymbols)
    (hargs : Signs tables tables emitArgs (PassesValues count) calls) :
    Makes tables (emitRuntimeValueArgsCall symbol emitArgs) (calls ++ [⟨symbol, count⟩]) :=
  hargs.step fun _ hvalues => emitDirectCall_makes hsymbol hvalues

theorem emitCallExpression_makes {callee : String} {emitArguments : ExprM Operand}
    (hargs : Signs tables tables emitArgs (PassesValues count) calls)
    (harguments : Makes tables emitArguments calls) :
    Makes tables (emitCallExpression callee emitArgs emitArguments)
      (match tables.callSymbol callee with
        | some symbol => calls ++ [⟨symbol, count⟩]
        | none => calls) := by
  refine .get fun emitter htables => ?_
  have hcall : tables.callSymbol callee = stdlibLocalCallSymbol emitter callee := by
    rw [← htables]
    rfl
  rw [hcall]
  cases hsymbol : stdlibLocalCallSymbol emitter callee with
  | some symbol => exact emitRuntimeValueArgsCall_makes (stdlibLocalCallSymbol_mem hsymbol) hargs
  | none => exact emitCallFunction_makes loadLocal_makes harguments

theorem emitCallableHelperInvoke_makes (hsymbol : symbol ∈ ternarySymbols)
    (htarget : Makes tables emitTarget calls) (hthisAndRest : Makes tables emitThisAndRest more) :
    Makes tables (emitCallableHelperInvoke symbol emitTarget emitThisAndRest) (calls ++ more) :=
  htarget.step fun _ _ => hthisAndRest.fixed fun _ _ => emitCallable_makes hsymbol

theorem emitApplyInvoke_makes {emitApplied : Option (ExprM Operand)} {applied : List DirectCall}
    (htarget : Makes tables emitTarget calls) (hthisAndRest : Makes tables emitThisAndRest more)
    (happlied : ∀ emit ∈ emitApplied, Makes tables emit applied) (hsub : applied ⊆ more) :
    Makes tables (emitApplyInvoke emitTarget emitThisAndRest emitApplied) (calls ++ more) := by
  refine htarget.step fun _ _ => ?_
  cases emitApplied with
  | none => exact hthisAndRest.fixed fun _ _ => emitCallable_makes (by simp [ternarySymbols])
  | some emit =>
      refine Signs.congr (hthisAndRest.step fun _ _ => (happlied emit rfl).fixed fun _ _ =>
        emitCallable_makes (by simp [ternarySymbols])) fun call => ?_
      rw [List.mem_append]
      exact ⟨Or.inl, fun hcall => hcall.elim id fun hcall => hsub hcall⟩

theorem emitMethodInvoke_makes {property : String} {emitArguments : ExprM Operand}
    (htarget : Makes tables emitTarget calls) (harguments : Makes tables emitArguments more) :
    Makes tables (emitMethodInvoke emitTarget property emitArguments) (calls ++ more) := by
  refine htarget.step fun object _ => emitRuntimeString_makes.step fun key _ => ?_
  refine (AssignmentTarget.Fixed.property.load_makes).step fun function _ => ?_
  exact harguments.fixed fun args _ => emitCallable_makes (by simp [ternarySymbols])

def memberInvokeCalls (tables : StdlibTables) (target : Expression) (property : String)
    (count : Nat) (targetCalls arguments : List DirectCall) : List DirectCall :=
  match tables.memberSymbol target property with
  | some symbol => arguments ++ [⟨symbol, count⟩]
  | none => targetCalls ++ arguments

theorem emitMemberInvoke_makes {target : Expression} {property : String}
    {emitArguments : ExprM Operand} {emitApplied : Option (ExprM Operand)}
    {targetCalls arguments applied : List DirectCall}
    (htarget : Makes tables emitTarget targetCalls)
    (hargs : Signs tables tables emitArgs (PassesValues count) arguments)
    (harguments : Makes tables emitArguments arguments)
    (hthisAndRest : Makes tables emitThisAndRest arguments)
    (happlied : ∀ emit ∈ emitApplied, Makes tables emit applied) (hsub : applied ⊆ arguments) :
    Makes tables
      (emitMemberInvoke target property isPrivate optional emitTarget emitArgs emitArguments
        emitThisAndRest emitApplied)
      (memberInvokeCalls tables target property count targetCalls arguments) := by
  refine .unless_fail fun hoptional => .unless_fail fun hprivate => ?_
  obtain rfl : optional = false := by simpa using hoptional
  obtain rfl : isPrivate = false := by simpa using hprivate
  unfold memberInvokeCalls StdlibTables.memberSymbol
  cases hstream : processStreamSymbol target property with
  | some symbol => exact emitRuntimeValueArgsCall_makes (processStreamSymbol_mem hstream) hargs
  | none =>
      refine .get fun emitter htables => ?_
      have hmember : stdlibMemberInvokeSymbol tables.emitter target property false false =
          stdlibMemberInvokeSymbol emitter target property false false := by
        rw [← htables]
        rfl
      rw [Option.none_or, hmember]
      cases hsymbol : stdlibMemberInvokeSymbol emitter target property false false with
      | some symbol =>
          exact emitRuntimeValueArgsCall_makes (stdlibMemberInvokeSymbol_mem hsymbol) hargs
      | none =>
          dsimp only
          split
          · exact emitCallableHelperInvoke_makes (by simp [ternarySymbols]) htarget hthisAndRest
          · exact emitCallableHelperInvoke_makes (by simp [ternarySymbols]) htarget hthisAndRest
          · exact emitApplyInvoke_makes htarget hthisAndRest happlied hsub
          · exact emitMethodInvoke_makes htarget harguments

theorem emitClosureEnvironment_makes {environment : Lifetime.ClosureEnvironment} :
    Makes tables (emitClosureEnvironment environment) [] := by
  have hnew : ("jayess_closure_environment_new", "i8*", []) ∈ specialSignatures := by
    simp [specialSignatures]
  have hset : ("jayess_closure_environment_set", "void", "i8*" :: values 2) ∈
      specialSignatures := by simp [specialSignatures]
  refine (emitRuntimeCall_makes (hasSignature_special hnew)).fixed fun closure _ => ?_
  refine Signs.fixed (.forM_fixed fun capture _ => ?_) fun _ _ => .done trivial
  refine loadLocal_makes.fixed fun value _ => emitRuntimeString_makes.fixed fun key _ => ?_
  exact emitRuntimeVoidCall_makes (hasSignature_special hset)

theorem emitFunctionExpression_makes {pos : SourcePos} :
    Makes tables (emitFunctionExpression pos) [] := by
  have hclosure : ("jayess_function_new_with_closure", runtimeValueIRType, ["i8*"]) ∈
      specialSignatures := by simp [specialSignatures]
  refine .get fun emitter _ => ?_
  cases closureEnvironmentFor emitter pos with
  | none => exact emitRuntimeFunctionNew_makes
  | some environment =>
      exact emitClosureEnvironment_makes.fixed fun closure _ =>
        emitRuntimeCall_makes (hasSignature_special hclosure)

theorem emitSuperConstructorCall_makes {emitArguments : ExprM Operand}
    (harguments : Makes tables emitArguments calls) :
    Makes tables (emitSuperConstructorCall emitArguments) calls := by
  have hthis : "jayess_current_this" ∈ nullarySymbols := by simp [nullarySymbols]
  refine (emitRuntimeCall_makes (hasSignature_nullary hthis)).step fun _ _ => ?_
  exact harguments.fixed fun _ _ => emitBinary_makes (by simp [binarySymbols])

theorem emitAppend_makes {target : Operand} {emitRest : ExprM Unit}
    (hsymbol : symbol ∈ binaryVoidSymbols) (hemit : Makes tables emit calls)
    (hrest : Makes tables emitRest more) :
    Makes tables (do
      let value ← emit
      emitRuntimeVoidCall symbol [valueArg target, valueArg value]
      emitRest) (calls ++ more) :=
  hemit.step fun _ _ =>
    (emitRuntimeVoidCall_makes (hasSignature_binaryVoid hsymbol)).step fun _ _ => hrest

theorem emitProperty_makes {emitKey emitValue : ExprM Operand} {object : Operand}
    {emitRest : ExprM Unit} {key : List DirectCall} (hkey : Makes tables emitKey key)
    (hvalue : Makes tables emitValue calls) (hrest : Makes tables emitRest more) :
    Makes tables (do
      let keyValue ← emitKey
      let propertyValue ← emitValue
      emitRuntimePropertyStore object keyValue propertyValue
      emitRest) (key ++ (calls ++ more)) := by
  have hset : "jayess_value_set_property" ∈ ternaryVoidSymbols := by simp [ternaryVoidSymbols]
  exact hkey.step fun _ _ => hvalue.step fun _ _ =>
    (emitRuntimeVoidCall_makes (hasSignature_ternaryVoid hset)).step fun _ _ => hrest

def MemberTargetMakes (tables : StdlibTables) : Expression → Prop
  | .member _ target _ _ _ => Makes tables (emitExpression target) (target.directCalls tables)
  | _ => True

def appliedDirectCalls (tables : StdlibTables) : List Expression → List DirectCall
  | _ :: applied :: _ => applied.directCalls tables
  | _ => []

theorem appliedDirectCalls_subset (arguments : List Expression) :
    appliedDirectCalls tables arguments ⊆ argumentsDirectCalls tables arguments := by
  rcases arguments with _ | ⟨first, _ | ⟨applied, rest⟩⟩
  · exact List.nil_subset _
  · exact List.nil_subset _
  · intro call hcall
    exact List.mem_append_right _ (List.mem_append_left _ hcall)

theorem emitInvokeExpression_makes {pos : SourcePos} {callee : Expression}
    {arguments : List Expression}
    (hcallee : Makes tables (emitExpression callee) (callee.directCalls tables))
    (hmember : MemberTargetMakes tables callee)
    (hvalues : Signs tables tables (runtimeValueArgs arguments) (PassesValues arguments.length)
      (argumentsDirectCalls tables arguments)) (harguments : ∀ array,
      Makes tables (emitArguments arguments array) (argumentsDirectCalls tables arguments))
    (hthisAndRest : Makes tables (emitThisAndRestArguments arguments)
      (argumentsDirectCalls tables arguments)) (happlied : ∀ emit ∈ emitAppliedArgument arguments,
      Makes tables emit (appliedDirectCalls tables arguments)) :
    Makes tables (emitExpression (.invoke pos callee arguments optional))
      ((Expression.invoke pos callee arguments optional).directCalls tables) := by
  have hall := emitCallArguments_makes harguments
  cases optional with
  | true => cases callee <;> exact .withDiagnostic .fail
  | false =>
      cases callee with
      | superExpression pos => exact .withDiagnostic (emitSuperConstructorCall_makes hall)
      | member pos target property isPrivate optional =>
          exact .withDiagnostic (emitMemberInvoke_makes hmember hvalues hall hthisAndRest happlied
            (appliedDirectCalls_subset arguments))
      | _ => exact .withDiagnostic (emitCallFunction_makes hcallee hall)

section Walk

variable (tables)

mutual

theorem emitExpression_makes : ∀ expression : Expression,
    Makes tables (emitExpression expression) (expression.directCalls tables)
  | .comma _ left right => .withDiagnostic <|
      (emitExpression_makes left).step fun _ _ => emitExpression_makes right
  | .unary _ operator right => .withDiagnostic <| by
      cases operator with
      | void => exact (emitExpression_makes right).fixed fun _ _ => emitRuntimeUndefined_makes
      | delete =>
          exact emitDeleteExpression_makes (resolveAssignmentTarget_resolves right)
            (emitExpression_makes right)
      | bitNot => exact emitBigIntBitNotExpression_makes
      | negate => exact emitNegateExpression_makes
      | positive => exact emitNumericUnaryExpression_makes
      | not => exact emitBooleanNotExpression_makes
  | .update _ _ target _ => .withDiagnostic <|
      emitUpdateExpression_makes (resolveAssignmentTarget_resolves target)
  | .typeof _ value => .withDiagnostic <|
      (emitExpression_makes value).fixed fun _ _ => emitUnary_makes (by simp [unarySymbols])
  | .conditional _ condition consequent alternative => .withDiagnostic <|
      emitConditionalExpression_makes (emitExpression_makes condition)
        (emitExpression_makes consequent) (emitExpression_makes alternative)
  | .nullishCoalesce _ left right => .withDiagnostic <|
      emitNullishCoalesceExpression_makes (emitExpression_makes left) (emitExpression_makes right)
  | .logical _ _ left right => .withDiagnostic <|
      emitLogicalExpression_makes (emitExpression_makes left) (emitExpression_makes right)
  | .binary .. => .withDiagnostic literal_makes
  | .comparison _ operator left right => .withDiagnostic <| by
      cases operator with
      | «in» =>
          exact emitBinaryOperands_makes (by simp [binarySymbols]) (emitExpression_makes left)
            (emitExpression_makes right)
      | _ => exact ofExcept_makes.fixed fun _ _ => emitRuntimeLiteral_makes _
  | .instanceof _ left right => .withDiagnostic <|
      emitBinaryOperands_makes (by simp [binarySymbols]) (emitExpression_makes left)
        (emitExpression_makes right)
  | .objectLiteral _ properties => .withDiagnostic <|
      emitFilled_makes emitRuntimeObjectNew_makes (emitObjectProperties_makes properties)
  | .arrayLiteral _ elements => .withDiagnostic <|
      emitFilled_makes emitRuntimeArrayNew_makes (emitArrayElements_makes elements)
  | .member _ target _ _ _ => .withDiagnostic <|
      emitMemberExpression_makes (emitExpression_makes target)
  | .index _ target index _ => .withDiagnostic <|
      emitIndexExpression_makes (emitExpression_makes target) (emitExpression_makes index)
  | .call _ _ arguments => .withDiagnostic <|
      emitCallExpression_makes (runtimeValueArgs_passes arguments)
        (emitCallArguments_makes (emitArguments_makes arguments))
  | .invoke _ callee arguments _ =>
      emitInvokeExpression_makes (emitExpression_makes callee) (memberTarget_makes callee)
        (runtimeValueArgs_passes arguments) (emitArguments_makes arguments)
        (emitThisAndRestArguments_makes arguments) (emitAppliedArgument_makes arguments)
  | .newExpression _ callee arguments => .withDiagnostic <|
      emitBinaryOperands_makes (by simp [binarySymbols]) (emitExpression_makes callee)
        (emitCallArguments_makes (emitArguments_makes arguments))
  | .thisExpression _ | .superExpression _ | .newTarget _ => .withDiagnostic <|
      emitRuntimeCall_makes (hasSignature_nullary (by simp [nullarySymbols]))
  | .functionExpression .. => .withDiagnostic emitFunctionExpression_makes
  | .identifier .. => .withDiagnostic loadLocal_makes
  | .numberLiteral .. | .bigIntLiteral .. | .stringLiteral .. | .templateLiteral ..
  | .booleanLiteral .. | .nullLiteral .. | .undefinedLiteral .. | .importMeta ..
  | .await .. | .yield .. => .withDiagnostic literal_makes
  | .spread _ value => .withDiagnostic <| by
      intro emitter result emitted _ _ hrun
      simp [emitASTRuntimeLiteral, runtimeLiteralFromAST, ofExcept, bind_eq_ok] at hrun

theorem memberTarget_makes : ∀ callee : Expression, MemberTargetMakes tables callee
  | .member _ target _ _ _ => emitExpression_makes target
  | .identifier .. | .thisExpression .. | .superExpression .. | .numberLiteral ..
  | .bigIntLiteral .. | .stringLiteral .. | .templateLiteral .. | .booleanLiteral ..
  | .nullLiteral .. | .undefinedLiteral .. | .importMeta .. | .newExpression ..
  | .newTarget .. | .binary .. | .comparison .. | .logical .. | .nullishCoalesce ..
  | .conditional .. | .comma .. | .unary .. | .update .. | .typeof .. | .await ..
  | .yield .. | .instanceof .. | .call .. | .invoke .. | .index ..
  | .objectLiteral .. | .arrayLiteral .. | .spread .. | .functionExpression .. => trivial

theorem resolveAssignmentTarget_resolves : ∀ target : Expression,
    Resolves tables (resolveAssignmentTarget target) (target.directCalls tables)
  | .identifier .. => resolveLocal_resolves
  | .member _ target _ _ _ => resolveMember_resolves (emitExpression_makes target)
  | .index _ target index _ =>
      resolveIndex_resolves (emitExpression_makes target) (emitExpression_makes index)
  | .thisExpression .. | .superExpression .. | .numberLiteral ..
  | .bigIntLiteral .. | .stringLiteral .. | .templateLiteral .. | .booleanLiteral ..
  | .nullLiteral .. | .undefinedLiteral .. | .importMeta .. | .newExpression ..
  | .newTarget .. | .binary .. | .comparison .. | .logical .. | .nullishCoalesce ..
  | .conditional .. | .comma .. | .unary .. | .update .. | .typeof .. | .await ..
  | .yield .. | .instanceof .. | .call .. | .invoke ..
  | .objectLiteral .. | .arrayLiteral .. | .spread .. | .functionExpression .. => .fail

theorem emitArguments_makes : ∀ (arguments : List Expression) (array : Operand),
    Makes tables (emitArguments arguments array) (argumentsDirectCalls tables arguments)
  | [], _ => .done trivial
  | argument :: rest, array => by
      have hrest := emitArguments_makes rest array
      cases argument with
      | spread pos value =>
          exact emitAppend_makes (by simp [binaryVoidSymbols]) (emitExpression_makes value) hrest
      | _ => exact emitAppend_makes (by simp [binaryVoidSymbols]) (emitExpression_makes _) hrest

theorem emitThisAndRestArguments_makes : ∀ arguments : List Expression,
    Makes tables (emitThisAndRestArguments arguments) (argumentsDirectCalls tables arguments)
  | [] => emitRuntimeUndefined_makes.fixed fun _ _ =>
      emitRuntimeArrayNew_makes.fixed fun _ _ => .done trivial
  | first :: arguments =>
      (emitExpression_makes first).step fun _ _ =>
        (emitCallArguments_makes (emitArguments_makes arguments)).fixed fun _ _ => .done trivial

theorem emitAppliedArgument_makes : ∀ arguments : List Expression,
    ∀ emit ∈ emitAppliedArgument arguments, Makes tables emit (appliedDirectCalls tables arguments)
  | [] | [_] => by simp [emitAppliedArgument]
  | first :: applied :: rest => by
      rintro _ ⟨rfl⟩
      exact emitExpression_makes applied

theorem runtimeValueArgs_passes : ∀ arguments : List Expression,
    Signs tables tables (runtimeValueArgs arguments) (PassesValues arguments.length)
      (argumentsDirectCalls tables arguments)
  | [] => .done rfl
  | argument :: rest =>
      (emitExpression_makes argument).step fun _ _ =>
        (runtimeValueArgs_passes rest).fixed fun _ hargs => .done (congrArg _ hargs)

theorem emitArrayElements_makes : ∀ (elements : List (Option Expression)) (array : Operand),
    Makes tables (emitArrayElements elements array) (elementsDirectCalls tables elements)
  | [], _ => .done trivial
  | none :: rest, array =>
      (emitRuntimeVoidCall_makes (hasSignature_unaryVoid (by simp [unaryVoidSymbols]))).step
        fun _ _ => emitArrayElements_makes rest array
  | some element :: rest, array => by
      have hrest := emitArrayElements_makes rest array
      cases element with
      | spread pos value =>
          exact emitAppend_makes (by simp [binaryVoidSymbols]) (emitExpression_makes value) hrest
      | _ => exact emitAppend_makes (by simp [binaryVoidSymbols]) (emitExpression_makes _) hrest

theorem emitObjectProperties_makes : ∀ (properties : List ObjectProperty) (object : Operand),
    Makes tables (emitObjectProperties properties object)
      (propertiesDirectCalls tables properties)
  | [], _ => .done trivial
  | ⟨key, keyExpr, value, computed, spread⟩ :: rest, object => by
      have hvalue := emitExpression_makes value
      have hrest := emitObjectProperties_makes rest object
      cases spread with
      | true =>
          cases keyExpr <;> cases computed <;>
            exact emitAppend_makes (by simp [binaryVoidSymbols]) hvalue hrest
      | false =>
          cases keyExpr with
          | none =>
              cases computed with
              | true => exact emitProperty_makes (show Makes tables _ [] from .fail) hvalue hrest
              | false => exact emitProperty_makes emitRuntimeString_makes hvalue hrest
          | some keyExpr =>
              cases computed with
              | true => exact emitProperty_makes (emitExpression_makes keyExpr) hvalue hrest
              | false => exact emitProperty_makes emitRuntimeString_makes hvalue hrest

end

end Walk

end Jayess.Backend
