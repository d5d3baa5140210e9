import Jayess.Backend.ProgramCalls

/-!
# The module of a program
-/

namespace Jayess.Backend

structure ModuleInitializer where
  module : String
  symbol : String
deriving DecidableEq, Repr

def isSymbolByte (byte : UInt8) : Bool :=
  (97 ≤ byte && byte ≤ 122) || (65 ≤ byte && byte ≤ 90) || (48 ≤ byte && byte ≤ 57) || byte == 95

def symbolSuffix (value : String) : String :=
  if value = "" then "anonymous"
  else String.ofList (value.toUTF8.data.toList.map fun byte =>
    if isSymbolByte byte then Char.ofNat byte.toNat else '_')

def moduleInitializationSymbol (module : String) : String :=
  "__jayess_init_module_" ++ symbolSuffix module

/-- The plans that `PlanModuleInitialization` makes. -/
def Planned (initializers : List ModuleInitializer) : Prop :=
  ∀ initializer ∈ initializers,
    initializer.symbol = moduleInitializationSymbol initializer.module

def initializerDeclaration (symbol : String) : Declaration := signature symbol "void" []

def moduleInitializationDeclarations (initializers : List ModuleInitializer) : List Declaration :=
  initializers.map fun initializer => initializerDeclaration initializer.symbol

/-! ## Modules -/

def runtimeExitCodeSymbol : String := "jayess_value_to_exit_code"

def exitCodeDeclaration : Declaration := signature runtimeExitCodeSymbol "i32" (values 1)

inductive EntryLine where
  | callInitializer (symbol : String)
  | callUser (symbol : String)
  | callExitCode
  | ret
deriving DecidableEq, Repr

namespace EntryLine

def render : EntryLine → String
  | callInitializer symbol => "call void @" ++ symbol ++ "()"
  | callUser symbol => "%jayess.result = call " ++ runtimeValueIRType ++ " @" ++ symbol ++ "()"
  | callExitCode =>
      "%jayess.exit_code = call i32 @" ++ runtimeExitCodeSymbol ++ "(" ++ runtimeValueIRType ++
        " %jayess.result)"
  | ret => "ret i32 %jayess.exit_code"

def declaration? : EntryLine → Option Declaration
  | callInitializer symbol => some (initializerDeclaration symbol)
  | callUser symbol => some (signature symbol runtimeValueIRType [])
  | callExitCode => some exitCodeDeclaration
  | ret => none

end EntryLine

structure EntryFunction where
  name : String
  body : List EntryLine
deriving DecidableEq, Repr

/-- A module of two functions; what is done with the target is left open. -/
structure Module (Target : Type) where
  name : String
  target : Target
  globals : List Global
  declarations : List Declaration
  entry : EntryFunction
  userMain : Function

structure JayessStatementProgram (Target : Type) where
  name : String
  target : Target
  entryName : String
  userEntryName : String
  statements : List Statement
  initializers : List ModuleInitializer

variable {Target : Type}

namespace JayessStatementProgram

def entry (program : JayessStatementProgram Target) : String :=
  if program.entryName = "" then "main" else program.entryName

def userEntry (program : JayessStatementProgram Target) : String :=
  if program.userEntryName = "" then "__jayess_user_main" else program.userEntryName

end JayessStatementProgram

def mainBody (program : JayessStatementProgram Target) : List EntryLine :=
  program.initializers.map (fun initializer => .callInitializer initializer.symbol) ++
    [.callUser program.userEntry, .callExitCode, .ret]

def lowerJayessStatementProgram (program : JayessStatementProgram Target) :
    Except EmitError (Module Target) := do
  let (userMain, declarations, globals) ←
    lowerRuntimeStatementFunction program.userEntry program.statements
  if program.entry = program.userEntry then
    throw { message := "native entry name must differ from Jayess user entry name" }
  return {
    name := program.name
    target := program.target
    globals
    declarations :=
      moduleInitializationDeclarations program.initializers ++ declarations ++
        [exitCodeDeclaration]
    entry := { name := program.entry, body := mainBody program }
    userMain }

namespace Module

def defined (module : Module Target) : List String := [module.entry.name, module.userMain.name]

/-- The declarations that the calls of both functions need. -/
def calls (module : Module Target) : List Declaration :=
  module.entry.body.filterMap (·.declaration?) ++ module.userMain.body.filterMap (·.declaration?)

/-- Every symbol is declared at most once, and one that is called and not defined is declared, with
the types of the call. -/
structure Linked (module : Module Target) : Prop where
  unique : (module.declarations.map (·.name)).Nodup
  declared : ∀ call ∈ module.calls, call.name ∉ module.defined → call ∈ module.declarations

end Module

/-- The direct calls of one symbol have one number of arguments. -/
def Agree (calls : List DirectCall) : Prop :=
  ∀ first ∈ calls, ∀ second ∈ calls, first.symbol = second.symbol → first.count = second.count

instance (calls : List DirectCall) : Decidable (Agree calls) :=
  inferInstanceAs (Decidable (∀ first ∈ calls, ∀ second ∈ calls,
    first.symbol = second.symbol → first.count = second.count))

variable {emitter emitted : StatementEmitter} {tables : StdlibTables}

theorem appendReturnTarget_makes {target : ReturnTarget} :
    Makes tables (appendReturnTarget target) [] :=
  nextValueName_makes.fixed fun _ _ => appendLines_makes (by simp [Line.declaration?])

theorem appendThrowTarget_makes {label : BlockLabel} {slot : LocalSlot} :
    Makes tables (appendThrowTarget label slot) [] := by
  have hthrow : "jayess_throw_unhandled" ∈ unaryVoidSymbols := by simp [unaryVoidSymbols]
  refine nextValueName_makes.fixed fun result _ => ?_
  refine (appendLines_makes (by simp [Line.declaration?])).fixed fun _ _ => ?_
  refine (emitRuntimeVoidCall_makes (hasSignature_unaryVoid hthrow)).fixed fun _ _ => ?_
  exact appendLines_makes (by simp [Line.declaration?])

theorem appendTargets_makes : Makes tables appendTargets [] := by
  refine .get fun emitter _ => ?_
  have hend : Makes tables (do
      if emitter.returnTarget = none ∧ emitter.throwLabel = none ∧ emitter.returned = false then
        expr (appendLines [.ret .undef]) : StmtM Unit) [] := by
    split
    · exact .expr (appendLines_makes (by simp [Line.declaration?]))
    · exact .done trivial
  dsimp only
  split
  · refine Signs.fixed (.expr appendReturnTarget_makes) fun _ _ => ?_
    split
    · exact Signs.fixed (.expr appendThrowTarget_makes) fun _ _ => hend
    · exact hend
  · split
    · exact Signs.fixed (.expr appendThrowTarget_makes) fun _ _ => hend
    · exact hend

theorem lowerRuntimeStatementFunction_calls {name : String} {statements : List Statement}
    {function : Function} {declarations : List Declaration} {globals : List Global}
    (hrun : lowerRuntimeStatementFunction name statements = .ok (function, declarations, globals)) :
    function.name = name ∧ Adds (directCalls statements) [] declarations ∧
      Covers function.body declarations := by
  unfold lowerRuntimeStatementFunction lowerRuntimeStatementFunctionWithEmitter at hrun
  split at hrun
  · cases hrun
  · split at hrun
    · cases hrun
    · rename_i final hfinal
      obtain ⟨rfl, rfl, rfl⟩ := by simpa using hrun
      obtain ⟨_, emitted, hemit, htargets⟩ := bind_eq_ok.mp hfinal
      obtain ⟨lines, ⟨hemitted⟩⟩ := emitStatements_derives _ _ _ hemit
      have hcalls := hemitted.calls trivial ⟨by simp [newStatementEmitter, newExpressionEmitter],
        List.nodup_nil⟩ covers_nil
      obtain ⟨-, -, hgains⟩ := appendTargets_makes _ _ _ rfl hcalls.meets.adds.signed htargets
      obtain ⟨more, hbody, hcovers⟩ := hgains.lines
      have hadds := hcalls.meets.adds.trans hgains.adds
      rw [List.append_nil] at hadds
      refine ⟨rfl, hadds, ?_⟩
      have hlines : final.body = lines ++ more := by
        rw [StatementEmitter.body, show final.expressions.body = emitted.expressions.body ++ more from
          hbody, hemitted.body]
        rfl
      rw [hlines]
      exact covers_append.mpr ⟨hcalls.covers.mono hgains.adds.kept, hcovers⟩

theorem processProperties_opens : ∀ symbol ∈ processProperties, Opens [('p', 'r')] symbol := by
  simp only [processProperties, List.forall_mem_cons]
  and_intros
  all_goals first | exact ⟨(_, _), by decide, _, rfl⟩ | simp

theorem IsSigned.ne_underscored {declaration : Declaration} {symbol : String}
    (hsigned : IsSigned declaration) (hsymbol : symbol.toList.head? = some '_') :
    declaration.name ≠ symbol := by
  rcases hsigned with hfixed | ⟨call, hdirect, rfl⟩
  · rcases fixedSymbols_opens _ hfixed.name_mem with hprocess | hopens
    · exact (processProperties_opens _ hprocess).ne_underscored hsymbol
    · exact hopens.ne_underscored hsymbol
  · exact (directSymbols_opens _ hdirect).ne_underscored hsymbol

theorem exitCode_not_fixed : runtimeExitCodeSymbol ∉ fixedSymbols := by
  simp [runtimeExitCodeSymbol, fixedSymbols, fixedSignatures, group, nullarySymbols, unarySymbols,
    binarySymbols, ternarySymbols, unaryVoidSymbols, binaryVoidSymbols, ternaryVoidSymbols,
    specialSignatures]

theorem exitCode_opens : Opens [('v', 'a')] runtimeExitCodeSymbol :=
  ⟨(_, _), List.mem_singleton_self _, _, rfl⟩

theorem IsSigned.ne_exitCode {declaration : Declaration} (hsigned : IsSigned declaration) :
    declaration.name ≠ runtimeExitCodeSymbol := by
  rcases hsigned with hfixed | ⟨call, hdirect, rfl⟩
  · exact fun heq => exitCode_not_fixed (heq ▸ hfixed.name_mem)
  · have hdisjoint : ∀ pair ∈ directInitials, pair ∉ [('v', 'a')] := by
      simp [directInitials]
    exact (directSymbols_opens _ hdirect).ne exitCode_opens hdisjoint

theorem underscored_append (rest : List Char) (suffix : String) :
    (String.ofList ('_' :: rest) ++ suffix).toList.head? = some '_' := by
  rw [String.toList_append, String.toList_ofList]
  rfl

theorem moduleInitializationSymbol_head (module : String) :
    (moduleInitializationSymbol module).toList.head? = some '_' :=
  underscored_append _ _

theorem names_moduleInitializationDeclarations (initializers : List ModuleInitializer) :
    (moduleInitializationDeclarations initializers).map (·.name) = initializers.map (·.symbol) := by
  rw [moduleInitializationDeclarations, List.map_map]
  rfl

theorem Adds.names_nodup_iff {calls : List DirectCall} {declarations : List Declaration}
    (hadds : Adds calls [] declarations) :
    (declarations.map (·.name)).Nodup ↔ Agree calls := by
  constructor
  · intro hnodup first hfirst second hsecond hsymbol
    have hsame := List.inj_on_of_nodup_map hnodup (hadds.declared first hfirst).2
      (hadds.declared second hsecond).2 hsymbol
    rw [DirectCall.eq_of_declaration hsame]
  · intro hagree
    refine List.Nodup.map_on ?_ hadds.signed.nodup
    intro first hfirst second hsecond hname
    have hfirst := (hadds.made first hfirst).resolve_left (List.not_mem_nil)
    have hsecond := (hadds.made second hsecond).resolve_left (List.not_mem_nil)
    rcases hfirst with hfixed | ⟨call, hcall, rfl⟩ <;>
      rcases hsecond with hfixed' | ⟨call', hcall', rfl⟩
    · exact hfixed.eq_of_name hfixed' hname
    · have hdirect := (hadds.declared call' hcall').1
      have hname : first.name = call'.symbol := hname
      exact absurd (hname ▸ hfixed.name_mem) (directSymbols_not_fixed hdirect)
    · have hdirect := (hadds.declared call hcall).1
      have hname : call.symbol = second.name := hname
      exact absurd (hname ▸ hfixed'.name_mem) (directSymbols_not_fixed hdirect)
    · have hcount := hagree call hcall call' hcall' hname
      obtain ⟨symbol, count⟩ := call
      obtain ⟨symbol', count'⟩ := call'
      obtain rfl : symbol = symbol' := hname
      obtain rfl : count = count' := hcount
      rfl

section Program

variable {program : JayessStatementProgram Target} {module : Module Target}

theorem lowerJayessStatementProgram_parts
    (hrun : lowerJayessStatementProgram program = .ok module) :
    ∃ declarations, Adds (directCalls program.statements) [] declarations ∧
      Covers module.userMain.body declarations ∧ module.userMain.name = program.userEntry ∧
      module.entry = ⟨program.entry, mainBody program⟩ ∧
      module.declarations = moduleInitializationDeclarations program.initializers ++ declarations ++
        [exitCodeDeclaration] := by
  unfold lowerJayessStatementProgram at hrun
  cases hlower : lowerRuntimeStatementFunction program.userEntry program.statements with
  | error error => simp [hlower, bind, Except.bind] at hrun
  | ok lowered =>
      obtain ⟨userMain, declarations, globals⟩ := lowered
      obtain ⟨hname, hadds, hcovers⟩ := lowerRuntimeStatementFunction_calls hlower
      by_cases hentry : program.entry = program.userEntry
      · simp [hlower, bind, Except.bind, hentry, throw, throwThe, MonadExceptOf.throw] at hrun
      · simp only [hlower, bind, Except.bind, if_neg hentry, pure, Except.pure,
          Except.ok.injEq] at hrun
        subst hrun
        exact ⟨declarations, hadds, hcovers, hname, rfl, rfl⟩

/-- The module of a program is linked if and only if the calls of each standard function agree on
the number of arguments and the modules have initialisers of their own. -/
theorem lowerJayessStatementProgram_linked_iff (program : JayessStatementProgram Target)
    (module : Module Target) (hplanned : Planned program.initializers)
    (hrun : lowerJayessStatementProgram program = .ok module) :
    module.Linked ↔ Agree (directCalls program.statements) ∧
      (program.initializers.map (·.symbol)).Nodup := by
  obtain ⟨declarations, hadds, hcovers, huser, hentry, hdeclarations⟩ :=
    lowerJayessStatementProgram_parts hrun
  have hnames : (module.declarations.map (·.name)).Nodup ↔
      (program.initializers.map (·.symbol)).Nodup ∧ (declarations.map (·.name)).Nodup := by
    rw [hdeclarations, List.map_append, List.map_append, List.map_singleton,
      names_moduleInitializationDeclarations]
    have hsigned : ∀ name ∈ declarations.map (·.name), ∃ declaration,
        IsSigned declaration ∧ declaration.name = name := by
      intro name hname
      obtain ⟨declaration, hdeclaration, rfl⟩ := List.mem_map.mp hname
      exact ⟨declaration, hadds.signed.signed declaration hdeclaration, rfl⟩
    have hunderscored : ∀ name ∈ program.initializers.map (·.symbol),
        name.toList.head? = some '_' := by
      intro name hname
      obtain ⟨initializer, hinitializer, rfl⟩ := List.mem_map.mp hname
      rw [hplanned initializer hinitializer]
      exact moduleInitializationSymbol_head initializer.module
    rw [List.nodup_append, List.nodup_append]
    refine ⟨fun hnodup => ⟨hnodup.1.1, hnodup.1.2.1⟩, fun hnodup =>
      ⟨⟨hnodup.1, hnodup.2, ?_⟩, List.nodup_singleton _, ?_⟩⟩
    · intro name hname other hother
      obtain ⟨declaration, hdeclaration, rfl⟩ := hsigned other hother
      exact (hdeclaration.ne_underscored (hunderscored name hname)).symm
    · intro name hname other hother
      rw [List.mem_singleton.mp hother]
      rcases List.mem_append.mp hname with hname | hname
      · exact (exitCode_opens.ne_underscored (hunderscored name hname)).symm
      · obtain ⟨declaration, hdeclaration, rfl⟩ := hsigned name hname
        exact hdeclaration.ne_exitCode
  have hdeclared : ∀ call ∈ module.calls, call.name ∉ module.defined →
      call ∈ module.declarations := by
    intro call hcall hname
    rw [hdeclarations, List.mem_append, List.mem_append, List.mem_singleton]
    rcases List.mem_append.mp hcall with hcall | hcall
    · rw [hentry] at hcall
      obtain ⟨line, hline, hneeds⟩ := List.mem_filterMap.mp hcall
      rcases List.mem_append.mp hline with hline | hline
      · obtain ⟨initializer, hinitializer, rfl⟩ := List.mem_map.mp hline
        obtain rfl : initializerDeclaration initializer.symbol = call := Option.some.inj hneeds
        exact Or.inl (Or.inl (List.mem_map_of_mem hinitializer))
      · simp only [List.mem_cons, List.not_mem_nil, or_false] at hline
        rcases hline with rfl | rfl | rfl
        · obtain rfl : signature program.userEntry runtimeValueIRType [] = call :=
            Option.some.inj hneeds
          refine absurd ?_ hname
          rw [Module.defined, huser]
          exact List.mem_cons_of_mem _ List.mem_cons_self
        · exact Or.inr (Option.some.inj hneeds).symm
        · cases hneeds
    · obtain ⟨line, hline, hneeds⟩ := List.mem_filterMap.mp hcall
      exact Or.inl (Or.inr (hcovers line hline call hneeds))
  rw [← hadds.names_nodup_iff, and_comm, ← hnames]
  exact ⟨fun hlinked => hlinked.unique, fun hunique => ⟨hunique, hdeclared⟩⟩

end Program

/-- A program with the default names. -/
def statementProgram (statements : List Statement) (initializers : List ModuleInitializer) :
    JayessStatementProgram Unit where
  name := "app"
  target := ()
  entryName := ""
  userEntryName := ""
  statements
  initializers

def setTimeoutCall (arguments : List Expression) : Statement :=
  .expressionStatement ⟨1, 1⟩ (.call ⟨1, 1⟩ "setTimeout" arguments)

/-- `setTimeout(null); setTimeout(undefined);` after the module `url.js`. -/
def timerProgram : JayessStatementProgram Unit :=
  statementProgram
    [setTimeoutCall [.nullLiteral ⟨1, 12⟩], setTimeoutCall [.undefinedLiteral ⟨1, 30⟩]]
    [⟨"url.js", moduleInitializationSymbol "url.js"⟩]

theorem timerProgram_linked_iff : ∃ module,
    lowerJayessStatementProgram timerProgram = .ok module ∧
      (module.Linked ↔ Agree (directCalls timerProgram.statements) ∧
        (timerProgram.initializers.map (·.symbol)).Nodup) := by
  have hplanned : Planned timerProgram.initializers := by
    intro initializer hinitializer
    rw [List.mem_singleton.mp hinitializer]
  have haccepted : (match lowerJayessStatementProgram timerProgram with
      | .ok _ => true
      | .error _ => false) = true := by decide +kernel
  cases hrun : lowerJayessStatementProgram timerProgram with
  | error error => simp [hrun] at haccepted
  | ok module =>
      exact ⟨module, rfl, lowerJayessStatementProgram_linked_iff _ _ hplanned hrun⟩

/-- `setTimeout(null); setTimeout(null, undefined);` -/
def unevenTimers : JayessStatementProgram Unit :=
  statementProgram
    [setTimeoutCall [.nullLiteral ⟨1, 12⟩],
     setTimeoutCall [.nullLiteral ⟨1, 30⟩, .undefinedLiteral ⟨1, 36⟩]] []

/-- Two declarations of `jayess_timer_set_timeout`. -/
theorem unevenTimers_not_linked : ∃ module,
    lowerJayessStatementProgram unevenTimers = .ok module ∧ ¬module.Linked := by
  have hdeclared : (match lowerJayessStatementProgram unevenTimers with
      | .ok module => decide (¬(module.declarations.map (·.name)).Nodup)
      | .error _ => false) = true := by decide +kernel
  cases hrun : lowerJayessStatementProgram unevenTimers with
  | error error => simp [hrun] at hdeclared
  | ok module =>
      rw [hrun, decide_eq_true_eq] at hdeclared
      exact ⟨module, rfl, fun hlinked => hdeclared hlinked.unique⟩

end Jayess.Backend
