import Jayess.Backend.Program
import Jayess.Resolver.InitializationOrder
import Jayess.Resolver.Mutations

/-!
# The initializers of a module graph
-/

namespace Jayess.Backend

open Relation Jayess.Resolver

/-- `PlanModuleInitialization`: a nil graph has nothing to plan, and an import cycle is reported. -/
def planModuleInitialization (fuel : Nat) (graph : Option ModuleGraph) (entries : List String) :
    Option (Except ImportCycleError (List ModuleInitializer)) :=
  match graph with
  | none => some (.ok [])
  | some graph =>
      match graph.initializationOrderFor fuel entries with
      | none => none
      | some (.error error) => some (.error error)
      | some (.ok order) =>
          some (.ok (order.map fun module => ⟨module, moduleInitializationSymbol module⟩))

def callText (symbol : String) : String := "call void @" ++ symbol ++ "()"

def moduleInitializationCalls (initializers : List ModuleInitializer) : List String :=
  initializers.map fun initializer => callText initializer.symbol

/-- The digits that `itoa` puts together, most significant first. -/
def itoaDigits (value : Nat) (digits : List Char) : List Char :=
  if value = 0 then digits
  else itoaDigits (value / 10) (Char.ofNat (48 + value % 10) :: digits)
termination_by value
decreasing_by omega

/-- `itoa`: the smallest integer is its own negation, and no digit of it is written. -/
def itoa (value : Int64) : String :=
  if value = 0 then "0"
  else if value < 0 then String.ofList ('-' :: itoaDigits (-value).toInt.toNat [])
  else String.ofList (itoaDigits value.toInt.toNat [])

structure JayessProgram (Target : Type) where
  name : String
  target : Target
  entryName : String
  returnCode : Int64
  initializers : List ModuleInitializer

structure TextFunction where
  name : String
  returnType : String
  body : List String
deriving DecidableEq, Repr

structure TextModule (Target : Type) where
  name : String
  target : Target
  function : TextFunction
  declarations : List Declaration

variable {Target : Type}

def lowerJayessProgram (program : JayessProgram Target) : TextModule Target where
  name := program.name
  target := program.target
  function :=
    { name := if program.entryName = "" then "main" else program.entryName
      returnType := "i32"
      body := moduleInitializationCalls program.initializers ++
        ["ret i32 " ++ itoa program.returnCode] }
  declarations := moduleInitializationDeclarations program.initializers

/-- The modules that are to be initialized: those that an entry reaches in a graph with a map. -/
def Initialized (graph : Option ModuleGraph) (entries : List String) (module : String) : Prop :=
  ∃ modules ∈ graph, modules.imports.isSome ∧
    ∃ entry ∈ entries, ReflTransGen modules.Imports entry module

/-- Each initializer is declared and called once, and called after those of its imports. -/
structure InitializesEach (graph : Option ModuleGraph) (initializers : List ModuleInitializer)
    (declarations : List Declaration) (body : List String) : Prop where
  declared : ∀ initializer ∈ initializers,
    declarations.filter (·.name = initializer.symbol) = [⟨initializer.symbol, "void ()"⟩]
  called : ∀ initializer ∈ initializers, body.count (callText initializer.symbol) = 1
  ordered : ∀ importer ∈ initializers, ∀ imported ∈ initializers, ∀ modules ∈ graph,
    modules.Imports importer.module imported.module →
    ∀ before after, body = before ++ callText importer.symbol :: after →
      callText imported.symbol ∈ before

/-- Distinct modules have distinct initializers, and both lowerings initialize each module. -/
structure Separated (Target : Type) (graph : Option ModuleGraph)
    (initializers : List ModuleInitializer) : Prop where
  distinct : ∀ first ∈ initializers, ∀ second ∈ initializers, first.module ≠ second.module →
    first.symbol ≠ second.symbol
  lowered : ∀ program : JayessProgram Target, program.initializers = initializers →
    InitializesEach graph initializers (lowerJayessProgram program).declarations
      (lowerJayessProgram program).function.body
  statements : ∀ program : JayessStatementProgram Target, program.initializers = initializers →
    ∀ module, lowerJayessStatementProgram program = .ok module →
      InitializesEach graph initializers module.declarations (module.entry.body.map (·.render))

def Blank (byte : UInt8) : Prop := isSymbolByte byte = false ∨ byte = 95

def Blurred (first second : UInt8) : Prop := first = second ∨ Blank first ∧ Blank second

/-- The paths differ at most where both have bytes that are shown as underscores, or one of them is
empty and the other is what stands for the empty path. -/
def Alike (first second : String) : Prop :=
  List.Forall₂ Blurred first.toUTF8.data.toList second.toUTF8.data.toList ∨
    first = "" ∧ second = "anonymous" ∨ first = "anonymous" ∧ second = ""

def shown (byte : UInt8) : Char := if isSymbolByte byte then Char.ofNat byte.toNat else '_'

theorem toNat_ofNat_byte (byte : UInt8) : (Char.ofNat byte.toNat).toNat = byte.toNat := by
  have hsmall : byte.toNat < 256 := byte.toNat_lt
  have hvalid : byte.toNat.isValidChar := Or.inl (by omega)
  rw [Char.ofNat, dif_pos hvalid]
  rfl

theorem shown_eq_underscore_iff (byte : UInt8) : shown byte = '_' ↔ Blank byte := by
  unfold shown Blank
  by_cases hsymbol : isSymbolByte byte = true
  · rw [if_pos hsymbol, hsymbol]
    constructor
    · intro heq
      have hnat := congrArg Char.toNat heq
      rw [toNat_ofNat_byte] at hnat
      exact Or.inr (UInt8.toNat.inj hnat)
    · rintro (hfalse | rfl)
      · cases hfalse
      · rfl
  · rw [if_neg hsymbol]
    exact iff_of_true rfl (Or.inl (Bool.eq_false_iff.mpr hsymbol))

theorem shown_eq_iff (first second : UInt8) : shown first = shown second ↔ Blurred first second := by
  constructor
  · intro heq
    by_cases hblank : Blank first
    · refine Or.inr ⟨hblank, (shown_eq_underscore_iff second).mp ?_⟩
      rw [← heq]
      exact (shown_eq_underscore_iff first).mpr hblank
    · have hblank' : ¬Blank second := fun hblank' => hblank ((shown_eq_underscore_iff first).mp
        (heq.trans ((shown_eq_underscore_iff second).mpr hblank')))
      have hsymbol : ∀ byte, ¬Blank byte → shown byte = Char.ofNat byte.toNat := by
        intro byte hbyte
        exact if_pos (by simpa using fun hfalse => hbyte (Or.inl hfalse))
      rw [hsymbol first hblank, hsymbol second hblank'] at heq
      have hnat := congrArg Char.toNat heq
      rw [toNat_ofNat_byte, toNat_ofNat_byte] at hnat
      exact Or.inl (UInt8.toNat.inj hnat)
  · rintro (rfl | ⟨hfirst, hsecond⟩)
    · rfl
    · rw [(shown_eq_underscore_iff first).mpr hfirst, (shown_eq_underscore_iff second).mpr hsecond]

theorem map_shown_eq_iff (first second : List UInt8) :
    first.map shown = second.map shown ↔ List.Forall₂ Blurred first second := by
  induction first generalizing second with
  | nil => cases second <;> simp
  | cons byte first ih =>
      cases second with
      | nil => simp
      | cons other second =>
          rw [List.map_cons, List.map_cons, List.cons.injEq, List.forall₂_cons, ih, shown_eq_iff]

def pathBytes (path : String) : List UInt8 := path.toUTF8.data.toList

theorem pathBytes_injective {first second : String} (heq : pathBytes first = pathBytes second) :
    first = second :=
  String.toByteArray_inj.mp (ByteArray.ext (Array.toList_inj.mp heq))

variable {path : String}

theorem symbolSuffix_of_ne (hpath : path ≠ "") :
    symbolSuffix path = String.ofList ((pathBytes path).map shown) :=
  if_neg hpath

theorem eq_anonymous_of_blurred
    (hblurred : List.Forall₂ Blurred (pathBytes path) (pathBytes "anonymous")) :
    path = "anonymous" := by
  refine pathBytes_injective ?_
  have hbytes : pathBytes "anonymous" = [97, 110, 111, 110, 121, 109, 111, 117, 115] := by decide
  have hclear : ∀ byte ∈ pathBytes "anonymous", ¬Blank byte := by
    rw [hbytes]
    unfold Blank
    decide +kernel
  generalize pathBytes path = bytes at hblurred
  generalize pathBytes "anonymous" = others at hblurred hclear
  induction hblurred with
  | nil => rfl
  | cons hbyte _ ih =>
      rw [List.forall_mem_cons] at hclear
      rw [ih hclear.2, hbyte.resolve_right fun hblank => hclear.1 hblank.2]

theorem symbolSuffix_eq_anonymous_iff (hpath : path ≠ "") :
    symbolSuffix path = "anonymous" ↔ path = "anonymous" := by
  have hself : symbolSuffix "anonymous" = "anonymous" := by decide
  constructor
  · intro heq
    rw [← hself, symbolSuffix_of_ne hpath, symbolSuffix_of_ne (by decide), String.ofList_inj,
      map_shown_eq_iff] at heq
    exact eq_anonymous_of_blurred heq
  · rintro rfl
    exact hself

theorem moduleInitializationSymbol_eq_iff (first second : String) :
    moduleInitializationSymbol first = moduleInitializationSymbol second ↔ Alike first second := by
  have hsuffix : moduleInitializationSymbol first = moduleInitializationSymbol second ↔
      symbolSuffix first = symbolSuffix second := String.append_right_inj _
  have hempty : symbolSuffix "" = "anonymous" := if_pos rfl
  have hbytes : pathBytes "" = [] := by decide
  have hnonempty : ∀ path, path ≠ "" → pathBytes path ≠ [] := by
    intro path hpath heq
    exact hpath (pathBytes_injective (heq.trans hbytes.symm))
  rw [hsuffix, Alike]
  change _ ↔ List.Forall₂ Blurred (pathBytes first) (pathBytes second) ∨ _
  by_cases hfirst : first = "" <;> by_cases hsecond : second = ""
  · subst hfirst hsecond
    simp [hbytes]
  · subst hfirst
    rw [hempty, eq_comm, symbolSuffix_eq_anonymous_iff hsecond, hbytes,
      List.forall₂_nil_left_iff]
    simp [hsecond, hnonempty second hsecond]
  · subst hsecond
    rw [hempty, symbolSuffix_eq_anonymous_iff hfirst, hbytes, List.forall₂_nil_right_iff]
    simp [hfirst, hnonempty first hfirst]
  · rw [symbolSuffix_of_ne hfirst, symbolSuffix_of_ne hsecond, String.ofList_inj, map_shown_eq_iff]
    simp [hfirst, hsecond]

theorem callText_inj {first second : String} : callText first = callText second ↔ first = second := by
  rw [callText, callText, String.append_left_inj, String.append_right_inj]

theorem ne_callText {line : String} (hline : line.toList.head? ≠ some 'c') (symbol : String) :
    line ≠ callText symbol := by
  rintro rfl
  refine hline ?_
  rw [callText, String.append_assoc, String.toList_append]
  rfl

theorem head_append_ne {first : Char} {initial : List Char}
    (hne : some first ≠ some 'c') (rest : String) :
    (String.ofList (first :: initial) ++ rest).toList.head? ≠ some 'c' := by
  rw [String.toList_append, String.toList_ofList]
  exact hne

theorem EntryLine.render_head_ne (line : EntryLine)
    (hline : ∀ symbol, line ≠ .callInitializer symbol) : line.render.toList.head? ≠ some 'c' := by
  cases line with
  | callInitializer symbol => exact absurd rfl (hline symbol)
  | callUser symbol =>
      change ("%jayess.result = call " ++ runtimeValueIRType ++ " @" ++ symbol ++ "()").toList.head?
        ≠ _
      rw [String.append_assoc, String.append_assoc, String.append_assoc]
      exact head_append_ne (ne_of_beq_false rfl) _
  | callExitCode =>
      change ("%jayess.exit_code = call i32 @" ++ runtimeExitCodeSymbol ++ "(" ++
        runtimeValueIRType ++ " %jayess.result)").toList.head? ≠ _
      rw [String.append_assoc, String.append_assoc, String.append_assoc]
      exact head_append_ne (ne_of_beq_false rfl) _
  | ret =>
      change "ret i32 %jayess.exit_code".toList.head? ≠ _
      decide

def plannedFor (order : List String) : List ModuleInitializer :=
  order.map fun module => ⟨module, moduleInitializationSymbol module⟩

section Lowered

variable {graph : Option ModuleGraph} {order : List String}

/-- Where no two modules of an order are alike, their initializers come first in the declarations
and in the body, each once and in the order. -/
theorem initializesEach_plannedFor (hnodup : order.Nodup)
    (hordered : ∀ modules ∈ graph, modules.Ordered order)
    (hapart : ∀ first ∈ order, ∀ second ∈ order, Alike first second → first = second)
    {declarations : List Declaration} {lines : List String}
    (hdeclarations : ∀ declaration ∈ declarations, ∀ module,
      declaration.name ≠ moduleInitializationSymbol module)
    (hlines : ∀ line ∈ lines, line.toList.head? ≠ some 'c') :
    InitializesEach graph (plannedFor order)
      (moduleInitializationDeclarations (plannedFor order) ++ declarations)
      (moduleInitializationCalls (plannedFor order) ++ lines) := by
  have hinj : ∀ first ∈ order, ∀ second ∈ order,
      moduleInitializationSymbol first = moduleInitializationSymbol second → first = second :=
    fun first hfirst second hsecond heq =>
      hapart first hfirst second hsecond ((moduleInitializationSymbol_eq_iff _ _).mp heq)
  have hcalls : moduleInitializationCalls (plannedFor order) =
      order.map fun module => callText (moduleInitializationSymbol module) := by
    rw [moduleInitializationCalls, plannedFor, List.map_map]
    rfl
  have hnotin : ∀ symbol, callText symbol ∉ lines :=
    fun symbol hmem => ne_callText (hlines _ hmem) symbol rfl
  have hcallsNodup : (moduleInitializationCalls (plannedFor order)).Nodup := by
    rw [hcalls]
    refine hnodup.map_on fun first hfirst second hsecond heq => ?_
    exact hinj first hfirst second hsecond (callText_inj.mp heq)
  refine ⟨?_, ?_, ?_⟩
  · intro initializer hinitializer
    obtain ⟨module, hmodule, rfl⟩ := List.mem_map.mp hinitializer
    have hown : order.filter (fun other =>
        moduleInitializationSymbol other = moduleInitializationSymbol module) = [module] := by
      have hcongr : ∀ other ∈ order, decide (moduleInitializationSymbol other =
          moduleInitializationSymbol module) = decide (other = module) := by
        intro other hother
        exact decide_eq_decide.mpr ⟨hinj other hother module hmodule, congrArg _⟩
      rw [List.filter_congr hcongr, List.filter_eq, List.count_eq_one_of_mem hnodup hmodule]
      rfl
    have hothers : declarations.filter (·.name = moduleInitializationSymbol module) = [] := by
      rw [List.filter_eq_nil_iff]
      intro declaration hdeclaration hname
      exact hdeclarations declaration hdeclaration module (of_decide_eq_true hname)
    rw [List.filter_append, hothers, List.append_nil, moduleInitializationDeclarations, plannedFor,
      List.map_map, List.filter_map]
    exact congrArg _ hown
  · intro initializer hinitializer
    have hmem : callText initializer.symbol ∈ moduleInitializationCalls (plannedFor order) :=
      List.mem_map_of_mem hinitializer
    rw [List.count_append, List.count_eq_one_of_mem hcallsNodup hmem,
      List.count_eq_zero_of_not_mem (hnotin _)]
  · intro importer himporter imported himported modules hmodules himports before after heq
    obtain ⟨module, hmodule, rfl⟩ := List.mem_map.mp himporter
    obtain ⟨other, hother, rfl⟩ := List.mem_map.mp himported
    obtain ⟨first, last, rfl⟩ := List.append_of_mem hmodule
    have himportedFirst : other ∈ first := hordered modules hmodules first module last rfl other himports
    rw [hcalls, List.map_append, List.map_cons, List.append_assoc, List.cons_append] at heq
    rw [hcalls, List.map_append, List.map_cons] at hcallsNodup
    -- the call of the importer stands once in the body, so the body splits there in one way only
    have honce := (List.nodup_middle.mp hcallsNodup).notMem
    rw [List.mem_append, not_or] at honce
    have hafter : callText (moduleInitializationSymbol module) ∉
        last.map (fun module => callText (moduleInitializationSymbol module)) ++ lines := by
      rw [List.mem_append, not_or]
      exact ⟨honce.2, hnotin _⟩
    have hsame := ((List.append_cons_inj_of_notMem honce.1 hafter).mp heq).1
    rw [← hsame]
    exact List.mem_map_of_mem himportedFirst

theorem Separated.of_apart (hnodup : order.Nodup)
    (hordered : ∀ modules ∈ graph, modules.Ordered order)
    (hapart : ∀ first ∈ order, ∀ second ∈ order, Alike first second → first = second) :
    Separated Target graph (plannedFor order) := by
  refine ⟨?_, ?_, ?_⟩
  · intro first hfirst second hsecond hne heq
    obtain ⟨module, hmodule, rfl⟩ := List.mem_map.mp hfirst
    obtain ⟨other, hother, rfl⟩ := List.mem_map.mp hsecond
    exact hne (hapart module hmodule other hother ((moduleInitializationSymbol_eq_iff _ _).mp heq))
  · intro program hprogram
    have hret : ∀ line ∈ ["ret i32 " ++ itoa program.returnCode],
        line.toList.head? ≠ some 'c' := by
      intro line hline
      rw [List.mem_singleton.mp hline]
      exact head_append_ne (ne_of_beq_false rfl) _
    have heach := @initializesEach_plannedFor graph order hnodup hordered hapart []
      ["ret i32 " ++ itoa program.returnCode] (by simp) hret
    rw [List.append_nil, ← hprogram] at heach
    rw [← hprogram]
    exact heach
  · intro program hprogram module hrun
    obtain ⟨declarations, hadds, -, -, hentry, hdeclarations⟩ :=
      lowerJayessStatementProgram_parts hrun
    have hother : ∀ declaration ∈ declarations ++ [exitCodeDeclaration], ∀ module,
        declaration.name ≠ moduleInitializationSymbol module := by
      intro declaration hdeclaration module
      rcases List.mem_append.mp hdeclaration with hdeclaration | hdeclaration
      · exact (hadds.signed.signed declaration hdeclaration).ne_underscored
          (moduleInitializationSymbol_head module)
      · rw [List.mem_singleton.mp hdeclaration]
        exact exitCode_opens.ne_underscored (moduleInitializationSymbol_head module)
    have hlines : ∀ line ∈ [(EntryLine.callUser program.userEntry).render,
        EntryLine.callExitCode.render, EntryLine.ret.render], line.toList.head? ≠ some 'c' := by
      intro line hline
      simp only [List.mem_cons, List.not_mem_nil, or_false] at hline
      rcases hline with hline | hline | hline
      all_goals
        rw [hline]
        exact EntryLine.render_head_ne _ nofun
    have heach := initializesEach_plannedFor hnodup hordered hapart hother hlines
    have hbody : module.entry.body.map (·.render) =
        moduleInitializationCalls program.initializers ++
          [(EntryLine.callUser program.userEntry).render, EntryLine.callExitCode.render,
            EntryLine.ret.render] := by
      rw [hentry, mainBody, List.map_append, List.map_map]
      rfl
    rw [hbody, hdeclarations, List.append_assoc, hprogram]
    exact heach

end Lowered

/-- On an acyclic graph the plan lists each module that is to be initialized once. The modules have
initializers of their own, and both lowerings declare and call each of these once and after those of
the imports, if and only if no two of the modules have paths that are alike. -/
theorem planModuleInitialization_separated_iff (graph : Option ModuleGraph) (entries : List String)
    (fuel : Nat) (hacyclic : ∀ modules ∈ graph, ∀ module, ¬TransGen modules.Imports module module)
    (hfuel : ∀ modules ∈ graph, (modules.imports.getD []).length < fuel) :
    ∃ initializers, planModuleInitialization fuel graph entries = some (.ok initializers) ∧
      (initializers.map (·.module)).Nodup ∧
      (∀ module, module ∈ initializers.map (·.module) ↔ Initialized graph entries module) ∧
      (Separated Target graph initializers ↔
        ∀ first second, Initialized graph entries first → Initialized graph entries second →
          Alike first second → first = second) := by
  obtain ⟨order, hplan, hnodup, hordered, hlisted⟩ : ∃ order : List String,
      planModuleInitialization fuel graph entries = some (.ok (plannedFor order)) ∧
      order.Nodup ∧ (∀ modules ∈ graph, modules.Ordered order) ∧
      ∀ module, module ∈ order ↔ Initialized graph entries module := by
    cases graph with
    | none =>
        refine ⟨[], rfl, List.nodup_nil, ?_, by simp [Initialized]⟩
        rintro modules ⟨⟩
    | some modules =>
        cases hmap : modules.imports with
        | none =>
            refine ⟨[], ?_, List.nodup_nil, ?_, by simp [Initialized, hmap]⟩
            · simp [planModuleInitialization, ModuleGraph.initializationOrderFor, hmap, plannedFor]
            · exact fun modules _ => ordered_nil
        | some imports =>
            obtain ⟨result, hresult, hok, -, hcycle⟩ := initializationOrderFor_spec modules imports
              entries fuel hmap (by simpa [hmap] using hfuel modules rfl)
            cases result with
            | error error =>
                obtain ⟨entry, -, module, -, himports⟩ := hcycle.mp ⟨error, rfl⟩
                exact absurd himports (hacyclic modules rfl module)
            | ok order =>
                obtain ⟨hnodup, hordered, hreached⟩ := hok order rfl
                refine ⟨order, by simp [planModuleInitialization, hresult, plannedFor], hnodup,
                  ?_, ?_⟩
                · rintro _ ⟨rfl⟩
                  exact hordered
                · intro module
                  simp [hreached, Initialized, hmap]
  have hmodules : (plannedFor order).map (·.module) = order := by
    rw [plannedFor, List.map_map]
    exact List.map_id order
  refine ⟨plannedFor order, hplan, hmodules.symm ▸ hnodup, hmodules.symm ▸ hlisted, ?_, ?_⟩
  · intro hseparated first second hfirst hsecond halike
    by_contra hne
    exact hseparated.distinct ⟨first, moduleInitializationSymbol first⟩
      (List.mem_map_of_mem ((hlisted first).mpr hfirst))
      ⟨second, moduleInitializationSymbol second⟩
      (List.mem_map_of_mem ((hlisted second).mpr hsecond)) hne
      ((moduleInitializationSymbol_eq_iff first second).mpr halike)
  · intro hapart
    exact .of_apart hnodup hordered fun first hfirst second hsecond =>
      hapart first second ((hlisted first).mp hfirst) ((hlisted second).mp hsecond)

theorem oneImporter_acyclic (importer : String) (imported : List String)
    (hown : importer ∉ imported) (module : String) :
    ¬TransGen (newModuleGraph.addModule importer imported).Imports module module := by
  refine ModuleGraph.acyclic_of_lowers (fun module => if module = importer then 1 else 0) ?_ module
  intro other name himports
  rw [ModuleGraph.imports_addModule] at himports
  by_cases hother : other = importer
  · rw [if_pos hother] at himports
    have hname : name ≠ importer := fun heq => hown (heq ▸ himports)
    simp [hother, hname]
  · rw [if_neg hother] at himports
    exact absurd himports List.not_mem_nil

def oneImport : ModuleGraph := newModuleGraph.addModule "main.js" ["dep.js"]

theorem oneImport_separated_iff : ∃ initializers,
    planModuleInitialization 3 (some oneImport) ["main.js"] = some (.ok initializers) ∧
      (initializers.map (·.module)).Nodup ∧
      (∀ module, module ∈ initializers.map (·.module) ↔
        Initialized (some oneImport) ["main.js"] module) ∧
      (Separated Unit (some oneImport) initializers ↔
        ∀ first second, Initialized (some oneImport) ["main.js"] first →
          Initialized (some oneImport) ["main.js"] second → Alike first second →
            first = second) := by
  refine planModuleInitialization_separated_iff (some oneImport) ["main.js"] 3 ?_ ?_
  · rintro _ ⟨rfl⟩
    exact oneImporter_acyclic "main.js" ["dep.js"] (by decide)
  · rintro _ ⟨rfl⟩
    decide

/-- A module that imports two others, whose paths differ in a byte that no symbol holds. -/
def alikeImports : ModuleGraph := newModuleGraph.addModule "main.js" ["a-b.js", "a_b.js"]

/-- The two imports share an initializer. -/
theorem alikeImports_not_separated :
    (∀ module, ¬TransGen alikeImports.Imports module module) ∧
      ∃ initializers,
        planModuleInitialization 4 (some alikeImports) ["main.js"] = some (.ok initializers) ∧
        ¬Separated Unit (some alikeImports) initializers := by
  refine ⟨oneImporter_acyclic "main.js" ["a-b.js", "a_b.js"] (by decide), ?_⟩
  refine ⟨plannedFor ["a-b.js", "a_b.js", "main.js"], by decide +kernel, fun hseparated => ?_⟩
  refine hseparated.distinct ⟨"a-b.js", moduleInitializationSymbol "a-b.js"⟩ ?_
    ⟨"a_b.js", moduleInitializationSymbol "a_b.js"⟩ ?_ (by decide) (by decide)
  · exact List.mem_cons_self
  · exact List.mem_cons_of_mem _ List.mem_cons_self

end Jayess.Backend
