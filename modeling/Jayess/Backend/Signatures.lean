import Mathlib.Data.List.Nodup
import Jayess.Backend.Evaluates

/-! # Declared signatures -/

namespace Jayess.Backend

def signature (symbol result : String) (types : List String) : Declaration where
  name := symbol
  irType := result ++ " (" ++ ", ".intercalate types ++ ")"

theorem runtimeCallDeclaration_eq (symbol result : String) (args : List RuntimeCallArg) :
    runtimeCallDeclaration symbol result args = signature symbol result (args.map (·.irType)) :=
  rfl

def values (count : Nat) : List String := List.replicate count runtimeValueIRType

def Line.declaration? : Line → Option Declaration
  | .call _ result symbol args => some (runtimeCallDeclaration symbol result args)
  | .voidCall symbol args => some (runtimeCallDeclaration symbol "void" args)
  | _ => none

structure DirectCall where
  symbol : String
  count : Nat
deriving DecidableEq, Repr

def DirectCall.declaration (call : DirectCall) : Declaration :=
  signature call.symbol runtimeValueIRType (values call.count)

/-! ## Fixed signatures -/

def nullarySymbols : List String :=
  ["jayess_array_new", "jayess_object_new", "jayess_function_new", "jayess_current_this",
   "jayess_new_target", "jayess_value_undefined", "jayess_value_null", "jayess_process_argv",
   "jayess_process_env", "jayess_process_stdin", "jayess_process_stdout", "jayess_process_stderr",
   "jayess_process_pid", "jayess_process_platform"]

def unarySymbols : List String :=
  ["jayess_value_typeof", "jayess_value_delete_value", "jayess_value_update_increment",
   "jayess_value_update_decrement", "jayess_class_new", "jayess_for_in_iterator",
   "jayess_for_of_iterator", "jayess_iterator_next", "jayess_iterator_value",
   "jayess_destructure_object_rest"]

def binarySymbols : List String :=
  ["jayess_value_get_property", "jayess_value_get_index", "jayess_value_delete_property",
   "jayess_value_delete_index", "jayess_value_in", "jayess_value_instanceof",
   "jayess_class_construct", "jayess_class_construct_super", "jayess_class_extends",
   "jayess_destructure_default"]

def ternarySymbols : List String :=
  ["jayess_call_function", "jayess_apply_function", "jayess_bind_function",
   "jayess_destructure_property", "jayess_module_import_binding", "jayess_module_import_default",
   "jayess_module_import_namespace", "jayess_native_binding_wrapper"]

def unaryVoidSymbols : List String :=
  ["jayess_array_elide", "jayess_value_release", "jayess_value_retain", "jayess_throw_unhandled",
   "jayess_class_run_static_blocks", "jayess_module_initialize", "jayess_module_reexport_all"]

def binaryVoidSymbols : List String :=
  ["jayess_array_push", "jayess_array_spread", "jayess_object_spread",
   "jayess_class_define_constructor", "jayess_class_define_static_block",
   "jayess_module_export_binding", "jayess_module_export_value",
   "jayess_module_reexport_namespace"]

def ternaryVoidSymbols : List String :=
  ["jayess_value_set_property", "jayess_value_set_index", "jayess_class_define_field",
   "jayess_class_define_private_field", "jayess_class_define_static_field",
   "jayess_class_define_method", "jayess_class_define_private_method",
   "jayess_module_reexport_binding"]

abbrev SignatureEntry := String × String × List String

/-- The symbols with types of their own. -/
def specialSignatures : List SignatureEntry :=
  [("jayess_value_from_boolean", runtimeValueIRType, ["i1"]),
   ("jayess_value_from_number", runtimeValueIRType, ["double"]),
   ("jayess_value_from_bigint_string", runtimeValueIRType, ["i8*"]),
   ("jayess_value_from_string_copy", runtimeValueIRType, ["i8*"]),
   ("jayess_value_truthy", "i1", values 1), ("jayess_value_is_nullish", "i1", values 1),
   ("jayess_iterator_done", "i1", values 1), ("jayess_value_strict_equal", "i1", values 2),
   ("jayess_closure_environment_new", "i8*", []),
   ("jayess_closure_environment_set", "void", "i8*" :: values 2),
   ("jayess_function_new_with_closure", runtimeValueIRType, ["i8*"]),
   ("jayess_destructure_array_index", runtimeValueIRType,
     [runtimeValueIRType, "i32", runtimeValueIRType]),
   ("jayess_destructure_array_rest", runtimeValueIRType, [runtimeValueIRType, "i32"]),
   ("jayess_class_define_accessor", "void", values 4)]

def group (result : String) (count : Nat) (symbols : List String) : List SignatureEntry :=
  symbols.map fun symbol => (symbol, result, values count)

def fixedSignatures : List SignatureEntry :=
  group runtimeValueIRType 0 nullarySymbols ++ (group runtimeValueIRType 1 unarySymbols ++
    (group runtimeValueIRType 2 binarySymbols ++ (group runtimeValueIRType 3 ternarySymbols ++
      (group "void" 1 unaryVoidSymbols ++ (group "void" 2 binaryVoidSymbols ++
        (group "void" 3 ternaryVoidSymbols ++ specialSignatures))))))

def HasSignature (symbol result : String) (types : List String) : Prop :=
  (symbol, result, types) ∈ fixedSignatures

def IsFixed (declaration : Declaration) : Prop :=
  ∃ symbol result types, HasSignature symbol result types ∧
    signature symbol result types = declaration

section Members

variable {symbol : String}

theorem hasSignature_nullary (hsymbol : symbol ∈ nullarySymbols) :
    HasSignature symbol runtimeValueIRType [] :=
  List.mem_append_left _ (List.mem_map_of_mem hsymbol)

theorem hasSignature_unary (hsymbol : symbol ∈ unarySymbols) :
    HasSignature symbol runtimeValueIRType (values 1) :=
  List.mem_append_right _ (List.mem_append_left _ (List.mem_map_of_mem hsymbol))

theorem hasSignature_binary (hsymbol : symbol ∈ binarySymbols) :
    HasSignature symbol runtimeValueIRType (values 2) :=
  List.mem_append_right _ <| List.mem_append_right _ <|
    List.mem_append_left _ (List.mem_map_of_mem hsymbol)

theorem hasSignature_ternary (hsymbol : symbol ∈ ternarySymbols) :
    HasSignature symbol runtimeValueIRType (values 3) :=
  List.mem_append_right _ <| List.mem_append_right _ <| List.mem_append_right _ <|
    List.mem_append_left _ (List.mem_map_of_mem hsymbol)

theorem hasSignature_unaryVoid (hsymbol : symbol ∈ unaryVoidSymbols) :
    HasSignature symbol "void" (values 1) :=
  List.mem_append_right _ <| List.mem_append_right _ <| List.mem_append_right _ <|
    List.mem_append_right _ <| List.mem_append_left _ (List.mem_map_of_mem hsymbol)

theorem hasSignature_binaryVoid (hsymbol : symbol ∈ binaryVoidSymbols) :
    HasSignature symbol "void" (values 2) :=
  List.mem_append_right _ <| List.mem_append_right _ <| List.mem_append_right _ <|
    List.mem_append_right _ <| List.mem_append_right _ <|
      List.mem_append_left _ (List.mem_map_of_mem hsymbol)

theorem hasSignature_ternaryVoid (hsymbol : symbol ∈ ternaryVoidSymbols) :
    HasSignature symbol "void" (values 3) :=
  List.mem_append_right _ <| List.mem_append_right _ <| List.mem_append_right _ <|
    List.mem_append_right _ <| List.mem_append_right _ <| List.mem_append_right _ <|
      List.mem_append_left _ (List.mem_map_of_mem hsymbol)

theorem hasSignature_special {entry : SignatureEntry} (hentry : entry ∈ specialSignatures) :
    HasSignature entry.1 entry.2.1 entry.2.2 :=
  List.mem_append_right _ <| List.mem_append_right _ <| List.mem_append_right _ <|
    List.mem_append_right _ <| List.mem_append_right _ <| List.mem_append_right _ <|
      List.mem_append_right _ hentry

end Members

def fixedSymbols : List String := fixedSignatures.map (·.1)

theorem fixedSymbols_nodup : fixedSymbols.Nodup := by
  simp [fixedSymbols, fixedSignatures, group, nullarySymbols, unarySymbols, binarySymbols,
    ternarySymbols, unaryVoidSymbols, binaryVoidSymbols, ternaryVoidSymbols, specialSignatures]

variable {result property : String} {types : List String} {emitter : ExpressionEmitter}
    {target : Expression}

theorem HasSignature.mem {symbol : String} (hfixed : HasSignature symbol result types) :
    symbol ∈ fixedSymbols :=
  List.mem_map_of_mem hfixed

theorem IsFixed.name_mem {declaration : Declaration} (hfixed : IsFixed declaration) :
    declaration.name ∈ fixedSymbols := by
  obtain ⟨symbol, result, types, hsignature, rfl⟩ := hfixed
  exact hsignature.mem

theorem IsFixed.eq_of_name {first second : Declaration} (hfirst : IsFixed first)
    (hsecond : IsFixed second) (hname : first.name = second.name) : first = second := by
  obtain ⟨symbol, result, types, hsignature, rfl⟩ := hfirst
  obtain ⟨symbol', result', types', hsignature', rfl⟩ := hsecond
  obtain rfl : symbol = symbol' := hname
  have hsame := List.inj_on_of_nodup_map fixedSymbols_nodup hsignature hsignature' rfl
  simp only [Prod.mk.injEq, true_and] at hsame
  rw [hsame.1, hsame.2]

def directSymbols : List String :=
  stdlibRuntimeSymbols.flatMap (fun members => members.2.map (·.2)) ++
    (builtinRuntimeSymbols.map (·.2) ++
      processStreamRuntimeSymbols.flatMap fun members => members.2.map (·.2))

theorem mem_of_lookup {table : List (String × String)} {key symbol : String}
    (hlookup : table.lookup key = some symbol) : symbol ∈ table.map (·.2) := by
  obtain ⟨before, after, rfl, -⟩ := List.lookup_eq_some_iff.mp hlookup
  simp

theorem mem_of_lookupMember {table : List (String × List (String × String))}
    {key member symbol : String} (hlookup : lookupMember table key member = some symbol) :
    symbol ∈ table.flatMap fun members => members.2.map (·.2) := by
  obtain ⟨members, hmembers, hsymbol⟩ := Option.bind_eq_some_iff.mp hlookup
  obtain ⟨before, after, rfl, -⟩ := List.lookup_eq_some_iff.mp hmembers
  refine List.mem_flatMap.mpr ⟨(key, members), ?_, mem_of_lookup hsymbol⟩
  simp

theorem stdlibLocalCallSymbol_mem {name symbol : String}
    (hsymbol : stdlibLocalCallSymbol emitter name = some symbol) : symbol ∈ directSymbols := by
  unfold stdlibLocalCallSymbol at hsymbol
  split at hsymbol
  · exact List.mem_append_left _ (mem_of_lookupMember hsymbol)
  · exact List.mem_append_right _ (List.mem_append_left _ (mem_of_lookup hsymbol))

theorem processStreamSymbol_mem {symbol : String}
    (hsymbol : processStreamSymbol target property = some symbol) : symbol ∈ directSymbols := by
  unfold processStreamSymbol at hsymbol
  split at hsymbol
  · exact List.mem_append_right _ (List.mem_append_right _ (mem_of_lookupMember hsymbol))
  · cases hsymbol

theorem stdlibMemberInvokeSymbol_mem {symbol : String} {isPrivate optional : Bool}
    (hsymbol : stdlibMemberInvokeSymbol emitter target property isPrivate optional = some symbol) :
    symbol ∈ directSymbols := by
  obtain ⟨moduleName, -, hlookup⟩ := Option.bind_eq_some_iff.mp hsymbol
  exact List.mem_append_left _ (mem_of_lookupMember hlookup)

theorem stdlibPropertySymbol_hasSignature {symbol : String} {isPrivate optional : Bool}
    (hsymbol : stdlibPropertySymbol emitter target property isPrivate optional = some symbol) :
    HasSignature symbol runtimeValueIRType [] := by
  obtain ⟨moduleName, -, hlookup⟩ := Option.bind_eq_some_iff.mp hsymbol
  have hmem := mem_of_lookupMember hlookup
  refine hasSignature_nullary ?_
  simp only [stdlibPropertyRuntimeSymbols, List.flatMap_cons, List.flatMap_nil, List.map_cons,
    List.map_nil, List.append_nil] at hmem
  exact List.mem_of_mem_drop (i := 7) hmem

/-- The two letters after `jayess_` are among the initials. -/
def Opens (initials : List (Char × Char)) (symbol : String) : Prop :=
  ∃ pair ∈ initials, ∃ rest : List Char,
    symbol = String.ofList ('j' :: 'a' :: 'y' :: 'e' :: 's' :: 's' :: '_' :: pair.1 :: pair.2 :: rest)

theorem Opens.ne {initials others : List (Char × Char)} {symbol other : String}
    (hopens : Opens initials symbol) (hother : Opens others other)
    (hdisjoint : ∀ pair ∈ initials, pair ∉ others) : symbol ≠ other := by
  obtain ⟨pair, hpair, rest, rfl⟩ := hopens
  obtain ⟨pair', hpair', rest', rfl⟩ := hother
  intro heq
  have hchars := String.ofList_injective heq
  simp only [List.cons.injEq, true_and] at hchars
  have hsame : pair = pair' := Prod.ext hchars.1 hchars.2.1
  exact hdisjoint pair hpair (hsame ▸ hpair')

def directInitials : List (Char × Char) :=
  [('c', 'h'), ('b', 'u'), ('c', 'r'), ('c', 'o'), ('d', 'n'), ('f', 's'), ('h', 't'), ('p', 'r'),
   ('s', 't'), ('t', 'e'), ('t', 'c'), ('t', 'l'), ('u', 'd'), ('u', 'r'), ('u', 't'), ('w', 'o'),
   ('t', 'i'), ('q', 'u')]

/-- `cl` and `ca` are shared by no standard module, and `pr` only by the properties of `process`. -/
def fixedInitials : List (Char × Char) :=
  [('v', 'a'), ('c', 'l'), ('f', 'o'), ('i', 't'), ('d', 'e'), ('c', 'a'), ('a', 'p'), ('b', 'i'),
   ('m', 'o'), ('n', 'a'), ('a', 'r'), ('t', 'h'), ('o', 'b'), ('f', 'u'), ('c', 'u'), ('n', 'e')]

theorem directSymbols_opens : ∀ symbol ∈ directSymbols, Opens directInitials symbol := by
  simp only [directSymbols, stdlibRuntimeSymbols, builtinRuntimeSymbols,
    processStreamRuntimeSymbols, List.flatMap_cons, List.flatMap_nil, List.map_cons, List.map_nil,
    List.cons_append, List.nil_append, List.append_nil, List.forall_mem_cons]
  and_intros
  all_goals first | exact ⟨(_, _), by decide, _, rfl⟩ | simp

def processProperties : List String :=
  ["jayess_process_argv", "jayess_process_env", "jayess_process_stdin", "jayess_process_stdout",
   "jayess_process_stderr", "jayess_process_pid", "jayess_process_platform"]

theorem processProperties_disjoint : ∀ symbol ∈ processProperties, symbol ∉ directSymbols := by
  simp [processProperties, directSymbols, stdlibRuntimeSymbols, builtinRuntimeSymbols,
    processStreamRuntimeSymbols]

theorem fixedSymbols_opens : ∀ symbol ∈ fixedSymbols,
    symbol ∈ processProperties ∨ Opens fixedInitials symbol := by
  simp only [fixedSymbols, fixedSignatures, group, nullarySymbols, unarySymbols, binarySymbols,
    ternarySymbols, unaryVoidSymbols, binaryVoidSymbols, ternaryVoidSymbols, specialSignatures,
    List.map_cons, List.map_nil, List.cons_append, List.nil_append, List.forall_mem_cons]
  and_intros
  all_goals first | exact Or.inr ⟨(_, _), by decide, _, rfl⟩ | simp [processProperties]

theorem directSymbols_not_fixed {symbol : String} (hdirect : symbol ∈ directSymbols) :
    symbol ∉ fixedSymbols := by
  intro hfixed
  rcases fixedSymbols_opens symbol hfixed with hprocess | hopens
  · exact processProperties_disjoint symbol hprocess hdirect
  · refine (hopens.ne (directSymbols_opens symbol hdirect) ?_) rfl
    decide

theorem Opens.ne_underscored {initials : List (Char × Char)} {symbol other : String}
    (hopens : Opens initials symbol) (hother : other.toList.head? = some '_') : symbol ≠ other := by
  obtain ⟨pair, hpair, rest, rfl⟩ := hopens
  rintro rfl
  simp at hother

def irTypes : List String := [runtimeValueIRType, "i1", "i8*", "i32", "double", "void"]

/-- What separates the type of a declaration from its name in a key. -/
def Declaration.Plain (declaration : Declaration) : Prop := '@' ∉ declaration.irType.toList

theorem irTypes_plain : ∀ irType ∈ irTypes, '@' ∉ irType.toList := by
  simp [irTypes, runtimeValueIRType]

theorem intercalate_plain (htypes : ∀ irType ∈ types, irType ∈ irTypes) :
    '@' ∉ (", ".intercalate types).toList := by
  induction types with
  | nil => simp
  | cons irType rest ih =>
      rw [List.forall_mem_cons] at htypes
      have hfirst := irTypes_plain irType htypes.1
      by_cases hrest : rest = []
      · simpa [hrest] using hfirst
      · have hothers := ih htypes.2
        rw [String.intercalate_cons_of_ne_nil hrest, String.toList_append, String.toList_append]
        simp only [List.mem_append, not_or]
        exact ⟨⟨hfirst, by simp⟩, hothers⟩

theorem signature_plain {symbol : String} (hresult : result ∈ irTypes)
    (htypes : ∀ irType ∈ types, irType ∈ irTypes) : (signature symbol result types).Plain := by
  have hresult := irTypes_plain result hresult
  have htypes := intercalate_plain htypes
  simp only [Declaration.Plain, signature, String.toList_append, List.mem_append, not_or]
  exact ⟨⟨⟨hresult, by simp⟩, htypes⟩, by simp⟩

theorem group_types {count : Nat} {symbols : List String} (hresult : result ∈ irTypes) :
    ∀ entry ∈ group result count symbols,
      entry.2.1 ∈ irTypes ∧ ∀ irType ∈ entry.2.2, irType ∈ irTypes := by
  intro entry hentry
  obtain ⟨symbol, -, rfl⟩ := List.mem_map.mp hentry
  refine ⟨hresult, fun irType hmem => ?_⟩
  rw [List.eq_of_mem_replicate hmem]
  exact List.mem_cons_self

theorem fixedSignatures_types : ∀ entry ∈ fixedSignatures,
    entry.2.1 ∈ irTypes ∧ ∀ irType ∈ entry.2.2, irType ∈ irTypes := by
  have hspecial : ∀ entry ∈ specialSignatures,
      entry.2.1 ∈ irTypes ∧ ∀ irType ∈ entry.2.2, irType ∈ irTypes := by
    simp [specialSignatures, irTypes, values]
  have hvalue : runtimeValueIRType ∈ irTypes := List.mem_cons_self
  have hvoid : "void" ∈ irTypes := by simp [irTypes]
  simp only [fixedSignatures, List.forall_mem_append]
  exact ⟨group_types hvalue, group_types hvalue, group_types hvalue, group_types hvalue,
    group_types hvoid, group_types hvoid, group_types hvoid, hspecial⟩

theorem IsFixed.plain {declaration : Declaration} (hfixed : IsFixed declaration) :
    declaration.Plain := by
  obtain ⟨symbol, result, types, hsignature, rfl⟩ := hfixed
  have htypes := fixedSignatures_types _ hsignature
  exact signature_plain htypes.1 htypes.2

theorem DirectCall.plain (call : DirectCall) : call.declaration.Plain := by
  refine signature_plain List.mem_cons_self fun irType hmem => ?_
  rw [List.eq_of_mem_replicate hmem]
  exact List.mem_cons_self

theorem separator_injective {first second rest rest' : List Char} (hfirst : '@' ∉ first)
    (hsecond : '@' ∉ second) (heq : first ++ '@' :: rest = second ++ '@' :: rest') :
    first = second ∧ rest = rest' := by
  rcases List.append_eq_append_iff.mp heq with ⟨between, rfl, hrest⟩ | ⟨between, rfl, hrest⟩
  · cases between with
    | nil => exact ⟨(List.append_nil _).symm, (List.cons.inj hrest).2⟩
    | cons char between =>
        obtain rfl : '@' = char := (List.cons.inj hrest).1
        exact absurd (List.mem_append_right _ List.mem_cons_self) hsecond
  · cases between with
    | nil => exact ⟨List.append_nil _, (List.cons.inj hrest).2.symm⟩
    | cons char between =>
        obtain rfl : '@' = char := (List.cons.inj hrest).1
        exact absurd (List.mem_append_right _ List.mem_cons_self) hfirst

theorem key_injective {first second : Declaration} (hfirst : first.Plain) (hsecond : second.Plain)
    (hkey : first.key = second.key) : first = second := by
  obtain ⟨name, irType⟩ := first
  obtain ⟨name', irType'⟩ := second
  have hchars : (irType.toList ++ [' ']) ++ '@' :: name.toList
      = (irType'.toList ++ [' ']) ++ '@' :: name'.toList := by
    have htext := congrArg String.toList hkey
    simpa [Declaration.key, String.toList_append] using htext
  have hplain : '@' ∉ irType.toList ++ [' '] := by simpa [Declaration.Plain] using hfirst
  have hplain' : '@' ∉ irType'.toList ++ [' '] := by simpa [Declaration.Plain] using hsecond
  obtain ⟨htype, hname⟩ := separator_injective hplain hplain' hchars
  rw [String.toList_injective hname, String.toList_injective (List.append_cancel_right htype)]

theorem valueType_length : runtimeValueIRType.length = 13 := by decide +kernel

theorem separator_length : ", ".length = 2 := by decide +kernel

theorem values_text_length (count : Nat) :
    (", ".intercalate (values (count + 1))).length = 15 * count + 13 := by
  induction count with
  | zero => simp [values, valueType_length]
  | succ count ih =>
      have hne : values (count + 1) ≠ [] := by simp [values]
      have hcons : values (count + 2) = runtimeValueIRType :: values (count + 1) :=
        List.replicate_succ
      rw [hcons, String.intercalate_cons_of_ne_nil hne, String.length_append, String.length_append,
        ih, valueType_length, separator_length]
      omega

theorem DirectCall.eq_of_declaration {first second : DirectCall}
    (heq : first.declaration = second.declaration) : first = second := by
  obtain ⟨symbol, count⟩ := first
  obtain ⟨symbol', count'⟩ := second
  obtain rfl : symbol = symbol' := congrArg Declaration.name heq
  have htext := congrArg (fun declaration : Declaration => declaration.irType.length) heq
  simp only [DirectCall.declaration, signature, String.length_append] at htext
  cases count with
  | zero =>
      cases count' with
      | zero => rfl
      | succ count' =>
          rw [values_text_length] at htext
          simp [values] at htext
  | succ count =>
      cases count' with
      | zero =>
          rw [values_text_length] at htext
          simp [values] at htext
      | succ count' =>
          rw [values_text_length, values_text_length] at htext
          have hcount : count = count' := by omega
          rw [hcount]

end Jayess.Backend
