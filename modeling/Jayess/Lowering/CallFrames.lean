import Jayess.Lowering.Frames

/-!
# Frames of calls

What a call does to a variable: the names that the callee declares are set up for its body and taken out
again, and a variable that nothing in the call assigns is what it was before.
-/

namespace Jayess.Lowering

theorem mem_collectNames {excluded : String → Bool} {seen names : List String} {name : String} :
    name ∈ collectNames excluded seen names ↔ name ∈ names ∧ excluded name = false ∧ name ∉ seen := by
  induction names generalizing seen with
  | nil => simp [collectNames]
  | cons other rest ih =>
      rw [collectNames]
      split
      · next hskip =>
        rw [ih, List.mem_cons]
        constructor
        · rintro ⟨hmem, hkept⟩
          exact ⟨.inr hmem, hkept⟩
        · rintro ⟨rfl | hmem, hexcluded, hseen⟩
          · rcases hskip with hskip | hskip
            · rw [hexcluded] at hskip
              cases hskip
            · exact absurd hskip hseen
          · exact ⟨hmem, hexcluded, hseen⟩
      · next hkeep =>
        rw [not_or, Bool.not_eq_true] at hkeep
        rw [List.mem_cons, ih, List.mem_cons, List.mem_cons, not_or]
        constructor
        · rintro (rfl | ⟨hmem, hexcluded, -, hseen⟩)
          · exact ⟨.inl rfl, hkeep⟩
          · exact ⟨.inr hmem, hexcluded, hseen⟩
        · rintro ⟨hmem, hexcluded, hseen⟩
          by_cases heq : name = other
          · exact .inl heq
          · exact .inr ⟨hmem.resolve_left heq, hexcluded, heq, hseen⟩

namespace IifeBody

variable {body : IifeBody} {scope : ReturnScope} {name : String}

/-- The names that are taken out when the call is done, in the order of their groups. -/
def cleared (body : IifeBody) : List String := body.locals ++ body.funcLocals

def restored (body : IifeBody) : List String := body.shadows ++ body.funcShadows

section Own

variable (hname : name ≠ "") (hown : ownName body.selfName body.params name = false)
include hname hown

theorem mem_collected :
    name ∈ body.variableNames ∨ name ∈ body.functionNames ↔ hoistedName body.statements name = true := by
  obtain ⟨hself, hparam⟩ := Bool.or_eq_false_iff.mp hown
  have hnotParam : ¬iifeParameterNames body.params name = true := fun hmem =>
    of_decide_eq_false hparam (of_decide_eq_true hmem).2
  have hfunction : name ∈ body.functionNames ↔ name ∈ functionDeclsNames body.statements := by
    simp [functionNames, mem_collectNames, hname, hnotParam]
  have hvariable : name ∈ body.variableNames ↔
      name ∈ variableDeclsNames body.statements ∧ name ∉ body.functionNames := by
    simp [variableNames, mem_collectNames, of_decide_eq_false hself, hnotParam]
  rw [hvariable, hfunction, hoistedName, Bool.or_eq_true, decide_eq_true_eq, decide_eq_true_eq]
  tauto

variable (hcollected : body.Collected scope)
include hcollected

theorem mem_cleared :
    name ∈ body.cleared ↔ hoistedName body.statements name = true ∧ scope.bindingKnown name = false := by
  rw [← mem_collected hname hown, cleared, List.mem_append, hcollected.locals, hcollected.funcLocals,
    List.mem_filter, List.mem_filter, ← or_and_right, Bool.not_eq_true']

theorem mem_restored :
    name ∈ body.restored ↔ hoistedName body.statements name = true ∧ scope.bindingKnown name = true := by
  rw [← mem_collected hname hown, restored, List.mem_append, hcollected.shadows, hcollected.funcShadows,
    List.mem_filter, List.mem_filter, ← or_and_right]

end Own

def leftBinding (body : IifeBody) (source before : ReturnScope) (name : String) : VariableBinding :=
  if name ∈ body.params.map parameterName then unknownBinding
  else if name = body.selfName ∨ name ∈ body.restored then source.bindingOf name
  else if name ∈ body.cleared then unknownBinding
  else before.bindingOf name

end IifeBody

def Rebinds (name : String) (m : Eval Unit) (known : VariableBinding → VariableBinding) : Prop :=
  ∀ state, ∃ after, m.outcome state = (some (), after) ∧
    after.scope.bindingOf name = known (state.scope.bindingOf name)

namespace Rebinds

variable {name : String} {m n : Eval Unit} {known known' : VariableBinding → VariableBinding}

theorem andThen (first : Rebinds name m known) (second : Rebinds name n known') :
    Rebinds name (m >>= fun _ => n) (known' ∘ known) := by
  intro state
  obtain ⟨middle, hm, hmiddle⟩ := first state
  obtain ⟨after, hn, hafter⟩ := second middle
  refine ⟨after, (Eval.outcome_bind_of hm).trans hn, ?_⟩
  rw [hafter, hmiddle, Function.comp_apply]

theorem eachName {act : String → Eval Unit} {binding : VariableBinding}
    (hself : Rebinds name (act name) fun _ => binding)
    (hother : ∀ other, name ≠ other → Rebinds name (act other) id) (names : List String) :
    Rebinds name (Lowering.eachName act names) fun before => if name ∈ names then binding else before := by
  induction names with
  | nil => exact fun state => ⟨state, rfl, rfl⟩
  | cons other rest ih =>
      intro state
      by_cases heq : name = other
      · subst heq
        obtain ⟨after, hrun, hafter⟩ := hself.andThen ih state
        refine ⟨after, hrun, ?_⟩
        simp only [hafter, Function.comp_apply, ite_self, List.mem_cons, true_or, if_true]
      · obtain ⟨after, hrun, hafter⟩ := (hother other heq).andThen ih state
        refine ⟨after, hrun, ?_⟩
        simp only [hafter, Function.comp_apply, id_eq, List.mem_cons, heq, false_or]

end Rebinds

section Leaving

variable (body : IifeBody) (source : ReturnScope) {name : String}

theorem rebinds_clearIIFELocals (names : List String) :
    Rebinds name (clearIIFELocals names) fun before => if name ∈ names then unknownBinding else before :=
  .eachName (fun _ => ⟨_, rfl, ReturnScope.bindingOf_clearBinding_self⟩)
    (fun _ hne _ => ⟨_, rfl, ReturnScope.bindingOf_clearBinding hne⟩) names

theorem rebinds_restoreIIFEShadows (names : List String) :
    Rebinds name (restoreIIFEShadows names source)
      fun before => if name ∈ names then source.bindingOf name else before :=
  .eachName (fun _ => ⟨_, rfl, ReturnScope.bindingOf_restoreBinding_self⟩)
    (fun _ hne _ => ⟨_, rfl, ReturnScope.bindingOf_restoreBinding hne⟩) names

theorem rebinds_clearIIFEParameters (params : List Parameter) :
    Rebinds name (clearIIFEParameters params)
      fun before => if name ∈ params.map parameterName then unknownBinding else before :=
  .eachName (fun _ => ⟨_, rfl, ReturnScope.bindingOf_clearBinding_self⟩)
    (fun _ hne _ => ⟨_, rfl, ReturnScope.bindingOf_clearBinding hne⟩) _

theorem rebinds_restoreIIFESelfName (hname : name ≠ "") :
    Rebinds name (restoreIIFESelfName body source)
      fun before => if name = body.selfName then source.bindingOf name else before := by
  intro state
  dsimp only
  unfold restoreIIFESelfName
  split
  · next hempty => exact ⟨state, rfl, by rw [if_neg (fun heq => hname (heq.trans hempty))]⟩
  · by_cases heq : name = body.selfName
    · subst heq
      rw [if_pos rfl]
      split
      · exact ⟨_, rfl, ReturnScope.bindingOf_restoreBinding_self⟩
      · next hunknown =>
        refine ⟨_, rfl, ?_⟩
        rw [ReturnScope.bindingOf_eq_unknown (Bool.eq_false_iff.mpr hunknown)]
        exact ReturnScope.bindingOf_clearBinding_self
    · rw [if_neg heq]
      split
      · exact ⟨_, rfl, ReturnScope.bindingOf_restoreBinding heq⟩
      · exact ⟨_, rfl, ReturnScope.bindingOf_clearBinding heq⟩

theorem leaveIIFE_bindingOf (hname : name ≠ "") (state : Evaluation) :
    ∃ after, (leaveIIFE body source).outcome state = (some (), after) ∧
      after.scope.bindingOf name = body.leftBinding source state.scope name := by
  obtain ⟨after, hrun, hafter⟩ :=
    ((rebinds_clearIIFELocals body.locals).andThen <| (rebinds_clearIIFELocals body.funcLocals).andThen <|
      (rebinds_restoreIIFEShadows source body.shadows).andThen <|
      (rebinds_restoreIIFEShadows source body.funcShadows).andThen <|
      (rebinds_restoreIIFESelfName body source hname).andThen (rebinds_clearIIFEParameters body.params)) state
  refine ⟨after, hrun, ?_⟩
  rw [hafter, IifeBody.leftBinding]
  simp only [Function.comp_apply, IifeBody.restored, IifeBody.cleared, List.mem_append]
  split_ifs <;> first | rfl | (exfalso; tauto)

end Leaving

section

variable {α : Type} {ev : Evaluators} {name : String}

theorem bindIIFEArguments_subset {params defaults : List Parameter} {arguments : List Expression}
    {state after : Evaluation}
    (hrun : (bindIIFEArguments ev params arguments).outcome state = (some defaults, after)) : defaults ⊆ params := by
  induction params generalizing arguments state defaults after with
  | nil =>
      obtain ⟨_, _, -, hpure⟩ := Eval.outcome_bind_some hrun
      cases hpure
      exact List.Subset.refl _
  | cons param params ih =>
      obtain ⟨needsDefault, _, -, hrest⟩ := Eval.outcome_bind_some hrun
      obtain ⟨rest, _, htail, hpure⟩ := Eval.outcome_bind_some hrest
      have hsubset := ih htail
      cases hpure
      split
      · exact List.cons_subset_cons _ hsubset
      · exact List.subset_cons_of_subset _ hsubset

theorem parametersAssign_default {params : List Parameter} {param : Parameter}
    (hspares : parametersAssign name params = false) (hmem : param ∈ params) :
    optionExpressionAssigns name (parameterDefault param) = false := by
  induction params with
  | nil => cases hmem
  | cons other rest ih =>
      obtain ⟨declared, pattern, isRest, default⟩ := other
      obtain ⟨hother, hrest⟩ := Bool.or_eq_false_iff.mp hspares
      rcases List.mem_cons.mp hmem with rfl | hmem
      · exact hother
      · exact ih hrest hmem

theorem keeps_hoistIIFEVarBindings {body : IifeBody} (hcleared : name ∉ body.cleared)
    (hrestored : name ∉ body.restored) {world : VariableBinding} :
    (frameDiscipline name).Keeps world (hoistIIFEVarBindings body) (frameDiscipline name).Any := by
  have hvar : ∀ {names}, name ∉ names → ∀ {world}, (frameDiscipline name).Keeps world
      (eachName hoistIIFEVarBinding names) (frameDiscipline name).Any := by
    intro names hnot world
    apply Discipline.keeps_eachName
    intro world other hmem
    have hne : name ≠ other := fun heq => hnot (heq ▸ hmem)
    refine keeps_of_bindingOf .any fun state => ?_
    calc
      (((state.scope.clearBinding other).dropSequences other).store other (.nullish .undefined)).bindingOf name
        = ((state.scope.clearBinding other).dropSequences other).bindingOf name :=
          ReturnScope.bindingOf_store _ hne
      _ = state.scope.bindingOf name := ReturnScope.bindingOf_clearBinding hne
  have hfunction : ∀ {names}, name ∉ names → ∀ {world}, (frameDiscipline name).Keeps world
      (eachName hoistIIFEFunctionBinding names) (frameDiscipline name).Any := by
    intro names hnot world
    apply Discipline.keeps_eachName
    exact fun hmem => Discipline.keeps_hoistIIFEFunctionBinding fun heq => hnot (heq ▸ hmem)
  rw [IifeBody.cleared, List.mem_append, not_or] at hcleared
  rw [IifeBody.restored, List.mem_append, not_or] at hrestored
  exact (hvar hcleared.1).andThen <| (hvar hrestored.1).andThen <|
    (hfunction hcleared.2).andThen (hfunction hrestored.2)

/-- The states of a call that succeeds: the callee is found, its arguments are bound, its own name and its
defaults, its names are hoisted and its body is run, and its names leave scope. -/
structure IifeCall (ev : Evaluators) (evaluate : Expression → Eval α) (callee : Expression)
    (arguments : List Expression) (state : Evaluation) (value : α) (after : Evaluation) where
  body : IifeBody
  defaults : List Parameter
  called : Evaluation
  argued : Evaluation
  bound : Evaluation
  evaluated : Evaluation
  found : (ev.callable callee).outcome state = (some body, called)
  bindable : body.params.all (canBindIIFEParameter called.scope) = true
  binds : (bindIIFEArguments ev body.params arguments).outcome called = (some defaults, argued)
  presets : (bindIIFESelfName body >>= fun _ => bindIIFEDefaults ev defaults).outcome argued =
    (some (), bound)
  runs : (hoistIIFEVarBindings body >>= fun _ => iifeValue ev evaluate body).outcome bound =
    (some value, evaluated)
  leaves : (leaveIIFE body argued.scope).outcome evaluated = (some (), after)

theorem nonempty_iifeCall {evaluate : Expression → Eval α} {callee : Expression} {arguments : List Expression}
    {optional : Bool} {state after : Evaluation} {value : α}
    (hrun : (evaluateIIFE ev evaluate callee arguments optional).outcome state = (some value, after)) :
    Nonempty (IifeCall ev evaluate callee arguments state value after) := by
  have hprobed := Eval.outcome_probe_some hrun
  split at hprobed
  · cases hprobed
  · obtain ⟨body, called, hfound, hrest⟩ := Eval.outcome_bind_some hprobed
    obtain ⟨shadowScope, bound, hbind, hrest⟩ := Eval.outcome_bind_some hrest
    obtain ⟨_, hoisted, hhoist, hrest⟩ := Eval.outcome_bind_some hrest
    obtain ⟨result, evaluated, hvalue, hrest⟩ := Eval.outcome_bind_some hrest
    obtain ⟨_, left, hleave, hpure⟩ := Eval.outcome_bind_some hrest
    cases hpure
    obtain ⟨_, _, hscope, hbind⟩ := Eval.outcome_bind_some hbind
    cases hscope
    split at hbind
    · next hbindable =>
      obtain ⟨defaults, argued, hbinds, hbind⟩ := Eval.outcome_bind_some hbind
      obtain ⟨_, _, hscope, hbind⟩ := Eval.outcome_bind_some hbind
      cases hscope
      obtain ⟨_, named, hself, hbind⟩ := Eval.outcome_bind_some hbind
      obtain ⟨_, _, hdefaults, hpure⟩ := Eval.outcome_bind_some hbind
      cases hpure
      exact ⟨⟨body, defaults, called, argued, bound, evaluated, hfound, hbindable, hbinds,
        (Eval.outcome_bind_of hself).trans hdefaults, (Eval.outcome_bind_of hhoist).trans hvalue, hleave⟩⟩
    · cases hbind

namespace IifeCall

variable {evaluate : Expression → Eval α} {callee : Expression} {arguments : List Expression}
  {state after : Evaluation} {value : α} (call : IifeCall ev evaluate callee arguments state value after)
include call

theorem bindable_param (hparam : name ∈ call.body.params.map parameterName) :
    name ≠ "" ∧ call.called.scope.bindingOf name = unknownBinding := by
  obtain ⟨param, hmem, rfl⟩ := List.mem_map.mp hparam
  have hbindable := List.all_eq_true.mp call.bindable param hmem
  unfold canBindIIFEParameter at hbindable
  split at hbindable
  · rw [Bool.and_eq_true, Bool.not_eq_true', decide_eq_true_eq] at hbindable
    exact ⟨hbindable.1, ReturnScope.bindingOf_eq_unknown hbindable.2⟩
  · cases hbindable

section Keeping

variable (keeping : (frameDiscipline name).Keeping ev)
include keeping

theorem body_spares (hcallee : (frameDiscipline name).Spares (expressionAssigns · callee)) :
    call.body.Spares name := by
  obtain ⟨later, -, -, hbody⟩ := keeping.callable hcallee state rfl
  exact hbody call.body (congrArg Prod.fst call.found) name rfl

theorem argued_bindingOf (hne : name ∉ call.body.params.map parameterName)
    (hspares : expressionsAssign name arguments = false) :
    call.argued.scope.bindingOf name = call.called.scope.bindingOf name := by
  have hfree : ∀ param ∈ call.body.params, ¬(frameDiscipline name).Guarded (parameterName param) :=
    fun param hmem heq => hne (List.mem_map.mpr ⟨param, hmem, heq⟩)
  exact bindingOf_of_keeps (Discipline.keeps_bindIIFEArguments keeping hfree (spares_frame hspares)) call.binds

theorem bound_bindingOf (hown : ownName call.body.selfName call.body.params name = false)
    (hspares : parametersAssign name call.body.params = false) :
    call.bound.scope.bindingOf name = call.argued.scope.bindingOf name := by
  obtain ⟨hself, hparam⟩ := Bool.or_eq_false_iff.mp hown
  have hsubset := bindIIFEArguments_subset call.binds
  have hdefaults : ∀ param ∈ call.defaults, ¬(frameDiscipline name).Guarded (parameterName param) ∧
      (frameDiscipline name).Spares (optionExpressionAssigns · (parameterDefault param)) :=
    fun param hmem => ⟨fun heq => of_decide_eq_false hparam (List.mem_map.mpr ⟨param, hsubset hmem, heq⟩),
      spares_frame (parametersAssign_default hspares (hsubset hmem))⟩
  have hfree : ¬(frameDiscipline name).Guarded call.body.selfName :=
    fun heq => of_decide_eq_false hself (Eq.symm heq)
  have hkeeps : ∀ {world}, (frameDiscipline name).Keeps world
      (bindIIFESelfName call.body >>= fun _ => bindIIFEDefaults ev call.defaults) (frameDiscipline name).Any :=
    (Discipline.keeps_bindIIFESelfName hfree).andThen (Discipline.keeps_bindIIFEDefaults keeping hdefaults)
  exact bindingOf_of_keeps hkeeps call.presets

theorem evaluated_bindingOf {result : (frameDiscipline name).World → α → Prop}
    (hevaluate : (frameDiscipline name).KeepsUnassigned evaluate result) (hcleared : name ∉ call.body.cleared)
    (hrestored : name ∉ call.body.restored) (hspares : call.body.assigns name = false) :
    call.evaluated.scope.bindingOf name = call.bound.scope.bindingOf name := by
  have hkeeps : ∀ {world}, (frameDiscipline name).Keeps world
      (hoistIIFEVarBindings call.body >>= fun _ => iifeValue ev evaluate call.body) result :=
    (keeps_hoistIIFEVarBindings hcleared hrestored).andThen
      (Discipline.keeps_iifeValue keeping hevaluate (spares_frame hspares))
  exact bindingOf_of_keeps hkeeps call.runs

end Keeping

theorem after_bindingOf (hname : name ≠ "") :
    after.scope.bindingOf name = call.body.leftBinding call.argued.scope call.evaluated.scope name := by
  obtain ⟨left, hrun, hleft⟩ := leaveIIFE_bindingOf call.body call.argued.scope hname call.evaluated
  rw [call.leaves] at hrun
  cases hrun
  exact hleft

end IifeCall

/-- A call leaves a variable alone that nothing in it assigns, also where the callee has a variable of that
name. -/
theorem frame_keepingCalls (hname : name ≠ "") (keeping : (frameDiscipline name).Keeping ev) :
    (frameDiscipline name).KeepingCalls ev where
  toKeeping := keeping
  calls := by
    intro α evaluate result hevaluate hknown world expression spares
    refine keeps_of_bindingOf hknown fun state => ?_
    unfold evaluateIIFEValue
    split
    · next pos callee arguments optional =>
      obtain ⟨hcallee, harguments⟩ := Discipline.spares_or spares
      rcases hrun : (evaluateIIFE ev evaluate callee arguments optional).outcome state with ⟨_ | value, after⟩
      · exact congrArg (·.bindingOf name) (Eval.outcome_probe_none hrun)
      · obtain ⟨call⟩ := nonempty_iifeCall hrun
        have hcalled : call.called.scope.bindingOf name = state.scope.bindingOf name :=
          bindingOf_of_keeps (keeping.callable hcallee) call.found
        rw [call.after_bindingOf hname, IifeBody.leftBinding]
        by_cases hparam : name ∈ call.body.params.map parameterName
        · rw [if_pos hparam, ← hcalled, (call.bindable_param hparam).2]
        have hargued : call.argued.scope.bindingOf name = state.scope.bindingOf name :=
          (call.argued_bindingOf keeping hparam (harguments name rfl)).trans hcalled
        by_cases hself : name = call.body.selfName
        · rw [if_neg hparam, if_pos (.inl hself), hargued]
        have hown : ownName call.body.selfName call.body.params name = false :=
          Bool.or_eq_false_iff.mpr ⟨decide_eq_false hself, decide_eq_false hparam⟩
        have hcollected := keeping.collected call.found
        obtain ⟨hdefaults, hbody⟩ := call.body_spares keeping hcallee hown
        have hbound := (call.bound_bindingOf keeping hown hdefaults).trans hargued
        by_cases hrestored : name ∈ call.body.restored
        · rw [if_neg hparam, if_pos (.inr hrestored), hargued]
        by_cases hcleared : name ∈ call.body.cleared
        · have hunknown := ((IifeBody.mem_cleared hname hown hcollected).mp hcleared).2
          rw [if_neg hparam, if_neg (not_or.mpr ⟨hself, hrestored⟩), if_pos hcleared, ← hcalled,
            ReturnScope.bindingOf_eq_unknown hunknown]
        · have hhoisted : hoistedName call.body.statements name = false := by
            by_contra hhoisted
            rw [Bool.not_eq_false] at hhoisted
            cases hknown : call.called.scope.bindingKnown name with
            | false => exact hcleared ((IifeBody.mem_cleared hname hown hcollected).mpr ⟨hhoisted, hknown⟩)
            | true => exact hrestored ((IifeBody.mem_restored hname hown hcollected).mpr ⟨hhoisted, hknown⟩)
          rw [if_neg hparam, if_neg (not_or.mpr ⟨hself, hrestored⟩), if_neg hcleared,
            call.evaluated_bindingOf keeping hevaluate hcleared hrestored (hbody hhoisted), hbound]
    · rfl

theorem frame_withCatchBindingScope {catchPattern : Option BindingPattern} {evaluate : Eval α}
    {world : VariableBinding}
    (hevaluate : (∀ other ∈ patternNames catchPattern, ¬(frameDiscipline name).Guarded other) → ∀ {world},
      (frameDiscipline name).Keeps world evaluate (frameDiscipline name).Any) :
    (frameDiscipline name).Keeps world (withCatchBindingScope catchPattern evaluate)
      (frameDiscipline name).Any := by
  refine keeps_of_bindingOf .any fun state => ?_
  have hclear : Rebinds name (eachName clearReturnScopeBinding (patternNames catchPattern))
      fun before => if name ∈ patternNames catchPattern then unknownBinding else before :=
    .eachName (fun _ => ⟨_, rfl, ReturnScope.bindingOf_clearBinding_self⟩)
      (fun _ hne _ => ⟨_, rfl, ReturnScope.bindingOf_clearBinding hne⟩) _
  obtain ⟨cleared, hrun, hcleared⟩ := hclear state
  obtain ⟨restored, hrun', hrestored⟩ := rebinds_restoreIIFEShadows state.scope
    (patternNames catchPattern) (evaluate.outcome cleared).2
  have houtcome : (withCatchBindingScope catchPattern evaluate).outcome state =
      (Eval.ofOption (evaluate.outcome cleared).1).outcome restored := by
    calc (withCatchBindingScope catchPattern evaluate).outcome state
      _ = _ := Eval.outcome_bind_of (rfl : Eval.scope.outcome state = (some state.scope, state))
      _ = _ := Eval.outcome_bind_of hrun
      _ = _ := Eval.outcome_bind_of (rfl : evaluate.attempt.outcome cleared =
            (some (evaluate.outcome cleared).1, (evaluate.outcome cleared).2))
      _ = _ := Eval.outcome_bind_of hrun'
  have hlast : ((Eval.ofOption (evaluate.outcome cleared).1).outcome restored).2 = restored := by
    cases (evaluate.outcome cleared).1 with
    | none => rfl
    | some value => rfl
  rw [houtcome, hlast, hrestored]
  split
  · rfl
  · next hmem =>
    have hfree : ∀ other ∈ patternNames catchPattern, ¬(frameDiscipline name).Guarded other :=
      fun other hother heq => hmem (heq ▸ hother)
    have hevaluated : (evaluate.outcome cleared).2.scope.bindingOf name = cleared.scope.bindingOf name :=
      bindingOf_of_keeps (hevaluate hfree) (rfl : evaluate.outcome cleared = (_, _))
    rw [hevaluated, hcleared]
    exact if_neg hmem

theorem frame_scopes (hname : name ≠ "") : (frameDiscipline name).Scopes where
  calls := frame_keepingCalls hname
  catches hevaluate := frame_withCatchBindingScope hevaluate
  returns _ _ _ := keeps_of_bindingOf .any fun _ => rfl

end

end Jayess.Lowering
