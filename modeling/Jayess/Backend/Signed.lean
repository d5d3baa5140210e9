import Jayess.Backend.Declares
import Jayess.Backend.Signatures

/-!
# What an action declares
-/

namespace Jayess.Backend

open HasExpressions (expressions)

variable {α β : Type}

/-! ## Declarations -/

def IsSigned (declaration : Declaration) : Prop :=
  IsFixed declaration ∨
    ∃ call : DirectCall, call.symbol ∈ directSymbols ∧ call.declaration = declaration

theorem IsSigned.plain {declaration : Declaration} (hsigned : IsSigned declaration) :
    declaration.Plain := by
  rcases hsigned with hfixed | ⟨call, -, rfl⟩
  · exact hfixed.plain
  · exact call.plain

structure Signed (declarations : List Declaration) : Prop where
  signed : ∀ declaration ∈ declarations, IsSigned declaration
  nodup : declarations.Nodup

def Covers (lines : List Line) (declarations : List Declaration) : Prop :=
  ∀ line ∈ lines, ∀ declaration, line.declaration? = some declaration →
    declaration ∈ declarations

section Covers

variable {lines more : List Line} {declarations larger : List Declaration}

theorem covers_nil : Covers [] declarations := by simp [Covers]

theorem covers_append : Covers (lines ++ more) declarations ↔
    Covers lines declarations ∧ Covers more declarations := by
  simp only [Covers, List.forall_mem_append]

theorem covers_of_none (hlines : ∀ line ∈ lines, line.declaration? = none) :
    Covers lines declarations := by
  intro line hline declaration hdeclaration
  rw [hlines line hline] at hdeclaration
  cases hdeclaration

theorem Covers.mono (hcovers : Covers lines declarations) (hkept : declarations ⊆ larger) :
    Covers lines larger :=
  fun line hline declaration hdeclaration => hkept (hcovers line hline declaration hdeclaration)

end Covers

/-- From the first declarations to the second the direct calls are added, and besides them only
fixed signatures are. -/
structure Adds (calls : List DirectCall) (before after : List Declaration) : Prop where
  signed : Signed after
  kept : before ⊆ after
  made : ∀ declaration ∈ after, declaration ∈ before ∨ IsFixed declaration ∨
    ∃ call ∈ calls, call.declaration = declaration
  declared : ∀ call ∈ calls, call.symbol ∈ directSymbols ∧ call.declaration ∈ after

namespace Adds

variable {calls more : List DirectCall} {before middle after : List Declaration}

theorem refl (hsigned : Signed before) : Adds [] before before where
  signed := hsigned
  kept := List.Subset.refl _
  made := fun _ hdeclaration => Or.inl hdeclaration
  declared := by simp

theorem trans (hfirst : Adds calls before middle) (hsecond : Adds more middle after) :
    Adds (calls ++ more) before after where
  signed := hsecond.signed
  kept := List.Subset.trans hfirst.kept hsecond.kept
  made := by
    intro declaration hdeclaration
    rcases hsecond.made declaration hdeclaration with hmiddle | hfixed | ⟨call, hcall, heq⟩
    · rcases hfirst.made declaration hmiddle with hbefore | hfixed | ⟨call, hcall, heq⟩
      · exact Or.inl hbefore
      · exact Or.inr (Or.inl hfixed)
      · exact Or.inr (Or.inr ⟨call, List.mem_append_left _ hcall, heq⟩)
    · exact Or.inr (Or.inl hfixed)
    · exact Or.inr (Or.inr ⟨call, List.mem_append_right _ hcall, heq⟩)
  declared := by
    intro call hcall
    rcases List.mem_append.mp hcall with hcall | hcall
    · have hdeclared := hfirst.declared call hcall
      exact ⟨hdeclared.1, hsecond.kept hdeclared.2⟩
    · exact hsecond.declared call hcall

theorem congr (hadds : Adds calls before after) (hsame : ∀ call, call ∈ more ↔ call ∈ calls) :
    Adds more before after where
  signed := hadds.signed
  kept := hadds.kept
  made := by simpa only [hsame] using hadds.made
  declared := fun call hcall => hadds.declared call ((hsame call).mp hcall)

end Adds

structure Gains (calls : List DirectCall) (before after : ExpressionEmitter) : Prop where
  adds : Adds calls before.declarations after.declarations
  lines : ∃ lines, after.body = before.body ++ lines ∧ Covers lines after.declarations

namespace Gains

variable {calls more : List DirectCall} {before middle after : ExpressionEmitter}

theorem trans (hfirst : Gains calls before middle) (hsecond : Gains more middle after) :
    Gains (calls ++ more) before after where
  adds := hfirst.adds.trans hsecond.adds
  lines := by
    obtain ⟨lines, hbody, hcovers⟩ := hfirst.lines
    obtain ⟨lines', hbody', hcovers'⟩ := hsecond.lines
    refine ⟨lines ++ lines', ?_, covers_append.mpr ⟨hcovers.mono hsecond.adds.kept, hcovers'⟩⟩
    rw [hbody', hbody, List.append_assoc]

theorem of_lines {lines : List Line} (hsigned : Signed before.declarations)
    (hdeclarations : after.declarations = before.declarations)
    (hbody : after.body = before.body ++ lines) (hcovers : Covers lines before.declarations) :
    Gains [] before after where
  adds := by rw [hdeclarations]; exact .refl hsigned
  lines := ⟨lines, hbody, hdeclarations ▸ hcovers⟩

theorem of_eq (hsigned : Signed before.declarations)
    (hdeclarations : after.declarations = before.declarations) (hbody : after.body = before.body) :
    Gains [] before after :=
  of_lines hsigned hdeclarations (by rw [hbody, List.append_nil]) covers_nil

end Gains

variable {emitter : ExpressionEmitter} {declaration : Declaration}

theorem declare_signed (hsigned : Signed emitter.declarations) (hnew : IsSigned declaration) :
    Signed (emitter.declare declaration).declarations ∧
      ∀ other, other ∈ (emitter.declare declaration).declarations ↔
        other ∈ emitter.declarations ∨ other = declaration := by
  unfold ExpressionEmitter.declare
  split
  · rename_i hany
    obtain ⟨declared, hdeclared, hkey⟩ := List.any_eq_true.mp hany
    have hplain := (hsigned.signed declared hdeclared).plain
    obtain rfl : declared = declaration := key_injective hplain hnew.plain (by simpa using hkey)
    refine ⟨hsigned, fun other => ⟨Or.inl, ?_⟩⟩
    rintro (hother | rfl)
    · exact hother
    · exact hdeclared
  · rename_i hany
    have hfresh : declaration ∉ emitter.declarations := by
      intro hmem
      exact hany (List.any_eq_true.mpr ⟨declaration, hmem, by simp⟩)
    refine ⟨⟨?_, ?_⟩, fun other => by simp⟩
    · intro other hother
      rcases List.mem_append.mp hother with hother | hother
      · exact hsigned.signed other hother
      · rw [List.mem_singleton.mp hother]
        exact hnew
    · exact List.nodup_append.mpr ⟨hsigned.nodup, List.nodup_singleton _,
        fun a ha b hb heq => hfresh (by rw [← List.mem_singleton.mp hb, ← heq]; exact ha)⟩

inductive IsNew (declaration : Declaration) : List DirectCall → Prop
  | fixed (hfixed : IsFixed declaration) : IsNew declaration []
  | direct {call : DirectCall} (hsymbol : call.symbol ∈ directSymbols)
      (heq : call.declaration = declaration) : IsNew declaration [call]

theorem declare_adds {calls : List DirectCall} (hsigned : Signed emitter.declarations)
    (hnew : IsNew declaration calls) :
    Adds calls emitter.declarations (emitter.declare declaration).declarations := by
  cases hnew with
  | fixed hfixed =>
      obtain ⟨hafter, hmem⟩ := declare_signed hsigned (Or.inl hfixed)
      refine ⟨hafter, fun other hother => (hmem other).mpr (Or.inl hother), fun other hother => ?_,
        by simp⟩
      rcases (hmem other).mp hother with hold | rfl
      · exact Or.inl hold
      · exact Or.inr (Or.inl hfixed)
  | @direct call hsymbol heq =>
      obtain ⟨hafter, hmem⟩ := declare_signed hsigned (Or.inr ⟨call, hsymbol, heq⟩)
      refine ⟨hafter, fun other hother => (hmem other).mpr (Or.inl hother), fun other hother => ?_,
        fun made hmade => ?_⟩
      · rcases (hmem other).mp hother with hold | rfl
        · exact Or.inl hold
        · exact Or.inr (Or.inr ⟨call, List.mem_singleton_self _, heq⟩)
      · rw [List.mem_singleton.mp hmade]
        exact ⟨hsymbol, (hmem _).mpr (Or.inr heq)⟩

theorem mem_declare {calls : List DirectCall} (hsigned : Signed emitter.declarations)
    (hnew : IsNew declaration calls) :
    declaration ∈ (emitter.declare declaration).declarations := by
  have hnewSigned : IsSigned declaration := by
    cases hnew with
    | fixed hfixed => exact Or.inl hfixed
    | direct hsymbol heq => exact Or.inr ⟨_, hsymbol, heq⟩
  exact ((declare_signed hsigned hnewSigned).2 declaration).mpr (Or.inr rfl)

theorem declare_gains {emitted : ExpressionEmitter} {calls : List DirectCall} {lines : List Line}
    (hsigned : Signed emitter.declarations) (hnew : IsNew declaration calls)
    (hdeclarations : emitted.declarations = (emitter.declare declaration).declarations)
    (hbody : emitted.body = emitter.body ++ lines)
    (hlines : ∀ line ∈ lines, line.declaration? = some declaration ∨ line.declaration? = none) :
    Gains calls emitter emitted := by
  refine ⟨hdeclarations ▸ declare_adds hsigned hnew, lines, hbody, ?_⟩
  intro line hline needed hneeded
  rcases hlines line hline with hcall | hnone
  · have heq : declaration = needed := Option.some.inj (hcall.symm.trans hneeded)
    rw [← heq, hdeclarations]
    exact mem_declare hsigned hnew
  · rw [hnone] at hneeded
    cases hneeded

def Signs {σ : Type} [HasExpressions σ] (tables tables' : StdlibTables)
    (action : StateT σ (Except EmitError) α) (post : α → Prop) (calls : List DirectCall) : Prop :=
  ∀ emitter value emitted, (expressions emitter).stdlibTables = tables →
    Signed (expressions emitter).declarations → action emitter = .ok (value, emitted) →
      (expressions emitted).stdlibTables = tables' ∧ post value ∧
        Gains calls (expressions emitter) (expressions emitted)

abbrev Makes {σ : Type} [HasExpressions σ] (tables : StdlibTables)
    (action : StateT σ (Except EmitError) α) (calls : List DirectCall) : Prop :=
  Signs tables tables action (fun _ => True) calls

namespace Signs

section Rules

variable {σ : Type} [HasExpressions σ] {tables tables' tables'' : StdlibTables}
  {action : StateT σ (Except EmitError) α} {next : α → StateT σ (Except EmitError) β}
  {post : α → Prop} {post' : β → Prop} {calls more : List DirectCall}

theorem step (haction : Signs tables tables' action post calls)
    (hnext : ∀ value, post value → Signs tables' tables'' (next value) post' more) :
    Signs tables tables'' (action >>= next) post' (calls ++ more) := by
  intro emitter result emitted htables hsigned hrun
  obtain ⟨value, middle, hfirst, hsecond⟩ := bind_eq_ok.mp hrun
  obtain ⟨hmiddle, hvalue, hgains⟩ := haction _ _ _ htables hsigned hfirst
  obtain ⟨hemitted, hresult, hgains'⟩ := hnext value hvalue _ _ _ hmiddle hgains.adds.signed hsecond
  exact ⟨hemitted, hresult, hgains.trans hgains'⟩

theorem fixed (haction : Signs tables tables' action post calls)
    (hnext : ∀ value, post value → Signs tables' tables'' (next value) post' []) :
    Signs tables tables'' (action >>= next) post' calls := by
  have hstep := haction.step hnext
  rwa [List.append_nil] at hstep

theorem done {value : α} (hpost : post value) :
    Signs tables tables (Pure.pure value : StateT σ (Except EmitError) α) post [] := by
  intro emitter result emitted htables hsigned hrun
  simp only [pure_eq_ok, Prod.mk.injEq] at hrun
  obtain ⟨rfl, rfl⟩ := hrun
  exact ⟨htables, hpost, .of_eq hsigned rfl rfl⟩

theorem fail {message : String} :
    Signs tables tables' (Backend.fail message : StateT σ (Except EmitError) α) post calls :=
  fun _ _ _ _ _ hrun => absurd hrun fail_ne_ok

theorem congr (haction : Signs tables tables' action post calls)
    (hsame : ∀ call, call ∈ more ↔ call ∈ calls) : Signs tables tables' action post more := by
  intro emitter value emitted htables hsigned hrun
  obtain ⟨hemitted, hvalue, hgains⟩ := haction _ _ _ htables hsigned hrun
  exact ⟨hemitted, hvalue, hgains.adds.congr hsame, hgains.lines⟩

theorem withDiagnostic {pos : SourcePos} (haction : Signs tables tables' action post calls) :
    Signs tables tables' (withDiagnostic pos action) post calls :=
  fun emitter value emitted htables hsigned hrun =>
    haction emitter value emitted htables hsigned (withDiagnostic_eq_ok.mp hrun)

theorem get {next : σ → StateT σ (Except EmitError) β}
    (hnext : ∀ emitter, (expressions emitter).stdlibTables = tables →
      Signs tables tables' (next emitter) post' calls) :
    Signs tables tables' (MonadState.get >>= next) post' calls := by
  intro emitter result emitted htables hsigned hrun
  obtain ⟨value, middle, hget, hsecond⟩ := bind_eq_ok.mp hrun
  obtain ⟨rfl, rfl⟩ := by simpa only [get_eq_ok, Prod.mk.injEq] using hget
  exact hnext emitter htables _ _ _ htables hsigned hsecond

theorem unless_fail {condition : Prop} [Decidable condition] {message : String}
    (haction : ¬condition → Signs tables tables' action post calls) :
    Signs tables tables' (do
      if condition then Backend.fail message
      action) post calls := by
  intro emitter value emitted htables hsigned hrun
  obtain ⟨hcondition, hrun⟩ := unless_fail_run hrun
  exact haction hcondition _ _ _ htables hsigned hrun

theorem changes {change : σ → σ}
    (htables : ∀ emitter,
      (expressions (change emitter)).stdlibTables = (expressions emitter).stdlibTables)
    (hdeclarations : ∀ emitter,
      (expressions (change emitter)).declarations = (expressions emitter).declarations)
    (hbody : ∀ emitter, (expressions (change emitter)).body = (expressions emitter).body) :
    Makes tables (modify change : StateT σ (Except EmitError) Unit) [] := by
  intro emitter result emitted hbefore hsigned hrun
  simp only [modify_eq_ok, Prod.mk.injEq] at hrun
  obtain ⟨-, rfl⟩ := hrun
  exact ⟨(htables emitter).trans hbefore, trivial,
    .of_eq hsigned (hdeclarations emitter) (hbody emitter)⟩

theorem forM {items : List α} {body : α → StateT σ (Except EmitError) Unit}
    {itemCalls : α → List DirectCall}
    (hbody : ∀ item ∈ items, Makes tables (body item) (itemCalls item)) :
    Makes tables (items.forM body) (items.flatMap itemCalls) := by
  induction items with
  | nil => exact done trivial
  | cons item rest ih =>
      rw [List.forall_mem_cons] at hbody
      rw [List.flatMap_cons]
      exact hbody.1.step fun _ _ => ih hbody.2

theorem forM_fixed {items : List α} {body : α → StateT σ (Except EmitError) Unit}
    (hbody : ∀ item ∈ items, Makes tables (body item) []) : Makes tables (items.forM body) [] := by
  have hall := forM hbody
  rwa [List.flatMap_eq_nil_iff.mpr fun _ _ => rfl] at hall

end Rules

theorem expr {tables tables' : StdlibTables} {action : ExprM α} {post : α → Prop}
    {calls : List DirectCall} (haction : Signs tables tables' action post calls) :
    Signs tables tables' (Backend.expr action) post calls := by
  intro emitter value emitted htables hsigned hrun
  unfold Backend.expr at hrun
  split at hrun
  · rename_i result expressions hresult
    obtain ⟨rfl, rfl⟩ := by simpa using hrun
    exact haction _ _ _ htables hsigned hresult
  · simp at hrun

end Signs

end Jayess.Backend
