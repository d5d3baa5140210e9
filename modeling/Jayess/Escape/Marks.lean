import Mathlib.Logic.Relation
import Jayess.Escape.Analysis

/-!
# What the escape analysis marks

Marking a name marks what its aliases lead to, in whatever order the aliases come, and the walk over
a program is a list of marks that depends on no report.
-/

namespace Jayess.Escape

open Relation

/-! ## Marking along aliases -/

namespace Report

def Aliased (report : Report) (name other : String) : Prop :=
  (name, other) ∈ report.aliases ∧ other ≠ ""

/-- The names that are marked with a name. -/
def Reaches (report : Report) (name other : String) : Prop :=
  name ≠ "" ∧ ReflTransGen report.Aliased name other

def targets (report : Report) : List String := (report.aliases.map Prod.snd).dedup

def unseen (report : Report) (seen : List String) : List String :=
  report.targets.filter fun name => name ∉ seen

/-- Between two states of the marking, the names and what they reach were met. -/
structure Marked (before : Report × List String) (names : List String)
    (after : Report × List String) : Prop where
  aliases : after.1.aliases = before.1.aliases
  grows : before.2 ⊆ after.2
  escaped : ∀ name, name ∈ after.1.escaped ↔
    name ∈ before.1.escaped ∨ name ∈ after.2 ∧ name ∉ before.2
  met : ∀ name ∈ names, name ≠ "" → name ∈ after.2
  reached : ∀ name ∈ after.2, name ∉ before.2 → ∃ start ∈ names, before.1.Reaches start name
  closed : ∀ name ∈ after.2, name ∉ before.2 → ∀ other, before.1.Aliased name other →
    other ∈ after.2

section Marked

variable {order : AliasOrder} {report : Report} {before middle after : Report × List String}
  {names more : List String} {name other : String}

theorem mem_aliasesOf : other ∈ report.aliasesOf name ↔ (name, other) ∈ report.aliases := by
  simp [aliasesOf]

theorem mem_targets (hmem : (name, other) ∈ report.aliases) : other ∈ report.targets :=
  List.mem_dedup.mpr (List.mem_map.mpr ⟨_, hmem, rfl⟩)

theorem Marked.nil : Marked before [] before where
  aliases := rfl
  grows := List.Subset.refl _
  escaped name := by simp
  met name hname := by simp at hname
  reached name hname hnew := absurd hname hnew
  closed name hname hnew := absurd hname hnew

theorem Marked.skip (hskip : name = "" ∨ name ∈ before.2) : Marked before [name] before :=
  { Marked.nil with
    met := by
      intro other hother hne
      rw [List.mem_singleton.mp hother] at hne ⊢
      exact hskip.resolve_left hne
    reached := fun name hname hnew => absurd hname hnew }

theorem reaches_congr {report' : Report} (haliases : report'.aliases = report.aliases) :
    report'.Reaches name other ↔ report.Reaches name other := by
  have hrelation : report'.Aliased = report.Aliased := by
    funext first second
    rw [Aliased, Aliased, haliases]
  rw [Reaches, Reaches, hrelation]

theorem Marked.append (hfirst : Marked before names middle) (hsecond : Marked middle more after) :
    Marked before (names ++ more) after where
  aliases := hsecond.aliases.trans hfirst.aliases
  grows := List.Subset.trans hfirst.grows hsecond.grows
  escaped name := by
    rw [hsecond.escaped, hfirst.escaped]
    have hgrows := @hfirst.grows name
    have hgrows' := @hsecond.grows name
    tauto
  met name hname hne := by
    rcases List.mem_append.mp hname with hname | hname
    · exact hsecond.grows (hfirst.met name hname hne)
    · exact hsecond.met name hname hne
  reached name hname hnew := by
    by_cases hmiddle : name ∈ middle.2
    · obtain ⟨start, hstart, hreaches⟩ := hfirst.reached name hmiddle hnew
      exact ⟨start, List.mem_append_left _ hstart, hreaches⟩
    · obtain ⟨start, hstart, hreaches⟩ := hsecond.reached name hname hmiddle
      exact ⟨start, List.mem_append_right _ hstart, (reaches_congr hfirst.aliases).mp hreaches⟩
  closed name hname hnew other haliased := by
    by_cases hmiddle : name ∈ middle.2
    · exact hsecond.grows (hfirst.closed name hmiddle hnew other haliased)
    · refine hsecond.closed name hname hmiddle other ⟨?_, haliased.2⟩
      rw [hfirst.aliases]
      exact haliased.1

theorem Marked.enter {seen aliases : List String}
    (hrest : Marked ({ report with escaped := name :: report.escaped }, name :: seen) aliases after)
    (hne : name ≠ "") (hnew : name ∉ seen)
    (haliases : ∀ other, other ∈ aliases ↔ (name, other) ∈ report.aliases) :
    Marked (report, seen) [name] after where
  aliases := hrest.aliases
  grows := fun other hother => hrest.grows (List.mem_cons_of_mem _ hother)
  escaped other := by
    rw [hrest.escaped]
    by_cases heq : other = name
    · subst heq
      simp [hnew, hrest.grows List.mem_cons_self]
    · simp [heq]
  met other hother _ := by
    rw [List.mem_singleton.mp hother]
    exact hrest.grows List.mem_cons_self
  reached other hother hnot := by
    refine ⟨name, List.mem_singleton_self _, ?_⟩
    by_cases heq : other = name
    · subst heq
      exact ⟨hne, .refl⟩
    · obtain ⟨start, hstart, hreaches⟩ := hrest.reached other hother (by simp [heq, hnot])
      exact ⟨hne, .head ⟨(haliases start).mp hstart, hreaches.1⟩ hreaches.2⟩
  closed other hother hnot next haliased := by
    by_cases heq : other = name
    · subst heq
      exact hrest.met next ((haliases next).mpr haliased.1) haliased.2
    · exact hrest.closed other hother (by simp [heq, hnot]) next haliased

theorem unseen_le (hmarked : Marked before names after) :
    (after.1.unseen after.2).length ≤ (before.1.unseen before.2).length := by
  have htargets : after.1.targets = before.1.targets := by
    rw [targets, targets, hmarked.aliases]
  rw [unseen, unseen, htargets]
  refine (List.monotone_filter_right _ fun target hnew => ?_).length_le
  have hnew' : target ∉ after.2 := by simpa using hnew
  simpa using fun hold => hnew' (hmarked.grows hold)

theorem unseen_lt (hmem : name ∈ report.targets) {seen : List String} (hnew : name ∉ seen) :
    (report.unseen (name :: seen)).length < (report.unseen seen).length := by
  have hfilter : report.unseen (name :: seen) =
      (report.unseen seen).filter fun other => other ≠ name := by
    rw [unseen, unseen, List.filter_filter]
    refine List.filter_congr fun other _ => ?_
    rw [← Bool.decide_and]
    exact decide_eq_decide.mpr (by simp)
  rw [hfilter]
  refine List.length_filter_lt_length_iff_exists.mpr ⟨name, ?_, by simp⟩
  exact List.mem_filter.mpr ⟨hmem, by simpa using hnew⟩

theorem marked_foldl {rounds : Nat}
    (hvisit : ∀ name (state : Report × List String),
      (name = "" ∨ name ∈ state.2 ∨ (state.1.unseen (name :: state.2)).length < rounds) →
        Marked state [name] (markEscapingSeen order rounds name state))
    (htargets : names ⊆ before.1.targets) (hrounds : (before.1.unseen before.2).length ≤ rounds) :
    Marked before names (names.foldl (fun state other => markEscapingSeen order rounds other state)
      before) := by
  induction names generalizing before with
  | nil => exact .nil
  | cons name names ih =>
      have hname : name ∈ before.1.targets := htargets List.mem_cons_self
      have hfirst : Marked before [name] (markEscapingSeen order rounds name before) := by
        refine hvisit name before ?_
        by_cases hseen : name ∈ before.2
        · exact Or.inr (Or.inl hseen)
        · exact Or.inr (Or.inr (Nat.lt_of_lt_of_le (unseen_lt hname hseen) hrounds))
      refine hfirst.append (ih ?_ (Nat.le_trans (unseen_le hfirst) hrounds))
      intro other hother
      have hmem := htargets (List.mem_cons_of_mem _ hother)
      rwa [targets, hfirst.aliases]

theorem markEscapingSeen_marked (order : AliasOrder) (rounds : Nat) (name : String)
    (state : Report × List String)
    (hrounds : name = "" ∨ name ∈ state.2 ∨ (state.1.unseen (name :: state.2)).length < rounds) :
    Marked state [name] (markEscapingSeen order rounds name state) := by
  induction rounds generalizing name state with
  | zero =>
      refine Marked.skip (hrounds.imp_right fun h => h.resolve_right (Nat.not_lt_zero _))
  | succ rounds ih =>
      obtain ⟨report, seen⟩ := state
      rw [markEscapingSeen]
      by_cases hskip : name = "" ∨ name ∈ seen
      · rw [if_pos hskip]
        exact Marked.skip hskip
      · rw [if_neg hskip]
        rw [not_or] at hskip
        have hopen : (report.unseen (name :: seen)).length ≤ rounds :=
          Nat.le_of_lt_succ ((hrounds.resolve_left hskip.1).resolve_left hskip.2)
        have hperm := order.perm { report with escaped := name :: report.escaped } (name :: seen)
          (report.aliasesOf name).dedup
        have hlisted : ∀ other, other ∈ order.range { report with escaped := name :: report.escaped }
            (name :: seen) (report.aliasesOf name).dedup ↔ (name, other) ∈ report.aliases := by
          intro other
          rw [hperm.mem_iff, List.mem_dedup, mem_aliasesOf]
        refine Marked.enter (marked_foldl ih ?_ hopen) hskip.1 hskip.2 hlisted
        exact fun other hother => mem_targets ((hlisted other).mp hother)

theorem markEscaping_marked (order : AliasOrder) (report : Report) (name : String) :
    Marked (report, []) [name]
      (markEscapingSeen order (report.aliases.length + 1) name (report, [])) := by
  have hfilter : (report.unseen [name]).length ≤ report.targets.length := List.length_filter_le _ _
  have hdedup : report.targets.length ≤ (report.aliases.map Prod.snd).length :=
    (List.dedup_sublist _).length_le
  rw [List.length_map] at hdedup
  have hrounds : (report.unseen [name]).length < report.aliases.length + 1 := by omega
  exact markEscapingSeen_marked order _ name (report, []) (Or.inr (Or.inr hrounds))

theorem mem_markEscaping :
    other ∈ (report.markEscaping order name).escaped ↔
      other ∈ report.escaped ∨ report.Reaches name other := by
  have hmarked := markEscaping_marked order report name
  rw [markEscaping, hmarked.escaped]
  refine or_congr_right ⟨fun hmem => ?_, fun hreaches => ⟨?_, List.not_mem_nil⟩⟩
  · obtain ⟨start, hstart, hreaches⟩ := hmarked.reached other hmem.1 List.not_mem_nil
    rwa [List.mem_singleton.mp hstart] at hreaches
  · obtain ⟨hne, hpath⟩ := hreaches
    induction hpath with
    | refl => exact hmarked.met name (List.mem_singleton_self _) hne
    | tail _ haliased ih => exact hmarked.closed _ ih List.not_mem_nil _ haliased

theorem aliases_markEscaping : (report.markEscaping order name).aliases = report.aliases :=
  (markEscaping_marked order report name).aliases

end Marked

structure Same (first second : Report) : Prop where
  aliases : first.aliases = second.aliases
  escaped : ∀ name, name ∈ first.escaped ↔ name ∈ second.escaped

section Same

variable {order order' : AliasOrder} {first second : Report}

theorem Same.refl (report : Report) : report.Same report := ⟨rfl, fun _ => Iff.rfl⟩

theorem Same.escapes (hsame : first.Same second) (name : String) :
    first.escapes name = second.escapes name := by
  rw [Bool.eq_iff_iff, Report.escapes, Report.escapes, List.contains_iff_mem, List.contains_iff_mem]
  exact hsame.escaped name

theorem Same.markEscaping (hsame : first.Same second) (name : String) :
    (first.markEscaping order name).Same (second.markEscaping order' name) where
  aliases := by
    rw [aliases_markEscaping, aliases_markEscaping]
    exact hsame.aliases
  escaped other := by
    rw [mem_markEscaping, mem_markEscaping, reaches_congr hsame.aliases, hsame.escaped]

theorem Same.addAlias (hsame : first.Same second) (name other : String) :
    (first.addAlias order name other).Same (second.addAlias order' name other) := by
  unfold Report.addAlias
  by_cases hnone : name = "" ∨ other = "" ∨ name = other
  · rw [if_pos hnone, if_pos hnone]
    exact hsame
  · rw [if_neg hnone, if_neg hnone]
    have hadded : Same { first with aliases := (name, other) :: (other, name) :: first.aliases }
        { second with aliases := (name, other) :: (other, name) :: second.aliases } :=
      ⟨by rw [hsame.aliases], hsame.escaped⟩
    simp only [hadded.escapes]
    split
    · exact (hadded.markEscaping name).markEscaping other
    · exact hadded

end Same

end Report

/-- What the analysis does to the report. -/
inductive Mark where
  | escape (name : String)
  | link (first second : String)
deriving DecidableEq, Repr

def Mark.apply (order : AliasOrder) (report : Report) : Mark → Report
  | .escape name => report.markEscaping order name
  | .link first second => report.addAlias order first second

def replay (order : AliasOrder) (report : Report) (marks : List Mark) : Report :=
  marks.foldl (Mark.apply order) report

section Replay

variable {order order' : AliasOrder} {first second report : Report}

theorem Report.Same.apply (hsame : first.Same second) (mark : Mark) :
    (mark.apply order first).Same (mark.apply order' second) := by
  cases mark with
  | escape name => exact hsame.markEscaping name
  | link name other => exact hsame.addAlias name other

theorem Report.Same.replay (hsame : first.Same second) (marks : List Mark) :
    (replay order first marks).Same (replay order' second marks) := by
  induction marks generalizing first second with
  | nil => exact hsame
  | cons mark marks ih => exact ih (hsame.apply mark)

theorem escaped_apply (mark : Mark) : report.escaped ⊆ (mark.apply order report).escaped := by
  intro name hname
  cases mark with
  | escape other => exact Report.mem_markEscaping.mpr (Or.inl hname)
  | link first second =>
      rw [Mark.apply, Report.addAlias]
      split
      · exact hname
      · dsimp only
        split
        · exact Report.mem_markEscaping.mpr (Or.inl (Report.mem_markEscaping.mpr (Or.inl hname)))
        · exact hname

theorem escaped_replay (marks : List Mark) :
    report.escaped ⊆ (replay order report marks).escaped := by
  induction marks generalizing report with
  | nil => exact List.Subset.refl _
  | cons mark marks ih => exact List.Subset.trans (escaped_apply mark) ih

theorem replay_append (marks more : List Mark) :
    replay order report (marks ++ more) = replay order (replay order report marks) more :=
  List.foldl_append

end Replay

def Acts (walk : AliasOrder → Report → Report) : Prop :=
  ∃ marks, ∀ order report, walk order report = replay order report marks

def ActsScoped (walk : AliasOrder → Report × Scope → Report × Scope) : Prop :=
  ∀ scope, ∃ marks scope', ∀ order report,
    walk order (report, scope) = (replay order report marks, scope')

section Acts

variable {walk next : AliasOrder → Report → Report}
  {walkScope nextScope : AliasOrder → Report × Scope → Report × Scope}

theorem acts_id : Acts fun _ report => report := ⟨[], fun _ _ => rfl⟩

theorem acts_escape (name : String) : Acts fun order report => report.markEscaping order name :=
  ⟨[.escape name], fun _ _ => rfl⟩

theorem acts_link (first second : String) :
    Acts fun order report => report.addAlias order first second :=
  ⟨[.link first second], fun _ _ => rfl⟩

theorem Acts.andThen (hwalk : Acts walk) (hnext : Acts next) :
    Acts fun order report => next order (walk order report) := by
  obtain ⟨marks, hmarks⟩ := hwalk
  obtain ⟨more, hmore⟩ := hnext
  refine ⟨marks ++ more, fun order report => ?_⟩
  calc next order (walk order report)
      = replay order (walk order report) more := hmore order _
    _ = replay order (replay order report marks) more := by rw [hmarks order report]
    _ = replay order report (marks ++ more) := (replay_append marks more).symm

theorem ActsScoped.andThen (hwalk : ActsScoped walkScope) (hnext : ActsScoped nextScope) :
    ActsScoped fun order state => nextScope order (walkScope order state) := by
  intro scope
  obtain ⟨marks, middle, hmarks⟩ := hwalk scope
  obtain ⟨more, last, hmore⟩ := hnext middle
  refine ⟨marks ++ more, last, fun order report => ?_⟩
  calc nextScope order (walkScope order (report, scope))
      = nextScope order (replay order report marks, middle) := by rw [hmarks order report]
    _ = (replay order (replay order report marks) more, last) := hmore order _
    _ = (replay order report (marks ++ more), last) := by rw [replay_append]

theorem ActsScoped.report (hwalk : ActsScoped walkScope) (scope : Scope) :
    Acts fun order report => (walkScope order (report, scope)).1 := by
  obtain ⟨marks, scope', hmarks⟩ := hwalk scope
  refine ⟨marks, fun order report => ?_⟩
  exact congrArg Prod.fst (hmarks order report)

theorem actsScoped_of {walk : AliasOrder → Scope → Report → Report} (change : Scope → Scope)
    (hwalk : ∀ scope, Acts fun order => walk order scope) :
    ActsScoped fun order state => (walk order state.2 state.1, change state.2) := by
  intro scope
  obtain ⟨marks, hmarks⟩ := hwalk scope
  refine ⟨marks, change scope, fun order report => ?_⟩
  exact congrArg (·, change scope) (hmarks order report)

end Acts

end Jayess.Escape
