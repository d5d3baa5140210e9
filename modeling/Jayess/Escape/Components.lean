import Jayess.Escape.Marks

/-!
# The names that escape, as components
-/

namespace Jayess.Escape

open Relation

section Spread

variable {Name : Type*} {marked : Name → Prop} {link link' : Name → Name → Prop}
  {first second name : Name}

/-- The names that the links lead to from a marked name. -/
def Spread (marked : Name → Prop) (link : Name → Name → Prop) (name : Name) : Prop :=
  ∃ start, marked start ∧ ReflTransGen link start name

theorem spread_mono (hmarked : ∀ start, marked start → Spread marked link' start)
    (hlink : ∀ first second, link first second → link' first second)
    (hspread : Spread marked link name) : Spread marked link' name := by
  obtain ⟨start, hstart, hpath⟩ := hspread
  obtain ⟨start', hstart', hpath'⟩ := hmarked start hstart
  exact ⟨start', hstart', hpath'.trans (ReflTransGen.mono hlink _ _ hpath)⟩

theorem Spread.trans (hspread : Spread marked link first)
    (hpath : ReflTransGen link first second) : Spread marked link second := by
  obtain ⟨start, hstart, hstarted⟩ := hspread
  exact ⟨start, hstart, hstarted.trans hpath⟩

theorem spread_link_of_not (hfirst : ¬Spread marked link first)
    (hsecond : ¬Spread marked link second)
    (hlink : ∀ left right, link' left right → link left right ∨
      left = first ∧ right = second ∨ left = second ∧ right = first)
    (hspread : Spread marked link' name) : Spread marked link name := by
  obtain ⟨start, hstart, hpath⟩ := hspread
  induction hpath with
  | refl => exact ⟨start, hstart, .refl⟩
  | tail _ hstep ih =>
      rcases hlink _ _ hstep with hold | ⟨rfl, _⟩ | ⟨rfl, _⟩
      · exact ih.trans (.single hold)
      · exact absurd ih hfirst
      · exact absurd ih hsecond

theorem spread_link_iff (hends : Spread marked link first ∨ Spread marked link second)
    (hmono : ∀ left right, link left right → link' left right)
    (hforward : link' first second) (hback : link' second first)
    (hlink : ∀ left right, link' left right → link left right ∨
      left = first ∧ right = second ∨ left = second ∧ right = first) :
    Spread marked link' name ↔
      (Spread marked link name ∨ ReflTransGen link' first name) ∨
        ReflTransGen link' second name := by
  have hgrown : ∀ {name}, Spread marked link name → Spread marked link' name :=
    spread_mono (fun start hstart => ⟨start, hstart, .refl⟩) hmono
  have hboth : Spread marked link' first ∧ Spread marked link' second := by
    rcases hends with hend | hend
    · exact ⟨hgrown hend, (hgrown hend).trans (.single hforward)⟩
    · exact ⟨(hgrown hend).trans (.single hback), hgrown hend⟩
  constructor
  · rintro ⟨start, hstart, hpath⟩
    induction hpath with
    | refl => exact .inl (.inl ⟨start, hstart, .refl⟩)
    | tail _ hstep ih =>
        rcases ih with (hspread | hfirst) | hsecond
        · rcases hlink _ _ hstep with hold | ⟨rfl, rfl⟩ | ⟨rfl, rfl⟩
          · exact .inl (.inl (hspread.trans (.single hold)))
          · exact .inr .refl
          · exact .inl (.inr .refl)
        · exact .inl (.inr (hfirst.tail hstep))
        · exact .inr (hsecond.tail hstep)
  · rintro ((hspread | hfirst) | hsecond)
    · exact hgrown hspread
    · exact hboth.1.trans hfirst
    · exact hboth.2.trans hsecond

end Spread

/-- Two names are linked by a call, in one direction or the other. -/
def Linked (calls : List Mark) (first second : String) : Prop :=
  first ≠ "" ∧ second ≠ "" ∧ (.link first second ∈ calls ∨ .link second first ∈ calls)

def MarkedBy (calls : List Mark) (name : String) : Prop := name ≠ "" ∧ .escape name ∈ calls

/-- The names of the components that hold a marked name. -/
def Component (calls : List Mark) (name : String) : Prop :=
  Spread (MarkedBy calls) (Linked calls) name

structure Holds (calls : List Mark) (report : Report) : Prop where
  aliases : ∀ first second, (first, second) ∈ report.aliases ↔
    first ≠ second ∧ Linked calls first second
  escaped : ∀ name, name ∈ report.escaped ↔ Component calls name

section Calls

variable {order : AliasOrder} {calls more : List Mark} {report : Report} {name other : String}

theorem holds_new : Holds [] .new where
  aliases first second := by simp [Report.new, Linked]
  escaped name := by
    refine ⟨fun hname => absurd hname List.not_mem_nil, ?_⟩
    rintro ⟨start, hstart, _⟩
    exact absurd hstart.2 List.not_mem_nil

theorem reflTransGen_aliased
    (haliases : ∀ first second, (first, second) ∈ report.aliases ↔
      first ≠ second ∧ Linked calls first second) :
    ReflTransGen report.Aliased name other ↔ ReflTransGen (Linked calls) name other := by
  constructor
  · intro hpath
    refine ReflTransGen.mono (fun first second hstep => ?_) _ _ hpath
    exact ((haliases first second).mp hstep.1).2
  · intro hpath
    induction hpath with
    | refl => exact .refl
    | @tail middle last _ hstep ih =>
        by_cases heq : middle = last
        · rwa [← heq]
        · exact ih.tail ⟨(haliases middle last).mpr ⟨heq, hstep⟩, hstep.2.1⟩

theorem linked_append : Linked (calls ++ more) name other ↔
    Linked calls name other ∨ Linked more name other := by
  simp only [Linked, List.mem_append]
  tauto

theorem Holds.escape (hholds : Holds calls report) (name : String) :
    Holds (calls ++ [.escape name]) (report.markEscaping order name) := by
  have hlinked : Linked (calls ++ [.escape name]) = Linked calls := by
    funext first second
    rw [eq_iff_iff, linked_append]
    simp [Linked]
  constructor
  · intro first second
    rw [Report.aliases_markEscaping, hlinked]
    exact hholds.aliases first second
  · intro other
    rw [Report.mem_markEscaping, hholds.escaped, Component, Component, hlinked, Report.Reaches,
      reflTransGen_aliased hholds.aliases]
    constructor
    · rintro (⟨start, hstart, hpath⟩ | ⟨hne, hpath⟩)
      · exact ⟨start, ⟨hstart.1, List.mem_append_left _ hstart.2⟩, hpath⟩
      · exact ⟨name, ⟨hne, List.mem_append_right _ (List.mem_singleton_self _)⟩, hpath⟩
    · rintro ⟨start, ⟨hne, hstart⟩, hpath⟩
      rcases List.mem_append.mp hstart with hstart | hstart
      · exact .inl ⟨start, ⟨hne, hstart⟩, hpath⟩
      · obtain rfl : start = name := by simpa using hstart
        exact .inr ⟨hne, hpath⟩

theorem Holds.skip (hholds : Holds calls report) {first second : String}
    (hskip : first = "" ∨ second = "" ∨ first = second) :
    Holds (calls ++ [.link first second]) report := by
  have hmarked : MarkedBy (calls ++ [.link first second]) = MarkedBy calls := by
    funext name
    simp [MarkedBy]
  have hlinked : ∀ left right, Linked (calls ++ [.link first second]) left right →
      Linked calls left right ∨ left = right := by
    intro left right hlink
    rcases linked_append.mp hlink with hold | ⟨hfrom, hto, hnew⟩
    · exact .inl hold
    · simp only [List.mem_singleton, Mark.link.injEq] at hnew
      grind
  constructor
  · intro left right
    rw [hholds.aliases, linked_append]
    refine and_congr_right fun hne => ⟨.inl, fun hlink => ?_⟩
    exact (hlinked left right (linked_append.mpr hlink)).resolve_right hne
  · intro name
    rw [hholds.escaped, Component, Component, hmarked]
    constructor
    · exact spread_mono (fun start hstart => ⟨start, hstart, .refl⟩)
        fun _ _ hlink => linked_append.mpr (.inl hlink)
    · rintro ⟨start, hstart, hpath⟩
      refine ⟨start, hstart, ?_⟩
      induction hpath with
      | refl => exact .refl
      | tail _ hstep ih =>
          rcases hlinked _ _ hstep with hold | rfl
          · exact ih.tail hold
          · exact ih

theorem Holds.link (hholds : Holds calls report) (first second : String) :
    Holds (calls ++ [.link first second]) (report.addAlias order first second) := by
  unfold Report.addAlias
  by_cases hskip : first = "" ∨ second = "" ∨ first = second
  · rw [if_pos hskip]
    exact hholds.skip hskip
  rw [if_neg hskip]
  rw [not_or, not_or] at hskip
  obtain ⟨hfirst, hsecond, hne⟩ := hskip
  set grown : Report :=
    { report with aliases := (first, second) :: (second, first) :: report.aliases } with hgrown
  have hmarked : MarkedBy (calls ++ [.link first second]) = MarkedBy calls := by
    funext name
    simp [MarkedBy]
  have hlinked : ∀ left right, Linked (calls ++ [.link first second]) left right ↔
      Linked calls left right ∨ left = first ∧ right = second ∨ left = second ∧ right = first := by
    intro left right
    rw [linked_append]
    refine or_congr_right ?_
    simp only [Linked, List.mem_singleton, Mark.link.injEq]
    grind
  have haliases : ∀ left right, (left, right) ∈ grown.aliases ↔
      left ≠ right ∧ Linked (calls ++ [.link first second]) left right := by
    intro left right
    rw [hlinked]
    simp only [hgrown, List.mem_cons, Prod.mk.injEq, hholds.aliases]
    grind
  have hescapes : ∀ name, grown.escapes name = true ↔ Component calls name := by
    intro name
    rw [Report.escapes, List.contains_iff_mem]
    exact hholds.escaped name
  have hsplit := fun left right => (hlinked left right).mp
  dsimp only
  split
  · rename_i hends
    rw [hescapes, hescapes] at hends
    refine ⟨fun left right => ?_, fun name => ?_⟩
    · rw [Report.aliases_markEscaping, Report.aliases_markEscaping]
      exact haliases left right
    · rw [Report.mem_markEscaping, Report.mem_markEscaping,
        Report.reaches_congr Report.aliases_markEscaping, Report.Reaches, Report.Reaches,
        reflTransGen_aliased haliases, reflTransGen_aliased haliases, Component, hmarked,
        spread_link_iff hends (fun left right hlink => (hlinked left right).mpr (.inl hlink))
          ((hlinked first second).mpr (.inr (.inl ⟨rfl, rfl⟩)))
          ((hlinked second first).mpr (.inr (.inr ⟨rfl, rfl⟩))) hsplit]
      simp only [hfirst, hsecond, ne_eq, not_false_eq_true, true_and]
      rw [show grown.escaped = report.escaped from rfl, hholds.escaped]
      rfl
  · rename_i hends
    rw [hescapes, hescapes, not_or] at hends
    refine ⟨haliases, fun name => ?_⟩
    rw [show grown.escaped = report.escaped from rfl, hholds.escaped, Component, Component, hmarked]
    refine ⟨spread_mono (fun start hstart => ⟨start, hstart, .refl⟩)
      fun left right hlink => (hlinked left right).mpr (.inl hlink), ?_⟩
    exact spread_link_of_not hends.1 hends.2 hsplit

theorem Holds.apply (hholds : Holds calls report) (call : Mark) :
    Holds (calls ++ [call]) (call.apply order report) := by
  cases call with
  | escape name => exact hholds.escape name
  | link first second => exact hholds.link first second

theorem Holds.replay (hholds : Holds calls report) (more : List Mark) :
    Holds (calls ++ more) (replay order report more) := by
  induction more generalizing calls report with
  | nil => rwa [List.append_nil]
  | cons call more ih =>
      have happlied : Holds (calls ++ [call]) (call.apply order report) := hholds.apply call
      have hrest := ih happlied
      rwa [List.append_assoc, List.singleton_append] at hrest

theorem component_perm {calls' : List Mark} (hperm : calls.Perm calls') :
    Component calls name ↔ Component calls' name := by
  have hmarked : MarkedBy calls = MarkedBy calls' := by
    funext name
    rw [MarkedBy, MarkedBy, hperm.mem_iff]
  have hlinked : Linked calls = Linked calls' := by
    funext first second
    rw [Linked, Linked, hperm.mem_iff, hperm.mem_iff]
  rw [Component, Component, hmarked, hlinked]

end Calls

/-- The names that escape after any calls, in any order and by any order of the aliases, are those
connected with a name that was marked. -/
theorem escaped_iff_component (order : AliasOrder) (calls : List Mark) (name : String) :
    ((replay order .new calls).escapes name = true ↔ Component calls name) ∧
      ∀ order' calls', calls.Perm calls' →
        (replay order' .new calls').escapes name = (replay order .new calls).escapes name := by
  have hescapes : ∀ (order : AliasOrder) calls,
      (replay order .new calls).escapes name = true ↔ Component calls name := by
    intro order calls
    rw [Report.escapes, List.contains_iff_mem]
    exact (holds_new.replay calls).escaped name
  refine ⟨hescapes order calls, fun order' calls' hperm => ?_⟩
  rw [Bool.eq_iff_iff, hescapes, hescapes]
  exact (component_perm hperm).symm

/-- The graph of all the calls, those with an empty name too. -/
def Called (calls : List Mark) (first second : String) : Prop :=
  .link first second ∈ calls ∨ .link second first ∈ calls

/-- A name linked with a marked one through the empty name does not escape. -/
theorem empty_name_links_nothing :
    ¬∀ (order : AliasOrder) (calls : List Mark) (name : String),
      (replay order .new calls).escapes name = true ↔
        Spread (fun start => .escape start ∈ calls) (Called calls) name := by
  intro hclaim
  have hspread : Spread (fun start => Mark.escape start ∈ [.link "a" "", .link "" "b", .escape "a"])
      (Called [.link "a" "", .link "" "b", .escape "a"]) "b" := by
    have hfirst : Called [.link "a" "", .link "" "b", .escape "a"] "a" "" := .inl (by simp)
    have hsecond : Called [.link "a" "", .link "" "b", .escape "a"] "" "b" := .inl (by simp)
    exact ⟨"a", by simp, .tail (.single hfirst) hsecond⟩
  have hescapes := (hclaim .listed [.link "a" "", .link "" "b", .escape "a"] "b").mpr hspread
  revert hescapes
  decide

end Jayess.Escape
