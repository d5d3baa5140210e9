import Mathlib.Data.List.Nodup
import Mathlib.Data.List.Infix
import Mathlib.Order.Lattice
import Mathlib.Data.List.Lex

/-! # The order of a tree -/

namespace TreeOrder

section Positions

variable {outer inner first second : List Nat}

def Above (outer inner : List Nat) : Prop := outer <+: inner ∧ outer ≠ inner

theorem lt_append {rest : List Nat} (hne : rest ≠ []) : outer < outer ++ rest := by
  obtain ⟨index, rest, rfl⟩ := List.exists_cons_of_ne_nil hne
  have hlt : outer ++ [] < outer ++ index :: rest := List.append_left_lt (List.nil_lt_cons index rest)
  rwa [List.append_nil] at hlt

theorem Above.lt (habove : Above outer inner) : outer < inner := by
  obtain ⟨⟨rest, rfl⟩, hne⟩ := habove
  refine lt_append ?_
  rintro rfl
  exact hne (List.append_nil outer).symm

theorem Above.trans_prefix (habove : Above outer inner) (hbegins : inner <+: first) : Above outer first := by
  refine ⟨habove.1.trans hbegins, ?_⟩
  rintro rfl
  exact habove.2 (habove.1.eq_of_length_le hbegins.length_le)

theorem lt_of_apart (hlt : outer < inner) (hapart : ¬outer <+: inner) (hfirst : outer <+: first)
    (hsecond : inner <+: second) : first < second := by
  obtain ⟨rest, rfl⟩ := hfirst
  obtain ⟨other, rfl⟩ := hsecond
  induction outer generalizing inner with
  | nil => exact absurd List.nil_prefix hapart
  | cons index outer ih =>
      cases inner with
      | nil => exact absurd hlt (List.not_lt_nil _)
      | cons index' inner =>
          rw [List.cons_append, List.cons_append, List.cons_lt_cons_iff]
          rcases List.cons_lt_cons_iff.mp hlt with hindex | ⟨rfl, hrest⟩
          · exact .inl hindex
          · refine .inr ⟨rfl, ih hrest fun hbegins => hapart ?_⟩
            exact (List.prefix_cons_inj index).mpr hbegins

end Positions

/-! ## Searches -/

section Searches

variable {α : Type} (position : α → List Nat) (Inside : α → Prop)

def Sorted (found : List α) : Prop := found.Pairwise fun first second => position first < position second

structure Inner (step : α → List α) : Prop where
  sorted : ∀ place, Inside place → Sorted position (step place)
  below : ∀ place, Inside place → ∀ found ∈ step place, Inside found ∧ Above (position place) (position found)

def Inherits (step : α → List α) : Prop :=
  ∀ outer inner, Inside outer → Inside inner → Above (position outer) (position inner) → step inner ⊆ step outer

/-- What is found by one step after the other. -/
def run : List (α → List α) → α → List α
  | [], place => [place]
  | step :: steps, place => (step place).flatMap (run steps)

def routes : List (α → List α) → α → List (List α)
  | [], _ => [[]]
  | step :: steps, place => (step place).flatMap fun found => (routes steps found).map (found :: ·)

variable {position Inside} {steps : List (α → List α)} {last step : α → List α} {place found : α}

theorem foldl_flatMap (steps : List (α → List α)) (found : List α) :
    steps.foldl (fun found step => found.flatMap step) found = found.flatMap (run steps) := by
  induction steps generalizing found with
  | nil => exact (List.flatMap_singleton' found).symm
  | cons step steps ih => rw [List.foldl_cons, ih, List.flatMap_assoc]; rfl

theorem run_append (steps others : List (α → List α)) (place : α) :
    run (steps ++ others) place = (run steps place).flatMap (run others) := by
  induction steps generalizing place with
  | nil => exact (List.flatMap_singleton (run others) place).symm
  | cons step steps ih =>
      rw [List.cons_append, run, run, List.flatMap_assoc]
      exact congrArg (List.flatMap · (step place)) (funext ih)

theorem run_eq_map_routes (steps : List (α → List α)) (place : α) :
    run steps place = (routes steps place).map (·.getLastD place) := by
  induction steps generalizing place with
  | nil => rfl
  | cons step steps ih =>
      rw [run, routes, List.map_flatMap]
      refine congrArg (List.flatMap · (step place)) (funext fun found => ?_)
      rw [ih, List.map_map]
      exact List.map_congr_left fun route _ => (@List.getLastD_cons α place found route).symm

theorem Sorted.nodup {found : List α} (hsorted : Sorted position found) : found.Nodup :=
  hsorted.imp fun hlt => by
    rintro rfl
    exact lt_irrefl _ hlt

theorem Inner.nodup (hstep : Inner position Inside step) (hplace : Inside place) : (step place).Nodup :=
  (hstep.sorted place hplace).nodup

theorem nodup_routes (hsteps : ∀ step ∈ steps, Inner position Inside step) (hplace : Inside place) :
    (routes steps place).Nodup := by
  induction steps generalizing place with
  | nil => exact List.nodup_singleton []
  | cons step steps ih =>
      rw [List.forall_mem_cons] at hsteps
      rw [routes, List.nodup_flatMap]
      refine ⟨fun found hfound => ?_, (hsteps.1.nodup hplace).imp fun hne => ?_⟩
      · exact (ih hsteps.2 (hsteps.1.below place hplace found hfound).1).map fun route other hsame =>
          (List.cons.inj hsame).2
      · intro route hfirst hsecond
        obtain ⟨_, -, rfl⟩ := List.mem_map.mp hfirst
        obtain ⟨_, -, hsame⟩ := List.mem_map.mp hsecond
        exact hne (List.cons.inj hsame).1.symm

theorem nodup_run_iff (hsteps : ∀ step ∈ steps, Inner position Inside step) (hplace : Inside place) :
    (run steps place).Nodup ↔ ∀ route ∈ routes steps place, ∀ other ∈ routes steps place,
      route.getLastD place = other.getLastD place → route = other := by
  rw [run_eq_map_routes, List.nodup_map_iff_inj_on (nodup_routes hsteps hplace)]

theorem run_below (hsteps : ∀ step ∈ steps, Inner position Inside step) (hplace : Inside place) :
    ∀ found ∈ run steps place, Inside found ∧ position place <+: position found := by
  induction steps generalizing place with
  | nil =>
      intro found hfound
      rw [run, List.mem_singleton] at hfound
      rw [hfound]
      exact ⟨hplace, List.prefix_rfl⟩
  | cons step steps ih =>
      rw [List.forall_mem_cons] at hsteps
      intro found hfound
      obtain ⟨next, hnext, hrest⟩ := List.mem_flatMap.mp hfound
      obtain ⟨hinside, habove⟩ := hsteps.1.below place hplace next hnext
      obtain ⟨hfoundInside, hbegins⟩ := ih hsteps.2 hinside found hrest
      exact ⟨hfoundInside, habove.1.trans hbegins⟩

theorem run_subset (hinherits : Inherits position Inside step) {outer inner : α} (houter : Inside outer)
    (hinner : Inside inner) (habove : Above (position outer) (position inner)) :
    run (step :: steps) inner ⊆ run (step :: steps) outer := by
  intro found hfound
  obtain ⟨next, hnext, hrest⟩ := List.mem_flatMap.mp hfound
  exact List.mem_flatMap.mpr ⟨next, hinherits outer inner houter hinner habove hnext, hrest⟩

theorem above_or_apart {first second : α} (hlt : position first < position second) :
    Above (position first) (position second) ∨ ∀ {outer inner : List Nat}, position first <+: outer →
      position second <+: inner → outer < inner := by
  by_cases hbegins : position first <+: position second
  · refine .inl ⟨hbegins, fun hsame => ?_⟩
    rw [hsame] at hlt
    exact lt_irrefl _ hlt
  · exact .inr fun houter hinner => lt_of_apart hlt hbegins houter hinner

theorem sorted_run (hsteps : ∀ step ∈ steps, Inner position Inside step)
    (hinherits : ∀ step ∈ steps, Inherits position Inside step) (hplace : Inside place)
    (hnodup : (run steps place).Nodup) : Sorted position (run steps place) := by
  induction steps generalizing place with
  | nil => exact List.pairwise_singleton _ _
  | cons step steps ih =>
      rw [List.forall_mem_cons] at hsteps hinherits
      have hbelow := hsteps.1.below place hplace
      rw [run, List.nodup_flatMap] at hnodup
      rw [Sorted, run, List.pairwise_flatMap]
      refine ⟨fun found hfound => ih hsteps.2 hinherits.2 (hbelow found hfound).1 (hnodup.1 found hfound), ?_⟩
      refine ((hsteps.1.sorted place hplace).and hnodup.2).imp_of_mem ?_
      rintro outer inner houter hinner ⟨hlt, hdisjoint⟩ first hfirst second hsecond
      have houterInside := (hbelow outer houter).1
      have hinnerInside := (hbelow inner hinner).1
      rcases above_or_apart hlt with habove | hapart
      · cases steps with
        | nil =>
            rw [run, List.mem_singleton] at hfirst hsecond
            rwa [hfirst, hsecond]
        | cons next steps =>
            have hinherit := hinherits.2 next List.mem_cons_self
            exact absurd hsecond (hdisjoint (run_subset hinherit houterInside hinnerInside habove hsecond))
      · exact hapart (run_below hsteps.2 houterInside first hfirst).2
          (run_below hsteps.2 hinnerInside second hsecond).2

theorem pairwise_trichotomy {found : List α} {R : α → α → Prop} (hpairs : found.Pairwise R) {first second : α}
    (hfirst : first ∈ found) (hsecond : second ∈ found) : first = second ∨ R first second ∨ R second first := by
  refine List.Pairwise.forall_of_forall_of_flip (R := fun first second =>
    first = second ∨ R first second ∨ R second first) (fun _ _ => .inl rfl) ?_ ?_ hfirst hsecond
  · exact hpairs.imp fun hholds => .inr (.inl hholds)
  · exact hpairs.imp fun hholds => .inr (.inr hholds)

def OuterFirst (position : α → List Nat) (steps : List (α → List α)) (last : α → List α) (place : α) : Prop :=
  ∀ outer ∈ run steps place, ∀ inner ∈ run steps place, Above (position outer) (position inner) →
    ∀ first ∈ last outer, ∀ second ∈ last inner, position first < position second

theorem run_last (last : α → List α) : run [last] = last := funext fun place => List.flatMap_singleton' (last place)

theorem mem_run_concat : found ∈ run (steps ++ [last]) place ↔ ∃ next ∈ run steps place, found ∈ last next := by
  rw [run_append, run_last, List.mem_flatMap]

theorem nodup_run_concat_iff (hsteps : ∀ step ∈ steps, Inner position Inside step)
    (hlast : Inner position Inside last) (hplace : Inside place) :
    (run (steps ++ [last]) place).Nodup ↔ ∀ route ∈ routes steps place, ∀ other ∈ routes steps place,
      ∀ found ∈ last (route.getLastD place), found ∈ last (other.getLastD place) → route = other := by
  have hinside : ∀ route ∈ routes steps place, Inside (route.getLastD place) := by
    intro route hroute
    refine (run_below hsteps hplace _ ?_).1
    rw [run_eq_map_routes]
    exact List.mem_map_of_mem hroute
  rw [run_append, run_last, run_eq_map_routes, List.flatMap_map, List.nodup_flatMap]
  constructor
  · rintro ⟨-, hpairs⟩ route hroute other hother found hfound hfound'
    rcases pairwise_trichotomy hpairs hroute hother with hsame | hdisjoint | hdisjoint
    · exact hsame
    · exact absurd hfound' (hdisjoint hfound)
    · exact absurd hfound (hdisjoint hfound')
  · intro honce
    refine ⟨fun route hroute => hlast.nodup (hinside route hroute), ?_⟩
    refine (nodup_routes hsteps hplace).imp_of_mem fun hroute hother hne found hfound hfound' => hne ?_
    exact honce _ hroute _ hother found hfound hfound'

theorem run_concat_subset (hinherits : ∀ step ∈ steps, Inherits position Inside step) (hne : steps ≠ [])
    {outer inner : α} (houter : Inside outer) (hinner : Inside inner)
    (habove : Above (position outer) (position inner)) :
    run (steps ++ [last]) inner ⊆ run (steps ++ [last]) outer := by
  obtain ⟨step, steps, rfl⟩ := List.exists_cons_of_ne_nil hne
  exact run_subset (hinherits step List.mem_cons_self) houter hinner habove

theorem outerFirst_of_sorted (hsteps : ∀ step ∈ steps, Inner position Inside step)
    (hinherits : ∀ step ∈ steps, Inherits position Inside step) (hplace : Inside place)
    (hsorted : Sorted position (run (steps ++ [last]) place)) : OuterFirst position steps last place := by
  induction steps generalizing place with
  | nil =>
      intro outer houter inner hinner habove
      rw [run, List.mem_singleton] at houter hinner
      exact absurd (congrArg position (houter.trans hinner.symm)) habove.2
  | cons step steps ih =>
      rw [List.forall_mem_cons] at hsteps hinherits
      have hbelow := hsteps.1.below place hplace
      rw [Sorted, List.cons_append, run, List.pairwise_flatMap] at hsorted
      intro outer houter inner hinner habove first hfirst second hsecond
      obtain ⟨next, hnext, houter⟩ := List.mem_flatMap.mp houter
      obtain ⟨next', hnext', hinner⟩ := List.mem_flatMap.mp hinner
      have hfirstRun : first ∈ run (steps ++ [last]) next := mem_run_concat.mpr ⟨outer, houter, hfirst⟩
      have hsecondRun : second ∈ run (steps ++ [last]) next' := mem_run_concat.mpr ⟨inner, hinner, hsecond⟩
      rcases pairwise_trichotomy ((hsteps.1.sorted place hplace).and hsorted.2) hnext hnext' with
        rfl | ⟨-, hpairs⟩ | ⟨hlt, hpairs⟩
      · exact ih hsteps.2 hinherits.2 (hbelow next hnext).1 (hsorted.1 next hnext) outer houter inner hinner habove
          first hfirst second hsecond
      · exact hpairs first hfirstRun second hsecondRun
      exfalso
      rcases above_or_apart hlt with hinherited | hapart
      · by_cases hne : steps = []
        · subst hne
          rw [run, List.mem_singleton] at houter hinner
          subst houter hinner
          exact lt_asymm habove.lt hlt
        · have hboth := run_concat_subset hinherits.2 hne (hbelow next' hnext').1 (hbelow next hnext).1 hinherited
            hfirstRun
          exact lt_irrefl _ (hpairs first hboth first hfirstRun)
      · have hless := hapart (run_below hsteps.2 (hbelow next' hnext').1 inner hinner).2
          (run_below hsteps.2 (hbelow next hnext).1 outer houter).2
        exact lt_asymm habove.lt hless

theorem sorted_of_outerFirst (hsteps : ∀ step ∈ steps, Inner position Inside step)
    (hinherits : ∀ step ∈ steps, Inherits position Inside step) (hlast : Inner position Inside last)
    (hplace : Inside place) (hnodup : (run (steps ++ [last]) place).Nodup)
    (houterFirst : OuterFirst position steps last place) : Sorted position (run (steps ++ [last]) place) := by
  induction steps generalizing place with
  | nil =>
      rw [List.nil_append, run_last]
      exact hlast.sorted place hplace
  | cons step steps ih =>
      rw [List.forall_mem_cons] at hsteps hinherits
      have hbelow := hsteps.1.below place hplace
      rw [List.cons_append, run, List.nodup_flatMap] at hnodup
      have hnext : ∀ {next found}, next ∈ step place → found ∈ run steps next → found ∈ run (step :: steps) place :=
        fun hnext hfound => List.mem_flatMap.mpr ⟨_, hnext, hfound⟩
      rw [Sorted, List.cons_append, run, List.pairwise_flatMap]
      refine ⟨fun next hmem => ih hsteps.2 hinherits.2 (hbelow next hmem).1 (hnodup.1 next hmem)
        fun outer houter inner hinner => houterFirst outer (hnext hmem houter) inner (hnext hmem hinner), ?_⟩
      refine ((hsteps.1.sorted place hplace).and hnodup.2).imp_of_mem ?_
      rintro next next' hmem hmem' ⟨hlt, hdisjoint⟩ first hfirst second hsecond
      rcases above_or_apart hlt with habove | hapart
      · by_cases hne : steps = []
        · subst hne
          rw [List.nil_append, run_last] at hfirst hsecond
          exact houterFirst next (hnext hmem (List.mem_singleton_self _)) next'
            (hnext hmem' (List.mem_singleton_self _)) habove first hfirst second hsecond
        · exact absurd hsecond (hdisjoint
            (run_concat_subset hinherits.2 hne (hbelow next hmem).1 (hbelow next' hmem').1 habove hsecond))
      · obtain ⟨outer, houter, hfirst⟩ := mem_run_concat.mp hfirst
        obtain ⟨inner, hinner, hsecond⟩ := mem_run_concat.mp hsecond
        obtain ⟨houterInside, houterBelow⟩ := run_below hsteps.2 (hbelow next hmem).1 outer houter
        obtain ⟨hinnerInside, hinnerBelow⟩ := run_below hsteps.2 (hbelow next' hmem').1 inner hinner
        exact hapart (houterBelow.trans (hlast.below outer houterInside first hfirst).2.1)
          (hinnerBelow.trans (hlast.below inner hinnerInside second hsecond).2.1)

/-- A search whose last step does not find what is further down finds in order just when it finds nothing twice
and what outer places give comes first. -/
theorem sorted_run_concat_iff (hsteps : ∀ step ∈ steps, Inner position Inside step)
    (hinherits : ∀ step ∈ steps, Inherits position Inside step) (hlast : Inner position Inside last)
    (hplace : Inside place) : Sorted position (run (steps ++ [last]) place) ↔
      (run (steps ++ [last]) place).Nodup ∧ OuterFirst position steps last place := by
  constructor
  · intro hsorted
    exact ⟨hsorted.nodup, outerFirst_of_sorted hsteps hinherits hplace hsorted⟩
  · rintro ⟨hnodup, houterFirst⟩
    exact sorted_of_outerFirst hsteps hinherits hlast hplace hnodup houterFirst

end Searches

end TreeOrder
