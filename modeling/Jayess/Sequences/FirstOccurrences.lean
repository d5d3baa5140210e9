import Mathlib.Data.List.Infix

/-! # First occurrences -/

namespace FirstOccurrences

variable {α : Type} [BEq α] [LawfulBEq α] {list between rest : List α} {first second last : α}

def Together {α : Type} (list : List α) (first second : α) : Prop :=
  ∃ before between after, list = before ++ first :: between ++ second :: after ∧
    first ∉ before ∧ second ∉ before ++ first :: between ∧ ∀ value ∈ between, value ∈ before ++ [first]

theorem eraseDups_append_eq (list rest : List α) :
    ∃ later, (list ++ rest).eraseDups = list.eraseDups ++ later ∧
      ∀ value ∈ rest, value ∈ list ∨ value ∈ later := by
  refine ⟨(rest.removeAll list).eraseDups, List.eraseDups_append, fun value hvalue => ?_⟩
  by_cases hmem : value ∈ list
  · exact .inl hmem
  · refine .inr (List.mem_eraseDups.mpr ?_)
    rw [List.removeAll, List.mem_filter]
    exact ⟨hvalue, by simpa using hmem⟩

theorem eraseDups_append_of_subset (hrest : ∀ value ∈ rest, value ∈ list) :
    (list ++ rest).eraseDups = list.eraseDups := by
  have hnone : rest.removeAll list = [] := by
    rw [List.removeAll, List.filter_eq_nil_iff]
    intro value hvalue
    simpa using hrest value hvalue
  rw [List.eraseDups_append, hnone, List.eraseDups_nil, List.append_nil]

theorem eraseDups_concat (hlast : last ∉ list) : (list ++ [last]).eraseDups = list.eraseDups ++ [last] := by
  have hkept : [last].removeAll list = [last] := by
    rw [List.removeAll, List.filter_eq_self]
    intro value hvalue
    rw [List.mem_singleton.mp hvalue]
    simpa using hlast
  rw [List.eraseDups_append, hkept, List.eraseDups_cons, List.filter_nil, List.eraseDups_nil]

theorem nodup_eraseDups (list : List α) : list.eraseDups.Nodup := by
  induction list using List.reverseRecOn with
  | nil => exact List.nodup_nil
  | append_singleton list last ih =>
      by_cases hlast : last ∈ list
      · rwa [eraseDups_append_of_subset (by simpa using hlast)]
      · rw [eraseDups_concat hlast, List.nodup_append]
        refine ⟨ih, by simp, ?_⟩
        rintro value hvalue _ hother rfl
        rw [List.mem_singleton.mp hother, List.mem_eraseDups] at hvalue
        exact hlast hvalue

theorem repeats_of_last (hlast : (list ++ first :: rest).eraseDups.getLast? = some first) (hfirst : first ∉ list) :
    ∀ value ∈ rest, value ∈ list ++ [first] := by
  obtain ⟨later, hlater, hrest⟩ := eraseDups_append_eq (list ++ [first]) rest
  have hnodup := nodup_eraseDups (list ++ first :: rest)
  rw [List.append_cons, hlater, eraseDups_concat hfirst] at hlast hnodup
  have hnil : later = [] := by
    by_contra hne
    rw [List.getLast?_append_of_ne_nil _ hne] at hlast
    have hmem : first ∈ later := List.mem_of_getLast? hlast
    exact (List.nodup_append.mp hnodup).2.2 first (by simp) first hmem rfl
  intro value hvalue
  have hcases := hrest value hvalue
  rw [hnil] at hcases
  exact hcases.resolve_right List.not_mem_nil

theorem infix_eraseDups_iff : [first, second] <:+: list.eraseDups ↔ Together list first second := by
  constructor
  · intro hinfix
    induction list using List.reverseRecOn with
    | nil => simp at hinfix
    | append_singleton list last ih =>
        by_cases hearlier : [first, second] <:+: list.eraseDups
        · obtain ⟨before, between, after, rfl, hfirst, hsecond, hbetween⟩ := ih hearlier
          exact ⟨before, between, after ++ [last], by simp, hfirst, hsecond, hbetween⟩
        by_cases hlast : last ∈ list
        · rw [eraseDups_append_of_subset (by simpa using hlast)] at hinfix
          exact absurd hinfix hearlier
        rw [eraseDups_concat hlast, List.infix_concat_iff] at hinfix
        obtain ⟨front, hfront⟩ := hinfix.resolve_right hearlier
        have hsplit : front ++ [first] ++ [second] = list.eraseDups ++ [last] := by simpa using hfront
        obtain ⟨hinit, hend⟩ := List.append_inj' hsplit rfl
        obtain rfl : second = last := by simpa using hend
        have hmem : first ∈ list := by
          rw [← List.mem_eraseDups, ← hinit]
          simp
        obtain ⟨before, between, rfl, hfirst⟩ := List.eq_append_cons_of_mem hmem
        refine ⟨before, between, [], by simp, hfirst, hlast, repeats_of_last ?_ hfirst⟩
        rw [← hinit, List.getLast?_concat]
  · rintro ⟨before, between, after, rfl, hfirst, hsecond, hbetween⟩
    obtain ⟨later, hlater, -⟩ := eraseDups_append_eq (before ++ first :: between ++ [second]) after
    refine ⟨before.eraseDups, later, ?_⟩
    have hkept : (before ++ first :: between).eraseDups = before.eraseDups ++ [first] := by
      rw [List.append_cons, eraseDups_append_of_subset hbetween, eraseDups_concat hfirst]
    rw [List.append_cons (before ++ first :: between) second after, hlater, eraseDups_concat hsecond, hkept]
    simp

end FirstOccurrences
