import Mathlib.Data.List.DropRight
import Mathlib.Data.List.Infix
import Mathlib.Tactic.Common

/-!
# Cutting texts

Trimming, the first occurrence of a pattern, and cutting at a separator, over lists.
-/

namespace Jayess.Slices

variable {α : Type*}

section Trim

variable {p : α → Bool} {s t : List α} {x : α}

def trim (p : α → Bool) (s : List α) : List α := (s.dropWhile p).rdropWhile p

def Trimmed (p : α → Bool) (s : List α) : Prop :=
  (∀ x ∈ s.head?, p x = false) ∧ ∀ x ∈ s.getLast?, p x = false

@[simp] theorem trim_nil : trim p [] = [] := rfl

theorem Trimmed.nil : Trimmed p [] := ⟨by simp, by simp⟩

theorem Trimmed.trim_eq (h : Trimmed p s) : trim p s = s := by
  have hleft : s.dropWhile p = s := by
    cases s with
    | nil => rfl
    | cons x s =>
        have hx : p x = false := h.1 x rfl
        rw [List.dropWhile_cons_of_neg (by simp [hx])]
  rw [trim, hleft, List.rdropWhile_eq_self_iff]
  intro hne
  have hlast := h.2 (s.getLast hne) (List.getLast?_eq_getLast_of_ne_nil hne)
  simp [hlast]

theorem trimmed_trim (p : α → Bool) (s : List α) : Trimmed p (trim p s) := by
  constructor
  · intro x hx
    have hhere : trim p s <+: s.dropWhile p := List.rdropWhile_prefix p _
    obtain ⟨rest, hrest⟩ := hhere
    cases htrim : trim p s with
    | nil => simp [htrim] at hx
    | cons y trimmed =>
        have hxy : y = x := by simpa [htrim] using hx
        subst hxy
        have hhead := List.head?_dropWhile_not p s
        rw [← hrest, htrim] at hhead
        simpa using hhead
  · intro x hx
    by_cases hnil : trim p s = []
    · simp [hnil] at hx
    · have hlast := List.rdropWhile_last_not p (s.dropWhile p) hnil
      rw [List.getLast?_eq_getLast_of_ne_nil hnil, Option.mem_some_iff] at hx
      subst hx
      exact Bool.eq_false_iff.mpr hlast

theorem trim_infix (p : α → Bool) (s : List α) : trim p s <:+: s :=
  (List.rdropWhile_prefix p _).isInfix.trans (List.dropWhile_suffix p).isInfix

theorem trim_of_head (h : ∀ x ∈ s.head?, p x = false) : trim p s = s.rdropWhile p := by
  cases s with
  | nil => rfl
  | cons x s =>
      have hx : p x = false := h x rfl
      rw [trim, List.dropWhile_cons_of_neg (by simp [hx])]

theorem trim_prefix (h : ∀ x ∈ s.head?, p x = false) : trim p s <+: s := by
  rw [trim_of_head h]
  apply List.rdropWhile_prefix

theorem trim_ne_nil (hne : s ≠ []) (h : ∀ x ∈ s.head?, p x = false) : trim p s ≠ [] := by
  intro hnil
  rw [trim_of_head h, List.rdropWhile_eq_nil_iff] at hnil
  cases s with
  | nil => exact hne rfl
  | cons x s =>
      have hx : p x = true := hnil x List.mem_cons_self
      rw [h x rfl] at hx
      cases hx

theorem trim_append (hs : ∀ x ∈ (s ++ t).head?, p x = false) (ht : ∀ x ∈ t.head?, p x = false)
    (hne : t ≠ []) : trim p (s ++ t) = s ++ trim p t := by
  have htrim := trim_ne_nil hne ht
  rw [trim_of_head ht] at htrim
  have hreverse : (t.reverse.dropWhile p).isEmpty = false := by
    rw [List.rdropWhile, ne_eq, List.reverse_eq_nil_iff] at htrim
    simpa using htrim
  rw [trim_of_head hs, trim_of_head ht, List.rdropWhile, List.rdropWhile, List.reverse_append,
    List.dropWhile_append, hreverse]
  simp

theorem trim_cons_of_pos (h : p x = true) : trim p (x :: s) = trim p s := by
  rw [trim, trim, List.dropWhile_cons_of_pos h]

end Trim

section IndexOf

variable [DecidableEq α] {pattern s rest : List α} {n : Nat}

def indexOf (pattern : List α) : List α → Option Nat
  | [] => if pattern.isEmpty then some 0 else none
  | x :: s => if pattern.isPrefixOf (x :: s) then some 0 else (indexOf pattern s).map (· + 1)

theorem indexOf_cons_later {x : α} (h : ¬pattern <+: x :: s) :
    indexOf pattern (x :: s) = (indexOf pattern s).map (· + 1) := by
  rw [indexOf, if_neg]
  simpa using h

theorem isPrefixOf_append_cons {c : α} (hc : c ∉ pattern) :
    pattern.isPrefixOf (s ++ c :: rest) = pattern.isPrefixOf s := by
  rw [Bool.eq_iff_iff, List.isPrefixOf_iff_prefix, List.isPrefixOf_iff_prefix]
  constructor
  · intro h
    cases List.prefix_or_prefix_of_prefix h (List.prefix_append s (c :: rest)) with
    | inl hshort => exact hshort
    | inr hlong =>
        obtain ⟨part, rfl⟩ := hlong
        rw [List.prefix_append_right_inj] at h
        cases part with
        | nil => simp
        | cons x part =>
            obtain rfl : x = c := (List.cons_prefix_cons.mp h).1
            simp at hc
  · intro h
    exact h.trans (List.prefix_append s (c :: rest))

theorem indexOf_eq_some (h : indexOf pattern s = some n) :
    (∃ rest, s = s.take n ++ (pattern ++ rest)) ∧ (pattern ≠ [] → ¬pattern <:+: s.take n) := by
  induction s generalizing n with
  | nil =>
      rw [indexOf] at h
      split_ifs at h with hempty
      rw [List.isEmpty_iff] at hempty
      subst hempty
      cases h
      exact ⟨⟨[], rfl⟩, fun hne => absurd rfl hne⟩
  | cons x s ih =>
      by_cases hhere : pattern <+: x :: s
      · rw [indexOf, if_pos (by simpa using hhere)] at h
        cases h
        obtain ⟨rest, hrest⟩ := hhere
        exact ⟨⟨rest, by simp [hrest]⟩, fun hne hpart => hne (by simpa using hpart)⟩
      · rw [indexOf_cons_later hhere, Option.map_eq_some_iff] at h
        obtain ⟨m, hm, rfl⟩ := h
        obtain ⟨⟨rest, hrest⟩, hbefore⟩ := ih hm
        refine ⟨⟨rest, by simpa using hrest⟩, fun hne hpart => ?_⟩
        rw [List.take_succ_cons, List.infix_cons_iff] at hpart
        cases hpart with
        | inl hhead =>
            apply hhere
            exact hhead.trans ⟨s.drop m, by simp⟩
        | inr htail => exact hbefore hne htail

theorem indexOf_eq_none (h : indexOf pattern s = none) : ¬pattern <:+: s := by
  induction s with
  | nil =>
      rw [indexOf] at h
      split_ifs at h with hempty
      intro hpart
      exact hempty (by simpa using hpart)
  | cons x s ih =>
      by_cases hhere : pattern <+: x :: s
      · rw [indexOf, if_pos (by simpa using hhere)] at h
        cases h
      · rw [indexOf_cons_later hhere, Option.map_eq_none_iff] at h
        rw [List.infix_cons_iff]
        exact not_or.mpr ⟨hhere, ih h⟩

/-- A pattern whose last letter stands nowhere else in it is found where it follows a text without
it: no occurrence reaches from the text into the pattern. -/
theorem indexOf_append {q : List α} {c : α} (hc : c ∉ q) (hs : ¬(q ++ [c]) <:+: s) :
    indexOf (q ++ [c]) (s ++ ((q ++ [c]) ++ rest)) = some s.length := by
  induction s with
  | nil =>
      have hhere : (q ++ [c]) <+: (q ++ [c]) ++ rest := ⟨rest, rfl⟩
      cases hcons : (q ++ [c]) ++ rest with
      | nil => simp at hcons
      | cons x text =>
          rw [hcons] at hhere
          rw [List.nil_append, indexOf, if_pos (by simpa using hhere)]
          rfl
  | cons x s ih =>
      have htail : ¬(q ++ [c]) <:+: s := fun h => hs (h.trans (List.suffix_cons x s).isInfix)
      have hhere : ¬(q ++ [c]) <+: x :: (s ++ ((q ++ [c]) ++ rest)) := by
        intro h
        have hwhole : (x :: s) <+: x :: (s ++ ((q ++ [c]) ++ rest)) :=
          ⟨(q ++ [c]) ++ rest, by simp⟩
        cases List.prefix_or_prefix_of_prefix h hwhole with
        | inl hshort => exact hs hshort.isInfix
        | inr hlong =>
            -- the pattern is the text and a part of itself, which ends in its last letter
            obtain ⟨part, hpart⟩ := hlong
            have hpart' : part <+: (q ++ [c]) ++ rest := by
              obtain ⟨more, hmore⟩ := h
              have hwhole : (x :: s) ++ (part ++ more) = (x :: s) ++ ((q ++ [c]) ++ rest) := by
                rw [← List.append_assoc, hpart, hmore, List.cons_append]
              exact ⟨more, List.append_cancel_left hwhole⟩
            have hlength : part.length < (q ++ [c]).length := by
              rw [← hpart, List.length_append, List.length_cons]
              omega
            cases List.eq_nil_or_concat part with
            | inl hnil =>
                subst hnil
                rw [List.append_nil] at hpart
                exact hs (hpart ▸ List.infix_refl _)
            | inr hconcat =>
                obtain ⟨front, last, rfl⟩ := hconcat
                have hlast : last = c := by
                  have hends : ((x :: s) ++ front) ++ [last] = q ++ [c] := by
                    rw [List.append_assoc, ← List.concat_eq_append]
                    exact hpart
                  simpa using (List.append_inj' hends rfl).2
                have hinside : front.concat last <+: q := by
                  have hq : q <+: (q ++ [c]) ++ rest := ⟨[c] ++ rest, by simp⟩
                  apply List.prefix_of_prefix_length_le hpart' hq
                  rw [List.length_append, List.length_singleton] at hlength
                  exact Nat.le_of_lt_succ hlength
                apply hc
                rw [← hlast]
                exact hinside.subset (by simp)
      rw [List.cons_append, indexOf_cons_later hhere, ih htail]
      simp

theorem indexOf_append_right (h : indexOf pattern s = some n) (rest : List α) :
    indexOf pattern (s ++ rest) = some n := by
  induction s generalizing n with
  | nil =>
      rw [indexOf] at h
      split_ifs at h with hempty
      rw [List.isEmpty_iff] at hempty
      subst hempty
      cases h
      cases rest <;> rfl
  | cons x s ih =>
      by_cases hhere : pattern <+: x :: s
      · rw [indexOf, if_pos (by simpa using hhere)] at h
        have hlonger : pattern <+: x :: (s ++ rest) := hhere.trans (List.prefix_append (x :: s) rest)
        rw [List.cons_append, indexOf, if_pos (by simpa using hlonger)]
        exact h
      · have hlater := h
        rw [indexOf_cons_later hhere, Option.map_eq_some_iff] at hlater
        obtain ⟨m, hm, rfl⟩ := hlater
        obtain ⟨⟨after, hafter⟩, -⟩ := indexOf_eq_some hm
        have hlength := congrArg List.length hafter
        rw [List.length_append, List.length_append] at hlength
        have hlonger : ¬pattern <+: x :: (s ++ rest) := by
          intro hbegins
          apply hhere
          have hwhole : x :: s <+: x :: (s ++ rest) := List.prefix_append (x :: s) rest
          exact List.prefix_of_prefix_length_le hbegins hwhole (by rw [List.length_cons]; omega)
        rw [List.cons_append, indexOf_cons_later hlonger, ih hm]
        rfl

theorem indexOf_of_append (h : indexOf pattern (s ++ rest) = some n) (hfits : n + pattern.length ≤ s.length) :
    indexOf pattern s = some n := by
  induction s generalizing n with
  | nil =>
      obtain rfl : n = 0 := by simpa using (Nat.add_eq_zero_iff.mp (Nat.le_zero.mp hfits)).1
      obtain rfl : pattern = [] := by simpa using hfits
      rfl
  | cons x s ih =>
      have hwhole : x :: s <+: x :: (s ++ rest) := List.prefix_append (x :: s) rest
      rw [List.cons_append] at h
      by_cases hlonger : pattern <+: x :: (s ++ rest)
      · rw [indexOf, if_pos (by simpa using hlonger), Option.some_inj] at h
        subst h
        rw [Nat.zero_add] at hfits
        have hhere := List.prefix_of_prefix_length_le hlonger hwhole hfits
        rw [indexOf, if_pos (by simpa using hhere)]
      · rw [indexOf_cons_later hlonger, Option.map_eq_some_iff] at h
        obtain ⟨m, hm, rfl⟩ := h
        rw [List.length_cons] at hfits
        rw [indexOf_cons_later fun hhere => hlonger (hhere.trans hwhole), ih hm (by omega)]
        rfl

theorem indexOf_after_letter {c : α} (hc : c ∉ pattern) (hs : ¬pattern <:+: s) :
    indexOf pattern (s ++ c :: (pattern ++ rest)) = some (s.length + 1) := by
  have hletter : ∀ s, ¬pattern <:+: s → ¬pattern <+: s ++ c :: (pattern ++ rest) := by
    intro s hs hbegins
    have hsame := @isPrefixOf_append_cons _ _ pattern s (pattern ++ rest) c hc
    rw [List.isPrefixOf_iff_prefix.mpr hbegins] at hsame
    exact hs (List.isPrefixOf_iff_prefix.mp hsame.symm).isInfix
  induction s with
  | nil =>
      have hhere : indexOf pattern (pattern ++ rest) = some 0 := by
        cases hpattern : pattern with
        | nil => rw [hpattern] at hs; exact absurd (List.infix_refl []) hs
        | cons x pattern => rw [List.cons_append, indexOf, if_pos (by simp)]
      rw [List.nil_append, indexOf_cons_later (hletter [] hs), hhere]
      rfl
  | cons x s ih =>
      have hlater : ¬pattern <:+: s := fun hinside => hs (hinside.trans (List.suffix_cons x s).isInfix)
      have hhere : ¬pattern <+: x :: (s ++ c :: (pattern ++ rest)) := hletter (x :: s) hs
      rw [List.cons_append, indexOf_cons_later hhere, ih hlater]
      rfl

theorem indexOf_letter {c : α} (hc : c ∉ s) : indexOf [c] (s ++ c :: rest) = some s.length := by
  have happend := @indexOf_append _ _ s rest [] c List.not_mem_nil
    fun h => hc (h.subset (List.mem_singleton_self c))
  simpa using happend

theorem indexOf_letter_eq_none {c : α} (hc : c ∉ s) : indexOf [c] s = none := by
  cases hfound : indexOf [c] s with
  | none => rfl
  | some n =>
      obtain ⟨⟨rest, hrest⟩, -⟩ := indexOf_eq_some hfound
      apply absurd _ hc
      rw [hrest]
      simp

end IndexOf

end Jayess.Slices
