import Jayess.Webparse.Reading

/-!
# Tags that are read as something else

A start tag with a plain name that is read with the name and the attributes it was written from is
legible: what a quote in a value, a slash or white space at an end takes away is missed.
-/

namespace Jayess.Webparse

open Slices (Trimmed)

section Tags

variable {span : Span} {xml selfClosed : Bool} {name : List Char} {attr : Attribute}
  {attributes init : List Attribute} {rounds : Nat}

theorem readAttrValue_of_quote {value rest : List Char} (hquote : '"' ∈ value) :
    (readAttrValue ('"' :: (value ++ rest))).1 ≠ value := by
  obtain ⟨before, after, hsplit, hbefore⟩ := List.eq_append_cons_of_mem hquote
  have hread := @readAttrValue_quoted before (after ++ rest) hbefore
  rw [hsplit, List.append_assoc, List.cons_append, hread]
  intro heq
  have hlength := congrArg List.length heq
  simp at hlength

theorem quotes_of_values (hmade : ∀ attr ∈ attributes, attr.Made) (hends : EndsWell xml attributes)
    (hrounds : attributes.length ≤ rounds)
    (hvalues : (parseAttrsLoop span xml rounds (spellAttributes xml attributes)).1.map
      Attribute.value = attributes.map Attribute.value) :
    ∀ attr ∈ attributes, '"' ∉ attr.value := by
  induction attributes generalizing rounds with
  | nil => simp
  | cons attr attributes ih =>
      have hattr : attr.Made := hmade attr List.mem_cons_self
      cases rounds with
      | zero => simp at hrounds
      | succ rounds =>
          have htail := @ih rounds (fun other h => hmade other (List.mem_cons_of_mem _ h))
            hends.tail (by simpa using hrounds)
          rw [List.forall_mem_cons]
          by_cases hvalue : (!attr.boolean || xml) = true
          · rw [parseAttrsLoop_value hmade hends hvalue, List.map_cons, List.map_cons,
              List.cons.injEq] at hvalues
            have hquote : '"' ∉ attr.value := fun hmem => readAttrValue_of_quote hmem hvalues.1
            rw [readAttrValue_quoted hquote] at hvalues
            exact ⟨hquote, htail hvalues.2⟩
          · have hbare : attr.boolean = true ∧ xml = false := by simpa using hvalue
            rw [parseAttrsLoop_boolean hmade hends hvalue, List.map_cons, List.map_cons,
              List.cons.injEq] at hvalues
            refine ⟨?_, htail hvalues.2⟩
            rw [hattr.boolean hbare.1]
            simp

def Attribute.trimName (attr : Attribute) : Attribute := { attr with name := trimSpace attr.name }

theorem Attribute.Made.trimName (h : attr.Made) : attr.trimName.Made := by
  refine ⟨?_, ?_, ?_, h.value, h.boolean⟩
  · exact Slices.trim_ne_nil h.named h.first
  · intro ch hch
    exact h.letters ch ((Slices.trim_infix isSpace attr.name).subset hch)
  · exact (Slices.trimmed_trim isSpace attr.name).1

theorem endsWell_trimName : EndsWell xml (init ++ [attr.trimName]) := by
  intro hxml last hlast hboolean
  rw [List.getLast?_concat, Option.mem_some_iff] at hlast
  subst hlast
  exact not_endsInSpace_iff.mpr (Slices.trimmed_trim isSpace attr.name).2

theorem made_trimName (hmade : MadeTag name (init ++ [attr])) :
    MadeTag name (init ++ [attr.trimName]) := by
  refine ⟨hmade.letters, hmade.first, ?_, ?_⟩
  · intro hnil
    have hattributes := hmade.named hnil
    simp at hattributes
  · intro other hother
    rw [List.mem_append, List.mem_singleton] at hother
    rcases hother with hother | rfl
    · exact hmade.made other (List.mem_append_left _ hother)
    · exact (hmade.made attr (by simp)).trimName

/-- White space at the end of a tag belongs to the last attribute if it is written without a
value. -/
theorem trimSpace_spellTag_boolean (hmade : MadeTag name (init ++ [attr]))
    (hboolean : attr.boolean = true) :
    trimSpace (spellTag false name (init ++ [attr])) =
      spellTag false name (init ++ [attr.trimName]) := by
  have hattr : attr.Made := hmade.made attr (by simp)
  have hspell : ∀ last : Attribute, last.boolean = true →
      spellTag false name (init ++ [last]) =
        (name ++ (spellAttributes false init ++ [' '])) ++ last.name := by
    intro last hlast
    simp [spellTag, spellAttributes, serializeAttribute, hlast]
  rw [hspell attr hboolean, hspell attr.trimName hboolean]
  apply Slices.trim_append
  · rw [← hspell attr hboolean]
    exact fun ch hch => (head_spellTag hmade ch hch).1
  · exact hattr.first
  · exact hattr.named

theorem sound_of_attributes (hmade : MadeTag name attributes) (hne : attributes ≠ [])
    (hends : EndsWell xml attributes) : SoundTag xml selfClosed name attributes :=
  ⟨fun hnil => absurd hnil hne, hends, fun _ hnil => absurd hnil hne,
    fun _ hname => hne (hmade.named hname)⟩

theorem value_of_binding {first second : List Attribute}
    (h : first.map Attribute.binding = second.map Attribute.binding) :
    first.map Attribute.value = second.map Attribute.value := by
  have hmap := congrArg (List.map Prod.snd) h
  rwa [List.map_map, List.map_map] at hmap

variable {closed : Bool}

theorem length_of_parseTag {body : List Char} {attrs : List Attribute}
    (hread : (parseTag span xml body).1 = .start name attrs closed) :
    name.length ≤ (trimSpace (trimSlash body)).length := by
  rw [parseTag.eq_def] at hread
  dsimp only at hread
  split at hread
  next => cases hread
  next =>
    cases hread
    exact (List.takeWhile_prefix (· ≠ ' ')).length_le

theorem event_eq_start {mark : Mark} {bindings : List (List Char × List Char)}
    (h : mark.event = .start name bindings closed) :
    ∃ attrs, mark = .start name attrs closed ∧ attrs.map Attribute.binding = bindings := by
  cases mark with
  | start other attrs selfClosed =>
      simp only [Mark.event, Event.start.injEq] at h
      obtain ⟨rfl, hattrs, rfl⟩ := h
      exact ⟨attrs, rfl, hattrs⟩
  | text _ => cases h
  | stop _ => cases h
  | comment _ => cases h
  | processing _ => cases h
  | cdata _ => cases h

theorem endsInSpace_of_length (h : name.length ≤ (trimSpace name).length) :
    endsInSpace name = false := by
  have hpart := Slices.trim_infix isSpace name
  have heq : trimSpace name = name := hpart.eq_of_length (le_antisymm hpart.length_le h)
  rw [not_endsInSpace_iff, ← heq]
  exact (Slices.trimmed_trim isSpace name).2

theorem sound_of_read_bare (hmade : MadeTag name []) (hplain : PlainTag selfClosed name)
    {attrs : List Attribute}
    (hread : (parseTag span xml (trimSpace (spellBody xml selfClosed name []))).1 =
      .start name attrs closed) : SoundTag xml selfClosed name [] := by
  have hends : EndsWell xml [] := fun _ _ hlast => by simp at hlast
  have hlength := length_of_parseTag hread
  cases selfClosed with
  | true =>
      have hnamed : name ≠ [] := by
        rintro rfl
        cases hread
      have hbody : trimSpace (spellBody xml true name []) = name ++ ['/'] := by
        rw [spellBody, spellTag, spellAttributes_nil, List.append_nil, spellSlash, if_pos rfl]
        apply Trimmed.trim_eq
        apply trimmed_of_ends
        · intro ch hch
          rw [List.head?_append_of_ne_nil _ hnamed] at hch
          exact (hmade.first ch hch).1
        · rw [endsInSpace_append (by simp)]
          rfl
      have hslash : trimSlash (name ++ ['/']) = name := by
        rw [trimSlash, if_pos (by simp), List.dropLast_concat]
      rw [hbody, hslash] at hlength
      exact ⟨fun _ => endsInSpace_of_length hlength, hends, by simp, fun _ => hnamed⟩
  | false =>
      have hclosing := hplain.closing rfl
      refine ⟨fun _ => hclosing, hends, fun _ _ hlast => ?_, by simp⟩
      have hbody : trimSpace (spellBody xml false name []) = name := by
        rw [spellBody, spellTag, spellAttributes_nil, List.append_nil, spellSlash,
          if_neg Bool.false_ne_true, List.append_nil]
        apply Trimmed.trim_eq
        apply trimmed_of_ends _ hclosing
        exact fun ch hch => (hmade.first ch hch).1
      have hshort := (Slices.trim_infix isSpace name.dropLast).length_le
      have hnamed : name ≠ [] := by
        rintro rfl
        simp at hlast
      have hpositive : 0 < name.length := List.length_pos_iff.mpr hnamed
      rw [hbody, trimSlash, if_pos hlast] at hlength
      rw [List.length_dropLast] at hshort
      have hle : name.length ≤ name.length - 1 := hlength.trans hshort
      omega

theorem legible_of_read (hmade : MadeTag name attributes) (hplain : PlainTag selfClosed name)
    (hxml : selfClosed = true → xml = true)
    (hread : (parseTag span xml (trimSpace (spellBody xml selfClosed name attributes))).1.event =
      .start name (attributes.map Attribute.binding) closed) :
    LegibleTag xml selfClosed name attributes := by
  obtain ⟨attrs, hmark, hattrs⟩ := event_eq_start hread
  cases List.eq_nil_or_concat attributes with
  | inl hnil =>
      subst hnil
      exact ⟨hplain, sound_of_read_bare hmade hplain hmark, by simp⟩
  | inr hconcat =>
      obtain ⟨init, last, rfl⟩ := hconcat
      rw [List.concat_eq_append] at *
      by_cases hends : EndsWell xml (init ++ [last])
      · have hsound : SoundTag xml selfClosed name (init ++ [last]) :=
          sound_of_attributes hmade (by simp) hends
        obtain ⟨rounds, hrounds, hstart⟩ := @parseTag_spellBody span xml selfClosed name
          (init ++ [last]) hmade hsound
        rw [trimSpace_spellBody hmade hsound, hstart] at hmark
        cases hmark
        exact ⟨hplain, hsound, quotes_of_values hmade.made hends hrounds (value_of_binding hattrs)⟩
      · -- the name of the last attribute is read without the white space at its end
        simp only [EndsWell, List.getLast?_concat, Option.mem_some_iff, forall_eq',
          Classical.not_imp, Bool.not_eq_false] at hends
        obtain ⟨rfl, hboolean, hspace⟩ := hends
        have hclosed : selfClosed = false := by
          by_contra h
          cases hxml (by simpa using h)
        subst hclosed
        have hmadeTrim := made_trimName hmade
        have hsound : SoundTag false false name (init ++ [last.trimName]) :=
          sound_of_attributes hmadeTrim (by simp) endsWell_trimName
        obtain ⟨rounds, hrounds, hstart⟩ := @parseTag_spellBody span false false name
          (init ++ [last.trimName]) hmadeTrim hsound
        have hbody : trimSpace (spellBody false false name (init ++ [last])) =
            spellBody false false name (init ++ [last.trimName]) := by
          simp only [spellBody, spellSlash, Bool.false_eq_true, if_false, List.append_nil]
          exact trimSpace_spellTag_boolean hmade hboolean
        rw [hbody, hstart] at hmark
        cases hmark
        have hvalues : (init ++ [last]).map Attribute.value =
            (init ++ [last.trimName]).map Attribute.value := by
          simp [Attribute.trimName]
        have hquotes := quotes_of_values hmadeTrim.made endsWell_trimName hrounds
          ((value_of_binding hattrs).trans hvalues)
        rw [parseAttrsLoop_spell hmadeTrim.made hquotes endsWell_trimName hrounds] at hattrs
        have hname : trimSpace last.name = last.name := by
          simpa [Attribute.binding, Attribute.trimName] using hattrs
        have hlength : last.name.length ≤ (trimSpace last.name).length := by rw [hname]
        rw [endsInSpace_of_length hlength] at hspace
        cases hspace

end Tags

end Jayess.Webparse
