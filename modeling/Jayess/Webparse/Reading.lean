import Jayess.Webparse.Legible

/-!
# Reading serialized markup
-/

namespace Jayess.Webparse

open Slices (Trimmed)

/-! ## Tags -/

section Tags

variable {span : Span} {xml selfClosed : Bool} {name : List Char} {attributes : List Attribute}
  {rest : List Char}

def spellTag (xml : Bool) (name : List Char) (attributes : List Attribute) : List Char :=
  name ++ spellAttributes xml attributes

def spellSlash (selfClosed : Bool) : List Char := if selfClosed then ['/'] else []

theorem length_spellAttributes (hmade : ∀ attr ∈ attributes, attr.Made) :
    2 * attributes.length ≤ (spellAttributes xml attributes).length := by
  induction attributes with
  | nil => simp
  | cons attr attributes ih =>
      have hattr : attr.Made := hmade attr List.mem_cons_self
      have hname : 0 < attr.name.length := List.length_pos_iff.mpr hattr.named
      have htail := ih fun attr h => hmade attr (List.mem_cons_of_mem _ h)
      rw [spellAttributes_cons]
      simp only [List.length_cons, List.length_append]
      omega

theorem not_mem_spellAttributes (hmade : ∀ attr ∈ attributes, attr.Made) :
    '>' ∉ spellAttributes xml attributes := by
  induction attributes with
  | nil => simp
  | cons attr attributes ih =>
      have hattr : attr.Made := hmade attr List.mem_cons_self
      have htail := ih fun attr h => hmade attr (List.mem_cons_of_mem _ h)
      have hname : '>' ∉ attr.name := by
        intro hmem
        have hends := hattr.letters '>' hmem
        cases hends
      have hvalue : '>' ∉ spellValue xml attr := by
        rw [spellValue]
        split_ifs
        · simp [hattr.value]
        · simp
      rw [spellAttributes_cons]
      simp [hname, hvalue, htail]

theorem getLast_spellAttributes (hmade : ∀ attr ∈ attributes, attr.Made) :
    (spellAttributes xml attributes).getLast? ≠ some '/' := by
  induction attributes with
  | nil => simp
  | cons attr attributes ih =>
      have hattr : attr.Made := hmade attr List.mem_cons_self
      have htail := ih fun attr h => hmade attr (List.mem_cons_of_mem _ h)
      have hname : attr.name.getLast? ≠ some '/' := by
        intro hlast
        have hends := hattr.letters '/' (List.mem_of_getLast? hlast)
        cases hends
      have hvalue : (spellValue xml attr).getLast? ≠ some '/' := by
        rw [spellValue]
        split_ifs
        · rw [List.getLast?_concat]
          simp
        · simp
      rw [spellAttributes_cons, List.getLast?_cons, List.getLast?_append, List.getLast?_append]
      cases htag : (spellAttributes xml attributes).getLast? with
      | some ch => simpa [htag] using htail
      | none =>
          cases hends : (spellValue xml attr).getLast? with
          | some ch => simpa [hends] using hvalue
          | none =>
              cases hword : attr.name.getLast? with
              | some ch => simpa [hword] using hname
              | none => exact absurd (List.getLast?_eq_none_iff.mp hword) hattr.named

theorem head_spellTag (hmade : MadeTag name attributes) :
    ∀ ch ∈ (spellTag xml name attributes).head?, isSpace ch = false ∧ ch ≠ '/' := by
  intro ch hch
  by_cases hname : name = []
  · rw [spellTag, hname, hmade.named hname] at hch
    simp at hch
  · apply hmade.first ch
    rwa [spellTag, List.head?_append_of_ne_nil _ hname] at hch

theorem endsInSpace_spellTag (hmade : MadeTag name attributes)
    (hsound : SoundTag xml selfClosed name attributes) :
    endsInSpace (spellTag xml name attributes) = false := by
  cases attributes with
  | nil =>
      rw [spellTag, spellAttributes_nil, List.append_nil]
      exact hsound.trimmed rfl
  | cons attr attributes =>
      rw [spellTag, endsInSpace_append (by simp [spellAttributes_cons])]
      exact endsInSpace_spellAttributes hmade.made hsound.ends

theorem trimSpace_spellTag (hmade : MadeTag name attributes)
    (hsound : SoundTag xml selfClosed name attributes) :
    trimSpace (spellTag xml name attributes) = spellTag xml name attributes := by
  apply Trimmed.trim_eq
  apply trimmed_of_ends
  · exact fun ch hch => (head_spellTag hmade ch hch).1
  · exact endsInSpace_spellTag hmade hsound

def spellBody (xml selfClosed : Bool) (name : List Char) (attributes : List Attribute) :
    List Char :=
  spellTag xml name attributes ++ spellSlash selfClosed

theorem spellTag_ne_nil (hsound : SoundTag xml true name attributes) :
    spellTag xml name attributes ≠ [] := by
  rw [spellTag]
  exact fun h => hsound.named rfl (List.append_eq_nil_iff.mp h).1

theorem head_spellBody (hmade : MadeTag name attributes)
    (hsound : SoundTag xml selfClosed name attributes) :
    ∀ ch ∈ (spellBody xml selfClosed name attributes).head?, isSpace ch = false ∧ ch ≠ '/' := by
  intro ch hch
  apply (@head_spellTag xml name attributes hmade) ch
  cases selfClosed with
  | true => rwa [spellBody, List.head?_append_of_ne_nil _ (spellTag_ne_nil hsound)] at hch
  | false => rwa [spellBody, spellSlash, if_neg Bool.false_ne_true, List.append_nil] at hch

theorem trimSpace_spellBody (hmade : MadeTag name attributes)
    (hsound : SoundTag xml selfClosed name attributes) :
    trimSpace (spellBody xml selfClosed name attributes) =
      spellBody xml selfClosed name attributes := by
  cases selfClosed with
  | true =>
      apply Trimmed.trim_eq
      apply trimmed_of_ends
      · exact fun ch hch => (head_spellBody hmade hsound ch hch).1
      · rw [spellBody, endsInSpace_append (by simp [spellSlash])]
        rfl
  | false =>
      rw [spellBody, spellSlash, if_neg Bool.false_ne_true, List.append_nil]
      exact trimSpace_spellTag hmade hsound

theorem parseTag_of_head {body : List Char} (hhead : ∀ ch ∈ body.head?, ch ≠ '/') :
    parseTag span xml body =
      (let trimmed := trimSpace (trimSlash body)
       let parsed := parseAttrs span xml ((trimmed.dropWhile (· ≠ ' ')).drop 1)
       (.start (trimmed.takeWhile (· ≠ ' ')) parsed.1 (body.getLast? = some '/'), parsed.2)) := by
  rw [parseTag.eq_def]
  dsimp only
  split
  next name => exact absurd rfl (hhead '/' rfl)
  next => rfl

theorem selfClosed_spellBody (hmade : MadeTag name attributes)
    (hsound : SoundTag xml selfClosed name attributes) :
    decide ((spellBody xml selfClosed name attributes).getLast? = some '/') = selfClosed := by
  cases selfClosed with
  | true => simp [spellBody, spellSlash]
  | false =>
      rw [spellBody, spellSlash, if_neg Bool.false_ne_true, List.append_nil, decide_eq_false_iff_not]
      cases attributes with
      | nil =>
          rw [spellTag, spellAttributes_nil, List.append_nil]
          exact hsound.slash rfl rfl
      | cons attr attributes =>
          have hne : spellAttributes xml (attr :: attributes) ≠ [] := by simp [spellAttributes_cons]
          rw [spellTag, List.getLast?_append_of_ne_nil _ hne]
          exact getLast_spellAttributes hmade.made

theorem trimSlash_spellBody (hmade : MadeTag name attributes)
    (hsound : SoundTag xml selfClosed name attributes) :
    trimSlash (spellBody xml selfClosed name attributes) = spellTag xml name attributes := by
  have hlast := selfClosed_spellBody hmade hsound
  cases selfClosed with
  | true =>
      rw [trimSlash, if_pos (of_decide_eq_true hlast), spellBody, spellSlash, if_pos rfl,
        List.dropLast_concat]
  | false =>
      rw [trimSlash, if_neg (of_decide_eq_false hlast), spellBody, spellSlash,
        if_neg Bool.false_ne_true, List.append_nil]

theorem takeWhile_spellTag (hmade : MadeTag name attributes) :
    (spellTag xml name attributes).takeWhile (· ≠ ' ') = name ∧
      (spellTag xml name attributes).dropWhile (· ≠ ' ') = spellAttributes xml attributes := by
  have hname : ∀ ch ∈ name, decide (ch ≠ ' ') = true := by
    intro ch hch
    exact decide_eq_true (hmade.letters ch hch).1
  have hstop : (spellAttributes xml attributes).takeWhile (· ≠ ' ') = [] ∧
      (spellAttributes xml attributes).dropWhile (· ≠ ' ') = spellAttributes xml attributes := by
    cases attributes with
    | nil => exact ⟨rfl, rfl⟩
    | cons attr attributes =>
        rw [spellAttributes_cons]
        exact ⟨rfl, rfl⟩
  rw [spellTag, List.takeWhile_append_of_pos hname, List.dropWhile_append_of_pos hname, hstop.1,
    hstop.2, List.append_nil]
  exact ⟨rfl, rfl⟩

theorem parseTag_spellBody (hmade : MadeTag name attributes)
    (hsound : SoundTag xml selfClosed name attributes) :
    ∃ rounds, attributes.length ≤ rounds ∧
      (parseTag span xml (spellBody xml selfClosed name attributes)).1 =
        .start name (parseAttrsLoop span xml rounds (spellAttributes xml attributes)).1
          selfClosed := by
  have hhead := head_spellBody hmade hsound
  rw [parseTag_of_head fun ch hch => (hhead ch hch).2, trimSlash_spellBody hmade hsound,
    trimSpace_spellTag hmade hsound, selfClosed_spellBody hmade hsound]
  obtain ⟨htake, hdrop⟩ := @takeWhile_spellTag xml name attributes hmade
  have hlength := @length_spellAttributes xml attributes hmade.made
  refine ⟨((spellAttributes xml attributes).drop 1).length, ?_, ?_⟩
  · rw [List.length_drop]
    omega
  · simp only [htake, hdrop]
    rw [parseAttrs, ← trimSpace_spellAttributes hmade.made hsound.ends, parseAttrsLoop_trimSpace,
      trimSpace_spellAttributes hmade.made hsound.ends]

theorem not_mem_spellBody (hmade : MadeTag name attributes) :
    '>' ∉ spellBody xml selfClosed name attributes := by
  have hname : '>' ∉ name := fun hmem => (hmade.letters '>' hmem).2 rfl
  have hattributes := @not_mem_spellAttributes xml attributes hmade.made
  cases selfClosed <;> simp [spellBody, spellTag, spellSlash, hname, hattributes]

theorem spellBody_append (xml selfClosed : Bool) (name : List Char) (attributes : List Attribute)
    (rest : List Char) :
    ∃ ch more, spellBody xml selfClosed name attributes ++ '>' :: rest = name ++ ch :: more ∧
      (ch = ' ' ∨ ch = '/' ∨ ch = '>') := by
  cases attributes with
  | nil =>
      cases selfClosed with
      | true => exact ⟨'/', '>' :: rest, by simp [spellBody, spellTag, spellSlash], by simp⟩
      | false => exact ⟨'>', rest, by simp [spellBody, spellTag, spellSlash], by simp⟩
  | cons attr attributes =>
      refine ⟨' ', (attr.name ++ (spellValue xml attr ++ spellAttributes xml attributes)) ++
        (spellSlash selfClosed ++ '>' :: rest), ?_, Or.inl rfl⟩
      simp [spellBody, spellTag, spellAttributes_cons]

theorem not_section {name text : List Char} {ch : Char} (hname : opensSection name = false)
    (hch : ch = ' ' ∨ ch = '/' ∨ ch = '>') :
    commentOpening.isPrefixOf ('<' :: (name ++ ch :: text)) = false ∧
      cdataOpening.isPrefixOf ('<' :: (name ++ ch :: text)) = false ∧
        processingOpening.isPrefixOf ('<' :: (name ++ ch :: text)) = false := by
  simp only [opensSection, Bool.or_eq_false_iff] at hname
  obtain ⟨⟨hcomment, hcdata⟩, hprocessing⟩ := hname
  have hout : ∀ pattern : List Char, ' ' ∉ pattern → '/' ∉ pattern → '>' ∉ pattern →
      pattern.isPrefixOf (name ++ ch :: text) = pattern.isPrefixOf name := by
    intro pattern hspace hslash hangle
    apply Slices.isPrefixOf_append_cons
    rcases hch with rfl | rfl | rfl
    · exact hspace
    · exact hslash
    · exact hangle
  refine ⟨?_, ?_, ?_⟩
  · rw [commentOpening, List.isPrefixOf, hout _ (by simp) (by simp) (by simp), hcomment]
    rfl
  · rw [cdataOpening, List.isPrefixOf, hout _ (by simp) (by simp) (by simp), hcdata]
    rfl
  · rw [processingOpening, List.isPrefixOf, hout _ (by simp) (by simp) (by simp), hprocessing]
    rfl

theorem scanMarkup_tag {body : List Char} (hangle : '>' ∉ body)
    (hcomment : commentOpening.isPrefixOf ('<' :: (body ++ '>' :: rest)) = false)
    (hcdata : cdataOpening.isPrefixOf ('<' :: (body ++ '>' :: rest)) = false)
    (hprocessing : processingOpening.isPrefixOf ('<' :: (body ++ '>' :: rest)) = false) :
    scanMarkup span xml ('<' :: (body ++ '>' :: rest)) =
      some ⟨(parseTag span xml (trimSpace body)).1, (parseTag span xml (trimSpace body)).2,
        body.length + 2⟩ := by
  have hfound : Slices.indexOf ['>'] ('<' :: (body ++ '>' :: rest)) = some (body.length + 1) := by
    have hbody : '>' ∉ '<' :: body := by simp [hangle]
    exact Slices.indexOf_letter hbody
  have hslice : ((('<' :: (body ++ '>' :: rest)).take (body.length + 1)).drop 1) = body := by
    simp
  rw [scanMarkup, if_neg (by simp), hcomment, hcdata, hprocessing]
  simp only [Bool.false_eq_true, if_false, scanTag, hfound, hslice]
  rw [if_neg (by omega)]
  simp

theorem scanMarkup_startTag (hmade : MadeTag name attributes) (hname : opensSection name = false) :
    scanMarkup span xml ('<' :: (spellBody xml selfClosed name attributes ++ '>' :: rest)) =
      some ⟨(parseTag span xml (trimSpace (spellBody xml selfClosed name attributes))).1,
        (parseTag span xml (trimSpace (spellBody xml selfClosed name attributes))).2,
        (spellBody xml selfClosed name attributes).length + 2⟩ := by
  obtain ⟨ch, more, hsplit, hch⟩ := spellBody_append xml selfClosed name attributes rest
  obtain ⟨hcomment, hcdata, hprocessing⟩ := @not_section name more ch hname hch
  rw [← hsplit] at hcomment hcdata hprocessing
  exact scanMarkup_tag (not_mem_spellBody hmade) hcomment hcdata hprocessing

theorem event_startTag (hmade : MadeTag name attributes)
    (hlegible : LegibleTag xml selfClosed name attributes) :
    (parseTag span xml (trimSpace (spellBody xml selfClosed name attributes))).1.event =
      .start name (attributes.map Attribute.binding) selfClosed := by
  obtain ⟨rounds, hrounds, hstart⟩ := @parseTag_spellBody span xml selfClosed name attributes hmade
    hlegible.sound
  rw [trimSpace_spellBody hmade hlegible.sound, hstart, Mark.event,
    parseAttrsLoop_spell hmade.made hlegible.quotes hlegible.sound.ends hrounds]

theorem scanMarkup_stop (hmade : MadeTag name attributes) (hends : endsInSpace name = false) :
    scanMarkup span xml ('<' :: '/' :: (name ++ '>' :: rest)) =
      some ⟨.stop name, [], name.length + 3⟩ := by
  have hname : trimSpace name = name := by
    apply Trimmed.trim_eq
    apply trimmed_of_ends _ hends
    exact fun ch hch => (hmade.first ch hch).1
  have hbody : trimSpace ('/' :: name) = '/' :: name := by
    apply trimSpace_cons rfl
    cases name with
    | nil => rfl
    | cons ch name => rwa [← List.singleton_append, endsInSpace_append (by simp)]
  have hangle : '>' ∉ '/' :: name := by
    have hletters : '>' ∉ name := fun hmem => (hmade.letters '>' hmem).2 rfl
    simp [hletters]
  have hscan := @scanMarkup_tag span xml rest ('/' :: name) hangle rfl rfl rfl
  rw [hbody, parseTag, hname] at hscan
  exact hscan

end Tags

section Leaves

variable {span : Span} {xml : Bool} {text rest : List Char}

theorem scanSection_spell {q : List Char} {c : Char} (opening : List Char) (message : String)
    (mark : List Char → Mark) (hc : c ∉ q) (htext : ¬(q ++ [c]) <:+: text) :
    scanSection span xml opening (q ++ [c]) message mark
        (opening ++ (text ++ ((q ++ [c]) ++ rest))) =
      ⟨mark text, [], (opening ++ (text ++ (q ++ [c]))).length⟩ := by
  have hbody : (opening ++ (text ++ ((q ++ [c]) ++ rest))).drop opening.length =
      text ++ ((q ++ [c]) ++ rest) := List.drop_left
  have hclosing : (opening ++ (text ++ ((q ++ [c]) ++ rest))).drop (opening.length + text.length) =
      (q ++ [c]) ++ rest := by
    rw [← List.drop_drop, hbody, List.drop_left]
  have hclosed : (q ++ [c]).isPrefixOf ((q ++ [c]) ++ rest) = true := by simp
  simp only [scanSection, hbody, Slices.indexOf_append hc htext, hclosing, hclosed, if_true,
    List.take_left]
  congr 1
  simp
  omega

def LeafType.mark : LeafType → List Char → Mark
  | .text => .text
  | .comment => .comment
  | .processing => .processing
  | .cdata => .cdata

theorem scanMarkup_leaf {type : LeafType} (htype : type ≠ .text) (hmade : MadeLeaf type text) :
    scanMarkup span xml (serializeLeaf type text ++ rest) =
      some ⟨type.mark text, [], (serializeLeaf type text).length⟩ := by
  cases type with
  | text => exact absurd rfl htype
  | comment =>
      have hscan := @scanSection_spell span xml text rest ['-', '-'] '>' commentOpening
        "unterminated comment" .comment (by simp) hmade
      simp only [serializeLeaf, List.append_assoc]
      exact congrArg some hscan
  | processing =>
      have htrim : trimSpace text = text := hmade.2.trim_eq
      have hscan := @scanSection_spell span xml text rest ['?'] '>' processingOpening
        "unterminated processing instruction" (fun raw => .processing (trimSpace raw)) (by simp)
        hmade.1
      rw [htrim] at hscan
      simp only [serializeLeaf, List.append_assoc]
      exact congrArg some hscan
  | cdata =>
      have hscan := @scanSection_spell span xml text rest [']', ']'] '>' cdataOpening
        "unterminated cdata" .cdata (by simp) hmade
      simp only [serializeLeaf, List.append_assoc]
      exact congrArg some hscan

theorem scanMarkup_text (hne : text ≠ []) (hmade : '<' ∉ text)
    (hrest : ∀ ch ∈ rest.head?, ch = '<') :
    scanMarkup span xml (text ++ rest) = some ⟨.text text, [], text.length⟩ := by
  have hhead : (text ++ rest).head? ≠ some '<' := by
    rw [List.head?_append_of_ne_nil _ hne]
    exact fun h => hmade (List.mem_of_mem_head? h)
  have hnext : (Slices.indexOf ['<'] (text ++ rest)).getD (text ++ rest).length = text.length := by
    cases rest with
    | nil => rw [List.append_nil, Slices.indexOf_letter_eq_none hmade]; rfl
    | cons ch rest =>
        obtain rfl : ch = '<' := hrest ch rfl
        rw [Slices.indexOf_letter hmade]
        rfl
  rw [scanMarkup, if_pos hhead, scanText, hnext, List.take_left]

end Leaves

end Jayess.Webparse
