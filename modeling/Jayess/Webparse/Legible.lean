import Jayess.Webparse.Outline

/-!
# Tags that are read back

What the parsers guarantee of the tags and leaves of a tree, what the serializer needs of them
besides, and the tokens that are read from what it writes.
-/

namespace Jayess.Webparse

open Slices (Trimmed)

structure Attribute.Made (attr : Attribute) : Prop where
  named : attr.name ≠ []
  letters : ∀ ch ∈ attr.name, endsAttrName ch = false
  first : ∀ ch ∈ attr.name.head?, isSpace ch = false
  value : '>' ∉ attr.value
  boolean : attr.boolean = true → attr.value = []

structure MadeTag (name : List Char) (attributes : List Attribute) : Prop where
  letters : ∀ ch ∈ name, ch ≠ ' ' ∧ ch ≠ '>'
  first : ∀ ch ∈ name.head?, isSpace ch = false ∧ ch ≠ '/'
  named : name = [] → attributes = []
  made : ∀ attr ∈ attributes, attr.Made

def MadeLeaf : LeafType → List Char → Prop
  | .text, text => '<' ∉ text
  | .comment, text => ¬commentClosing <:+: text
  | .processing, text => ¬processingClosing <:+: text ∧ Trimmed isSpace text
  | .cdata, text => ¬cdataClosing <:+: text

/-- The name makes the tag the opening of a comment, a CDATA section or a processing
instruction. -/
def opensSection (name : List Char) : Bool :=
  ['!', '-', '-'].isPrefixOf name || ['!', '[', 'C', 'D', 'A', 'T', 'A', '['].isPrefixOf name ||
    ['?'].isPrefixOf name

def endsInSpace (name : List Char) : Bool := name.getLast?.any isSpace

def EndsWell (xml : Bool) (attributes : List Attribute) : Prop :=
  xml = false → ∀ attr ∈ attributes.getLast?, attr.boolean = true → endsInSpace attr.name = false

/-- The parts of a start tag are told apart as they are written. -/
structure SoundTag (xml selfClosed : Bool) (name : List Char) (attributes : List Attribute) :
    Prop where
  /-- White space at the end of a tag is trimmed. -/
  trimmed : attributes = [] → endsInSpace name = false
  ends : EndsWell xml attributes
  /-- A slash at the end of a tag is its self-closing slash. -/
  slash : selfClosed = false → attributes = [] → name.getLast? ≠ some '/'
  /-- A slash at the begin of a tag is the slash of a closing tag. -/
  named : selfClosed = true → name ≠ []

structure PlainTag (selfClosed : Bool) (name : List Char) : Prop where
  opening : opensSection name = false
  closing : selfClosed = false → endsInSpace name = false

structure LegibleTag (xml selfClosed : Bool) (name : List Char) (attributes : List Attribute) :
    Prop where
  plain : PlainTag selfClosed name
  sound : SoundTag xml selfClosed name attributes
  /-- Values are written between double quotes. -/
  quotes : ∀ attr ∈ attributes, '"' ∉ attr.value

section Attributes

variable {span : Span} {xml : Bool} {attr : Attribute} {attributes : List Attribute}
  {rest text : List Char} {rounds : Nat}

def spellAttributes (xml : Bool) (attributes : List Attribute) : List Char :=
  attributes.flatMap (serializeAttribute xml)

def spellValue (xml : Bool) (attr : Attribute) : List Char :=
  if !attr.boolean || xml then ['=', '"'] ++ attr.value ++ ['"'] else []

@[simp] theorem spellAttributes_nil : spellAttributes xml [] = [] := rfl

theorem spellAttributes_cons :
    spellAttributes xml (attr :: attributes) =
      ' ' :: (attr.name ++ (spellValue xml attr ++ spellAttributes xml attributes)) := by
  simp [spellAttributes, serializeAttribute, spellValue]

theorem EndsWell.tail (h : EndsWell xml (attr :: attributes)) : EndsWell xml attributes := by
  intro hxml last hlast hboolean
  apply h hxml last _ hboolean
  cases attributes with
  | nil => simp at hlast
  | cons next attributes => simpa using hlast

theorem endsInSpace_append {first second : List Char} (h : second ≠ []) :
    endsInSpace (first ++ second) = endsInSpace second := by
  rw [endsInSpace, endsInSpace, List.getLast?_append]
  cases hlast : second.getLast? with
  | none => exact absurd (List.getLast?_eq_none_iff.mp hlast) h
  | some ch => rfl

theorem not_endsInSpace_iff {name : List Char} :
    endsInSpace name = false ↔ ∀ ch ∈ name.getLast?, isSpace ch = false := by
  rw [endsInSpace]
  cases name.getLast? <;> simp

theorem endsInSpace_spellAttributes (hmade : ∀ attr ∈ attributes, attr.Made)
    (hends : EndsWell xml attributes) : endsInSpace (spellAttributes xml attributes) = false := by
  induction attributes with
  | nil => rfl
  | cons attr attributes ih =>
      have hattr : attr.Made := hmade attr List.mem_cons_self
      rw [spellAttributes_cons]
      cases attributes with
      | nil =>
          rw [spellAttributes_nil, List.append_nil, ← List.singleton_append,
            endsInSpace_append (by simp [hattr.named])]
          by_cases hvalue : !attr.boolean || xml
          · rw [spellValue, if_pos hvalue, ← List.append_assoc, endsInSpace_append (by simp)]
            rfl
          · rw [spellValue, if_neg hvalue, List.append_nil]
            have hbare : attr.boolean = true ∧ xml = false := by simpa using hvalue
            exact hends hbare.2 attr rfl hbare.1
      | cons next attributes =>
          have htail : spellAttributes xml (next :: attributes) ≠ [] := by
            rw [spellAttributes_cons]
            simp
          rw [← List.append_assoc, ← List.cons_append, endsInSpace_append htail]
          apply ih
          · intro attr hattr
            exact hmade attr (List.mem_cons_of_mem _ hattr)
          · exact hends.tail

theorem trimmed_of_ends {text : List Char} (hfirst : ∀ ch ∈ text.head?, isSpace ch = false)
    (hlast : endsInSpace text = false) : Trimmed isSpace text :=
  ⟨hfirst, not_endsInSpace_iff.mp hlast⟩

theorem trimSpace_cons {ch : Char} {text : List Char} (hfirst : isSpace ch = false)
    (hlast : endsInSpace (ch :: text) = false) : trimSpace (ch :: text) = ch :: text := by
  apply Trimmed.trim_eq
  apply trimmed_of_ends _ hlast
  simpa using hfirst

theorem trimSpace_trimSpace (text : List Char) : trimSpace (trimSpace text) = trimSpace text :=
  (Slices.trimmed_trim isSpace text).trim_eq

theorem parseAttrsLoop_trimSpace (rounds : Nat) (input : List Char) :
    parseAttrsLoop span xml rounds (trimSpace input) = parseAttrsLoop span xml rounds input := by
  cases rounds with
  | zero => rfl
  | succ rounds => rw [parseAttrsLoop, parseAttrsLoop, trimSpace_trimSpace]

theorem readAttrName_append {name rest : List Char} (hname : ∀ ch ∈ name, endsAttrName ch = false)
    (hrest : ∀ ch ∈ rest.head?, endsAttrName ch = true) : readAttrName (name ++ rest) = name := by
  have hstop : rest.takeWhile (fun ch => !endsAttrName ch) = [] := by
    cases rest with
    | nil => rfl
    | cons ch rest =>
        have hch : endsAttrName ch = true := hrest ch rfl
        simp [hch]
  rw [readAttrName, List.takeWhile_append_of_pos, hstop, List.append_nil]
  intro ch hch
  simp [hname ch hch]

theorem readAttrValue_quoted {value rest : List Char} (hvalue : '"' ∉ value) :
    readAttrValue ('"' :: (value ++ '"' :: rest)) = (value, rest) := by
  have hfound : Slices.indexOf ['"'] (value ++ '"' :: rest) = some value.length :=
    Slices.indexOf_letter hvalue
  simp [readAttrValue, hfound]

theorem head_spellValue_append :
    ∀ ch ∈ (spellValue xml attr ++ spellAttributes xml attributes).head?,
      endsAttrName ch = true := by
  intro ch hch
  by_cases hvalue : !attr.boolean || xml
  · rw [spellValue, if_pos hvalue] at hch
    obtain rfl : '=' = ch := by simpa using hch
    rfl
  · rw [spellValue, if_neg hvalue, List.nil_append] at hch
    cases attributes with
    | nil => simp at hch
    | cons next attributes =>
        rw [spellAttributes_cons] at hch
        obtain rfl : ' ' = ch := by simpa using hch
        rfl

theorem trimSpace_spellAttributes (hmade : ∀ attr ∈ attributes, attr.Made)
    (hends : EndsWell xml attributes) :
    trimSpace (spellAttributes xml attributes) = (spellAttributes xml attributes).drop 1 := by
  cases attributes with
  | nil => rfl
  | cons attr attributes =>
      have hattr : attr.Made := hmade attr List.mem_cons_self
      have hlast := endsInSpace_spellAttributes hmade hends
      rw [spellAttributes_cons] at hlast ⊢
      have hne : attr.name ++ (spellValue xml attr ++ spellAttributes xml attributes) ≠ [] := by
        simp [hattr.named]
      rw [← List.singleton_append, endsInSpace_append hne] at hlast
      rw [trimSpace, Slices.trim_cons_of_pos rfl, List.drop_one, List.tail_cons]
      apply Trimmed.trim_eq
      apply trimmed_of_ends _ hlast
      intro ch hch
      apply hattr.first ch
      rwa [List.head?_append_of_ne_nil _ hattr.named] at hch

theorem parseAttrsLoop_value (hmade : ∀ other ∈ attr :: attributes, other.Made)
    (hends : EndsWell xml (attr :: attributes)) (hvalue : (!attr.boolean || xml) = true) :
    (parseAttrsLoop span xml (rounds + 1) (spellAttributes xml (attr :: attributes))).1 =
      ⟨attr.name, (readAttrValue ('"' :: (attr.value ++ '"' :: spellAttributes xml attributes))).1,
          false, span⟩ ::
        (parseAttrsLoop span xml rounds
          (readAttrValue ('"' :: (attr.value ++ '"' :: spellAttributes xml attributes))).2).1 := by
  have hattr : attr.Made := hmade attr List.mem_cons_self
  have hlast := endsInSpace_spellAttributes hmade hends
  have hname := @readAttrName_append attr.name
    (spellValue xml attr ++ spellAttributes xml attributes) hattr.letters head_spellValue_append
  have hspell : spellValue xml attr ++ spellAttributes xml attributes =
      '=' :: '"' :: (attr.value ++ '"' :: spellAttributes xml attributes) := by
    simp [spellValue, hvalue]
  rw [spellAttributes_cons, hspell, ← List.cons_append, endsInSpace_append (by simp)] at hlast
  have hquoted : endsInSpace ('"' :: (attr.value ++ '"' :: spellAttributes xml attributes))
      = false := by
    rwa [← List.singleton_append, endsInSpace_append (by simp)] at hlast
  rw [parseAttrsLoop, trimSpace_spellAttributes hmade hends, spellAttributes_cons]
  simp only [List.drop_one, List.tail_cons, hname, List.isEmpty_iff, hattr.named, if_false,
    List.drop_left]
  rw [hspell, trimSpace_cons rfl hlast]
  simp only []
  rw [trimSpace_cons rfl hquoted]

theorem parseAttrsLoop_boolean (hmade : ∀ other ∈ attr :: attributes, other.Made)
    (hends : EndsWell xml (attr :: attributes)) (hvalue : ¬(!attr.boolean || xml) = true) :
    (parseAttrsLoop span xml (rounds + 1) (spellAttributes xml (attr :: attributes))).1 =
      ⟨attr.name, [], true, span⟩ ::
        (parseAttrsLoop span xml rounds (spellAttributes xml attributes)).1 := by
  have hattr : attr.Made := hmade attr List.mem_cons_self
  have hmadeTail : ∀ other ∈ attributes, other.Made :=
    fun other h => hmade other (List.mem_cons_of_mem _ h)
  have hname := @readAttrName_append attr.name
    (spellValue xml attr ++ spellAttributes xml attributes) hattr.letters head_spellValue_append
  have hnext : ∀ input, trimSpace (spellAttributes xml attributes) ≠ '=' :: input := by
    intro input heq
    rw [trimSpace_spellAttributes hmadeTail hends.tail] at heq
    cases attributes with
    | nil => cases heq
    | cons next attributes =>
        have hnext : next.Made := hmadeTail next List.mem_cons_self
        rw [spellAttributes_cons, List.drop_one, List.tail_cons] at heq
        have hhead : next.name.head? = some '=' := by
          rw [← List.head?_append_of_ne_nil _ hnext.named, heq]
          rfl
        have hends := hnext.letters '=' (List.mem_of_mem_head? hhead)
        cases hends
  rw [parseAttrsLoop, trimSpace_spellAttributes hmade hends, spellAttributes_cons]
  simp only [List.drop_one, List.tail_cons, hname, List.isEmpty_iff, hattr.named, if_false,
    List.drop_left]
  rw [spellValue, if_neg hvalue, List.nil_append]
  split
  next input heq => exact absurd heq (hnext input)
  next => simp [parseAttrsLoop_trimSpace]

theorem parseAttrsLoop_spell (hmade : ∀ attr ∈ attributes, attr.Made)
    (hquotes : ∀ attr ∈ attributes, '"' ∉ attr.value) (hends : EndsWell xml attributes)
    (hrounds : attributes.length ≤ rounds) :
    (parseAttrsLoop span xml rounds (spellAttributes xml attributes)).1.map Attribute.binding =
      attributes.map Attribute.binding := by
  induction attributes generalizing rounds with
  | nil => cases rounds <;> rfl
  | cons attr attributes ih =>
      have hattr : attr.Made := hmade attr List.mem_cons_self
      cases rounds with
      | zero => simp at hrounds
      | succ rounds =>
          have htail := @ih rounds (fun other h => hmade other (List.mem_cons_of_mem _ h))
            (fun other h => hquotes other (List.mem_cons_of_mem _ h)) hends.tail
            (by simpa using hrounds)
          by_cases hvalue : (!attr.boolean || xml) = true
          · rw [parseAttrsLoop_value hmade hends hvalue,
              readAttrValue_quoted (hquotes attr List.mem_cons_self), List.map_cons, htail]
            rfl
          · have hbare : attr.boolean = true ∧ xml = false := by simpa using hvalue
            rw [parseAttrsLoop_boolean hmade hends hvalue, List.map_cons, htail, List.map_cons,
              Attribute.binding, Attribute.binding, hattr.boolean hbare.1]

end Attributes

end Jayess.Webparse
