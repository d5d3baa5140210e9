import Jayess.Text.Lines

/-!
# Paths

Unix paths as bytes, and their lexical processing: cleaning, joining, the parent directory and the
extension.
-/

namespace SlashPath

open Lines

def slash : UInt8 := 0x2F

def dot : List UInt8 := [0x2E]

def dotdot : List UInt8 := [0x2E, 0x2E]

def isAbs (path : List UInt8) : Bool := path.head? = some slash

/-- A further element of a path. A parent of the root is the root. -/
def push (rooted : Bool) (elements : List (List UInt8)) (element : List UInt8) : List (List UInt8) :=
  if element = [] ∨ element = dot then elements
  else if element = dotdot then
    if elements = [] ∨ elements.getLast? = some dotdot then
      if rooted then elements else elements ++ [dotdot]
    else elements.dropLast
  else elements ++ [element]

def elements (path : List UInt8) : List (List UInt8) := (split slash path).foldl (push (isAbs path)) []

def unite (parts : List (List UInt8)) : List UInt8 := List.intercalate [slash] parts

def clean (path : List UInt8) : List UInt8 :=
  if isAbs path then slash :: unite (elements path)
  else if elements path = [] then dot else unite (elements path)

def join (parts : List (List UInt8)) : List UInt8 :=
  let parts := parts.dropWhile (· = [])
  if parts = [] then [] else clean (unite parts)

def dir (path : List UInt8) : List UInt8 := clean (path.reverse.dropWhile (· ≠ slash)).reverse

/-- `filepath.Ext`: from the last dot of the last element on. -/
def ext (path : List UInt8) : List UInt8 :=
  let last := path.reverse.takeWhile (· ≠ slash)
  if 0x2E ∈ last then 0x2E :: (last.takeWhile (· ≠ 0x2E)).reverse else []

/-- `strings.ToLower` as far as it is compared with `.js`: no rune outside ASCII is a `j` or an `s` in lower
case. -/
def toLower (text : List UInt8) : List UInt8 :=
  text.map fun byte => if 0x41 ≤ byte ∧ byte ≤ 0x5A then byte + 0x20 else byte

def root (elements : List (List UInt8)) : List UInt8 := slash :: unite elements

/-- An element that cleaning leaves as it is. -/
structure Plain (element : List UInt8) : Prop where
  ne_nil : element ≠ []
  ne_dot : element ≠ dot
  ne_dotdot : element ≠ dotdot
  not_slash : slash ∉ element

/-! ## Elements -/

section Elements

variable {path rest text element : List UInt8} {parts others : List (List UInt8)}

theorem unite_cons (hne : parts ≠ []) : unite (element :: parts) = element ++ slash :: unite parts := by
  obtain ⟨part, parts, rfl⟩ := List.exists_cons_of_ne_nil hne
  rw [unite, List.intercalate_cons_cons, List.append_assoc]
  rfl

theorem unite_singleton : unite [element] = element := List.intercalate_singleton

theorem split_unite (hne : parts ≠ []) : split slash (unite parts) = parts.flatMap (split slash) := by
  induction parts with
  | nil => exact absurd rfl hne
  | cons part parts ih =>
      by_cases hnil : parts = []
      · rw [hnil, unite_singleton, List.flatMap_singleton]
      · rw [unite_cons hnil, split_append, ih hnil, List.flatMap_cons]

theorem flatMap_split (hplain : ∀ part ∈ parts, slash ∉ part) : parts.flatMap (split slash) = parts := by
  induction parts with
  | nil => rfl
  | cons part parts ih =>
      rw [List.forall_mem_cons] at hplain
      rw [List.flatMap_cons, split_eq_singleton hplain.1, ih hplain.2, List.singleton_append]

theorem push_plain (hplain : Plain element) (rooted : Bool) : push rooted parts element = parts ++ [element] := by
  rw [push, if_neg (not_or.mpr ⟨hplain.ne_nil, hplain.ne_dot⟩), if_neg hplain.ne_dotdot]

theorem foldl_push (hplain : ∀ part ∈ others, Plain part) (rooted : Bool) :
    others.foldl (push rooted) parts = parts ++ others := by
  induction others generalizing parts with
  | nil => exact (List.append_nil parts).symm
  | cons part others ih =>
      rw [List.forall_mem_cons] at hplain
      rw [List.foldl_cons, push_plain hplain.1, ih hplain.2, List.append_assoc, List.singleton_append]

theorem plain_push (hparts : ∀ part ∈ parts, Plain part) (helement : slash ∉ element) :
    ∀ part ∈ push true parts element, Plain part := by
  rw [push]
  split_ifs with hskip hparent hroot htrue
  · exact hparts
  · exact hparts
  · exact absurd rfl htrue
  · exact fun part hpart => hparts part (List.mem_of_mem_dropLast hpart)
  · intro part hpart
    rcases List.mem_append.mp hpart with hpart | hpart
    · exact hparts part hpart
    · rw [List.mem_singleton.mp hpart]
      exact ⟨fun hnil => hskip (.inl hnil), fun hdot => hskip (.inr hdot), hparent, helement⟩

theorem plain_foldl (hparts : ∀ part ∈ parts, Plain part) (hothers : ∀ part ∈ others, slash ∉ part) :
    ∀ part ∈ others.foldl (push true) parts, Plain part := by
  induction others generalizing parts with
  | nil => exact hparts
  | cons part others ih =>
      rw [List.forall_mem_cons] at hothers
      exact ih (plain_push hparts hothers.1) hothers.2

theorem plain_elements (habs : isAbs path = true) : ∀ part ∈ elements path, Plain part := by
  rw [elements, habs]
  exact plain_foldl (by simp) not_mem_split

theorem elements_append (habs : isAbs path = true) (rest : List UInt8) :
    elements (path ++ slash :: rest) = (split slash rest).foldl (push true) (elements path) := by
  have hwhole : isAbs (path ++ slash :: rest) = true := by
    cases path with
    | nil => cases habs
    | cons byte path => exact habs
  rw [elements, elements, habs, hwhole, split_append, List.foldl_append]

theorem elements_root (hplain : ∀ part ∈ parts, Plain part) : elements (root parts) = parts := by
  have habs : isAbs (root parts) = true := rfl
  have hsplit : split slash (root parts) = [] :: split slash (unite parts) := split_append [] (unite parts)
  rw [elements, habs, hsplit, List.foldl_cons, push, if_pos (.inl rfl)]
  by_cases hnil : parts = []
  · rw [hnil]
    rfl
  · rw [split_unite hnil, flatMap_split fun part hpart => (hplain part hpart).not_slash, foldl_push hplain,
      List.nil_append]

theorem clean_of_isAbs (habs : isAbs path = true) : clean path = root (elements path) := if_pos habs

theorem clean_root (hplain : ∀ part ∈ parts, Plain part) : clean (root parts) = root parts := by
  rw [clean_of_isAbs rfl, elements_root hplain]

theorem join_eq (habs : isAbs path = true) (hne : parts ≠ []) :
    join (path :: parts) = root ((parts.flatMap (split slash)).foldl (push true) (elements path)) := by
  have hpath : ¬(path = []) := by
    rintro rfl
    cases habs
  have hwhole : isAbs (path ++ slash :: unite parts) = true := by
    cases path with
    | nil => cases habs
    | cons byte path => exact habs
  rw [join, List.dropWhile_cons_of_neg (by simpa using hpath), if_neg (List.cons_ne_nil _ _), unite_cons hne,
    clean_of_isAbs hwhole, elements_append habs, split_unite hne]

theorem elements_slash (habs : isAbs (path ++ slash :: rest) = true) :
    elements (path ++ slash :: rest) = (split slash rest).foldl (push true) (elements (path ++ [slash])) := by
  cases path with
  | nil =>
      have hsplit : split slash ([] ++ slash :: rest) = [] :: split slash rest := split_append [] rest
      rw [elements, habs, hsplit, List.foldl_cons, push, if_pos (.inl rfl)]
      rfl
  | cons byte path =>
      have hpath : isAbs (byte :: path) = true := habs
      rw [elements_append hpath, elements_append hpath]
      rfl

theorem dir_eq (habs : isAbs (path ++ slash :: element) = true) (helement : slash ∉ element) :
    dir (path ++ slash :: element) = root (elements (path ++ [slash])) ∧
      (∀ part ∈ elements (path ++ [slash]), Plain part) ∧
      elements (path ++ slash :: element) = push true (elements (path ++ [slash])) element := by
  have hparent : isAbs (path ++ [slash]) = true := by
    cases path with
    | nil => rfl
    | cons byte path => exact habs
  have hcut : ((path ++ slash :: element).reverse.dropWhile (· ≠ slash)).reverse = path ++ [slash] := by
    have hreverse : (path ++ slash :: element).reverse = element.reverse ++ slash :: path.reverse := by simp
    rw [hreverse, (cut_eq (by simpa using helement)).2]
    simp
  refine ⟨?_, plain_elements hparent, ?_⟩
  · rw [dir, hcut, clean_of_isAbs hparent]
  · rw [elements_slash habs, split_eq_singleton helement]
    rfl

theorem exists_last (habs : isAbs path = true) :
    ∃ before element, path = before ++ slash :: element ∧ slash ∉ element := by
  have hmem : slash ∈ path.reverse := by
    cases path with
    | nil => cases habs
    | cons byte path =>
        have hbyte : some byte = some slash := by simpa [isAbs] using habs
        rw [Option.some.inj hbyte]
        simp
  obtain ⟨element, before, hreverse, helement⟩ := List.eq_append_cons_of_mem hmem
  refine ⟨before.reverse, element.reverse, ?_, by simpa using helement⟩
  rw [← List.reverse_reverse path, hreverse]
  simp

theorem root_concat (hne : parts ≠ []) : root (parts ++ [element]) = root parts ++ slash :: element := by
  have hunite : unite (parts ++ [element]) = unite parts ++ slash :: element := by
    induction parts with
    | nil => exact absurd rfl hne
    | cons part parts ih =>
        by_cases hnil : parts = []
        · rw [hnil, List.singleton_append, unite_cons (List.cons_ne_nil _ _), unite_singleton, unite_singleton]
        · rw [List.cons_append, unite_cons (by simp), ih hnil, unite_cons hnil, List.append_assoc,
            List.cons_append]
  rw [root, hunite]
  rfl

theorem exists_root_concat (hparts : ∀ part ∈ parts, Plain part) : ∃ before,
    elements (before ++ [slash]) = parts ∧
      ∀ element, root (parts ++ [element]) = before ++ slash :: element := by
  by_cases hnil : parts = []
  · subst hnil
    exact ⟨[], rfl, fun element => congrArg _ unite_singleton⟩
  · refine ⟨root parts, ?_, fun element => root_concat hnil⟩
    have habs : isAbs (root parts) = true := rfl
    rw [elements_append habs, elements_root hparts]
    rfl

theorem dir_root (hparts : ∀ part ∈ parts, Plain part) (helement : slash ∉ element) :
    dir (root (parts ++ [element])) = root parts := by
  obtain ⟨before, hbefore, hroot⟩ := exists_root_concat hparts
  have habs : isAbs (before ++ slash :: element) = true := by
    rw [← hroot element]
    rfl
  rw [hroot, (dir_eq habs helement).1, hbefore]

theorem dir_root_nil : dir (root []) = root [] := by rfl

theorem length_split (text : List UInt8) : (split slash text).length ≤ text.length + 1 := by
  have hfrom : ∀ part, (splitFrom slash part text).length ≤ text.length + 1 := by
    induction text with
    | nil => exact fun part => le_rfl
    | cons byte text ih =>
        intro part
        rw [splitFrom, List.length_cons]
        split_ifs
        · exact Nat.succ_le_succ (ih [])
        · exact (ih _).trans (Nat.le_succ _)
  exact hfrom []

theorem length_foldl_push (rooted : Bool) :
    (others.foldl (push rooted) parts).length ≤ parts.length + others.length := by
  induction others generalizing parts with
  | nil => exact le_rfl
  | cons part others ih =>
      have hpush : (push rooted parts part).length ≤ parts.length + 1 := by
        rw [push]
        split_ifs <;> simp
        omega
      calc ((part :: others).foldl (push rooted) parts).length
          ≤ (push rooted parts part).length + others.length := ih
        _ ≤ parts.length + (part :: others).length := by rw [List.length_cons]; omega

theorem length_elements (habs : isAbs path = true) : (elements path).length ≤ path.length := by
  cases path with
  | nil => cases habs
  | cons byte path =>
      have hbyte : byte = slash := by simpa [isAbs] using habs
      subst hbyte
      have hsplit : split slash (slash :: path) = [] :: split slash path := split_append [] path
      calc (elements (slash :: path)).length
          = ((split slash path).foldl (push true) []).length := by
            rw [elements, habs, hsplit, List.foldl_cons, push, if_pos (.inl rfl)]
        _ ≤ (split slash path).length := by simpa using @length_foldl_push [] (split slash path) true
        _ ≤ (slash :: path).length := length_split path

theorem length_elements_parent (habs : isAbs (path ++ slash :: element) = true) :
    (elements (path ++ [slash])).length < (path ++ slash :: element).length := by
  have hlength : (elements (path ++ [slash])).length ≤ path.length := by
    cases path with
    | nil => exact le_rfl
    | cons byte path =>
        have hpath : isAbs (byte :: path) = true := habs
        have hsame : elements (byte :: path ++ [slash]) = elements (byte :: path) := elements_append hpath []
        rw [hsame]
        exact length_elements hpath
  rw [List.length_append, List.length_cons]
  omega

end Elements

section Extensions

variable {path element suffix : List UInt8} {parts : List (List UInt8)}

theorem ext_append (helement : slash ∉ element) : ext (path ++ slash :: element) = ext element := by
  have hreverse : (path ++ slash :: element).reverse = element.reverse ++ slash :: path.reverse := by simp
  have hself : element.reverse.takeWhile (· ≠ slash) = element.reverse := by
    rw [List.takeWhile_eq_self_iff]
    intro byte hbyte
    exact decide_eq_true (ne_of_mem_of_not_mem hbyte (by simpa using helement))
  rw [ext, ext, hreverse, (cut_eq (by simpa using helement)).1, hself]

theorem ext_suffix (helement : slash ∉ element) (hslash : slash ∉ suffix) (hdot : 0x2E ∉ suffix) :
    ext (element ++ 0x2E :: suffix) = 0x2E :: suffix := by
  have hreverse : (element ++ 0x2E :: suffix).reverse = suffix.reverse ++ 0x2E :: element.reverse := by simp
  have hself : (suffix.reverse ++ 0x2E :: element.reverse).takeWhile (· ≠ slash) =
      suffix.reverse ++ 0x2E :: element.reverse := by
    rw [List.takeWhile_eq_self_iff]
    intro byte hbyte
    refine decide_eq_true (ne_of_mem_of_not_mem hbyte ?_)
    simp only [List.mem_append, List.mem_cons, List.mem_reverse, not_or]
    exact ⟨hslash, by decide, helement⟩
  rw [ext, hreverse, hself, if_pos (by simp), (cut_eq (by simpa using hdot)).1, List.reverse_reverse]

end Extensions

section Below

variable {path sub : List UInt8} {parts : List (List UInt8)}

def Cleaned (path : List UInt8) : Prop :=
  ∃ parts, parts ≠ [] ∧ (∀ part ∈ parts, Plain part) ∧ path = root parts

def Relative (sub : List UInt8) : Prop := ∀ part ∈ split slash sub, Plain part

theorem root_append {others : List (List UInt8)} (hparts : parts ≠ []) (hothers : others ≠ []) :
    root (parts ++ others) = root parts ++ slash :: unite others := by
  induction others using List.reverseRecOn with
  | nil => exact absurd rfl hothers
  | append_singleton others other ih =>
      by_cases hnil : others = []
      · rw [hnil, List.nil_append, unite_singleton, root_concat hparts]
      · have hroot : root (others ++ [other]) = root others ++ slash :: other := root_concat hnil
        rw [root, root, List.cons_append, List.cons_inj_right] at hroot
        rw [← List.append_assoc, root_concat (by simp [hparts]), ih hnil, hroot, List.append_assoc,
          List.cons_append]

theorem unite_split (sub : List UInt8) : unite (split slash sub) = sub := by
  have hfrom : ∀ part, unite (splitFrom slash part sub) = part ++ sub := by
    induction sub with
    | nil => intro part; rw [splitFrom, unite_singleton, List.append_nil]
    | cons byte sub ih =>
        intro part
        rw [splitFrom]
        by_cases hslash : byte = slash
        · have hne : splitFrom slash [] sub ≠ [] := by
            obtain ⟨parts, last, hsplit, -⟩ := @exists_split slash sub
            rw [split] at hsplit
            rw [hsplit]
            simp
          rw [if_pos hslash, unite_cons hne, ih, hslash, List.nil_append]
        · rw [if_neg hslash, ih, List.append_assoc, List.singleton_append]
  exact hfrom []

theorem Cleaned.isAbs (hpath : Cleaned path) : isAbs path = true := by
  obtain ⟨parts, -, -, rfl⟩ := hpath
  rfl

theorem Cleaned.clean_eq (hpath : Cleaned path) : clean path = path := by
  obtain ⟨parts, -, hparts, rfl⟩ := hpath
  exact clean_root hparts

theorem split_ne_nil (sub : List UInt8) : split slash sub ≠ [] := by
  obtain ⟨parts, last, hsplit, -⟩ := @exists_split slash sub
  rw [hsplit]
  simp

theorem Cleaned.append (hpath : Cleaned path) (hsub : Relative sub) : Cleaned (path ++ slash :: sub) := by
  obtain ⟨parts, hne, hparts, rfl⟩ := hpath
  refine ⟨parts ++ split slash sub, by simp [hne], ?_, ?_⟩
  · intro part hpart
    exact (List.mem_append.mp hpart).elim (hparts part) (hsub part)
  · rw [root_append hne (split_ne_nil sub), unite_split]

theorem Cleaned.join_eq (hpath : Cleaned path) (hsub : Relative sub) :
    join [path, sub] = path ++ slash :: sub := by
  obtain ⟨parts, hne, hparts, rfl⟩ := hpath
  rw [SlashPath.join_eq rfl (List.cons_ne_nil _ _), List.flatMap_singleton, foldl_push hsub, elements_root hparts,
    root_append hne (split_ne_nil sub), unite_split]

theorem Plain.suffix {element suffix : List UInt8} (helement : Plain element) (hslash : slash ∉ suffix)
    (hne : suffix ≠ []) : Plain (element ++ 0x2E :: suffix) := by
  have hlength : 3 ≤ (element ++ 0x2E :: suffix).length := by
    have helementPos := List.length_pos_iff.mpr helement.ne_nil
    have hsuffixPos := List.length_pos_iff.mpr hne
    rw [List.length_append, List.length_cons]
    omega
  refine ⟨?_, ?_, ?_, ?_⟩
  · rintro hnil
    simp [hnil] at hlength
  · rintro hdot
    simp [hdot, dot] at hlength
  · rintro hdotdot
    simp [hdotdot, dotdot] at hlength
  · simp only [List.mem_append, List.mem_cons, not_or]
    exact ⟨helement.not_slash, by decide, hslash⟩

theorem Relative.suffix {suffix : List UInt8} (hsub : Relative sub) (hslash : slash ∉ suffix)
    (hne : suffix ≠ []) : Relative (sub ++ 0x2E :: suffix) := by
  obtain ⟨parts, last, hsplit, hrest⟩ := @exists_split slash sub
  have hwhole : slash ∉ 0x2E :: suffix := by
    rw [List.mem_cons, not_or]
    exact ⟨by decide, hslash⟩
  have hlast := splitFrom_eq_singleton last hwhole
  rw [Relative, hsplit] at hsub
  rw [Relative, hrest, hlast]
  intro part hpart
  rcases List.mem_append.mp hpart with hpart | hpart
  · exact hsub part (List.mem_append_left _ hpart)
  · rw [List.mem_singleton.mp hpart]
    exact (hsub last (List.mem_append_right _ (List.mem_singleton_self _))).suffix hslash hne

theorem Relative.append {other : List UInt8} (hsub : Relative sub) (hother : Relative other) :
    Relative (sub ++ slash :: other) := by
  rw [Relative, split_append]
  intro part hpart
  exact (List.mem_append.mp hpart).elim (hsub part) (hother part)

theorem Cleaned.suffix {suffix : List UInt8} (hpath : Cleaned path) (hslash : slash ∉ suffix)
    (hdot : 0x2E ∉ suffix) (hne : suffix ≠ []) :
    Cleaned (path ++ 0x2E :: suffix) ∧ ext (path ++ 0x2E :: suffix) = 0x2E :: suffix := by
  obtain ⟨parts, hnonempty, hparts, rfl⟩ := hpath
  obtain ⟨front, element, rfl⟩ := (List.eq_nil_or_concat parts).resolve_left hnonempty
  rw [List.concat_eq_append] at hparts ⊢
  have hfront : ∀ part ∈ front, Plain part := fun part hpart => hparts part (List.mem_append_left _ hpart)
  have helement : Plain element := hparts element (List.mem_append_right _ (List.mem_singleton_self _))
  have hlonger := helement.suffix hslash hne
  obtain ⟨before, -, hroot⟩ := exists_root_concat hfront
  have hwhole : root (front ++ [element]) ++ 0x2E :: suffix = root (front ++ [element ++ 0x2E :: suffix]) := by
    rw [hroot, hroot, List.append_assoc, List.cons_append]
  rw [hwhole]
  refine ⟨⟨_, by simp, ?_, rfl⟩, ?_⟩
  · intro part hpart
    rcases List.mem_append.mp hpart with hpart | hpart
    · exact hfront part hpart
    · rwa [List.mem_singleton.mp hpart]
  · rw [hroot, ext_append hlonger.not_slash, ext_suffix helement.not_slash hslash hdot]

end Below

end SlashPath
