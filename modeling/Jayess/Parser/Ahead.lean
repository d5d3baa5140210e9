import Jayess.Parser.OperatorTree

/-!
# The tokens ahead of a parser

The tokens that operator trees are printed with, and what the small steps and the lookaheads of the
parser do when only such tokens are ahead.
-/

namespace Jayess

/-- The types of the tokens that operator trees are printed with. -/
def TokenType.isPlain : TokenType → Bool
  | .tokenIdent | .tokenNumber | .tokenBigInt | .tokenString | .tokenTemplate | .tokenTrue
  | .tokenFalse | .tokenNull | .tokenUndefined | .tokenLParen | .tokenRParen | .tokenQuestion
  | .tokenColon | .tokenComma | .tokenNullish | .tokenAnd | .tokenOr | .tokenPlus | .tokenMinus
  | .tokenStar | .tokenPower | .tokenSlash | .tokenPercent | .tokenBitAnd | .tokenBitOr
  | .tokenBitXor | .tokenShiftLeft | .tokenShiftRight | .tokenUnsignedShift | .tokenEq
  | .tokenNe | .tokenStrictEq | .tokenStrictNe | .tokenLt | .tokenLte | .tokenGt | .tokenGte
  | .tokenIn | .tokenInstanceof | .tokenBang | .tokenBitNot | .tokenVoid | .tokenDelete
  | .tokenTypeof | .tokenAwait | .tokenIncrement | .tokenDecrement => true
  | _ => false

namespace Parser

def nextType : List Piece → TokenType
  | [] => .tokenEOF
  | piece :: _ => piece.type

def Ahead (p : Parser) : List Piece → Prop
  | [] => p.current.type = .tokenEOF
  | piece :: rest =>
      p.current.type = piece.type ∧ p.current.literal = piece.literal ∧
        piece.type.isPlain = true ∧ p.advanced.Ahead rest

variable {α β : Type} {p : Parser} {pieces rest : List Piece} {piece : Piece}

theorem Ahead.type (hahead : p.Ahead pieces) : p.current.type = nextType pieces := by
  cases pieces with
  | nil => exact hahead
  | cons piece rest => exact hahead.1

theorem Ahead.tail (hahead : p.Ahead (piece :: rest)) : p.advanced.Ahead rest := hahead.2.2.2

theorem Ahead.isPlain (hahead : p.Ahead (piece :: rest)) : piece.type.isPlain = true := hahead.2.2.1

theorem Ahead.cons_of_type (hahead : p.Ahead pieces) (hne : p.current.type ≠ .tokenEOF) :
    ∃ piece rest, pieces = piece :: rest := by
  cases pieces with
  | nil => exact absurd hahead hne
  | cons piece rest => exact ⟨piece, rest, rfl⟩

theorem Ahead.plain_or_end (hahead : p.Ahead pieces) :
    p.current.type.isPlain = true ∨ p.current.type = .tokenEOF := by
  cases pieces with
  | nil => exact .inr hahead
  | cons piece rest => exact .inl (hahead.1 ▸ hahead.isPlain)

theorem Ahead.type_ne (hahead : p.Ahead pieces) {type : TokenType} (hplain : type.isPlain = false)
    (hend : type ≠ .tokenEOF) : p.current.type ≠ type := by
  intro htype
  rcases hahead.plain_or_end with h | h
  · rw [htype, hplain] at h
    exact Bool.false_ne_true h
  · exact hend (htype ▸ h)

section Runs

variable (action : Parse α) (next : α → Parse β)

theorem bind_run : (action >>= next) p = (action p).bind fun result => next result.1 result.2 := rfl

theorem bind_of_ok {action : Parse α} {value : α} {p' : Parser}
    (haction : action p = .ok (value, p')) : (action >>= next) p = next value p' := by
  rw [bind_run, haction]
  rfl

theorem ite_run (condition : Prop) [Decidable condition] (yes no : Parse α) :
    (if condition then yes else no) p = if condition then yes p else no p := by
  split <;> rfl

@[simp] theorem pure_run (value : α) : (pure value : Parse α) p = .ok (value, p) := rfl

@[simp] theorem currentType_bind (next : TokenType → Parse β) :
    (currentType >>= next) p = next p.current.type p := rfl

@[simp] theorem currentToken_bind (next : Token → Parse β) :
    (currentToken >>= next) p = next p.current p := rfl

@[simp] theorem advance_bind (next : Unit → Parse β) :
    (advance >>= next) p = next () p.advanced := rfl

theorem matchToken_run (type : TokenType) :
    matchToken type p =
      if p.current.type = type then .ok (true, p.advanced) else .ok (false, p) := by
  unfold matchToken
  by_cases htype : p.current.type = type
  · simp [htype]
    rfl
  · simp [htype]

theorem matchToken_bind (type : TokenType) (next : Bool → Parse β) :
    (matchToken type >>= next) p =
      if p.current.type = type then next true p.advanced else next false p := by
  rw [bind_run, matchToken_run]
  split <;> rfl

theorem expect_run {type : TokenType} (htype : p.current.type = type) :
    expect type p = .ok ((), p.advanced) := by
  simp [expect, htype]
  rfl

theorem hasLineTerminatorBeforeCurrent_run :
    hasLineTerminatorBeforeCurrent p = .ok (p.hasLineTerminator, p) := rfl

end Runs

def Settles (result : Except ParseError (α × Parser)) (count : Nat) : Prop :=
  (∃ line column message, result = .error (.diagnostic line column message)) ∨
    ∃ value p' rest, result = .ok (value, p') ∧ p'.Ahead rest ∧ rest.length < count

section Settles

variable {count count' : Nat} {action : Parse α} {next : α → Parse β}

theorem Settles.bind (haction : Settles (action p) count)
    (hnext : ∀ value p' rest, p'.Ahead rest → rest.length < count →
      Settles (next value p') count') : Settles ((action >>= next) p) count' := by
  rcases haction with ⟨line, column, message, herror⟩ | ⟨value, p', rest, hok, hahead, hlength⟩
  · refine .inl ⟨line, column, message, ?_⟩
    rw [bind_run, herror]
    rfl
  · rw [bind_of_ok next hok]
    exact hnext value p' rest hahead hlength

theorem settles_pure (value : α) (hahead : p.Ahead pieces) (hlength : pieces.length < count) :
    Settles ((pure value : Parse α) p) count :=
  .inr ⟨value, p, pieces, rfl, hahead, hlength⟩

theorem settles_error (message : String) :
    Settles ((errorAtCurrent message : Parse α) p) count :=
  .inl ⟨_, _, _, rfl⟩

theorem settles_error_bind (message : String) :
    Settles (((errorAtCurrent message : Parse α) >>= next) p) count :=
  .inl ⟨_, _, _, rfl⟩

theorem settles_expect (type : TokenType) (hend : type ≠ .tokenEOF) (hahead : p.Ahead pieces) :
    Settles (expect type p) pieces.length := by
  by_cases htype : p.current.type = type
  · obtain ⟨piece, rest, rfl⟩ := hahead.cons_of_type (htype ▸ hend)
    exact .inr ⟨(), p.advanced, rest, expect_run htype, hahead.tail, by simp⟩
  · unfold expect
    left
    simp only [currentType_bind, htype, ne_eq, not_false_eq_true, if_true]
    split <;> exact ⟨_, _, _, rfl⟩

theorem isUnsupportedParameterModifierStart_run (name : String) :
    ∃ answer, isUnsupportedParameterModifierStart name p = .ok (answer, p) := by
  unfold isUnsupportedParameterModifierStart
  simp only [currentToken_bind]
  split
  · exact ⟨false, rfl⟩
  · exact ⟨isParameterPropertyTargetStart p.advanced.current.type, rfl⟩

theorem isUnsupportedParameterPropertyModifierStart_run :
    ∃ answer, isUnsupportedParameterPropertyModifierStart p = .ok (answer, p) := by
  unfold isUnsupportedParameterPropertyModifierStart
  obtain ⟨isPublic, hpublic⟩ := isUnsupportedParameterModifierStart_run (p := p) "public"
  obtain ⟨isPrivate, hprivate⟩ := isUnsupportedParameterModifierStart_run (p := p) "private"
  obtain ⟨isProtected, hprotected⟩ := isUnsupportedParameterModifierStart_run (p := p) "protected"
  obtain ⟨isReadonly, hreadonly⟩ := isUnsupportedParameterModifierStart_run (p := p) "readonly"
  rw [bind_of_ok _ hpublic]
  cases isPublic
  · simp only [Bool.false_eq_true, if_false]
    rw [bind_of_ok _ hprivate]
    cases isPrivate
    · simp only [Bool.false_eq_true, if_false]
      rw [bind_of_ok _ hprotected]
      cases isProtected
      · exact ⟨isReadonly, hreadonly⟩
      · exact ⟨true, rfl⟩
    · exact ⟨true, rfl⟩
  · exact ⟨true, rfl⟩

variable (g : Productions)

theorem parseBindingTarget_other (hident : p.current.type ≠ .tokenIdent)
    (hbracket : p.current.type ≠ .tokenLBracket) (hbrace : p.current.type ≠ .tokenLBrace) :
    parseBindingTarget g p =
      errorAtCurrent ("expected binding name or pattern, got " ++ p.current.type.text) p := by
  unfold parseBindingTarget
  rw [currentToken_bind]
  refine congrFun ?_ p
  split <;> first | contradiction | rfl

theorem parseBindingTarget_settles (hahead : p.Ahead pieces) :
    Settles (parseBindingTarget g p) pieces.length := by
  by_cases hident : p.current.type = .tokenIdent
  · obtain ⟨piece, rest, rfl⟩ := hahead.cons_of_type (by simp [hident])
    unfold parseBindingTarget
    simp only [currentToken_bind, hident, advance_bind]
    exact settles_pure _ hahead.tail (by simp)
  · rw [parseBindingTarget_other g hident (hahead.type_ne rfl (by decide))
      (hahead.type_ne rfl (by decide))]
    exact settles_error _

theorem parseParameter_settles (hahead : p.Ahead pieces) :
    Settles (parseParameter g p) pieces.length := by
  have hat : p.current.type ≠ .tokenAt := hahead.type_ne rfl (by decide)
  have hellipsis : p.current.type ≠ .tokenEllipsis := hahead.type_ne rfl (by decide)
  obtain ⟨modified, hmodified⟩ := isUnsupportedParameterPropertyModifierStart_run (p := p)
  unfold parseParameter
  simp only [currentType_bind, hat, if_false, matchToken_bind, hellipsis]
  rw [bind_of_ok _ hmodified]
  cases modified
  · simp only [Bool.false_eq_true, if_false]
    apply (parseBindingTarget_settles g hahead).bind
    intro target p' rest hahead' hlength
    have hassign : p'.current.type ≠ .tokenAssign := hahead'.type_ne rfl (by decide)
    simp only [currentType_bind, ite_run, matchToken_bind, hassign, if_false, Bool.false_eq_true]
    split
    · exact settles_error_bind _
    · split
      · exact settles_error_bind _
      · exact settles_pure _ hahead' hlength
  · exact settles_error_bind _

theorem parseParameters_settles (rounds : Nat) (params : List Parameter) (p : Parser)
    (hahead : p.Ahead pieces) (hrounds : pieces.length < rounds) :
    Settles (parseParameters g rounds params p) pieces.length := by
  induction rounds generalizing params p pieces with
  | zero => omega
  | succ rounds ih =>
      unfold parseParameters
      apply (parseParameter_settles g hahead).bind
      intro param p' rest hahead' hlength
      simp only [matchToken_bind, ite_run]
      split
      · rename_i hclose
        obtain ⟨piece, rest, rfl⟩ := hahead'.cons_of_type (by simp [hclose])
        exact settles_pure _ hahead'.tail (by simp at hlength; omega)
      · simp only [Bool.false_eq_true, if_false]
        split
        · exact settles_error_bind _
        · apply (settles_expect .tokenComma (by decide) hahead').bind
          intro _ p'' rest' hahead'' hlength'
          simp only [matchToken_bind, ite_run]
          split
          · rename_i hclose
            obtain ⟨piece, rest, rfl⟩ := hahead''.cons_of_type (by simp [hclose])
            exact settles_pure _ hahead''.tail (by simp at hlength'; omega)
          · have hsettles := ih (params ++ [param]) p'' hahead'' (by omega)
            rcases hsettles with herror | ⟨value, p₃, rest₃, hok, hahead₃, hlength₃⟩
            · exact .inl herror
            · exact .inr ⟨value, p₃, rest₃, hok, hahead₃, by omega⟩

theorem parseParameterList_settles (hahead : p.Ahead pieces) (hrounds : pieces.length ≤ g.rounds) :
    Settles (parseParameterList g p) pieces.length := by
  unfold parseParameterList
  apply (settles_expect .tokenLParen (by decide) hahead).bind
  intro _ p' rest hahead' hlength
  simp only [matchToken_bind, ite_run]
  split
  · rename_i hclose
    obtain ⟨piece, rest, rfl⟩ := hahead'.cons_of_type (by simp [hclose])
    exact settles_pure _ hahead'.tail (by simp at hlength; omega)
  · rcases parseParameters_settles g g.rounds [] p' hahead' (by omega) with
      herror | ⟨value, p₂, rest₂, hok, hahead₂, hlength₂⟩
    · exact .inl herror
    · exact .inr ⟨value, p₂, rest₂, hok, hahead₂, by omega⟩

end Settles

theorem lookahead_false {check : Parse Bool}
    (hcheck : (∃ line column message, check p = .error (.diagnostic line column message)) ∨
      ∃ p', check p = .ok (false, p')) : lookahead check p = .ok (false, p) := by
  unfold lookahead
  rcases hcheck with ⟨line, column, message, herror⟩ | ⟨p', hok⟩
  · rw [herror]
  · rw [hok]

theorem isSingleParamArrowStart_run (hahead : p.Ahead pieces) :
    isSingleParamArrowStart p = .ok (false, p) := by
  unfold isSingleParamArrowStart
  rw [currentType_bind, ite_run]
  split
  · rfl
  · rename_i hident
    obtain ⟨piece, rest, rfl⟩ := hahead.cons_of_type (by simp [not_not.mp hident])
    have harrow : p.advanced.current.type ≠ .tokenArrow := hahead.tail.type_ne rfl (by decide)
    apply lookahead_false
    right
    refine ⟨p.advanced, ?_⟩
    simp only [advance_bind, currentType_bind, harrow, decide_false, Bool.false_and]
    rfl

theorem isParenthesizedArrowStart_run (g : Productions) (hahead : p.Ahead pieces)
    (hrounds : pieces.length ≤ g.rounds) : isParenthesizedArrowStart g p = .ok (false, p) := by
  unfold isParenthesizedArrowStart
  rw [currentType_bind, ite_run]
  split
  · rfl
  · apply lookahead_false
    rcases parseParameterList_settles g hahead hrounds with
      ⟨line, column, message, herror⟩ | ⟨params, p', rest, hok, hahead', -⟩
    · left
      refine ⟨line, column, message, ?_⟩
      rw [bind_run, herror]
      rfl
    · right
      have harrow : p'.current.type ≠ .tokenArrow := hahead'.type_ne rfl (by decide)
      refine ⟨p', ?_⟩
      rw [bind_of_ok _ hok]
      simp only [currentType_bind, harrow, decide_false, Bool.false_and]
      rfl

theorem findArrow_advance (rounds : Nat) (harrow : p.current.type ≠ .tokenArrow)
    (hend : p.current.type ≠ .tokenEOF) (hsemicolon : p.current.type ≠ .tokenSemicolon) :
    findArrow (rounds + 1) p = findArrow rounds p.advanced := by
  have hround : findArrow (rounds + 1) p = (advance >>= fun _ => findArrow rounds) p := by
    rw [findArrow, currentType_bind]
    refine congrFun ?_ p
    split <;> first | contradiction | rfl
  rw [hround, advance_bind]

theorem findArrow_run (rounds : Nat) (hahead : p.Ahead pieces) :
    ∃ p', findArrow rounds p = .ok (false, p') := by
  induction rounds generalizing p pieces with
  | zero => exact ⟨p, rfl⟩
  | succ rounds ih =>
      by_cases hend : p.current.type = .tokenEOF
      · refine ⟨p, ?_⟩
        simp only [findArrow, currentType_bind, hend, pure_run]
      · obtain ⟨piece, rest, rfl⟩ := hahead.cons_of_type hend
        rw [findArrow_advance rounds (hahead.type_ne rfl (by decide)) hend
          (hahead.type_ne rfl (by decide))]
        exact ih hahead.tail

theorem isUnsupportedArrowReturnTypeAnnotationStart_run (g : Productions) (hahead : p.Ahead pieces)
    (hrounds : pieces.length ≤ g.rounds) :
    isUnsupportedArrowReturnTypeAnnotationStart g p = .ok (false, p) := by
  unfold isUnsupportedArrowReturnTypeAnnotationStart
  rw [currentType_bind, ite_run]
  split
  · rfl
  · apply lookahead_false
    rcases parseParameterList_settles g hahead hrounds with
      ⟨line, column, message, herror⟩ | ⟨params, p', rest, hok, hahead', -⟩
    · left
      refine ⟨line, column, message, ?_⟩
      rw [bind_run, herror]
      rfl
    · right
      rw [bind_of_ok _ hok, currentType_bind, ite_run]
      split
      · exact ⟨p', rfl⟩
      · rename_i hcolon
        obtain ⟨piece, rest, rfl⟩ := hahead'.cons_of_type (by simp [not_not.mp hcolon])
        exact findArrow_run 64 hahead'.tail

theorem lookaheadAfterAsync_run (check : Bool → Parse Bool) (hahead : p.Ahead pieces) :
    lookaheadAfterAsync check p = .ok (false, p) := by
  have hasync : p.current.type ≠ .tokenAsync := hahead.type_ne rfl (by decide)
  unfold lookaheadAfterAsync
  rw [currentType_bind, if_pos hasync]
  rfl

theorem isMetaPropertyStart_run {keyword : TokenType} (word : String)
    (hkeyword : p.current.type ≠ keyword) :
    isMetaPropertyStart keyword word p = .ok (false, p) := by
  unfold isMetaPropertyStart
  rw [currentType_bind, if_pos hkeyword]
  rfl

theorem parsePrimary_run (g : Productions) (hahead : p.Ahead pieces)
    (hrounds : pieces.length ≤ g.rounds) (hslash : p.current.type ≠ .tokenSlash)
    (hlt : p.current.type ≠ .tokenLt) :
    parsePrimary g p = parseToken g p.current p.advanced := by
  have hnew : p.current.type ≠ .tokenNew := hahead.type_ne rfl (by decide)
  have himport : p.current.type ≠ .tokenImport := hahead.type_ne rfl (by decide)
  have hgeneric : isUnsupportedGenericArrowTypeParametersStart g p = .ok (false, p) := by
    unfold isUnsupportedGenericArrowTypeParametersStart
    rw [currentType_bind, if_pos hlt]
    rfl
  have harrow : isArrowFunctionStart g p = .ok (false, p) := by
    unfold isArrowFunctionStart
    rw [bind_of_ok _ (isSingleParamArrowStart_run hahead)]
    exact isParenthesizedArrowStart_run g hahead hrounds
  have hdynamic : isDynamicImportStart p = .ok (false, p) := by
    unfold isDynamicImportStart
    rw [currentType_bind, if_pos himport]
    rfl
  unfold parsePrimary isUnsupportedAsyncLineTerminatorStart
    isUnsupportedAsyncGenericArrowTypeParametersStart
    isUnsupportedAsyncArrowReturnTypeAnnotationStart isAsyncArrowFunctionStart isAsyncFunctionStart
    isNewTargetStart isImportMetaStart
  simp only [currentToken_bind, bind_of_ok _ (lookaheadAfterAsync_run _ hahead),
    bind_of_ok _ hgeneric,
    bind_of_ok _ (isUnsupportedArrowReturnTypeAnnotationStart_run g hahead hrounds),
    bind_of_ok _ harrow, bind_of_ok _ (isMetaPropertyStart_run _ hnew), hnew,
    bind_of_ok _ (isMetaPropertyStart_run _ himport), bind_of_ok _ hdynamic, Bool.false_eq_true,
    if_false]
  have hdefault : p.current.type ≠ .tokenLBracket := hahead.type_ne rfl (by decide)
  have hbrace : p.current.type ≠ .tokenLBrace := hahead.type_ne rfl (by decide)
  have hfunction : p.current.type ≠ .tokenFunction := hahead.type_ne rfl (by decide)
  rw [← advance_bind fun _ => parseToken g p.current]
  refine congrFun ?_ p
  split <;> first | contradiction | rfl

end Parser

end Jayess
