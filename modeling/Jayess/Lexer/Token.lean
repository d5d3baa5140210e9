/-!
# Tokens

The token types of the lexer, with the text the Go constants have, and the words it reserves.
-/

namespace Jayess

inductive TokenType where
  | tokenEOF | tokenIllegal | tokenIdent | tokenNumber | tokenBigInt | tokenString | tokenTemplate
  | tokenTrue | tokenFalse | tokenNull | tokenUndefined | tokenFunction | tokenClass | tokenEnum
  | tokenExtends | tokenExtern | tokenImport | tokenExport | tokenDefault | tokenNative
  | tokenStatic | tokenNew | tokenThis | tokenSuper | tokenVar | tokenLet | tokenConst
  | tokenPrivate | tokenPublic | tokenReturn | tokenIf | tokenElse | tokenDo | tokenWhile
  | tokenWith | tokenFor | tokenOf | tokenIn | tokenSwitch | tokenCase | tokenBreak
  | tokenContinue | tokenDelete | tokenDebugger | tokenTry | tokenCatch | tokenFinally
  | tokenThrow | tokenAwait | tokenAsync | tokenYield | tokenTypeof | tokenVoid | tokenInstanceof
  | tokenIs | tokenLParen | tokenRParen | tokenLBrace | tokenRBrace | tokenLBracket
  | tokenRBracket | tokenSemicolon | tokenComma | tokenColon | tokenDot | tokenEllipsis
  | tokenQuestion | tokenHash | tokenAt | tokenAssign | tokenAddAssign | tokenSubAssign
  | tokenMulAssign | tokenPowAssign | tokenDivAssign | tokenModAssign | tokenBitAndAssign
  | tokenBitOrAssign | tokenBitXorAssign | tokenShlAssign | tokenShrAssign | tokenUShrAssign
  | tokenAndAssign | tokenOrAssign | tokenNullishAssign | tokenArrow | tokenPlus | tokenMinus
  | tokenIncrement | tokenDecrement | tokenStar | tokenPower | tokenSlash | tokenPercent
  | tokenBang | tokenEq | tokenStrictEq | tokenNe | tokenStrictNe | tokenLt | tokenLte | tokenGt
  | tokenGte | tokenAnd | tokenOr | tokenNullish | tokenQuestionDot | tokenBitAnd | tokenBitOr
  | tokenBitXor | tokenBitNot | tokenShiftLeft | tokenShiftRight | tokenUnsignedShift
deriving DecidableEq, Repr

/-- The text of the constant, which error messages print. -/
def TokenType.text : TokenType → String
  | .tokenEOF => "EOF"
  | .tokenIllegal => "ILLEGAL"
  | .tokenIdent => "IDENT"
  | .tokenNumber => "NUMBER"
  | .tokenBigInt => "BIGINT"
  | .tokenString => "STRING"
  | .tokenTemplate => "TEMPLATE"
  | .tokenTrue => "TRUE"
  | .tokenFalse => "FALSE"
  | .tokenNull => "NULL"
  | .tokenUndefined => "UNDEFINED"
  | .tokenFunction => "FUNCTION"
  | .tokenClass => "CLASS"
  | .tokenEnum => "ENUM"
  | .tokenExtends => "EXTENDS"
  | .tokenExtern => "EXTERN"
  | .tokenImport => "IMPORT"
  | .tokenExport => "EXPORT"
  | .tokenDefault => "DEFAULT"
  | .tokenNative => "NATIVE"
  | .tokenStatic => "STATIC"
  | .tokenNew => "NEW"
  | .tokenThis => "THIS"
  | .tokenSuper => "SUPER"
  | .tokenVar => "VAR"
  | .tokenLet => "LET"
  | .tokenConst => "CONST"
  | .tokenPrivate => "PRIVATE"
  | .tokenPublic => "PUBLIC"
  | .tokenReturn => "RETURN"
  | .tokenIf => "IF"
  | .tokenElse => "ELSE"
  | .tokenDo => "DO"
  | .tokenWhile => "WHILE"
  | .tokenWith => "WITH"
  | .tokenFor => "FOR"
  | .tokenOf => "OF"
  | .tokenIn => "IN"
  | .tokenSwitch => "SWITCH"
  | .tokenCase => "CASE"
  | .tokenBreak => "BREAK"
  | .tokenContinue => "CONTINUE"
  | .tokenDelete => "DELETE"
  | .tokenDebugger => "DEBUGGER"
  | .tokenTry => "TRY"
  | .tokenCatch => "CATCH"
  | .tokenFinally => "FINALLY"
  | .tokenThrow => "THROW"
  | .tokenAwait => "AWAIT"
  | .tokenAsync => "ASYNC"
  | .tokenYield => "YIELD"
  | .tokenTypeof => "TYPEOF"
  | .tokenVoid => "VOID"
  | .tokenInstanceof => "INSTANCEOF"
  | .tokenIs => "IS"
  | .tokenLParen => "("
  | .tokenRParen => ")"
  | .tokenLBrace => "\x7b"
  | .tokenRBrace => "\x7d"
  | .tokenLBracket => "["
  | .tokenRBracket => "]"
  | .tokenSemicolon => ";"
  | .tokenComma => ","
  | .tokenColon => ":"
  | .tokenDot => "."
  | .tokenEllipsis => "..."
  | .tokenQuestion => "?"
  | .tokenHash => "#"
  | .tokenAt => "@"
  | .tokenAssign => "="
  | .tokenAddAssign => "+="
  | .tokenSubAssign => "-="
  | .tokenMulAssign => "*="
  | .tokenPowAssign => "**="
  | .tokenDivAssign => "/="
  | .tokenModAssign => "%="
  | .tokenBitAndAssign => "&="
  | .tokenBitOrAssign => "|="
  | .tokenBitXorAssign => "^="
  | .tokenShlAssign => "<<="
  | .tokenShrAssign => ">>="
  | .tokenUShrAssign => ">>>="
  | .tokenAndAssign => "&&="
  | .tokenOrAssign => "||="
  | .tokenNullishAssign => "??="
  | .tokenArrow => "=>"
  | .tokenPlus => "+"
  | .tokenMinus => "-"
  | .tokenIncrement => "++"
  | .tokenDecrement => "--"
  | .tokenStar => "*"
  | .tokenPower => "**"
  | .tokenSlash => "/"
  | .tokenPercent => "%"
  | .tokenBang => "!"
  | .tokenEq => "=="
  | .tokenStrictEq => "==="
  | .tokenNe => "!="
  | .tokenStrictNe => "!=="
  | .tokenLt => "<"
  | .tokenLte => "<="
  | .tokenGt => ">"
  | .tokenGte => ">="
  | .tokenAnd => "&&"
  | .tokenOr => "||"
  | .tokenNullish => "??"
  | .tokenQuestionDot => "?."
  | .tokenBitAnd => "&"
  | .tokenBitOr => "|"
  | .tokenBitXor => "^"
  | .tokenBitNot => "~"
  | .tokenShiftLeft => "<<"
  | .tokenShiftRight => ">>"
  | .tokenUnsignedShift => ">>>"

structure Token where
  type : TokenType
  literal : String
  line : Nat
  column : Nat
deriving DecidableEq, Repr

def lookupIdent (literal : String) : TokenType :=
  match literal with
  | "function" => .tokenFunction
  | "class" => .tokenClass
  | "enum" => .tokenEnum
  | "extends" => .tokenExtends
  | "extern" => .tokenExtern
  | "import" => .tokenImport
  | "export" => .tokenExport
  | "default" => .tokenDefault
  | "native" => .tokenNative
  | "static" => .tokenStatic
  | "new" => .tokenNew
  | "this" => .tokenThis
  | "super" => .tokenSuper
  | "var" => .tokenVar
  | "let" => .tokenLet
  | "const" => .tokenConst
  | "private" => .tokenPrivate
  | "public" => .tokenPublic
  | "return" => .tokenReturn
  | "if" => .tokenIf
  | "else" => .tokenElse
  | "do" => .tokenDo
  | "while" => .tokenWhile
  | "with" => .tokenWith
  | "for" => .tokenFor
  | "of" => .tokenOf
  | "in" => .tokenIn
  | "switch" => .tokenSwitch
  | "case" => .tokenCase
  | "break" => .tokenBreak
  | "continue" => .tokenContinue
  | "delete" => .tokenDelete
  | "debugger" => .tokenDebugger
  | "try" => .tokenTry
  | "catch" => .tokenCatch
  | "finally" => .tokenFinally
  | "throw" => .tokenThrow
  | "await" => .tokenAwait
  | "async" => .tokenAsync
  | "yield" => .tokenYield
  | "typeof" => .tokenTypeof
  | "void" => .tokenVoid
  | "instanceof" => .tokenInstanceof
  | "is" => .tokenIs
  | "true" => .tokenTrue
  | "false" => .tokenFalse
  | "null" => .tokenNull
  | "undefined" => .tokenUndefined
  | _ => .tokenIdent

end Jayess
