/-!
# Token kinds — keywords, symbols, and the five open classes

A token is a keyword or primitive type name, a symbol, one of the five open
classes (identifiers and literals), or the end of input. The order of
`TokenKind.all` is the order in which kinds win ties: keywords before
identifiers, so that a keyword is never read as a name.
-/

namespace StraightLine

/-- Words with a fixed spelling: keywords, then primitive type names. -/
inductive Keyword where
  | struct_ | trait_ | enum_ | auto_ | static_ | const_ | if_ | else_ | while_ | for_ | do_
  | break_ | continue_ | return_ | defer_ | i8 | i16 | i32 | i64 | i128 | u8 | u16 | u32
  | u64 | u128 | f32 | f64 | usize
  deriving DecidableEq, Repr

namespace Keyword

/-- Every keyword, in tie order. -/
def all : List Keyword :=
  [.struct_, .trait_, .enum_, .auto_, .static_, .const_, .if_, .else_, .while_, .for_,
   .do_, .break_, .continue_, .return_, .defer_, .i8, .i16, .i32, .i64, .i128, .u8, .u16,
   .u32, .u64, .u128, .f32, .f64, .usize]

/-- How a keyword is written. -/
def spelling : Keyword → String
  | .struct_ => "struct"
  | .trait_ => "trait"
  | .enum_ => "enum"
  | .auto_ => "auto"
  | .static_ => "static"
  | .const_ => "const"
  | .if_ => "if"
  | .else_ => "else"
  | .while_ => "while"
  | .for_ => "for"
  | .do_ => "do"
  | .break_ => "break"
  | .continue_ => "continue"
  | .return_ => "return"
  | .defer_ => "defer"
  | .i8 => "i8"
  | .i16 => "i16"
  | .i32 => "i32"
  | .i64 => "i64"
  | .i128 => "i128"
  | .u8 => "u8"
  | .u16 => "u16"
  | .u32 => "u32"
  | .u64 => "u64"
  | .u128 => "u128"
  | .f32 => "f32"
  | .f64 => "f64"
  | .usize => "usize"

/-- How a keyword's kind is named: its spelling in capitals. -/
def name (k : Keyword) : String := String.ofList (k.spelling.toList.map Char.toUpper)

end Keyword

/-- Delimiters, operators, comparisons, assignments and the arrow. -/
inductive Symbol where
  | leftParen | rightParen | leftBrace | rightBrace | leftBracket | rightBracket | comma
  | semicolon | colon | dot | question | exclamation | plus | minus | star | slash
  | percent | ampersand | pipe | caret | tilde | leftShift | rightShift
  | arithmeticRightShift | equalEqual | notEqual | less | lessEqual | greater
  | greaterEqual | equal | plusEqual | minusEqual | starEqual | slashEqual | percentEqual
  | ampersandEqual | pipeEqual | caretEqual | leftShiftEqual | rightShiftEqual
  | arithmeticRightShiftEqual | arrow
  deriving DecidableEq, Repr

namespace Symbol

/-- Every symbol, in tie order. -/
def all : List Symbol :=
  [.leftParen, .rightParen, .leftBrace, .rightBrace, .leftBracket, .rightBracket, .comma,
   .semicolon, .colon, .dot, .question, .exclamation, .plus, .minus, .star, .slash,
   .percent, .ampersand, .pipe, .caret, .tilde, .leftShift, .rightShift,
   .arithmeticRightShift, .equalEqual, .notEqual, .less, .lessEqual, .greater,
   .greaterEqual, .equal, .plusEqual, .minusEqual, .starEqual, .slashEqual, .percentEqual,
   .ampersandEqual, .pipeEqual, .caretEqual, .leftShiftEqual, .rightShiftEqual,
   .arithmeticRightShiftEqual, .arrow]

/-- How a symbol is written. -/
def spelling : Symbol → String
  | .leftParen => "("
  | .rightParen => ")"
  | .leftBrace => "\x7b"
  | .rightBrace => "\x7d"
  | .leftBracket => "["
  | .rightBracket => "]"
  | .comma => ","
  | .semicolon => ";"
  | .colon => ":"
  | .dot => "."
  | .question => "?"
  | .exclamation => "!"
  | .plus => "+"
  | .minus => "-"
  | .star => "*"
  | .slash => "/"
  | .percent => "%"
  | .ampersand => "&"
  | .pipe => "|"
  | .caret => "^"
  | .tilde => "~"
  | .leftShift => "<<"
  | .rightShift => ">>"
  | .arithmeticRightShift => ">>>"
  | .equalEqual => "=="
  | .notEqual => "!="
  | .less => "<"
  | .lessEqual => "<="
  | .greater => ">"
  | .greaterEqual => ">="
  | .equal => "="
  | .plusEqual => "+="
  | .minusEqual => "-="
  | .starEqual => "*="
  | .slashEqual => "/="
  | .percentEqual => "%="
  | .ampersandEqual => "&="
  | .pipeEqual => "|="
  | .caretEqual => "^="
  | .leftShiftEqual => "<<="
  | .rightShiftEqual => ">>="
  | .arithmeticRightShiftEqual => ">>>="
  | .arrow => "->"

/-- How a symbol's kind is named. -/
def name : Symbol → String
  | .leftParen => "LEFT_PAREN"
  | .rightParen => "RIGHT_PAREN"
  | .leftBrace => "LEFT_BRACE"
  | .rightBrace => "RIGHT_BRACE"
  | .leftBracket => "LEFT_BRACKET"
  | .rightBracket => "RIGHT_BRACKET"
  | .comma => "COMMA"
  | .semicolon => "SEMICOLON"
  | .colon => "COLON"
  | .dot => "DOT"
  | .question => "QUESTION"
  | .exclamation => "EXCLAMATION"
  | .plus => "PLUS"
  | .minus => "MINUS"
  | .star => "STAR"
  | .slash => "SLASH"
  | .percent => "PERCENT"
  | .ampersand => "AMPERSAND"
  | .pipe => "PIPE"
  | .caret => "CARET"
  | .tilde => "TILDE"
  | .leftShift => "LEFT_SHIFT"
  | .rightShift => "RIGHT_SHIFT"
  | .arithmeticRightShift => "ARITHMETIC_RIGHT_SHIFT"
  | .equalEqual => "EQUAL_EQUAL"
  | .notEqual => "NOT_EQUAL"
  | .less => "LESS"
  | .lessEqual => "LESS_EQUAL"
  | .greater => "GREATER"
  | .greaterEqual => "GREATER_EQUAL"
  | .equal => "EQUAL"
  | .plusEqual => "PLUS_EQUAL"
  | .minusEqual => "MINUS_EQUAL"
  | .starEqual => "STAR_EQUAL"
  | .slashEqual => "SLASH_EQUAL"
  | .percentEqual => "PERCENT_EQUAL"
  | .ampersandEqual => "AMPERSAND_EQUAL"
  | .pipeEqual => "PIPE_EQUAL"
  | .caretEqual => "CARET_EQUAL"
  | .leftShiftEqual => "LEFT_SHIFT_EQUAL"
  | .rightShiftEqual => "RIGHT_SHIFT_EQUAL"
  | .arithmeticRightShiftEqual => "ARITHMETIC_RIGHT_SHIFT_EQUAL"
  | .arrow => "ARROW"

end Symbol

/-- What a token can be. -/
inductive TokenKind where
  | keyword (word : Keyword)
  | identifier
  | integer
  | float
  | string
  | char
  | symbol (sign : Symbol)
  | endOfInput
  deriving DecidableEq, Repr

namespace TokenKind

/-- Every kind, in tie order. -/
def all : List TokenKind :=
  Keyword.all.map keyword ++ [identifier, integer, float, string, char] ++
    Symbol.all.map symbol ++ [endOfInput]

/-- The name a kind is shown and stored under. -/
def name : TokenKind → String
  | keyword word => word.name
  | identifier => "IDENTIFIER"
  | integer => "INTEGER"
  | float => "FLOAT"
  | string => "STRING"
  | char => "CHAR"
  | symbol sign => sign.name
  | endOfInput => "EOF"

/-- The kind of a name. -/
def ofName? (s : String) : Option TokenKind := all.find? fun k => k.name == s

/-- The one spelling of a keyword kind. -/
def spelling? : TokenKind → Option String
  | keyword word => some word.spelling
  | _ => none

/-- The kind that closes what an opening kind opened. -/
def closer? : TokenKind → Option TokenKind
  | symbol .leftParen => some (symbol .rightParen)
  | symbol .leftBrace => some (symbol .rightBrace)
  | symbol .leftBracket => some (symbol .rightBracket)
  | _ => none

/-- Whether a kind opens a group. -/
def isOpening (k : TokenKind) : Bool := k.closer?.isSome

/-- Whether a kind closes a group. -/
def isClosing : TokenKind → Bool
  | symbol .rightParen => true
  | symbol .rightBrace => true
  | symbol .rightBracket => true
  | _ => false

end TokenKind

end StraightLine
