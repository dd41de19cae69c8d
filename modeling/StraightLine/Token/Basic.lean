import StraightLine.Token.Kind
import StraightLine.Text.Place

/-!
# Tokens — a kind, the characters read, and where they stood

The value of a token is the text its rule matched; the token that ends every
token list has the kind `endOfInput` and an empty value.
-/

namespace StraightLine

/-- A piece of source text with its kind and the place of its first
character. -/
structure Token where
  kind : TokenKind
  value : Text
  place : Place
  deriving DecidableEq, Repr

namespace Token

/-- The token at the end of a text. -/
def endOfInput (place : Place) : Token := ⟨.endOfInput, [], place⟩

/-- The number of characters of the lexeme. -/
def length (t : Token) : Nat := t.value.length

/-- A token on one line, for people. -/
def display (t : Token) : String :=
  s!"Token\x7btype={t.kind.name}, value='{String.ofList t.value}', " ++
    s!"line={t.place.line}, column={t.place.column}\x7d"

end Token

end StraightLine
