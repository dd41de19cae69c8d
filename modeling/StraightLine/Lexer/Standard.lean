import StraightLine.Lexer.Lexicon

/-!
# The standard lexicon — the rules of the language

Keywords and symbols have one spelling each; identifiers, numbers, strings
and characters are classes of lexemes.
-/

namespace StraightLine

namespace Lexicon

/-- The rules of the language. -/
def standard : Lexicon :=
  ⟨Keyword.all.map (fun k => Rule.ofSpelling (.keyword k) k.spelling) ++
    [.ofClass .identifier .identifier,
      .ofClass .integer .decimalInteger,
      .ofClass .integer .binaryInteger,
      .ofClass .integer .octalInteger,
      .ofClass .integer .hexInteger,
      .ofClass .float .plainFloat,
      .ofClass .float .exponentFloat,
      .ofClass .string .string,
      .ofClass .char .char] ++
    Symbol.all.map (fun s => Rule.ofSpelling (.symbol s) s.spelling)⟩

end Lexicon

end StraightLine
