import StraightLine.Proofs.Build.FrontEnd
import StraightLine.Proofs.Grammar.Leaves

/-!
# Agreement — tokens and program of one unit

The lexer and the parser read a source on their own, each with its own idea
of a number: the parser takes a float with digits on one side of its point
whole, the lexer takes it apart. What they say of the names and the numbers of
a source agrees up to that, and the exponents of such floats are all that can
come between them (`tokens_agree`).
-/

namespace StraightLine

/-- The names among some tokens. -/
def Token.names (ts : List Token) : List Text :=
  (ts.filter fun t => t.kind = .identifier).map Token.value

/-- How many of some tokens are integers or floats. -/
def Token.numbers (ts : List Token) : Nat :=
  ts.countP fun t => t.kind = .integer ∨ t.kind = .float

namespace Token

variable {ts : List Token}

theorem filterMap_leaves (ts : List Token) : (leaves ts).filterMap Leaf.name? = names ts := by
  induction ts with
  | nil => rfl
  | cons t ts ih =>
    obtain ⟨kind, value, place⟩ := t
    rw [leaves_cons, List.filterMap_append, ih, names, names, List.filter_cons]
    cases kind <;> rfl

theorem countP_leaves (ts : List Token) : (leaves ts).countP Leaf.isNumber = numbers ts := by
  induction ts with
  | nil => rfl
  | cons t ts ih =>
    obtain ⟨kind, value, place⟩ := t
    rw [leaves_cons, List.countP_append, ih, numbers, numbers, List.countP_cons, Nat.add_comm]
    cases kind <;> rfl

end Token

namespace SourceFile

open Text

variable {source : SourceFile} {u : CompiledUnit}

/-- **Where the tokens and the program of a unit agree.** The names among the
tokens are the names of the program in their order exactly when every float
with an exponent has digits on both sides of its point; and there are as many
numbers among the tokens as in the program exactly when every float has whose
exponent has a sign. -/
theorem tokens_agree (h : source.compile = .ok u) :
    (Token.names u.tokens = u.program.names ↔ source.contents.Sided exponentAhead) ∧
      (Token.numbers u.tokens = u.program.numbers ↔
        source.contents.Sided signedExponentAhead) := by
  obtain ⟨-, htokens, -, hprogram, -⟩ := compile_eq_ok_iff.mp h
  obtain ⟨hderives, -⟩ := Grammar.parseProgram_eq_ok_iff.mp hprogram
  obtain ⟨found, hfound, hagree⟩ := Grammar.yields_of_derivesProgram hderives
  -- the lexer reads the whole source, and finds these leaves in it
  have hleaves : Token.leaves u.tokens = found := by
    rw [← (Lexer.tokenize_eq_ok_iff.mp htokens).2]
    exact hfound [] _ (Nat.lt_succ_self _)
  rw [← hleaves] at hagree
  constructor
  · rw [← Token.filterMap_leaves, ← Program.filterMap_leaves]
    exact hagree.names_eq_iff
  · rw [← Token.countP_leaves, ← Program.countP_leaves]
    exact hagree.countP_eq_iff .number

/-- Points without digits on one side, and an exponent on a float that has
them on both. -/
theorem tokens_agree_points : ∃ u,
    SourceFile.compile ⟨[], "x = 1. - .5 * y + 2.5e-3;".toList⟩ = .ok u ∧
    Token.names u.tokens = [['x'], ['y']] ∧ Token.numbers u.tokens = 3 := by
  have hp : parseProgram "x = 1. - .5 * y + 2.5e-3;".toList = .ok ⟨[⟨['x'], .assign,
      .binary (.binary (.float (floatValue ['1', '.'])) .sub
        (.binary (.float (floatValue ['.', '5'])) .mult (.identifier ['y']))) .add
        (.float (floatValue "2.5e-3".toList))⟩]⟩ := by
    decide +kernel
  obtain ⟨ts, tree, hts, htree⟩ := exists_tokens_of_parseProgram hp
  have hu : SourceFile.compile ⟨[], "x = 1. - .5 * y + 2.5e-3;".toList⟩ =
      .ok ⟨[], ts, tree.digraph, _, _⟩ := compile_eq_ok_iff.mpr ⟨tree, hts, htree, hp, rfl⟩
  obtain ⟨hnames, hnumbers⟩ := tokens_agree hu
  exact ⟨_, hu, hnames.mpr (by decide +kernel), hnumbers.mpr (by decide +kernel)⟩

/-- Where an exponent comes loose it is a name that the program does not
have. -/
theorem tokens_disagree : ¬ ∀ (source : SourceFile) (u : CompiledUnit), source.compile = .ok u →
    Token.names u.tokens = u.program.names ∧ Token.numbers u.tokens = u.program.numbers := by
  intro h
  have hp : parseProgram "x = 1.e5;".toList =
      .ok ⟨[⟨['x'], .assign, .float (floatValue "1.e5".toList)⟩]⟩ := by
    decide +kernel
  obtain ⟨ts, tree, hts, htree⟩ := exists_tokens_of_parseProgram hp
  have hu : SourceFile.compile ⟨[], "x = 1.e5;".toList⟩ = .ok ⟨[], ts, tree.digraph, _, _⟩ :=
    compile_eq_ok_iff.mpr ⟨tree, hts, htree, hp, rfl⟩
  have hread : tokenize "x = 1.e5;".toList = .ok
      [⟨.identifier, ['x'], ⟨1, 1⟩⟩, ⟨.symbol .equal, ['='], ⟨1, 3⟩⟩, ⟨.integer, ['1'], ⟨1, 5⟩⟩,
        ⟨.symbol .dot, ['.'], ⟨1, 6⟩⟩, ⟨.identifier, ['e', '5'], ⟨1, 7⟩⟩,
        ⟨.symbol .semicolon, [';'], ⟨1, 9⟩⟩, .endOfInput ⟨1, 10⟩] := by
    decide +kernel
  obtain ⟨hnames, -⟩ := h _ _ hu
  obtain rfl := Except.ok.inj (hread.symm.trans hts)
  have hnames : [['x'], ['e', '5']] = [['x']] := hnames
  exact absurd hnames (by decide)

end SourceFile

end StraightLine
