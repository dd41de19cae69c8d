import StraightLine.Build.Unit
import StraightLine.Proofs.Grammar.Acceptance
import StraightLine.Proofs.TokenTree.Balance

/-!
# Front end — the passes never disagree

A unit is compiled by three passes that read the source on their own: the
lexer, the grouping of its tokens, and the parser. A source that the grammar
accepts is well bracketed, so the first two succeed on it as well, and only a
source that the grammar rejects can fail in them.
-/

namespace StraightLine

variable {source : SourceFile} {s : Text} {p : Program}

/-- **What parses also lexes and nests.** -/
theorem exists_tokens_of_parseProgram (h : parseProgram s = .ok p) :
    ∃ ts tree, tokenize s = .ok ts ∧ TokenTree.ofTokens ts = .ok tree := by
  have hs := (Grammar.parseProgram_eq_ok_iff.mp h).1.wellBracketed
  obtain ⟨ts, hts⟩ := exists_tokens hs.chars
  obtain ⟨tree, htree⟩ := exists_tree hs hts
  exact ⟨ts, tree, hts, htree⟩

namespace SourceFile

/-- The three passes of a source that compiles, and what its unit holds of
them. -/
theorem compile_eq_ok_iff {u : CompiledUnit} :
    source.compile = .ok u ↔
      ∃ tree, tokenize source.contents = .ok u.tokens ∧ TokenTree.ofTokens u.tokens = .ok tree ∧
        parseProgram source.contents = .ok u.program ∧
        u = ⟨source.path, u.tokens, tree.digraph, u.program, u.program.code.text⟩ := by
  unfold compile
  constructor
  · intro h
    split at h
    · cases h
    · rename_i ts hts
      split at h
      · cases h
      · rename_i tree htree
        split at h
        · cases h
        · rename_i p hp
          obtain rfl := Except.ok.inj h
          exact ⟨tree, hts, htree, hp, rfl⟩
  · rintro ⟨tree, hts, htree, hp, hu⟩
    simp only [hts, htree, hp]
    rw [← hu]

/-- **A source compiles just when it parses**, to the same program; so tokens
and a tree are there whenever a program is, and an error of the lexer or of
the tree means that the parser has one too. -/
theorem compile_ok_iff_parse_ok (source : SourceFile) (p : Program) :
    ((∃ u, source.compile = .ok u ∧ u.program = p) ↔ parseProgram source.contents = .ok p) ∧
      (parseProgram source.contents = .ok p →
        ∃ ts tree, tokenize source.contents = .ok ts ∧ TokenTree.ofTokens ts = .ok tree) ∧
      ((∃ e, source.compile = .error (.lexing e)) ∨ (∃ e, source.compile = .error (.unbalanced e)) →
        parseProgram source.contents ≠ .ok p) := by
  have hcompile : (∃ u, source.compile = .ok u ∧ u.program = p) ↔
      parseProgram source.contents = .ok p := by
    constructor
    · rintro ⟨u, hu, rfl⟩
      obtain ⟨-, -, -, hp, -⟩ := compile_eq_ok_iff.mp hu
      exact hp
    · intro hp
      obtain ⟨ts, tree, hts, htree⟩ := exists_tokens_of_parseProgram hp
      let u : CompiledUnit := ⟨source.path, ts, tree.digraph, p, p.code.text⟩
      exact ⟨u, compile_eq_ok_iff.mpr ⟨tree, hts, htree, hp, rfl⟩, rfl⟩
  refine ⟨hcompile, exists_tokens_of_parseProgram, fun herr hp => ?_⟩
  obtain ⟨u, hu, -⟩ := hcompile.mpr hp
  rcases herr with ⟨e, he⟩ | ⟨e, he⟩
  · rw [hu] at he
    cases he
  · rw [hu] at he
    cases he

end SourceFile

end StraightLine
