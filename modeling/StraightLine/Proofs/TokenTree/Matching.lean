import StraightLine.Proofs.TokenTree.Forest

/-!
# Matching — the tree of some tokens

A nesting holds what has been read in two ways: `Nesting.listing` gives the
tokens back, and the trees on every level of it are matched (`Sound`).
`step_cases` is all that a token can do to it; `run_sound` follows by
induction on the tokens. The other way round, the tokens of matched trees put
exactly these trees on the innermost level (`run_matched`).

**`ofTokens_exact`** says of whole lists and whole trees that grouping by
brackets is exact. A tree with a closer that closes nothing has the shape
described there too, but no tokens make it (`stray_closer`).
-/

namespace StraightLine

namespace TokenTree

variable {trees : List TokenTree} {t : Token} {ts seen : List Token}

namespace Nesting

variable {n n' : Nesting}

/-! ## One token -/

theorem step_end (h : t.kind = .endOfInput) : n.step t = .ok n := if_pos h

theorem step_leaf (hend : t.kind ≠ .endOfInput) (h : t.kind.isBracket = false) :
    n.step t = .ok ⟨n.opened, leaf t :: n.trees⟩ := by
  obtain ⟨ho, hc⟩ := TokenKind.isBracket_eq_false_iff.mp h
  simp only [step, if_neg hend, ho, hc, Bool.false_eq_true, if_false]

theorem step_opening (h : t.kind.isOpening = true) :
    n.step t = .ok ⟨(t, n.trees) :: n.opened, []⟩ := by
  simp only [step, if_neg (TokenKind.ne_endOfInput_of_isOpening h), h, if_true]

theorem step_closing {o : Token} {before : List TokenTree} {opened : List (Token × List TokenTree)}
    (h : o.kind.Pairs t.kind) :
    (⟨(o, before) :: opened, trees⟩ : Nesting).step t =
      .ok ⟨opened, node (some o) (trees.reverse ++ [leaf t]) :: before⟩ := by
  have hclose := h.isClosing
  have hpair : o.kind.closer? = some t.kind := TokenKind.closer?_eq_some_iff.mpr h
  simp only [step, if_neg (TokenKind.ne_endOfInput_of_isClosing hclose), hclose,
    TokenKind.isOpening_eq_false_of_isClosing hclose, Bool.false_eq_true, if_false, if_true,
    hpair, List.reverse_cons]

/-- **What a token does** to the open groups: nothing at the end of input;
stand alone; open a group; or close the innermost one. -/
theorem step_cases (h : n.step t = .ok n') :
    (t.kind = .endOfInput ∧ n' = n) ∨
      (t.kind ≠ .endOfInput ∧ t.kind.isBracket = false ∧ n' = ⟨n.opened, leaf t :: n.trees⟩) ∨
      (t.kind.isOpening = true ∧ n' = ⟨(t, n.trees) :: n.opened, []⟩) ∨
      ∃ o before opened, o.kind.Pairs t.kind ∧ n.opened = (o, before) :: opened ∧
        n' = ⟨opened, node (some o) (n.trees.reverse ++ [leaf t]) :: before⟩ := by
  obtain ⟨opened, trees⟩ := n
  by_cases hend : t.kind = .endOfInput
  · rw [step_end hend] at h
    exact .inl ⟨hend, (Except.ok.inj h).symm⟩
  · cases ho : t.kind.isOpening with
    | true =>
      rw [step_opening ho] at h
      exact .inr (.inr (.inl ⟨rfl, (Except.ok.inj h).symm⟩))
    | false =>
      cases hc : t.kind.isClosing with
      | false =>
        have hplain := TokenKind.isBracket_eq_false_iff.mpr ⟨ho, hc⟩
        rw [step_leaf hend hplain] at h
        exact .inr (.inl ⟨hend, hplain, (Except.ok.inj h).symm⟩)
      | true =>
        simp only [step, if_neg hend, ho, hc, Bool.false_eq_true, if_false, if_true] at h
        rcases opened with - | ⟨⟨o, before⟩, opened⟩
        · cases h
        · simp only at h
          split at h
          · rename_i hpair
            rw [List.reverse_cons] at h
            exact .inr (.inr (.inr ⟨o, before, opened, TokenKind.closer?_eq_some_iff.mp hpair,
              rfl, (Except.ok.inj h).symm⟩))
          · cases h

/-! ## What has been read -/

/-- The tokens of the groups still open, up to the innermost one. -/
def openedListing : List (Token × List TokenTree) → List Token
  | [] => []
  | (o, before) :: opened => openedListing opened ++ (tokensOf before.reverse ++ [o])

/-- The tokens that a nesting holds, in the order in which they were read. -/
def listing (n : Nesting) : List Token := openedListing n.opened ++ tokensOf n.trees.reverse

/-- **What holds between two tokens**: those read are held, in their order, and
the trees of every group are matched. -/
structure Sound (n : Nesting) (seen : List Token) : Prop where
  listing : n.listing = seen
  trees : Matched n.trees.reverse
  opened : ∀ g ∈ n.opened, Matched g.2.reverse

theorem start_sound : start.Sound [] :=
  ⟨by simp [listing, openedListing, start], .nil, by simp [start]⟩

/-- **One token more** is held. -/
theorem step_sound (hn : n.Sound seen) (h : n.step t = .ok n') :
    n'.Sound (seen ++ Token.content [t]) := by
  obtain ⟨hlist, htrees, hopened⟩ := hn
  rcases step_cases h with ⟨hend, rfl⟩ | ⟨hend, hplain, rfl⟩ | ⟨ho, rfl⟩ |
    ⟨o, before, opened, hpair, heq, rfl⟩
  · rw [Token.content_cons_end hend, Token.content, List.filter_nil, List.append_nil]
    exact ⟨hlist, htrees, hopened⟩
  · rw [Token.content_cons hend, ← hlist]
    refine ⟨by simp [listing, Token.content], ?_, hopened⟩
    rw [List.reverse_cons]
    exact htrees.append (.leaf hend hplain .nil)
  · rw [Token.content_cons (TokenKind.ne_endOfInput_of_isOpening ho), ← hlist]
    exact ⟨by simp [listing, openedListing, Token.content], .nil,
      List.forall_mem_cons.mpr ⟨htrees, hopened⟩⟩
  · rw [Token.content_cons (TokenKind.ne_endOfInput_of_isClosing hpair.isClosing), ← hlist]
    rw [heq] at hopened
    obtain ⟨hbefore, hrest⟩ := List.forall_mem_cons.mp hopened
    refine ⟨by simp [listing, openedListing, heq, Token.content], ?_, hrest⟩
    rw [List.reverse_cons]
    exact hbefore.append (.group hpair htrees .nil)

/-- **All tokens** are held. -/
theorem run_sound (hn : n.Sound seen) (h : n.run ts = .ok n') :
    n'.Sound (seen ++ Token.content ts) := by
  induction ts generalizing n seen with
  | nil =>
    obtain rfl := Except.ok.inj h
    simpa [Token.content] using hn
  | cons t ts ih =>
    rw [run] at h
    split at h
    · cases h
    · rename_i n₁ hstep
      have hall := ih (step_sound hn hstep) h
      rwa [List.append_assoc, ← Token.content_append, List.singleton_append] at hall

/-! ## Matched trees are read back -/

/-- The end of input makes no difference. -/
theorem run_content (n : Nesting) (ts : List Token) : n.run (Token.content ts) = n.run ts := by
  induction ts generalizing n with
  | nil => rfl
  | cons t ts ih =>
    by_cases hend : t.kind = .endOfInput
    · rw [Token.content_cons_end hend, ih, run, step_end hend]
    · rw [Token.content_cons hend, run, run]
      simp only [ih]

/-- **The tokens of matched trees** put these trees on the innermost level. -/
theorem run_matched (h : Matched trees) (n : Nesting) (rest : List Token) :
    n.run (tokensOf trees ++ rest) =
      (⟨n.opened, trees.reverse ++ n.trees⟩ : Nesting).run rest := by
  induction h generalizing n rest with
  | nil => simp
  | @leaf k ts hend hplain _ ih =>
    rw [tokensOf_cons, tokens_leaf, List.singleton_append, List.cons_append, run,
      step_leaf hend hplain]
    simp only [ih, List.reverse_cons, List.append_assoc, List.singleton_append]
  | @group o c inner ts hpair _ _ ihi ihr =>
    rw [tokensOf_group, List.cons_append, List.append_assoc, List.cons_append, run,
      step_opening hpair.isOpening]
    -- the group is open while what it holds is read
    simp only [ihi, run, step_closing hpair, ihr, List.append_nil, List.reverse_reverse,
      List.reverse_cons, List.append_assoc, List.singleton_append]

end Nesting

/-! ## Whole lists and whole trees -/

/-- What the tokens make is a root above matched trees, whose listing they
are. -/
theorem matched_of_ofTokens {tree : TokenTree} (h : ofTokens ts = .ok tree) :
    ∃ trees, tree = node none trees ∧ Matched trees ∧ tokensOf trees = Token.content ts := by
  rw [ofTokens] at h
  split at h
  · cases h
  · rename_i n hrun
    obtain ⟨hlist, htrees, -⟩ := Nesting.run_sound Nesting.start_sound hrun
    rw [Nesting.finish] at h
    split at h
    · rename_i hopened
      obtain rfl := Except.ok.inj h
      refine ⟨_, rfl, htrees, ?_⟩
      rwa [Nesting.listing, hopened, Nesting.openedListing, List.nil_append,
        List.nil_append] at hlist
    · cases h

/-- The listing of matched trees makes them, whether the end of input is
among the tokens or not. -/
theorem ofTokens_of_matched (h : Matched trees) (heq : tokensOf trees = Token.content ts) :
    ofTokens ts = .ok (node none trees) := by
  have hrun : Nesting.start.run ts = .ok ⟨[], trees.reverse⟩ := by
    have hread := Nesting.run_matched h Nesting.start []
    rw [List.append_nil, heq, Nesting.run_content] at hread
    simpa [Nesting.start, Nesting.run] using hread
  simp only [ofTokens, hrun, Nesting.finish, List.reverse_reverse]

/-- **Grouping by brackets is exact.** Tokens make a tree just when their
brackets are well nested; the listing of the tree is the tokens without any
end of input, and the tree is grouped, with no closer but at the end of a
group. Every tree of that kind is made of its own listing. -/
theorem ofTokens_exact :
    (∀ ts : List Token, (∃ tree, ofTokens ts = .ok tree) ↔ WellNested (Token.brackets ts)) ∧
    (∀ (ts : List Token) (tree : TokenTree), ofTokens ts = .ok tree →
      tree.tokens = Token.content ts ∧ tree.Grouped ∧ tree.Tokened ∧ tree.ClosersLast) ∧
    ∀ tree : TokenTree, tree.Grouped → tree.Tokened → tree.ClosersLast →
      ofTokens tree.tokens = .ok tree := by
  refine ⟨fun ts => ⟨?_, fun h => ?_⟩, fun ts tree h => ?_, fun tree hgroup htok hlast => ?_⟩
  · rintro ⟨tree, h⟩
    obtain ⟨trees, -, hm, heq⟩ := matched_of_ofTokens h
    have hnested := hm.wellNested
    rwa [heq, Token.brackets_content] at hnested
  · obtain ⟨trees, hm, heq⟩ := exists_matched h ts rfl
    exact ⟨_, ofTokens_of_matched hm heq⟩
  · obtain ⟨trees, rfl, hm, heq⟩ := matched_of_ofTokens h
    exact ⟨by simpa [tokens] using heq, matched_iff.mp hm⟩
  · obtain ⟨token, children⟩ := tree
    obtain rfl : token = none := hgroup.root
    have hm : Matched children := matched_iff.mpr ⟨hgroup, htok, hlast⟩
    rw [tokens, Option.toList_none, List.nil_append]
    exact ofTokens_of_matched hm hm.content.symm

/-- Brackets of two pairs with a name between them, and an end of input that
stands among them. -/
theorem ofTokens_exact_nested :
    ∃ tree, ofTokens
        [⟨.symbol .leftBrace, ['{'], ⟨1, 1⟩⟩, ⟨.symbol .leftParen, ['('], ⟨1, 2⟩⟩,
          ⟨.identifier, ['a'], ⟨1, 3⟩⟩, .endOfInput ⟨1, 4⟩, ⟨.symbol .rightParen, [')'], ⟨1, 4⟩⟩,
          ⟨.symbol .rightBrace, ['}'], ⟨1, 5⟩⟩] = .ok tree ∧
      tree.tokens =
        [⟨.symbol .leftBrace, ['{'], ⟨1, 1⟩⟩, ⟨.symbol .leftParen, ['('], ⟨1, 2⟩⟩,
          ⟨.identifier, ['a'], ⟨1, 3⟩⟩, ⟨.symbol .rightParen, [')'], ⟨1, 4⟩⟩,
          ⟨.symbol .rightBrace, ['}'], ⟨1, 5⟩⟩] ∧
      ofTokens tree.tokens = .ok tree := by
  obtain ⟨hnested, hshape, hback⟩ := ofTokens_exact
  obtain ⟨tree, htree⟩ := (hnested
    [⟨.symbol .leftBrace, ['{'], ⟨1, 1⟩⟩, ⟨.symbol .leftParen, ['('], ⟨1, 2⟩⟩,
      ⟨.identifier, ['a'], ⟨1, 3⟩⟩, .endOfInput ⟨1, 4⟩, ⟨.symbol .rightParen, [')'], ⟨1, 4⟩⟩,
      ⟨.symbol .rightBrace, ['}'], ⟨1, 5⟩⟩]).mpr
    (@WellNested.group _ _ [.symbol .leftParen, .symbol .rightParen] [] .braces
      (@WellNested.group _ _ [] [] .parens .nil .nil) .nil)
  obtain ⟨hlist, hgroup, htok, hlast⟩ := hshape _ tree htree
  exact ⟨tree, htree, hlist, hback tree hgroup htok hlast⟩

/-- **A closer on its own** is a leaf like any other, so a tree of that shape
without an end of input need not be made by its listing. -/
theorem stray_closer :
    ¬ ∀ tree : TokenTree, tree.Grouped → tree.Tokened → ofTokens tree.tokens = .ok tree := by
  intro h
  let closer : Token := ⟨.symbol .rightParen, [')'], ⟨1, 1⟩⟩
  have hnodes : ∀ x ∈ (node none [leaf closer]).descendants, x = leaf closer := by simp [leaf]
  have hgroup : (node none [leaf closer]).Grouped := by
    refine ⟨rfl, fun x hx ho => ?_, fun x hx _ => ?_⟩
    · rw [hnodes x hx, isOpener_leaf] at ho
      cases ho
    · rw [hnodes x hx]
      rfl
  have htok : (node none [leaf closer]).Tokened := by
    intro x hx
    rw [hnodes x hx]
    exact ⟨closer, rfl, by decide⟩
  have hmade := h _ hgroup htok
  have hrefused : ofTokens (node none [leaf closer]).tokens =
      .error (.ofToken closer .noOpener) := by
    simp only [tokens, tokensOf_cons, tokensOf_nil, tokens_leaf]
    rfl
  rw [hrefused] at hmade
  cases hmade

end TokenTree

end StraightLine
