import StraightLine.Proofs.Lexer.Totality
import StraightLine.TokenTree.Basic

/-!
# Balance — parentheses of the text and of the tokens

The tokens of a text of program characters carry its parentheses one for one
(`Bracketing`): a parenthesis is a token on its own, and every other token
neither has one in its text nor opens or closes a group. So the open groups
are as many as the depth of the text says (`run_layout`), and tokens of a well
bracketed text make a tree.
-/

namespace StraightLine

variable {t : Token} {ts : List Token}

/-- **What a token does to the groups**, next to what its text does to the
depth. -/
inductive Bracketing : Token → Prop
  | opening {place : Place} : Bracketing ⟨.symbol .leftParen, ['('], place⟩
  | closing {place : Place} : Bracketing ⟨.symbol .rightParen, [')'], place⟩
  | leaf {t : Token} (hend : t.kind ≠ .endOfInput) (ho : t.kind.isOpening = false)
      (hc : t.kind.isClosing = false) (hv : Text.Unbracketed t.value) : Bracketing t

namespace Symbol

/-- A symbol of program characters is a parenthesis or has nothing to do with
groups. -/
theorem bracketing_cases (s : Symbol)
    (h : Text.ProgramChars s.spelling.toList) :
    s = .leftParen ∨ s = .rightParen ∨
      ((TokenKind.symbol s).isOpening = false ∧ (TokenKind.symbol s).isClosing = false ∧
        Text.Unbracketed s.spelling.toList) := by
  revert h
  cases s <;> decide

end Symbol

theorem unbracketed_keyword (k : Keyword) : Text.Unbracketed k.spelling.toList := by
  cases k <;> decide

/-- **Tokens of the standard lexicon carry the parentheses of their text.** -/
theorem bracketing_of_produces (h : Lexicon.standard.Produces t)
    (hc : t.value.ProgramChars) : Bracketing t := by
  obtain ⟨kind, value, place⟩ := t
  rcases h.standard_cases with ⟨k, hk, hv⟩ | ⟨s, hs, hv⟩ | ⟨hshape, hend, ho, hcl⟩
  · obtain rfl : kind = .keyword k := hk
    obtain rfl : value = k.spelling.toList := hv
    exact .leaf (by rintro ⟨⟩) rfl rfl (unbracketed_keyword k)
  · obtain rfl : kind = .symbol s := hs
    obtain rfl : value = s.spelling.toList := hv
    rcases s.bracketing_cases hc with rfl | rfl | ⟨ho, hcl, hv⟩
    · exact .opening
    · exact .closing
    · exact .leaf (by rintro ⟨⟩) ho hcl hv
  · refine .leaf hend ho hcl ?_
    -- quotes are no characters of programs
    have hquote : ∀ c, value.head? = some c → Text.isProgramChar c = true := fun c hhead =>
      hc c (List.mem_of_head? hhead)
    rcases hshape with hplain | hq | hq
    · exact hplain.unbracketed
    · exact absurd (hquote _ hq) (by decide)
    · exact absurd (hquote _ hq) (by decide)

namespace TokenTree.Nesting

variable {n : Nesting} {d d' : Nat} {before ahead : Text}

/-- **The open groups are those of so many parentheses.** -/
structure Tracks (n : Nesting) (d : Nat) : Prop where
  length : n.opened.length = d
  opener : ∀ g ∈ n.opened, g.1.kind = .symbol .leftParen

theorem start_tracks : start.Tracks 0 := ⟨rfl, by simp [start]⟩

/-- **One token** follows the depth of its text. -/
theorem step_tracks (hb : Bracketing t) (hn : n.Tracks d) (hd : t.value.depthAfter? d = some d') :
    ∃ n', n.step t = .ok n' ∧ n'.Tracks d' := by
  obtain ⟨hlen, hop⟩ := hn
  cases hb with
  | @opening place =>
    obtain rfl : d + 1 = d' := Option.some.inj hd
    refine ⟨_, rfl, by simp [hlen], ?_⟩
    exact List.forall_mem_cons.mpr ⟨rfl, hop⟩
  | @closing place =>
    obtain ⟨opened, trees⟩ := n
    cases opened with
    | nil =>
      obtain rfl : d = 0 := hlen.symm
      cases hd
    | cons g opened =>
      -- the innermost open group is a parenthesis, so this one closes it
      obtain rfl : d = opened.length + 1 := hlen.symm
      obtain rfl : opened.length = d' := Option.some.inj hd
      obtain ⟨hg, hrest⟩ := List.forall_mem_cons.mp hop
      obtain ⟨opener, left⟩ := g
      have hpair : opener.kind.closer? = some (.symbol .rightParen) := by
        rw [show opener.kind = .symbol .leftParen from hg]
        rfl
      let child : TokenTree := .leaf ⟨.symbol .rightParen, [')'], place⟩
      let group : TokenTree := .node (some opener) (child :: trees).reverse
      exact ⟨⟨opened, group :: left⟩, if_pos hpair, rfl, hrest⟩
  | leaf hend ho hc hv =>
    obtain rfl : d = d' := Option.some.inj ((hv.depthAfter? d).symm.trans hd)
    refine ⟨⟨n.opened, .leaf t :: n.trees⟩, ?_, hlen, hop⟩
    simp only [step, if_neg hend, ho, hc, Bool.false_eq_true, if_false]

/-- **All tokens of a text** follow its depth. -/
theorem run_layout (h : Lexicon.standard.Layout before ahead ts)
    (hc : ahead.ProgramChars) (hn : n.Tracks d)
    (hd : ahead.depthAfter? d = some d') : ∃ n', n.run ts = .ok n' ∧ n'.Tracks d' := by
  induction h generalizing n d with
  | @done before b hb =>
    obtain rfl : d = d' := Option.some.inj ((hb.wellBracketed.depth d).symm.trans hd)
    exact ⟨n, rfl, hn⟩
  | @token before b ahead t ts hb ht hplace rest ih =>
    rw [Text.depthAfter?_append, hb.wellBracketed.depth, Option.bind_some,
      Text.depthAfter?_append] at hd
    obtain ⟨dt, hdt, hd⟩ := Option.bind_eq_some_iff.mp hd
    have hct : Text.ProgramChars (t.value ++ ahead) := fun c hmem =>
      hc c (List.mem_append_right b hmem)
    have hbr := bracketing_of_produces ht fun c hmem => hct c (List.mem_append_left _ hmem)
    obtain ⟨n₁, hstep, hn₁⟩ := step_tracks hbr hn hdt
    obtain ⟨n', hrun, hn'⟩ := ih (fun c hmem => hct c (List.mem_append_right _ hmem)) hn₁ hd
    exact ⟨n', by simp only [run, hstep, hrun], hn'⟩

end TokenTree.Nesting

/-- **The tokens of a well bracketed text make a tree.** -/
theorem exists_tree {s : Text} (hs : s.WellBracketed) (h : tokenize s = .ok ts) :
    ∃ tree, TokenTree.ofTokens ts = .ok tree := by
  obtain ⟨n, hrun, hlen, -⟩ := TokenTree.Nesting.run_layout (Lexer.layout_of_tokenize h) hs.chars
    TokenTree.Nesting.start_tracks (hs.depth 0)
  have hnil := List.length_eq_zero_iff.mp hlen
  simp only [TokenTree.ofTokens, hrun, TokenTree.Nesting.finish, hnil]
  exact ⟨_, rfl⟩

end StraightLine
