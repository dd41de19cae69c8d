import StraightLine.TokenTree.Basic

/-!
# Forests — trees that match their brackets

`WellNested` is the language of brackets and mentions no tree. `Matched` is
the same for trees side by side: a token that is no bracket stands alone, and
an opening one holds such trees and, behind them, the closing token of its
pair. The tokens of such trees are well nested, and every well nested list
of tokens is the listing of such trees (`exists_matched`).

What a matched forest looks like from one node at a time is said by `Grouped`,
`Tokened` and `ClosersLast`; `matched_iff` ties the two descriptions.
-/

namespace StraightLine

namespace TokenKind

variable {o c k : TokenKind}

/-- **The three pairs of brackets.** -/
inductive Pairs : TokenKind → TokenKind → Prop
  | parens : Pairs (.symbol .leftParen) (.symbol .rightParen)
  | braces : Pairs (.symbol .leftBrace) (.symbol .rightBrace)
  | brackets : Pairs (.symbol .leftBracket) (.symbol .rightBracket)

theorem closer?_eq_some_iff : o.closer? = some c ↔ o.Pairs c := by
  constructor
  · intro h
    unfold closer? at h
    split at h
    · obtain rfl := Option.some.inj h
      exact .parens
    · obtain rfl := Option.some.inj h
      exact .braces
    · obtain rfl := Option.some.inj h
      exact .brackets
    · cases h
  · rintro (_ | _ | _)
    · rfl
    · rfl
    · rfl

/-- An opening kind is the first of a pair. -/
theorem isOpening_iff : o.isOpening = true ↔ ∃ c, o.Pairs c := by
  rw [isOpening, Option.isSome_iff_exists]
  simp only [closer?_eq_some_iff]

/-- A closing kind is the second of a pair. -/
theorem isClosing_iff : c.isClosing = true ↔ ∃ o, Pairs o c := by
  constructor
  · intro h
    unfold isClosing at h
    split at h
    · exact ⟨_, .parens⟩
    · exact ⟨_, .braces⟩
    · exact ⟨_, .brackets⟩
    · cases h
  · rintro ⟨o, _ | _ | _⟩
    · rfl
    · rfl
    · rfl

theorem Pairs.isOpening (h : o.Pairs c) : o.isOpening = true := isOpening_iff.mpr ⟨c, h⟩

theorem Pairs.isClosing (h : o.Pairs c) : c.isClosing = true := isClosing_iff.mpr ⟨o, h⟩

/-- No kind both opens and closes. -/
theorem isClosing_eq_false_of_isOpening (h : k.isOpening = true) : k.isClosing = false := by
  obtain ⟨c, _ | _ | _⟩ := isOpening_iff.mp h
  · rfl
  · rfl
  · rfl

theorem isOpening_eq_false_of_isClosing (h : k.isClosing = true) : k.isOpening = false := by
  obtain ⟨o, _ | _ | _⟩ := isClosing_iff.mp h
  · rfl
  · rfl
  · rfl

theorem ne_endOfInput_of_isOpening (h : k.isOpening = true) : k ≠ .endOfInput := by
  rintro rfl
  cases h

theorem ne_endOfInput_of_isClosing (h : k.isClosing = true) : k ≠ .endOfInput := by
  rintro rfl
  cases h

/-- Whether a kind is one of the brackets. -/
def isBracket (k : TokenKind) : Bool := k.isOpening || k.isClosing

theorem isBracket_eq_false_iff :
    k.isBracket = false ↔ k.isOpening = false ∧ k.isClosing = false := Bool.or_eq_false_iff

end TokenKind

/-- **Well nested brackets**: each opening one is followed by well nested ones
and the closing one of its pair. -/
inductive WellNested : List TokenKind → Prop
  | nil : WellNested []
  | group {o c : TokenKind} {inner rest : List TokenKind} (h : o.Pairs c) (hi : WellNested inner)
      (hr : WellNested rest) : WellNested (o :: (inner ++ c :: rest))

theorem WellNested.append {ks ls : List TokenKind} (hk : WellNested ks) (hl : WellNested ls) :
    WellNested (ks ++ ls) := by
  induction hk with
  | nil => exact hl
  | group h hi _ _ ih =>
    rw [List.cons_append, List.append_assoc]
    exact .group h hi ih

namespace Token

variable {t : Token} {ts us : List Token}

/-- The brackets among some tokens. -/
def brackets (ts : List Token) : List TokenKind :=
  (ts.filter fun t => t.kind.isBracket).map kind

/-- The tokens without any end of input. -/
def content (ts : List Token) : List Token := ts.filter fun t => t.kind ≠ .endOfInput

@[simp] theorem brackets_append : brackets (ts ++ us) = brackets ts ++ brackets us := by
  simp [brackets]

theorem brackets_cons_of_isBracket (h : t.kind.isBracket = true) :
    brackets (t :: ts) = t.kind :: brackets ts := by simp [brackets, h]

theorem brackets_cons_of_not (h : t.kind.isBracket = false) : brackets (t :: ts) = brackets ts := by
  simp [brackets, h]

theorem brackets_eq_nil (h : ∀ t ∈ ts, t.kind.isBracket = false) : brackets ts = [] := by
  rw [brackets, List.filter_eq_nil_iff.mpr fun t ht => by simp [h t ht], List.map_nil]

@[simp] theorem content_append : content (ts ++ us) = content ts ++ content us :=
  List.filter_append ..

theorem content_cons (h : t.kind ≠ .endOfInput) : content (t :: ts) = t :: content ts :=
  List.filter_cons_of_pos (by simpa using h)

theorem content_cons_end (h : t.kind = .endOfInput) : content (t :: ts) = content ts :=
  List.filter_cons_of_neg (by simpa using h)

/-- The end of input is no bracket. -/
theorem brackets_content : brackets (content ts) = brackets ts := by
  induction ts with
  | nil => rfl
  | cons t ts ih =>
    by_cases hend : t.kind = .endOfInput
    · have hb : t.kind.isBracket = false := by
        rw [hend]
        rfl
      rw [content_cons_end hend, ih, brackets_cons_of_not hb]
    · rw [content_cons hend]
      cases hb : t.kind.isBracket with
      | true => rw [brackets_cons_of_isBracket hb, brackets_cons_of_isBracket hb, ih]
      | false => rw [brackets_cons_of_not hb, brackets_cons_of_not hb, ih]

/-- **The first pair of brackets** cuts a list of tokens in three. -/
theorem exists_split {o c : TokenKind} {inner rest : List TokenKind}
    (h : brackets ts = o :: (inner ++ c :: rest)) :
    ∃ plain opener ts₁ closer ts₂, ts = plain ++ opener :: (ts₁ ++ closer :: ts₂) ∧
      (∀ t ∈ plain, t.kind.isBracket = false) ∧ opener.kind = o ∧ closer.kind = c ∧
        brackets ts₁ = inner ∧ brackets ts₂ = rest := by
  obtain ⟨opener, _, hfilter, ho, htail⟩ := List.map_eq_cons_iff.mp h
  obtain ⟨plain, us, rfl, hplain, -, rfl⟩ := List.filter_eq_cons_iff.mp hfilter
  obtain ⟨_, _, hsplit, hinner, hrest⟩ := List.map_eq_append_iff.mp htail
  obtain ⟨vs, ws, rfl, rfl, rfl⟩ := List.filter_eq_append_iff.mp hsplit
  obtain ⟨closer, _, hfilter', hc, hrest'⟩ := List.map_eq_cons_iff.mp hrest
  obtain ⟨plain', ts₂, rfl, hplain', -, rfl⟩ := List.filter_eq_cons_iff.mp hfilter'
  refine ⟨plain, opener, vs ++ plain', closer, ts₂, by simp, ?_, ho, hc, ?_, hrest'⟩
  · simpa using hplain
  · -- what stands between the last bracket inside and the closing one is plain
    have hnil : brackets plain' = [] := brackets_eq_nil (by simpa using hplain')
    rw [brackets_append, hnil, List.append_nil]
    exact hinner

end Token

namespace TokenTree

variable {t x y : TokenTree} {ts us : List TokenTree}

@[simp] theorem tokensOf_nil : tokensOf [] = [] := by rw [tokensOf]

@[simp] theorem tokensOf_cons : tokensOf (t :: ts) = t.tokens ++ tokensOf ts := by rw [tokensOf]

@[simp] theorem tokensOf_append : tokensOf (ts ++ us) = tokensOf ts ++ tokensOf us := by
  induction ts with
  | nil => simp
  | cons t ts ih => simp [ih]

@[simp] theorem tokens_leaf (k : Token) : (leaf k).tokens = [k] := by simp [leaf, tokens]

@[simp] theorem tokens_node (k : Token) : (node (some k) ts).tokens = k :: tokensOf ts := by
  simp [tokens]

/-- The listing of a group and what follows it. -/
theorem tokensOf_group (o c : Token) :
    tokensOf (node (some o) (ts ++ [leaf c]) :: us) = o :: (tokensOf ts ++ c :: tokensOf us) := by
  simp

theorem tokensOf_leaves (ks : List Token) : tokensOf (ks.map leaf) = ks := by
  induction ks with
  | nil => simp
  | cons k ks ih => simp [ih]

/-! ## Matched trees -/

/-- **Trees that match their brackets.** -/
inductive Matched : List TokenTree → Prop
  | nil : Matched []
  | leaf {k : Token} {ts : List TokenTree} (hend : k.kind ≠ .endOfInput)
      (hplain : k.kind.isBracket = false) (rest : Matched ts) : Matched (TokenTree.leaf k :: ts)
  | group {o c : Token} {inner ts : List TokenTree} (h : o.kind.Pairs c.kind)
      (hi : Matched inner) (rest : Matched ts) :
      Matched (node (some o) (inner ++ [TokenTree.leaf c]) :: ts)

theorem Matched.append (ht : Matched ts) (hu : Matched us) : Matched (ts ++ us) := by
  induction ht with
  | nil => exact hu
  | leaf hend hplain _ ih => exact .leaf hend hplain ih
  | group h hi _ _ ih => exact .group h hi ih

/-- **Their tokens are well nested.** -/
theorem Matched.wellNested (h : Matched ts) : WellNested (Token.brackets (tokensOf ts)) := by
  induction h with
  | nil => exact .nil
  | @leaf k ts _ hplain _ ih =>
    rw [tokensOf_cons, tokens_leaf, List.singleton_append, Token.brackets_cons_of_not hplain]
    exact ih
  | @group o c inner ts h _ _ ihi ihr =>
    have ho : o.kind.isBracket = true := by simp [TokenKind.isBracket, h.isOpening]
    have hc : c.kind.isBracket = true := by simp [TokenKind.isBracket, h.isClosing]
    rw [tokensOf_group, Token.brackets_cons_of_isBracket ho, Token.brackets_append,
      Token.brackets_cons_of_isBracket hc]
    exact .group h ihi ihr

/-- None of their tokens is an end of input. -/
theorem Matched.content (h : Matched ts) : Token.content (tokensOf ts) = tokensOf ts := by
  induction h with
  | nil => rfl
  | leaf hend _ _ ih =>
    rw [tokensOf_cons, tokens_leaf, List.singleton_append, Token.content_cons hend, ih]
  | @group o c inner ts h _ _ ihi ihr =>
    rw [tokensOf_group, Token.content_cons (TokenKind.ne_endOfInput_of_isOpening h.isOpening),
      Token.content_append, Token.content_cons (TokenKind.ne_endOfInput_of_isClosing h.isClosing),
      ihi, ihr]

/-- Tokens that are no brackets stand side by side. -/
theorem matched_leaves {ks : List Token} (h : ∀ k ∈ ks, k.kind.isBracket = false) :
    Matched ((Token.content ks).map leaf) := by
  induction ks with
  | nil => exact .nil
  | cons k ks ih =>
    obtain ⟨hk, hks⟩ := List.forall_mem_cons.mp h
    by_cases hend : k.kind = .endOfInput
    · rw [Token.content_cons_end hend]
      exact ih hks
    · rw [Token.content_cons hend]
      exact .leaf hend hk (ih hks)

/-- **Every well nested list of tokens is the listing of matched trees.** -/
theorem exists_matched {ks : List TokenKind} (h : WellNested ks) :
    ∀ tokens : List Token, Token.brackets tokens = ks →
      ∃ ts, Matched ts ∧ tokensOf ts = Token.content tokens := by
  induction h with
  | nil =>
    intro tokens hnil
    rw [Token.brackets, List.map_eq_nil_iff, List.filter_eq_nil_iff] at hnil
    exact ⟨_, matched_leaves fun k hk => by simpa using hnil k hk, tokensOf_leaves _⟩
  | group h _ _ ihi ihr =>
    intro tokens heq
    obtain ⟨plain, opener, tokens₁, closer, tokens₂, rfl, hplain, rfl, rfl, h₁, h₂⟩ :=
      Token.exists_split heq
    obtain ⟨ts₁, hts₁, heq₁⟩ := ihi tokens₁ h₁
    obtain ⟨ts₂, hts₂, heq₂⟩ := ihr tokens₂ h₂
    refine ⟨_, (matched_leaves hplain).append (.group h hts₁ hts₂), ?_⟩
    rw [Token.content_append, Token.content_cons (TokenKind.ne_endOfInput_of_isOpening h.isOpening),
      Token.content_append, Token.content_cons (TokenKind.ne_endOfInput_of_isClosing h.isClosing),
      ← heq₁, ← heq₂]
    simp [tokensOf_leaves]

/-! ## Node by node -/

mutual

/-- The nodes below the root of a tree. -/
def descendants : TokenTree → List TokenTree
  | node _ children => nodesOf children

/-- The nodes of some trees. -/
def nodesOf : List TokenTree → List TokenTree
  | [] => []
  | t :: ts => t :: (t.descendants ++ nodesOf ts)

end

/-- A node whose token opens a group. -/
def IsOpener (x : TokenTree) : Prop := ∃ o, x.token = some o ∧ o.kind.isOpening = true

/-- A node whose token closes a group. -/
def IsCloser (x : TokenTree) : Prop := ∃ c, x.token = some c ∧ c.kind.isClosing = true

/-- Two nodes whose tokens are a pair of brackets. -/
def Closes (y x : TokenTree) : Prop :=
  ∃ o c, x.token = some o ∧ y.token = some c ∧ o.kind.Pairs c.kind

/-- **Groups**: the root has no token, an opener has the closer of its pair as
its last child, and every other node below the root is a leaf. -/
structure Grouped (t : TokenTree) : Prop where
  root : t.token = none
  opener : ∀ x ∈ t.descendants, x.IsOpener →
    ∃ front last, x.children = front ++ [last] ∧ last.Closes x
  leaf : ∀ x ∈ t.descendants, ¬ x.IsOpener → x.children = []

/-- Every node below the root has a token, and it is not the end of input. -/
def Tokened (t : TokenTree) : Prop :=
  ∀ x ∈ t.descendants, ∃ k, x.token = some k ∧ k.kind ≠ .endOfInput

/-- Closers stand nowhere but at the end of a group. -/
def ClosersLast (t : TokenTree) : Prop :=
  ∀ x ∈ t :: t.descendants, ∀ front y back, x.children = front ++ y :: back → y.IsCloser →
    x.IsOpener ∧ back = []

@[simp] theorem descendants_node (k : Option Token) : (node k ts).descendants = nodesOf ts := by
  rw [descendants]

@[simp] theorem nodesOf_nil : nodesOf [] = [] := by rw [nodesOf]

@[simp] theorem nodesOf_cons : nodesOf (t :: ts) = t :: (t.descendants ++ nodesOf ts) := by
  rw [nodesOf]

@[simp] theorem nodesOf_append : nodesOf (ts ++ us) = nodesOf ts ++ nodesOf us := by
  induction ts with
  | nil => simp
  | cons t ts ih => simp [ih]

theorem mem_nodesOf (h : t ∈ ts) : t ∈ nodesOf ts := by
  obtain ⟨front, back, rfl⟩ := List.append_of_mem h
  simp

mutual

theorem mem_descendants_of_mem_children :
    ∀ {t : TokenTree}, x ∈ t.descendants → y ∈ x.children → y ∈ t.descendants
  | node _ children, hx, hy => by
    rw [descendants_node] at hx ⊢
    exact mem_nodesOf_of_mem_children hx hy

/-- The children of a node are nodes as well. -/
theorem mem_nodesOf_of_mem_children :
    ∀ {ts : List TokenTree}, x ∈ nodesOf ts → y ∈ x.children → y ∈ nodesOf ts
  | [], hx, _ => by simp at hx
  | node k children :: ts, hx, hy => by
    rw [nodesOf_cons] at hx ⊢
    rcases List.mem_cons.mp hx with rfl | hx
    · -- a child of the first root
      refine List.mem_cons_of_mem _ (List.mem_append_left _ ?_)
      rw [descendants_node]
      exact mem_nodesOf hy
    · refine List.mem_cons_of_mem _ (List.mem_append.mpr ?_)
      exact (List.mem_append.mp hx).imp
        (fun h => mem_descendants_of_mem_children h hy)
        (fun h => mem_nodesOf_of_mem_children h hy)

end

/-- A node of matched trees: a leaf that opens nothing, or a group whose closer
is the first one in it. -/
inductive MatchedNode : TokenTree → Prop
  | leaf {k : Token} (hend : k.kind ≠ .endOfInput) (ho : k.kind.isOpening = false) :
      MatchedNode (TokenTree.leaf k)
  | group {o c : Token} {front : List TokenTree} (h : o.kind.Pairs c.kind)
      (hfront : ∀ y ∈ front, ¬ y.IsCloser) :
      MatchedNode (node (some o) (front ++ [TokenTree.leaf c]))

theorem isCloser_leaf {k : Token} : (leaf k).IsCloser ↔ k.kind.isClosing = true := by
  simp [IsCloser, leaf, token]

theorem isOpener_leaf {k : Token} : (leaf k).IsOpener ↔ k.kind.isOpening = true := by
  simp [IsOpener, leaf, token]

theorem isOpener_node {o : Token} : (node (some o) ts).IsOpener ↔ o.kind.isOpening = true := by
  simp [IsOpener, token]

theorem isCloser_node {o : Token} : (node (some o) ts).IsCloser ↔ o.kind.isClosing = true := by
  simp [IsCloser, token]

/-- Matched trees, one node at a time. -/
theorem Matched.nodes (h : Matched ts) :
    (∀ x ∈ nodesOf ts, MatchedNode x) ∧ ∀ x ∈ ts, ¬ x.IsCloser := by
  induction h with
  | nil => simp
  | @leaf k ts hend hplain _ ih =>
    obtain ⟨ho, hc⟩ := TokenKind.isBracket_eq_false_iff.mp hplain
    refine ⟨?_, List.forall_mem_cons.mpr ⟨?_, ih.2⟩⟩
    · rw [nodesOf_cons, TokenTree.leaf, descendants_node, nodesOf_nil, List.nil_append]
      exact List.forall_mem_cons.mpr ⟨.leaf hend ho, ih.1⟩
    · rw [isCloser_leaf, hc]
      exact Bool.false_ne_true
  | @group o c inner ts h _ _ ihi ihr =>
    have hlast : MatchedNode (TokenTree.leaf c) :=
      .leaf (TokenKind.ne_endOfInput_of_isClosing h.isClosing)
        (TokenKind.isOpening_eq_false_of_isClosing h.isClosing)
    refine ⟨?_, List.forall_mem_cons.mpr ⟨?_, ihr.2⟩⟩
    · rw [nodesOf_cons, descendants_node, nodesOf_append]
      refine List.forall_mem_cons.mpr ⟨.group h ihi.2, List.forall_mem_append.mpr
        ⟨List.forall_mem_append.mpr ⟨ihi.1, ?_⟩, ihr.1⟩⟩
      simpa [TokenTree.leaf] using hlast
    · rw [isCloser_node, TokenKind.isClosing_eq_false_of_isOpening h.isOpening]
      exact Bool.false_ne_true

/-- And back: the trees in a group are fewer nodes than the group. -/
theorem matched_of_nodes (ts : List TokenTree) (hn : ∀ x ∈ nodesOf ts, MatchedNode x)
    (hroot : ∀ x ∈ ts, ¬ x.IsCloser) : Matched ts := by
  induction hlen : (nodesOf ts).length using Nat.strongRecOn generalizing ts with
  | ind n ih =>
    cases ts with
    | nil => exact .nil
    | cons t ts =>
      obtain ⟨ht, hts⟩ := List.forall_mem_cons.mp hroot
      rw [nodesOf_cons] at hn hlen
      obtain ⟨hnode, hbelow⟩ := List.forall_mem_cons.mp hn
      obtain ⟨hdesc, hrest⟩ := List.forall_mem_append.mp hbelow
      rw [List.length_cons, List.length_append] at hlen
      have htail : Matched ts := ih _ (by omega) ts hrest hts rfl
      cases hnode with
      | @leaf k hend ho =>
        rw [isCloser_leaf, Bool.not_eq_true] at ht
        exact .leaf hend (TokenKind.isBracket_eq_false_iff.mpr ⟨ho, ht⟩) htail
      | @group o c front h hfront =>
        rw [descendants_node, nodesOf_append] at hdesc hlen
        rw [List.length_append] at hlen
        exact .group h (ih _ (by omega) front
          (fun x hx => hdesc x (List.mem_append_left _ hx)) hfront rfl) htail

/-- An opening node among them is a group, and any other one a leaf. -/
theorem Matched.grouped (h : Matched ts) : (node none ts).Grouped := by
  refine ⟨rfl, fun x hx ho => ?_, fun x hx ho => ?_⟩
  · rw [descendants_node] at hx
    cases h.nodes.1 x hx with
    | leaf _ hno =>
      rw [isOpener_leaf, hno] at ho
      cases ho
    | group hpair _ => exact ⟨_, _, rfl, _, _, rfl, rfl, hpair⟩
  · rw [descendants_node] at hx
    cases h.nodes.1 x hx with
    | leaf => rfl
    | group hpair _ => exact absurd (isOpener_node.mpr hpair.isOpening) ho

theorem Matched.tokened (h : Matched ts) : (node none ts).Tokened := by
  intro x hx
  rw [descendants_node] at hx
  cases h.nodes.1 x hx with
  | leaf hend _ => exact ⟨_, rfl, hend⟩
  | group hpair _ => exact ⟨_, rfl, TokenKind.ne_endOfInput_of_isOpening hpair.isOpening⟩

theorem Matched.closersLast (h : Matched ts) : (node none ts).ClosersLast := by
  obtain ⟨hn, hroot⟩ := h.nodes
  rw [ClosersLast, descendants_node]
  refine List.forall_mem_cons.mpr ⟨fun front y back hsplit hy => ?_,
    fun x hx front y back hsplit hy => ?_⟩
  · have hmem : y ∈ ts := by
      rw [show ts = front ++ y :: back from hsplit]
      simp
    exact absurd hy (hroot y hmem)
  · cases hn x hx with
    | leaf => simp [TokenTree.leaf, children] at hsplit
    | @group o c inner hpair hfront =>
      refine ⟨isOpener_node.mpr hpair.isOpening, ?_⟩
      -- a closer with something behind it is one of those in front of the last
      rcases List.eq_nil_or_concat back with hnil | ⟨back', z, rfl⟩
      · exact hnil
      · rw [children, List.concat_eq_append, ← List.cons_append, ← List.append_assoc] at hsplit
        have hinner := (List.append_inj' hsplit rfl).1
        exact absurd hy (hfront y (by rw [hinner]; simp))

/-- The node that closes another one opens nothing. -/
theorem Closes.not_isOpener (h : y.Closes x) : ¬ y.IsOpener := by
  obtain ⟨_, c, -, hc, hpair⟩ := h
  rintro ⟨k, hk, hopen⟩
  obtain rfl := Option.some.inj (hc.symm.trans hk)
  rw [TokenKind.isOpening_eq_false_of_isClosing hpair.isClosing] at hopen
  cases hopen

/-- A node below a root of that shape is a node of matched trees. -/
theorem matchedNode_of_grouped (hgroup : (node none ts).Grouped) (htok : (node none ts).Tokened)
    (hlast : (node none ts).ClosersLast) (hx : x ∈ nodesOf ts) : MatchedNode x := by
  obtain ⟨-, hopener, hleaf⟩ := hgroup
  simp only [Tokened, ClosersLast, descendants_node] at hopener hleaf htok hlast
  obtain ⟨k, hk, hend⟩ := htok x hx
  by_cases ho : x.IsOpener
  · obtain ⟨front, last, hchildren, hcloses⟩ := hopener x hx ho
    have hmem : last ∈ nodesOf ts := mem_nodesOf_of_mem_children hx (by simp [hchildren])
    have hnil := hleaf last hmem hcloses.not_isOpener
    obtain ⟨o, c, hxo, hlc, hpair⟩ := hcloses
    obtain ⟨xt, xc⟩ := x
    obtain ⟨lt, lc⟩ := last
    simp only [token, children] at hxo hlc hchildren hnil
    subst hxo hlc hchildren hnil
    refine .group hpair fun y hy hyc => ?_
    obtain ⟨f₁, f₂, rfl⟩ := List.append_of_mem hy
    -- the last child stands behind any closer in front of it
    have hback := (hlast _ (List.mem_cons_of_mem _ hx) f₁ y (f₂ ++ [leaf c])
      (by simp [children, leaf]) hyc).2
    simp at hback
  · have hnil := hleaf x hx ho
    obtain ⟨xt, xc⟩ := x
    simp only [token, children] at hk hnil
    subst hk hnil
    exact .leaf hend (by simpa [isOpener_node] using ho)

/-- **The shape of matched trees**, seen from below a root. -/
theorem matched_iff :
    Matched ts ↔
      (node none ts).Grouped ∧ (node none ts).Tokened ∧ (node none ts).ClosersLast := by
  constructor
  · intro h
    exact ⟨h.grouped, h.tokened, h.closersLast⟩
  · rintro ⟨hgroup, htok, hlast⟩
    refine matched_of_nodes ts (fun x hx => matchedNode_of_grouped hgroup htok hlast hx) ?_
    -- the root opens nothing, so none of its children closes anything
    intro x hx hc
    obtain ⟨front, back, rfl⟩ := List.append_of_mem hx
    obtain ⟨o, ho, -⟩ := (hlast _ List.mem_cons_self front x back rfl hc).1
    cases ho

end TokenTree

end StraightLine
