import StraightLine.Proofs.TokenTree.Matching

/-!
# Imbalance — the bracket that is blamed

Brackets can be read on as long as they are a prefix of well nested ones
(`Extendable`), and a nesting takes tokens up exactly that long
(`exists_run_iff`). What it holds open at that point are the opening tokens
that are still unclosed: none of them when all are closed, and the last of
them innermost (`run_opened`).

So the token that is blamed can be told from the list of tokens alone. It is
the first closing token with which the brackets can no longer be read on, and
without one the last opening token that is never closed. **`Blames`** says so
with the three reasons, and **`ofTokens_eq_error_iff`** that tokens are refused
with just these errors.
-/

namespace StraightLine

/-! ## Prefixes of well nested brackets -/

/-- Where something stands in a group: at its start, inside, at its end or
behind it. -/
theorem cons_append_cases {α : Type} {a b x : α} {inner rest front back : List α}
    (h : a :: (inner ++ b :: rest) = front ++ x :: back) :
    (front = [] ∧ x = a ∧ back = inner ++ b :: rest) ∨
      (∃ front' back', front = a :: front' ∧ inner = front' ++ x :: back' ∧
        back = back' ++ b :: rest) ∨
      (front = a :: inner ∧ x = b ∧ back = rest) ∨
      ∃ front', front = a :: (inner ++ b :: front') ∧ rest = front' ++ x :: back := by
  rcases front with - | ⟨a', front⟩
  · obtain ⟨rfl, rfl⟩ := List.cons.inj h
    exact .inl ⟨rfl, rfl, rfl⟩
  · rw [List.cons_append] at h
    obtain ⟨rfl, hcut⟩ := List.cons.inj h
    rcases List.append_eq_append_iff.mp hcut with ⟨u, rfl, hu⟩ | ⟨u, rfl, hu⟩
    · rcases u with - | ⟨b', u⟩
      · obtain ⟨rfl, rfl⟩ := List.cons.inj hu
        exact .inr (.inr (.inl ⟨by simp, rfl, rfl⟩))
      · obtain ⟨rfl, rfl⟩ := List.cons.inj hu
        exact .inr (.inr (.inr ⟨u, rfl, rfl⟩))
    · rcases u with - | ⟨b', u⟩
      · obtain ⟨rfl, rfl⟩ := List.cons.inj hu
        exact .inr (.inr (.inl ⟨by simp, rfl, rfl⟩))
      · obtain ⟨rfl, rfl⟩ := List.cons.inj hu
        exact .inr (.inl ⟨front, u, rfl, rfl, rfl⟩)

/-- **Brackets that can be read on** to well nested ones. -/
def Extendable (ks : List TokenKind) : Prop := ∃ more, WellNested (ks ++ more)

/-- **The opening bracket is closed** in what follows it: well nested brackets
stand in front of the other one of its pair. -/
def TokenKind.ClosedIn (o : TokenKind) (ks : List TokenKind) : Prop :=
  ∃ inner c rest, WellNested inner ∧ o.Pairs c ∧ ks = inner ++ c :: rest

theorem Extendable.of_append {ks ls : List TokenKind} (h : Extendable (ks ++ ls)) :
    Extendable ks := by
  obtain ⟨more, h⟩ := h
  exact ⟨ls ++ more, by rwa [← List.append_assoc]⟩

theorem TokenKind.ClosedIn.append {o : TokenKind} {ks : List TokenKind} (h : o.ClosedIn ks)
    (ls : List TokenKind) : o.ClosedIn (ks ++ ls) := by
  obtain ⟨inner, c, rest, hinner, hpair, rfl⟩ := h
  exact ⟨inner, c, rest ++ ls, hinner, hpair, by simp⟩

namespace WellNested

variable {o c : TokenKind} {ks ls front back : List TokenKind}

theorem isBracket (h : WellNested ks) : ∀ k ∈ ks, k.isBracket = true := by
  induction h with
  | nil => simp
  | @group o c inner rest hpair _ _ ihi ihr =>
    have ho : o.isBracket = true := by simp [TokenKind.isBracket, hpair.isOpening]
    have hc : c.isBracket = true := by simp [TokenKind.isBracket, hpair.isClosing]
    exact List.forall_mem_cons.mpr ⟨ho,
      List.forall_mem_append.mpr ⟨ihi, List.forall_mem_cons.mpr ⟨hc, ihr⟩⟩⟩

/-- As many brackets are closed as are opened. -/
theorem countP_eq (h : WellNested ks) :
    ks.countP TokenKind.isClosing = ks.countP TokenKind.isOpening := by
  induction h with
  | nil => rfl
  | @group o c inner rest hpair _ _ ihi ihr =>
    have ho := TokenKind.isClosing_eq_false_of_isOpening hpair.isOpening
    have hc := TokenKind.isOpening_eq_false_of_isClosing hpair.isClosing
    simp only [List.countP_cons, List.countP_append, hpair.isOpening, hpair.isClosing, ho, hc, ihi,
      ihr, Bool.false_eq_true, if_false, if_true]
    omega

/-- **An opening bracket among well nested ones is closed.** -/
theorem closedIn (h : WellNested ks) (hks : ks = front ++ o :: back) (ho : o.isOpening = true) :
    o.ClosedIn back := by
  induction h generalizing front back with
  | nil => simp at hks
  | @group o' c inner rest hpair hi hr ihi ihr =>
    rcases cons_append_cases hks with ⟨-, rfl, rfl⟩ | ⟨front', back', -, hinner, rfl⟩ |
      ⟨-, rfl, -⟩ | ⟨front', -, hrest⟩
    · exact ⟨inner, c, rest, hi, hpair, rfl⟩
    · exact (ihi hinner).append _
    · rw [TokenKind.isOpening_eq_false_of_isClosing hpair.isClosing] at ho
      cases ho
    · exact ihr hrest

/-- **A closing bracket among well nested ones** has more opened than closed in
front of it. -/
theorem countP_lt (h : WellNested ks) (hks : ks = front ++ c :: back) (hc : c.isClosing = true) :
    front.countP TokenKind.isClosing < front.countP TokenKind.isOpening := by
  induction h generalizing front back with
  | nil => simp at hks
  | @group o c' inner rest hpair hi hr ihi ihr =>
    have ho := TokenKind.isClosing_eq_false_of_isOpening hpair.isOpening
    have hc' := TokenKind.isOpening_eq_false_of_isClosing hpair.isClosing
    have hinner := hi.countP_eq
    rcases cons_append_cases hks with ⟨-, rfl, -⟩ | ⟨front', back', rfl, hsplit, -⟩ |
      ⟨rfl, -, -⟩ | ⟨front', rfl, hsplit⟩
    · rw [ho] at hc
      cases hc
    · have hlt := ihi hsplit
      simp only [List.countP_cons, hpair.isOpening, ho, Bool.false_eq_true, if_false, if_true]
      omega
    · simp only [List.countP_cons, hpair.isOpening, ho, Bool.false_eq_true, if_false, if_true]
      omega
    · have hlt := ihr hsplit
      simp only [List.countP_cons, List.countP_append, hpair.isOpening, hpair.isClosing, ho, hc',
        Bool.false_eq_true, if_false, if_true]
      omega

/-- So well nested brackets close nothing in front of them. -/
theorem not_closedIn (h : WellNested ks) : ¬ o.ClosedIn ks := by
  rintro ⟨inner, c, rest, hinner, hpair, hks⟩
  have hlt := h.countP_lt hks hpair.isClosing
  have heq := hinner.countP_eq
  omega

end WellNested

namespace Token

variable {ts front back : List Token} {t o : Token}

/-- **An opener left open** by the tokens behind it. -/
structure Unclosed (o : Token) (behind : List Token) : Prop where
  opens : o.kind.isOpening = true
  left : ¬ o.kind.ClosedIn (brackets behind)

/-- **Every opener among some tokens is closed** among them. -/
def AllClosed (ts : List Token) : Prop :=
  ∀ front o back, ts = front ++ o :: back → ¬ Unclosed o back

/-- **A closer with which the brackets cannot be read on.** -/
structure Breaks (before : List Token) (c : Token) : Prop where
  closes : c.kind.isClosing = true
  stuck : ¬ Extendable (brackets (before ++ [c]))

/-- **No closer among some tokens breaks** what stands in front of it. -/
def NoneBreaks (ts : List Token) : Prop :=
  ∀ before c after, ts = before ++ c :: after → ¬ Breaks before c

/-- **The bracket to blame**, and what for: the first closer that breaks the
brackets in front of it, by whether an opener is left open there or not; and
when no closer does, the last opener left open. -/
inductive Blames (ts : List Token) : UnbalancedError → Prop
  | noOpener {before : List Token} {c : Token} {after : List Token}
      (split : ts = before ++ c :: after) (breaks : Breaks before c) (first : NoneBreaks before)
      (closed : AllClosed before) : Blames ts ⟨c.value, c.place, "no matching opener"⟩
  | wrongCloser {before : List Token} {c : Token} {after : List Token}
      (split : ts = before ++ c :: after) (breaks : Breaks before c) (first : NoneBreaks before)
      (opened : ¬ AllClosed before) :
      Blames ts ⟨c.value, c.place, "does not close the innermost group"⟩
  | neverClosed {front : List Token} {o : Token} {back : List Token}
      (split : ts = front ++ o :: back) (none : NoneBreaks ts) (opened : Unclosed o back)
      (last : AllClosed back) : Blames ts ⟨o.value, o.place, "never closed"⟩

theorem allClosed_of_wellNested (h : WellNested (brackets ts)) : AllClosed ts := by
  rintro front o back rfl ⟨ho, hleft⟩
  have hbracket : o.kind.isBracket = true := by simp [TokenKind.isBracket, ho]
  rw [brackets_append, brackets_cons_of_isBracket hbracket] at h
  exact hleft (h.closedIn rfl ho)

/-- There is only one last opener left open. -/
theorem eq_of_last {front' back' : List Token} {o' : Token}
    (h : front ++ o :: back = front' ++ o' :: back') (ho : Unclosed o back) (hlast : AllClosed back)
    (ho' : Unclosed o' back') (hlast' : AllClosed back') : o = o' := by
  rcases List.append_eq_append_iff.mp h with ⟨u, rfl, hu⟩ | ⟨u, rfl, hu⟩
  · rcases u with - | ⟨x, u⟩
    · exact (List.cons.inj hu).1
    · obtain ⟨rfl, rfl⟩ := List.cons.inj hu
      exact absurd ho' (hlast u o' back' rfl)
  · rcases u with - | ⟨x, u⟩
    · exact (List.cons.inj hu).1.symm
    · obtain ⟨rfl, rfl⟩ := List.cons.inj hu
      exact absurd ho (hlast' u o back rfl)

end Token

namespace TokenTree

variable {t : Token} {ts us seen : List Token} {e : UnbalancedError}

namespace Nesting

variable {n n' : Nesting}

/-! ## Where a nesting gets stuck -/

theorem run_append (n : Nesting) (ts us : List Token) :
    n.run (ts ++ us) =
      match n.run ts with
      | .error e => .error e
      | .ok n' => n'.run us := by
  induction ts generalizing n with
  | nil => rfl
  | cons t ts ih =>
    rw [List.cons_append, run, run]
    rcases n.step t with e | n₁
    · rfl
    · exact ih n₁

/-- **A token is refused** when it closes what is not the innermost group. -/
theorem step_error (h : n.step t = .error e) :
    t.kind.isClosing = true ∧
      e = .ofToken t (if n.opened = [] then .noOpener else .wrongCloser) := by
  obtain ⟨opened, trees⟩ := n
  by_cases hend : t.kind = .endOfInput
  · rw [step_end hend] at h
    cases h
  · cases ho : t.kind.isOpening with
    | true =>
      rw [step_opening ho] at h
      cases h
    | false =>
      cases hc : t.kind.isClosing with
      | false =>
        rw [step_leaf hend (TokenKind.isBracket_eq_false_iff.mpr ⟨ho, hc⟩)] at h
        cases h
      | true =>
        refine ⟨rfl, ?_⟩
        simp only [step, if_neg hend, ho, hc, Bool.false_eq_true, if_false, if_true] at h
        rcases opened with - | ⟨⟨o, before⟩, opened⟩
        · exact (Except.error.inj h).symm
        · simp only at h
          split at h
          · cases h
          · exact (Except.error.inj h).symm

/-- Tokens are refused at one of them, and those before it are taken up. -/
theorem run_error (h : n.run ts = .error e) :
    ∃ before c after n', ts = before ++ c :: after ∧ n.run before = .ok n' ∧
      n'.step c = .error e := by
  induction ts generalizing n with
  | nil => cases h
  | cons t ts ih =>
    rw [run] at h
    rcases hstep : n.step t with e' | n₁
    · rw [hstep] at h
      obtain rfl : e' = e := Except.error.inj h
      exact ⟨[], t, ts, n, rfl, rfl, hstep⟩
    · rw [hstep] at h
      obtain ⟨before, c, after, n', rfl, hrun, hc⟩ := ih h
      exact ⟨t :: before, c, after, n', rfl, by rw [run, hstep]; exact hrun, hc⟩

/-- What is open has been opened. -/
theorem run_opens (hn : ∀ g ∈ n.opened, g.1.kind.isOpening = true) (h : n.run ts = .ok n') :
    ∀ g ∈ n'.opened, g.1.kind.isOpening = true := by
  induction ts generalizing n with
  | nil =>
    obtain rfl := Except.ok.inj h
    exact hn
  | cons t ts ih =>
    rw [run] at h
    split at h
    · cases h
    · rename_i n₁ hstep
      refine ih ?_ h
      rcases step_cases hstep with ⟨-, rfl⟩ | ⟨-, -, rfl⟩ | ⟨ho, rfl⟩ |
        ⟨o, before, opened, -, heq, rfl⟩
      · exact hn
      · exact hn
      · exact List.forall_mem_cons.mpr ⟨ho, hn⟩
      · rw [heq] at hn
        exact (List.forall_mem_cons.mp hn).2

/-- **Open groups can be closed**, the innermost one first. -/
theorem extendable_openedListing {opened : List (Token × List TokenTree)} {w : List TokenKind}
    (hopen : ∀ g ∈ opened, g.1.kind.isOpening = true) (hm : ∀ g ∈ opened, Matched g.2.reverse)
    (hw : WellNested w) : Extendable (Token.brackets (openedListing opened) ++ w) := by
  induction opened generalizing w with
  | nil => exact ⟨[], by simpa [openedListing, Token.brackets] using hw⟩
  | cons g opened ih =>
    obtain ⟨o, before⟩ := g
    obtain ⟨ho, hopen⟩ := List.forall_mem_cons.mp hopen
    obtain ⟨hbefore, hm⟩ := List.forall_mem_cons.mp hm
    obtain ⟨c, hpair⟩ := TokenKind.isOpening_iff.mp ho
    have hbracket : o.kind.isBracket = true := by simp [TokenKind.isBracket, ho]
    -- the group and what stands before it are well nested once it is closed
    obtain ⟨more, hmore⟩ := ih hopen hm (hbefore.wellNested.append (.group hpair hw .nil))
    refine ⟨c :: more, ?_⟩
    simpa [openedListing, Token.brackets_cons_of_isBracket hbracket,
      Token.brackets_eq_nil] using hmore

/-- **Tokens are taken up** just as long as their brackets can be read on. -/
theorem exists_run_iff : (∃ n, start.run ts = .ok n) ↔ Extendable (Token.brackets ts) := by
  constructor
  · rintro ⟨n, hrun⟩
    obtain ⟨hlist, htrees, hopened⟩ := run_sound start_sound hrun
    have hopen := run_opens (by simp [start]) hrun
    rw [List.nil_append] at hlist
    rw [← Token.brackets_content, ← hlist, listing, Token.brackets_append]
    exact extendable_openedListing hopen hopened htrees.wellNested
  · rintro ⟨more, hnested⟩
    -- the brackets missing, as tokens, make a tree of all of them
    let missing : List Token := more.map fun k => ⟨k, [], Place.start⟩
    have hmissing : Token.brackets missing = more := by
      have hall : ∀ k ∈ more, k.isBracket = true := fun k hk =>
        hnested.isBracket k (List.mem_append_right _ hk)
      simp only [missing, Token.brackets, List.filter_map, List.map_map]
      rw [List.filter_eq_self.mpr (by simpa using hall)]
      exact List.map_id _
    obtain ⟨trees, hm, heq⟩ := exists_matched hnested (ts ++ missing)
      (by rw [Token.brackets_append, hmissing])
    have hmade := ofTokens_of_matched hm heq
    rw [ofTokens, run_append] at hmade
    rcases hrun : start.run ts with e | n
    · rw [hrun] at hmade
      cases hmade
    · exact ⟨n, rfl⟩

/-- What can be read on has no closer that breaks it. -/
theorem noneBreaks_of_run (h : start.run ts = .ok n) : Token.NoneBreaks ts := by
  rintro before c after rfl ⟨-, hstuck⟩
  have hall : Extendable (Token.brackets (before ++ c :: after)) := exists_run_iff.mp ⟨n, h⟩
  rw [List.append_cons, Token.brackets_append] at hall
  exact hstuck hall.of_append

/-- And tokens none of which breaks the brackets in front of it are taken up. -/
theorem exists_run_of_noneBreaks (h : Token.NoneBreaks ts) : ∃ n, start.run ts = .ok n := by
  rcases hrun : start.run ts with e | n
  · obtain ⟨before, c, after, n', rfl, hbefore, hc⟩ := run_error hrun
    refine absurd ⟨(step_error hc).1, fun hext => ?_⟩ (h before c after rfl)
    obtain ⟨m, hm⟩ := exists_run_iff.mpr hext
    rw [run_append, hbefore] at hm
    simp only [run, hc] at hm
    cases hm
  · exact ⟨n, rfl⟩

/-- **What a nesting holds open**: the last opener left open is the innermost
one, and nothing is when every opener is closed. -/
theorem run_opened (h : start.run ts = .ok n) :
    (n.opened = [] ∧ Token.AllClosed ts) ∨
      ∃ o before opened front back, n.opened = (o, before) :: opened ∧ ts = front ++ o :: back ∧
        Token.Unclosed o back ∧ Token.AllClosed back := by
  obtain ⟨hlist, htrees, -⟩ := run_sound start_sound h
  have hopen := run_opens (by simp [start]) h
  rw [List.nil_append, listing] at hlist
  rcases hopened : n.opened with - | ⟨⟨o, before⟩, opened⟩
  · refine .inl ⟨rfl, Token.allClosed_of_wellNested ?_⟩
    rw [← Token.brackets_content, ← hlist, hopened, openedListing, List.nil_append]
    exact htrees.wellNested
  · -- behind the innermost opener stand the tokens of whole trees, and ends of input
    rw [hopened, openedListing, List.append_assoc, List.append_assoc, List.singleton_append] at hlist
    rw [← List.append_assoc] at hlist
    obtain ⟨front, rest, rfl, -, hrest⟩ := List.filter_eq_append_iff.mp hlist.symm
    obtain ⟨ends, back, rfl, -, -, hback⟩ := List.filter_eq_cons_iff.mp hrest
    have hnested : WellNested (Token.brackets back) := by
      rw [← Token.brackets_content, Token.content, hback]
      exact htrees.wellNested
    refine .inr ⟨o, before, opened, front ++ ends, back, rfl, by simp, ⟨?_, hnested.not_closedIn⟩,
      Token.allClosed_of_wellNested hnested⟩
    exact hopen (o, before) (by simp [hopened])

theorem opened_eq_nil_iff (h : start.run ts = .ok n) : n.opened = [] ↔ Token.AllClosed ts := by
  rcases run_opened h with ⟨hnil, hall⟩ | ⟨o, before, opened, front, back, hopened, rfl, ho, -⟩
  · exact iff_of_true hnil hall
  · exact iff_of_false (by simp [hopened]) fun hall => hall front o back rfl ho

/-- **The closer that is refused** is the one to blame. -/
theorem blames_of_step {before after : List Token} {c : Token} (hts : ts = before ++ c :: after)
    (hrun : start.run before = .ok n) (hstep : n.step c = .error e) : Token.Blames ts e := by
  obtain ⟨hcloses, rfl⟩ := step_error hstep
  have hstuck : ¬ Extendable (Token.brackets (before ++ [c])) := by
    intro hext
    obtain ⟨m, hm⟩ := exists_run_iff.mpr hext
    rw [run_append, hrun] at hm
    simp only [run, hstep] at hm
    cases hm
  have hfirst := noneBreaks_of_run hrun
  by_cases hnil : n.opened = []
  · rw [if_pos hnil]
    exact .noOpener hts ⟨hcloses, hstuck⟩ hfirst ((opened_eq_nil_iff hrun).mp hnil)
  · rw [if_neg hnil]
    exact .wrongCloser hts ⟨hcloses, hstuck⟩ hfirst (mt (opened_eq_nil_iff hrun).mpr hnil)

/-- And a closer that breaks what stands in front of it is refused. -/
theorem run_of_breaks {before : List Token} {c : Token} (hbreaks : Token.Breaks before c)
    (hfirst : Token.NoneBreaks before) (after : List Token) :
    ∃ n, start.run before = .ok n ∧ start.run (before ++ c :: after) =
      .error (.ofToken c (if n.opened = [] then .noOpener else .wrongCloser)) := by
  obtain ⟨n, hrun⟩ := exists_run_of_noneBreaks hfirst
  refine ⟨n, hrun, ?_⟩
  rw [run_append, hrun]
  rcases hstep : n.step c with e | n'
  · simp only [run, hstep, (step_error hstep).2]
  · refine absurd (exists_run_iff.mp ⟨n', ?_⟩) hbreaks.stuck
    rw [run_append, hrun]
    simp only [run, hstep]

end Nesting

/-- **The bracket that is blamed.** Tokens make no tree just when some bracket
is to blame, and the error has its text, its place and the reason. -/
theorem ofTokens_eq_error_iff : ofTokens ts = .error e ↔ Token.Blames ts e := by
  constructor
  · intro h
    rw [ofTokens] at h
    rcases hrun : Nesting.start.run ts with e' | n
    · rw [hrun] at h
      obtain rfl : e' = e := Except.error.inj h
      obtain ⟨before, c, after, n, hts, hbefore, hc⟩ := Nesting.run_error hrun
      exact Nesting.blames_of_step hts hbefore hc
    · rw [hrun] at h
      rcases Nesting.run_opened hrun with
        ⟨hnil, -⟩ | ⟨o, before, opened, front, back, hopened, hts, ho, hlast⟩
      · simp only [Nesting.finish, hnil] at h
        cases h
      · simp only [Nesting.finish, hopened] at h
        obtain rfl := Except.error.inj h
        exact .neverClosed hts (Nesting.noneBreaks_of_run hrun) ho hlast
  · intro h
    rw [ofTokens]
    cases h with
    | @noOpener before c after hts hbreaks hfirst hclosed =>
      obtain ⟨n, hrun, hall⟩ := Nesting.run_of_breaks hbreaks hfirst after
      rw [hts, hall, if_pos ((Nesting.opened_eq_nil_iff hrun).mpr hclosed)]
      rfl
    | @wrongCloser before c after hts hbreaks hfirst hopened =>
      obtain ⟨n, hrun, hall⟩ := Nesting.run_of_breaks hbreaks hfirst after
      rw [hts, hall, if_neg (mt (Nesting.opened_eq_nil_iff hrun).mp hopened)]
      rfl
    | @neverClosed front o back hts hnone ho hlast =>
      obtain ⟨n, hrun⟩ := Nesting.exists_run_of_noneBreaks hnone
      rcases Nesting.run_opened hrun with
        ⟨-, hall⟩ | ⟨o', before, opened, front', back', hopened, hts', ho', hlast'⟩
      · exact absurd ho (hall front o back hts)
      · obtain rfl := Token.eq_of_last (hts.symm.trans hts') ho hlast ho' hlast'
        simp only [hrun, Nesting.finish, hopened]
        rfl

/-- A closer in front of which the inner one of two openers is left open, and
without it that opener. -/
example :
    let opened : List Token := [⟨.symbol .leftBrace, ['{'], ⟨1, 1⟩⟩,
      ⟨.symbol .leftParen, ['('], ⟨1, 2⟩⟩, ⟨.identifier, ['a'], ⟨1, 3⟩⟩]
    ofTokens (opened ++ [⟨.symbol .rightBrace, ['}'], ⟨1, 4⟩⟩]) =
        .error ⟨['}'], ⟨1, 4⟩, "does not close the innermost group"⟩ ∧
      ofTokens opened = .error ⟨['('], ⟨1, 2⟩, "never closed"⟩ := ⟨rfl, rfl⟩

end TokenTree

end StraightLine
