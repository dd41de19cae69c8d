import StraightLine.Proofs.Parser.Rests

/-!
# Greedy repetition — the one chain of rounds

`Chain p t steps last` is a chain of rounds of a parser: each takes something
from what the one before it has left, and `last` is left by the last of them.
`Spent p last` says that no round can follow. From every text there is one
chain up to a text on which the parser is spent (`exists_chain`,
`Chain.unique`), and the repetition gives its results.

`Loop` is the repetition as a loop that collects results and asks of a rest
only whether it has another size. Both repetitions run this loop, the one with
nothing collected and the other behind a first result, which is kept whatever
it took.
-/

namespace StraightLine

namespace Parser

variable {α : Type} {p : Parser α} {t u last last' : Text} {a : α} {as : List α}
variable {steps steps' : List (α × Text)} {r r' : List α × Text}

/-- **A chain of rounds**: the result of each and the shorter rest it leaves. -/
inductive Chain (p : Parser α) : Text → List (α × Text) → Text → Prop
  | done (t : Text) : Chain p t [] t
  | round {t u last : Text} {a : α} {steps : List (α × Text)} (hread : p t = .ok (a, u))
      (hless : u.byteSize < t.byteSize) (hmore : Chain p u steps last) :
      Chain p t ((a, u) :: steps) last

/-- **A parser is spent on a text** when it fails there or takes nothing. -/
def Spent (p : Parser α) (t : Text) : Prop := (∃ e, p t = .error e) ∨ ∃ a, p t = .ok (a, t)

/-- What is spent takes nothing more. -/
theorem Spent.byteSize_eq (h : Spent p t) (hread : p t = .ok (a, u)) :
    u.byteSize = t.byteSize := by
  rcases h with ⟨e, he⟩ | ⟨b, hb⟩
  · cases he.symm.trans hread
  · obtain ⟨-, rfl⟩ := Prod.mk.inj (Except.ok.inj (hb.symm.trans hread))
    rfl

/-! ## The chain -/

/-- **One text has one chain** up to where the parser is spent. -/
theorem Chain.unique (h : Chain p t steps last) (hspent : Spent p last)
    (h' : Chain p t steps' last') (hspent' : Spent p last') : steps' = steps ∧ last' = last := by
  induction h generalizing steps' with
  | done t =>
    cases h' with
    | done => exact ⟨rfl, rfl⟩
    | round hread hless _ => exact absurd (hspent.byteSize_eq hread) hless.ne
  | round hread hless _ ih =>
    cases h' with
    | done => exact absurd (hspent'.byteSize_eq hread) hless.ne
    | round hread' _ hmore' =>
      obtain ⟨rfl, rfl⟩ := Prod.mk.inj (Except.ok.inj (hread.symm.trans hread'))
      obtain ⟨rfl, rfl⟩ := ih hspent hmore'
      exact ⟨rfl, rfl⟩

/-- **The rounds of a repetition** are a chain that goes as far as it can. -/
theorem exists_chain (hp : LeavesSuffix p) (t : Text) :
    ∃ steps, Chain p t steps (iterate p t).2 ∧ Spent p (iterate p t).2 ∧
      (iterate p t).1 = steps.map Prod.fst := by
  induction hlength : t.length using Nat.strong_induction_on generalizing t with
  | h n ih =>
    rw [iterate_eq]
    rcases hread : p t with e | ⟨a, u⟩
    · exact ⟨[], .done t, .inl ⟨e, hread⟩, rfl⟩
    · have hsuffix := hp t a u hread
      have hsize := Text.length_lt_iff_of_suffix hsuffix
      by_cases hless : u.length < t.length
      · obtain ⟨steps, hchain, hspent, hresults⟩ := ih u.length (hlength ▸ hless) u rfl
        simp only [if_pos hless]
        have hround := (Text.byteSize_lt_iff_of_suffix hsuffix).mpr (hsize.mp hless)
        exact ⟨(a, u) :: steps, .round hread hround hchain, hspent, by
          rw [List.map_cons, hresults]⟩
      · -- a rest that is no shorter is the text itself
        have hsame : u.byteSize = t.byteSize := not_not.mp fun hne => hless (hsize.mpr hne)
        obtain rfl := (Text.byteSize_eq_iff_of_suffix hsuffix).mp hsame
        simp only [if_neg hless]
        exact ⟨[], .done u, .inr ⟨a, hread⟩, rfl⟩

/-! ## The loop -/

/-- **The loop of a repetition**, from the results collected and the text
ahead to the results and the rest. It is left when the parser fails or leaves
a rest of the size of the text. -/
inductive Loop (p : Parser α) : List α → Text → List α × Text → Prop
  | fails {as : List α} {t : Text} {e : ParseError} (h : p t = .error e) : Loop p as t (as, t)
  | stands {as : List α} {t u : Text} {a : α} (h : p t = .ok (a, u))
      (hsize : u.byteSize = t.byteSize) : Loop p as t (as, t)
  | round {as : List α} {t u : Text} {a : α} {r : List α × Text} (h : p t = .ok (a, u))
      (hsize : u.byteSize ≠ t.byteSize) (hmore : Loop p (as ++ [a]) u r) : Loop p as t r

/-- One loop has one result. -/
theorem Loop.unique (h : Loop p as t r) (h' : Loop p as t r') : r' = r := by
  induction h with
  | fails hfail =>
    cases h' with
    | fails _ => rfl
    | stands _ _ => rfl
    | round hread _ _ => cases hfail.symm.trans hread
  | stands hread hsize =>
    cases h' with
    | fails _ => rfl
    | stands _ _ => rfl
    | round hread' hsize' _ =>
      obtain ⟨rfl, rfl⟩ := Prod.mk.inj (Except.ok.inj (hread.symm.trans hread'))
      exact absurd hsize hsize'
  | round hread hsize _ ih =>
    cases h' with
    | fails hfail => cases hfail.symm.trans hread
    | stands hread' hsize' =>
      obtain ⟨rfl, rfl⟩ := Prod.mk.inj (Except.ok.inj (hread.symm.trans hread'))
      exact absurd hsize' hsize
    | round hread' _ hmore' =>
      obtain ⟨rfl, rfl⟩ := Prod.mk.inj (Except.ok.inj (hread.symm.trans hread'))
      exact ih hmore'

/-- **A chain is a run of the loop**, whatever has been collected before. -/
theorem Chain.loop (h : Chain p t steps last) (hspent : Spent p last) (as : List α) :
    Loop p as t (as ++ steps.map Prod.fst, last) := by
  induction h generalizing as with
  | done t =>
    rw [List.map_nil, List.append_nil]
    rcases hspent with ⟨e, hfail⟩ | ⟨a, hread⟩
    · exact .fails hfail
    · exact .stands hread rfl
  | @round t u last a steps hread hless _ ih =>
    have hmore := ih hspent (as ++ [a])
    rw [List.append_assoc, List.singleton_append] at hmore
    exact .round hread hless.ne hmore

/-- **The loop ends** on every text, and gives what the rounds give. -/
theorem loop_iff_iterate (hp : LeavesSuffix p) (as : List α) (t : Text) :
    Loop p as t r ↔ r = (as ++ (iterate p t).1, (iterate p t).2) := by
  obtain ⟨steps, hchain, hspent, hresults⟩ := exists_chain hp t
  have hrun := hchain.loop hspent as
  rw [← hresults] at hrun
  constructor
  · exact hrun.unique
  · rintro rfl
    exact hrun

/-- **Repetition is greedy.** It never fails, and gives the results and the
rest of the one chain of rounds that goes as far as it can. A repetition that
needs a first result fails just where the parser does, and with its error;
otherwise it is the parser followed by a repetition, and the first result is
kept whatever it took. Both are runs of one loop. -/
theorem repetition_greedy (hp : LeavesSuffix p) (t : Text) :
    (∃ steps last, Chain p t steps last ∧ Spent p last ∧
      zeroOrMore p t = .ok (steps.map Prod.fst, last) ∧
      ∀ steps' last', Chain p t steps' last' → Spent p last' → steps' = steps ∧ last' = last) ∧
    (∀ e, oneOrMore p t = .error e ↔ p t = .error e) ∧
    oneOrMore p t = map (fun r => r.1 :: r.2) (pair p (zeroOrMore p)) t ∧
    (∀ a u, p t = .ok (a, u) → ∃ steps last, Chain p u steps last ∧ Spent p last ∧
      oneOrMore p t = .ok (a :: steps.map Prod.fst, last)) ∧
    (∀ r, Loop p [] t r ↔ zeroOrMore p t = .ok r) ∧
    ∀ a u, p t = .ok (a, u) → ∀ r, Loop p [a] u r ↔ oneOrMore p t = .ok r := by
  have hfirst : ∀ a u, p t = .ok (a, u) →
      oneOrMore p t = .ok (a :: (iterate p u).1, (iterate p u).2) := by
    intro a u hread
    simp only [oneOrMore, hread]
  refine ⟨?_, ?_, ?_, ?_, ?_, ?_⟩
  · obtain ⟨steps, hchain, hspent, hresults⟩ := exists_chain hp t
    refine ⟨steps, _, hchain, hspent, ?_, fun steps' last' h' hspent' =>
      hchain.unique hspent h' hspent'⟩
    rw [← hresults]
    rfl
  · intro e
    rcases hread : p t with e' | ⟨a, u⟩
    · have hfail : oneOrMore p t = .error e' := by simp only [oneOrMore, hread]
      rw [hfail, Except.error.injEq, Except.error.injEq]
    · rw [hfirst a u hread]
      constructor
      · intro h
        cases h
      · intro h
        cases h
  · rcases hread : p t with e | ⟨a, u⟩
    · simp only [oneOrMore, map, pair, hread]
    · simp only [hfirst a u hread, map, pair, hread, zeroOrMore]
  · intro a u hread
    obtain ⟨steps, hchain, hspent, hresults⟩ := exists_chain hp u
    exact ⟨steps, _, hchain, hspent, by rw [hfirst a u hread, hresults]⟩
  · intro r
    rw [loop_iff_iterate hp, zeroOrMore, Except.ok.injEq, List.nil_append, eq_comm]
  · intro a u hread r
    rw [loop_iff_iterate hp, hfirst a u hread, Except.ok.injEq, List.singleton_append, eq_comm]

/-- A pattern that can match nothing: its empty match ends a repetition, and is
kept as a first result. -/
theorem repetition_greedy_empty_match :
    (∃ steps, Chain (pattern (.ofText "a*".toList) []) "aab".toList steps ['b'] ∧
      Spent (pattern (.ofText "a*".toList) []) ['b'] ∧
      steps.map Prod.fst = [⟨"aa".toList, []⟩]) ∧
    oneOrMore (pattern (.ofText "a*".toList) []) ['b'] = .ok ([⟨[], []⟩], ['b']) := by
  have hp : LeavesSuffix (pattern (.ofText "a*".toList) []) := (keeps_pattern _ _).leavesSuffix
  obtain ⟨steps, last, hchain, hspent, hmany, -⟩ := (repetition_greedy hp "aab".toList).1
  obtain ⟨-, -, hsame, -⟩ := repetition_greedy hp ['b']
  refine ⟨?_, hsame.trans (by decide +kernel)⟩
  have hread : zeroOrMore (pattern (.ofText "a*".toList) []) "aab".toList =
      .ok ([⟨"aa".toList, []⟩], ['b']) := by decide +kernel
  obtain ⟨hresults, rfl⟩ := Prod.mk.inj (Except.ok.inj (hmany.symm.trans hread))
  exact ⟨steps, hchain, hspent, hresults⟩

end Parser

end StraightLine
