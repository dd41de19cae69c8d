import StraightLine.Proofs.Grammar.Acceptance

/-!
# Repetition — two ways to read all statements of a text

A program can be read by a loop over its statements, which reports the first
one that fails, or by `zeroOrMore`, which takes what it can and leaves the end
of input to look at the rest. The loop goes round for as long as something
other than blanks is left, and asks for no progress; `Rounds` is that loop
without a bound on its rounds.

It ends all the same, since a statement takes something
(`length_lt_of_stmt`): the loop with a bound is a run of it
(`rounds_statements`), and there is no other (`Rounds.eq`). The repetition
stops just where the loop does, in front of blanks and the end of input or of
a statement that fails (`iterate_stmt_cases`).
-/

namespace StraightLine

namespace Parser

/-- Behind blanks the end of input is found, and nothing is left. -/
theorem skipBlanks_endOfInput_eq_ok {t rest : Text} {u : Unit} :
    skipBlanks endOfInput t = .ok (u, rest) ↔ t.trimStart = [] ∧ rest = [] := by
  rw [skipBlanks_eq]
  rcases t.trimStart with - | ⟨c, v⟩
  · simp [endOfInput, eq_comm]
  · simp [endOfInput]

end Parser

namespace Grammar

open StraightLine.Parser

variable {s t rest : Text} {source : Text} {st : Stmt} {r r' : Except ParseError (List Stmt)}

/-! ## The loop -/

/-- **A statement takes something**: what it leaves is shorter. -/
theorem length_lt_of_stmt (h : stmt t = .ok (st, rest)) : rest.length < t.length := by
  obtain ⟨s, rfl, hd, -⟩ := reads_stmt.sound h
  have hpos : 0 < s.length := List.length_pos_iff.mpr (stmt_ne_nil hd)
  rw [List.length_append]
  omega

/-- What the loop answers when a statement fails in front of a text. -/
def refusal (source t : Text) (cause : ParseError) : ParseError :=
  .invalidStatement (source.placeOfRest t.trimStart) (ParseError.quote t.trimStart) cause

/-- **The loop over the statements**, from a text to its result. A derivation
is a run of the loop that ends. -/
inductive Rounds (source : Text) : Text → Except ParseError (List Stmt) → Prop
  /-- Nothing but blanks is left. -/
  | done {t : Text} (hend : t.trimStart = []) : Rounds source t (.ok [])
  /-- A statement fails. -/
  | refused {t : Text} {cause : ParseError} (hopen : t.trimStart ≠ [])
      (hfail : stmt t = .error cause) : Rounds source t (.error (refusal source t cause))
  /-- A statement is read, and the loop goes on behind it. -/
  | round {t rest : Text} {st : Stmt} {r : Except ParseError (List Stmt)}
      (hopen : t.trimStart ≠ []) (hread : stmt t = .ok (st, rest)) (hrest : Rounds source rest r) :
      Rounds source t (r.map (st :: ·))

/-- One text has one run. -/
theorem Rounds.eq (h : Rounds source t r) (h' : Rounds source t r') : r = r' := by
  induction h generalizing r' with
  | done hend =>
    cases h' with
    | done _ => rfl
    | refused hopen _ => exact absurd hend hopen
    | round hopen _ _ => exact absurd hend hopen
  | refused hopen hfail =>
    cases h' with
    | done hend => exact absurd hend hopen
    | refused _ hfail' =>
      obtain rfl := Except.error.inj (hfail.symm.trans hfail')
      rfl
    | round _ hread _ => cases hfail.symm.trans hread
  | round hopen hread _ ih =>
    cases h' with
    | done hend => exact absurd hend hopen
    | refused _ hfail => cases hread.symm.trans hfail
    | round _ hread' hrest' =>
      obtain ⟨rfl, rfl⟩ := Prod.mk.inj (Except.ok.inj (hread.symm.trans hread'))
      rw [ih hrest']

/-- **The loop ends** within as many rounds as there are characters left. -/
theorem rounds_statements (source : Text) {k : Nat} (hk : t.length ≤ k) :
    Rounds source t (statements source k t) := by
  induction k generalizing t with
  | zero =>
    obtain rfl : t = [] := List.length_eq_zero_iff.mp (by omega)
    exact .done rfl
  | succ k ih =>
    rw [statements]
    split
    · rename_i hend
      exact .done hend
    · rename_i c upcoming hopen
      have hne : t.trimStart ≠ [] := by
        rw [hopen]
        exact List.cons_ne_nil c upcoming
      rcases hread : stmt t with cause | ⟨st, rest⟩
      · have hrefused : Rounds source t (.error (refusal source t cause)) := .refused hne hread
        rw [refusal, hopen] at hrefused
        exact hrefused
      · have hless : rest.length < t.length := length_lt_of_stmt hread
        have hround := Rounds.round hne hread (ih (t := rest) (by omega))
        rcases hrest : statements source k rest with e | sts
        · simp only [hrest] at hround ⊢
          exact hround
        · simp only [hrest] at hround ⊢
          exact hround

/-! ## Repetition -/

/-- **The repetition stops where the loop does**: it has read the statements
in front of blanks and the end of input, or in front of one that fails. -/
theorem iterate_stmt_cases (source t : Text) :
    ((iterate stmt t).2.trimStart = [] ∧ Rounds source t (.ok (iterate stmt t).1)) ∨
      ((iterate stmt t).2.trimStart ≠ [] ∧ ∃ cause,
        stmt (iterate stmt t).2 = .error cause ∧
          Rounds source t (.error (refusal source (iterate stmt t).2 cause))) := by
  induction hn : t.length using Nat.strong_induction_on generalizing t with
  | h n ih =>
    rw [iterate_eq]
    rcases hread : stmt t with cause | ⟨st, rest⟩
    · by_cases hend : t.trimStart = []
      · exact .inl ⟨hend, .done hend⟩
      · exact .inr ⟨hend, cause, hread, .refused hend hread⟩
    · have hless : rest.length < t.length := length_lt_of_stmt hread
      have hopen : t.trimStart ≠ [] := stmt_trimStart_ne_nil hread
      simp only [if_pos hless]
      rcases ih rest.length (by omega) rest rfl with ⟨hend, hrest⟩ | ⟨hend, cause, hfail, hrest⟩
      · exact .inl ⟨hend, .round hopen hread hrest⟩
      · exact .inr ⟨hend, cause, hfail, .round hopen hread hrest⟩

/-- The result of the loop is that of the program read. -/
theorem parseProgram_eq_of_rounds (h : Rounds s s r) : parseProgram s = r.map Program.mk := by
  obtain rfl := (rounds_statements s (le_refl s.length)).eq h
  rw [parseProgram]
  rcases statements s s.length s with e | sts
  · rfl
  · rfl

/-- **A repetition up to the end of input** reads what the loop reads. -/
theorem program_eq_ok_iff {p : Program} :
    program s = .ok (p, rest) ↔ parseProgram s = .ok p ∧ rest = [] := by
  have hprogram : program s = .ok (p, rest) ↔
      (⟨(iterate stmt s).1⟩ : Program) = p ∧ (iterate stmt s).2.trimStart = [] ∧ rest = [] := by
    rw [program, map_eq_ok]
    constructor
    · rintro ⟨⟨sts, u⟩, hpair, rfl⟩
      obtain ⟨v, hmany, hend⟩ := pair_eq_ok.mp hpair
      obtain ⟨rfl, rfl⟩ := Prod.mk.inj (Except.ok.inj hmany)
      exact ⟨rfl, skipBlanks_endOfInput_eq_ok.mp hend⟩
    · rintro ⟨rfl, hend⟩
      exact ⟨((iterate stmt s).1, ()), pair_eq_ok.mpr ⟨(iterate stmt s).2, rfl,
        skipBlanks_endOfInput_eq_ok.mpr hend⟩, rfl⟩
  rw [hprogram]
  rcases iterate_stmt_cases s s with ⟨hend, hrun⟩ | ⟨hopen, cause, -, hrun⟩
  · have hparse : parseProgram s = .ok ⟨(iterate stmt s).1⟩ := parseProgram_eq_of_rounds hrun
    rw [hparse, Except.ok.injEq]
    exact and_congr_right fun _ => and_iff_right hend
  · have hparse : parseProgram s = .error (refusal s (iterate stmt s).2 cause) :=
      parseProgram_eq_of_rounds hrun
    rw [hparse]
    constructor
    · rintro ⟨-, hend, -⟩
      exact absurd hend hopen
    · rintro ⟨⟨⟩, -⟩

/-- An expression leaves no blanks, so nothing is left of a whole one. -/
theorem parseExpr_eq_ok_iff_expr {e : Expr} : parseExpr s = .ok e ↔ expr s = .ok (e, []) := by
  rw [parseExpr]
  rcases hread : expr s with cause | ⟨e', rest⟩
  · simp
  · have htrim : rest.trimStart = rest := reads_expr.trimmed hread
    simp only [htrim]
    rcases rest with - | ⟨c, rest⟩
    · simp
    · simp

/-- **Both ways agree.** A text is a program for the repetition just when it
is one for the loop, with the same statements and nothing left; a whole
expression is one that leaves nothing. The loop, which asks for no progress,
ends on every text with one result, since every statement leaves less than it
was given. -/
theorem readers_agree (s : Text) :
    (∀ p rest, program s = .ok (p, rest) ↔ parseProgram s = .ok p ∧ rest = []) ∧
    (∀ e, parseExpr s = .ok e ↔ expr s = .ok (e, [])) ∧
    (∀ st rest, stmt s = .ok (st, rest) → rest.length < s.length) ∧
    ∃ r, Rounds s s r ∧ (∀ r', Rounds s s r' → r' = r) ∧ parseProgram s = r.map Program.mk := by
  refine ⟨fun p rest => program_eq_ok_iff, fun e => parseExpr_eq_ok_iff_expr,
    fun st rest hread => length_lt_of_stmt hread, ?_⟩
  have hrun : Rounds s s (statements s s.length s) := rounds_statements s le_rfl
  exact ⟨_, hrun, fun r' hrun' => hrun'.eq hrun, parseProgram_eq_of_rounds hrun⟩

/-- A repetition that stops in front of a statement that fails, and a loop
that refuses it. -/
example : (program "a = 1; b".toList).isOk = false ∧
    (iterate stmt "a = 1; b".toList).2 = ['b'] := by decide +kernel

end Grammar

end StraightLine
