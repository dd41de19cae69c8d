import StraightLine.Parser.Error
import StraightLine.Lexeme.Basic
import StraightLine.Pattern.Match
import StraightLine.Program.Basic

/-!
# Parsers — functions from a text to a result and the rest

A parser takes what it reads from the start of a text and leaves the rest.
Repetition goes on while the parser succeeds and takes something: a result
that took nothing ends it and is dropped.
-/

namespace StraightLine

/-- A function from a text to a result and the rest of the text. -/
abbrev Parser (α : Type) := Text → Except ParseError (α × Text)

namespace Parser

/-- Takes nothing. -/
def noop : Parser Unit := fun t => .ok ((), t)

/-- Takes one character. -/
def item : Parser Char
  | [] => .error .unexpectedEnd
  | c :: t => .ok (c, t)

/-- Takes a fixed text. A text with too few characters for it ends too early. -/
def literal (expected : Text) : Parser Text := fun t =>
  match Text.after? expected t with
  | some rest => .ok (expected, rest)
  | none =>
    if (t.take expected.length).length < expected.length then .error .unexpectedEnd
    else .error (.expectedLiteral expected)

/-- What a pattern matched: the text up to its end, and its groups. -/
structure Matched where
  value : Text
  groups : List Text
  deriving DecidableEq, Repr

/-- Takes everything up to the end of the match of a written pattern. -/
def pattern (p : WrittenPattern) (message : Text) : Parser Matched := fun t =>
  match p.automaton with
  | .error e => .error (.invalidPattern p.text e.message)
  | .ok a =>
    match a.find? t with
    | none => .error (.rejected message)
    | some m => .ok (⟨m.upToStop t, a.groupValues m t⟩, m.rest t)

/-- Takes nothing, at the end of the text only. -/
def endOfInput : Parser Unit := fun t =>
  match t with
  | [] => .ok ((), [])
  | c :: rest =>
    .error (.rejected
      ("Expected end of input, found '".toList ++ ParseError.quote (c :: rest) ++ ['\'']))

/-- Changes the result. -/
def map (f : α → β) (p : Parser α) : Parser β := fun t =>
  match p t with
  | .ok (a, rest) => .ok (f a, rest)
  | .error e => .error e

/-- Changes the result or refuses it. -/
def andThen (p : Parser α) (f : α → Except ParseError β) : Parser β := fun t =>
  match p t with
  | .ok (a, rest) =>
    match f a with
    | .ok b => .ok (b, rest)
    | .error e => .error e
  | .error e => .error e

/-- Refuses results that fail a test. -/
def test (p : Parser α) (holds : α → Bool) (message : Text) : Parser α := fun t =>
  match p t with
  | .ok (a, rest) => if holds a then .ok (a, rest) else .error (.rejected message)
  | .error e => .error e

/-- One parser and then another one. -/
def pair (p : Parser α) (q : Parser β) : Parser (α × β) := fun t =>
  match p t with
  | .error e => .error e
  | .ok (a, t) =>
    match q t with
    | .error e => .error e
    | .ok (b, rest) => .ok ((a, b), rest)

/-- Three parsers in order. -/
def triple (p : Parser α) (q : Parser β) (r : Parser γ) : Parser (α × β × γ) := pair p (pair q r)

/-- All of some parsers in order. -/
def each : List (Parser α) → Parser (List α)
  | [] => fun t => .ok ([], t)
  | p :: ps => map (fun r => r.1 :: r.2) (pair p (each ps))

/-- All of some parsers in order; of no parsers, a failure. -/
def sequence (ps : List (Parser α)) : Parser (List α) :=
  match ps with
  | [] => fun _ => .error .noParsers
  | p :: ps => each (p :: ps)

/-- The first that succeeds; after all have failed, `e` or the last failure. -/
def firstOf : (e : ParseError) → List (Parser α) → Parser α
  | e, [] => fun _ => .error e
  | _, p :: ps => fun t =>
    match p t with
    | .ok r => .ok r
    | .error e => firstOf e ps t

/-- The first that succeeds. -/
def oneOf (ps : List (Parser α)) : Parser α := firstOf .noParsers ps

/-- The first of two that succeeds. -/
def either (p q : Parser α) : Parser α := fun t =>
  match p t with
  | .ok r => .ok r
  | .error _ => q t

/-- A parser, or nothing where it fails. -/
def optional (p : Parser α) : Parser (Option α) := fun t =>
  match p t with
  | .ok (a, rest) => .ok (some a, rest)
  | .error _ => .ok (none, t)

/-- At most so many rounds of a parser, each of which has to take something. -/
def rounds (p : Parser α) : Nat → Text → List α × Text
  | 0, t => ([], t)
  | n + 1, t =>
    match p t with
    | .error _ => ([], t)
    | .ok (a, rest) =>
      if rest.length < t.length then
        let (as, rest) := rounds p n rest
        (a :: as, rest)
      else ([], t)

/-- Rounds of a parser while it succeeds and takes something. -/
def iterate (p : Parser α) (t : Text) : List α × Text := rounds p t.length t

/-- Any number of times. -/
def zeroOrMore (p : Parser α) : Parser (List α) := fun t => .ok (iterate p t)

/-- At least once; the first result is kept even if it took nothing. -/
def oneOrMore (p : Parser α) : Parser (List α) := fun t =>
  match p t with
  | .error e => .error e
  | .ok (a, rest) =>
    let (as, rest) := iterate p rest
    .ok (a :: as, rest)

/-- A parser between two uses of another one, whose results are dropped. -/
def surroundedBy (p : Parser α) (around : Parser β) : Parser α :=
  map (fun r => r.2.1) (triple around p around)

/-- Takes blanks. -/
def blanks : Parser Unit := fun t => .ok ((), t.dropWhile isBlank)

/-- A parser with blanks around it. -/
def skipBlanks (p : Parser α) : Parser α := surroundedBy p blanks

/-- A lexeme, or a failure in words. -/
def lexeme (read : Text → Option (Text × Text)) (message : String) : Parser Text := fun t =>
  match read t with
  | some r => .ok r
  | none => .error (.rejected message.toList)

/-- An integer of sixty-four bits. -/
def integer : Parser Expr :=
  andThen (lexeme Text.integerLexeme? "Expected an integer") fun l =>
    match Text.wordOf? l with
    | some n => .ok (.int n)
    | none => .error (.invalidInteger l)

/-- A float, rounded to the nearest double. -/
def decimal : Parser Expr :=
  andThen (lexeme Text.floatLexeme? "Expected a decimal") fun l =>
    match Double.ofText? l with
    | some x => .ok (.float x)
    | none => .error (.invalidFloat l)

/-- More rounds than characters change nothing. -/
theorem rounds_eq_iterate (p : Parser α) {n : Nat} {t : Text} (h : t.length ≤ n) :
    rounds p n t = iterate p t := by
  unfold iterate
  suffices ∀ m, ∀ (n : Nat) (t : Text), t.length ≤ m → m ≤ n → rounds p n t = rounds p m t by
    rw [this t.length n t (Nat.le_refl _) h]
  intro m
  induction m with
  | zero =>
    intro n t ht _
    have : t = [] := List.length_eq_zero_iff.mp (by omega)
    subst this
    cases n with
    | zero => rfl
    | succ n =>
      simp only [rounds]
      split <;> simp_all
  | succ m ih =>
    intro n t ht hn
    obtain ⟨n, rfl⟩ : ∃ k, n = k + 1 := ⟨n - 1, by omega⟩
    simp only [rounds]
    split
    · rfl
    · rename_i a rest _
      split
      · rw [ih n rest (by omega) (by omega)]
      · rfl

/-- **Repetition goes on exactly while something is taken.** -/
theorem iterate_eq (p : Parser α) (t : Text) :
    iterate p t =
      match p t with
      | .error _ => ([], t)
      | .ok (a, rest) =>
        if rest.length < t.length then (a :: (iterate p rest).1, (iterate p rest).2)
        else ([], t) := by
  rw [← rounds_eq_iterate p (Nat.le_succ t.length), rounds]
  split
  · rfl
  · rename_i a rest _
    split
    · rw [rounds_eq_iterate p (by omega)]
    · rfl

end Parser

end StraightLine
