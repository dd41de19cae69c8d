import Mathlib.Data.List.Induction
import Mathlib.Data.Nat.Digits.Defs
import StraightLine.Proofs.Decimal.Written
import StraightLine.Proofs.Lexeme.Maximal
import StraightLine.Proofs.Parser.Reads

/-!
# Numerals — integers read exactly, or refused

`Text.Numeral l n` describes integers as they are written, with the number that
the digits stand for by their places. The integer parser takes the longest
numeral that a text starts with and gives its number where sixty-four bits
hold it, and refuses the whole numeral where they do not: there is no length
and no number of leading zeros from which on it is wrong (`integer_exact`).

The integers of code are numerals without leading zeros, so each of them is
read back from the line that pushes it.
-/

namespace StraightLine

namespace Text

variable {l r ds t : Text} {n : Int}

/-- **The number that digits stand for**, the last of them counting least. -/
def placeValue (ds : Text) : Nat := Nat.ofDigits 10 (ds.reverse.map fun c => c.toNat - '0'.toNat)

/-- Reading digits from left to right comes to the same. -/
theorem digitsValue_eq_placeValue (ds : Text) : digitsValue ds = placeValue ds := by
  induction ds using List.reverseRecOn with
  | nil => rfl
  | append_singleton ds c ih =>
    have hread : digitsValue (ds ++ [c]) = 10 * digitsValue ds + (c.toNat - '0'.toNat) := by
      simp only [digitsValue, List.foldl_append, List.foldl_cons, List.foldl_nil]
    rw [hread, ih, placeValue, placeValue, List.reverse_append, List.reverse_singleton,
      List.singleton_append, List.map_cons, Nat.ofDigits_cons, Nat.add_comm]

/-- **Numerals**: an optional minus and one digit or more, leading zeros
included, with the number they stand for. -/
inductive Numeral : Text → Int → Prop
  | plain {ds : Text} (h : Digits ds) : Numeral ds (placeValue ds)
  | minus {ds : Text} (h : Digits ds) : Numeral ('-' :: ds) (-(placeValue ds : Int))

theorem numeral_iff : Numeral l n ↔ IntegerLexeme l n := by
  constructor
  · rintro (hds | hds)
    · rw [← digitsValue_eq_placeValue]
      exact .plain hds
    · rw [← digitsValue_eq_placeValue]
      exact .minus hds
  · rintro (hds | hds)
    · rw [digitsValue_eq_placeValue]
      exact .plain hds
    · rw [digitsValue_eq_placeValue]
      exact .minus hds

/-- What is read as an integer is the longest numeral ahead. -/
theorem integerLexeme?_eq_some_iff :
    integerLexeme? t = some (l, r) ↔ t = l ++ r ∧ IsLongest (fun l => ∃ n, Numeral l n) t l := by
  simp only [numeral_iff]
  exact LexemeClass.lexeme?_eq_some_iff (k := .decimalInteger)

theorem integerLexeme?_eq_none_iff :
    integerLexeme? t = none ↔ ∀ l n, Numeral l n → ¬ l <+: t := by
  simp only [numeral_iff]
  refine (LexemeClass.lexeme?_eq_none_iff (k := .decimalInteger)).trans ?_
  exact ⟨fun h l n hl => h l ⟨n, hl⟩, fun h l hl => hl.elim (h l)⟩

end Text

namespace Parser

open StraightLine.Text

variable {t l rest : Text} {n : Int}

theorem integer_of_none (h : integerLexeme? t = none) :
    integer t = .error (.rejected "Expected an integer".toList) := by
  simp only [integer, andThen, lexeme, h]

/-- The number of the numeral ahead, where sixty-four bits hold it. -/
theorem integer_of_some (h : integerLexeme? t = some (l, rest)) (hl : Numeral l n) :
    integer t =
      if -2 ^ 63 ≤ n ∧ n ≤ 2 ^ 63 - 1 then .ok (.int n, rest) else .error (.invalidInteger l) := by
  have hword : isWord n = true ↔ -2 ^ 63 ≤ n ∧ n ≤ 2 ^ 63 - 1 := by
    simp only [isWord, Bool.and_eq_true, decide_eq_true_eq]
    omega
  simp only [integer, andThen, lexeme, h, wordOf?_of_integerLexeme (numeral_iff.mp hl), hword]
  by_cases hn : -2 ^ 63 ≤ n ∧ n ≤ 2 ^ 63 - 1
  · rw [if_pos hn, if_pos hn]
  · rw [if_neg hn, if_neg hn]

/-- The line of code that pushes an integer. -/
theorem text_code_int (v : Int) :
    (Expr.int v).code.text = "push.i64 ".toList ++ ofInt v ++ ['\n'] := by
  have hcode : (Expr.int v).code = [.pushInt v] := rfl
  have hline : (Instruction.pushInt v).text = "push.i64 ".toList ++ ofInt v := rfl
  rw [hcode, StackCode.text, List.flatMap_singleton, hline]

/-- **Integers are exact.** A text that starts with no numeral is refused in
words. The longest numeral of any other text is read as the number it stands
for, with what follows it for the rest, if this is an integer of sixty-four
bits, and is refused as a whole if not. Every such integer is read back from
the line of code that pushes it. -/
theorem integer_exact :
    (∀ t, (integer t = .error (.rejected "Expected an integer".toList) ∧
        ∀ l n, Numeral l n → ¬ l <+: t) ∨
      ∃ l n rest, t = l ++ rest ∧ Numeral l n ∧ IsLongest (fun l => ∃ n, Numeral l n) t l ∧
        integer t =
          if -2 ^ 63 ≤ n ∧ n ≤ 2 ^ 63 - 1 then .ok (.int n, rest)
          else .error (.invalidInteger l)) ∧
    ∀ v : Int, -2 ^ 63 ≤ v → v ≤ 2 ^ 63 - 1 → ∃ operand,
      (Expr.int v).code.text = "push.i64 ".toList ++ operand ++ ['\n'] ∧
        integer operand = .ok (.int v, []) := by
  constructor
  · intro t
    rcases hread : integerLexeme? t with - | ⟨l, rest⟩
    · exact .inl ⟨integer_of_none hread, integerLexeme?_eq_none_iff.mp hread⟩
    · obtain ⟨htext, hlongest⟩ := integerLexeme?_eq_some_iff.mp hread
      obtain ⟨n, hn⟩ := hlongest.holds
      exact .inr ⟨l, n, rest, htext, hn, hlongest, integer_of_some hread hn⟩
  · intro v hlow hhigh
    have hv := integerLexeme_ofInt v
    have hread : integerLexeme? (ofInt v) = some (ofInt v, []) := by
      have h := integerLexeme?_append hv breaks_nil
      rwa [List.append_nil] at h
    refine ⟨ofInt v, text_code_int v, ?_⟩
    rw [integer_of_some hread (numeral_iff.mpr hv), if_pos ⟨hlow, hhigh⟩]

/-- The least integer of sixty-four bits is read back. -/
theorem integer_exact_least :
    ((-2 ^ 63 : Int) ≤ -2 ^ 63 ∧ (-2 ^ 63 : Int) ≤ 2 ^ 63 - 1) ∧ ∃ operand,
      (Expr.int (-2 ^ 63)).code.text = "push.i64 ".toList ++ operand ++ ['\n'] ∧
        integer operand = .ok (.int (-2 ^ 63), []) :=
  ⟨by decide, integer_exact.2 (-2 ^ 63) (by decide) (by decide)⟩

/-- Its opposite is refused as a whole, and zeros in front make no difference. -/
example : integer "9223372036854775808;".toList =
      .error (.invalidInteger "9223372036854775808".toList) ∧
    integer "-0009223372036854775808;".toList = .ok (.int (-2 ^ 63), [';']) := by decide +kernel

end Parser

end StraightLine
