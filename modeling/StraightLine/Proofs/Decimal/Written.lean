import StraightLine.Proofs.Lexeme.Shape
import StraightLine.StackCode.Basic

/-!
# Written numbers — the characters of literals in code

An integer is written as an integer lexeme that writes it
(`integerLexeme_ofInt`). A double is written with digits, a point, signs and
letters, in every layout (`plainChars_floatText`), so that no number has a blank
or a line feed in it.
-/

namespace StraightLine

namespace Text

variable {l t : Text}

/-! ## Integers -/

theorem allDigits_toDigits (n : Nat) : AllDigits (Nat.toDigits 10 n) := fun _ hc =>
  Nat.isDigit_of_mem_toDigits (by decide) (by decide) hc

theorem digits_ofNat (n : Nat) : Digits (ofNat n) :=
  ⟨Nat.toDigits_ne_nil, allDigits_toDigits n⟩

/-- The digits of a number write it. -/
theorem digitsValue_ofNat (n : Nat) : digitsValue (ofNat n) = n := by
  have h := Nat.ofDigitChars_ten_toDigits (n := n)
  rw [Nat.ofDigitChars_eq_foldl] at h
  exact h

/-- **An integer is written as an integer lexeme**, and as the one that writes
it. -/
theorem integerLexeme_ofInt (n : Int) : IntegerLexeme (ofInt n) n := by
  cases n with
  | ofNat n =>
    have h := IntegerLexeme.plain (digits_ofNat n)
    rwa [digitsValue_ofNat] at h
  | negSucc n =>
    have h := IntegerLexeme.minus (digits_ofNat (n + 1))
    rwa [digitsValue_ofNat] at h

/-! ## Doubles -/

theorem allDigits_zeros (n : Nat) : AllDigits (zeros n) := fun c hc => by
  rw [List.eq_of_mem_replicate hc]
  decide

end Text

open Text

theorem Interval.allDigits_digitsOf (p : Nat) (grid : Int) :
    AllDigits (digitsOf p grid).digits := by
  intro c hc
  have hmem := (List.dropWhile_suffix _).subset (List.mem_reverse.mp hc)
  exact allDigits_toDigits p c (List.mem_reverse.mp hmem)

/-- The shortest digits of an interval are those of a point of some grid. -/
theorem Interval.shortest_eq_digitsOf (i : Interval) (tie : Tie) :
    ∃ p grid, i.shortest tie = digitsOf p grid := by
  unfold Interval.shortest
  dsimp only
  -- without a point of a coarser grid the value is cut off at the finest
  rcases hfound : (List.range 17).findSome? _ with - | d
  · exact ⟨_, _, rfl⟩
  · obtain ⟨n, -, hn⟩ := List.exists_of_findSome?_eq_some hfound
    obtain ⟨p, -, rfl⟩ := Option.map_eq_some_iff.mp hn
    exact ⟨p, _, rfl⟩

theorem Double.allDigits_shortest (tie : Tie) (rank : Nat) :
    AllDigits (Double.shortest tie rank).digits := by
  unfold Double.shortest
  split
  · decide
  · obtain ⟨p, grid, h⟩ := (Interval.ofRank rank).shortest_eq_digitsOf tie
    rw [h]
    exact Interval.allDigits_digitsOf p grid

namespace Layout

variable {ds : Text}

theorem plainChars_positional (h : AllDigits ds) (e : Int) : PlainChars (positional ds e) := by
  unfold positional
  split
  · exact .cons (by decide) (.cons (by decide) ((allDigits_zeros _).plainChars.append h.plainChars))
  · dsimp only
    split
    · exact (h.plainChars.append (allDigits_zeros _).plainChars).append (by decide)
    · refine .append (fun c hc => h.plainChars c (List.mem_of_mem_take hc)) (.cons (by decide) ?_)
      exact fun c hc => h.plainChars c (List.mem_of_mem_drop hc)

theorem plainChars_scientific (l : Layout) (h : AllDigits ds) (e : Int) :
    PlainChars (l.scientific ds e) := by
  unfold scientific
  dsimp only
  have htake : PlainChars (ds.take 1) := fun c hc => h.plainChars c (List.mem_of_mem_take hc)
  have hdrop : PlainChars (ds.drop 1) := fun c hc => h.plainChars c (List.mem_of_mem_drop hc)
  have hpower : PlainChars (Nat.toDigits 10 (e - 1).natAbs) := (allDigits_toDigits _).plainChars
  refine .append (htake.append ?_) (.cons (by decide) (.append ?_ hpower))
  · split
    · exact plainChars_nil
    · exact .cons (by decide) hdrop
  · split
    · decide
    · split
      · decide
      · decide

theorem plainChars_finite (l : Layout) (negative : Bool) (rank : Nat) :
    PlainChars (l.finite negative rank) := by
  have hd := Double.allDigits_shortest l.tie rank
  have hm : PlainChars (l.magnitude rank) := by
    unfold magnitude
    dsimp only
    split
    · exact plainChars_positional hd _
    · exact plainChars_scientific l hd _
  unfold finite
  split
  · exact .cons (by decide) hm
  · exact hm

end Layout

/-- **A double in code has neither blanks nor line feeds.** -/
theorem Instruction.plainChars_floatText (x : Double) : PlainChars (floatText x) := by
  cases x with
  | finite negative rank => exact Layout.plainChars_finite _ _ _
  | infinite negative =>
    cases negative
    · decide
    · decide
  | notANumber => decide

end StraightLine
