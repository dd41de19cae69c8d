import StraightLine.Proofs.Lexeme.Literal
import StraightLine.Proofs.Parser.Lossless

/-!
# Rests — what a parser leaves is the end of what it was given

`LeavesSuffix p` says that a text on which the parser succeeds ends with the
rest. Every combinator hands on the rest of one of its parts, or the text it
was given where a part fails, so all of them have the property when their
parts have it (`Scheme.leavesSuffix_parserUpTo`), whatever becomes of the
results on the way. A parser that loses nothing has it anyway.

Of two texts one of which ends with the other the sizes tell whether they are
the same (`Text.byteSize_eq_iff_of_suffix`), which is all that a repetition
asks of a rest.
-/

namespace StraightLine

namespace Text

variable {t rest : Text}

theorem byteSize_eq_zero_iff : t.byteSize = 0 ↔ t = [] := by
  cases t with
  | nil => simp [byteSize]
  | cons c t =>
    have hc := c.utf8Size_pos
    simp only [byteSize, reduceCtorEq, iff_false]
    omega

/-- **An end of a text is all of it** when it has the size of all of it. -/
theorem byteSize_eq_iff_of_suffix (h : rest <:+ t) : rest.byteSize = t.byteSize ↔ rest = t := by
  obtain ⟨taken, rfl⟩ := h
  constructor
  · intro hsize
    rw [byteSize_append] at hsize
    have hzero : byteSize taken = 0 := by omega
    rw [byteSize_eq_zero_iff.mp hzero, List.nil_append]
  · exact congrArg byteSize

/-- Otherwise it is shorter, in characters as in octets. -/
theorem length_lt_iff_of_suffix (h : rest <:+ t) :
    rest.length < t.length ↔ rest.byteSize ≠ t.byteSize := by
  rw [ne_eq, byteSize_eq_iff_of_suffix h]
  constructor
  · rintro hlt rfl
    exact lt_irrefl _ hlt
  · intro hne
    exact lt_of_le_of_ne h.length_le fun heq => hne (h.eq_of_length heq)

theorem byteSize_lt_iff_of_suffix (h : rest <:+ t) :
    rest.byteSize < t.byteSize ↔ rest.byteSize ≠ t.byteSize := by
  obtain ⟨taken, rfl⟩ := h
  rw [byteSize_append]
  omega

/-- **A cut of a text**, between two characters, into what is taken and the
rest. -/
structure Cut (t taken rest : Text) : Prop where
  eq_append : t = taken ++ rest
  /-- The rest is what stands behind the octets taken. -/
  between : t.fromByte? taken.byteSize = some rest
  /-- Sizes tell whether anything is taken. -/
  byteSize_eq_iff : rest.byteSize = t.byteSize ↔ taken = []
  length_lt_iff : rest.length < t.length ↔ taken ≠ []

/-- Every end of a text is the rest of a cut. -/
theorem exists_cut_iff : (∃ taken, Cut t taken rest) ↔ rest <:+ t := by
  constructor
  · rintro ⟨taken, h⟩
    exact ⟨taken, h.eq_append.symm⟩
  · intro h
    have hsize := byteSize_eq_iff_of_suffix h
    have hlength := length_lt_iff_of_suffix h
    obtain ⟨taken, rfl⟩ := h
    rw [List.self_eq_append_left] at hsize
    exact ⟨taken, rfl, fromByte?_append taken rest, hsize, by rw [hlength, ne_eq, hsize]⟩

end Text

namespace Parser

variable {α β γ : Type} {p : Parser α} {q : Parser β} {r : Parser γ} {ps : List (Parser α)}

/-- **A parser whose rests are ends of the texts it is given.** -/
def LeavesSuffix (p : Parser α) : Prop :=
  ∀ t a rest, p t = .ok (a, rest) → rest <:+ t

/-- What loses nothing takes a prefix. -/
theorem Keeps.leavesSuffix {f : α → Text} (hp : Keeps f p) : LeavesSuffix p := fun t a rest h =>
  ⟨f a, hp t a rest h⟩

/-! ## What takes characters -/

theorem leavesSuffix_lexeme {read : Text → Option (Text × Text)} (message : String)
    (h : ∀ t l rest, read t = some (l, rest) → t = l ++ rest) :
    LeavesSuffix (lexeme read message) := fun t l rest hread =>
  ⟨l, (h t l rest (lexeme_eq_ok.mp hread)).symm⟩

theorem leavesSuffix_blanks : LeavesSuffix blanks := by
  intro t _ rest h
  obtain ⟨-, rfl⟩ := Prod.mk.inj (Except.ok.inj h)
  exact List.dropWhile_suffix _

/-! ## One parser -/

theorem LeavesSuffix.map (hp : LeavesSuffix p) (f : α → β) : LeavesSuffix (map f p) := by
  intro t b rest h
  obtain ⟨a, ha, -⟩ := map_eq_ok.mp h
  exact hp t a rest ha

theorem LeavesSuffix.andThen (hp : LeavesSuffix p) (f : α → Except ParseError β) :
    LeavesSuffix (andThen p f) := by
  intro t b rest h
  obtain ⟨a, ha, -⟩ := andThen_eq_ok.mp h
  exact hp t a rest ha

theorem LeavesSuffix.test (hp : LeavesSuffix p) (holds : α → Bool) (message : Text) :
    LeavesSuffix (test p holds message) := fun t a rest h => hp t a rest (test_eq_ok.mp h).1

theorem LeavesSuffix.optional (hp : LeavesSuffix p) : LeavesSuffix (optional p) := by
  intro t o rest h
  rw [Parser.optional] at h
  split at h
  · rename_i a u ha
    obtain ⟨-, rfl⟩ := Prod.mk.inj (Except.ok.inj h)
    exact hp t a u ha
  · obtain ⟨-, rfl⟩ := Prod.mk.inj (Except.ok.inj h)
    exact List.suffix_rfl

theorem leavesSuffix_integer : LeavesSuffix integer :=
  (leavesSuffix_lexeme _ fun _ _ _ h => (Text.integerLexeme_of_integerLexeme? h).1).andThen _

theorem leavesSuffix_decimal : LeavesSuffix decimal :=
  (leavesSuffix_lexeme _ fun _ _ _ h => (Text.floatLexeme_of_floatLexeme? h).1).andThen _

/-! ## Sequences -/

theorem LeavesSuffix.pair (hp : LeavesSuffix p) (hq : LeavesSuffix q) :
    LeavesSuffix (pair p q) := by
  intro t a rest h
  obtain ⟨u, hfirst, hsecond⟩ := pair_eq_ok.mp h
  exact (hq u a.2 rest hsecond).trans (hp t a.1 u hfirst)

theorem LeavesSuffix.triple (hp : LeavesSuffix p) (hq : LeavesSuffix q) (hr : LeavesSuffix r) :
    LeavesSuffix (triple p q r) := hp.pair (hq.pair hr)

theorem LeavesSuffix.surroundedBy (hp : LeavesSuffix p) (hq : LeavesSuffix q) :
    LeavesSuffix (surroundedBy p q) := (hq.triple hp hq).map _

theorem LeavesSuffix.skipBlanks (hp : LeavesSuffix p) : LeavesSuffix (skipBlanks p) :=
  hp.surroundedBy leavesSuffix_blanks

theorem leavesSuffix_each (h : ∀ p ∈ ps, LeavesSuffix p) : LeavesSuffix (each ps) := by
  induction ps with
  | nil =>
    intro t as rest hread
    obtain ⟨-, rfl⟩ := Prod.mk.inj (Except.ok.inj hread)
    exact List.suffix_rfl
  | cons p ps ih =>
    obtain ⟨hp, hps⟩ := List.forall_mem_cons.mp h
    exact (hp.pair (ih hps)).map _

theorem leavesSuffix_sequence (h : ∀ p ∈ ps, LeavesSuffix p) : LeavesSuffix (sequence ps) := by
  cases ps with
  | nil =>
    intro t as rest hread
    cases hread
  | cons p ps => exact leavesSuffix_each h

/-! ## Choices -/

theorem leavesSuffix_firstOf (h : ∀ p ∈ ps, LeavesSuffix p) (e : ParseError) :
    LeavesSuffix (firstOf e ps) := by
  induction ps generalizing e with
  | nil =>
    intro t a rest hread
    cases hread
  | cons p ps ih =>
    obtain ⟨hp, hps⟩ := List.forall_mem_cons.mp h
    intro t a rest hread
    rcases firstOf_cons_eq_ok hread with hfirst | ⟨e', -, hlater⟩
    · exact hp t a rest hfirst
    · exact ih hps e' t a rest hlater

theorem LeavesSuffix.either {q : Parser α} (hp : LeavesSuffix p) (hq : LeavesSuffix q) :
    LeavesSuffix (either p q) := by
  intro t a rest h
  rw [Parser.either] at h
  split at h
  · rename_i r hfirst
    obtain rfl := Except.ok.inj h
    exact hp t a rest hfirst
  · exact hq t a rest h

/-! ## Repetition -/

theorem LeavesSuffix.rounds (hp : LeavesSuffix p) (n : Nat) (t : Text) :
    (rounds p n t).2 <:+ t := by
  induction n generalizing t with
  | zero => exact List.suffix_rfl
  | succ n ih =>
    rw [Parser.rounds]
    split
    · exact List.suffix_rfl
    · rename_i a rest ha
      split
      · exact (ih rest).trans (hp t a rest ha)
      · exact List.suffix_rfl

theorem LeavesSuffix.iterate (hp : LeavesSuffix p) (t : Text) : (iterate p t).2 <:+ t :=
  hp.rounds t.length t

theorem LeavesSuffix.zeroOrMore (hp : LeavesSuffix p) : LeavesSuffix (zeroOrMore p) := by
  intro t as rest h
  have hall := hp.iterate t
  rwa [Except.ok.inj h] at hall

theorem LeavesSuffix.oneOrMore (hp : LeavesSuffix p) : LeavesSuffix (oneOrMore p) := by
  intro t as rest h
  rw [Parser.oneOrMore] at h
  split at h
  · cases h
  · rename_i a u ha
    obtain ⟨-, rfl⟩ := Prod.mk.inj (Except.ok.inj h)
    exact (hp.iterate u).trans (hp t a u ha)

end Parser

/-! ## Schemes -/

namespace Scheme

open StraightLine.Parser

variable {rules : Text → Parser Node}

mutual

/-- **A scheme leaves ends of texts** when the rules it names do. -/
theorem leavesSuffix_parserWith (hrules : ∀ name, LeavesSuffix (rules name)) :
    ∀ s : Scheme, LeavesSuffix (s.parserWith rules)
  | .noop => by
    rw [parserWith]
    exact keeps_noop.leavesSuffix.map _
  | .item => by
    rw [parserWith]
    exact keeps_item.leavesSuffix.map _
  | .integer => by
    rw [parserWith]
    exact leavesSuffix_integer.map _
  | .decimal => by
    rw [parserWith]
    exact leavesSuffix_decimal.map _
  | .endOfInput => by
    rw [parserWith]
    exact keeps_endOfInput.leavesSuffix.map _
  | .literal text => by
    rw [parserWith]
    exact (keeps_literal text).leavesSuffix.map _
  | .pattern p message => by
    rw [parserWith]
    exact (keeps_pattern p message).leavesSuffix.map _
  | .sequence parts => by
    rw [parserWith]
    exact (leavesSuffix_sequence (leavesSuffix_parsersWith hrules parts)).map _
  | .oneOf choices => by
    rw [parserWith]
    exact leavesSuffix_firstOf (leavesSuffix_parsersWith hrules choices) _
  | .pair p q => by
    rw [parserWith]
    exact ((leavesSuffix_parserWith hrules p).pair (leavesSuffix_parserWith hrules q)).map _
  | .triple p q r => by
    rw [parserWith]
    exact ((leavesSuffix_parserWith hrules p).triple (leavesSuffix_parserWith hrules q)
      (leavesSuffix_parserWith hrules r)).map _
  | .either p q => by
    rw [parserWith]
    exact (leavesSuffix_parserWith hrules p).either (leavesSuffix_parserWith hrules q)
  | .zeroOrMore p => by
    rw [parserWith]
    exact (leavesSuffix_parserWith hrules p).zeroOrMore.map _
  | .oneOrMore p => by
    rw [parserWith]
    exact (leavesSuffix_parserWith hrules p).oneOrMore.map _
  | .optional p => by
    rw [parserWith]
    exact (leavesSuffix_parserWith hrules p).optional.map _
  | .surroundedBy p q => by
    rw [parserWith]
    exact (leavesSuffix_parserWith hrules p).surroundedBy (leavesSuffix_parserWith hrules q)
  | .skipBlanks p => by
    rw [parserWith]
    exact (leavesSuffix_parserWith hrules p).skipBlanks
  | .test p holds message => by
    rw [parserWith]
    exact (leavesSuffix_parserWith hrules p).test holds message
  | .map p f => by
    rw [parserWith]
    exact (leavesSuffix_parserWith hrules p).map f
  | .andThen p f => by
    rw [parserWith]
    exact (leavesSuffix_parserWith hrules p).andThen f
  | .ref name => by
    rw [parserWith]
    exact hrules name

theorem leavesSuffix_parsersWith (hrules : ∀ name, LeavesSuffix (rules name)) :
    ∀ parts : List Scheme, ∀ p ∈ parsersWith rules parts, LeavesSuffix p
  | [] => by simp [parsersWith]
  | s :: parts => by
    rw [parsersWith]
    exact List.forall_mem_cons.mpr
      ⟨leavesSuffix_parserWith hrules s, leavesSuffix_parsersWith hrules parts⟩

end

/-- **Every scheme leaves ends of texts**, whatever its rules are and however
often they are followed. -/
theorem leavesSuffix_parserUpTo (rules : Text → Option Scheme) (n : Nat) (s : Scheme) :
    LeavesSuffix (parserUpTo rules n s) := by
  induction n generalizing s with
  | zero =>
    rw [parserUpTo]
    refine leavesSuffix_parserWith (fun name t a rest h => ?_) s
    cases h
  | succ n ih =>
    rw [parserUpTo]
    refine leavesSuffix_parserWith (fun name => ?_) s
    cases hname : rules name with
    | none =>
      intro t a rest h
      cases h
    | some rule => exact ih rule

end Scheme

end StraightLine
