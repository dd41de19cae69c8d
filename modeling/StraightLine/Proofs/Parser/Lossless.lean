import StraightLine.Parser.Scheme
import StraightLine.Proofs.Parser.Reads

/-!
# Losing nothing — the text of a result is the text it was read from

`Keeps text p` says of a parser that the text of what it gives back, followed
by the rest, is the text it was given. Each combinator keeps the property,
backtracking and repetition included: an alternative that fails leaves no
trace, and a result that took nothing has no text, so nothing is missing when
repetition drops it. What a pattern gives back is everything up to the end of
its match, so it does not matter where the match starts.

`Scheme.Lossless` names the schemes that are put together from these
combinators. Blanks that are skipped are lost, and so may be whatever a
function makes of a result; the one function admitted spells out the node it
is given. `keeps_parserWith` is the induction over such a scheme, and
`keeps_parserUpTo` the one over the references that are followed.
-/

namespace StraightLine

namespace Parser

variable {α β : Type} {p : Parser α} {q : Parser β} {ps : List (Parser α)}
variable {f : α → Text} {g : β → Text}

/-- **A parser that loses nothing**, as far as `text` reads a text off its
results. -/
def Keeps (text : α → Text) (p : Parser α) : Prop :=
  ∀ t a rest, p t = .ok (a, rest) → text a ++ rest = t

/-! ## What takes characters -/

theorem keeps_noop : Keeps (fun _ => []) noop := by
  intro t a rest h
  obtain ⟨-, rfl⟩ := Prod.mk.inj (Except.ok.inj h)
  rfl

theorem keeps_item : Keeps (fun c => [c]) item := by
  intro t a rest h
  cases t with
  | nil => cases h
  | cons c t =>
    obtain ⟨rfl, rfl⟩ := Prod.mk.inj (Except.ok.inj h)
    rfl

theorem keeps_literal (expected : Text) : Keeps id (literal expected) := by
  intro t a rest h
  rw [literal] at h
  split at h
  · rename_i u hafter
    obtain ⟨rfl, rfl⟩ := Prod.mk.inj (Except.ok.inj h)
    exact (Text.eq_append_of_after? hafter).symm
  · split at h
    · cases h
    · cases h

/-- Everything up to the end of a match is kept, wherever it starts. -/
theorem keeps_pattern (w : WrittenPattern) (message : Text) :
    Keeps Matched.value (pattern w message) := by
  intro t a rest h
  rw [pattern] at h
  split at h
  · cases h
  · split at h
    · cases h
    · rename_i m _
      obtain ⟨rfl, rfl⟩ := Prod.mk.inj (Except.ok.inj h)
      exact List.take_append_drop m.stop t

theorem keeps_endOfInput : Keeps (fun _ => []) endOfInput := by
  intro t a rest h
  cases t with
  | nil =>
    obtain ⟨-, rfl⟩ := Prod.mk.inj (Except.ok.inj h)
    rfl
  | cons c t => cases h

/-! ## One parser -/

/-- A result may be changed when its text is not. -/
theorem Keeps.map (hp : Keeps f p) {k : α → β} (hk : ∀ a, g (k a) = f a) :
    Keeps g (map k p) := by
  intro t b rest h
  obtain ⟨a, ha, rfl⟩ := map_eq_ok.mp h
  rw [hk]
  exact hp t a rest ha

theorem Keeps.test (hp : Keeps f p) (holds : α → Bool) (message : Text) :
    Keeps f (test p holds message) := fun t a rest h => hp t a rest (test_eq_ok.mp h).1

theorem Keeps.optional (hp : Keeps f p) : Keeps (fun o => o.elim [] f) (optional p) := by
  intro t o rest h
  rw [Parser.optional] at h
  split at h
  · rename_i a u ha
    obtain ⟨rfl, rfl⟩ := Prod.mk.inj (Except.ok.inj h)
    exact hp t a u ha
  · obtain ⟨rfl, rfl⟩ := Prod.mk.inj (Except.ok.inj h)
    rfl

/-! ## Sequences -/

theorem Keeps.pair (hp : Keeps f p) (hq : Keeps g q) :
    Keeps (fun r => f r.1 ++ g r.2) (pair p q) := by
  intro t r rest h
  obtain ⟨u, hfirst, hsecond⟩ := pair_eq_ok.mp h
  calc f r.1 ++ g r.2 ++ rest = f r.1 ++ (g r.2 ++ rest) := List.append_assoc _ _ _
    _ = f r.1 ++ u := by rw [hq u r.2 rest hsecond]
    _ = t := hp t r.1 u hfirst

theorem keeps_each (h : ∀ p ∈ ps, Keeps f p) : Keeps (fun as => as.flatMap f) (each ps) := by
  induction ps with
  | nil =>
    intro t as rest hread
    obtain ⟨rfl, rfl⟩ := Prod.mk.inj (Except.ok.inj hread)
    rfl
  | cons p ps ih =>
    obtain ⟨hp, hps⟩ := List.forall_mem_cons.mp h
    exact (hp.pair (ih hps)).map fun _ => List.flatMap_cons

theorem keeps_sequence (h : ∀ p ∈ ps, Keeps f p) :
    Keeps (fun as => as.flatMap f) (sequence ps) := by
  cases ps with
  | nil =>
    intro t as rest hread
    cases hread
  | cons p ps => exact keeps_each h

/-! ## Choices -/

/-- What fails first has taken nothing. -/
theorem keeps_firstOf (h : ∀ p ∈ ps, Keeps f p) (e : ParseError) : Keeps f (firstOf e ps) := by
  induction ps generalizing e with
  | nil =>
    intro t a rest hread
    cases hread
  | cons p ps ih =>
    obtain ⟨hp, hps⟩ := List.forall_mem_cons.mp h
    intro t a rest hread
    rcases firstOf_cons_eq_ok hread with hfirst | ⟨e', -, hlater⟩
    · exact hp t a rest hfirst
    · exact ih hps e' t a rest hlater

theorem Keeps.either {q : Parser α} (hp : Keeps f p) (hq : Keeps f q) : Keeps f (either p q) := by
  intro t a rest h
  rw [Parser.either] at h
  split at h
  · rename_i r hfirst
    obtain rfl := Except.ok.inj h
    exact hp t a rest hfirst
  · exact hq t a rest h

/-! ## Repetition -/

/-- **The rounds of a repetition** have the text in front of what they
leave. -/
theorem Keeps.rounds (hp : Keeps f p) (n : Nat) (t : Text) :
    (rounds p n t).1.flatMap f ++ (rounds p n t).2 = t := by
  induction n generalizing t with
  | zero => rfl
  | succ n ih =>
    rw [Parser.rounds]
    split
    · rfl
    · rename_i a rest ha
      split
      · rw [List.flatMap_cons, List.append_assoc, ih rest]
        exact hp t a rest ha
      · -- the round took nothing, and the text is left as it was before it
        rfl

theorem Keeps.iterate (hp : Keeps f p) (t : Text) :
    (iterate p t).1.flatMap f ++ (iterate p t).2 = t := hp.rounds t.length t

theorem Keeps.zeroOrMore (hp : Keeps f p) :
    Keeps (fun as => as.flatMap f) (zeroOrMore p) := by
  intro t as rest h
  have hall := hp.iterate t
  rwa [Except.ok.inj h] at hall

theorem Keeps.oneOrMore (hp : Keeps f p) : Keeps (fun as => as.flatMap f) (oneOrMore p) := by
  intro t as rest h
  rw [Parser.oneOrMore] at h
  split at h
  · cases h
  · rename_i a u ha
    have hmore := hp.iterate u
    obtain ⟨rfl, rfl⟩ := Prod.mk.inj (Except.ok.inj h)
    calc (a :: (Parser.iterate p u).1).flatMap f ++ (Parser.iterate p u).2
        = f a ++ ((Parser.iterate p u).1.flatMap f ++ (Parser.iterate p u).2) := by
          rw [List.flatMap_cons, List.append_assoc]
      _ = f a ++ u := by rw [hmore]
      _ = t := hp t a u ha

end Parser

/-! ## Schemes -/

theorem Node.textOf_eq_flatMap (nodes : List Node) : textOf nodes = nodes.flatMap text := by
  induction nodes with
  | nil => rw [textOf, List.flatMap_nil]
  | cons n ns ih => rw [textOf, List.flatMap_cons, ih]

namespace Scheme

open StraightLine.Parser

/-- **The schemes that lose nothing.** -/
inductive Lossless : Scheme → Prop
  | noop : Lossless .noop
  | item : Lossless .item
  | endOfInput : Lossless .endOfInput
  | literal (text : Text) : Lossless (.literal text)
  | pattern (p : WrittenPattern) (message : Text) : Lossless (.pattern p message)
  | sequence {parts : List Scheme} (h : ∀ p ∈ parts, Lossless p) : Lossless (.sequence parts)
  | oneOf {choices : List Scheme} (h : ∀ p ∈ choices, Lossless p) : Lossless (.oneOf choices)
  | pair {p q : Scheme} (hp : Lossless p) (hq : Lossless q) : Lossless (.pair p q)
  | triple {p q r : Scheme} (hp : Lossless p) (hq : Lossless q) (hr : Lossless r) :
      Lossless (.triple p q r)
  | either {p q : Scheme} (hp : Lossless p) (hq : Lossless q) : Lossless (.either p q)
  | zeroOrMore {p : Scheme} (hp : Lossless p) : Lossless (.zeroOrMore p)
  | oneOrMore {p : Scheme} (hp : Lossless p) : Lossless (.oneOrMore p)
  | optional {p : Scheme} (hp : Lossless p) : Lossless (.optional p)
  | test {p : Scheme} (hp : Lossless p) (holds : Node → Bool) (message : Text) :
      Lossless (.test p holds message)
  /-- A node may be spelt out. -/
  | spelt {p : Scheme} (hp : Lossless p) : Lossless (.map p fun n => .literal n.text)
  /-- A rule may be named, the one that is being made included. -/
  | ref (name : Text) : Lossless (.ref name)

variable {s : Scheme} {parts : List Scheme} {rules : Text → Parser Node}

/-- The parsers of some schemes have what each of them has. -/
theorem forall_mem_parsersWith {P : Parser Node → Prop}
    (h : ∀ s ∈ parts, P (s.parserWith rules)) : ∀ p ∈ parsersWith rules parts, P p := by
  induction parts with
  | nil => simp [parsersWith]
  | cons s parts ih =>
    obtain ⟨hs, hparts⟩ := List.forall_mem_cons.mp h
    rw [parsersWith]
    exact List.forall_mem_cons.mpr ⟨hs, ih hparts⟩

/-- **A scheme loses nothing** when the rules it names lose nothing. -/
theorem Lossless.keeps_parserWith (hs : s.Lossless) (hrules : ∀ name, Keeps Node.text (rules name)) :
    Keeps Node.text (s.parserWith rules) := by
  have htextOf : ∀ nodes : List Node, (Node.several nodes).text = nodes.flatMap Node.text := by
    intro nodes
    rw [Node.text, Node.textOf_eq_flatMap]
  induction hs with
  | noop =>
    rw [parserWith]
    exact keeps_noop.map fun _ => by rw [Node.text]
  | item =>
    rw [parserWith]
    exact keeps_item.map fun c => by rw [Node.text]
  | endOfInput =>
    rw [parserWith]
    exact keeps_endOfInput.map fun _ => by rw [Node.text]
  | literal text =>
    rw [parserWith]
    exact (keeps_literal text).map fun l => by rw [Node.text, id]
  | pattern p message =>
    rw [parserWith]
    exact (keeps_pattern p message).map fun m => by rw [Node.text]
  | sequence _ ih =>
    rw [parserWith]
    exact (keeps_sequence (forall_mem_parsersWith ih)).map htextOf
  | oneOf _ ih =>
    rw [parserWith]
    exact keeps_firstOf (forall_mem_parsersWith ih) _
  | pair _ _ ihp ihq =>
    rw [parserWith]
    exact (ihp.pair ihq).map fun r => by rw [Node.text]
  | triple _ _ _ ihp ihq ihr =>
    rw [parserWith]
    exact (ihp.pair (ihq.pair ihr)).map fun r => by rw [Node.text]
  | either _ _ ihp ihq =>
    rw [parserWith]
    exact ihp.either ihq
  | zeroOrMore _ ih =>
    rw [parserWith]
    exact ih.zeroOrMore.map htextOf
  | oneOrMore _ ih =>
    rw [parserWith]
    exact ih.oneOrMore.map htextOf
  | optional _ ih =>
    rw [parserWith]
    refine ih.optional.map fun o => ?_
    cases o with
    | none => rw [Option.elim_none, Node.text]
    | some n => rw [Option.elim_some, Node.text]
  | test _ holds message ih =>
    rw [parserWith]
    exact ih.test holds message
  | spelt _ ih =>
    rw [parserWith]
    exact ih.map fun n => by rw [Node.text]
  | ref name =>
    rw [parserWith]
    exact hrules name

/-- **So do rules that name each other**, however often they are followed. -/
theorem keeps_parserUpTo {rules : Text → Option Scheme}
    (hrules : ∀ name rule, rules name = some rule → rule.Lossless) (n : Nat) (hs : s.Lossless) :
    Keeps Node.text (parserUpTo rules n s) := by
  induction n generalizing s with
  | zero =>
    rw [parserUpTo]
    refine hs.keeps_parserWith fun name t a rest h => ?_
    cases h
  | succ n ih =>
    rw [parserUpTo]
    refine hs.keeps_parserWith fun name => ?_
    cases hname : rules name with
    | none =>
      intro t a rest h
      cases h
    | some rule => exact ih (hrules name rule hname)

/-- **Parsing loses nothing.** Whatever a scheme that loses nothing gives back
under rules that lose nothing, its text and the rest are the text that was
read, however often references are followed. -/
theorem parse_lossless {rules : Text → Option Scheme} {s : Scheme}
    (hrules : ∀ name rule, rules name = some rule → rule.Lossless) (hs : s.Lossless) :
    (∀ n t node rest, parserUpTo rules n s t = .ok (node, rest) → node.text ++ rest = t) ∧
    ∀ named : List (Text × Scheme), (∀ name, named.lookup name = rules name) →
      ∀ t node rest, s.parse named t = .ok (node, rest) → node.text ++ rest = t := by
  refine ⟨fun n => keeps_parserUpTo hrules n hs, ?_⟩
  intro named hnamed t node rest h
  have hlookup : ∀ name rule, named.lookup name = some rule → rule.Lossless := by
    intro name rule hname
    exact hrules name rule ((hnamed name).symm.trans hname)
  exact keeps_parserUpTo hlookup _ hs t node rest h

/-- Brackets inside one another, with the match of a pattern or nothing in the
middle. -/
def brackets : Scheme :=
  .oneOf [.triple (.literal ['(']) (.ref "brackets".toList) (.literal [')']),
    .pattern (.ofText "a)|(?:b".toList) "no match".toList, .noop]

/-- A match that starts behind a character of two octets, in brackets; and an
open bracket, where the repetition drops the rule's last alternative. -/
theorem parse_lossless_brackets :
    ∃ node rest, parse [("brackets".toList, brackets)] (.zeroOrMore (.ref "brackets".toList))
        "(\u00e9b)(x".toList = .ok (node, rest) ∧
      rest = "(x".toList ∧ node.text ++ rest = "(\u00e9b)(x".toList := by
  have hbrackets : brackets.Lossless := by
    refine .oneOf fun p hp => ?_
    simp only [List.mem_cons, List.not_mem_nil, or_false] at hp
    rcases hp with rfl | rfl | rfl
    · exact .triple (.literal _) (.ref _) (.literal _)
    · exact .pattern _ _
    · exact .noop
  have hrules : ∀ name rule, List.lookup name [("brackets".toList, brackets)] = some rule →
      rule.Lossless := by
    intro name rule hname
    rw [List.lookup_cons] at hname
    split at hname
    · rwa [← Option.some.inj hname]
    · cases hname
  have hrest : (parse [("brackets".toList, brackets)] (.zeroOrMore (.ref "brackets".toList))
      "(\u00e9b)(x".toList).map Prod.snd = .ok "(x".toList := by decide +kernel
  rcases hread : parse [("brackets".toList, brackets)] (.zeroOrMore (.ref "brackets".toList))
    "(\u00e9b)(x".toList with e | ⟨node, rest⟩
  · rw [hread] at hrest
    cases hrest
  · rw [hread] at hrest
    have hkept := (parse_lossless hrules (.zeroOrMore (.ref _))).2 _ (fun _ => rfl) _ node rest hread
    exact ⟨node, rest, rfl, Except.ok.inj hrest, hkept⟩

end Scheme

end StraightLine
