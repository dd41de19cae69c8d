import StraightLine.Proofs.Parser.Rests

/-!
# Ending — parsers that name themselves, and loops that come to an end

A scheme that refers to a rule runs the rule's own scheme, which may refer to
the same rule again, so running it need not come to an end. `Scheme.Ends` is
derivable where it does: each constructor asks that the parts end on the texts
they are run on, a reference that its rule does, and a repetition that it ends
on what a round has left, provided the rest has another size than the text.
The references followed inside one another are counted. Where a scheme ends
within a number of them, its parser answers the same for this number and all
larger ones (`Ends.parserWith_eq`), so the number is no part of the answer.

Nothing but the sizes keeps a repetition from going round for ever. Since
every scheme leaves ends of texts, a rest of another size is a shorter one, and
a repetition ends when its part ends on every text (`ends_zeroOrMore`).
-/

namespace StraightLine

namespace Parser

variable {ι α β : Type} {p p' : Parser α} {q q' : Parser β} {t : Text}

/-! ## What an answer depends on

The answer of a combinator on a text depends on those of its parts on the
texts that they are run on. -/

theorem map_congr (f : α → β) (hp : p' t = p t) : map f p' t = map f p t := by
  simp only [map, hp]

theorem andThen_congr (f : α → Except ParseError β) (hp : p' t = p t) :
    andThen p' f t = andThen p f t := by
  simp only [andThen, hp]

theorem test_congr (holds : α → Bool) (message : Text) (hp : p' t = p t) :
    test p' holds message t = test p holds message t := by
  simp only [test, hp]

theorem optional_congr (hp : p' t = p t) : optional p' t = optional p t := by
  simp only [optional, hp]

theorem skipBlanks_congr (hp : p' t.trimStart = p t.trimStart) :
    skipBlanks p' t = skipBlanks p t := by
  rw [skipBlanks_eq, skipBlanks_eq, hp]

theorem pair_congr (hp : p' t = p t) (hq : ∀ a u, p t = .ok (a, u) → q' u = q u) :
    pair p' q' t = pair p q t := by
  simp only [pair, hp]
  rcases hread : p t with e | ⟨a, u⟩
  · rfl
  · simp only [hq a u hread]

theorem either_congr {q q' : Parser α} (hp : p' t = p t)
    (hq : ∀ e, p t = .error e → q' t = q t) : either p' q' t = either p q t := by
  simp only [either, hp]
  rcases hread : p t with e | r
  · exact hq e hread
  · rfl

theorem each_congr {f f' : ι → Parser α} {parts : List ι}
    (h : ∀ front i back as u, parts = front ++ i :: back → each (front.map f) t = .ok (as, u) →
      f' i u = f i u) : each (parts.map f') t = each (parts.map f) t := by
  induction parts generalizing t with
  | nil => rfl
  | cons i parts ih =>
    refine map_congr _ (pair_congr (h [] i parts [] t rfl rfl) fun a u hread => ih ?_)
    intro front j back as v hparts hfront
    refine h (i :: front) j back (a :: as) v (by rw [hparts, List.cons_append]) ?_
    exact map_eq_ok.mpr ⟨(a, as), pair_eq_ok.mpr ⟨u, hread, hfront⟩, rfl⟩

theorem sequence_congr {f f' : ι → Parser α} {parts : List ι}
    (h : each (parts.map f') t = each (parts.map f) t) :
    sequence (parts.map f') t = sequence (parts.map f) t := by
  cases parts with
  | nil => rfl
  | cons i parts => exact h

theorem firstOf_congr {f f' : ι → Parser α} {choices : List ι} (e : ParseError)
    (h : ∀ front i back, choices = front ++ i :: back → (∀ j ∈ front, ∃ e, f j t = .error e) →
      f' i t = f i t) : firstOf e (choices.map f') t = firstOf e (choices.map f) t := by
  induction choices generalizing e with
  | nil => rfl
  | cons i choices ih =>
    have hfirst : f' i t = f i t := h [] i choices rfl fun _ hj => absurd hj List.not_mem_nil
    simp only [List.map_cons, firstOf, hfirst]
    rcases hread : f i t with e' | r
    · refine ih e' fun front j back hchoices hfront => ?_
      refine h (i :: front) j back (by rw [hchoices, List.cons_append]) ?_
      exact List.forall_mem_cons.mpr ⟨⟨e', hread⟩, hfront⟩
    · rfl

/-- What all choices in front of one have answered is read off them in
order. -/
theorem forall_error_congr {f f' : ι → Parser α} {front : List ι}
    (h : ∀ front' i back, front = front' ++ i :: back → (∀ j ∈ front', ∃ e, f j t = .error e) →
      f' i t = f i t) (hfail : ∀ i ∈ front, ∃ e, f' i t = .error e) :
    ∀ i ∈ front, ∃ e, f i t = .error e := by
  induction front with
  | nil => exact fun i hi => absurd hi List.not_mem_nil
  | cons i front ih =>
    obtain ⟨⟨e, hi⟩, hfail⟩ := List.forall_mem_cons.mp hfail
    have hfirst : f i t = .error e :=
      (h [] i front rfl fun _ hj => absurd hj List.not_mem_nil).symm.trans hi
    refine List.forall_mem_cons.mpr ⟨⟨e, hfirst⟩, ih (fun front' j back hfront hothers => ?_) hfail⟩
    refine h (i :: front') j back (by rw [hfront, List.cons_append]) ?_
    exact List.forall_mem_cons.mpr ⟨⟨e, hfirst⟩, hothers⟩

/-- A round of a repetition is followed by the repetition on a shorter rest. -/
theorem iterate_congr (hp : p' t = p t)
    (hmore : ∀ a u, p t = .ok (a, u) → u.length < t.length → iterate p' u = iterate p u) :
    iterate p' t = iterate p t := by
  rw [iterate_eq p', iterate_eq p, hp]
  rcases hread : p t with e | ⟨a, u⟩
  · rfl
  · by_cases hless : u.length < t.length
    · simp only [if_pos hless, hmore a u hread hless]
    · simp only [if_neg hless]

theorem zeroOrMore_congr (h : iterate p' t = iterate p t) : zeroOrMore p' t = zeroOrMore p t :=
  congrArg Except.ok h

theorem oneOrMore_congr (hp : p' t = p t)
    (hmore : ∀ a u, p t = .ok (a, u) → iterate p' u = iterate p u) :
    oneOrMore p' t = oneOrMore p t := by
  simp only [oneOrMore, hp]
  rcases hread : p t with e | ⟨a, u⟩
  · rfl
  · simp only [hmore a u hread]

end Parser

namespace Scheme

open StraightLine.Parser

variable {rules : Text → Option Scheme} {s p q : Scheme} {n m : Nat} {t u : Text}

/-! ## Running a scheme -/

/-- What names mean when so many references are followed. -/
def meaning (rules : Text → Option Scheme) : Nat → Text → Parser Node
  | 0, name => fun _ => .error (.meaningless name)
  | n + 1, name =>
    match rules name with
    | some rule => parserUpTo rules n rule
    | none => fun _ => .error (.meaningless name)

theorem parserUpTo_eq (rules : Text → Option Scheme) (n : Nat) (s : Scheme) :
    parserUpTo rules n s = s.parserWith (meaning rules n) := by
  cases n with
  | zero => rw [parserUpTo]; rfl
  | succ n => rw [parserUpTo]; rfl

/-- A rule means the parser of its scheme, one reference further in. -/
theorem meaning_succ {name : Text} {rule : Scheme} (h : rules name = some rule) :
    meaning rules (n + 1) name = rule.parserWith (meaning rules n) := by
  rw [← parserUpTo_eq]
  simp only [meaning, h]

theorem leavesSuffix_meaning (rules : Text → Option Scheme) (n : Nat) (name : Text) :
    LeavesSuffix (meaning rules n name) := by
  have h := leavesSuffix_parserUpTo rules n (.ref name)
  rwa [parserUpTo_eq, parserWith] at h

theorem parsersWith_eq_map (names : Text → Parser Node) (parts : List Scheme) :
    parsersWith names parts = parts.map (parserWith names) := by
  induction parts with
  | nil => rw [parsersWith, List.map_nil]
  | cons s parts ih => rw [parsersWith, List.map_cons, ih]

/-- **A scheme ends on a text**, and follows no more than a number of
references inside one another. -/
inductive Ends (rules : Text → Option Scheme) : Nat → Scheme → Text → Prop
  | noop {n : Nat} {t : Text} : Ends rules n .noop t
  | item {n : Nat} {t : Text} : Ends rules n .item t
  | integer {n : Nat} {t : Text} : Ends rules n .integer t
  | decimal {n : Nat} {t : Text} : Ends rules n .decimal t
  | endOfInput {n : Nat} {t : Text} : Ends rules n .endOfInput t
  | literal {n : Nat} {t text : Text} : Ends rules n (.literal text) t
  | pattern {n : Nat} {t message : Text} {p : WrittenPattern} : Ends rules n (.pattern p message) t
  /-- Each part ends on what those in front of it leave. -/
  | sequence {n : Nat} {t : Text} {parts : List Scheme}
      (h : ∀ front p back nodes u, parts = front ++ p :: back →
        each (front.map (parserWith (meaning rules n))) t = .ok (nodes, u) → Ends rules n p u) :
      Ends rules n (.sequence parts) t
  /-- Each choice ends where all in front of it have failed. -/
  | oneOf {n : Nat} {t : Text} {choices : List Scheme}
      (h : ∀ front p back, choices = front ++ p :: back →
        (∀ q ∈ front, ∃ e, q.parserWith (meaning rules n) t = .error e) → Ends rules n p t) :
      Ends rules n (.oneOf choices) t
  | pair {n : Nat} {t : Text} {p q : Scheme} (hp : Ends rules n p t)
      (hq : ∀ a u, p.parserWith (meaning rules n) t = .ok (a, u) → Ends rules n q u) :
      Ends rules n (.pair p q) t
  | triple {n : Nat} {t : Text} {p q r : Scheme} (hp : Ends rules n p t)
      (hq : ∀ a u, p.parserWith (meaning rules n) t = .ok (a, u) → Ends rules n q u)
      (hr : ∀ a u b v, p.parserWith (meaning rules n) t = .ok (a, u) →
        q.parserWith (meaning rules n) u = .ok (b, v) → Ends rules n r v) :
      Ends rules n (.triple p q r) t
  | either {n : Nat} {t : Text} {p q : Scheme} (hp : Ends rules n p t)
      (hq : ∀ e, p.parserWith (meaning rules n) t = .error e → Ends rules n q t) :
      Ends rules n (.either p q) t
  /-- A repetition goes on behind a round unless text and rest have one
  size. -/
  | zeroOrMore {n : Nat} {t : Text} {p : Scheme} (hp : Ends rules n p t)
      (hmore : ∀ a u, p.parserWith (meaning rules n) t = .ok (a, u) → u.byteSize ≠ t.byteSize →
        Ends rules n (.zeroOrMore p) u) :
      Ends rules n (.zeroOrMore p) t
  /-- The first round is not asked for its size. -/
  | oneOrMore {n : Nat} {t : Text} {p : Scheme} (hp : Ends rules n p t)
      (hmore : ∀ a u, p.parserWith (meaning rules n) t = .ok (a, u) →
        Ends rules n (.zeroOrMore p) u) :
      Ends rules n (.oneOrMore p) t
  | optional {n : Nat} {t : Text} {p : Scheme} (hp : Ends rules n p t) :
      Ends rules n (.optional p) t
  | surroundedBy {n : Nat} {t : Text} {p q : Scheme} (hopen : Ends rules n q t)
      (hp : ∀ a u, q.parserWith (meaning rules n) t = .ok (a, u) → Ends rules n p u)
      (hclose : ∀ a u b v, q.parserWith (meaning rules n) t = .ok (a, u) →
        p.parserWith (meaning rules n) u = .ok (b, v) → Ends rules n q v) :
      Ends rules n (.surroundedBy p q) t
  | skipBlanks {n : Nat} {t : Text} {p : Scheme} (hp : Ends rules n p t.trimStart) :
      Ends rules n (.skipBlanks p) t
  | test {n : Nat} {t message : Text} {p : Scheme} {holds : Node → Bool} (hp : Ends rules n p t) :
      Ends rules n (.test p holds message) t
  | map {n : Nat} {t : Text} {p : Scheme} {f : Node → Node} (hp : Ends rules n p t) :
      Ends rules n (.map p f) t
  | andThen {n : Nat} {t : Text} {p : Scheme} {f : Node → Except ParseError Node}
      (hp : Ends rules n p t) : Ends rules n (.andThen p f) t
  /-- A reference is followed. -/
  | ref {n : Nat} {t name : Text} {rule : Scheme} (hrule : rules name = some rule)
      (h : Ends rules n rule t) : Ends rules (n + 1) (.ref name) t

/-- A repetition gives the results of its rounds. -/
theorem parserWith_zeroOrMore (names : Text → Parser Node) (p : Scheme) (t : Text) :
    parserWith names (.zeroOrMore p) t =
      .ok (.several (iterate (p.parserWith names) t).1, (iterate (p.parserWith names) t).2) := by
  rw [parserWith]
  rfl

/-- So repetitions that answer the same have had the same rounds. -/
theorem iterate_eq_of_zeroOrMore {names names' : Text → Parser Node}
    (h : parserWith names' (.zeroOrMore p) t = parserWith names (.zeroOrMore p) t) :
    iterate (p.parserWith names') t = iterate (p.parserWith names) t := by
  rw [parserWith_zeroOrMore, parserWith_zeroOrMore] at h
  obtain ⟨hnodes, hrest⟩ := Prod.mk.inj (Except.ok.inj h)
  exact Prod.ext (Node.several.inj hnodes) hrest

/-- **Further references change nothing** where a scheme ends. -/
theorem Ends.parserWith_eq (h : Ends rules n s t) (hnm : n ≤ m) :
    s.parserWith (meaning rules m) t = s.parserWith (meaning rules n) t := by
  induction h generalizing m with
  | noop | item | integer | decimal | endOfInput | literal | pattern => rw [parserWith, parserWith]
  | sequence _ ih =>
    rw [parserWith, parserWith, parsersWith_eq_map, parsersWith_eq_map]
    exact map_congr _ (sequence_congr (each_congr fun front p back nodes u hparts hfront =>
      ih front p back nodes u hparts hfront hnm))
  | oneOf _ ih =>
    rw [parserWith, parserWith, parsersWith_eq_map, parsersWith_eq_map]
    exact firstOf_congr _ fun front p back hchoices hfront => ih front p back hchoices hfront hnm
  | pair _ _ ihp ihq =>
    rw [parserWith, parserWith]
    exact map_congr _ (pair_congr (ihp hnm) fun a u hread => ihq a u hread hnm)
  | triple _ _ _ ihp ihq ihr =>
    rw [parserWith, parserWith]
    exact map_congr _ (pair_congr (ihp hnm) fun a u hread =>
      pair_congr (ihq a u hread hnm) fun b v hread' => ihr a u b v hread hread' hnm)
  | either _ _ ihp ihq =>
    rw [parserWith, parserWith]
    exact either_congr (ihp hnm) fun e hread => ihq e hread hnm
  | @zeroOrMore n t p _ _ ihp ihmore =>
    rw [parserWith, parserWith]
    refine map_congr _ (zeroOrMore_congr (iterate_congr (ihp hnm) fun a u hread hless => ?_))
    -- the rounds are counted in characters, and the sizes compared in octets
    have hsuffix := leavesSuffix_parserWith (leavesSuffix_meaning rules n) p t a u hread
    have hsize := (Text.length_lt_iff_of_suffix hsuffix).mp hless
    exact iterate_eq_of_zeroOrMore (ihmore a u hread hsize hnm)
  | oneOrMore _ _ ihp ihmore =>
    rw [parserWith, parserWith]
    exact map_congr _ (oneOrMore_congr (ihp hnm) fun a u hread =>
      iterate_eq_of_zeroOrMore (ihmore a u hread hnm))
  | optional _ ih =>
    rw [parserWith, parserWith]
    exact map_congr _ (optional_congr (ih hnm))
  | surroundedBy _ _ _ ihopen ihp ihclose =>
    rw [parserWith, parserWith]
    exact map_congr _ (pair_congr (ihopen hnm) fun a u hread =>
      pair_congr (ihp a u hread hnm) fun b v hread' => ihclose a u b v hread hread' hnm)
  | skipBlanks _ ih =>
    rw [parserWith, parserWith]
    exact skipBlanks_congr (ih hnm)
  | test _ ih =>
    rw [parserWith, parserWith]
    exact test_congr _ _ (ih hnm)
  | map _ ih =>
    rw [parserWith, parserWith]
    exact map_congr _ (ih hnm)
  | andThen _ ih =>
    rw [parserWith, parserWith]
    exact andThen_congr _ (ih hnm)
  | @ref n t name rule hrule _ ih =>
    obtain ⟨m, rfl⟩ : ∃ k, m = k + 1 := ⟨m - 1, by omega⟩
    rw [parserWith, parserWith, meaning_succ hrule, meaning_succ hrule]
    exact ih (by omega)

/-- **And a scheme that ends within a number of references** ends within more
of them. -/
theorem Ends.mono (h : Ends rules n s t) (hnm : n ≤ m) : Ends rules m s t := by
  induction h generalizing m with
  | noop => exact .noop
  | item => exact .item
  | integer => exact .integer
  | decimal => exact .decimal
  | endOfInput => exact .endOfInput
  | literal => exact .literal
  | pattern => exact .pattern
  | @sequence n t parts h ih =>
    refine .sequence fun front p back nodes u hparts hfront => ?_
    refine ih front p back nodes u hparts ?_ hnm
    rwa [each_congr fun front' q back' nodes' v hq hread => ?_] at hfront
    have hcut : parts = front' ++ q :: (back' ++ p :: back) := by
      rw [hparts, hq, List.append_assoc, List.cons_append]
    exact (h front' q (back' ++ p :: back) nodes' v hcut hread).parserWith_eq hnm
  | @oneOf n t choices h ih =>
    refine .oneOf fun front p back hchoices hfront => ih front p back hchoices ?_ hnm
    refine forall_error_congr (fun front' q back' hq hfail => ?_) hfront
    have hcut : choices = front' ++ q :: (back' ++ p :: back) := by
      rw [hchoices, hq, List.append_assoc, List.cons_append]
    exact (h front' q (back' ++ p :: back) hcut hfail).parserWith_eq hnm
  | pair hp _ ihp ihq =>
    exact .pair (ihp hnm) fun a u hread => ihq a u (hp.parserWith_eq hnm ▸ hread) hnm
  | triple hp hq _ ihp ihq ihr =>
    refine .triple (ihp hnm) (fun a u hread => ihq a u (hp.parserWith_eq hnm ▸ hread) hnm) ?_
    intro a u b v hread hread'
    have hfirst := (hp.parserWith_eq hnm).symm.trans hread
    exact ihr a u b v hfirst (((hq a u hfirst).parserWith_eq hnm).symm.trans hread') hnm
  | either hp _ ihp ihq =>
    exact .either (ihp hnm) fun e hread => ihq e (hp.parserWith_eq hnm ▸ hread) hnm
  | zeroOrMore hp _ ihp ihmore =>
    exact .zeroOrMore (ihp hnm) fun a u hread hsize =>
      ihmore a u (hp.parserWith_eq hnm ▸ hread) hsize hnm
  | oneOrMore hp _ ihp ihmore =>
    exact .oneOrMore (ihp hnm) fun a u hread => ihmore a u (hp.parserWith_eq hnm ▸ hread) hnm
  | optional _ ih => exact .optional (ih hnm)
  | surroundedBy hopen hp _ ihopen ihp ihclose =>
    refine .surroundedBy (ihopen hnm)
      (fun a u hread => ihp a u (hopen.parserWith_eq hnm ▸ hread) hnm) ?_
    intro a u b v hread hread'
    have hfirst := (hopen.parserWith_eq hnm).symm.trans hread
    exact ihclose a u b v hfirst (((hp a u hfirst).parserWith_eq hnm).symm.trans hread') hnm
  | skipBlanks _ ih => exact .skipBlanks (ih hnm)
  | test _ ih => exact .test (ih hnm)
  | map _ ih => exact .map (ih hnm)
  | andThen _ ih => exact .andThen (ih hnm)
  | ref hrule _ ih =>
    obtain ⟨m, rfl⟩ : ∃ k, m = k + 1 := ⟨m - 1, by omega⟩
    exact .ref hrule (ih (by omega))

/-! ## Loops -/

/-- **A repetition ends** when its part ends on every text. -/
theorem ends_zeroOrMore (h : ∀ t, ∃ n, Ends rules n p t) (t : Text) :
    ∃ n, Ends rules n (.zeroOrMore p) t := by
  induction hlength : t.length using Nat.strong_induction_on generalizing t with
  | h k ih =>
    obtain ⟨n, hp⟩ := h t
    rcases hread : p.parserWith (meaning rules n) t with e | ⟨a, u⟩
    · refine ⟨n, .zeroOrMore hp fun a u hread' => ?_⟩
      cases hread.symm.trans hread'
    · have hsuffix := leavesSuffix_parserWith (leavesSuffix_meaning rules n) p t a u hread
      by_cases hsize : u.byteSize = t.byteSize
      · refine ⟨n, .zeroOrMore hp fun a' u' hread' hne => absurd ?_ hne⟩
        obtain ⟨-, rfl⟩ := Prod.mk.inj (Except.ok.inj (hread.symm.trans hread'))
        exact hsize
      · have hless : u.length < k := hlength ▸ (Text.length_lt_iff_of_suffix hsuffix).mpr hsize
        obtain ⟨n', hmore⟩ := ih u.length hless u rfl
        refine ⟨max n n', .zeroOrMore (hp.mono (le_max_left n n')) fun a' u' hread' _ => ?_⟩
        rw [hp.parserWith_eq (le_max_left n n'), hread] at hread'
        obtain ⟨-, rfl⟩ := Prod.mk.inj (Except.ok.inj hread')
        exact hmore.mono (le_max_right n n')

/-- So does one that keeps its first result. -/
theorem ends_oneOrMore (h : ∀ t, ∃ n, Ends rules n p t) (t : Text) :
    ∃ n, Ends rules n (.oneOrMore p) t := by
  obtain ⟨n, hp⟩ := h t
  rcases hread : p.parserWith (meaning rules n) t with e | ⟨a, u⟩
  · refine ⟨n, .oneOrMore hp fun a u hread' => ?_⟩
    cases hread.symm.trans hread'
  · obtain ⟨n', hmore⟩ := ends_zeroOrMore h u
    refine ⟨max n n', .oneOrMore (hp.mono (le_max_left n n')) fun a' u' hread' => ?_⟩
    rw [hp.parserWith_eq (le_max_left n n'), hread] at hread'
    obtain ⟨-, rfl⟩ := Prod.mk.inj (Except.ok.inj hread')
    exact hmore.mono (le_max_right n n')

/-- **Rests are ends of texts, and loops end.** Whatever a scheme succeeds on,
however often references are followed, is cut between two characters into what
it takes and the rest, and text and rest have one size just when nothing is
taken. A repetition of a scheme that ends on every text therefore ends on every
text; and what a scheme answers where it ends does not depend on how many
references may be followed. -/
theorem rests_are_suffixes (rules : Text → Option Scheme) (s : Scheme) :
    (∀ n t node rest, parserUpTo rules n s t = .ok (node, rest) → ∃ taken, t.Cut taken rest) ∧
    (∀ named t node rest, s.parse named t = .ok (node, rest) → ∃ taken, t.Cut taken rest) ∧
    ((∀ t, ∃ n, Ends rules n s t) → ∀ t,
      (∃ n, Ends rules n (.zeroOrMore s) t) ∧ ∃ n, Ends rules n (.oneOrMore s) t) ∧
    ∀ n t, Ends rules n s t → ∀ m, n ≤ m →
      parserUpTo rules m s t = parserUpTo rules n s t := by
  refine ⟨?_, ?_, fun h t => ⟨ends_zeroOrMore h t, ends_oneOrMore h t⟩, ?_⟩
  · intro n t node rest hread
    exact Text.exists_cut_iff.mpr (leavesSuffix_parserUpTo rules n s t node rest hread)
  · intro named t node rest hread
    exact Text.exists_cut_iff.mpr (leavesSuffix_parserUpTo _ _ s t node rest hread)
  · intro n t h m hnm
    rw [parserUpTo_eq, parserUpTo_eq]
    exact h.parserWith_eq hnm

/-- The characters of two octets that a text starts with, by a rule that names
itself. -/
def leading : Scheme := .optional (.pair (.literal ['\u00e9']) (.ref "leading".toList))

/-- The rule of this name. -/
def leadingRules : Text → Option Scheme := fun name => [("leading".toList, leading)].lookup name

/-- It follows itself once for each character it takes, so no number of
references is enough for every text. -/
theorem ends_leading (t : Text) : Ends leadingRules (t.length + 1) (.ref "leading".toList) t := by
  have hrule : leadingRules "leading".toList = some leading := rfl
  induction t with
  | nil =>
    refine .ref hrule (.optional (.pair .literal fun a u hread => ?_))
    rw [parserWith] at hread
    cases hread
  | cons c t ih =>
    refine .ref hrule (.optional (.pair .literal fun a u hread => ?_))
    rw [parserWith] at hread
    obtain ⟨l, hl, -⟩ := map_eq_ok.mp hread
    obtain ⟨front, htext, rfl, -⟩ := (takes_literal rfl (by decide)).sound hl
    obtain ⟨-, rfl⟩ := List.cons.inj htext
    exact ih

/-- Two characters of two octets are taken in front of another one, and more
references than it takes for them change nothing. -/
theorem rests_are_suffixes_leading :
    ∃ node rest taken, parserUpTo leadingRules 4 (.ref "leading".toList) "\u00e9\u00e9b".toList =
        .ok (node, rest) ∧ rest = ['b'] ∧ Text.Cut "\u00e9\u00e9b".toList taken rest ∧
      (∀ m, 4 ≤ m → parserUpTo leadingRules m (.ref "leading".toList) "\u00e9\u00e9b".toList =
        .ok (node, rest)) ∧
      (∀ t, ∃ n, Ends leadingRules n (.ref "leading".toList) t) ∧
      (∃ n, Ends leadingRules n (.zeroOrMore (.ref "leading".toList)) "\u00e9\u00e9b".toList) ∧
      ∃ n, Ends leadingRules n (.oneOrMore (.ref "leading".toList)) "\u00e9\u00e9b".toList := by
  obtain ⟨hcut, -, hloops, hmore⟩ := rests_are_suffixes leadingRules (.ref "leading".toList)
  have hends : ∀ t, ∃ n, Ends leadingRules n (.ref "leading".toList) t := fun t =>
    ⟨t.length + 1, ends_leading t⟩
  have hrest : (parserUpTo leadingRules 4 (.ref "leading".toList) "\u00e9\u00e9b".toList).map
      Prod.snd = .ok ['b'] := by decide +kernel
  have hsame := hmore 4 "\u00e9\u00e9b".toList (ends_leading "\u00e9\u00e9b".toList)
  rcases hread : parserUpTo leadingRules 4 (.ref "leading".toList) "\u00e9\u00e9b".toList
    with e | ⟨node, rest⟩
  · rw [hread] at hrest
    cases hrest
  · rw [hread] at hrest hsame
    obtain ⟨taken, htaken⟩ := hcut _ _ _ _ hread
    exact ⟨node, rest, taken, rfl, Except.ok.inj hrest, htaken, hsame, hends, hloops hends _⟩

end Scheme

end StraightLine
