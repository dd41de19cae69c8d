import StraightLine.Proofs.Grammar.Acceptance
import StraightLine.StackCode.Basic

/-!
# Failure — where a program is refused

A program is refused where something other than a blank stands behind a
program of its own and is no statement; `FailsAt` says so of a split of the
text. Nothing behind a semicolon matters to the statements in front of it, so
the loop over the statements gets to that place whatever stands there
(`statements_of_program`), and it stops nowhere else (`exists_failsAt`).

Programs follow one another (`parseProgram_append`), and with one of them in
front a text fails where it did before, further on. **`parse_concatenated`**
says both of two texts side by side.
-/

namespace StraightLine

namespace Text

/-- The last part of a text starts where the first one ends. -/
theorem placeOfRest_append (s t : Text) : (s ++ t).placeOfRest t = (s ++ t).placeAt s.byteSize := by
  have hlen : (s ++ t).length - t.length = s.length := by
    rw [List.length_append, Nat.add_sub_cancel]
  rw [placeOfRest, hlen, List.take_left, placeAt_append]

/-- Blanks may be added in front of a spaced text. -/
theorem Spaced.blank_append {l b s : Text} (hb : b.Blank) (hs : Spaced l s) :
    Spaced l (b ++ s) := by
  obtain @⟨b₁, b₂, hb₁, hb₂⟩ := hs
  rw [← List.append_assoc]
  exact .mk (hb.append hb₁) hb₂

end Text

namespace Grammar

variable {n k : Nat} {s t front rest : Text} {sts sts' : List Stmt} {cause e : ParseError}

/-! ## Programs side by side -/

theorem DerivesStmt.blank_append {b : Text} {st : Stmt} (hb : b.Blank) (h : DerivesStmt n s st) :
    DerivesStmt n (b ++ s) st := by
  obtain ⟨hx, hs₁, hs₂, he, hs₄⟩ := h
  rw [← List.append_assoc]
  exact .mk hx (hs₁.blank_append hb) hs₂ he hs₄

theorem DerivesProgram.blank_append {b : Text} (hb : b.Blank) (h : DerivesProgram n s sts) :
    DerivesProgram n (b ++ s) sts := by
  cases h with
  | done hs => exact .done (hb.append hs)
  | step hst hsts =>
    rw [← List.append_assoc]
    exact .step (hst.blank_append hb) hsts

/-- A program may follow another one: the blanks between them belong to the
second. -/
theorem DerivesProgram.append (hs : DerivesProgram n s sts) (ht : DerivesProgram n t sts') :
    DerivesProgram n (s ++ t) (sts ++ sts') := by
  induction hs with
  | done hb => exact ht.blank_append hb
  | step hst _ ih =>
    rw [List.append_assoc]
    exact .step hst ih

end Grammar

namespace Program

/-- One program behind the other. -/
def followedBy (p q : Program) : Program := ⟨p.statements ++ q.statements⟩

/-- The code of one program follows that of the other, line by line. -/
theorem code_text_followedBy (p q : Program) :
    StackCode.text (p.followedBy q).code = StackCode.text p.code ++ StackCode.text q.code := by
  simp only [followedBy, code, StackCode.text, List.flatMap_append]

end Program

namespace Grammar

variable {n k : Nat} {s t front rest : Text} {sts : List Stmt} {cause e : ParseError}

/-- **Programs follow one another.** -/
theorem parseProgram_append {p q : Program} (hp : parseProgram s = .ok p)
    (hq : parseProgram t = .ok q) : parseProgram (s ++ t) = .ok (p.followedBy q) := by
  obtain ⟨hs, hps⟩ := parseProgram_eq_ok_iff.mp hp
  obtain ⟨ht, hqs⟩ := parseProgram_eq_ok_iff.mp hq
  exact parseProgram_eq_ok_iff.mpr ⟨hs.append ht, List.forall_mem_append.mpr ⟨hps, hqs⟩⟩

/-! ## The place of a failure -/

/-- **Where a text is refused as a program**: in front stands a program of its
own, and the rest, which starts with no blank, is refused as a statement. -/
structure FailsAt (s front rest : Text) (cause : ParseError) : Prop where
  text : s = front ++ rest
  accepted : ∃ p, parseProgram front = .ok p
  start : ∃ c u, rest = c :: u ∧ isBlank c = false
  failure : stmt rest = .error cause

/-- **The loop gets over a program** to what is refused behind it. -/
theorem statements_of_program (source : Text) (hd : DerivesProgram maxNesting front sts)
    (hle : ∀ st ∈ sts, st.value.height ≤ maxHeight)
    (hstart : ∃ c u, rest = c :: u ∧ isBlank c = false) (hfail : stmt rest = .error cause)
    (hk : (front ++ rest).length ≤ k) :
    statements source k (front ++ rest) =
      .error (.invalidStatement (source.placeOfRest rest) (ParseError.quote rest) cause) := by
  obtain ⟨c, u, rfl, hc⟩ := hstart
  induction hd generalizing k with
  | @done b hb =>
    rw [List.length_append, List.length_cons] at hk
    obtain ⟨k, rfl⟩ : ∃ m, k = m + 1 := ⟨k - 1, by omega⟩
    have htrim : (b ++ c :: u).trimStart = c :: u := by
      rw [Text.trimStart_append hb, Text.trimStart_cons hc]
    have hstmt : stmt (b ++ c :: u) = .error cause := by
      rw [← reads_stmt.skips, htrim, hfail]
    simp only [statements, htrim, hstmt]
  | @step s t st sts hst hsts ih =>
    obtain ⟨hst', hsts'⟩ := List.forall_mem_cons.mp hle
    have hpos := List.length_pos_iff.mpr (stmt_ne_nil hst)
    rw [List.append_assoc] at hk ⊢
    rw [List.length_append] at hk
    obtain ⟨k, rfl⟩ : ∃ m, k = m + 1 := ⟨k - 1, by omega⟩
    have hread := reads_stmt.complete (r := t ++ c :: u) ⟨hst, hst'⟩ trivial
    obtain ⟨d, w, hdw⟩ := List.exists_cons_of_ne_nil (stmt_trimStart_ne_nil hread)
    rw [statements, hdw]
    simp only [hread, statements_skips, ih hsts' (k := k) (by omega)]

/-- **A text that fails at a place is refused there**: the error tells the
place, quotes what stands there and gives the cause. -/
theorem FailsAt.parseProgram_eq (h : FailsAt s front rest cause) :
    parseProgram s =
      .error (.invalidStatement (s.placeAt front.byteSize) (ParseError.quote rest) cause) := by
  obtain ⟨rfl, ⟨p, hp⟩, hstart, hfail⟩ := h
  obtain ⟨hd, hle⟩ := parseProgram_eq_ok_iff.mp hp
  rw [parseProgram, statements_of_program _ hd hle hstart hfail le_rfl, Text.placeOfRest_append]

/-- **The loop stops nowhere else.** -/
theorem exists_failsAt_of_statements (source : Text) (hk : t.length ≤ k)
    (h : statements source k t = .error e) :
    ∃ front rest cause, FailsAt t front rest cause := by
  induction k generalizing t e with
  | zero => cases h
  | succ k ih =>
    rw [statements] at h
    split at h
    · cases h
    · rename_i c u hcu
      split at h
      · -- the first statement is the one that fails
        rename_i cause hfail
        have hc : isBlank c = false :=
          Text.startsOutside_dropWhile t c (by rw [← Text.trimStart, hcu, List.head?_cons])
        refine ⟨t.takeWhile isBlank, t.trimStart, cause, ?_, ?_, ⟨c, u, hcu, hc⟩, ?_⟩
        · exact (Text.takeWhile_append_trimStart t).symm
        · exact ⟨⟨[]⟩, parseProgram_eq_ok_iff.mpr ⟨.done (Text.blank_takeWhile t), by simp⟩⟩
        · rw [reads_stmt.skips, hfail]
      · rename_i st r hread
        split at h
        · rename_i e' hrest
          obtain ⟨s, rfl, hd, hle⟩ := reads_stmt.sound hread
          have hpos := List.length_pos_iff.mpr (stmt_ne_nil hd)
          rw [List.length_append] at hk
          obtain ⟨front, rest, cause, rfl, ⟨p, hp⟩, hstart, hfail⟩ := ih (by omega) hrest
          obtain ⟨hds, hles⟩ := parseProgram_eq_ok_iff.mp hp
          refine ⟨s ++ front, rest, cause, (List.append_assoc s front rest).symm,
            ⟨⟨st :: p.statements⟩, ?_⟩, hstart, hfail⟩
          exact parseProgram_eq_ok_iff.mpr ⟨.step hd hds, List.forall_mem_cons.mpr ⟨hle, hles⟩⟩
        · cases h

/-- Every text that is refused fails at some place. -/
theorem exists_failsAt (h : parseProgram s = .error e) :
    ∃ front rest cause, FailsAt s front rest cause := by
  rw [parseProgram] at h
  split at h
  · rename_i e' he
    exact exists_failsAt_of_statements s le_rfl he
  · cases h

/-! ## Two texts side by side -/

/-- **With a program in front** a text fails where it did, further on. -/
theorem FailsAt.append {p : Program} (hp : parseProgram s = .ok p)
    (h : FailsAt t front rest cause) : FailsAt (s ++ t) (s ++ front) rest cause := by
  obtain ⟨rfl, ⟨q, hq⟩, hstart, hfail⟩ := h
  exact ⟨(List.append_assoc s front rest).symm, ⟨_, parseProgram_append hp hq⟩, hstart, hfail⟩

/-- **Compilation is compositional.** Behind an accepted text another one is
accepted as it is alone, with the statements and the code of the first in
front; and refused as it is alone, for the same cause and with the same
quotation, at the place that the first text moves it to. -/
theorem parse_concatenated {s t : Text} {p : Program} (hp : parseProgram s = .ok p) :
    (∀ q, parseProgram t = .ok q →
      parseProgram (s ++ t) = .ok (p.followedBy q) ∧
        StackCode.text (p.followedBy q).code = StackCode.text p.code ++ StackCode.text q.code) ∧
    ∀ place found cause, parseProgram t = .error (.invalidStatement place found cause) →
      ∃ front rest, FailsAt t front rest cause ∧
        place = t.placeAt front.byteSize ∧ found = ParseError.quote rest ∧
        parseProgram (s ++ t) =
          .error (.invalidStatement ((s ++ t).placeAt (s.byteSize + front.byteSize)) found
            cause) := by
  refine ⟨fun q hq => ⟨parseProgram_append hp hq, p.code_text_followedBy q⟩,
    fun place found cause ht => ?_⟩
  obtain ⟨front, rest, cause', hfails⟩ := exists_failsAt ht
  have halone := ht.symm.trans hfails.parseProgram_eq
  simp only [Except.error.injEq, ParseError.invalidStatement.injEq] at halone
  obtain ⟨rfl, rfl, rfl⟩ := halone
  refine ⟨front, rest, hfails, rfl, rfl, ?_⟩
  rw [(hfails.append hp).parseProgram_eq, Text.byteSize_append]

/-- Behind a line of its own: a statement that uses its name, and one that is
refused behind that. -/
theorem parse_concatenated_lines :
    parseProgram "a = 1;\nb=a;".toList =
        .ok ⟨[⟨['a'], .assign, .int 1⟩, ⟨['b'], .assign, .identifier ['a']⟩]⟩ ∧
      ∃ front rest, FailsAt "b=a; 2=b;".toList front rest (.rejected "Invalid identifier".toList) ∧
        (⟨1, 6⟩ : Place) = Text.placeAt "b=a; 2=b;".toList (Text.byteSize front) ∧
        "2=b;".toList = ParseError.quote rest ∧
        parseProgram ("a = 1;\n".toList ++ "b=a; 2=b;".toList) =
          .error (.invalidStatement
            (Text.placeAt ("a = 1;\n".toList ++ "b=a; 2=b;".toList)
              (Text.byteSize "a = 1;\n".toList + Text.byteSize front))
            "2=b;".toList (.rejected "Invalid identifier".toList)) := by
  have hfirst : parseProgram "a = 1;\n".toList = .ok ⟨[⟨['a'], .assign, .int 1⟩]⟩ := by
    decide +kernel
  have hsecond : parseProgram "b=a;".toList = .ok ⟨[⟨['b'], .assign, .identifier ['a']⟩]⟩ := by
    decide +kernel
  have hrefused : parseProgram "b=a; 2=b;".toList =
      .error (.invalidStatement ⟨1, 6⟩ "2=b;".toList (.rejected "Invalid identifier".toList)) := by
    decide +kernel
  exact ⟨((parse_concatenated hfirst).1 _ hsecond).1,
    (parse_concatenated hfirst).2 _ _ _ hrefused⟩

end Grammar

end StraightLine
