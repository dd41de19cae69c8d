import StraightLine.Proofs.Decimal.Written
import StraightLine.Proofs.StackCode.Machine

/-!
# Simulation — code does what the program means

Every instruction is written on one line that reads back as its command
(`ofLine?_text`), so running the text is running the commands (`run_text`).
The code of an expression pushes its value and leaves the rest of the stack
and the variables alone (`performAll_codeOnto`); from there the theorem goes by
induction on the statements.
-/

namespace StraightLine

universe u

namespace Text

variable {l : Text}

/-- An integer lexeme reads back as its number. -/
theorem intOf?_of_integerLexeme {n : Int} (h : IntegerLexeme l n) : intOf? l = some n := by
  obtain ⟨negative, ds, hspan, hds, rfl⟩ := spanSign_of_integerLexeme h
  simp only [intOf?, hspan, hds, Bool.false_eq_true, if_false]
  cases negative with
  | false => rfl
  | true => rfl

end Text

open StackMachine

namespace Instruction

/-- What an instruction says to the machine. -/
def command : Instruction → Command
  | pushInt value => .pushInt value
  | pushFloat value => .pushFloat (floatText value)
  | load name => .load name
  | arithmetic op => .arithmetic op
  | store name => .store name

/-- An instruction whose name, if it has one, is a name. -/
def Readable : Instruction → Prop
  | load name => Text.NameLexeme name
  | store name => Text.NameLexeme name
  | _ => True

/-- The text of an instruction is one word, or a word and an operand of plain
characters. -/
theorem text_shape {i : Instruction} (h : i.Readable) :
    (∃ word, i.text = word ∧ '\n' ∉ word ∧ ' ' ∉ word ∧ Command.ofWord? word = some i.command) ∨
      ∃ word operand, i.text = word ++ ' ' :: operand ∧ '\n' ∉ word ∧ ' ' ∉ word ∧
        Text.PlainChars operand ∧ Command.ofWordAnd? word operand = some i.command := by
  cases i with
  | pushInt value =>
    have hl := Text.integerLexeme_ofInt value
    refine .inr ⟨"push.i64".toList, Text.ofInt value, rfl, by decide, by decide, hl.plainChars, ?_⟩
    simp [Command.ofWordAnd?, Text.intOf?_of_integerLexeme hl, command]
  | pushFloat value =>
    exact .inr ⟨"push.f64".toList, floatText value, rfl, by decide, by decide,
      plainChars_floatText value, rfl⟩
  | load name => exact .inr ⟨"load".toList, name, rfl, by decide, by decide, h.plainChars, rfl⟩
  | arithmetic op =>
    refine .inl ⟨(opcode op).toList, rfl, ?_, ?_, ?_⟩
    · cases op <;> decide
    · cases op <;> decide
    · cases op <;> rfl
  | store name => exact .inr ⟨"store".toList, name, rfl, by decide, by decide, h.plainChars, rfl⟩

/-- **The line of an instruction reads back as its command.** -/
theorem ofLine?_text {i : Instruction} (h : i.Readable) :
    Command.ofLine? i.text = some i.command := by
  rcases text_shape h with ⟨word, htext, -, hspace, hword⟩ |
    ⟨word, operand, htext, -, hspace, hplain, hword⟩
  · rw [Command.ofLine?, htext, Text.cutAt_of_not_mem hspace]
    exact hword
  · rw [Command.ofLine?, htext, Text.cutAt_append hspace,
      Text.cutAt_of_not_mem (hplain.not_mem (by decide))]
    exact hword

/-- It is one line. -/
theorem newline_not_mem_text {i : Instruction} (h : i.Readable) : '\n' ∉ i.text := by
  rcases text_shape h with ⟨word, htext, hline, -, -⟩ |
    ⟨word, operand, htext, hline, -, hplain, -⟩
  · rwa [htext]
  · rw [htext, List.mem_append, List.mem_cons]
    rintro (hw | hs | ho)
    · exact hline hw
    · exact absurd hs (by decide)
    · exact hplain.not_mem (by decide) ho

end Instruction

namespace StackMachine

variable {V : Type u} {D : ValueDomain V} {code : StackCode} {s : Config V} {stack : List V}
  {vars : Variables V}

/-! ## From the text to the commands -/

/-- The commands of some instructions, one after the other. -/
def performAll (D : ValueDomain V) (code : StackCode) (s : Config V) :
    Except (Stop V) (Config V) :=
  code.foldlM (fun s i => i.command.perform D s) s

theorem performAll_cons (i : Instruction) (code : StackCode) (s : Config V) :
    performAll D (i :: code) s = i.command.perform D s >>= performAll D code :=
  List.foldlM_cons

theorem performAll_append (code code' : StackCode) (s : Config V) :
    performAll D (code ++ code') s = performAll D code s >>= performAll D code' :=
  List.foldlM_append

/-- **Running the text is performing the commands.** -/
theorem run_text (h : ∀ i ∈ code, i.Readable) : run D code.text s = performAll D code s := by
  have hlines : code.text.lines = code.map Instruction.text :=
    Text.lines_flatMap fun i hi => Instruction.newline_not_mem_text (h i hi)
  rw [run, hlines]
  clear hlines
  induction code generalizing s with
  | nil => rfl
  | cons i code ih =>
    obtain ⟨hi, hcode⟩ := List.forall_mem_cons.mp h
    have hstep : step D s i.text = i.command.perform D s := by
      rw [step, Instruction.ofLine?_text hi]
    rw [List.map_cons, List.foldlM_cons, performAll_cons, hstep]
    exact bind_congr fun s' => ih hcode

/-! ## From the commands to the values -/

/-- **The code of an expression** pushes its value, or fails as its evaluation
does. -/
theorem performAll_codeOnto (e : Expr) (tail : StackCode) (stack : List V) :
    performAll D (e.codeOnto tail) ⟨stack, vars⟩ =
      (e.eval D vars).mapError .failed >>= fun v => performAll D tail ⟨v :: stack, vars⟩ := by
  -- the code that follows is general, since that of the right operand follows
  -- the left one on a stack that is higher by one
  induction e generalizing tail stack with
  | int value => rfl
  | float value => rfl
  | identifier name =>
    rw [Expr.codeOnto, performAll_cons, Expr.eval]
    change (((vars.lookup name).mapError Stop.failed).map _ >>= _) = _
    cases vars.lookup name with
    | error f => rfl
    | ok v => rfl
  | binary left op right ihl ihr =>
    rw [Expr.codeOnto, ihl, Expr.eval]
    cases left.eval D vars with
    | error f => rfl
    | ok l =>
      change performAll D (right.codeOnto (.arithmetic op :: tail)) ⟨l :: stack, vars⟩ = _
      rw [ihr]
      cases right.eval D vars with
      | error f => rfl
      | ok r =>
        change performAll D (.arithmetic op :: tail) ⟨r :: l :: stack, vars⟩ = _
        rw [performAll_cons]
        -- the right operand is on top, so the operands arrive in their order
        change (((D.apply op l r).mapError Stop.failed).map _ >>= _) =
          ((D.apply op l r).mapError Stop.failed >>= _)
        cases D.apply op l r with
        | error f => rfl
        | ok v => rfl

/-- The code of an assignment is that of its meaning and a `store`. -/
theorem code_eq_codeOnto (st : Stmt) : st.code = st.meaning.codeOnto [.store st.target] := by
  unfold Stmt.code Stmt.meaning
  cases st.op.arithmetic? with
  | none => rfl
  | some op => rfl

/-- **The code of an assignment** changes the variables and gives the stack
back. -/
theorem performAll_stmt (st : Stmt) :
    performAll D st.code ⟨stack, vars⟩ = outcome stack (st.eval D vars) := by
  rw [code_eq_codeOnto, performAll_codeOnto, Stmt.eval]
  cases st.meaning.eval D vars with
  | error f => rfl
  | ok v => rfl

/-- **The code of a program.** -/
theorem performAll_program (p : Program) :
    performAll D p.code ⟨stack, vars⟩ = outcome stack (p.eval D vars) := by
  obtain ⟨sts⟩ := p
  induction sts generalizing vars with
  | nil => rfl
  | cons st sts ih =>
    change performAll D (st.code ++ Program.code ⟨sts⟩) ⟨stack, vars⟩ =
      outcome stack (st.eval D vars >>= Program.eval D ⟨sts⟩)
    rw [performAll_append, performAll_stmt]
    cases st.eval D vars with
    | error f => rfl
    | ok vars' => exact ih

/-! ## Names -/

theorem readable_codeOnto {e : Expr} {tail : StackCode}
    (he : ∀ name ∈ e.names, Text.NameLexeme name) (htail : ∀ i ∈ tail, i.Readable) :
    ∀ i ∈ e.codeOnto tail, i.Readable := by
  induction e generalizing tail with
  | int value => exact List.forall_mem_cons.mpr ⟨trivial, htail⟩
  | float value => exact List.forall_mem_cons.mpr ⟨trivial, htail⟩
  | identifier name => exact List.forall_mem_cons.mpr ⟨he name List.mem_cons_self, htail⟩
  | binary left op right ihl ihr =>
    obtain ⟨hl, hr⟩ := List.forall_mem_append.mp he
    exact ihl hl (ihr hr (List.forall_mem_cons.mpr ⟨trivial, htail⟩))

/-- Code whose names are names can be read back. -/
theorem readable_code {p : Program} (hp : ∀ name ∈ p.names, Text.NameLexeme name) :
    ∀ i ∈ p.code, i.Readable := by
  intro i hi
  obtain ⟨st, hst, hi⟩ := List.mem_flatMap.mp hi
  have hnames : ∀ name ∈ st.names, Text.NameLexeme name := fun name hname =>
    hp name (List.mem_flatMap.mpr ⟨st, hst, hname⟩)
  obtain ⟨htarget, hvalue⟩ := List.forall_mem_cons.mp hnames
  have hstore : ∀ i ∈ ([.store st.target] : StackCode), i.Readable :=
    List.forall_mem_cons.mpr ⟨htarget, by simp⟩
  rw [code_eq_codeOnto] at hi
  refine readable_codeOnto ?_ hstore i hi
  unfold Stmt.meaning
  split
  · exact List.forall_mem_cons.mpr ⟨htarget, hvalue⟩
  · exact hvalue

/-! ## Whole programs -/

/-- A machine neither runs out of values nor meets a line it cannot read where
its outcome is that of an evaluation. -/
theorem outcome_ne {f : Stop V} (hf : ∀ e, f ≠ .failed e)
    (r : Except (EvalFailure V) (Variables V)) : outcome stack r ≠ .error f := by
  cases r with
  | ok vars =>
    rintro ⟨⟩
  | error e =>
    intro h
    exact hf e (Except.error.inj h).symm

theorem run_program {p : Program} (hp : ∀ name ∈ p.names, Text.NameLexeme name) :
    run D p.code.text ⟨stack, vars⟩ = outcome stack (p.eval D vars) := by
  rw [run_text (readable_code hp), performAll_program]

/-- **Lowering preserves meaning.** In every domain of values, the text of a
program whose names are names runs to the variables the program evaluates to,
or fails as its evaluation does, with the stack it started from; it never
underflows and every line is read. The same holds after every statement: the
code of those before it is the first part of the text, and the machine goes on
with the rest of the text and the stack it started from. -/
theorem run_code_eq_eval (D : ValueDomain V) (p : Program)
    (hp : ∀ name ∈ p.names, Text.NameLexeme name) (stack : List V) (vars : Variables V) :
    run D p.code.text ⟨stack, vars⟩ = outcome stack (p.eval D vars) ∧
      run D p.code.text ⟨stack, vars⟩ ≠ .error .underflow ∧
      (∀ line, run D p.code.text ⟨stack, vars⟩ ≠ .error (.unreadable line)) ∧
      ∀ before after, p.statements = before ++ after →
        p.code.text = (Program.code ⟨before⟩).text ++ (Program.code ⟨after⟩).text ∧
        run D (Program.code ⟨before⟩).text ⟨stack, vars⟩ =
          outcome stack (Program.eval D ⟨before⟩ vars) ∧
        run D p.code.text ⟨stack, vars⟩ =
          run D (Program.code ⟨before⟩).text ⟨stack, vars⟩ >>=
            run D (Program.code ⟨after⟩).text := by
  have hrun : run D p.code.text ⟨stack, vars⟩ = outcome stack (p.eval D vars) := run_program hp
  refine ⟨hrun, ?_, fun line => ?_, fun before after hsplit => ?_⟩
  · rw [hrun]
    exact outcome_ne (by rintro e ⟨⟩) _
  · rw [hrun]
    exact outcome_ne (by rintro e ⟨⟩) _
  · have hcode : p.code = Program.code ⟨before⟩ ++ Program.code ⟨after⟩ := by
      rw [Program.code, hsplit, List.flatMap_append]
      rfl
    have hreadable := readable_code hp
    rw [hcode] at hreadable
    obtain ⟨hb, ha⟩ := List.forall_mem_append.mp hreadable
    refine ⟨by rw [hcode, StackCode.text, List.flatMap_append]; rfl, ?_, ?_⟩
    · rw [run_text hb, performAll_program]
    · rw [run_text (readable_code hp), hcode, performAll_append, run_text hb]
      exact bind_congr fun s => (run_text ha).symm

/-- The integers, without a result for a division by zero. -/
def integers : ValueDomain Int where
  ofInt := id
  ofFloat written := written.length
  result?
    | .add, l, r => some (l + r)
    | .sub, l, r => some (l - r)
    | .mult, l, r => some (l * r)
    | .div, l, r => if r = 0 then none else some (l.tdiv r)
    | .mod, l, r => if r = 0 then none else some (l.tmod r)

/-- `x = 7; x -= 2; y = x / (x - 5);` divides by zero in its last statement. -/
theorem run_code_eq_eval_division :
    run integers
        (Program.code ⟨[⟨['x'], .assign, .int 7⟩, ⟨['x'], .subAssign, .int 2⟩,
          ⟨['y'], .assign, .binary (.identifier ['x']) .div
            (.binary (.identifier ['x']) .sub (.int 5))⟩]⟩).text ⟨[1, 2], fun _ => none⟩ =
      .error (.failed (.noResult .div 5 0)) := by
  refine (run_code_eq_eval integers _ ?_ [1, 2] fun _ => none).1
  have hx : Text.NameLexeme ['x'] := .mk (by decide) (by simp)
  have hy : Text.NameLexeme ['y'] := .mk (by decide) (by simp)
  simp [Program.names, Stmt.names, Expr.names, hx, hy]

end StackMachine

end StraightLine
