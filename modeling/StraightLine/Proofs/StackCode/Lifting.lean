import StraightLine.Proofs.StackCode.Simulation

/-!
# Lifting — the program that a text of code comes from

Code keeps all of a program except how its assignments were written: `x += e`
and `x = x + e` have the same code. `Program.ofCode?` reads code back, line by
line, with a stack of the expressions that are read and not yet used, and finds
the program with plain assignments only (`ofCode?_text`). So the text of the
code determines the program up to that. Floats are left out: a double is
written with its shortest digits, and what they read back to is not a matter
of code.
-/

namespace StraightLine

open StackMachine

/-! ## Plain assignments -/

/-- **The plain assignment** that an assignment stands for. -/
def Stmt.expanded (s : Stmt) : Stmt := ⟨s.target, .assign, s.meaning⟩

/-- A program with `x = x op e` in the place of every `x op= e`. -/
def Program.expanded (p : Program) : Program := ⟨p.statements.map Stmt.expanded⟩

/-- The code does not tell them apart. -/
theorem Program.code_expanded (p : Program) : p.expanded.code = p.code := by
  have hstmt : ∀ st : Stmt, st.expanded.code = st.code := fun st => by
    rw [code_eq_codeOnto, code_eq_codeOnto st]
    rfl
  simp only [code, expanded, List.flatMap_map, hstmt]

/-- An expression without floats. -/
def Expr.FloatFree : Expr → Prop
  | .int _ => True
  | .float _ => False
  | .identifier _ => True
  | .binary left _ right => left.FloatFree ∧ right.FloatFree

/-- A program without floats. -/
def Program.FloatFree (p : Program) : Prop := ∀ st ∈ p.statements, st.value.FloatFree

theorem Stmt.floatFree_meaning {st : Stmt} (h : st.value.FloatFree) : st.meaning.FloatFree := by
  unfold meaning
  split
  · exact ⟨trivial, h⟩
  · exact h

/-! ## Reading code back -/

/-- The expressions read and not yet used, the last one first, and the
assignments they were used in. -/
structure Lifting where
  pending : List Expr
  statements : List Stmt

namespace Lifting

/-- **One command**: what the machine does to values is done to expressions,
and a `store` ends an assignment. -/
def step? : Command → Lifting → Option Lifting
  | .pushInt value, s => some ⟨.int value :: s.pending, s.statements⟩
  | .pushFloat _, _ => none
  | .load name, s => some ⟨.identifier name :: s.pending, s.statements⟩
  | .arithmetic op, ⟨right :: left :: pending, sts⟩ => some ⟨.binary left op right :: pending, sts⟩
  | .arithmetic _, _ => none
  | .store name, ⟨value :: pending, sts⟩ => some ⟨pending, sts ++ [⟨name, .assign, value⟩]⟩
  | .store _, _ => none

/-- One line. -/
def line? (s : Lifting) (line : Text) : Option Lifting :=
  (Command.ofLine? line).bind fun c => step? c s

/-- The commands of some instructions. -/
def run? (code : StackCode) (s : Lifting) : Option Lifting :=
  code.foldlM (fun s i => step? i.command s) s

variable {code : StackCode} {pending : List Expr} {sts : List Stmt}

theorem run?_cons (i : Instruction) (code : StackCode) (s : Lifting) :
    run? (i :: code) s = (step? i.command s).bind (run? code) := List.foldlM_cons

theorem run?_append (code code' : StackCode) (s : Lifting) :
    run? (code ++ code') s = (run? code s).bind (run? code') := List.foldlM_append

/-- Reading the lines of code is going through its commands. -/
theorem foldlM_lines (h : ∀ i ∈ code, i.Readable) (s : Lifting) :
    code.text.lines.foldlM line? s = run? code s := by
  have hlines : code.text.lines = code.map Instruction.text :=
    Text.lines_flatMap fun i hi => Instruction.newline_not_mem_text (h i hi)
  rw [hlines]
  clear hlines
  induction code generalizing s with
  | nil => rfl
  | cons i code ih =>
    obtain ⟨hi, hcode⟩ := List.forall_mem_cons.mp h
    have hline : line? s i.text = step? i.command s := by
      rw [line?, Instruction.ofLine?_text hi, Option.bind_some]
    rw [List.map_cons, List.foldlM_cons, run?_cons, hline]
    exact bind_congr fun s' => ih hcode s'

/-- **The code of an expression** leaves the expression on the stack. -/
theorem run?_codeOnto {e : Expr} (he : e.FloatFree) (tail : StackCode) (pending : List Expr) :
    run? (e.codeOnto tail) ⟨pending, sts⟩ = run? tail ⟨e :: pending, sts⟩ := by
  -- as for values, the code of the right operand follows on a higher stack
  induction e generalizing tail pending with
  | int value => rfl
  | float value => exact he.elim
  | identifier name => rfl
  | binary left op right ihl ihr =>
    obtain ⟨hl, hr⟩ := he
    rw [Expr.codeOnto, ihl hl, ihr hr]
    rfl

/-- **The code of an assignment** adds the plain one and gives the stack
back. -/
theorem run?_stmt {st : Stmt} (h : st.value.FloatFree) :
    run? st.code ⟨pending, sts⟩ = some ⟨pending, sts ++ [st.expanded]⟩ := by
  rw [code_eq_codeOnto, run?_codeOnto (Stmt.floatFree_meaning h)]
  rfl

/-- **The code of a program** adds its assignments in their order. -/
theorem run?_program {p : Program} (h : p.FloatFree) :
    run? p.code ⟨pending, sts⟩ = some ⟨pending, sts ++ p.expanded.statements⟩ := by
  obtain ⟨statements⟩ := p
  induction statements generalizing sts with
  | nil =>
    rw [Program.expanded, List.map_nil, List.append_nil]
    rfl
  | cons st rest ih =>
    obtain ⟨hst, hrest⟩ := List.forall_mem_cons.mp h
    have hcode : Program.code ⟨st :: rest⟩ = st.code ++ Program.code ⟨rest⟩ := List.flatMap_cons
    rw [hcode, run?_append, run?_stmt hst, Option.bind_some, ih hrest, List.append_assoc]
    rfl

end Lifting

namespace Program

variable {p q : Program}

/-- Reads code back into plain assignments. -/
def ofCode? (t : Text) : Option Program :=
  (t.lines.foldlM Lifting.line? ⟨[], []⟩).map fun s => ⟨s.statements⟩

/-- **Code reads back** to its program with plain assignments. -/
theorem ofCode?_text (hf : p.FloatFree) (hn : ∀ name ∈ p.names, Text.NameLexeme name) :
    ofCode? p.code.text = some p.expanded := by
  rw [ofCode?, Lifting.foldlM_lines (readable_code hn), Lifting.run?_program hf]
  rfl

/-- **The text of the code determines the program** up to the way its
assignments are written. -/
theorem code_text_eq_iff (hp : p.FloatFree) (hq : q.FloatFree)
    (hpn : ∀ name ∈ p.names, Text.NameLexeme name)
    (hqn : ∀ name ∈ q.names, Text.NameLexeme name) :
    p.code.text = q.code.text ↔ p.expanded = q.expanded := by
  constructor
  · intro h
    have hread := ofCode?_text hp hpn
    rw [h, ofCode?_text hq hqn] at hread
    exact (Option.some.inj hread).symm
  · intro h
    rw [← code_expanded p, h, code_expanded]

/-- `store -= load * -3;` and its plain form have the same code, with the words
of instructions as names. -/
theorem code_text_eq_iff_words :
    (Program.code ⟨[⟨"store".toList, .subAssign,
        .binary (.identifier "load".toList) .mult (.int (-3))⟩]⟩).text =
      (Program.code ⟨[⟨"store".toList, .assign, .binary (.identifier "store".toList) .sub
        (.binary (.identifier "load".toList) .mult (.int (-3)))⟩]⟩).text := by
  have hstore : Text.NameLexeme "store".toList :=
    .mk (c := 's') (by decide) (List.all_eq_true.mp (by decide))
  have hload : Text.NameLexeme "load".toList :=
    .mk (c := 'l') (by decide) (List.all_eq_true.mp (by decide))
  refine (code_text_eq_iff ?_ ?_ ?_ ?_).mpr rfl
  · simp [FloatFree, Expr.FloatFree]
  · simp [FloatFree, Expr.FloatFree]
  · simpa [names, Stmt.names, Expr.names] using ⟨hstore, hload⟩
  · simpa [names, Stmt.names, Expr.names] using ⟨hstore, hload⟩

end Program

end StraightLine
