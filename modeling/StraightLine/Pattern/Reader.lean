import StraightLine.Pattern.Basic
import StraightLine.Text.Alphanumeric

/-!
# Reading patterns — from the written form to the expression

The written form has literals, escaped punctuation, `.`, bracketed sets with
classes and set operations in them, `\d`, `\w`, `\s` and their complements,
the repetitions `* + ? {n} {n,} {n,m}`, greedy or lazy, `|`, groups, `^`, `$`,
`\A`, `\z` and word boundaries, and the flags `i` (ignore case), `m` (`^` and
`$` at lines), `s` (`.` matches a line feed too) and `U` (repetitions are
lazy, and greedy where a `?` follows). There is no look-around and no
reference back to a group.

Rules could be written with a little more than that, which is not read here, and
a rule that is written so is refused: properties of characters (`\p{L}`, `\pL`,
`\P{L}`) count as unknown escapes, and the flags `x` (blanks and comments), `R`
(lines that end in two characters) and `u` switched off (`(?-u:…)`) as unknown
flags. No rule of the language is written with any of it.

The reader keeps a stack of the groups still open. A piece once read is
final except that a repetition sign takes the last piece back; a flag setting
is a piece of its own, which nothing can repeat. Each piece carries how deep
its parts are nested as written, which is limited.
-/

namespace StraightLine

/-- Why a text is no pattern. -/
inductive PatternError where
  | unclosedGroup
  | unopenedGroup
  | unclosedSet
  | emptyRange (first last : Char)
  | classInRange
  | danglingEscape
  | unknownEscape (c : Char)
  | badCodePoint
  | badBoundary
  | nothingToRepeat
  | unclosedCount
  | badCount
  | countOrder (low high : Nat)
  | unknownGroupForm
  | badGroupName
  | badFlag
  | tooDeep
  | tooLarge
  deriving DecidableEq, Repr

namespace PatternError

/-- The error in words. -/
def message : PatternError → String
  | unclosedGroup => "unclosed group"
  | unopenedGroup => "unopened group"
  | unclosedSet => "unclosed character class"
  | emptyRange _ _ => "invalid character class range, the start must be <= the end"
  | classInRange => "invalid range boundary, must be a literal"
  | danglingEscape => "incomplete escape sequence, reached end of pattern prematurely"
  | unknownEscape _ => "unrecognized escape sequence"
  | badCodePoint => "hexadecimal literal is not a Unicode scalar value"
  | badBoundary => "special word boundary is either unclosed or unrecognized"
  | nothingToRepeat => "repetition operator missing expression"
  | unclosedCount => "unclosed counted repetition"
  | badCount => "repetition quantifier expects a valid decimal"
  | countOrder _ _ => "invalid repetition count range, the start must be <= the end"
  | unknownGroupForm => "look-around and other special groups are not supported"
  | badGroupName => "invalid or repeated capture group name"
  | badFlag => "unrecognized, repeated or dangling flag"
  | tooDeep => "exceeds the maximum number of nested parentheses, brackets and repetitions"
  | tooLarge => "compiled pattern exceeds size limit"

end PatternError

namespace Pattern

/-- The settings that a pattern can change for what follows in its group. -/
structure Flags where
  ignoreCase : Bool
  multiLine : Bool
  dotAll : Bool
  swapGreed : Bool
  deriving DecidableEq, Repr

/-- The deepest nesting of a written pattern. -/
def maxDepth : Nat := 250

/-- A pattern read, and how deep its parts are nested as written: groups,
repetitions, sets, sequences and choices of two parts or more count. -/
structure Nested where
  pattern : Pattern
  depth : Nat
  deriving DecidableEq, Repr

namespace Nested

/-- The deepest of some patterns. -/
def deepest (ps : List Nested) : Nat := ps.foldl (fun n p => max n p.depth) 0

/-- The pattern one level further in. -/
def within (p : Nested) (f : Pattern → Pattern) : Nested := ⟨f p.pattern, p.depth + 1⟩

/-- Patterns one after the other. -/
def sequence : List Nested → Nested
  | [] => ⟨.empty, 0⟩
  | [p] => p
  | ps => ⟨.concat (ps.map pattern), deepest ps + 1⟩

/-- The first of several patterns that matches. -/
def choice : List Nested → Nested
  | [] => ⟨.empty, 0⟩
  | [p] => p
  | ps => ⟨.alternation (ps.map pattern), deepest ps + 1⟩

end Nested

/-- A piece of a sequence: a pattern, or a change of flags. -/
inductive Piece where
  | pattern (p : Nested)
  | setting
  deriving Repr

/-- What a piece matches. -/
def Piece.nested : Piece → Nested
  | pattern p => p
  | setting => ⟨.empty, 0⟩

/-- A sequence being read and the finished alternatives before it, both
latest first. -/
structure Branches where
  finished : List Nested
  pieces : List Piece
  deriving Repr

namespace Branches

/-- Nothing read yet. -/
def none : Branches := ⟨[], []⟩

/-- The current sequence as a pattern. -/
def current (b : Branches) : Nested := .sequence (b.pieces.reverse.map Piece.nested)

/-- Adds a piece. -/
def push (b : Branches) (piece : Piece) : Branches := { b with pieces := piece :: b.pieces }

/-- Ends the current alternative. -/
def bar (b : Branches) : Branches := ⟨b.current :: b.finished, []⟩

/-- All alternatives as one pattern. -/
def close (b : Branches) : Nested := .choice (b.current :: b.finished).reverse

end Branches

/-- A group that has been opened: its number if it remembers its match, the
flags to return to, and what was being read around it. -/
structure OpenGroup where
  index : Option Nat
  flags : Flags
  around : Branches

/-- The state of the reader. -/
structure Reading where
  opened : List OpenGroup
  branches : Branches
  flags : Flags
  groups : Nat
  names : List Text

namespace Reading

/-- Before the first character. -/
def start : Reading := ⟨[], Branches.none, ⟨false, false, false, false⟩, 0, []⟩

/-- Adds a pattern. -/
def push (r : Reading) (p : Pattern) (depth : Nat) : Reading :=
  { r with branches := r.branches.push (.pattern ⟨p, depth⟩) }

/-- Adds one character, in the case setting in force. -/
def pushChar (r : Reading) (c : Char) : Reading :=
  let s := CharSet.single c
  r.push (.ofSet (if r.flags.ignoreCase then s.foldClosure else s)) 0

/-- Repeats the last piece. -/
def repeatLast (r : Reading) (f : Pattern → Pattern) : Except PatternError Reading :=
  match r.branches.pieces with
  | .pattern p :: pieces =>
    if maxDepth ≤ p.depth then .error .tooDeep
    else .ok { r with branches := { r.branches with pieces := .pattern (p.within f) :: pieces } }
  | _ => .error .nothingToRepeat

/-- Opens a group. -/
def openGroup (r : Reading) (index : Option Nat) (inner : Flags) : Reading :=
  { r with
    opened := ⟨index, r.flags, r.branches⟩ :: r.opened
    branches := Branches.none
    flags := inner }

/-- Opens a group that remembers its match. -/
def openCapture (r : Reading) : Reading :=
  { r.openGroup (Option.some (r.groups + 1)) r.flags with groups := r.groups + 1 }

/-- Closes the innermost group. -/
def closeGroup (r : Reading) : Except PatternError Reading :=
  match r.opened with
  | [] => .error .unopenedGroup
  | g :: opened =>
    let body := r.branches.close.within fun p =>
      match g.index with
      | Option.some i => .group i p
      | Option.none => p
    .ok { r with opened := opened, branches := g.around.push (.pattern body), flags := g.flags }

/-- The pattern read, once every group is closed. -/
def finish (r : Reading) : Except PatternError Pattern :=
  match r.opened with
  | [] =>
    let p := r.branches.close
    if maxDepth < p.depth then .error .tooDeep else .ok p.pattern
  | _ :: _ => .error .unclosedGroup

end Reading

/-- What an escape stands for. -/
inductive Escaped where
  | char (c : Char)
  | set (s : CharSet)
  | look (l : Look)

/-- The characters it stands for, where it stands for some. -/
def Escaped.chars? : Escaped → Option CharSet
  | char c => some (CharSet.single c)
  | set s => some s
  | look _ => none

/-- The value of a hexadecimal digit. -/
def hexDigit? (c : Char) : Option Nat :=
  if c.isDigit then Option.some (c.toNat - '0'.toNat)
  else if 'a' ≤ c ∧ c ≤ 'f' then Option.some (c.toNat - 'a'.toNat + 10)
  else if 'A' ≤ c ∧ c ≤ 'F' then Option.some (c.toNat - 'A'.toNat + 10)
  else none

/-- The character of a code point written in hexadecimal digits. -/
def codePoint? (digits : Text) : Option Char :=
  if digits.isEmpty then none
  else
    (digits.foldlM (fun n c => (hexDigit? c).map (16 * n + ·)) 0).bind fun n =>
      if n.isValidChar then Option.some (Char.ofNat n) else none

/-- A code point in hexadecimal: in braces, or of a fixed number of digits. -/
def readCodePoint (width : Nat) : Text → Except PatternError (Escaped × Text)
  | '\x7b' :: t =>
    match t.dropWhile (· ≠ '\x7d'), codePoint? (t.takeWhile (· ≠ '\x7d')) with
    | _ :: t', Option.some c => .ok (.char c, t')
    | _, _ => .error .badCodePoint
  | t =>
    match codePoint? (t.take width) with
    | Option.some c =>
      if (t.take width).length < width then .error .badCodePoint else .ok (.char c, t.drop width)
    | none => .error .badCodePoint

/-- Whether a character can stand in the name of a word boundary. -/
def isBoundaryChar (c : Char) : Bool := c.isAlpha || c == '-'

/-- What follows `\b`: the kind of boundary in braces. Braces that start with
anything but a letter or hyphen are left for a count. -/
def readBoundary (t : Text) : Except PatternError (Escaped × Text) :=
  match t with
  | ['\x7b'] => .error .badBoundary
  | '\x7b' :: c :: rest =>
    if isBoundaryChar c then
      match String.ofList ((c :: rest).takeWhile isBoundaryChar),
          (c :: rest).dropWhile isBoundaryChar with
      | "start", '\x7d' :: t => .ok (.look .wordStart, t)
      | "end", '\x7d' :: t => .ok (.look .wordEnd, t)
      | "start-half", '\x7d' :: t => .ok (.look .wordStartHalf, t)
      | "end-half", '\x7d' :: t => .ok (.look .wordEndHalf, t)
      | _, _ => .error .badBoundary
    else .ok (.look .wordBoundary, t)
  | t => .ok (.look .wordBoundary, t)

/-- What follows a backslash. Punctuation and controls of ASCII stand for
themselves; letters, digits and angle brackets only where they have a
meaning. -/
def readEscape : Text → Except PatternError (Escaped × Text)
  | [] => .error .danglingEscape
  | 'd' :: t => .ok (.set CharSet.digits, t)
  | 'D' :: t => .ok (.set CharSet.digits.complement, t)
  | 'w' :: t => .ok (.set CharSet.wordChars, t)
  | 'W' :: t => .ok (.set CharSet.wordChars.complement, t)
  | 's' :: t => .ok (.set CharSet.blanks, t)
  | 'S' :: t => .ok (.set CharSet.blanks.complement, t)
  | 'A' :: t => .ok (.look .textStart, t)
  | 'z' :: t => .ok (.look .textEnd, t)
  | 'b' :: t => readBoundary t
  | 'B' :: t => .ok (.look .noWordBoundary, t)
  | '<' :: t => .ok (.look .wordStart, t)
  | '>' :: t => .ok (.look .wordEnd, t)
  | 'a' :: t => .ok (.char '\x07', t)
  | 'f' :: t => .ok (.char '\x0c', t)
  | 'n' :: t => .ok (.char '\n', t)
  | 'r' :: t => .ok (.char '\r', t)
  | 't' :: t => .ok (.char '\t', t)
  | 'v' :: t => .ok (.char '\x0b', t)
  | 'x' :: t => readCodePoint 2 t
  | 'u' :: t => readCodePoint 4 t
  | 'U' :: t => readCodePoint 8 t
  | c :: t =>
    if c.toNat < 0x80 ∧ ¬ c.isAlphanum then .ok (.char c, t) else .error (.unknownEscape c)

/-- The named classes of ASCII. -/
def namedClass? : String → Option (List (Char × Char))
  | "alnum" => some [('0', '9'), ('A', 'Z'), ('a', 'z')]
  | "alpha" => some [('A', 'Z'), ('a', 'z')]
  | "ascii" => some [('\x00', '\x7f')]
  | "blank" => some [('\t', '\t'), (' ', ' ')]
  | "cntrl" => some [('\x00', '\x1f'), ('\x7f', '\x7f')]
  | "digit" => some [('0', '9')]
  | "graph" => some [('!', '~')]
  | "lower" => some [('a', 'z')]
  | "print" => some [(' ', '~')]
  | "punct" => some [('!', '/'), (':', '@'), ('[', '\x60'), ('\x7b', '~')]
  | "space" => some [('\t', '\r'), (' ', ' ')]
  | "upper" => some [('A', 'Z')]
  | "word" => some [('0', '9'), ('A', 'Z'), ('_', '_'), ('a', 'z')]
  | "xdigit" => some [('0', '9'), ('A', 'F'), ('a', 'f')]
  | _ => none

/-- A set as a bracket gives it: closed under case where case is ignored, then
turned round where it is negated. -/
def bracketed (ignoreCase negated : Bool) (s : CharSet) : CharSet :=
  let s := if ignoreCase then s.foldClosure else s
  if negated then s.complement else s

/-- A named class such as `[:alpha:]` or `[:^alpha:]`, from behind its opening
bracket. -/
def readNamedClass? (ignoreCase : Bool) : Text → Option (CharSet × Text)
  | ':' :: t =>
    let (negated, t) := match t with
      | '^' :: t => (true, t)
      | t => (false, t)
    match namedClass? (String.ofList (t.takeWhile (· ≠ ':'))), t.dropWhile (· ≠ ':') with
    | some rs, ':' :: ']' :: t =>
      let s := CharSet.ofIntervals (rs.map fun r => (r.1.toNat, r.2.toNat))
      some (bracketed ignoreCase negated s, t)
    | _, _ => none
  | _ => none

/-- What two sets are put together by. -/
inductive SetOperation where
  | both
  | onlyFirst
  | exactlyOne
  deriving DecidableEq, Repr

/-- The set of two sets. -/
def SetOperation.apply : SetOperation → CharSet → CharSet → CharSet
  | both => CharSet.intersection
  | onlyFirst => CharSet.difference
  | exactlyOne => CharSet.symmetricDifference

/-- What has been read of a bracketed set: the operand in front with its
operation, and the members of the current operand with the depth of the
deepest. -/
structure SetReading where
  left : Option (CharSet × Nat × SetOperation)
  members : List CharSet
  depth : Nat

namespace SetReading

/-- Adds a member. -/
def add (r : SetReading) (s : CharSet) (depth : Nat) : SetReading :=
  { r with members := s :: r.members, depth := max r.depth depth }

/-- The set read so far, and its depth. Operations apply from left to right,
to operands closed under case where case is ignored. -/
def value (r : SetReading) (ignoreCase : Bool) : CharSet × Nat :=
  let s := CharSet.unionAll r.members
  let depth := if r.members.length ≤ 1 then r.depth else r.depth + 1
  match r.left with
  | none => (s, depth)
  | some (left, leftDepth, op) =>
    (if ignoreCase then op.apply left.foldClosure s.foldClosure else op.apply left s,
      max leftDepth depth + 1)

/-- Starts the operand behind an operation. -/
def operate (r : SetReading) (ignoreCase : Bool) (op : SetOperation) : SetReading :=
  let (s, depth) := r.value ignoreCase
  ⟨some (s, depth, op), [], 0⟩

end SetReading

/-- A character or a class in a bracketed set. -/
def readSetMember : Text → Except PatternError (Escaped × Text)
  | [] => .error .unclosedSet
  | '\\' :: t => readEscape t
  | c :: t => .ok (.char c, t)

/-- A member of a bracketed set: a range of two characters, a character or a
class. A hyphen in front of another one or of the closing bracket makes no
range. -/
def readSetRange (t : Text) : Except PatternError (CharSet × Text) := do
  let (first, t) ← readSetMember t
  let alone : Except PatternError (CharSet × Text) :=
    match first.chars? with
    | some s => .ok (s, t)
    | none => .error .classInRange
  match t with
  | '-' :: ']' :: _ => alone
  | '-' :: '-' :: _ => alone
  | '-' :: t =>
    match first, ← readSetMember t with
    | .char c, (.char d, t) =>
      if c.toNat ≤ d.toNat then .ok (CharSet.range c d, t) else .error (.emptyRange c d)
    | _, _ => .error .classInRange
  | _ => alone

mutual

/-- A bracketed set and its depth, from behind its opening bracket. Hyphens in
front stand for themselves, and so does a closing bracket that comes first.
The number bounds members and sets; twice the characters left is enough. -/
def readSet (ignoreCase : Bool) : Nat → Text → Except PatternError (CharSet × Nat × Text)
  | 0, _ => .error .unclosedSet
  | n + 1, t => do
    let (negated, t) := match t with
      | '^' :: t => (true, t)
      | t => (false, t)
    let (first, t) := match t with
      | ']' :: t => ([']'], t)
      | t => (t.takeWhile (· = '-'), t.dropWhile (· = '-'))
    let (r, t) ← readSetMembers ignoreCase n ⟨none, first.map CharSet.single, 0⟩ t
    let (s, depth) := r.value ignoreCase
    .ok (bracketed ignoreCase negated s, depth + 1, t)

/-- The members of a bracketed set up to its closing bracket. -/
def readSetMembers (ignoreCase : Bool) :
    Nat → SetReading → Text → Except PatternError (SetReading × Text)
  | 0, _, _ => .error .unclosedSet
  | _ + 1, _, [] => .error .unclosedSet
  | _ + 1, r, ']' :: t => .ok (r, t)
  | n + 1, r, '[' :: t =>
    match readNamedClass? ignoreCase t with
    | some (s, t) => readSetMembers ignoreCase n (r.add s 0) t
    | none => do
      let (s, depth, t) ← readSet ignoreCase n t
      readSetMembers ignoreCase n (r.add s depth) t
  | n + 1, r, '&' :: '&' :: t => readSetMembers ignoreCase n (r.operate ignoreCase .both) t
  | n + 1, r, '-' :: '-' :: t => readSetMembers ignoreCase n (r.operate ignoreCase .onlyFirst) t
  | n + 1, r, '~' :: '~' :: t => readSetMembers ignoreCase n (r.operate ignoreCase .exactlyOne) t
  | n + 1, r, c :: t => do
    let (s, t) ← readSetRange (c :: t)
    readSetMembers ignoreCase n (r.add s 0) t

end

/-- A decimal number with blanks around it; numbers have 32 bits. -/
def readCount (t : Text) : Option Nat × Text :=
  let t := t.dropWhile isBlank
  let digits := t.takeWhile Char.isDigit
  let n := digits.foldl (fun n c => 10 * n + (c.toNat - '0'.toNat)) 0
  (if digits.isEmpty ∨ Nat.pow 2 32 ≤ n then none else Option.some n,
    (t.dropWhile Char.isDigit).dropWhile isBlank)

/-- The numbers of a counted repetition, from behind the opening brace. The
bound is left out only where the brace follows the comma at once. -/
def readCounts (t : Text) : Except PatternError (Nat × Option Nat × Text) :=
  match readCount t with
  | (_, []) => .error .unclosedCount
  | (none, _) => .error .badCount
  | (Option.some low, '\x7d' :: t) => .ok (low, Option.some low, t)
  | (Option.some low, ',' :: '\x7d' :: t) => .ok (low, none, t)
  | (Option.some low, ',' :: t) =>
    match readCount t with
    | (Option.some high, '\x7d' :: t) =>
      if low ≤ high then .ok (low, Option.some high, t) else .error (.countOrder low high)
    | (Option.some _, _) => .error .unclosedCount
    | (none, _) => .error .badCount
  | (Option.some _, _) => .error .unclosedCount

/-- A question mark after a repetition turns its preference round. -/
def readGreed (swapped : Bool) : Text → Bool × Text
  | '?' :: t => (swapped, t)
  | t => (!swapped, t)

/-- Sets one flag. -/
def Flags.set? (f : Flags) (letter : Char) (on : Bool) : Option Flags :=
  match letter with
  | 'i' => some { f with ignoreCase := on }
  | 'm' => some { f with multiLine := on }
  | 's' => some { f with dotAll := on }
  | 'U' => some { f with swapGreed := on }
  | 'u' => if on then some f else none
  | _ => none

/-- Applies flag letters; those after a hyphen are switched off. No letter
comes twice, nor does the hyphen, and letters follow it. -/
def readFlags (f : Flags) (on : Bool) (seen : List Char) : Text → Except PatternError (Flags × Text)
  | [] => .error .unclosedGroup
  | c :: t =>
    if c = ':' ∨ c = ')' then if seen.head? = some '-' then .error .badFlag else .ok (f, c :: t)
    else if seen.contains c then .error .badFlag
    else if c = '-' then readFlags f false (c :: seen) t
    else
      match f.set? c on with
      | some f => readFlags f on (c :: seen) t
      | none => .error .badFlag

/-- Whether a text can name a group. -/
def isGroupName : Text → Bool
  | [] => false
  | c :: t =>
    (c == '_' || isAlphabetic c) &&
      t.all fun d => d == '_' || d == '.' || d == '[' || d == ']' || isAlphanumeric d

/-- A named group, from behind the opening angle bracket. -/
def openNamed (r : Reading) (t : Text) : Except PatternError (Reading × Text) :=
  let name := t.takeWhile (· ≠ '>')
  match t.dropWhile (· ≠ '>') with
  | [] => .error .badGroupName
  | _ :: t =>
    if isGroupName name ∧ ¬ r.names.contains name then
      .ok ({ r.openCapture with names := name :: r.names }, t)
    else .error .badGroupName

/-- What follows an opening parenthesis. -/
def readOpening (r : Reading) : Text → Except PatternError (Reading × Text)
  | '?' :: 'P' :: '<' :: t => openNamed r t
  | '?' :: '<' :: '=' :: _ => .error .unknownGroupForm
  | '?' :: '<' :: '!' :: _ => .error .unknownGroupForm
  | '?' :: '<' :: t => openNamed r t
  | '?' :: '=' :: _ => .error .unknownGroupForm
  | '?' :: '!' :: _ => .error .unknownGroupForm
  | '?' :: ')' :: _ => .error .nothingToRepeat
  | '?' :: t => do
    match ← readFlags r.flags true [] t with
    | (flags, ':' :: t) => .ok (r.openGroup none flags, t)
    | (flags, t) =>
      .ok ({ r with flags := flags, branches := r.branches.push .setting }, t.drop 1)
  | t => .ok (r.openCapture, t)

/-- Reads one construct and what stands behind it. -/
def readPiece (r : Reading) (c : Char) (t : Text) : Except PatternError (Reading × Text) :=
  let flags := r.flags
  match c with
  | '(' => readOpening r t
  | ')' => r.closeGroup.map fun r => (r, t)
  | '|' => .ok ({ r with branches := r.branches.bar }, t)
  | '[' => do
    let (s, depth, t) ← readSet flags.ignoreCase (2 * (t.length + 1)) t
    .ok (r.push (.ofSet s) depth, t)
  | '.' =>
    .ok (r.push (.set (if flags.dotAll then .all else (CharSet.single '\n').complement)) 0, t)
  | '^' => .ok (r.push (.look (if flags.multiLine then .lineStart else .textStart)) 0, t)
  | '$' => .ok (r.push (.look (if flags.multiLine then .lineEnd else .textEnd)) 0, t)
  | '\\' => do
    match ← readEscape t with
    | (.char c, t) => .ok (r.pushChar c, t)
    | (.set s, t) => .ok (r.push (.ofSet s) 0, t)
    | (.look l, t) => .ok (r.push (.look l) 0, t)
  | '*' => do
    let (greedy, t) := readGreed flags.swapGreed t
    .ok (← r.repeatLast (·.repeated greedy 0 none), t)
  | '+' => do
    let (greedy, t) := readGreed flags.swapGreed t
    .ok (← r.repeatLast (·.repeated greedy 1 none), t)
  | '?' => do
    let (greedy, t) := readGreed flags.swapGreed t
    .ok (← r.repeatLast (·.repeated greedy 0 (Option.some 1)), t)
  | '\x7b' => do
    let (low, high, t) ← readCounts t
    let (greedy, t) := readGreed flags.swapGreed t
    .ok (← r.repeatLast (·.repeated greedy low high), t)
  | c => .ok (r.pushChar c, t)

/-- Reads construct after construct. The number bounds them; the characters
left are always enough. -/
def readPieces : Nat → Reading → Text → Except PatternError Pattern
  | _, r, [] => r.finish
  | 0, _, _ :: _ => .error .unclosedGroup
  | n + 1, r, c :: t => do
    let (r, t) ← readPiece r c t
    readPieces n r t

/-- The pattern a text stands for. -/
def ofText? (t : Text) : Except PatternError Pattern := readPieces t.length Reading.start t

end Pattern

end StraightLine
