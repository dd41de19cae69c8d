import StraightLine.Toml.Quoted
import StraightLine.Toml.Scalar

/-!
# Reading TOML — lines of keys, values and headers

A text is a list of lines: a key with its value, a header, or nothing, each
with an optional comment. Values may go on over several lines inside brackets
and braces. A key has at most eighty parts, and brackets and braces nest
eighty deep at most.
-/

namespace StraightLine

namespace Toml

/-- The text without blanks at its start. -/
def skipLineBlanks (t : Text) : Text := t.dropWhile isLineBlank

/-- The text after a comment at its start. -/
def afterComment : Text → Except TomlError Text
  | '#' :: t =>
    let rest := t.dropWhile isLineChar
    match lineEnd? rest with
    | some _ => .ok rest
    | none => if rest.isEmpty then .ok [] else .error .badCharacter
  | t => .ok t

/-- The text after blanks, comments and line ends. The number bounds them. -/
def skipSpace : Nat → Text → Except TomlError Text
  | 0, t => .ok t
  | n + 1, t =>
    match skipLineBlanks t with
    | '#' :: t =>
      match afterComment ('#' :: t) with
      | .error e => .error e
      | .ok t => skipSpace n t
    | t =>
      match lineEnd? t with
      | some (_, t) => skipSpace n t
      | none => .ok t

/-- Blanks, comments and line ends, as many as there are. -/
def skipAllSpace (t : Text) : Except TomlError Text := skipSpace (t.length + 1) t

/-- The characters of a key without quotes. -/
def isKeyChar (c : Char) : Bool := c.isAlphanum || c == '_' || c == '-'

/-- One part of a key. -/
def readKeyPart (t : Text) : Except TomlError (Text × Text) :=
  match keyString? t with
  | some r => r
  | none =>
    match t.takeWhile isKeyChar with
    | [] => .error (.expected "key")
    | c :: key => .ok (c :: key, t.dropWhile isKeyChar)

/-- The most parts of a key, and the deepest nesting of a value. -/
def maxDepth : Nat := 80

/-- A key of at most so many parts, joined by dots. -/
def readParts : Nat → Text → Except TomlError (List Text × Text)
  | 0, _ => .error .tooDeep
  | n + 1, t => do
    let (part, t) ← readKeyPart (skipLineBlanks t)
    match skipLineBlanks t with
    | '.' :: t =>
      let (parts, t) ← readParts n t
      .ok (part :: parts, t)
    | t => .ok ([part], t)

/-- A key. -/
def readKey (t : Text) : Except TomlError (List Text × Text) := readParts maxDepth t

/-- Whether a character ends a word. -/
def endsWord (c : Char) : Bool := isSpace c || c == ',' || c == ']' || c == '}' || c == '#'

/-- A word; a date takes the time of day after a single blank with it. -/
def spanWord (t : Text) : Text × Text :=
  let word := t.takeWhile fun c => !endsWord c
  let rest := t.dropWhile fun c => !endsWord c
  match rest with
  | ' ' :: d :: more =>
    if afterDate? word = some [] ∧ d.isDigit then
      (word ++ ' ' :: (d :: more).takeWhile (fun c => !endsWord c),
        (d :: more).dropWhile fun c => !endsWord c)
    else (word, rest)
  | _ => (word, rest)

/-- What follows an equals sign. -/
def afterEquals (t : Text) : Except TomlError Text :=
  match skipLineBlanks t with
  | '=' :: t => .ok (skipLineBlanks t)
  | _ => .error (.expected "equals sign")

mutual

/-- A value inside `depth` brackets and braces. The number bounds the nesting
and the items before it. -/
def readValue : Nat → (depth : Nat) → Text → Except TomlError (Toml × Text)
  | 0, _, _ => .error .tooLong
  | n + 1, depth, t =>
    match quoted? t with
    | some r => r.map fun (s, t) => (.string s, t)
    | none =>
      match t with
      | '[' :: t =>
        if maxDepth ≤ depth then .error .tooDeep
        else (readItems n (depth + 1) t).map fun (items, t) => (.array items, t)
      | '\x7b' :: t =>
        if maxDepth ≤ depth then .error .tooDeep
        else (readFields n (depth + 1) [] t).map fun (fields, t) => (.table .inline fields, t)
      | t =>
        let (word, rest) := spanWord t
        match scalar? word with
        | some v => .ok (v, rest)
        | none => .error (.badScalar word)

/-- The items of an array up to its closing bracket. -/
def readItems : Nat → (depth : Nat) → Text → Except TomlError (List Toml × Text)
  | 0, _, _ => .error .tooLong
  | n + 1, depth, t => do
    match ← skipAllSpace t with
    | ']' :: t => .ok ([], t)
    | t =>
      let (v, t) ← readValue n depth t
      match ← skipAllSpace t with
      | ',' :: t =>
        let (vs, t) ← readItems n depth t
        .ok (v :: vs, t)
      | ']' :: t => .ok ([v], t)
      | _ => .error (.expected "comma or closing bracket")

/-- The fields of an inline table up to its closing brace, after those read
already. -/
def readFields : Nat → (depth : Nat) → Fields → Text → Except TomlError (Fields × Text)
  | 0, _, _, _ => .error .tooLong
  | n + 1, depth, fields, t => do
    match ← skipAllSpace t with
    | '\x7d' :: t => .ok (fields, t)
    | t =>
      let (key, t) ← readKey t
      let t ← afterEquals t
      let (v, t) ← readValue n depth t
      let fields ← assign key v fields
      match ← skipAllSpace t with
      | ',' :: t => readFields n depth fields t
      | '\x7d' :: t => .ok (fields, t)
      | _ => .error (.expected "comma or closing brace")

end

/-- The end of a line, after blanks and a comment. -/
def afterLine (t : Text) : Except TomlError Text := do
  let t ← afterComment (skipLineBlanks t)
  match lineEnd? t with
  | some (_, t) => .ok t
  | none => if t.isEmpty then .ok [] else .error (.expected "end of line")

/-- A header after its opening brackets. -/
def readHeader (closing : Text) (t : Text) : Except TomlError (List Text × Text) := do
  let (key, t) ← readKey t
  match Text.after? closing t with
  | some t => .ok (key, t)
  | none => .error (.expected "closing bracket")

/-- Lines after the table that is open at `path`. The number bounds the
lines. -/
def readLines : Nat → (path : List Text) → Fields → Text → Except TomlError Fields
  | 0, _, fields, t => if t.isEmpty then .ok fields else .error .tooLong
  | n + 1, path, fields, t => do
    match skipLineBlanks t with
    | [] => .ok fields
    | '[' :: '[' :: t =>
      let (path, t) ← readHeader [']', ']'] t
      readLines n path (← openItem path fields) (← afterLine t)
    | '[' :: t =>
      let (path, t) ← readHeader [']'] t
      readLines n path (← openTable path fields) (← afterLine t)
    | c :: t =>
      if c = '#' ∨ c = '\n' ∨ c = '\r' then readLines n path fields (← afterLine (c :: t))
      else
        let (key, t) ← readKey (c :: t)
        let t ← afterEquals t
        let (v, t) ← readValue (2 * t.length + 2) 0 t
        readLines n path (← within path (assign key v) fields) (← afterLine t)

/-- The fields of a text. A byte order mark at its start says nothing. -/
def ofText? (t : Text) : Except TomlError Fields :=
  let t := match t with
    | '\uFEFF' :: t => t
    | t => t
  readLines (t.length + 1) [] [] t

end Toml

end StraightLine
