import StraightLine.Decimal.Double

/-!
# TOML — values, and how tables come about

A table remembers how it came about, because that decides what may still be
added to it: a header opens a table once, a table that only stands on the way
to another header may still get a header of its own, a table made by dotted
keys grows by dotted keys alone, and an inline table is complete.
-/

namespace StraightLine

/-- How a table came about. -/
inductive TableForm where
  | header
  | onTheWay
  | dotted
  | inline
  deriving DecidableEq, Repr

/-- A TOML value. -/
inductive Toml where
  | string (t : Text)
  | integer (n : Int)
  | float (x : Double)
  | boolean (b : Bool)
  | moment (t : Text)
  | array (items : List Toml)
  | table (form : TableForm) (fields : List (Text × Toml))
  | tables (items : List (List (Text × Toml)))
  deriving Repr

/-- Why a text is no TOML. -/
inductive TomlError where
  | expected (what : String)
  | badCharacter
  | badEscape
  | badScalar (t : Text)
  | duplicate (key : Text)
  | notATable (key : Text)
  | tooLong
  | tooDeep
  deriving DecidableEq, Repr

namespace TomlError

/-- The error in words. -/
def message : TomlError → String
  | expected what => s!"expected {what}"
  | badCharacter => "invalid character"
  | badEscape => "invalid escape sequence"
  | badScalar t => s!"invalid value '{String.ofList t}'"
  | duplicate key => s!"duplicate key '{String.ofList key}'"
  | notATable key => s!"'{String.ofList key}' cannot be extended"
  | tooLong => "nesting exceeds the text"
  | tooDeep => "nesting exceeds the limit"

end TomlError

namespace Toml

/-- The fields of a table. -/
abbrev Fields := List (Text × Toml)

/-- Changes the value of a key, or adds it at the end. -/
def alter (key : Text) (f : Option Toml → Except TomlError Toml) :
    Fields → Except TomlError Fields
  | [] => (f none).map fun v => [(key, v)]
  | (k, v) :: rest =>
    if k = key then (f (some v)).map fun v => (k, v) :: rest
    else (alter key f rest).map fun rest => (k, v) :: rest

/-- Changes the last item of a list of tables. -/
def alterLast (f : Fields → Except TomlError Fields) :
    List Fields → Except TomlError (List Fields)
  | [] => .ok []
  | [x] => (f x).map fun x => [x]
  | x :: y :: rest => (alterLast f (y :: rest)).map fun rest => x :: rest

/-- Goes on below a key of a header. -/
def belowKey (key : Text) (f : Fields → Except TomlError Fields) :
    Option Toml → Except TomlError Toml
  | none => (f []).map (table .onTheWay)
  | some (table .inline _) => .error (.notATable key)
  | some (table form fields) => (f fields).map (table form)
  | some (tables items) => (alterLast f items).map tables
  | some _ => .error (.notATable key)

/-- Opens the table of a header. -/
def openTable : (path : List Text) → Fields → Except TomlError Fields
  | [], fields => .ok fields
  | [key], fields =>
    alter key (fun
      | none => .ok (table .header [])
      | some (table .onTheWay inner) => .ok (table .header inner)
      | some _ => .error (.duplicate key)) fields
  | key :: next :: path, fields => alter key (belowKey key (openTable (next :: path))) fields

/-- Adds a table to the list of a header. -/
def openItem : (path : List Text) → Fields → Except TomlError Fields
  | [], fields => .ok fields
  | [key], fields =>
    alter key (fun
      | none => .ok (tables [[]])
      | some (tables items) => .ok (tables (items ++ [[]]))
      | some _ => .error (.duplicate key)) fields
  | key :: next :: path, fields => alter key (belowKey key (openItem (next :: path))) fields

/-- Goes to the table of a header that has been opened. -/
def within : (path : List Text) → (Fields → Except TomlError Fields) →
    Fields → Except TomlError Fields
  | [], f, fields => f fields
  | key :: path, f, fields => alter key (belowKey key (within path f)) fields

/-- Gives a dotted key its value. The table that holds the last part has to be
made by dotted keys; one on the way may also be on the way to a header, or the
last one of a list of tables. -/
def assign : (path : List Text) → Toml → Fields → Except TomlError Fields
  | [], _, fields => .ok fields
  | [key], v, fields =>
    alter key (fun
      | none => .ok v
      | some _ => .error (.duplicate key)) fields
  | key :: next :: path, v, fields =>
    alter key (fun
      | none => (assign (next :: path) v []).map (table .dotted)
      | some (table .dotted inner) => (assign (next :: path) v inner).map (table .dotted)
      | some (table .onTheWay inner) =>
        if path = [] then .error (.duplicate next)
        else (assign (next :: path) v inner).map (table .onTheWay)
      | some (tables items) =>
        if path = [] then .error (.duplicate next)
        else (alterLast (assign (next :: path) v) items).map tables
      | some _ => .error (.notATable key)) fields

end Toml

end StraightLine
