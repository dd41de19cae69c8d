import StraightLine.Decimal.Reading
import StraightLine.Log.Basic
import StraightLine.Pattern.Reader

/-!
# Log filters — which records are shown

A filter is written as directives between commas. A directive gives a level, a
topic, or a topic and its level after an equals sign; a topic without a level
is shown completely. In brackets a directive may ask for a span, of which
there are none, or for a field, and the one field of every record is its
message. Of the directives that are about a record the most specific one
decides: the one with the longest topic, then the one with the most fields,
then the last.

A directive is read character by character without the blanks around it, but
its parts are cut, by the places found so, from the text with its blanks.
Blanks in front therefore shift every part, and blanks behind belong to the
last one.
-/

namespace StraightLine

/-- How much is shown. -/
inductive LogLimit where
  | off
  | upTo (level : LogLevel)
  deriving DecidableEq, Repr

namespace LogLimit

/-- Whether a level is shown. -/
def admits : LogLimit → LogLevel → Bool
  | off, _ => false
  | upTo limit, level => level.verbosity ≤ limit.verbosity

/-- Every limit with its name, in the order of their numbers. -/
def all : List (String × LogLimit) :=
  [("off", off), ("error", upTo .error), ("warn", upTo .warn), ("info", upTo .info),
    ("debug", upTo .debug), ("trace", upTo .trace)]

/-- The limit of a number. -/
def ofNumber? (t : Text) : Option LogLimit :=
  let digits := match t with
    | '+' :: digits => digits
    | digits => digits
  if digits.isEmpty || !digits.all Char.isDigit then none
  else (all[Text.digitsValue digits]?).map Prod.snd

/-- The limit of a number or of a name in any case. -/
def ofText? (t : Text) : Option LogLimit :=
  (ofNumber? t).or
    ((all.find? fun entry => entry.1.toList == t.map Char.toLower).map Prod.snd)

end LogLimit

/-- What some records are limited to: those of topics whose names start with
`topic`, when they have all of `fields`. -/
structure LogDirective where
  topic : Text
  fields : List Text
  limit : LogLimit
  deriving DecidableEq, Repr

namespace LogDirective

/-- A directive that limits what is below a topic. -/
def below (topic : Text) (limit : LogLimit) : LogDirective := ⟨topic, [], limit⟩

/-- Whether a directive can start with a character other than a bracket. -/
def isStart (c : Char) : Bool := isAlphanumeric c || c == '-' || c == ':' || c == '_'

/-- The limit after an equals sign; without a word there is none. -/
def limitOf? : Text → Option LogLimit
  | [] => some (.upTo .trace)
  | word => LogLimit.ofText? word

/-- Whether a field can be asked for a value: a number, or a pattern that does
not ask where words start or end. -/
def isFieldValue (t : Text) : Bool :=
  (Double.ofText? t).isSome ||
    match Pattern.ofText? t with
    | .ok p => !p.looksAtWords
    | .error _ => false

/-- The part of a text between two places, counted in bytes. -/
def part? (t : Text) (first last : Nat) : Option Text :=
  (t.fromByte? first).bind fun t =>
    if (t.fitting (last - first)).byteSize = last - first then some (t.fitting (last - first))
    else none

/-- What the next character of a directive belongs to, and where that
started. -/
inductive Part where
  | start
  | topicOrLimit
  | span (first : Nat)
  | field (first : Nat)
  | fieldsRead
  | topicRead
  | limit (first : Nat)
  deriving DecidableEq, Repr

/-- A directive being read. What asks for a span or for the value of a field
is about no record. -/
structure Reading where
  part : Part
  topic : Text
  fields : List Text
  aboutRecords : Bool
  deriving DecidableEq, Repr

/-- Reads the character at a place of the directive `t`. -/
def read? (t : Text) (r : Reading) (place : Nat) (c : Char) : Option Reading :=
  match r.part, c with
  | .start, '[' => some { r with part := .span (place + 1) }
  | .start, c => if isStart c then some { r with part := .topicOrLimit } else none
  | .topicOrLimit, '=' =>
    (part? t 0 place).map fun topic => { r with part := .limit (place + 1), topic := topic }
  | .topicOrLimit, '[' =>
    (part? t 0 place).map fun topic => { r with part := .span (place + 1), topic := topic }
  | .span first, ']' =>
    (part? t first place).map fun _ => { r with part := .topicRead, aboutRecords := false }
  | .span first, '\x7b' =>
    (part? t first place).map fun span =>
      { r with part := .field (place + 1), aboutRecords := span.isEmpty }
  | .field first, '\x7d' =>
    match (part? t first place).map fun field => (field, Text.cutAt '=' field) with
    | some (_ :: _, [name]) => some { r with part := .fieldsRead, fields := [name] }
    | some (_ :: _, _ :: value :: _) =>
      if isFieldValue value then some { r with part := .fieldsRead, aboutRecords := false }
      else none
    | _ => none
  | .fieldsRead, ']' => some { r with part := .topicRead }
  | .topicRead, '=' => some { r with part := .limit (place + 1) }
  | .fieldsRead, _ => none
  | .topicRead, _ => none
  | .topicOrLimit, _ => some r
  | .span _, _ => some r
  | .field _, _ => some r
  | .limit _, _ => some r

/-- Reads the characters from a place on. -/
def readAll? (t : Text) : Reading → Nat → Text → Option Reading
  | r, _, [] => some r
  | r, place, c :: rest => (read? t r place c).bind fun r => readAll? t r (place + c.utf8Size) rest

/-- A directive, or nothing when it is not about records. -/
def ofText? (t : Text) : Option (Option LogDirective) := do
  let r ← readAll? t ⟨.start, [], [], true⟩ 0 t.trim
  let d : LogDirective ←
    match r.part with
    | .topicOrLimit =>
      match LogLimit.ofText? t with
      | some limit => some (below [] limit)
      | none => some (below t (.upTo .trace))
    | .topicRead => some ⟨r.topic, r.fields, .upTo .trace⟩
    | .limit first => do
      let limit ← limitOf? (← t.fromByte? first)
      pure ⟨r.topic, r.fields, limit⟩
    | _ => none
  return if r.aboutRecords then some d else none

/-- The fields of every record. -/
def recordFields : List Text := ["message".toList]

/-- Whether a directive is about a record. -/
def covers (d : LogDirective) (r : LogRecord) : Bool :=
  d.topic.isPrefixOf r.topic.name.toList && d.fields.all recordFields.contains

/-- Whether a directive is at most as specific as another one. -/
def yieldsTo (d e : LogDirective) : Bool :=
  if d.topic.byteSize = e.topic.byteSize then d.fields.length ≤ e.fields.length
  else d.topic.byteSize < e.topic.byteSize

end LogDirective

/-- Which records are shown. -/
abbrev LogFilter := List LogDirective

namespace LogFilter

/-- The more specific one of two directives, the later one when neither is. -/
def stronger (best : Option LogDirective) (d : LogDirective) : Option LogDirective :=
  match best with
  | none => some d
  | some b => if b.yieldsTo d then some d else some b

/-- The directive that decides about a record. -/
def deciding? (f : LogFilter) (r : LogRecord) : Option LogDirective :=
  (f.filter fun d => d.covers r).foldl stronger none

/-- Whether a record is shown. -/
def shows (f : LogFilter) (r : LogRecord) : Bool :=
  match f.deciding? r with
  | some d => d.limit.admits r.level
  | none => false

/-- What is shown when a filter has no directives. -/
def unwritten : LogFilter := [.below [] (.upTo .error)]

/-- The filter of a text. -/
def ofText? (t : Text) : Option LogFilter :=
  match (Text.cutAt ',' t).filter fun d => !d.isEmpty with
  | [] => some unwritten
  | ds => (ds.mapM LogDirective.ofText?).map fun ds => ds.filterMap id

/-- What is shown when no filter is asked for. -/
def standard (verbose : Bool) : LogFilter :=
  if verbose then [.below "osta".toList (.upTo .debug), .below [] (.upTo .info)]
  else [.below "osta".toList (.upTo .info)]

/-- The filter that is asked for, if it can be read. -/
def choose (verbose : Bool) (written : Option Text) : LogFilter :=
  (written.bind ofText?).getD (standard verbose)

end LogFilter

end StraightLine
