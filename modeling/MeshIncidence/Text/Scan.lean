/-
# Tokens and lines

A text is read as tokens divided by blanks or as lines ended by line feeds, and
a reader may change between the two. A scan is a step of reading: it takes what
is left of the text and gives a value and what is left then, or it fails.

Every scan below leaves an end part of the text it was given, and every one that
succeeds in reading a token has taken at least one character.
-/

import MeshIncidence.Text.Blank
import MeshIncidence.Text.Number

namespace MeshIncidence

/-- The characters of a text stored in UTF-8. -/
def decodeText (bytes : ByteArray) : Result (List Char) :=
  match String.fromUTF8? bytes with
  | some text => .ok text.toList
  | none => refuse .notUnicode

/-- The first token of a text, empty if the text starts with a blank, and all
later tokens. -/
def splitWords : List Char → List Char × List (List Char)
  | [] => ([], [])
  | c :: text =>
    let (word, words) := splitWords text
    if isBlank c then ([], if word.isEmpty then words else word :: words)
    else (c :: word, words)

/-- The tokens of a text. -/
def words (text : List Char) : List (List Char) :=
  let (word, words) := splitWords text
  if word.isEmpty then words else word :: words

/-- What is left of a text after leading blanks. -/
def skipBlanks (text : List Char) : List Char := text.dropWhile isBlank

/-- What is left of a text after leading blanks and remarks. A remark starts with
the mark in the place of a token and goes on to the end of its line;
`inRemark` says that one has been started. -/
def skipRemarks (mark : Char) (inRemark : Bool) : List Char → List Char
  | [] => []
  | c :: text =>
    if inRemark then skipRemarks mark (c ≠ '\n') text
    else if isBlank c then skipRemarks mark false text
    else if c = mark then skipRemarks mark true text
    else c :: text

/-- A line without the carriage return that may precede its line feed. -/
def withoutReturn (line : List Char) : List Char :=
  if line.getLast? = some '\r' then line.dropLast else line

/-- The first line of a text and what follows its line feed; none if the text is
empty. -/
def takeLine? (text : List Char) : Option (List Char × List Char) :=
  if text.isEmpty then none
  else
    let (line, rest) := text.span (· ≠ '\n')
    some (withoutReturn line, rest.drop 1)

/-- The first token of a text and what follows it; none if only blanks are left. -/
def takeToken? (text : List Char) : Option (List Char × List Char) :=
  let text := skipBlanks text
  if text.isEmpty then none else some (text.span fun c => !isBlank c)

/-- A step of reading a text. -/
abbrev Scan (α : Type) := StateT (List Char) (Except Failure) α

namespace Scan

/-- Refuse the text. -/
def fail {α : Type} (defect : TextDefect) : Scan α := fun _ => refuse (.text defect)

/-- Pass over blanks. -/
def blanks : Scan Unit := modify skipBlanks

/-- Pass over blanks and remarks. -/
def remarks : Scan Unit := modify (skipRemarks '#' false)

/-- Read a line, or nothing at the end of the text. -/
def line? : Scan (Option (List Char)) := fun text =>
  match takeLine? text with
  | some (line, rest) => .ok (some line, rest)
  | none => .ok (none, text)

/-- Read a token, or nothing if only blanks are left. -/
def token? : Scan (Option (List Char)) := fun text =>
  match takeToken? text with
  | some (token, rest) => .ok (some token, rest)
  | none => .ok (none, [])

/-- Read a token as a value by a rule that accepts only some tokens. -/
def value {α : Type} (field : Field) (read? : List Char → Option α) : Scan α := do
  match ← token? with
  | none => fail (.missing field)
  | some token =>
    match read? token with
    | some value => return value
    | none => fail (.invalid field (String.ofList token))

/-- Read an index or a count. -/
def word (field : Field) : Scan Nat := value field readWord?

/-- Read a tag. -/
def signed (field : Field) : Scan Int := value field readSigned?

/-- Read a given keyword. -/
def keyword (expected : String) : Scan Unit := do
  match ← token? with
  | none => fail (.missingKeyword expected)
  | some token =>
    if String.ofList token = expected then return ()
    else fail (.unexpected expected (String.ofList token))

/-- Take an outcome that does not depend on the text. -/
def ofResult {α : Type} (result : Result α) : Scan α := fun text =>
  result.map fun value => (value, text)

/-- Repeat a scan a number of times. The number may be far larger than the text
allows: the first repetition that fails ends the rest. -/
def times {α : Type} (scan : Scan α) : Nat → Scan (List α)
  | 0 => return []
  | count + 1 => do
    let first ← scan
    let rest ← times scan count
    return first :: rest

end Scan

end MeshIncidence
