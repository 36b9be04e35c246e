import Linewise.Toml.Node
import Linewise.Toml.Number

/-!
# Reading a document

A document is a sequence of lines: blank lines and comments, headers of tables, and keys with their
values. The reader goes from line to line and keeps the tables that were built so far and the path
of the last header. A value may go on over several lines if it is an array or a string in three
quotes; everything else ends with its line.

Inline tables stay on one line and have no comma after their last entry. Arrays may have both, and
comments as well. Values nest at most `maxNesting` levels deep, and a key has fewer than that many
parts.
-/

namespace Linewise
namespace Toml

/-- The number of levels at which a value is refused for nesting too deep. -/
def maxNesting : Nat := 80

/-- A character of a key without quotes. -/
def isBare (c : Char) : Bool := c.isAlphanum || c == '-' || c == '_'

/-- Removes a comment, if there is one. -/
def skipComment (cs : List Char) : List Char :=
  match cs with
  | '#' :: rest => rest.dropWhile isPlain
  | _ => cs

/-- Removes the rest of a line: blanks, a comment, and the line end, unless the document ends. -/
def lineEnd? (cs : List Char) : Option (List Char) :=
  match skipComment (skipBlanks cs) with
  | [] => some []
  | rest => newline? rest

/-- Removes blanks, comments and line ends, at most `n` lines of them. -/
def skipGaps : Nat → List Char → Option (List Char)
  | 0, cs => some cs
  | n + 1, cs =>
    match skipBlanks cs with
    | '#' :: rest => (newline? (rest.dropWhile isPlain)).bind (skipGaps n)
    | cs =>
      match newline? cs with
      | some rest => skipGaps n rest
      | none => some cs

/-! ## Keys -/

/-- Reads one part of a key. -/
def readKeyPart (cs : List Char) : Parsed String :=
  match cs with
  | '"' :: rest =>
    (readLine '"' true cs.length rest).map fun (chars, rest) => (String.ofList chars, rest)
  | '\'' :: rest =>
    (readLine '\'' false cs.length rest).map fun (chars, rest) => (String.ofList chars, rest)
  | _ =>
    let chars := cs.takeWhile isBare
    if chars.isEmpty then none else some (String.ofList chars, cs.dropWhile isBare)

/-- Reads the parts of a key, with blanks around them, at most `n` parts. -/
def readKeyParts : Nat → List Char → Parsed (List String)
  | 0, _ => none
  | n + 1, cs =>
    (readKeyPart (skipBlanks cs)).bind fun (part, rest) =>
      match skipBlanks rest with
      | '.' :: rest => (readKeyParts n rest).map fun (parts, rest) => (part :: parts, rest)
      | rest => some ([part], rest)

/-- A key: its parts but the last, and the last. -/
structure Key where
  /-- All parts but the last. -/
  path : List String
  /-- The last part. -/
  name : String

/-- Splits the parts of a key. -/
def Key.ofParts? : List String → Option Key
  | [] => none
  | [name] => some ⟨[], name⟩
  | part :: rest => (Key.ofParts? rest).map fun k => ⟨part :: k.path, k.name⟩

/-- All parts of a key. -/
def Key.parts (k : Key) : List String := k.path ++ [k.name]

/-- Reads a key. -/
def readKey (cs : List Char) : Parsed Key :=
  (readKeyParts (maxNesting - 1) cs).bind fun (parts, rest) =>
    (Key.ofParts? parts).map fun key => (key, rest)

/-! ## Values -/

mutual

/-- Reads a value at the given level of nesting. `n` bounds the length of the reading. -/
def readValue : Nat → (depth : Nat) → List Char → Parsed Value
  | 0, _, _ => none
  | _, _, [] => none
  | n + 1, depth, c :: cs =>
    if c = '"' || c = '\'' then (readString c (c :: cs)).map fun (s, rest) => (.text s, rest)
    else if c = '[' then
      if maxNesting ≤ depth + 1 then none
      else (readItems n (depth + 1) cs).map fun (items, rest) => (.array items, rest)
    else if c = '\x7b' then
      if maxNesting ≤ depth + 1 then none
      else
        let inner := skipBlanks cs
        match inner with
        | '\x7d' :: rest => some (.table [], rest)
        | _ =>
          (readPairs n (depth + 1) [] inner).map fun (es, rest) => (.table (entryValues es), rest)
    else
      match c :: cs with
      | 't' :: 'r' :: 'u' :: 'e' :: rest => some (.boolean true, rest)
      | 'f' :: 'a' :: 'l' :: 's' :: 'e' :: rest => some (.boolean false, rest)
      | cs => readNumberOrMoment cs

/-- Reads the items of an array up to its closing bracket. -/
def readItems : Nat → (depth : Nat) → List Char → Parsed (List Value)
  | 0, _, _ => none
  | n + 1, depth, cs =>
    match skipGaps cs.length cs with
    | none => none
    | some (']' :: rest) => some ([], rest)
    | some cs =>
      match readValue n depth cs with
      | none => none
      | some (item, rest) =>
        match skipGaps rest.length rest with
        | some (',' :: rest) =>
          (readItems n depth rest).map fun (items, rest) => (item :: items, rest)
        | some (']' :: rest) => some ([item], rest)
        | _ => none

/-- Reads the entries of an inline table up to its closing brace, behind the entries `es`. -/
def readPairs : Nat → (depth : Nat) → (es : Entries) → List Char → Parsed Entries
  | 0, _, _, _ => none
  | n + 1, depth, es, cs =>
    match readKey cs with
    | some (key, '=' :: rest) =>
      match readValue n depth (skipBlanks rest) with
      | none => none
      | some (value, rest) =>
        match Entries.addValue key.path key.name value .stated es with
        | none => none
        | some es =>
          match skipBlanks rest with
          | ',' :: rest => readPairs n depth es rest
          | '\x7d' :: rest => some (es, rest)
          | _ => none
    | _ => none

end

/-! ## Lines -/

/-- A document under construction. -/
structure Draft where
  /-- What was built so far. -/
  entries : Entries
  /-- The path of the last header. -/
  header : List String

/-- Opens the table of a header. -/
def Draft.open? (d : Draft) (key : Key) (array : Bool) : Option Draft :=
  let change := if array then Entries.addRow key.name else Entries.stateTable key.name
  (d.entries.update false (fun _ es => change es) key.path .stated).map fun entries =>
    ⟨entries, key.parts⟩

/-- Adds a value to the table of the last header. -/
def Draft.add? (d : Draft) (key : Key) (value : Value) : Option Draft :=
  (d.entries.update false (Entries.addValue key.path key.name value) d.header .stated).map
    fun entries => { d with entries }

/-- Reads a header behind its opening brackets. -/
def readHeader (d : Draft) (array : Bool) (cs : List Char) : Parsed Draft :=
  (readKey cs).bind fun (key, rest) =>
    let closing := if array then [']', ']'] else [']']
    if closing.isPrefixOf rest then
      (lineEnd? (rest.drop closing.length)).bind fun rest =>
        (d.open? key array).map fun d => (d, rest)
    else none

/-- Reads a key and its value. -/
def readEntry (d : Draft) (cs : List Char) : Parsed Draft :=
  match readKey cs with
  | some (key, '=' :: rest) =>
    (readValue (2 * rest.length + 2) 0 (skipBlanks rest)).bind fun (value, rest) =>
      (lineEnd? rest).bind fun rest => (d.add? key value).map fun d => (d, rest)
  | _ => none

/-- Reads lines, at most `n` of them. -/
def readLinesOf : Nat → Draft → List Char → Option Draft
  | 0, d, cs => if cs.isEmpty then some d else none
  | n + 1, d, cs =>
    match skipBlanks cs with
    | [] => some d
    | '[' :: '[' :: rest =>
      (readHeader d true rest).bind fun (d, rest) => readLinesOf n d rest
    | '[' :: rest => (readHeader d false rest).bind fun (d, rest) => readLinesOf n d rest
    | '#' :: rest => (lineEnd? ('#' :: rest)).bind fun rest => readLinesOf n d rest
    | cs =>
      match newline? cs with
      | some rest => readLinesOf n d rest
      | none => (readEntry d cs).bind fun (d, rest) => readLinesOf n d rest

/-- Reads a document: its entries. A byte order mark at its beginning does not count. -/
def readDocument (s : String) : Option (List (String × Value)) :=
  let cs :=
    match s.toList with
    | '\ufeff' :: rest => rest
    | cs => cs
  (readLinesOf (cs.length + 1) ⟨[], []⟩ cs).map fun d => entryValues d.entries

end Toml
end Linewise
