import Linewise.Toml.Value

/-!
# Quoted strings

There are four kinds: in double quotes, where a backslash introduces an escape, and in single
quotes, where nothing does; and both either on one line or, with three quotes, on several. On
several lines a line feed right after the opening quotes does not count, a carriage return before a
line feed is dropped, and up to two quotes may stand before the closing ones and belong to the
string.

Control characters other than the tab are never allowed. An escape must name a character, so halves
of a surrogate pair are refused.
-/

namespace Linewise
namespace Toml

/-- A character that may stand in a comment or, quotes and backslashes apart, in a string: a tab or
anything that is no control character. -/
def isPlain (c : Char) : Bool := c == '\t' || (0x20 ≤ c.toNat && c.toNat ≠ 0x7F)

/-- A blank within a line. -/
def isBlank (c : Char) : Bool := c == ' ' || c == '\t'

/-- Removes a line end. -/
def newline? : List Char → Option (List Char)
  | '\n' :: rest => some rest
  | '\r' :: '\n' :: rest => some rest
  | _ => none

/-- Removes blanks. -/
def skipBlanks (cs : List Char) : List Char := cs.dropWhile isBlank

/-- Removes blanks and line ends, at most `n` of them. -/
def skipLines : Nat → List Char → List Char
  | 0, cs => cs
  | n + 1, cs =>
    match newline? cs with
    | some rest => skipLines n rest
    | none =>
      match cs with
      | c :: rest => if isBlank c then skipLines n rest else c :: rest
      | [] => []

/-- The value of a digit in a base up to 16. -/
def digit? (base : Nat) (c : Char) : Option Nat :=
  let value? :=
    if '0' ≤ c && c ≤ '9' then some (c.toNat - 0x30)
    else if 'a' ≤ c && c ≤ 'f' then some (c.toNat - 0x61 + 10)
    else if 'A' ≤ c && c ≤ 'F' then some (c.toNat - 0x41 + 10)
    else none
  value?.filter (· < base)

/-- The character with the code point `n`. -/
def scalar? (n : Nat) : Option Char :=
  if n < 0xD800 || (0xDFFF < n && n < 0x110000) then some (Char.ofNat n) else none

/-- Reads a character given by exactly `n` hexadecimal digits. -/
def readCode : Nat → (value : Nat) → List Char → Parsed Char
  | 0, value, cs => (scalar? value).map (·, cs)
  | _ + 1, _, [] => none
  | n + 1, value, c :: cs => (digit? 16 c).bind fun d => readCode n (value * 16 + d) cs

/-- Reads what follows a backslash. -/
def readEscape : List Char → Parsed Char
  | [] => none
  | c :: cs =>
    if c = 'b' then some ('\x08', cs)
    else if c = 't' then some ('\t', cs)
    else if c = 'n' then some ('\n', cs)
    else if c = 'f' then some ('\x0c', cs)
    else if c = 'r' then some ('\r', cs)
    else if c = '"' then some ('"', cs)
    else if c = '\\' then some ('\\', cs)
    else if c = 'u' then readCode 4 0 cs
    else if c = 'U' then readCode 8 0 cs
    else none

/-- Puts a character in front of what was read. -/
def Parsed.cons (c : Char) (p : Parsed (List Char)) : Parsed (List Char) :=
  p.map fun (cs, rest) => (c :: cs, rest)

/-- Reads the inside of a string on one line up to `quote`, at most `n` characters of it. `escapes`
says whether a backslash introduces an escape. -/
def readLine (quote : Char) (escapes : Bool) : Nat → List Char → Parsed (List Char)
  | 0, _ => none
  | _, [] => none
  | n + 1, c :: cs =>
    if c = quote then some ([], cs)
    else if escapes && c = '\\' then
      (readEscape cs).bind fun (d, rest) => (readLine quote escapes n rest).cons d
    else if isPlain c then (readLine quote escapes n cs).cons c
    else none

/-- Puts `n` copies of a character in front of what was read. -/
def consCopies (c : Char) : Nat → Parsed (List Char) → Parsed (List Char)
  | 0, p => p
  | n + 1, p => (consCopies c n p).cons c

/-- Reads the inside of a string on several lines up to three quotes, at most `n` characters of it.
-/
def readLines (quote : Char) (escapes : Bool) : Nat → List Char → Parsed (List Char)
  | 0, _ => none
  | _, [] => none
  | n + 1, c :: cs =>
    if c = quote then
      let quotes := (c :: cs).takeWhile (· == quote)
      if quotes.length < 3 then
        consCopies quote quotes.length (readLines quote escapes n ((c :: cs).drop quotes.length))
      else
        let taken := min quotes.length 5
        some (List.replicate (taken - 3) quote, (c :: cs).drop taken)
    else
      match newline? (c :: cs) with
      | some rest => (readLines quote escapes n rest).cons '\n'
      | none =>
        if escapes && c = '\\' then
          match newline? (skipBlanks cs) with
          | some rest => readLines quote escapes n (skipLines rest.length rest)
          | none => (readEscape cs).bind fun (d, rest) => (readLines quote escapes n rest).cons d
        else if isPlain c then (readLines quote escapes n cs).cons c
        else none

/-- Reads a string that may be on several lines, from its first quote on. -/
def readString (quote : Char) (cs : List Char) : Parsed String :=
  let escapes := quote == '"'
  let chars :=
    if [quote, quote, quote].isPrefixOf cs then
      let inside := cs.drop 3
      let inside := (newline? inside).getD inside
      readLines quote escapes (inside.length + 1) inside
    else readLine quote escapes cs.length (cs.drop 1)
  chars.map fun (chars, rest) => (String.ofList chars, rest)

end Toml
end Linewise
