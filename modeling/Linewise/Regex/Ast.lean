/-!
# The syntax of regular expressions

An expression as it was written, before it is given a meaning. Every node keeps the byte offset at
which it begins, because an error that is only found later (nesting too deep, a character that a
byte class cannot hold) is reported at that place.

Sets in brackets have a syntax of their own, `SetExpr`: unions of characters, ranges and named
classes, sets inside sets, and the three operators `&&`, `--` and `~~`.
-/

namespace Linewise
namespace Regex

/-- A mode that an expression can switch. -/
inductive Flag where
  /-- Letters match in both cases: `i`. -/
  | ignoreCase
  /-- The anchors `^` and `$` match at line ends: `m`. -/
  | multiLine
  /-- The dot matches a line feed: `s`. -/
  | dotNewline
  /-- Lazy and greedy change places: `U`. -/
  | swapGreed
  /-- Characters instead of bytes: `u`. -/
  | unicode
  /-- A carriage return belongs to a line end: `R`. -/
  | crlf
  /-- Blanks and comments in the expression are ignored: `x`. -/
  | ignoreSpace
  deriving DecidableEq, Repr

/-- One item of a list of flags. -/
inductive FlagItem where
  /-- A `-`: the flags after it are switched off. -/
  | negation
  /-- A flag. -/
  | flag (flag : Flag)
  deriving DecidableEq, Repr

/-- What a list of flags makes of one flag: on, off, or not mentioned. -/
def flagState (flag : Flag) : (negated : Bool) → List FlagItem → Option Bool
  | _, [] => none
  | _, .negation :: rest => flagState flag true rest
  | negated, .flag f :: rest => if f = flag then some !negated else flagState flag negated rest

/-- A condition on a position. -/
inductive Anchor where
  /-- The start of the text or of a line: `^`. -/
  | lineStart
  /-- The end of the text or of a line: `$`. -/
  | lineEnd
  /-- The start of the text: `\A`. -/
  | textStart
  /-- The end of the text: `\z`. -/
  | textEnd
  /-- The start or the end of a word: `\b`. -/
  | word
  /-- Neither the start nor the end of a word: `\B`. -/
  | notWord
  /-- The start of a word: `\<`. -/
  | wordStart
  /-- The end of a word: `\>`. -/
  | wordEnd
  /-- No word before the position: `\b` with `start-half` in braces. -/
  | wordStartHalf
  /-- No word after the position: `\b` with `end-half` in braces. -/
  | wordEndHalf
  deriving DecidableEq, Repr

/-- A class with a one-letter escape. -/
inductive PerlClass where
  /-- The digits: `\d`. -/
  | digit
  /-- The blanks: `\s`. -/
  | space
  /-- The characters of words: `\w`. -/
  | word
  deriving DecidableEq, Repr

/-- A named class in a set, such as `alpha`. -/
inductive PosixClass where
  /-- Letters and digits. -/
  | alnum
  /-- Letters. -/
  | alpha
  /-- All ASCII characters. -/
  | ascii
  /-- The space and the tab. -/
  | blank
  /-- Control characters. -/
  | cntrl
  /-- Digits. -/
  | digit
  /-- Visible characters. -/
  | graph
  /-- Lower-case letters. -/
  | lower
  /-- Visible characters and the space. -/
  | print
  /-- Punctuation. -/
  | punct
  /-- Blanks and line ends. -/
  | space
  /-- Upper-case letters. -/
  | upper
  /-- Letters, digits and the underscore. -/
  | word
  /-- Hexadecimal digits. -/
  | xdigit
  deriving DecidableEq, Repr

/-- A character that stands for itself. -/
structure Literal where
  /-- Where it begins. -/
  start : Nat
  /-- The character. -/
  char : Char
  /-- Whether it was written as `\x` with two digits, which can also name a byte. -/
  byteEscape : Bool
  deriving DecidableEq, Repr

/-- An operator between two sets. -/
inductive SetOp where
  /-- What is in both: `&&`. -/
  | intersection
  /-- What is in the left one alone: `--`. -/
  | difference
  /-- What is in one of them alone: `~~`. -/
  | symmetricDifference
  deriving DecidableEq, Repr

/-- What stands between the brackets of a set. -/
inductive SetExpr where
  /-- Nothing. -/
  | empty (start : Nat)
  /-- A character. -/
  | literal (literal : Literal)
  /-- A range of characters. -/
  | range (start : Nat) (first last : Literal)
  /-- A named class. -/
  | posix (start : Nat) (negated : Bool) (kind : PosixClass)
  /-- A class with a one-letter escape. -/
  | perl (start : Nat) (negated : Bool) (kind : PerlClass)
  /-- A class given by a Unicode property. -/
  | property (start : Nat)
  /-- A set in brackets. -/
  | bracketed (start : Nat) (negated : Bool) (inner : SetExpr)
  /-- Two or more of these side by side. -/
  | union (start : Nat) (items : List SetExpr)
  /-- Two sets and an operator. -/
  | binary (start : Nat) (op : SetOp) (left right : SetExpr)
  deriving Repr

/-- Where a set expression begins. -/
def SetExpr.start : SetExpr → Nat
  | .empty start => start
  | .literal l => l.start
  | .range start _ _ => start
  | .posix start _ _ => start
  | .perl start _ _ => start
  | .property start => start
  | .bracketed start _ _ => start
  | .union start _ => start
  | .binary start _ _ _ => start

/-- What a group does besides grouping. -/
inductive GroupKind where
  /-- It captures, as the group of this number. -/
  | capture (index : Nat)
  /-- It sets flags for its inside. -/
  | plain (flags : List FlagItem)
  deriving DecidableEq, Repr

/-- An expression as it was written. -/
inductive Ast where
  /-- Nothing. -/
  | empty (start : Nat)
  /-- Flags for the rest of the enclosing group. -/
  | flags (start : Nat) (items : List FlagItem)
  /-- A character. -/
  | literal (literal : Literal)
  /-- The dot. -/
  | dot (start : Nat)
  /-- A condition on the position. -/
  | anchor (start : Nat) (anchor : Anchor)
  /-- A class with a one-letter escape. -/
  | perl (start : Nat) (negated : Bool) (kind : PerlClass)
  /-- A class given by a Unicode property. -/
  | property (start : Nat)
  /-- A set in brackets. -/
  | set (start : Nat) (negated : Bool) (inner : SetExpr)
  /-- A repetition: at least `least` times, and at most `most` times if there is a limit. -/
  | repetition (start : Nat) (least : Nat) (most : Option Nat) (greedy : Bool) (inner : Ast)
  /-- A group. -/
  | group (start : Nat) (kind : GroupKind) (inner : Ast)
  /-- Two or more expressions in sequence. -/
  | concat (start : Nat) (items : List Ast)
  /-- Two or more alternatives. -/
  | alternation (start : Nat) (branches : List Ast)
  deriving Repr

/-- Where an expression begins. -/
def Ast.start : Ast → Nat
  | .empty start => start
  | .flags start _ => start
  | .literal l => l.start
  | .dot start => start
  | .anchor start _ => start
  | .perl start _ _ => start
  | .property start => start
  | .set start _ _ => start
  | .repetition start _ _ _ _ => start
  | .group start _ _ => start
  | .concat start _ => start
  | .alternation start _ => start

end Regex
end Linewise
