import Linewise.Regex.CharSet
import Linewise.Regex.Cursor

/-!
# What an expression means

The modes of an expression are resolved here: each part of it is turned into a test on one character
or one byte, a condition on a position, or a combination of those. Flags hold from where they stand
to the end of the enclosing group, also across the alternatives in between.

Whether an expression can be given a meaning depends on what it may match. `strict` asks for more
than matching does: it also refuses what could match a part of a character. A pattern is compiled
without it, since texts need not be UTF-8; but the place that an error is reported at is the one
that the strict reading finds first.

A repetition of something that can only match the empty text is cut to at most one round. With it go
the captures of a part that is repeated zero times: they exist only in the text of the pattern.
-/

namespace Linewise
namespace Regex

/-- A condition on a position of the text. -/
inductive Look where
  /-- The start of the text. -/
  | textStart
  /-- The end of the text. -/
  | textEnd
  /-- The start of a line, where a carriage return may or may not be part of the line end. -/
  | lineStart (crlf : Bool)
  /-- The end of a line. -/
  | lineEnd (crlf : Bool)
  /-- A condition on the words around the position. -/
  | word (unicode : Bool) (kind : Anchor)
  deriving DecidableEq, Repr

/-- An expression with its modes resolved. -/
inductive Expr where
  /-- The empty text. -/
  | empty
  /-- One character of a set. -/
  | char (set : CharSet)
  /-- One byte of a set. -/
  | byte (set : CharSet)
  /-- A condition on the position. -/
  | look (look : Look)
  /-- A repetition. -/
  | repetition (least : Nat) (most : Option Nat) (greedy : Bool) (inner : Expr)
  /-- A capture. -/
  | capture (index : Nat) (inner : Expr)
  /-- A sequence. -/
  | concat (items : List Expr)
  /-- Alternatives, the preferred one first. -/
  | alternation (branches : List Expr)
  deriving Repr

mutual

/-- Whether the expression can only match the empty text, as far as its form tells. -/
def Expr.onlyEmpty : Expr → Bool
  | .empty => true
  | .char _ => false
  | .byte _ => false
  | .look _ => true
  | .repetition _ most _ inner => most.isSome && inner.onlyEmpty
  | .capture _ inner => inner.onlyEmpty
  | .concat items => allOnlyEmpty items
  | .alternation branches => allOnlyEmpty branches

/-- Whether each of the expressions can only match the empty text. -/
def allOnlyEmpty : List Expr → Bool
  | [] => true
  | e :: rest => e.onlyEmpty && allOnlyEmpty rest

end

mutual

/-- Whether the expression cannot match the empty text, as far as its form tells. -/
def Expr.neverEmpty : Expr → Bool
  | .empty => false
  | .char _ => true
  | .byte _ => true
  | .look _ => false
  | .repetition least _ _ inner => 0 < least && inner.neverEmpty
  | .capture _ inner => inner.neverEmpty
  | .concat items => anyNeverEmpty items
  | .alternation branches => allNeverEmpty branches

/-- Whether one of the expressions cannot match the empty text. -/
def anyNeverEmpty : List Expr → Bool
  | [] => false
  | e :: rest => e.neverEmpty || anyNeverEmpty rest

/-- Whether none of the expressions can match the empty text. -/
def allNeverEmpty : List Expr → Bool
  | [] => true
  | e :: rest => e.neverEmpty && allNeverEmpty rest

end

mutual

/-- The greatest number of a capture, `0` if there is none. -/
def Expr.lastCapture : Expr → Nat
  | .empty => 0
  | .char _ => 0
  | .byte _ => 0
  | .look _ => 0
  | .repetition _ _ _ inner => inner.lastCapture
  | .capture index inner => max index inner.lastCapture
  | .concat items => lastCaptureOf items
  | .alternation branches => lastCaptureOf branches

/-- The greatest number of a capture in several expressions. -/
def lastCaptureOf : List Expr → Nat
  | [] => 0
  | e :: rest => max e.lastCapture (lastCaptureOf rest)

end

mutual

/-- How many instructions the expression needs, at most. -/
def Expr.weight : Expr → Nat
  | .empty => 1
  | .char _ => 1
  | .byte _ => 1
  | .look _ => 1
  | .repetition least most _ inner => (max least (most.getD 0) + 1) * (inner.weight + 2)
  | .capture _ inner => inner.weight + 1
  | .concat items => weightOf items
  | .alternation branches => weightOf branches + 1

/-- How many instructions several expressions need, at most. -/
def weightOf : List Expr → Nat
  | [] => 1
  | e :: rest => e.weight + weightOf rest

end

/-- A repetition, cut to one round where more would change nothing. -/
def Expr.repeated (least : Nat) (most : Option Nat) (greedy : Bool) (inner : Expr) : Expr :=
  let (least, most) :=
    if inner.onlyEmpty then (min least 1, some (min (most.getD 1) 1)) else (least, most)
  if most = some 0 then .empty
  else if least = 1 && most = some 1 then inner
  else .repetition least most greedy inner

/-! ## Modes -/

/-- The modes that hold at a place. -/
structure Mode where
  /-- Letters match in both cases. -/
  ignoreCase : Bool
  /-- The anchors `^` and `$` match at line ends. -/
  multiLine : Bool
  /-- The dot matches a line feed. -/
  dotNewline : Bool
  /-- Lazy and greedy change places. -/
  swapGreed : Bool
  /-- Characters instead of bytes. -/
  unicode : Bool
  /-- A carriage return belongs to a line end. -/
  crlf : Bool
  deriving DecidableEq, Repr

namespace Mode

/-- How an expression begins: only `unicode` is on. -/
def initial : Mode := ⟨false, false, false, false, true, false⟩

/-- Switches what the flags mention. -/
def switch (m : Mode) (items : List FlagItem) : Mode where
  ignoreCase := (flagState .ignoreCase false items).getD m.ignoreCase
  multiLine := (flagState .multiLine false items).getD m.multiLine
  dotNewline := (flagState .dotNewline false items).getD m.dotNewline
  swapGreed := (flagState .swapGreed false items).getD m.swapGreed
  unicode := (flagState .unicode false items).getD m.unicode
  crlf := (flagState .crlf false items).getD m.crlf

end Mode

/-! ## Resolving -/

/-- What a literal names where bytes are meant: a byte beyond ASCII, or a character. -/
inductive LiteralMeaning where
  /-- A byte from `0x80` on. -/
  | byte (value : Nat)
  /-- A character. -/
  | char (code : Nat)

/-- What a literal names. Only an escape with two digits can name a byte beyond ASCII, and only
where bytes are meant. -/
def literalMeaning (strict : Bool) (m : Mode) (l : Literal) : Except Fault LiteralMeaning :=
  let code := l.char.toNat
  if !m.unicode && l.byteEscape && 0x7F < code && code ≤ 0xFF then
    if strict then refuse .invalidUtf8 l.start else .ok (.byte code)
  else .ok (.char code)

/-- Resolves a literal outside of sets. -/
def resolveLiteral (strict : Bool) (m : Mode) (l : Literal) : Except Fault Expr := do
  match ← literalMeaning strict m l with
  | .byte value => return .byte (.single value)
  | .char code =>
    if !m.ignoreCase then return .char (.single code)
    else if !m.unicode && 0x7F < code then refuse .unicodeNotAllowed l.start
    else return .char (.folded m.unicode (.single code))

/-- Resolves a literal inside a set: its code point or byte. -/
def resolveMember (strict : Bool) (m : Mode) (l : Literal) : Except Fault Nat := do
  if m.unicode then return l.char.toNat
  else
    match ← literalMeaning strict m l with
    | .byte value => return value
    | .char code => if 0x7F < code then refuse .unicodeNotAllowed l.start else return code

/-- Refuses a set of bytes that could match a part of a character, where that is asked for. -/
def checkBytes (strict : Bool) (m : Mode) (start : Nat) (s : CharSet) : Except Fault CharSet :=
  if strict && !m.unicode && !s.isAscii then refuse .invalidUtf8 start else .ok s

/-- Closes a set under case and then negates it, as asked for. -/
def finishSet (strict : Bool) (m : Mode) (start : Nat) (negated : Bool) (s : CharSet) :
    Except Fault CharSet :=
  checkBytes strict m start ((s.foldIf m.ignoreCase m.unicode).negateIf negated)

/-- Resolves a class with a one-letter escape. -/
def resolvePerl (strict : Bool) (m : Mode) (start : Nat) (negated : Bool) (kind : PerlClass) :
    Except Fault CharSet :=
  checkBytes strict m start ((CharSet.perl m.unicode kind).negateIf negated)

/-- Resolves a class given by a property. No property is known by name. -/
def resolveProperty (m : Mode) (start : Nat) : Except Fault CharSet :=
  if m.unicode then refuse .propertyNotFound start else refuse .unicodeNotAllowed start

mutual

/-- Resolves what stands between the brackets of a set. -/
def resolveSet (strict : Bool) (m : Mode) : SetExpr → Except Fault CharSet
  | .empty _ => .ok .none
  | .literal l => do return .single (← resolveMember strict m l)
  | .range _ first last => do
    return .range (← resolveMember strict m first) (← resolveMember strict m last)
  | .posix start negated kind => finishSet strict m start negated (.posix kind)
  | .perl start negated kind => resolvePerl strict m start negated kind
  | .property start => resolveProperty m start
  | .bracketed start negated inner => do
    finishSet strict m start negated (← resolveSet strict m inner)
  | .union _ items => resolveSets strict m items
  | .binary _ op left right => do
    let left ← resolveSet strict m left
    let right ← resolveSet strict m right
    return .apply op (left.foldIf m.ignoreCase m.unicode) (right.foldIf m.ignoreCase m.unicode)

/-- Resolves the members of a union. -/
def resolveSets (strict : Bool) (m : Mode) : List SetExpr → Except Fault CharSet
  | [] => .ok .none
  | e :: rest => do
    let first ← resolveSet strict m e
    return .union first (← resolveSets strict m rest)

end

/-- A test on one character or on one byte, whichever the mode is about. -/
def oneOf (m : Mode) (s : CharSet) : Expr := if m.unicode then .char s else .byte s

/-- What the dot accepts. -/
def dotSet (m : Mode) : CharSet :=
  if m.dotNewline then .compl .none
  else if m.crlf then .compl (.ofRanges [(0x0A, 0x0A), (0x0D, 0x0D)])
  else .compl (.single 0x0A)

/-- The condition that an anchor stands for. -/
def anchorLook (m : Mode) : Anchor → Look
  | .lineStart => if m.multiLine then .lineStart m.crlf else .textStart
  | .lineEnd => if m.multiLine then .lineEnd m.crlf else .textEnd
  | .textStart => .textStart
  | .textEnd => .textEnd
  | kind => .word m.unicode kind

mutual

/-- Resolves an expression in the given mode. The mode that holds behind it is part of the answer.
-/
def resolve (strict : Bool) (m : Mode) : Ast → Except Fault (Expr × Mode)
  | .empty _ => .ok (.empty, m)
  | .flags _ items => .ok (.empty, m.switch items)
  | .literal l => do return (← resolveLiteral strict m l, m)
  | .dot start =>
    if strict && !m.unicode then refuse .invalidUtf8 start else .ok (oneOf m (dotSet m), m)
  | .anchor _ kind => .ok (.look (anchorLook m kind), m)
  | .perl start negated kind => do
    return (oneOf m (← resolvePerl strict m start negated kind), m)
  | .property start => do return (oneOf m (← resolveProperty m start), m)
  | .set start negated inner => do
    return (oneOf m (← finishSet strict m start negated (← resolveSet strict m inner)), m)
  | .repetition _ least most greedy inner => do
    let (inner, m) ← resolve strict m inner
    return (.repeated least most (greedy != m.swapGreed) inner, m)
  | .group _ (.capture index) inner => do
    let (inner, _) ← resolve strict m inner
    return (.capture index inner, m)
  | .group _ (.plain items) inner => do
    let (inner, _) ← resolve strict (m.switch items) inner
    return (inner, m)
  | .concat _ items => do
    let (items, m) ← resolveAll strict m items
    return (.concat items, m)
  | .alternation _ branches => do
    let (branches, m) ← resolveAll strict m branches
    return (.alternation branches, m)

/-- Resolves expressions one after the other. -/
def resolveAll (strict : Bool) (m : Mode) : List Ast → Except Fault (List Expr × Mode)
  | [] => .ok ([], m)
  | a :: rest => do
    let (first, m) ← resolve strict m a
    let (rest, m) ← resolveAll strict m rest
    return (first :: rest, m)

end

/-- Resolves a whole expression. -/
def Expr.ofAst (strict : Bool) (a : Ast) : Except Fault Expr :=
  (resolve strict .initial a).map Prod.fst

end Regex
end Linewise
