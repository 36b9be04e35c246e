import Linewise.LuaPattern.Machine
import Linewise.Regex.Basic

/-!
# Patterns

The patterns of a grammar come in two flavours that answer the same question: whether the pattern
matches a text at a given position, and if so, at which *boundaries*. A boundary is a position in
the text. There is one for each capture group and a last one for the end of the match, and a rule
gives the stretches between them labels of their own.

A match is only tried at the position asked for, never further on.
-/

namespace Linewise

/-- A pattern of either flavour. -/
inductive Pattern where
  /-- A Lua-style pattern, given by its text. It always compiles. -/
  | lua (source : String)
  /-- A compiled regular expression. -/
  | regex (regex : Regex)

namespace Pattern

/-- The text of the pattern. -/
def source : Pattern → String
  | .lua source => source
  | .regex r => r.source

/-- The bytes of a Lua-style pattern. -/
def luaBytes (source : String) : LuaPattern.Source := (Text.ofString source).toList

/-- The number of boundaries of a match. -/
def boundaryCount : Pattern → Nat
  | .lua source => (luaBytes source).closeCount + 1
  | .regex r => r.boundaryCount

/-- The boundaries of a match at `offset`. -/
def boundariesAt? : Pattern → Text → Nat → Option (List Nat)
  | .lua source, t, offset => LuaPattern.boundariesAt? (luaBytes source) t offset
  | .regex r, t, offset => r.boundariesAt? t offset

end Pattern
end Linewise
