/-!
# TOML values

What a TOML document says, once its syntax is gone. Numbers with a fraction and dates are
recognised, but nothing here asks for their value, so they carry none. The entries of a table keep
the order in which they were written; their keys differ.
-/

namespace Linewise
namespace Toml

/-- A value of a document. -/
inductive Value where
  /-- A string. -/
  | text (value : String)
  /-- An integer. -/
  | integer (value : Int)
  /-- A number with a fraction or an exponent, an infinity, or no number. -/
  | float
  /-- A truth value, `true` or `false`. -/
  | boolean (value : Bool)
  /-- A date, a time, or both. -/
  | moment
  /-- An array. -/
  | array (items : List Value)
  /-- A table. -/
  | table (entries : List (String × Value))

namespace Value

/-- The text of a string. -/
def text? : Value → Option String
  | .text s => some s
  | _ => none

/-- The value of a boolean. -/
def boolean? : Value → Option Bool
  | .boolean b => some b
  | _ => none

/-- The items of an array. -/
def items? : Value → Option (List Value)
  | .array items => some items
  | _ => none

/-- The entries of a table. -/
def entries? : Value → Option (List (String × Value))
  | .table entries => some entries
  | _ => none

/-- The texts of an array of strings. -/
def texts? (v : Value) : Option (List String) := v.items?.bind fun items => items.mapM text?

end Value

/-- A reading of a part of a document: what was read, and what follows it. -/
abbrev Parsed (α : Type) := Option (α × List Char)

end Toml
end Linewise
