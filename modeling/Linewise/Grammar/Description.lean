/-!
# Descriptions of grammars

A description is what an author writes: pattern texts instead of patterns, names instead of
grammars, and optional parts wherever a grammar has a default. It may be wrong in many ways;
building it finds out.
-/

namespace Linewise

/-- A text, or a list of texts. A list of one text is not the same as the text alone. -/
inductive OneOrMany where
  /-- One text. -/
  | one (text : String)
  /-- A list of texts. -/
  | many (texts : List String)
  deriving DecidableEq, Repr

/-- All texts, in order. -/
def OneOrMany.toList : OneOrMany → List String
  | .one text => [text]
  | .many texts => texts

/-- How a rule says which grammar is nested in it. -/
inductive NestedDescription (δ : Type) where
  /-- By its name. -/
  | named (name : String)
  /-- By describing it in place. -/
  | inline (description : δ)
  deriving Repr

/-- The description of a rule. -/
structure RuleDescription (δ : Type) where
  /-- Lua-style patterns: enter, close and escape. -/
  pattern : Option OneOrMany
  /-- Regular expressions: enter and close; an escape is Lua-style all the same. -/
  regex : Option OneOrMany
  /-- One label, or one for each segment. -/
  label : Option OneOrMany
  /-- The nested grammar. -/
  nested : Option (NestedDescription δ)
  deriving Repr

/-- The description of a grammar. -/
structure Description where
  /-- Its name. -/
  name : Option String
  /-- The extensions of files in this language, without the dot. -/
  extensions : List String
  /-- The label of text that no rule matches. -/
  defaultLabel : Option String
  /-- Its rules. -/
  rules : List (RuleDescription Description)
  /-- The texts with a label of their own, in increasing order. -/
  symbols : List (String × String)

namespace Description

/-- The description of a grammar without anything. -/
def empty : Description := ⟨none, [], none, [], []⟩

/-- Puts a pair into a list in increasing order of the first components, behind those that are
equal. -/
def insertSymbol (p : String × String) : List (String × String) → List (String × String)
  | [] => [p]
  | q :: rest => if p.1 < q.1 then p :: q :: rest else q :: insertSymbol p rest

/-- The pairs in increasing order of their first components. -/
def sortSymbols (pairs : List (String × String)) : List (String × String) :=
  pairs.foldl (fun sorted p => insertSymbol p sorted) []

/-- Several texts with the same label. -/
def labelled (label : String) (texts : List String) : List (String × String) :=
  texts.map (·, label)

end Description

/-- A rule of Lua-style patterns with one label. -/
def RuleDescription.lua (patterns : OneOrMany) (label : String) : RuleDescription Description :=
  ⟨some patterns, none, some (.one label), none⟩

end Linewise
