import Linewise.Carry
import Linewise.Error
import Linewise.Grammar.Symbols
import Linewise.Pattern

/-!
# Grammars

A grammar is a list of rules and a table of symbols. A rule enters where its first pattern matches.
Without anything else it is a token; with a pattern that closes it, it is a region, which can go on
over line ends; with a nested grammar, what follows is tokenized by that grammar until the rule
closes. An escape pattern keeps a region open where it would otherwise close.

A nested grammar is either owned by its rule, or shared: then the rule only holds a number, and a
*table* says which grammar has that number. Shared grammars can refer to each other and to
themselves. A number that the table does not know counts as no nested grammar at all.

A rule is *stateful* if it can leave something open at the end of a line. What comes after the last
stateful rule of a grammar cannot change the state that a line ends in.
-/

namespace Linewise

/-- The nested grammar of a rule. -/
inductive Nested (γ : Type) where
  /-- A grammar of its own. -/
  | owned (grammar : γ)
  /-- The grammar with this number in a table. -/
  | shared (id : Nat)

/-- A rule of a grammar. -/
structure Rule (γ : Type) where
  /-- Where the rule begins. -/
  enter : Pattern
  /-- Where the region of the rule ends. -/
  close : Option Pattern
  /-- What keeps the region open. It is tried before `close`. -/
  escape : Option Pattern
  /-- The label of the first segment of a match, and of the region. -/
  label : String
  /-- The labels of the segments after the first. -/
  moreLabels : List String
  /-- The nested grammar. -/
  nested : Option (Nested γ)

namespace Rule

variable {γ : Type}

/-- A token. -/
def token (enter : Pattern) (label : String) : Rule γ where
  enter
  close := none
  escape := none
  label
  moreLabels := []
  nested := none

/-- Gives the rule one label for each segment. Without any it keeps the labels it has. -/
def withLabels (r : Rule γ) : List String → Rule γ
  | [] => r
  | label :: moreLabels => { r with label, moreLabels }

/-- The labels of the segments, in order. -/
def labels (r : Rule γ) : List String := r.label :: r.moreLabels

/-- The label of one segment, if the rule has one for it. -/
def label? (r : Rule γ) (segment : Nat) : Option String := r.labels[segment]?

/-- Whether the rule can leave something open at the end of a line. -/
def isStateful (r : Rule γ) : Bool := r.close.isSome || r.nested.isSome

/-- The length of a list of rules up to its last stateful rule. -/
def statefulCount : List (Rule γ) → Nat
  | [] => 0
  | r :: rules =>
    match statefulCount rules with
    | 0 => if r.isStateful then 1 else 0
    | n + 1 => n + 2

end Rule

/-- A grammar. -/
structure Grammar where
  /-- Its name, if it has one. -/
  name : Option String
  /-- The label of text that no rule matches. -/
  defaultLabel : String
  /-- Its rules. The first one that matches is taken. -/
  rules : List (Rule Grammar)
  /-- The texts with a label of their own. -/
  symbols : Symbols

/-- A table of shared grammars. -/
abbrev Table := Nat → Option Grammar

namespace Table

/-- The table without grammars. -/
def empty : Table := fun _ => none

end Table

namespace Grammar

/-- A grammar of the given rules, unless they are more than a carry can tell apart. -/
def make (name : Option String) (defaultLabel : String) (rules : List (Rule Grammar))
    (symbols : List (String × String)) : Except Error Grammar :=
  if maxRules < rules.length then .error (.rule maxRules (.ruleCount rules.length))
  else .ok ⟨name, defaultLabel, rules, .ofList symbols⟩

/-- How many rules have to be tried to know the state that a line ends in. -/
def statefulCount (g : Grammar) : Nat := Rule.statefulCount g.rules

/-- The label of exactly this text, if the grammar has one for it. -/
def symbol? (g : Grammar) (t : Text) : Option String := g.symbols.find? t

/-- The nested grammar of a rule, if there is one and the table knows it. -/
def nested? (table : Table) (r : Rule Grammar) : Option Grammar :=
  match r.nested with
  | none => none
  | some (.owned g) => some g
  | some (.shared id) => table id

end Grammar
end Linewise
