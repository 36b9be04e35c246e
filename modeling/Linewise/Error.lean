import Linewise.Carry
import Linewise.Regex.Basic

/-!
# What can go wrong

Tokenizing never fails. Errors come from reading, building and loading grammars, and each says what
is wrong and, where there is one, at which place. The faults of a description are structural: they
name the rule by its index, counted from `0` in the grammar that was given; a fault inside an inline
grammar names the rule that holds that grammar, and then, in words, the rule inside of it.
-/

namespace Linewise

/-- What is wrong with a rule of a description. -/
inductive RuleFault where
  /-- It has patterns of both flavours. -/
  | bothFlavours
  /-- It has no pattern. -/
  | noPattern
  /-- It has no pattern in its list, or more than enter, close and escape. -/
  | patternCount (count : Nat)
  /-- It has no label. -/
  | noLabel
  /-- Its list of labels is empty. -/
  | emptyLabels
  /-- It has more labels than its patterns have boundaries. -/
  | labelCount (labels boundaries : Nat)
  /-- It refers to a grammar that nobody knows. -/
  | unresolved (name : String)
  /-- It is one rule more than a carry can tell apart. -/
  | ruleCount (count : Nat)
  /-- Rule `rule` of its inline grammar is at fault. -/
  | inline (rule : Nat) (fault : RuleFault)
  deriving DecidableEq, Repr

/-- The wording of a fault. -/
def RuleFault.reason : RuleFault → String
  | .bothFlavours => "both `pattern` and `regex` given"
  | .noPattern => "no `pattern` or `regex` given"
  | .patternCount count => "expected 1 to 3 patterns, found " ++ toString count
  | .noLabel => "no `type` given"
  | .emptyLabels => "empty `type` list"
  | .labelCount labels boundaries =>
    toString labels ++ " labels but the patterns produce at most " ++ toString boundaries ++
      " captures"
  | .unresolved name => "unresolved grammar `" ++ name ++ "`"
  | .ruleCount count =>
    toString count ++ " rules, at most " ++ toString maxRules ++ " fit in a line state"
  | .inline rule fault => "inline grammar rule " ++ toString rule ++ ": " ++ fault.reason

/-- Why a grammar could not be read, built or loaded. -/
inductive Error where
  /-- A regular expression does not compile; the engine says `message`, and the fault begins at
  `offset`. -/
  | compile {message : String} (pattern : String) (offset : Nat)
  /-- The rule with this index is at fault. -/
  | rule (index : Nat) (fault : RuleFault)
  /-- No grammar is registered under this name. -/
  | unknownGrammar (name : String)
  /-- A grammar without a name cannot be registered. -/
  | unnamed
  /-- The text of a description or of a configuration is not well formed, or not of the right shape.
  -/
  | malformed
  /-- A file or folder cannot be read. -/
  | unreadable
  deriving DecidableEq, Repr

/-- The wording of an error, where it is fixed. -/
def Error.message? : Error → Option String
  | @compile message pattern offset =>
    some ("error compiling regex '" ++ pattern ++ "': " ++ message ++ " at offset " ++
      toString offset)
  | .rule index fault => some ("rule " ++ toString index ++ ": " ++ fault.reason)
  | .unknownGrammar name => some ("No such grammar: " ++ name)
  | .unnamed => some "grammar has no name"
  | .malformed => none
  | .unreadable => none

/-- The error of a pattern that is refused. -/
def Error.ofRefusal (pattern : String) (refusal : Regex.Refusal) : Error :=
  @compile refusal.message pattern refusal.offset

/-- The error of a pattern that does not compile. -/
def Error.ofCompile {α : Type} (pattern : String) (r : Except Regex.Refusal α) : Except Error α :=
  r.mapError (.ofRefusal pattern)

end Linewise
