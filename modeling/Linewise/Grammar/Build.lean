import Linewise.Grammar.Basic
import Linewise.Grammar.Description

/-!
# Building grammars

A description is built rule by rule, in order. The first check that fails ends the building, and its
error names the rule. For each rule the checks are, in this order: which flavour its patterns have,
how many there are, whether the pattern that enters and the one that closes compile, whether it has
labels and not more than its patterns have boundaries; and then its nested grammar, which is looked
up or built itself. How many rules there are is only checked when all of them have been built.

## Names

A nested grammar that is given by name is looked up by a *resolver*, which answers its number in a
table. Since looking a name up can mean building another grammar first, a resolver has a state, and
the state survives a failure: whoever started the building decides what to undo.

## Labels

Text that no rule matches has the default label of its grammar. A grammar that does not set one
takes that of the grammar around it, and the outermost one that of whoever builds it.

## Regular expressions

Which regular expressions compile, and how many boundaries they have, is up to the engine, so the
engine is a parameter of all that builds grammars.
-/

namespace Linewise

/-- The default label where nobody sets one. -/
def standardLabel : String := "default"

/-- A computation with a state that can fail, and whose state survives a failure. -/
abbrev Building (σ : Type) := ExceptT Error (StateM σ)

/-- What answers the number of a grammar for a name, or nothing for a name that nobody knows. -/
abbrev Resolver (σ : Type) := String → Building σ (Option Nat)

namespace Resolver

/-- The resolver that knows no name. -/
def none {σ : Type} : Resolver σ := fun _ => pure Option.none

/-- The resolver that answers each name by a fixed number. -/
def fixed {σ : Type} (numbers : String → Option Nat) : Resolver σ :=
  fun name => pure (numbers name)

end Resolver

namespace Building

variable {σ α : Type}

/-- A computation without a state. -/
def lift (x : Except Error α) : Building σ α := ExceptT.mk (pure x)

/-- Changes the error of a computation that fails. -/
def mapError (f : Error → Error) (x : Building σ α) : Building σ α :=
  ExceptT.mk (x.run >>= fun result => pure (result.mapError f))

end Building

/-- The error of an inline grammar, reported at the rule that holds it. An error that names no rule
stays as it is. -/
def Error.atRule (index : Nat) : Error → Error
  | .rule inner fault => .rule index (.inline inner fault)
  | e => e

/-- The flavours of patterns. -/
inductive Flavour where
  /-- Lua-style. -/
  | lua
  /-- Regular expressions. -/
  | regex
  deriving DecidableEq, Repr

section Engine

variable [Regex.Engine]

/-- Makes a pattern. -/
def Flavour.compile : Flavour → String → Except Error Pattern
  | .lua, source => .ok (.lua source)
  | .regex, source => (Error.ofCompile source (Regex.compile source)).map .regex

namespace RuleDescription

variable {δ : Type}

/-- The flavour and the texts of the patterns. -/
def sources (r : RuleDescription δ) : Except RuleFault (Flavour × List String) :=
  match r.pattern, r.regex with
  | some _, some _ => .error .bothFlavours
  | some patterns, none => .ok (.lua, patterns.toList)
  | none, some patterns => .ok (.regex, patterns.toList)
  | none, none => .error .noPattern

/-- The patterns: enter, close and escape. An escape is Lua-style whatever the others are. -/
def patterns (index : Nat) (r : RuleDescription δ) :
    Except Error (Pattern × Option Pattern × Option Pattern) := do
  match ← r.sources.mapError (.rule index) with
  | (flavour, [enter]) => return (← flavour.compile enter, none, none)
  | (flavour, [enter, close]) =>
    return (← flavour.compile enter, some (← flavour.compile close), none)
  | (flavour, [enter, close, escape]) =>
    return (← flavour.compile enter, some (← flavour.compile close), some (.lua escape))
  | (_, texts) => .error (.rule index (.patternCount texts.length))

/-- The first label, and those after it. -/
def labels (r : RuleDescription δ) : Except RuleFault (String × List String) :=
  match r.label with
  | none => .error .noLabel
  | some (.one label) => .ok (label, [])
  | some (.many []) => .error .emptyLabels
  | some (.many (label :: more)) => .ok (label, more)

/-- The greatest number of segments that a match of the patterns can have. -/
def segmentLimit (enter : Pattern) (close : Option Pattern) : Nat :=
  max enter.boundaryCount ((close.map Pattern.boundaryCount).getD 0)

/-- Builds a rule, its nested grammar apart. -/
def compile (index : Nat) (r : RuleDescription δ) : Except Error (Rule Grammar) := do
  let (enter, close, escape) ← r.patterns index
  let (label, moreLabels) ← r.labels.mapError (.rule index)
  let count := moreLabels.length + 1
  let limit := segmentLimit enter close
  if 1 < count && limit < count then .error (.rule index (.labelCount count limit))
  else return { enter, close, escape, label, moreLabels, nested := none }

end RuleDescription

variable {σ : Type} (resolve : Resolver σ)

mutual

/-- Builds a description inside of a grammar with the default label `inherited`. -/
def buildGrammar (inherited : String) : Description → Building σ Grammar
  | ⟨name, _, defaultLabel, rules, symbols⟩ => do
    let label := defaultLabel.getD inherited
    let rules ← buildRules label 0 rules
    Building.lift (Grammar.make name label rules symbols)

/-- Builds rules, of which the first has the given index. -/
def buildRules (label : String) (index : Nat) :
    List (RuleDescription Description) → Building σ (List (Rule Grammar))
  | [] => pure []
  | r :: rules => do
    let rule ← buildRule label index r
    let rules ← buildRules label (index + 1) rules
    return rule :: rules

/-- Builds the rule with the given index. -/
def buildRule (label : String) (index : Nat) :
    RuleDescription Description → Building σ (Rule Grammar)
  | ⟨pattern, regex, labels, nested⟩ => do
    let outline : RuleDescription Unit := ⟨pattern, regex, labels, none⟩
    let rule ← Building.lift (outline.compile index)
    let nested ← buildNested? label index nested
    return { rule with nested }

/-- Builds the nested grammar of the rule with the given index, if it has one. -/
def buildNested? (label : String) (index : Nat) :
    Option (NestedDescription Description) → Building σ (Option (Nested Grammar))
  | none => pure none
  | some nested => do return some (← buildNested label index nested)

/-- Builds or looks up the nested grammar of the rule with the given index. -/
def buildNested (label : String) (index : Nat) :
    NestedDescription Description → Building σ (Nested Grammar)
  | .named name => do
    match ← resolve name with
    | some id => return .shared id
    | none => Building.lift (.error (.rule index (.unresolved name)))
  | .inline d => do
    let grammar ← (buildGrammar label d).mapError (.atRule index)
    return .owned grammar

end

/-- Builds a description with a resolver that needs no state. -/
def Description.build (d : Description) (resolve : Resolver Unit) (label : String) :
    Except Error Grammar :=
  ((buildGrammar resolve label d).run.run ()).1

end Engine

end Linewise
