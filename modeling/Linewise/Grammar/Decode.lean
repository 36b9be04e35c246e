import Linewise.Error
import Linewise.Grammar.Description
import Linewise.Toml.Document

/-!
# Descriptions in TOML

A description is a table with the keys `name`, `extensions`, `default_label`, `rules` and `symbols`,
and a rule is a table with the keys `pattern`, `regex`, `type` and `syntax`. Every key may be
missing. At each level any other key is an error, and so is a value of the wrong type.

A rule and an inline grammar may also be written as an array that gives their parts in the order
above. What follows the parts in such an array is refused inside of an inline grammar and ignored
outside of one.
-/

namespace Linewise
namespace Description

open Toml (Value)

/-- Reads the value of a key that may be missing. -/
def readOptional {α : Type} (read : Value → Option α) : Option Value → Option (Option α)
  | none => some none
  | some v => (read v).map some

/-- Reads the value of a key whose absence means `default`. -/
def readOr {α : Type} (read : Value → Option α) (default : α) : Option Value → Option α
  | none => some default
  | some v => read v

/-- Reads a text or a list of texts. -/
def readOneOrMany : Value → Option OneOrMany
  | .text s => some (.one s)
  | v => v.texts?.map .many

/-- Reads a table of texts. -/
def readSymbols (v : Value) : Option (List (String × String)) :=
  v.entries?.bind fun es =>
    (es.mapM fun e : String × Value => e.2.text?.map (e.1, ·)).map sortSymbols

/-- The parts of a table with the given keys, in their order, or of an array that gives them by
position. `exact` refuses an array with more parts than there are keys. -/
def parts? (keys : List String) (exact : Bool) : Value → Option (List (Option Value))
  | .table es =>
    if es.all (fun e => e.1 ∈ keys) then some (keys.map fun key => es.lookup key) else none
  | .array items =>
    if exact && keys.length < items.length then none
    else some ((List.range keys.length).map fun i => items[i]?)
  | _ => none

/-- The keys of a description. -/
def keys : List String := ["name", "extensions", "default_label", "rules", "symbols"]

/-- The keys of a rule. -/
def ruleKeys : List String := ["pattern", "regex", "type", "syntax"]

/-- Reads the nested grammar of a rule: a name, or what `inline` reads. -/
def readNested (inline : Value → Option Description) (v : Value) :
    Option (NestedDescription Description) :=
  match v with
  | .text name => some (.named name)
  | v => (inline v).map .inline

/-- Reads a rule. -/
def readRule (inline : Value → Option Description) (exact : Bool) (v : Value) :
    Option (RuleDescription Description) :=
  match parts? ruleKeys exact v with
  | some [pattern, regex, label, nested] => do
    let pattern ← readOptional readOneOrMany pattern
    let regex ← readOptional readOneOrMany regex
    let label ← readOptional readOneOrMany label
    let nested ← readOptional (readNested inline) nested
    return ⟨pattern, regex, label, nested⟩
  | _ => none

/-- Reads a description whose inline grammars `inline` reads. -/
def readDescription (inline : Value → Option Description) (exact : Bool) (v : Value) :
    Option Description :=
  match parts? keys exact v with
  | some [name, extensions, defaultLabel, rules, symbols] => do
    let name ← readOptional Value.text? name
    let extensions ← readOr Value.texts? [] extensions
    let defaultLabel ← readOptional Value.text? defaultLabel
    let readRules (v : Value) := v.items?.bind fun items => items.mapM (readRule inline exact)
    let rules ← readOr readRules [] rules
    let symbols ← readOr readSymbols [] symbols
    return ⟨name, extensions, defaultLabel, rules, symbols⟩
  | _ => none

/-- Reads an inline description with inline descriptions at most `n` levels deep. -/
def readInline : Nat → Value → Option Description
  | 0, _ => none
  | n + 1, v => readDescription (readInline n) true v

/-- Reads a description from TOML text. Each inline description takes up some of the text, so the
length of the text bounds their depth. -/
def ofToml (text : String) : Except Error Description :=
  let read (es : List (String × Value)) :=
    readDescription (readInline text.length) false (.table es)
  match (Toml.readDocument text).bind read with
  | some d => .ok d
  | none => .error .malformed

end Description
end Linewise
