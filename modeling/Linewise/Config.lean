import Linewise.Folder
import Linewise.Grammar.Build
import Linewise.Toml.Document

/-!
# Configuration

The configuration is a TOML file in the home folder. It sets the label of text that no rule matches,
whether the built-in grammars are registered, and the folders to read further grammars from. Keys
that it does not know are ignored. A file that is missing or malformed is as good as an empty one.
-/

namespace Linewise

/-- The settings of the library. -/
structure Config where
  /-- The label of text that no rule matches, in grammars that do not set one. -/
  defaultLabel : String
  /-- Whether the built-in grammars are registered. -/
  builtinGrammars : Bool
  /-- The folders whose grammars are registered. -/
  grammarFolders : List String
  deriving DecidableEq, Repr

namespace Config

/-- The settings without a configuration. -/
def standard : Config := ⟨standardLabel, true, []⟩

/-- The name of the configuration file in the home folder. -/
def fileName : String := ".syntok.toml"

/-- Reads the value of a key, or takes `default` if it is missing. -/
def setting {α : Type} (read : Toml.Value → Option α) (default : α) (key : String)
    (es : List (String × Toml.Value)) : Option α :=
  match es.lookup key with
  | none => some default
  | some v => read v

/-- Reads a configuration. -/
def parse (text : String) : Except Error Config :=
  let read (es : List (String × Toml.Value)) : Option Config := do
    let defaultLabel ← setting Toml.Value.text? standard.defaultLabel "default-label" es
    let builtinGrammars ← setting Toml.Value.boolean? standard.builtinGrammars "builtin-grammars" es
    let grammarFolders ← setting Toml.Value.texts? standard.grammarFolders "grammar-dirs" es
    return ⟨defaultLabel, builtinGrammars, grammarFolders⟩
  match (Toml.readDocument text).bind read with
  | some c => .ok c
  | none => .error .malformed

/-- The settings of a user, given the home folder, if there is one. -/
def load (home : Option Folder) : Config :=
  match home with
  | none => standard
  | some folder =>
    match (folder.read fileName).bind parse with
    | .ok c => c
    | .error _ => standard

end Config
end Linewise
