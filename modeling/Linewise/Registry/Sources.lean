import Linewise.Builtin.All
import Linewise.Config
import Linewise.Regex.Bundled
import Linewise.Registry.Basic

/-!
# Where grammars come from

Grammars are registered from files, from all the files of a folder, from the built-in collection, or
from all of these as a configuration says. A folder is registered in the order of its file names,
and only files whose extension is `toml`, in lower case, are looked at. The first file that fails
ends the registering; what was registered before it stays.

Whoever takes grammars from here has the bundled engine at hand to build them with.
-/

namespace Linewise
namespace Registry

/-- Registers the built-in grammars. -/
def registerBuiltins : Building Registry Unit := do
  for d in Builtin.all do
    let _ ← register d

/-- Registers the grammar in a file. -/
def registerFile (folder : Folder) (name : String) : Building Registry String := do
  registerToml (← Building.lift (folder.read name))

/-- Whether an entry is a file of a grammar. -/
def isGrammarFile (e : String × Entry) : Bool :=
  match e.2 with
  | .file _ => Path.extension? e.1 == some "toml"
  | .folder _ => false

/-- The names of the grammar files of a folder, in increasing order. -/
def grammarFiles (folder : Folder) : List String :=
  ((folder.filter isGrammarFile).map Prod.fst).mergeSort fun a b => a ≤ b

/-- Registers all grammar files of a folder, and answers the names of the grammars. -/
def registerFolder (folder : Folder) : Building Registry (List String) :=
  (grammarFiles folder).mapM (registerFile folder)

/-- Registers the folder that an entry is, if it is one. -/
def registerEntry : Option Entry → Building Registry (List String)
  | some (.folder folder) => registerFolder folder
  | some (.file _) => throw .unreadable
  | none => throw .unreadable

/-- The registry with the built-in grammars. -/
def withBuiltins : Except Error Registry :=
  match (registerBuiltins.run).run empty with
  | (.ok _, r) => .ok r
  | (.error e, _) => .error e

/-- Registers what a configuration asks for. `locate` finds the entries that its paths name. -/
def registerConfigured (c : Config) (locate : String → Option Entry) : Building Registry Unit := do
  if c.builtinGrammars then registerBuiltins
  for path in c.grammarFolders do
    let _ ← registerEntry (locate path)

/-- The registry that a configuration asks for. -/
def ofConfig (c : Config) (locate : String → Option Entry) : Except Error Registry :=
  match (registerConfigured c locate).run.run (empty.withDefaultLabel c.defaultLabel) with
  | (.ok _, r) => .ok r
  | (.error e, _) => .error e

end Registry
end Linewise
