import Linewise.Folder
import Linewise.Grammar.Build
import Linewise.Grammar.Decode
import Linewise.Registry.Named
import Linewise.Tokenizer.Scan
import Linewise.Unicode.Lowercase

/-!
# The registry

A registry knows descriptions by name and builds them when they are first asked for. A description
can be registered in any order and can refer to others, to itself, or to names that are registered
later.

Built grammars are kept in *slots*, and the number of a slot is what other grammars refer to. A slot
is reserved before its grammar is built; so a grammar that refers to itself, or to one that refers
back to it, finds the slot and does not start over. Slots are never reused: when a name is
registered again, the next use of the name builds the new description in a new slot, and the old
slot keeps its grammar.

## Loading is all or nothing

Loading a name can build many grammars, and any of them can fail. Then everything that was added
since the loading began is taken away again: the slots from a mark on, and the names that refer to
them.

## The number of nested loadings

A grammar being built has its name in the index, so that a loading inside of it is always about a
name that is not there yet. Nested loadings are therefore about different descriptions, and there
can be no more of them than there are descriptions.
-/

namespace Linewise

/-- Grammars by name. -/
structure Registry where
  /-- The descriptions. -/
  descriptions : Named Description
  /-- The built grammars; a slot without one belongs to a grammar that is being built. -/
  slots : Array (Option Grammar)
  /-- The slots of the names that are built or being built. -/
  index : Named Nat
  /-- The names of the grammars for files, by extension in lower case. -/
  extensions : Named String
  /-- The label of text that no rule matches, in grammars that do not set one. -/
  defaultLabel : String

namespace Registry

/-- The registry without grammars. -/
def empty : Registry := ⟨[], #[], [], [], standardLabel⟩

/-- Changes the default label of grammars that are built from now on. -/
def withDefaultLabel (r : Registry) (label : String) : Registry := { r with defaultLabel := label }

/-- The grammar in a slot. -/
def grammar? (r : Registry) : Table := fun id => (r.slots[id]?).join

/-- The slot of a name that is built. -/
def slot? (r : Registry) (name : String) : Option Nat := r.index.find? name

/-- What lines are tokenized with in the grammar of a slot. -/
def tokenizer? (r : Registry) (id : Nat) : Option Tokenizer :=
  (r.grammar? id).map fun g => ⟨r.grammar?, g⟩

/-- The registered names, in increasing order. -/
def names (r : Registry) : List String := r.descriptions.names.mergeSort fun a b => a ≤ b

/-- The name of the grammar for a file. -/
def detect? (r : Registry) (path : String) : Option String :=
  (Path.extension? path).bind fun ext => r.extensions.find? (Unicode.lowercase ext)

/-! ## Registering -/

/-- Registers a description under its name. What was built under that name before stays in its slot,
but the name no longer refers to it. -/
def add (r : Registry) (name : String) (d : Description) : Registry where
  descriptions := r.descriptions.put name d
  slots := r.slots
  index := r.index.erase name
  extensions := d.extensions.foldl (fun es ext => es.put (Unicode.lowercase ext) name) r.extensions
  defaultLabel := r.defaultLabel

/-- Registers a description, and answers its name. -/
def register (d : Description) : Building Registry String := do
  match d.name with
  | none => throw .unnamed
  | some name =>
    modify fun r => r.add name d
    return name

/-- Registers a description in TOML. -/
def registerToml (text : String) : Building Registry String := do
  register (← Building.lift (Description.ofToml text))

/-! ## Loading -/

/-- Reserves a slot for a name. -/
def reserve (r : Registry) (name : String) : Registry :=
  { r with slots := r.slots.push none, index := r.index.put name r.slots.size }

/-- Puts a grammar into its slot. -/
def fill (r : Registry) (id : Nat) (g : Grammar) : Registry :=
  { r with slots := r.slots.setIfInBounds id (some g) }

/-- Takes away the slots from `mark` on, and the names that refer to them. -/
def rollBack (r : Registry) (mark : Nat) : Registry :=
  { r with slots := r.slots.take mark, index := r.index.filter fun x => x.2 < mark }

/-- Runs a computation that adds slots, and takes them away again if it fails. -/
def undoing {α : Type} (x : Building Registry α) : Building Registry α :=
  ExceptT.mk do
    let mark := (← get).slots.size
    let result ← x.run
    match result with
    | .ok _ => pure ()
    | .error _ => modify fun r => r.rollBack mark
    return result

/-- Looks up a name while a grammar is built: it is loaded if it is known at all. -/
def resolver (load : String → Building Registry Nat) : Resolver Registry := fun name => do
  let r ← get
  if r.index.has name || r.descriptions.has name then return some (← load name) else return none

section Engine

variable [Regex.Engine]

/-- Builds the grammar of a name in a new slot. -/
def buildSlot (load : String → Building Registry Nat) (name : String) : Building Registry Nat := do
  let r ← get
  match r.descriptions.find? name with
  | none => throw (.unknownGrammar name)
  | some d =>
    let id := r.slots.size
    modify fun r => r.reserve name
    let g ← buildGrammar (resolver load) r.defaultLabel d
    modify fun r => r.fill id g
    return id

/-- Loads a name with at most `n` loadings inside of each other. -/
def loadWithin : Nat → String → Building Registry Nat
  | 0, name => throw (.unknownGrammar name)
  | n + 1, name => do
    match (← get).slot? name with
    | some id => return id
    | none => undoing (buildSlot (loadWithin n) name)

/-- The slot of a name. Its grammar is built on first use. -/
def load (name : String) : Building Registry Nat := do
  loadWithin ((← get).descriptions.length + 1) name

/-- The slot of a name, or nothing for a name that is not known. -/
def resolve (name : String) : Building Registry (Option Nat) := resolver load name

/-- The slot of the grammar for a file, or nothing if no grammar is for such files. -/
def loadForPath (path : String) : Building Registry (Option Nat) := do
  match (← get).detect? path with
  | none => return none
  | some name => return some (← load name)

end Engine

end Registry

end Linewise
