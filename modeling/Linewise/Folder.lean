import Linewise.Error
import Linewise.Text.Basic

/-!
# Folders and paths

Grammars and the configuration are read from files. A *folder* is all that a reading needs to know
of them: what is stored under which name. Everything that can go wrong with a file, from a missing
name to bytes that are not UTF-8, is the same error.

The language of a file is told by the extension of its path. A path is a sequence of names between
slashes, of which empty ones and single dots do not count. The extension is what follows the last
dot of the last name, unless that dot is the first character; two dots alone are no name at all.
-/

namespace Linewise

/-- What is stored under a name. -/
inductive Entry where
  /-- A file with these bytes. -/
  | file (content : Text)
  /-- A folder with these entries. -/
  | folder (entries : List (String × Entry))

/-- The entries of a folder, by name. -/
abbrev Folder := List (String × Entry)

/-- The text of an entry, if it is a file of valid UTF-8. -/
def Entry.text? : Entry → Except Error String
  | .file content =>
    match content.toString? with
    | some s => .ok s
    | none => .error .unreadable
  | .folder _ => .error .unreadable

/-- The text of the file with the given name. -/
def Folder.read (folder : Folder) (name : String) : Except Error String :=
  match List.lookup name folder with
  | some entry => entry.text?
  | none => .error .unreadable

namespace Path

/-- The last name of a path, if it has one. -/
def lastName? (path : String) : Option (List Char) :=
  let names := (path.toList.splitOn '/').filter fun name => name ≠ [] && name ≠ ['.']
  names.getLast?.filter (· ≠ ['.', '.'])

/-- The characters after the last dot, and whether any come before it. -/
def afterLastDot? (name : List Char) : Option (List Char) :=
  let reversed := name.reverse
  let extension := reversed.takeWhile (· ≠ '.')
  match reversed.dropWhile (· ≠ '.') with
  | [] => none
  | [_] => none
  | _ :: _ :: _ => some extension.reverse

/-- The extension of a path, if it has one. -/
def extension? (path : String) : Option String :=
  ((lastName? path).bind afterLastDot?).map String.ofList

end Path

end Linewise
