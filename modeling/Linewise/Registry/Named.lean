/-!
# Values by name

A list of pairs of a name and a value in which each name occurs once. `put` replaces the value of a
name or adds the name, `erase` removes it, and nothing else changes: the order of the names is the
order in which they were first added.
-/

namespace Linewise

/-- Values by name. -/
abbrev Named (α : Type) := List (String × α)

namespace Named

variable {α : Type}

/-- The value of a name. -/
def find? (xs : Named α) (name : String) : Option α := List.lookup name xs

/-- Whether a name has a value. -/
def has (xs : Named α) (name : String) : Bool := (xs.find? name).isSome

/-- Gives a name a value. -/
def put (name : String) (value : α) : Named α → Named α
  | [] => [(name, value)]
  | (k, v) :: rest => if k = name then (name, value) :: rest else (k, v) :: put name value rest

/-- Removes a name. -/
def erase (name : String) (xs : Named α) : Named α := xs.filter fun x => x.1 ≠ name

/-- The names, in the order in which they were added. -/
def names (xs : Named α) : List String := xs.map Prod.fst

end Named

end Linewise
