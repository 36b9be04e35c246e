import Linewise.Grammar.Build
import Mathlib.Logic.Relation

/-!
# References, and what a description compiles to

A description refers to grammars by their names, a grammar refers to them by their numbers. Both can
do so inside of inline grammars, at any depth. `Description.references` and `Grammar.references`
list these names and numbers, in the order in which they are written.

`Description.CompilesTo numbers inherited d g` says which grammar `g` a description `d` describes,
if a name stands for its number in `numbers`, and if the grammar around it has the default label
`inherited`. The grammar follows the description rule by rule; where the description has a name, the
grammar has the number of that name, and where it has an inline description, the grammar has what
this one compiles to. How the building comes to the numbers, and in which state, is no part of it.
Which regular expressions compile is left to the engine.

A name is `Loadable` if every name that it leads to by references is described, and every
description compiles under some numbers. Nothing in that depends on what has been built.

## Main statements

* `CompilesTo.mono`: what a description compiles to stays the same when more names get numbers.
* `CompilesTo.map_references`: the numbers in the grammar are those of the names in the description,
  one by one.
-/

namespace Linewise

/-! ## References -/

mutual

/-- The names that a description refers to, at any depth, in order. -/
def Description.references : Description → List String
  | ⟨_, _, _, rules, _⟩ => RuleDescription.allReferences rules

/-- The names that some rules refer to. -/
def RuleDescription.allReferences : List (RuleDescription Description) → List String
  | [] => []
  | r :: rules => r.references ++ RuleDescription.allReferences rules

/-- The names that a rule refers to. -/
def RuleDescription.references : RuleDescription Description → List String
  | ⟨_, _, _, nested⟩ => NestedDescription.references? nested

/-- The names that the nested grammar of a rule refers to, if it has one. -/
def NestedDescription.references? : Option (NestedDescription Description) → List String
  | none => []
  | some nested => nested.references

/-- The names that a nested grammar refers to. -/
def NestedDescription.references : NestedDescription Description → List String
  | .named name => [name]
  | .inline d => d.references

end

mutual

/-- The numbers that a grammar refers to, at any depth, in order. -/
def Grammar.references : Grammar → List Nat
  | ⟨_, _, rules, _⟩ => Rule.allReferences rules

/-- The numbers that some rules refer to. -/
def Rule.allReferences : List (Rule Grammar) → List Nat
  | [] => []
  | r :: rules => r.references ++ Rule.allReferences rules

/-- The numbers that a rule refers to. -/
def Rule.references : Rule Grammar → List Nat
  | ⟨_, _, _, _, _, nested⟩ => Nested.references? nested

/-- The numbers that the nested grammar of a rule refers to, if it has one. -/
def Nested.references? : Option (Nested Grammar) → List Nat
  | none => []
  | some nested => nested.references

/-- The numbers that a nested grammar refers to. -/
def Nested.references : Nested Grammar → List Nat
  | .shared id => [id]
  | .owned g => g.references

end

theorem Description.references_eq (d : Description) :
    d.references = RuleDescription.allReferences d.rules := by
  cases d
  rfl

theorem RuleDescription.references_eq (r : RuleDescription Description) :
    r.references = NestedDescription.references? r.nested := by
  cases r
  rfl

/-! ## Names and numbers -/

/-- Every name that has a number keeps it. -/
def KeepsNumbers (numbers numbers' : String → Option Nat) : Prop :=
  ∀ name id, numbers name = some id → numbers' name = some id

theorem KeepsNumbers.refl (numbers : String → Option Nat) : KeepsNumbers numbers numbers :=
  fun _ _ h => h

variable {numbers numbers' numbers'' : String → Option Nat}

theorem KeepsNumbers.trans (h : KeepsNumbers numbers numbers')
    (h' : KeepsNumbers numbers' numbers'') : KeepsNumbers numbers numbers'' :=
  fun name id hid => h' name id (h name id hid)

/-! ## What a description compiles to -/

variable [Regex.Engine]

mutual

/-- The description `d`, inside of a grammar with the default label `inherited`, compiles to the
grammar `g`, if names have the given numbers. -/
inductive Description.CompilesTo (numbers : String → Option Nat) :
    String → Description → Grammar → Prop where
  /-- The rules compile one by one, and are not too many. -/
  | intro {inherited : String} {d : Description} {rules : List (Rule Grammar)}
      (hrules : RuleDescription.CompileTo numbers (d.defaultLabel.getD inherited) 0 d.rules rules)
      (hcount : rules.length ≤ maxRules) :
      Description.CompilesTo numbers inherited d
        ⟨d.name, d.defaultLabel.getD inherited, rules, .ofList d.symbols⟩

/-- The rules of a grammar with the default label `label`, the first of which has the given index,
compile to rules. -/
inductive RuleDescription.CompileTo (numbers : String → Option Nat) :
    String → Nat → List (RuleDescription Description) → List (Rule Grammar) → Prop where
  /-- There are none. -/
  | nil {label : String} {index : Nat} : RuleDescription.CompileTo numbers label index [] []
  /-- The first one compiles, without its nested grammar and with it, and so do the others. -/
  | cons {label : String} {index : Nat} {r : RuleDescription Description} {outline : Rule Grammar}
      {nested : Option (Nested Grammar)} {rest : List (RuleDescription Description)}
      {rules : List (Rule Grammar)} (houtline : r.compile index = .ok outline)
      (hnested : NestedDescription.CompilesTo? numbers label r.nested nested)
      (hrest : RuleDescription.CompileTo numbers label (index + 1) rest rules) :
      RuleDescription.CompileTo numbers label index (r :: rest) ({ outline with nested } :: rules)

/-- The nested grammar of a rule, if it has one, compiles to a nested grammar. -/
inductive NestedDescription.CompilesTo? (numbers : String → Option Nat) :
    String → Option (NestedDescription Description) → Option (Nested Grammar) → Prop where
  /-- There is none. -/
  | none {label : String} : NestedDescription.CompilesTo? numbers label none none
  /-- A name stands for its number. -/
  | named {label name : String} {id : Nat} (hid : numbers name = some id) :
      NestedDescription.CompilesTo? numbers label (some (.named name)) (some (.shared id))
  /-- An inline description inherits the label of the grammar around it. -/
  | inline {label : String} {d : Description} {g : Grammar}
      (hd : Description.CompilesTo numbers label d g) :
      NestedDescription.CompilesTo? numbers label (some (.inline d)) (some (.owned g))

end

/-! ### More names -/

mutual

/-- More names can have numbers. -/
theorem Description.CompilesTo.mono {label : String} {d : Description} {g : Grammar}
    (h : Description.CompilesTo numbers label d g)
    (hmore : KeepsNumbers numbers numbers') :
    Description.CompilesTo numbers' label d g :=
  match h with
  | .intro hrules hcount => .intro (hrules.mono hmore) hcount

theorem RuleDescription.CompileTo.mono {label : String} {index : Nat}
    {descriptions : List (RuleDescription Description)} {rules : List (Rule Grammar)}
    (h : RuleDescription.CompileTo numbers label index descriptions rules)
    (hmore : KeepsNumbers numbers numbers') :
    RuleDescription.CompileTo numbers' label index descriptions rules :=
  match h with
  | .nil => .nil
  | .cons houtline hnested hrest => .cons houtline (hnested.mono hmore) (hrest.mono hmore)

theorem NestedDescription.CompilesTo?.mono {label : String}
    {description : Option (NestedDescription Description)} {nested : Option (Nested Grammar)}
    (h : NestedDescription.CompilesTo? numbers label description nested)
    (hmore : KeepsNumbers numbers numbers') :
    NestedDescription.CompilesTo? numbers' label description nested :=
  match h with
  | .none => .none
  | .named hid => .named (hmore _ _ hid)
  | .inline hd => .inline (hd.mono hmore)

end

/-! ### The rules of both -/

/-- There are as many rules as are described. -/
theorem RuleDescription.CompileTo.length_eq {label : String} {index : Nat}
    {descriptions : List (RuleDescription Description)} {rules : List (Rule Grammar)}
    (h : RuleDescription.CompileTo numbers label index descriptions rules) :
    rules.length = descriptions.length :=
  match h with
  | .nil => rfl
  | .cons _ _ hrest => congrArg Nat.succ hrest.length_eq

/-! ### The references of both -/

mutual

/-- **Each reference of the grammar is the number of the name at the same place.** -/
theorem Description.CompilesTo.map_references {label : String} {d : Description} {g : Grammar}
    (h : Description.CompilesTo numbers label d g) :
    g.references.map some = d.references.map numbers :=
  match h with
  | .intro hrules _ => by
    rw [d.references_eq]
    exact hrules.map_references

theorem RuleDescription.CompileTo.map_references {label : String} {index : Nat}
    {descriptions : List (RuleDescription Description)} {rules : List (Rule Grammar)}
    (h : RuleDescription.CompileTo numbers label index descriptions rules) :
    (Rule.allReferences rules).map some =
      (RuleDescription.allReferences descriptions).map numbers :=
  match h with
  | .nil => rfl
  | .cons (r := r) _ hnested hrest => by
    rw [Rule.allReferences, Rule.references, RuleDescription.allReferences, r.references_eq,
      List.map_append, List.map_append, hnested.map_references, hrest.map_references]

theorem NestedDescription.CompilesTo?.map_references {label : String}
    {description : Option (NestedDescription Description)} {nested : Option (Nested Grammar)}
    (h : NestedDescription.CompilesTo? numbers label description nested) :
    (Nested.references? nested).map some =
      (NestedDescription.references? description).map numbers :=
  match h with
  | .none => rfl
  | .named hid => congrArg (fun number => [number]) hid.symm
  | .inline hd => hd.map_references

end

section

variable {label : String} {d : Description} {g : Grammar}

/-- Every name has a number. -/
theorem Description.CompilesTo.isSome_of_mem (h : d.CompilesTo numbers label g) {name : String}
    (hname : name ∈ d.references) : (numbers name).isSome = true := by
  have hmem : numbers name ∈ g.references.map some := by
    rw [h.map_references]
    exact List.mem_map_of_mem hname
  obtain ⟨id, -, hid⟩ := List.mem_map.mp hmem
  rw [← hid, Option.isSome_some]

/-- Every number is that of a name. -/
theorem Description.CompilesTo.exists_name_of_mem (h : d.CompilesTo numbers label g) {id : Nat}
    (hid : id ∈ g.references) : ∃ name ∈ d.references, numbers name = some id := by
  have hmem : some id ∈ d.references.map numbers := by
    rw [← h.map_references]
    exact List.mem_map_of_mem hid
  exact List.mem_map.mp hmem

end

/-! ## Names that lead to other names -/

/-- The description of a name refers to another name. -/
def RefersTo (descriptions : String → Option Description) (name m : String) : Prop :=
  ∃ d, descriptions name = some d ∧ m ∈ d.references

/-- Every name that is reached by references has a description, which compiles if the names in it
have some numbers. -/
def Loadable (descriptions : String → Option Description) (label name : String) : Prop :=
  ∀ k, Relation.ReflTransGen (RefersTo descriptions) name k →
    ∃ d numbers g, descriptions k = some d ∧ d.CompilesTo numbers label g

section

variable {descriptions : String → Option Description} {label name m : String}

theorem Loadable.of_refersTo (h : Loadable descriptions label name)
    (hm : RefersTo descriptions name m) : Loadable descriptions label m :=
  fun k hk => h k (hk.head hm)

theorem not_loadable_of_eq_none (h : descriptions name = none) :
    ¬ Loadable descriptions label name := by
  intro hload
  obtain ⟨d, _, _, hd, _⟩ := hload name .refl
  rw [h] at hd
  cases hd

end

end Linewise
