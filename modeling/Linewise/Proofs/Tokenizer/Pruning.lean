import Linewise.Proofs.Grammar.References
import Linewise.Proofs.Grammar.Stateful
import Linewise.Proofs.Tokenizer.Bisimulation

/-!
# References that the table does not know

A rule may refer to a shared grammar by a number for which the table has no grammar, for instance
because the grammar is used on its own, without the registry that it was built in. Such a rule
counts as one without a nested grammar: with a close pattern it is a region, without one a token.

`Grammar.prune table g` is `g` without these references, at any depth of owned grammars, and
`Table.prune` does the same to all grammars of a table. Nothing else is taken away: the references
that are left are those that the table knows, in order (`Grammar.references_prune`).

## 1.  Pruning

What a rule opens is pruned when the rule is, and a rule opens something before if and only if it
does so afterwards (`Grammar.nested?_prune`). A table knows the same numbers before and afterwards,
so one pass over the grammars is enough.

## 2.  Full passes

Grammars and their pruned forms are in bisimulation, as far as a full pass can see. So they give the
same runs and the same carries, and resume to the same carry and depth (`Tokenizer.tokenize_prune`).

## 3.  Quick passes

A quick pass stops behind the last stateful rule, and a rule with a reference is stateful even if
the table does not know it. So a quick pass may try a token less after pruning. It cannot do so if
every rule with an unknown reference has a close pattern, since then the rule stays stateful
(`Tokenizer.equivalent_prune`).
-/

namespace Linewise

/-! ## 1.  Pruning -/

mutual

/-- The grammar without the references that the table does not know, at any depth. -/
def Grammar.prune (table : Table) : Grammar → Grammar
  | ⟨name, defaultLabel, rules, symbols⟩ =>
    ⟨name, defaultLabel, Rule.pruneAll table rules, symbols⟩

/-- The rules without these references. -/
def Rule.pruneAll (table : Table) : List (Rule Grammar) → List (Rule Grammar)
  | [] => []
  | r :: rules => r.prune table :: Rule.pruneAll table rules

/-- The rule without these references. -/
def Rule.prune (table : Table) : Rule Grammar → Rule Grammar
  | ⟨enter, close, escape, label, moreLabels, nested⟩ =>
    ⟨enter, close, escape, label, moreLabels, Nested.prune? table nested⟩

/-- The nested grammar of a rule without these references, if it has one. -/
def Nested.prune? (table : Table) : Option (Nested Grammar) → Option (Nested Grammar)
  | none => none
  | some nested => nested.prune table

/-- A nested grammar without these references, or nothing if it is one of them. -/
def Nested.prune (table : Table) : Nested Grammar → Option (Nested Grammar)
  | .owned g => some (.owned (g.prune table))
  | .shared id => if (table id).isSome then some (.shared id) else none

end

/-- The table whose grammars have no reference that it does not know. -/
def Table.prune (table : Table) : Table := fun id => (table id).map (Grammar.prune table)

/-- The tokenizer whose grammars have no reference that its table does not know. -/
def Tokenizer.prune (k : Tokenizer) : Tokenizer := ⟨k.table.prune, k.root.prune k.table⟩

variable {table : Table} {quick : Bool} {related : Grammar → Grammar → Prop} {g : Grammar}
  {r : Rule Grammar}

theorem Rule.pruneAll_eq_map (rules : List (Rule Grammar)) :
    Rule.pruneAll table rules = rules.map (Rule.prune table) := by
  induction rules with
  | nil => rw [pruneAll, List.map_nil]
  | cons r rules ih => rw [pruneAll, List.map_cons, ih]

theorem Grammar.rules_prune (g : Grammar) :
    (g.prune table).rules = g.rules.map (Rule.prune table) := by
  cases g
  rw [prune]
  exact Rule.pruneAll_eq_map _

theorem Rule.nested_prune (r : Rule Grammar) :
    (r.prune table).nested = r.nested.bind (Nested.prune table) := by
  cases r with
  | mk enter close escape label moreLabels nested =>
    rw [prune]
    cases nested with
    | none => rw [Nested.prune?, Option.bind_none]
    | some nested => rw [Nested.prune?, Option.bind_some]

/-- **A pruned rule opens the pruned form of what the rule opens**, and nothing if this opens
nothing. -/
theorem Grammar.nested?_prune (r : Rule Grammar) :
    Grammar.nested? table.prune (r.prune table) =
      (Grammar.nested? table r).map (Grammar.prune table) := by
  rw [nested?, nested?, Rule.nested_prune]
  cases r.nested with
  | none => rfl
  | some nested =>
    rw [Option.bind_some]
    cases nested with
    | owned g =>
      rw [Nested.prune]
      rfl
    | shared id =>
      show _ = (table id).map (prune table)
      rw [Nested.prune]
      cases hid : table id with
      | none => rfl
      | some g =>
        rw [Option.isSome_some, if_pos rfl]
        show (table id).map (prune table) = _
        rw [hid]

mutual

/-- **The references that are left are those that the table knows.** -/
theorem Grammar.references_prune (g : Grammar) :
    (g.prune table).references = g.references.filter fun id => (table id).isSome :=
  match g with
  | ⟨_, _, rules, _⟩ => by
    rw [Grammar.prune, Grammar.references, Grammar.references]
    exact Rule.allReferences_prune rules

theorem Rule.allReferences_prune (rules : List (Rule Grammar)) :
    Rule.allReferences (Rule.pruneAll table rules) =
      (Rule.allReferences rules).filter fun id => (table id).isSome :=
  match rules with
  | [] => by
    rw [Rule.pruneAll]
    rfl
  | r :: rules => by
    rw [Rule.pruneAll, Rule.allReferences, Rule.allReferences, List.filter_append,
      Rule.references_prune r, Rule.allReferences_prune rules]

theorem Rule.references_prune (r : Rule Grammar) :
    (r.prune table).references = r.references.filter fun id => (table id).isSome :=
  match r with
  | ⟨_, _, _, _, _, nested⟩ => by
    rw [Rule.prune, Rule.references, Rule.references]
    exact Nested.references?_prune nested

theorem Nested.references?_prune (nested : Option (Nested Grammar)) :
    Nested.references? (Nested.prune? table nested) =
      (Nested.references? nested).filter fun id => (table id).isSome :=
  match nested with
  | none => by
    rw [Nested.prune?]
    rfl
  | some nested => by
    rw [Nested.prune?]
    show _ = nested.references.filter _
    exact Nested.references_prune nested

theorem Nested.references_prune (nested : Nested Grammar) :
    Nested.references? (nested.prune table) =
      nested.references.filter fun id => (table id).isSome :=
  match nested with
  | .owned g => by
    rw [Nested.prune, Nested.references?, Nested.references, Nested.references]
    exact Grammar.references_prune g
  | .shared id => by
    rw [Nested.prune, Nested.references, List.filter_cons, List.filter_nil]
    by_cases hid : (table id).isSome = true
    · rw [if_pos hid, if_pos hid]
      rfl
    · rw [if_neg hid, if_neg hid]
      rfl

end

/-! ## 2.  Full passes -/

/-- The rule refers to a grammar that the table does not know. -/
def Rule.HasUnknown (table : Table) (r : Rule Grammar) : Prop :=
  r.nested.isSome = true ∧ Grammar.nested? table r = none

/-- A rule that refers to nothing unknown, or has a close pattern anyway, stays as stateful as it
is. -/
theorem Rule.isStateful_prune (h : r.HasUnknown table → r.close.isSome = true) :
    (r.prune table).isStateful = r.isStateful := by
  have hclose : (r.prune table).close = r.close := by
    cases r
    rw [prune]
  rw [isStateful, isStateful, hclose, nested_prune]
  cases hnested : r.nested with
  | none => rfl
  | some nested =>
    rw [Option.bind_some]
    cases nested with
    | owned g => rw [Nested.prune, Option.isSome_some, Option.isSome_some]
    | shared id =>
      rw [Nested.prune]
      cases hid : table id with
      | some g => rfl
      | none =>
        have hunknown : r.HasUnknown table := by
          refine ⟨by rw [hnested]; rfl, ?_⟩
          rw [Grammar.nested?, hnested]
          exact hid
        rw [h hunknown, Bool.true_or, Bool.true_or]

/-- A grammar and its pruned form say the same, if what the rules open and its pruned form are
related. -/
theorem Grammar.alike_prune
    (hnested : ∀ r ∈ g.rules, ∀ h, nested? table r = some h → related h (h.prune table))
    (hquick : quick = true → ∀ r ∈ g.rules, r.HasUnknown table → r.close.isSome = true) :
    Grammar.Alike quick table table.prune related g (g.prune table) := by
  have hrules : ∀ r ∈ g.rules, Rule.Alike quick table table.prune related r (r.prune table) := by
    intro r hr
    have hopens : Option.Rel related (nested? table r)
        (nested? table.prune (r.prune table)) := by
      rw [nested?_prune]
      cases hg : nested? table r with
      | none => exact .none
      | some h => exact .some (hnested r hr h hg)
    refine ⟨?_, ?_, ?_, ?_, ?_, fun hq => Rule.isStateful_prune (hquick hq r hr), hopens⟩ <;>
      cases r <;> rw [Rule.prune]
  refine ⟨?_, ?_, ?_⟩
  · cases g
    rw [prune]
  · cases g
    rw [prune]
  · rw [rules_prune, List.forall₂_map_right_iff]
    exact List.forall₂_same.mpr hrules

namespace Tokenizer

/-- A full pass cannot tell a grammar from its pruned form. -/
theorem bisimulation_prune (table : Table) :
    Grammar.Bisimulation false table table.prune fun _ g g' => g' = g.prune table := by
  refine Grammar.bisimulation_of_forall ?_
  rintro g _ rfl
  exact Grammar.alike_prune (fun _ _ _ _ => rfl) (fun hquick => absurd hquick (by decide))

/-- **References that the table does not know behave like no nested grammar.** Without them, at any
depth and in every grammar of the table, a full pass over a line gives the same runs and the same
carry, and every carry resumes to the same carry and as many open grammars. -/
theorem tokenize_prune (k : Tokenizer) :
    (∀ t c, k.prune.tokenize false t c = k.tokenize false t c) ∧
      ∀ c, (k.prune.resume c).2 = (k.resume c).2 ∧
        (k.prune.resume c).1.depth = (k.resume c).1.depth :=
  ⟨tokenize_eq_of_bisimulation (bisimulation_prune k.table) rfl,
    resume_of_bisimulation (bisimulation_prune k.table) rfl⟩

/-! ## 3.  Quick passes -/

/-- **If every rule with an unknown reference has a close pattern, quick passes agree as well.** -/
theorem equivalent_prune (k : Tokenizer)
    (hclose : ∀ g, Grammar.Opens k.table k.root g → ∀ r ∈ g.rules, r.HasUnknown k.table →
      r.close.isSome = true) :
    k.Equivalent k.prune := by
  have hbisimulation (quick : Bool) : Grammar.Bisimulation quick k.table k.table.prune
      fun _ g g' => Grammar.Opens k.table k.root g ∧ g' = g.prune k.table := by
    refine Grammar.bisimulation_of_forall ?_
    rintro g _ ⟨hopens, rfl⟩
    exact Grammar.alike_prune (fun r hr h hnested => ⟨.nested hopens hr hnested, rfl⟩)
      fun _ => hclose g hopens
  exact equivalent_of_bisimulation hbisimulation ⟨.root, rfl⟩

/-- A tokenizer for strings and for line comments, which refer to a grammar that is not there. -/
def detachedTokenizer : Tokenizer where
  table := Table.empty
  root :=
    { name := none
      defaultLabel := "default"
      rules :=
        [⟨.lua "\"", some (.lua "\""), none, "string", [], none⟩,
          ⟨.lua "//.*", none, none, "comment", [], some (.shared 0)⟩]
      symbols := .ofList [] }

/-- Pruning the line comments makes a quick pass take a quote in them for the beginning of a string.
-/
theorem quick_prune_ne :
    (detachedTokenizer.tokenize true (Text.ofString "// \"") .clear).carry = ⟨0⟩ ∧
      (detachedTokenizer.prune.tokenize true (Text.ofString "// \"") .clear).carry = ⟨1⟩ := by
  decide +kernel

end Tokenizer
end Linewise
