import Linewise.Proofs.Grammar.Stateful
import Linewise.Proofs.Tokenizer.Bisimulation

/-!
# Four levels of a grammar are all there is

Shared grammars can refer to each other in circles, so what a grammar opens is in general an
infinite tree. A tokenizer sees only the top of it: there are `maxDepth` levels, the root takes the
first one, and on the last one a nested grammar matters no more than by being there. So the grammars
can be written out, each rule owning a copy of what it opens, and the tree can be cut off below the
last level (`Grammar.unroll`). What comes of it is a finite grammar that needs no table.

At the cut each nested grammar is replaced by the empty one and not left out: a rule with a close
pattern is a token if it has a nested grammar, and a region if it has none. A reference that the
table does not know is kept as it is. Nothing is opened by it with the table or without, but a quick
pass still counts its rule as stateful.

The main statement is `Tokenizer.equivalent_unroll`. It is a bisimulation: a grammar that is open at
a level is related to its unrolling by as many levels as there are above.
-/

namespace Linewise

namespace Grammar

/-- The grammar without rules. -/
def empty : Grammar := ⟨none, "", [], .ofList []⟩

end Grammar

/-- The rule that owns what `inside` makes of its nested grammar, if it has one that the table
knows. -/
def Rule.own (table : Table) (inside : Grammar → Grammar) (r : Rule Grammar) : Rule Grammar :=
  match Grammar.nested? table r with
  | none => r
  | some g => { r with nested := some (.owned (inside g)) }

namespace Grammar

/-- The grammar whose rules own what `inside` makes of their nested grammars. -/
def own (table : Table) (inside : Grammar → Grammar) (g : Grammar) : Grammar :=
  { g with rules := g.rules.map (Rule.own table inside) }

/-- Writes out what a grammar opens, `n` levels deep. Below that, each nested grammar is replaced by
the empty one. -/
def unroll (table : Table) : Nat → Grammar → Grammar
  | 0 => own table fun _ => empty
  | n + 1 => own table (unroll table n)

end Grammar

variable {table : Table} {quick : Bool} {inside : Grammar → Grammar}
  {related : Grammar → Grammar → Prop} {r : Rule Grammar} {g : Grammar}

/-! ## One level -/

/-- Without a table, the rule opens what it owns. -/
theorem Grammar.nested?_own (table : Table) (inside : Grammar → Grammar) (r : Rule Grammar) :
    Grammar.nested? Table.empty (r.own table inside) = (Grammar.nested? table r).map inside := by
  rw [Rule.own]
  cases hnested : Grammar.nested? table r with
  | some g => rfl
  | none =>
    -- a reference that the table does not know is unknown without it, too
    rw [Grammar.nested?] at hnested
    rw [Grammar.nested?]
    split at hnested
    · next hnone => simp only [hnone, Option.map_none]
    · cases hnested
    · next id hshared =>
      simp only [hshared, Option.map_none]
      rfl

/-- A rule that owns its nested grammar does everything else as before. -/
theorem Rule.alike_own (hinside : ∀ g, related g (inside g)) (r : Rule Grammar) :
    Rule.Alike quick table Table.empty related r (r.own table inside) := by
  have hnested : Option.Rel related (Grammar.nested? table r)
      (Grammar.nested? Table.empty (r.own table inside)) := by
    rw [Grammar.nested?_own]
    cases Grammar.nested? table r with
    | none => exact .none
    | some g => exact .some (hinside g)
  have hstateful : (r.own table inside).isStateful = r.isStateful := by
    rw [Rule.own]
    cases hg : Grammar.nested? table r with
    | none => rfl
    | some g =>
      rw [Grammar.isStateful_of_nested? hg, Rule.isStateful, Option.isSome_some, Bool.or_true]
  refine ⟨?_, ?_, ?_, ?_, ?_, fun _ => hstateful, hnested⟩ <;>
    rw [Rule.own] <;> cases Grammar.nested? table r <;> rfl

theorem Grammar.alike_own (hinside : ∀ g, related g (inside g)) (g : Grammar) :
    Grammar.Alike quick table Table.empty related g (g.own table inside) := by
  refine ⟨rfl, rfl, ?_⟩
  show List.Forall₂ _ g.rules (g.rules.map (Rule.own table inside))
  rw [List.forall₂_map_right_iff]
  exact List.forall₂_same.mpr fun r _ => Rule.alike_own hinside r

/-! ## All levels -/

/-- A grammar that is open at a level, and its unrolling by at least as many levels as there are
above. -/
def Grammar.Unrolled (table : Table) (level : Nat) (g g' : Grammar) : Prop :=
  ∃ n, maxDepth ≤ level + n + 1 ∧ g' = g.unroll table n

/-- **An unrolling that is deep enough cannot be told from the grammar.** -/
theorem Grammar.bisimulation_unrolled (quick : Bool) (table : Table) :
    Grammar.Bisimulation quick table Table.empty (Grammar.Unrolled table) := by
  rintro level g _ ⟨n, hn, rfl⟩
  cases n with
  | zero => exact Grammar.alike_own (fun _ hlevel => absurd hlevel (Nat.not_lt_of_le hn)) g
  | succ n => exact Grammar.alike_own (fun h _ => ⟨n, by omega, rfl⟩) g

namespace Tokenizer

/-- Unrolling by more levels than are needed changes nothing. -/
theorem equivalent_unroll_of_le (k : Tokenizer) {n : Nat} (hn : maxDepth ≤ n + 1) :
    k.Equivalent ⟨Table.empty, k.root.unroll k.table n⟩ :=
  equivalent_of_bisimulation (fun quick => Grammar.bisimulation_unrolled quick k.table)
    ⟨n, by omega, rfl⟩

/-- **A grammar with a table and its unrolling by three levels without one cannot be told apart**:
they give the same runs and the same carry, in quick passes and in full ones, and resume every carry
to the same carry and the same depth. -/
theorem equivalent_unroll (k : Tokenizer) :
    k.Equivalent ⟨Table.empty, k.root.unroll k.table 3⟩ :=
  k.equivalent_unroll_of_le (Nat.le_refl maxDepth)

end Tokenizer
end Linewise
