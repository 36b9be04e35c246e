import Linewise.Grammar.Basic

/-!
# Open grammars

While a line is tokenized, grammars are open inside of each other: the root, a nested grammar of one
of its rules, and so on. A carry names the rules on the way, level by level. `resume` follows it: as
long as the carry names a rule with a nested grammar, that grammar is opened. It answers the
grammars that are open, and the part of the carry that this explains; anything else in the carry,
such as the number of a rule that does not exist, is dropped. So every word whatever can be used as
a carry.

A fifth level is never opened, since a carry could not describe it.
-/

namespace Linewise

/-- The open grammars: the innermost one, and those around it, the nearest first. -/
structure Stack where
  /-- The innermost open grammar. -/
  top : Grammar
  /-- The grammars around it, the nearest first. -/
  below : List Grammar

namespace Stack

/-- Only the root is open. -/
def root (g : Grammar) : Stack := ⟨g, []⟩

/-- How many levels lie around the innermost grammar. -/
def depth (s : Stack) : Nat := s.below.length

/-- Opens a grammar. -/
def push (s : Stack) (g : Grammar) : Stack := ⟨g, s.top :: s.below⟩

/-- The rule of the innermost grammar that a carry names as open, if there is one. -/
def openRule? (s : Stack) (c : Carry) : Option (Rule Grammar) :=
  (c.active? s.depth).bind fun i => s.top.rules[i]?

/-- Opens what the carry names, at most `n` levels: the open grammars, and the number of levels of
the carry that are accounted for. -/
def descend (table : Table) (c : Carry) : Nat → Stack → Stack × Nat
  | 0, s => (s, s.depth)
  | n + 1, s =>
    match s.openRule? c with
    | none => (s, s.depth)
    | some r =>
      match Grammar.nested? table r with
      | some g => if s.depth + 1 < maxDepth then descend table c n (s.push g) else (s, s.depth)
      | none => (s, if r.close.isSome then s.depth + 1 else s.depth)

/-- The grammars that are open in a carry, and what of the carry fits them. -/
def resume (table : Table) (g : Grammar) (c : Carry) : Stack × Carry :=
  let (s, kept) := descend table c maxDepth (root g)
  (s, c.truncate kept)

end Stack
end Linewise
