import Linewise.Proofs.Tokenizer.Resumption
import Linewise.Proofs.Tokenizer.RestOfLine

/-!
# When a quick pass ends like a full one

A quick pass leaves out the rules behind the last stateful one, since none of them can leave
anything open. But what such a rule takes is taken: a full pass goes on behind a whole comment,
where a quick pass looks into it, byte by byte, and may find a region that begins there. So the two
can end in different carries, and this file says exactly when they do.

## 1.  Overlooked matches

A full pass and a quick pass do the same at every scan where the full pass does not enter a rule
behind the stateful count (`Scan.step_quick`). Where it does, the match is *overlooked*:
`Scan.overlooked` lists these matches, each as the scan before it and the scan behind it. They are
the partings of the two kinds of steps (`Scan.overlooked_eq_partings`).

## 2.  The exact condition

In front of the first overlooked match the passes are in step, and behind the last one the full pass
goes on as a quick pass would. So they end in the same carry exactly if a quick pass from in front
of the first match ends like a quick pass from behind the last one (`Tokenizer.quick_eq_full_iff`,
from `Scan.onward_eq_iff`). If nothing is overlooked there is nothing to ask. If each match is
harmless on its own, in that it makes no difference to a quick pass whether it begins in front of
the match or behind it, the passes agree (`Tokenizer.quick_eq_full_of_harmless`). And a grammar in
which no rule stands behind the last stateful one has nothing to overlook, on any line
(`Tokenizer.quick_eq_full_of_statefulCount`).

## 3.  A line on which they differ

A string that is opened inside a line comment is open for a quick pass and closed for a full one
(`Tokenizer.quick_ne_full_comment`).
-/

namespace Linewise

/-! ## 1.  Overlooked matches -/

/-- Leaving out rules at the end leaves out the matches of these rules. -/
theorem firstMatch?_take (t : Text) (offset n first : Nat) (rules : List (Rule Grammar)) :
    firstMatch? t offset first (rules.take n) =
      (firstMatch? t offset first rules).filter fun m => m.1 < first + n := by
  induction rules generalizing n first with
  | nil => rw [List.take_nil, firstMatch?_nil, Option.filter_none]
  | cons rule rules ih =>
    cases n with
    | zero =>
      rw [List.take_zero, firstMatch?_nil]
      cases hmatch : firstMatch? t offset first (rule :: rules) with
      | none => rfl
      | some m =>
        obtain ⟨index, r, bounds⟩ := m
        obtain ⟨-, hle, -⟩ := firstMatch?_eq_some hmatch
        rw [Option.filter_some, if_neg (by simp only [decide_eq_true_eq]; omega)]
    | succ n =>
      rw [List.take_succ_cons, firstMatch?_cons, firstMatch?_cons]
      split
      · rw [Option.filter_some, if_pos (by simp only [decide_eq_true_eq]; omega)]
      · rw [ih, show first + 1 + n = first + (n + 1) by omega]

namespace Scan

variable {table : Table} {t : Text} {s : Scan}

/-- Whether a full pass enters a rule here that a quick pass does not try. -/
def overlooks (table : Table) (t : Text) (s : Scan) : Bool :=
  (s.closeNested? ⟨table, t, false⟩).isNone && (s.carry.active? s.stack.depth).isNone &&
    match firstMatch? t s.offset 0 s.stack.top.rules with
    | none => false
    | some (index, _, _) => s.stack.top.statefulCount ≤ index

/-- The overlooked matches of at most `n` steps of a full pass: the scan before each, and the scan
behind it. -/
def overlooked (table : Table) (t : Text) : Nat → Scan → List (Scan × Scan)
  | 0, _ => []
  | n + 1, s =>
    if t.size ≤ s.offset then []
    else
      let s' := (s.step ⟨table, t, false⟩).1
      if s.overlooks table t then (s, s') :: overlooked table t n s' else overlooked table t n s'

/-- The carry in which a quick pass ends that goes on from a scan. -/
def quickCarry (table : Table) (t : Text) (s : Scan) : Carry :=
  (steps ⟨table, t, true⟩ t.size s).1.carry

theorem carry_onward (table : Table) (t : Text) (p : Scan × List Piece) :
    (onward t (step ⟨table, t, true⟩) p).1.carry = quickCarry table t p.1 := rfl

/-- Where nothing is overlooked, the rules behind the stateful count make no difference. -/
theorem enterRule_quick (hfirst : ∀ m, firstMatch? t s.offset 0 s.stack.top.rules = some m →
    m.1 < s.stack.top.statefulCount) :
    s.enterRule ⟨table, t, true⟩ = s.enterRule ⟨table, t, false⟩ := by
  have htake := firstMatch?_take t s.offset s.stack.top.statefulCount 0 s.stack.top.rules
  rw [Nat.zero_add] at htake
  have hsame : firstMatch? t s.offset 0 (s.stack.top.rules.take s.stack.top.statefulCount) =
      firstMatch? t s.offset 0 s.stack.top.rules := by
    rw [htake]
    cases hmatch : firstMatch? t s.offset 0 s.stack.top.rules with
    | none => rfl
    | some m => rw [Option.filter_some, if_pos (decide_eq_true (hfirst m hmatch))]
  rw [enterRule_eq, enterRule_eq]
  simp only [tried, if_true, Bool.false_eq_true, if_false, hsame]
  rfl

/-- **Where nothing is overlooked, a quick pass does what a full pass does.** -/
theorem step_quick (h : s.overlooks table t = false) :
    s.step ⟨table, t, true⟩ = s.step ⟨table, t, false⟩ := by
  have hclose : s.closeNested? ⟨table, t, true⟩ = s.closeNested? ⟨table, t, false⟩ := rfl
  rw [step_eq, step_eq, hclose]
  cases hnested : s.closeNested? ⟨table, t, false⟩ with
  | some result => rfl
  | none =>
    cases hactive : s.carry.active? s.stack.depth with
    | some index => rfl
    | none =>
      refine enterRule_quick fun m hm => ?_
      rw [overlooks, hnested, hactive, hm] at h
      simpa using h

/-- Where the last rule of a grammar is stateful, nothing is overlooked. -/
theorem overlooks_eq_false (h : s.stack.top.rules.length ≤ s.stack.top.statefulCount) :
    s.overlooks table t = false := by
  rw [overlooks]
  cases hmatch : firstMatch? t s.offset 0 s.stack.top.rules with
  | none => simp
  | some m =>
    obtain ⟨index, r, bounds⟩ := m
    obtain ⟨-, -, hget⟩ := firstMatch?_eq_some hmatch
    obtain ⟨hlt, -⟩ := List.getElem?_eq_some_iff.mp hget
    have hfront : ¬ s.stack.top.statefulCount ≤ index := by omega
    simp [hfront]

/-- The overlooked matches are where the two passes part. -/
theorem overlooked_eq_partings (table : Table) (t : Text) (n : Nat) (p : Scan × List Piece) :
    overlooked table t n p.1 =
      (partings t (step ⟨table, t, false⟩) (overlooks table t) n p).map
        fun q => (q.1.1, q.2.1) := by
  induction n generalizing p with
  | zero => rfl
  | succ n ih =>
    have hrest := ih (next (step ⟨table, t, false⟩) p)
    rw [next] at hrest
    rw [overlooked, partings]
    split
    · rfl
    · dsimp only
      split
      · rw [List.map_cons, hrest]
        rfl
      · exact hrest

/-- Where no rule stands behind the last stateful one, in any grammar that can be opened, nothing is
overlooked on the whole line. -/
theorem overlooked_eq_nil {root : Grammar} (hroot : Grammar.Numbered table root)
    (hlast : ∀ g, Grammar.Opens table root g → g.rules.length ≤ g.statefulCount)
    (h : Stack.Fits table root s.stack s.carry) (n : Nat) : overlooked table t n s = [] := by
  have hnil : partings t (step ⟨table, t, false⟩) (overlooks table t) n (s, []) = [] :=
    partings_eq_nil (P := fun s => Stack.Fits table root s.stack s.carry)
      (fun s hs _ => ⟨overlooks_eq_false (hlast _ hs.path.opens),
        fits_of_goes hroot hs (goes_step ⟨table, t, false⟩ s)⟩) n h
  have hpartings := overlooked_eq_partings table t n (s, [])
  rwa [hnil] at hpartings

end Scan

namespace Tokenizer

/-- The overlooked matches of a full pass over a line. -/
def overlooked (k : Tokenizer) (t : Text) (c : Carry) : List (Scan × Scan) :=
  Scan.overlooked k.table t t.size (Scan.start ⟨k.table, t, false⟩ k.root c)

/-- Both passes begin a line alike, and end it with the carry to which this beginning leads. -/
theorem carry_tokenize (k : Tokenizer) (quick : Bool) (t : Text) (c : Carry) :
    (k.tokenize quick t c).carry =
      (Scan.onward t (Scan.step ⟨k.table, t, quick⟩)
        (Scan.start ⟨k.table, t, false⟩ k.root c, [])).1.carry :=
  congrArg (fun r => r.1.carry) (Scan.line_eq_rest ⟨k.table, t, quick⟩ k.root c)

/-- **A quick pass ends like a full pass exactly if it makes no difference to a quick pass whether
it goes on in front of the first overlooked match or behind the last one.** -/
theorem quick_eq_full_iff (k : Tokenizer) (t : Text) (c : Carry) :
    (k.tokenize true t c).carry = (k.tokenize false t c).carry ↔
      ∀ first last, (k.overlooked t c).head? = some first →
        (k.overlooked t c).getLast? = some last →
        Scan.quickCarry k.table t first.1 = Scan.quickCarry k.table t last.2 := by
  have hpartings := Scan.overlooked_eq_partings k.table t t.size
    (Scan.start ⟨k.table, t, false⟩ k.root c, [])
  have hiff := Scan.onward_eq_iff (Scan.forward_step ⟨k.table, t, false⟩)
    (Scan.forward_step ⟨k.table, t, true⟩) (fun _ _ _ => Scan.step_quick) (fun p => p.1.carry)
    (p := (Scan.start ⟨k.table, t, false⟩ k.root c, [])) (Nat.le_refl 0)
  simp only [Scan.carry_onward] at hiff
  rw [carry_tokenize, carry_tokenize, Scan.carry_onward, hiff, overlooked, hpartings,
    List.head?_map, List.getLast?_map]
  constructor
  · intro h _ _ hfirst hlast
    obtain ⟨first, hfirst', rfl⟩ := Option.map_eq_some_iff.mp hfirst
    obtain ⟨last, hlast', rfl⟩ := Option.map_eq_some_iff.mp hlast
    exact h first last hfirst' hlast'
  · intro h first last hfirst hlast
    exact h _ _ (Option.map_eq_some_iff.mpr ⟨first, hfirst, rfl⟩)
      (Option.map_eq_some_iff.mpr ⟨last, hlast, rfl⟩)

/-- A line whose overlooked matches are all harmless ends alike in both passes. -/
theorem quick_eq_full_of_harmless (k : Tokenizer) (t : Text) (c : Carry)
    (h : ∀ p ∈ k.overlooked t c,
      Scan.quickCarry k.table t p.1 = Scan.quickCarry k.table t p.2) :
    (k.tokenize true t c).carry = (k.tokenize false t c).carry := by
  rw [overlooked, Scan.overlooked_eq_partings k.table t t.size
    (Scan.start ⟨k.table, t, false⟩ k.root c, [])] at h
  have hharmless := Scan.onward_of_harmless (Scan.forward_step ⟨k.table, t, false⟩)
    (Scan.forward_step ⟨k.table, t, true⟩) (fun _ _ _ => Scan.step_quick) (fun p => p.1.carry)
    t.size (p := (Scan.start ⟨k.table, t, false⟩ k.root c, [])) (Nat.le_refl 0)
    (Nat.le_add_left _ _)
  rw [carry_tokenize, carry_tokenize]
  refine (hharmless fun q hq => ?_).symm
  simp only [Scan.carry_onward]
  exact h _ (List.mem_map_of_mem hq)

/-- **If no grammar that can be opened has a rule behind its last stateful one, both passes end
every line alike.** -/
theorem quick_eq_full_of_statefulCount (k : Tokenizer) (hk : Grammar.Numbered k.table k.root)
    (hlast : ∀ g, Grammar.Opens k.table k.root g → g.rules.length ≤ g.statefulCount)
    (t : Text) (c : Carry) :
    (k.tokenize true t c).carry = (k.tokenize false t c).carry := by
  have hnil : k.overlooked t c = [] :=
    Scan.overlooked_eq_nil hk hlast (Stack.fits_resume k.table k.root c) t.size
  refine quick_eq_full_of_harmless k t c fun p hp => ?_
  rw [hnil] at hp
  cases hp

/-! ## 3.  A line on which they differ -/

/-- A tokenizer for strings and line comments, in this order. -/
def commentTokenizer : Tokenizer where
  table := Table.empty
  root :=
    { name := none
      defaultLabel := "default"
      rules :=
        [⟨.lua "\"", some (.lua "\""), none, "string", [], none⟩, .token (.lua "//.*") "comment"]
      symbols := .ofList [] }

/-- **A quick pass takes the quote in a line comment for the beginning of a string.** -/
theorem quick_ne_full_comment :
    (commentTokenizer.tokenize true (Text.ofString "// \"") .clear).carry = ⟨1⟩ ∧
      (commentTokenizer.tokenize false (Text.ofString "// \"") .clear).carry = ⟨0⟩ := by
  decide +kernel

end Tokenizer
end Linewise
