import Linewise.Proofs.Tokenizer.Resumption
import Linewise.Proofs.Tokenizer.RestOfLine

/-!
# Empty matches

A match that takes nothing does not count: a rule neither enters nor closes by it. For an escape,
this is not so. Where an escape matches without taking anything, it keeps its rule open, although
the rule would close there by its end. This file says what difference that makes.

## 1.  Scans with another way to match

A scan asks for matches at five places: for the enters of the rules, and for the ends and escapes
inside of a region and inside of a nested grammar. A step of a scan is written for any way of
finding them (`Scan.stepWith`), and so is a line (`Tokenizer.tokenizeWith`). With `Pattern.taken?`,
which passes over every match that ends where it begins, no empty match counts at any of the five
places.

## 2.  One step

The two steps differ exactly where an empty match of an escape stands in front of an end that counts
(`Scan.stepWith_taken?_eq_iff`). There the rule is *held* open.

## 3.  Whole lines

So a line is tokenized as if no empty match counted exactly if it makes no difference whether such a
scan goes on from in front of the first held place or from behind the last one
(`Tokenizer.tokenizeWith_taken?_iff`). In particular, this is so for every grammar whose escapes
have no empty matches (`Tokenizer.tokenizeWith_taken?_of_escapes`).

An escape `x*` matches everywhere. With it, the string `""` is left open, although there is nothing
in it to escape (`Tokenizer.tokenizeWith_taken?_ne_optionalEscape`).
-/

namespace Linewise

/-! ## 1.  Scans with another way to match -/

/-- A match that ends where it begins is none. -/
def Pattern.taken? (p : Pattern) (t : Text) (offset : Nat) : Option (List Nat) :=
  (p.boundariesAt? t offset).filter fun bounds => bounds.getLast? ≠ some offset

/-- How a line has been tokenized by a scan with the pieces that it has cut off. -/
def Line.ofScan (quick : Bool) (result : Scan × List Piece) : Line :=
  ⟨if quick then none else some (Run.ofPieces result.2), result.1.carry⟩

/-- As `Tokenizer.tokenize`, with another way to match. -/
def Tokenizer.tokenizeWith (find : Matching) (k : Tokenizer) (quick : Bool) (t : Text)
    (c : Carry) : Line :=
  Line.ofScan quick (Scan.restBy t (Scan.stepWith find ⟨k.table, t, quick⟩)
    (Scan.start ⟨k.table, t, quick⟩ k.root c))

section

variable {find : Matching} {p : Pattern} {t : Text} {offset : Nat}

/-- The enters of the rules are asked for matches that count, and for nothing else. -/
theorem firstMatchWith?_eq (h : ∀ p, consumedWith? find p t offset = consumed? p t offset)
    (index : Nat) (rules : List (Rule Grammar)) :
    firstMatchWith? find t offset index rules = firstMatch? t offset index rules := by
  induction rules generalizing index with
  | nil => rfl
  | cons r rules ih =>
    cases hmatch : consumed? r.enter t offset with
    | none => simp only [firstMatchWith?, firstMatch?_cons, h, hmatch, ih]
    | some bounds => simp only [firstMatchWith?, firstMatch?_cons, h, hmatch]

theorem Scan.enterRuleWith_eq {pass : Pass} {s : Scan}
    (h : ∀ p, consumedWith? find p pass.text s.offset = consumed? p pass.text s.offset) :
    s.enterRuleWith find pass = s.enterRule pass := by
  rw [enterRule, enterRuleWith, enterRuleWith, firstMatchWith?_eq h, firstMatch?]

/-- **With the matches of the patterns themselves, a line is tokenized as it is.** -/
theorem Tokenizer.tokenizeWith_boundariesAt? (k : Tokenizer) (quick : Bool) (t : Text) (c : Carry) :
    k.tokenizeWith Pattern.boundariesAt? quick t c = k.tokenize quick t c := rfl

/-- A match that counts is not empty. -/
theorem consumedWith?_taken? (p : Pattern) (t : Text) (offset : Nat) :
    consumedWith? Pattern.taken? p t offset = consumed? p t offset := by
  have hcounts : ∀ bounds : List Nat, (decide (bounds.getLast? ≠ some offset) &&
      decide (offset < bounds.getLast?.getD 0)) = decide (offset < bounds.getLast?.getD 0) := by
    intro bounds
    by_cases hlast : bounds.getLast? = some offset
    · simp [hlast]
    · simp [hlast]
  rw [consumedWith?, consumed?_eq_filter, Pattern.taken?, Option.filter_filter]
  simp only [hcounts]

end

/-! ## 2.  One step -/

/-- At a position, an escape of the rule matches without taking anything, and its end has a match
that counts. -/
def Rule.holdsAt (r : Rule Grammar) (t : Text) (offset : Nat) : Bool :=
  ((r.escape.bind (·.boundariesAt? t offset)).any (·.getLast? = some offset)) &&
    (r.close.bind (consumed? · t offset)).isSome

/-- The rule that opened the innermost grammar. -/
def Stack.outerRule? (s : Stack) (c : Carry) : Option (Rule Grammar) :=
  match s.below with
  | [] => none
  | parent :: below => (Stack.mk parent below).openRule? c

/-- An empty match of an escape keeps a rule open here: the one that opened the innermost grammar,
or a region. -/
def Scan.held (pass : Pass) (s : Scan) : Bool :=
  (s.stack.outerRule? s.carry).any (·.holdsAt pass.text s.offset) ||
    (s.closeNested? pass).isNone && (s.stack.openRule? s.carry).any (·.holdsAt pass.text s.offset)

section

variable {r : Rule Grammar} {t : Text} {offset : Nat}

theorem Rule.escape_taken? (r : Rule Grammar) (t : Text) (offset : Nat) :
    r.escape.bind (·.taken? t offset) =
      (r.escape.bind (·.boundariesAt? t offset)).filter fun b => b.getLast? ≠ some offset := by
  cases r.escape with
  | none => rfl
  | some p => rfl

/-- Where a rule is not held open but could end, its escape has no empty match. -/
theorem Rule.escape_of_not_holdsAt {bounds : List Nat} (h : r.holdsAt t offset = false)
    (hclose : r.close.bind (consumed? · t offset) = some bounds) :
    r.escape.bind (·.taken? t offset) = r.escape.bind (·.boundariesAt? t offset) := by
  rw [holdsAt, hclose, Option.isSome_some, Bool.and_true] at h
  rw [r.escape_taken?]
  cases hescape : r.escape.bind (·.boundariesAt? t offset) with
  | none => rfl
  | some b =>
    rw [hescape, Option.any_some] at h
    rw [Option.filter_some, if_pos (by simpa using h)]

/-- Where a rule is held open, its escape has an empty match and its end a match that counts. -/
theorem Rule.exists_of_holdsAt (h : r.holdsAt t offset = true) :
    ∃ b bounds, r.escape.bind (·.boundariesAt? t offset) = some b ∧ b.getLast? = some offset ∧
      r.escape.bind (·.taken? t offset) = none ∧
      r.close.bind (consumed? · t offset) = some bounds := by
  obtain ⟨hescape, hclose⟩ := Bool.and_eq_true_iff.mp h
  obtain ⟨bounds, hbounds⟩ := Option.isSome_iff_exists.mp hclose
  obtain ⟨b, hb, hlast⟩ := (Option.any_eq_true _ _).mp hescape
  have hlast : b.getLast? = some offset := by simpa using hlast
  refine ⟨b, bounds, hb, hlast, ?_, hbounds⟩
  rw [r.escape_taken?, hb, Option.filter_some, if_neg (by simp [hlast])]

end

namespace Scan

variable {pass : Pass} {s : Scan} {r : Rule Grammar}

theorem bind_consumedWith?_taken? (r : Rule Grammar) (t : Text) (offset : Nat) :
    r.close.bind (consumedWith? Pattern.taken? · t offset) = r.close.bind (consumed? · t offset) :=
  by simp only [consumedWith?_taken?]

/-- If the rule that opened the innermost grammar is not held open, it closes alike. -/
theorem closeNestedWith?_eq
    (h : (s.stack.outerRule? s.carry).any (·.holdsAt pass.text s.offset) = false) :
    s.closeNestedWith? Pattern.taken? pass = s.closeNested? pass := by
  rw [closeNestedWith?, closeNested?_eq]
  rw [Stack.outerRule?] at h
  cases hbelow : s.stack.below with
  | nil => rfl
  | cons parent below =>
    rw [hbelow] at h
    dsimp only at h ⊢
    cases hr : (Stack.mk parent below).openRule? s.carry with
    | none => rfl
    | some r =>
      rw [hr, Option.any_some] at h
      dsimp only
      rw [bind_consumedWith?_taken?, ← Option.isSome_bind, ← Option.isSome_bind]
      cases hclose : r.close.bind (consumed? · pass.text s.offset) with
      | none => rw [ite_self, ite_self]
      | some bounds =>
        rw [r.escape_of_not_holdsAt h hclose]
        rfl

/-- If it is held open, only a scan for which no empty match counts closes it. -/
theorem closeNested?_of_held
    (h : (s.stack.outerRule? s.carry).any (·.holdsAt pass.text s.offset) = true) :
    s.closeNested? pass = none ∧
      ∃ parent below r p bounds, s.stack.below = parent :: below ∧
        consumed? p pass.text s.offset = some bounds ∧
        s.closeNestedWith? Pattern.taken? pass = some
          ({ stack := ⟨parent, below⟩
             carry := s.carry.truncate below.length
             offset := (segments parent r pass.text 0 s.offset bounds).2
             pending := (segments parent r pass.text 0 s.offset bounds).2 },
            s.pendingPiece pass.text s.offset ::
              (segments parent r pass.text 0 s.offset bounds).1) := by
  obtain ⟨r, hr, hholds⟩ := (Option.any_eq_true _ _).mp h
  obtain ⟨b, bounds, hb, -, hnone, hbounds⟩ := r.exists_of_holdsAt hholds
  obtain ⟨p, -, hmatch⟩ := Option.bind_eq_some_iff.mp hbounds
  rw [Stack.outerRule?] at hr
  cases hbelow : s.stack.below with
  | nil =>
    rw [hbelow] at hr
    cases hr
  | cons parent below =>
    rw [hbelow] at hr
    dsimp only at hr
    refine ⟨?_, parent, below, r, p, bounds, rfl, hmatch, ?_⟩
    · rw [closeNested?_eq, hbelow]
      dsimp only
      rw [hr]
      dsimp only
      rw [← Option.isSome_bind, hb, if_pos Option.isSome_some]
    · rw [closeNestedWith?, hbelow]
      dsimp only
      rw [hr]
      dsimp only
      rw [← Option.isSome_bind, hnone, bind_consumedWith?_taken?, hbounds]
      rfl

/-- If a region is not held open, a step inside of it is the same. -/
theorem insideRegionWith_eq (hlt : s.offset < pass.text.size)
    (h : r.holdsAt pass.text s.offset = false) :
    s.insideRegionWith Pattern.taken? pass r = s.insideRegion pass r := by
  rw [insideRegionWith, insideRegion_eq, bind_consumedWith?_taken?]
  cases hclose : r.close.bind (consumed? · pass.text s.offset) with
  | some bounds =>
    have hsame := r.escape_of_not_holdsAt h hclose
    cases hescape : r.escape.bind (·.boundariesAt? pass.text s.offset) with
    | none => simp only [hsame, hescape]
    | some b => simp only [hsame, hescape]
  | none =>
    rw [r.escape_taken?]
    cases hescape : r.escape.bind (·.boundariesAt? pass.text s.offset) with
    | none => rfl
    | some b =>
      by_cases hlast : b.getLast? = some s.offset
      · -- an empty escape takes one byte along, and so does a byte that stays
        have hend : min (matchEnd b s.offset + 1) pass.text.size = s.offset + 1 := by
          rw [matchEnd, hlast, Option.getD_some, Nat.max_self]
          omega
        rw [Option.filter_some, if_neg (by simp [hlast])]
        dsimp only
        rw [hend]
      · rw [Option.filter_some, if_pos (by simp [hlast])]

/-- If it is held open, only a scan for which no empty match counts closes it. -/
theorem insideRegion_of_holdsAt (h : r.holdsAt pass.text s.offset = true) :
    (s.insideRegion pass r).1.carry = s.carry ∧
      ∃ p bounds, consumed? p pass.text s.offset = some bounds ∧
        s.insideRegionWith Pattern.taken? pass r =
          ({ s with
              carry := s.carry.truncate s.stack.depth
              offset := (segments s.stack.top r pass.text 0 s.pending bounds).2
              pending := (segments s.stack.top r pass.text 0 s.pending bounds).2 },
            (segments s.stack.top r pass.text 0 s.pending bounds).1) := by
  obtain ⟨b, bounds, hb, -, hnone, hbounds⟩ := r.exists_of_holdsAt h
  obtain ⟨p, -, hmatch⟩ := Option.bind_eq_some_iff.mp hbounds
  refine ⟨?_, p, bounds, hmatch, ?_⟩
  · rw [insideRegion_eq, hb]
  · rw [insideRegionWith, hnone, bind_consumedWith?_taken?, hbounds]

/-- Where no rule is held open, the steps are the same. -/
theorem stepWith_of_not_held (hlt : s.offset < pass.text.size) (h : s.held pass = false) :
    s.stepWith Pattern.taken? pass = s.step pass := by
  obtain ⟨houter, hregion⟩ := Bool.or_eq_false_iff.mp h
  rw [stepWith, step_eq, closeNestedWith?_eq houter]
  cases hnested : s.closeNested? pass with
  | some result => rfl
  | none =>
    dsimp only
    cases hactive : s.carry.active? s.stack.depth with
    | none => exact enterRuleWith_eq fun p => consumedWith?_taken? p _ _
    | some index =>
      dsimp only
      cases hr : s.stack.top.rules[index]? with
      | none => rfl
      | some r =>
        have hopen : s.stack.openRule? s.carry = some r := by
          rw [Stack.openRule?, hactive, Option.bind_some, hr]
        rw [hnested, hopen, Option.isNone_none, Bool.true_and, Option.any_some] at hregion
        exact insideRegionWith_eq hlt hregion

/-- Without a close, no grammar is left. -/
theorem depth_le_step (hnested : s.closeNested? pass = none) :
    s.stack.depth ≤ (s.step pass).1.stack.depth := by
  have hgoes := goes_step pass s
  generalize s.step pass = result at hgoes ⊢
  obtain ⟨s', pieces⟩ := result
  cases hgoes with
  | leave hbelow hr hescape hclose hmatch =>
    have hsome := isSome_closeNested? hbelow hr hescape hclose hmatch
    rw [hnested] at hsome
    cases hsome
  | descend => exact Nat.le_succ _
  | _ => exact Nat.le_refl _

/-- **Where a rule is held open, only a scan for which no empty match counts closes it**: either it
leaves the innermost grammar, or it ends the region there. -/
theorem stepWith_of_held (h : s.held pass = true) :
    (s.closeNested? pass = none ∧
      ∃ parent below r p bounds, s.stack.below = parent :: below ∧
        consumed? p pass.text s.offset = some bounds ∧
        s.stepWith Pattern.taken? pass =
          ({ stack := ⟨parent, below⟩
             carry := s.carry.truncate below.length
             offset := (segments parent r pass.text 0 s.offset bounds).2
             pending := (segments parent r pass.text 0 s.offset bounds).2 },
            s.pendingPiece pass.text s.offset ::
              (segments parent r pass.text 0 s.offset bounds).1)) ∨
      ∃ r p bounds, s.stack.openRule? s.carry = some r ∧ (s.step pass).1.carry = s.carry ∧
        consumed? p pass.text s.offset = some bounds ∧
        s.stepWith Pattern.taken? pass =
          ({ s with
              carry := s.carry.truncate s.stack.depth
              offset := (segments s.stack.top r pass.text 0 s.pending bounds).2
              pending := (segments s.stack.top r pass.text 0 s.pending bounds).2 },
            (segments s.stack.top r pass.text 0 s.pending bounds).1) := by
  by_cases houter : (s.stack.outerRule? s.carry).any (·.holdsAt pass.text s.offset) = true
  · obtain ⟨hnested, parent, below, r, p, bounds, hbelow, hmatch, hcloses⟩ :=
      closeNested?_of_held houter
    refine Or.inl ⟨hnested, parent, below, r, p, bounds, hbelow, hmatch, ?_⟩
    rw [stepWith, hcloses]
  · have houter := Bool.eq_false_iff.mpr houter
    rw [held, houter, Bool.false_or] at h
    obtain ⟨hnested, hregion⟩ := Bool.and_eq_true_iff.mp h
    have hnested := Option.isNone_iff_eq_none.mp hnested
    obtain ⟨r, hopen, hholds⟩ := (Option.any_eq_true _ _).mp hregion
    obtain ⟨index, hactive, hr⟩ := Option.bind_eq_some_iff.mp hopen
    obtain ⟨hcarry, p, bounds, hmatch, hcloses⟩ := insideRegion_of_holdsAt (s := s) hholds
    refine Or.inr ⟨r, p, bounds, hopen, ?_, hmatch, ?_⟩
    · rw [step_eq, hnested, hactive]
      dsimp only
      rw [hr]
      exact hcarry
    · rw [stepWith, closeNestedWith?_eq houter, hnested, hactive]
      dsimp only
      rw [hr]
      exact hcloses

/-- **The steps differ exactly where a rule is held open.** -/
theorem stepWith_taken?_eq_iff (hlt : s.offset < pass.text.size) :
    s.stepWith Pattern.taken? pass = s.step pass ↔ s.held pass = false := by
  refine ⟨fun heq => Bool.eq_false_iff.mpr fun hheld => ?_, stepWith_of_not_held hlt⟩
  rcases stepWith_of_held hheld with
    ⟨hnested, parent, below, r, p, bounds, hbelow, -, hcloses⟩ |
    ⟨r, p, bounds, hopen, hcarry, -, hcloses⟩
  · -- one of them leaves a grammar
    have hdepth := depth_le_step hnested
    rw [← heq, hcloses, Stack.depth, Stack.depth, hbelow] at hdepth
    exact Nat.not_succ_le_self _ hdepth
  · -- one of them ends a region
    rw [← heq, hcloses] at hcarry
    obtain ⟨index, hactive, -⟩ := Option.bind_eq_some_iff.mp hopen
    have hclear := Carry.active?_truncate s.carry s.stack.depth s.stack.depth
    rw [if_neg (Nat.lt_irrefl _), show s.carry.truncate s.stack.depth = s.carry from hcarry,
      hactive] at hclear
    cases hclear

/-- **A scan for which no empty match counts moves forward as well.** -/
theorem forward_stepWith_taken? (pass : Pass) :
    Forward pass.text (stepWith Pattern.taken? pass) := by
  intro s hpending hlt
  have hsize := Nat.le_of_lt hlt
  by_cases hheld : s.held pass = true
  · rcases stepWith_of_held hheld with
      ⟨-, parent, below, r, p, bounds, -, hmatch, hcloses⟩ | ⟨r, p, bounds, -, -, hmatch, hcloses⟩
    · obtain ⟨htile, hstop, hle⟩ := segments_of_consumed? (g := parent) (r := r) hmatch hsize
      rw [hcloses]
      exact ⟨hstop, hle, Nat.le_refl _, rfl, hpending, htile⟩
    · obtain ⟨htile, hstop, hle⟩ := segments_of_consumed? (g := s.stack.top) (r := r) hmatch
        (Nat.le_trans hpending hsize)
      rw [hcloses]
      exact ⟨hstop, hle, Nat.le_refl _, htile⟩
  · rw [stepWith_of_not_held hlt (Bool.eq_false_iff.mpr hheld)]
    exact advances_step pass hpending hlt

end Scan

/-! ## 3.  Whole lines -/

namespace Scan

/-- **The two kinds of steps end a line alike, in whatever respect, exactly if it makes no
difference to a scan for which no empty match counts whether it goes on from in front of the first
held place or from behind the last one.** -/
theorem onward_taken?_iff (pass : Pass) {α : Type} (view : Scan × List Piece → α)
    {p : Scan × List Piece} (hpending : p.1.pending ≤ p.1.offset) :
    view (onward pass.text (stepWith Pattern.taken? pass) p) =
        view (onward pass.text (step pass) p) ↔
      ∀ first last,
        (partings pass.text (step pass) (held pass) pass.text.size p).head? = some first →
          (partings pass.text (step pass) (held pass) pass.text.size p).getLast? = some last →
          view (onward pass.text (stepWith Pattern.taken? pass) first.1) =
            view (onward pass.text (stepWith Pattern.taken? pass) last.2) :=
  onward_eq_iff (forward_step pass) (forward_stepWith_taken? pass)
    (fun _ _ hlt hheld => stepWith_of_not_held hlt hheld) view hpending

variable {pass : Pass} {root : Grammar} {s : Scan}

variable (pass) in
/-- A rule of a grammar is held open nowhere in a text if its escape has no empty match there. -/
theorem held_eq_false (h : Stack.Reachable pass.table root s.stack)
    (hescape : ∀ g, Grammar.Opens pass.table root g → ∀ r ∈ g.rules, ∀ p, r.escape = some p →
      ∀ offset < pass.text.size, ∀ bounds, p.boundariesAt? pass.text offset = some bounds →
        bounds.getLast? ≠ some offset)
    (hlt : s.offset < pass.text.size) : s.held pass = false := by
  have hnever : ∀ u : Stack, Stack.Reachable pass.table root u →
      (u.openRule? s.carry).any (·.holdsAt pass.text s.offset) = false := by
    intro u hu
    refine (Option.any_eq_false _ _).mpr fun r hr => Bool.eq_false_iff.mpr fun hholds => ?_
    obtain ⟨b, bounds, hb, hlast, -, -⟩ := r.exists_of_holdsAt hholds
    obtain ⟨p, hp, hmatch⟩ := Option.bind_eq_some_iff.mp hb
    obtain ⟨i, -, hi⟩ := Option.bind_eq_some_iff.mp hr
    exact hescape _ (hu _ List.mem_cons_self) r (List.mem_of_getElem? hi) p hp _ hlt b hmatch hlast
  have houter : (s.stack.outerRule? s.carry).any (·.holdsAt pass.text s.offset) = false := by
    rw [Stack.outerRule?]
    cases hbelow : s.stack.below with
    | nil => rfl
    | cons parent below =>
      refine hnever ⟨parent, below⟩ fun g hg => h g ?_
      rw [hbelow]
      exact List.mem_cons_of_mem _ hg
  rw [held, houter, hnever s.stack h, Bool.and_false, Bool.false_or]

end Scan

namespace Tokenizer

/-- The places of a line at which a rule is held open: the scan and its pieces before the step
there, and behind it. -/
def held (k : Tokenizer) (quick : Bool) (t : Text) (c : Carry) :
    List ((Scan × List Piece) × (Scan × List Piece)) :=
  Scan.partings t (Scan.step (k.passOn quick t)) (Scan.held (k.passOn quick t)) t.size
    (Scan.start (k.passOn quick t) k.root c, [])

/-- How a line is tokenized if a scan goes on for which no empty match counts. -/
def onwardTaken (k : Tokenizer) (quick : Bool) (t : Text) (p : Scan × List Piece) : Line :=
  Line.ofScan quick (Scan.onward t (Scan.stepWith Pattern.taken? (k.passOn quick t)) p)

theorem tokenize_eq_onward (k : Tokenizer) (quick : Bool) (t : Text) (c : Carry) :
    k.tokenize quick t c = Line.ofScan quick
      (Scan.onward t (Scan.step (k.passOn quick t)) (Scan.start (k.passOn quick t) k.root c, [])) :=
  congrArg (Line.ofScan quick) (Scan.line_eq_rest (k.passOn quick t) k.root c)

/-- **A line is tokenized as if no empty match counted exactly if it makes no difference whether
such a scan goes on from in front of the first held place or from behind the last one.** -/
theorem tokenizeWith_taken?_iff (k : Tokenizer) (quick : Bool) (t : Text) (c : Carry) :
    k.tokenizeWith Pattern.taken? quick t c = k.tokenize quick t c ↔
      ∀ first last, (k.held quick t c).head? = some first →
        (k.held quick t c).getLast? = some last →
        k.onwardTaken quick t first.1 = k.onwardTaken quick t last.2 := by
  rw [tokenize_eq_onward]
  exact Scan.onward_taken?_iff (k.passOn quick t) (Line.ofScan quick)
    (p := (Scan.start (k.passOn quick t) k.root c, [])) (Nat.le_refl 0)

/-- **If the escapes of a grammar, and of all that it opens, have no empty matches in a line, the
line is tokenized as if no empty match counted.** -/
theorem tokenizeWith_taken?_of_escapes (k : Tokenizer) (quick : Bool) (t : Text) (c : Carry)
    (hescape : ∀ g, Grammar.Opens k.table k.root g → ∀ r ∈ g.rules, ∀ p, r.escape = some p →
      ∀ offset < t.size, ∀ bounds, p.boundariesAt? t offset = some bounds →
        bounds.getLast? ≠ some offset) :
    k.tokenizeWith Pattern.taken? quick t c = k.tokenize quick t c := by
  have hnil : k.held quick t c = [] := by
    refine Scan.partings_eq_nil (P := fun s => Stack.Reachable k.table k.root s.stack)
      (p := (Scan.start (k.passOn quick t) k.root c, []))
      (fun s hs hlt => ⟨Scan.held_eq_false (k.passOn quick t) hs hescape hlt, ?_⟩) t.size
      (Stack.fits_resume k.table k.root c).path.reachable
    exact Scan.reachable_of_goes hs (Scan.goes_step (k.passOn quick t) s)
  have hiff := Scan.onward_taken?_iff (k.passOn quick t) (Line.ofScan quick)
    (p := (Scan.start (k.passOn quick t) k.root c, [])) (Nat.le_refl 0)
  rw [tokenize_eq_onward]
  refine hiff.mpr fun first _ hfirst => ?_
  cases (congrArg List.head? hnil).symm.trans hfirst

/-- A tokenizer for strings with an escape that matches everywhere. -/
def optionalEscapeTokenizer : Tokenizer where
  table := Table.empty
  root :=
    { name := none
      defaultLabel := "default"
      rules := [⟨.lua "\"", some (.lua "\""), some (.lua "x*"), "string", [], none⟩]
      symbols := .ofList [] }

/-- **In `""`, the escape `x*` keeps the string open**, although it takes nothing. -/
theorem tokenizeWith_taken?_ne_optionalEscape :
    optionalEscapeTokenizer.tokenize false (Text.ofString "\"\"") .clear =
        ⟨some [⟨"string", 2⟩], ⟨1⟩⟩ ∧
      optionalEscapeTokenizer.tokenizeWith Pattern.taken? false (Text.ofString "\"\"") .clear =
        ⟨some [⟨"string", 2⟩], ⟨0⟩⟩ := by
  decide +kernel

end Tokenizer
end Linewise
