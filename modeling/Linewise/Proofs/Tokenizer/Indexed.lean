import Linewise.Proofs.Tokenizer.Resumption

/-!
# Every access is in range

A scan is told here once more, over a list of open grammars that is accessed by index. The last one
is the innermost, its rules are accessed by the index that the carry names, and the line is cut at
positions. Each of these accesses can fail, and where one does, everything does:
`Tokenizer.tokenize?` answers nothing if an index or a position is out of range, or if the line is
not used up after as many rounds as it has bytes.

## 1.  Accesses

A stretch of a text, the leading rules of a grammar, a piece and the segments of a match, each of
them only if it is there (`Text.slice?`, `leading?`, `Piece.cut?`, `segments?`).

## 2.  The loop

`Loop` is what the loop keeps, `Loop.step?` is one round of it, `Loop.run?` are at most so many, and
`Loop.descend?` opens the grammars of a carry. Where a rule is looked up in order to see whether
there is one, as that around the innermost grammar is, nothing fails.

## 3.  What makes an access safe

`Scan.Safe` is the invariant: what is pending begins in front of the offset, the offset is in the
line, the carry names no rule at the innermost level that the grammar does not have, and nothing
above that level. Every step keeps it, and it is all that a round needs (`Loop.step?_ofScan`). How
many rules the grammars have is of no importance.

## 4.  The whole line

`Tokenizer.tokenize?_eq_some` concludes that no access ever fails, and that each round moves
forward.
-/

namespace Linewise

/-! ## 1.  Accesses -/

/-- The bytes between two positions, if these are in order and in the text. -/
def Text.slice? (t : Text) (i j : Nat) : Option Text :=
  if i ≤ j ∧ j ≤ t.size then some (t.slice i j) else none

/-- The first `n` elements of a list, if it has as many. -/
def leading? {α : Type} (n : Nat) (l : List α) : Option (List α) :=
  if n ≤ l.length then some (l.take n) else none

/-- A stretch of a line under a label of the grammar `g`, if the stretch is there. -/
def Piece.cut? (g : Grammar) (label : String) (t : Text) (start stop : Nat) : Option Piece :=
  (t.slice? start stop).map fun content => ⟨(g.symbol? content).getD label, start, stop⟩

/-- The segments of a match, if all of them are there. -/
def segments? (g : Grammar) (r : Rule Grammar) (t : Text) :
    (index last : Nat) → List Nat → Option (List Piece × Nat)
  | _, last, [] => some ([], last)
  | index, last, bound :: bounds => do
    let stop := max bound last
    let piece ← Piece.cut? g ((r.label? index).getD g.defaultLabel) t last stop
    let (pieces, final) ← segments? g r t (index + 1) stop bounds
    some (piece :: pieces, final)

section

variable {t : Text} {g : Grammar} {r : Rule Grammar}

theorem Text.slice?_eq {i j : Nat} (hij : i ≤ j) (hj : j ≤ t.size) :
    t.slice? i j = some (t.slice i j) := if_pos ⟨hij, hj⟩

theorem Piece.cut?_eq {label : String} {start stop : Nat} (hle : start ≤ stop)
    (hstop : stop ≤ t.size) :
    Piece.cut? g label t start stop = some (.under g label t start stop) := by
  rw [cut?, Text.slice?_eq hle hstop]
  rfl

/-- Boundaries in the text cut it into segments, in whatever order they are. -/
theorem segments?_eq (index : Nat) {last : Nat} {bounds : List Nat} (hlast : last ≤ t.size)
    (hbounds : ∀ b ∈ bounds, b ≤ t.size) :
    segments? g r t index last bounds = some (segments g r t index last bounds) := by
  induction bounds generalizing index last with
  | nil => rfl
  | cons bound bounds ih =>
    obtain ⟨hbound, hrest⟩ := List.forall_mem_cons.mp hbounds
    have hstop : max bound last ≤ t.size := Nat.max_le.mpr ⟨hbound, hlast⟩
    rw [segments?, Piece.cut?_eq (Nat.le_max_right _ _) hstop, ih (index + 1) hstop hrest]
    rfl

end

/-! ## 2.  The loop -/

/-- What the loop over a line keeps. -/
structure Loop where
  /-- The open grammars, the root first. -/
  stack : List Grammar
  /-- The open rules. -/
  carry : Carry
  /-- The position. -/
  offset : Nat
  /-- How far the line has been cut into pieces. -/
  pending : Nat

namespace Loop

/-- The rule of a grammar that a carry names at a level, if there is one. -/
def ruleAt? (c : Carry) (level : Nat) (g : Grammar) : Option (Rule Grammar) :=
  (c.active? level).bind fun i => g.rules[i]?

/-- The label of what is open at a level. -/
def labelAt (c : Carry) (level : Nat) (g : Grammar) : String :=
  match ruleAt? c level g with
  | none => g.defaultLabel
  | some r => r.label

/-- Inside of a nested grammar: the rule around it closes here, or it does not. -/
def leave? (pass : Pass) (l : Loop) (target : Grammar) :
    (depth : Nat) → Option (Option (Loop × List Piece))
  | 0 => some none
  | outer + 1 => do
    let parent ← l.stack[outer]?
    match ruleAt? l.carry outer parent with
    | none => some none
    | some r =>
      if r.escape.any fun p => (p.boundariesAt? pass.text l.offset).isSome then some none
      else
        match r.close.bind fun p => consumed? p pass.text l.offset with
        | none => some none
        | some bounds =>
          let label := labelAt l.carry (outer + 1) target
          let piece ← Piece.cut? target label pass.text l.pending l.offset
          let (pieces, stop) ← segments? parent r pass.text 0 l.offset bounds
          some <| some
            ({ stack := l.stack.take (outer + 1)
               carry := l.carry.truncate outer
               offset := stop
               pending := stop },
              piece :: pieces)

/-- A rule of the innermost grammar enters. -/
def enterWith? (pass : Pass) (l : Loop) (depth : Nat) (target : Grammar) (index : Nat)
    (r : Rule Grammar) (bounds : List Nat) : Option (Loop × List Piece) := do
  let before ← Piece.cut? target target.defaultLabel pass.text l.pending l.offset
  let nested := Grammar.nested? pass.table r
  if r.close.isSome && nested.isNone then
    some
      ({ l with
          carry := l.carry.mark depth index
          offset := matchEnd bounds l.offset
          pending := l.offset },
        [before])
  else
    let (pieces, stop) ← segments? target r pass.text 0 l.offset bounds
    let moved := { l with offset := stop, pending := stop }
    match nested with
    | none => some (moved, before :: pieces)
    | some g =>
      if depth + 1 < maxDepth then
        some
          ({ moved with stack := l.stack ++ [g], carry := l.carry.mark depth index },
            before :: pieces)
      else some (moved, before :: pieces)

/-- The rules of a grammar that are tried where nothing is open. -/
def tried? (pass : Pass) (g : Grammar) : Option (List (Rule Grammar)) :=
  if pass.quick then leading? g.statefulCount g.rules else some g.rules

/-- Nothing is open in the innermost grammar. -/
def enter? (pass : Pass) (l : Loop) (depth : Nat) (target : Grammar) :
    Option (Loop × List Piece) := do
  let tried ← tried? pass target
  match firstMatch? pass.text l.offset 0 tried with
  | none =>
    let ahead ← pass.text.slice? l.offset pass.text.size
    some ({ l with offset := l.offset + max (ahead.toList.takeWhile Ascii.isAlnum).length 1 }, [])
  | some (index, r, bounds) => l.enterWith? pass depth target index r bounds

/-- The rule with the given index is open in the innermost grammar. -/
def inside? (pass : Pass) (l : Loop) (depth : Nat) (target : Grammar) (index : Nat) :
    Option (Loop × List Piece) := do
  let r ← target.rules[index]?
  match r.escape.bind fun p => p.boundariesAt? pass.text l.offset with
  | some bounds => some ({ l with offset := min (matchEnd bounds l.offset + 1) pass.text.size }, [])
  | none =>
    match r.close.bind fun p => consumed? p pass.text l.offset with
    | none => some ({ l with offset := l.offset + 1 }, [])
    | some bounds =>
      let (pieces, stop) ← segments? target r pass.text 0 l.pending bounds
      some ({ l with carry := l.carry.truncate depth, offset := stop, pending := stop }, pieces)

/-- One round of the loop. -/
def step? (pass : Pass) (l : Loop) : Option (Loop × List Piece) :=
  match l.stack.length with
  | 0 => none
  | depth + 1 => do
    let target ← l.stack[depth]?
    match ← l.leave? pass target depth with
    | some result => some result
    | none =>
      match l.carry.active? depth with
      | none => l.enter? pass depth target
      | some index => l.inside? pass depth target index

/-- At most `n` rounds, after which the line has to be used up. -/
def run? (pass : Pass) : Nat → Loop → Option (Loop × List Piece)
  | 0, l => if pass.text.size ≤ l.offset then some (l, []) else none
  | n + 1, l =>
    if pass.text.size ≤ l.offset then some (l, [])
    else do
      let (l, pieces) ← l.step? pass
      let (l, more) ← run? pass n l
      some (l, pieces ++ more)

/-- Opens what a carry names from a level on, at most `n` levels. -/
def descend? (table : Table) (c : Carry) :
    (n level : Nat) → List Grammar → Option (List Grammar × Nat)
  | 0, level, stack => some (stack, level)
  | n + 1, level, stack => do
    let g ← stack[level]?
    match ruleAt? c level g with
    | none => some (stack, level)
    | some r =>
      match Grammar.nested? table r with
      | some nested =>
        if level + 1 < maxDepth then descend? table c n (level + 1) (stack ++ [nested])
        else some (stack, level)
      | none => some (stack, if r.close.isSome then level + 1 else level)

/-- How the loop begins. -/
def start? (pass : Pass) (root : Grammar) (c : Carry) : Option Loop := do
  let (stack, kept) ← descend? pass.table c maxDepth 0 [root]
  some ⟨stack, c.truncate kept, 0, 0⟩

/-- What is left at the end of the line, as a piece. -/
def last? (pass : Pass) (l : Loop) : Option Piece :=
  match l.stack.length with
  | 0 => none
  | depth + 1 => do
    let target ← l.stack[depth]?
    Piece.cut? target (labelAt l.carry depth target) pass.text l.pending pass.text.size

end Loop

/-- Tokenizes a line, if every access is in range and the line is used up in time. -/
def Tokenizer.tokenize? (k : Tokenizer) (quick : Bool) (t : Text) (c : Carry) : Option Line := do
  let pass : Pass := ⟨k.table, t, quick⟩
  let l ← Loop.start? pass k.root c
  let (l, pieces) ← Loop.run? pass t.size l
  let last ← l.last? pass
  some ⟨if quick then none else some (Run.ofPieces (pieces ++ [last])), l.carry⟩

/-! ## 3.  What makes an access safe -/

/-- A mark changes one level at most, to the rule that is marked. -/
theorem Carry.active?_mark_cases (c : Carry) (level rule l : Nat) :
    (c.mark level rule).active? l = c.active? l ∨
      l = level ∧ (c.mark level rule).active? l = some rule := by
  by_cases hfits : Markable level rule
  · rw [active?_mark c hfits.level_lt hfits.rule_lt]
    by_cases hl : l = level
    · exact Or.inr ⟨hl, if_pos hl⟩
    · exact Or.inl (if_neg hl)
  · exact Or.inl (by rw [mark_of_not_markable c hfits])

namespace Scan

variable {pass : Pass} {s s' : Scan} {pieces : List Piece}

/-- All that a round needs to know. -/
structure Safe (t : Text) (s : Scan) : Prop where
  /-- What is pending does not begin behind the offset. -/
  pending_le : s.pending ≤ s.offset
  /-- The offset is in the line. -/
  offset_le : s.offset ≤ t.size
  /-- A rule that is named at the innermost level is there. -/
  rule_lt : ∀ i, s.carry.active? s.stack.depth = some i → i < s.stack.top.rules.length
  /-- No rule is named above that level. -/
  above : ∀ l, s.stack.depth < l → s.carry.active? l = none

/-- Below a level at which nothing is open, nothing has to be known. -/
theorem safe_truncate {t : Text} {stack : Stack} {c : Carry} {offset pending : Nat}
    (hpending : pending ≤ offset) (hoffset : offset ≤ t.size) :
    Safe t ⟨stack, c.truncate stack.depth, offset, pending⟩ where
  pending_le := hpending
  offset_le := hoffset
  rule_lt i hi := by
    rw [Carry.active?_truncate, if_neg (Nat.lt_irrefl _)] at hi
    cases hi
  above l hl := by
    show (c.truncate stack.depth).active? l = none
    rw [Carry.active?_truncate, if_neg (Nat.not_lt_of_gt hl)]

/-- **Whatever word a line begins with, the first round is safe.** -/
theorem safe_start (pass : Pass) (root : Grammar) (c : Carry) :
    Safe pass.text (start pass root c) := by
  have hfits := Stack.fits_resume pass.table root c
  refine ⟨Nat.le_refl 0, Nat.zero_le _, fun i hi => ?_, fun l hl => ?_⟩
  · obtain ⟨r, hr, -⟩ := hfits.region i hi
    exact (List.getElem?_eq_some_iff.mp hr).1
  · have hnot : ¬ l < (Stack.resume pass.table root c).1.depth + 1 := Nat.not_lt_of_le hl
    show (Stack.resume pass.table root c).2.active? l = none
    rw [← hfits.above, Carry.active?_truncate, if_neg hnot]

/-- **Every way on keeps what makes a round safe.** -/
theorem Safe.goes (h : Safe pass.text s) (hlt : s.offset < pass.text.size)
    (hgoes : Goes pass s s' pieces) : Safe pass.text s' := by
  have hadvances := advances_of_goes h.pending_le hlt hgoes
  have hpending := hadvances.pending_le
  have hoffset := hadvances.offset_le
  cases hgoes with
  | leave => exact safe_truncate hpending hoffset
  | skip => exact ⟨hpending, hoffset, h.rule_lt, h.above⟩
  | @region index r _ _ hidle hfirst _ _ =>
    obtain ⟨-, -, hr⟩ := firstMatch?_eq_some hfirst
    obtain ⟨hindex, -⟩ := List.getElem?_eq_some_iff.mp (getElem?_of_tried hr)
    refine ⟨hpending, hoffset, fun i hi => ?_, fun l hl => ?_⟩
    · rcases s.carry.active?_mark_cases s.stack.depth index s.stack.depth with hsame | ⟨-, hmark⟩
      · cases hi.symm.trans (hsame.trans hidle)
      · cases hi.symm.trans hmark
        exact hindex
    · rcases s.carry.active?_mark_cases s.stack.depth index l with hsame | ⟨rfl, -⟩
      · exact hsame.trans (h.above l hl)
      · exact absurd hl (Nat.lt_irrefl _)
  | token => exact ⟨hpending, hoffset, h.rule_lt, h.above⟩
  | @descend index r _ g _ _ _ _ _ =>
    -- nothing was open above the level that is marked
    have habove : ∀ l, s.stack.depth < l →
        (s.carry.mark s.stack.depth index).active? l = none := by
      intro l hl
      rcases s.carry.active?_mark_cases s.stack.depth index l with hsame | ⟨rfl, -⟩
      · exact hsame.trans (h.above l hl)
      · exact absurd hl (Nat.lt_irrefl _)
    refine ⟨hpending, hoffset, fun i hi => ?_, fun l hl => habove l (Nat.lt_of_succ_lt hl)⟩
    cases hi.symm.trans (habove _ (Nat.lt_succ_self _))
  | escape => exact ⟨hpending, hoffset, h.rule_lt, h.above⟩
  | close => exact safe_truncate hpending hoffset
  | stay => exact ⟨hpending, hoffset, h.rule_lt, h.above⟩
  | stray => exact ⟨hpending, hoffset, h.rule_lt, h.above⟩

theorem Safe.steps (h : Safe pass.text s) (n : Nat) : Safe pass.text (steps pass n s).1 := by
  induction n generalizing s with
  | zero => exact h
  | succ n ih =>
    rcases Nat.lt_or_ge s.offset pass.text.size with hlt | hge
    · rw [steps_succ n hlt]
      exact ih (h.goes hlt (goes_step pass s))
    · rw [steps_of_size_le (n + 1) hge]
      exact h

end Scan

/-! ### Accesses to the stack -/

namespace Stack

/-- The grammars around the innermost one are those in front of it. -/
theorem grammars_of_below {s : Stack} {parent : Grammar} {below : List Grammar}
    (h : s.below = parent :: below) :
    s.grammars = (Stack.mk parent below).grammars ++ [s.top] ∧ s.depth = below.length + 1 := by
  constructor
  · rw [grammars, grammars, List.reverse_cons, h]
  · rw [depth, h, List.length_cons]

end Stack

namespace Text

/-- How many bytes in a row satisfy a predicate can be read off the bytes ahead. -/
theorem countWhile_eq (t : Text) (p : UInt8 → Bool) {n i : Nat} (hn : i + n = t.size) :
    t.countWhile p n i = ((t.toList.drop i).takeWhile p).length := by
  induction n generalizing i with
  | zero =>
    have hend : t.toList.drop i = [] := drop_toList_of_size_le (Nat.le_of_eq hn.symm)
    rw [hend]
    rfl
  | succ n ih =>
    have hi : i < t.size := by omega
    have hget : t[i]? = some t[i] := Array.getElem?_eq_getElem hi
    have hgetD : t.getD i 0 = t[i] := by rw [Array.getD_eq_getD_getElem?, hget, Option.getD_some]
    rw [countWhile, drop_toList_of_getElem? hget, List.takeWhile_cons, hgetD]
    split
    · rw [ih (by omega), List.length_cons]
    · rfl

theorem toList_slice_size (t : Text) (i : Nat) : (t.slice i t.size).toList = t.toList.drop i := by
  rw [slice, Array.toList_extract, List.extract_eq_take_drop, List.take_of_length_le]
  rw [List.length_drop, Array.length_toList]

end Text

namespace Loop

open Scan

/-- What the loop keeps where the scan has come to. -/
def ofScan (s : Scan) : Loop := ⟨s.stack.grammars, s.carry, s.offset, s.pending⟩

variable {pass : Pass} {s : Scan}

theorem labelAt_top (s : Scan) : labelAt s.carry s.stack.depth s.stack.top = s.openLabel := rfl

theorem getElem?_below {parent : Grammar} {below : List Grammar}
    (h : s.stack.below = parent :: below) :
    (ofScan s).stack[below.length]? = some parent ∧
      (ofScan s).stack.take (below.length + 1) = (Stack.mk parent below).grammars := by
  have hlength : (Stack.mk parent below).grammars.length = below.length + 1 :=
    Stack.length_grammars _
  rw [ofScan, (Stack.grammars_of_below h).1]
  constructor
  · rw [List.getElem?_append_left (by omega)]
    exact Stack.grammars_top ⟨parent, below⟩
  · rw [← hlength, List.take_left]

/-- The rule around the innermost grammar is looked up, and closes if it can. -/
theorem leave?_ofScan (h : Safe pass.text s) :
    (ofScan s).leave? pass s.stack.top s.stack.depth =
      some ((s.closeNested? pass).map fun result => (ofScan result.1, result.2)) := by
  cases hbelow : s.stack.below with
  | nil =>
    have hdepth : s.stack.depth = 0 := by rw [Stack.depth, hbelow, List.length_nil]
    rw [hdepth, leave?, closeNested?_eq, hbelow]
    rfl
  | cons parent below =>
    obtain ⟨hparent, htake⟩ := getElem?_below hbelow
    have hdepth := (Stack.grammars_of_below hbelow).2
    have hlabel : labelAt s.carry (below.length + 1) s.stack.top = s.openLabel := by
      rw [← hdepth, labelAt_top]
    rw [hdepth, leave?, closeNested?_eq, hbelow, hparent, htake]
    simp only [Option.bind_eq_bind, Option.bind_some, ofScan, ruleAt?, Stack.openRule?, Stack.depth]
    cases (s.carry.active? below.length).bind fun i => parent.rules[i]? with
    | none => rfl
    | some r =>
      dsimp only
      by_cases hescape : (r.escape.any fun p => (p.boundariesAt? pass.text s.offset).isSome) = true
      · simp only [hescape, if_true, Option.map_none]
      · simp only [hescape]
        cases hclose : r.close.bind fun p => consumed? p pass.text s.offset with
        | none => rfl
        | some bounds =>
          obtain ⟨p, -, hmatch⟩ := Option.bind_eq_some_iff.mp hclose
          have hsegments := segments?_eq (g := parent) (r := r) 0 h.offset_le
            (bounds_of_consumed? hmatch).1
          dsimp only
          rw [hlabel, Piece.cut?_eq h.pending_le h.offset_le, hsegments]
          rfl

/-- A rule that has matched enters. -/
theorem enterWith?_ofScan (h : Safe pass.text s) (index : Nat) (r : Rule Grammar)
    {bounds : List Nat} (hmatch : consumed? r.enter pass.text s.offset = some bounds) :
    (ofScan s).enterWith? pass s.stack.depth s.stack.top index r bounds =
      some (ofScan (s.enter pass index r bounds).1, (s.enter pass index r bounds).2) := by
  have hsegments := segments?_eq (g := s.stack.top) (r := r) 0 h.offset_le
    (bounds_of_consumed? hmatch).1
  rw [enterWith?, enter]
  simp only [ofScan, Option.bind_eq_bind, Piece.cut?_eq h.pending_le h.offset_le, Option.bind_some]
  cases hnested : Grammar.nested? pass.table r with
  | none =>
    simp only [Option.isNone_none, Bool.and_true]
    by_cases hclose : r.close.isSome = true
    · rw [if_pos hclose, if_pos hclose]
    · rw [if_neg hclose, if_neg hclose, hsegments]
      rfl
  | some g =>
    simp only [Option.isNone_some, Bool.and_false, Bool.false_eq_true, if_false, hsegments,
      Option.bind_some]
    by_cases hdepth : s.stack.depth + 1 < maxDepth
    · rw [if_pos hdepth, if_pos hdepth, Stack.grammars_push]
    · rw [if_neg hdepth, if_neg hdepth]

/-- The rules that are tried are there. -/
theorem tried?_eq (pass : Pass) (s : Scan) : tried? pass s.stack.top = some (s.tried pass) := by
  have hcount : s.stack.top.statefulCount ≤ s.stack.top.rules.length :=
    Rule.statefulCount_le fun i r hr hle =>
      absurd (List.getElem?_eq_some_iff.mp hr).1 (Nat.not_lt_of_le hle)
  rw [tried?, tried, leading?, if_pos hcount]
  split <;> rfl

/-- Where nothing is open, a rule enters or the scan goes on behind a word or a byte. -/
theorem enter?_ofScan (h : Safe pass.text s) :
    (ofScan s).enter? pass s.stack.depth s.stack.top =
      some (ofScan (s.enterRule pass).1, (s.enterRule pass).2) := by
  rw [enter?, tried?_eq, enterRule_eq]
  dsimp only [Option.bind_eq_bind, Option.bind_some]
  cases hfirst : firstMatch? pass.text s.offset 0 (s.tried pass) with
  | none =>
    have hahead : s.offset + (pass.text.size - s.offset) = pass.text.size :=
      Nat.add_sub_cancel' h.offset_le
    dsimp only [ofScan]
    rw [hfirst]
    dsimp only
    rw [Text.slice?_eq h.offset_le (Nat.le_refl _), skip, Text.countWhile_eq _ _ hahead,
      ← Text.toList_slice_size]
    rfl
  | some result =>
    obtain ⟨index, r, bounds⟩ := result
    obtain ⟨hmatch, -⟩ := firstMatch?_eq_some hfirst
    dsimp only [ofScan]
    rw [hfirst]
    exact enterWith?_ofScan h index r hmatch

/-- Where a rule is open, it is there. -/
theorem inside?_ofScan (h : Safe pass.text s) {index : Nat} {r : Rule Grammar}
    (hr : s.stack.top.rules[index]? = some r) :
    (ofScan s).inside? pass s.stack.depth s.stack.top index =
      some (ofScan (s.insideRegion pass r).1, (s.insideRegion pass r).2) := by
  rw [inside?, insideRegion_eq, hr]
  dsimp only [Option.bind_eq_bind, Option.bind_some, ofScan]
  cases r.escape.bind fun p => p.boundariesAt? pass.text s.offset with
  | some bounds => rfl
  | none =>
    cases hclose : r.close.bind fun p => consumed? p pass.text s.offset with
    | none => rfl
    | some bounds =>
      obtain ⟨p, -, hmatch⟩ := Option.bind_eq_some_iff.mp hclose
      have hsegments := segments?_eq (g := s.stack.top) (r := r) 0
        (Nat.le_trans h.pending_le h.offset_le) (bounds_of_consumed? hmatch).1
      dsimp only
      rw [hsegments]
      rfl

/-- **A safe round fails nowhere**, and does what a step of the scan does. -/
theorem step?_ofScan (h : Safe pass.text s) :
    (ofScan s).step? pass = some (ofScan (s.step pass).1, (s.step pass).2) := by
  have htop : (ofScan s).stack[s.stack.depth]? = some s.stack.top := s.stack.grammars_top
  have hlength : (ofScan s).stack.length = s.stack.depth + 1 := s.stack.length_grammars
  rw [step?, step_eq, hlength]
  dsimp only [Option.bind_eq_bind]
  rw [htop, Option.bind_some, leave?_ofScan h, Option.bind_some]
  cases s.closeNested? pass with
  | some result => rfl
  | none =>
    dsimp only [Option.map_none, ofScan]
    cases hactive : s.carry.active? s.stack.depth with
    | none => exact enter?_ofScan h
    | some index =>
      obtain ⟨r, hr⟩ : ∃ r, s.stack.top.rules[index]? = some r :=
        ⟨_, List.getElem?_eq_getElem (h.rule_lt index hactive)⟩
      dsimp only
      rw [hr]
      exact inside?_ofScan h hr

/-- **The line is used up** after at most as many rounds as there are bytes left. -/
theorem run?_ofScan (n : Nat) (h : Safe pass.text s) (hn : pass.text.size ≤ s.offset + n) :
    run? pass n (ofScan s) = some (ofScan (steps pass n s).1, (steps pass n s).2) := by
  induction n generalizing s with
  | zero => exact if_pos hn
  | succ n ih =>
    rcases Nat.lt_or_ge s.offset pass.text.size with hlt | hge
    · have hstep := advances_step pass h.pending_le hlt
      have hlt' := hstep.offset_lt
      have hrest := ih (h.goes hlt (goes_step pass s)) (by omega)
      have hopen : ¬ pass.text.size ≤ (ofScan s).offset := Nat.not_le_of_lt hlt
      rw [steps_succ n hlt, run?, if_neg hopen, step?_ofScan h]
      dsimp only [Option.bind_eq_bind, Option.bind_some]
      rw [hrest]
      rfl
    · have hend : pass.text.size ≤ (ofScan s).offset := hge
      rw [steps_of_size_le (n + 1) hge, run?, if_pos hend]

/-- The grammars of a carry are opened. -/
theorem descend?_ofStack (table : Table) (c : Carry) (n : Nat) (s : Stack) :
    descend? table c n s.depth s.grammars =
      some ((Stack.descend table c n s).1.grammars, (Stack.descend table c n s).2) := by
  induction n generalizing s with
  | zero => rfl
  | succ n ih =>
    rw [descend?, Stack.descend, s.grammars_top]
    dsimp only [Option.bind_eq_bind, Option.bind_some, ruleAt?, Stack.openRule?]
    cases (c.active? s.depth).bind fun i => s.top.rules[i]? with
    | none => rfl
    | some r =>
      dsimp only
      cases Grammar.nested? table r with
      | none => rfl
      | some g =>
        dsimp only
        split
        · rw [← Stack.grammars_push]
          exact ih (s.push g)
        · rfl

/-- The loop begins where the scan begins. -/
theorem start?_eq (pass : Pass) (root : Grammar) (c : Carry) :
    start? pass root c = some (ofScan (start pass root c)) := by
  have hdescend : descend? pass.table c maxDepth 0 [root] = _ :=
    descend?_ofStack pass.table c maxDepth (Stack.root root)
  rw [start?, hdescend]
  rfl

/-- What is left at the end of the line is there. -/
theorem last?_ofScan (hpending : s.pending ≤ pass.text.size) :
    (ofScan s).last? pass = some (s.pendingPiece pass.text pass.text.size) := by
  have htop : (ofScan s).stack[s.stack.depth]? = some s.stack.top := s.stack.grammars_top
  have hlength : (ofScan s).stack.length = s.stack.depth + 1 := s.stack.length_grammars
  rw [last?, hlength]
  dsimp only [Option.bind_eq_bind]
  rw [htop, Option.bind_some, ofScan, labelAt_top]
  exact Piece.cut?_eq hpending (Nat.le_refl _)

end Loop

/-! ## 4.  The whole line -/

namespace Scan

variable {pass : Pass} {s : Scan}

/-- One step more is a step at the end. -/
theorem steps_succ_last (n : Nat) :
    (steps pass (n + 1) s).1 =
      if pass.text.size ≤ (steps pass n s).1.offset then (steps pass n s).1
      else ((steps pass n s).1.step pass).1 := by
  induction n generalizing s with
  | zero =>
    rcases Nat.lt_or_ge s.offset pass.text.size with hlt | hge
    · rw [steps_succ 0 hlt]
      exact (if_neg (Nat.not_le_of_lt hlt)).symm
    · rw [steps_of_size_le 1 hge]
      exact (if_pos hge).symm
  | succ n ih =>
    rcases Nat.lt_or_ge s.offset pass.text.size with hlt | hge
    · rw [steps_succ (n + 1) hlt, steps_succ n hlt]
      exact ih
    · rw [steps_of_size_le (n + 2) hge, steps_of_size_le (n + 1) hge, if_pos hge]

/-- After `n` steps at least `n` bytes are behind the scan, or all of them. -/
theorem le_offset_steps (h : Safe pass.text s) (n : Nat) :
    min (s.offset + n) pass.text.size ≤ (steps pass n s).1.offset := by
  induction n with
  | zero => exact Nat.min_le_left _ _
  | succ n ih =>
    rw [steps_succ_last]
    split
    · next hend => exact Nat.le_trans (Nat.min_le_right _ _) hend
    · next hopen =>
      have hstep := advances_step pass (h.steps n).pending_le (Nat.lt_of_not_le hopen)
      have hlt := hstep.offset_lt
      omega

end Scan

/-- **Tokenizing fails nowhere and always moves forward**, whatever the grammars, the line, the
carry and the kind of pass are: told with accesses that can fail, it answers all the same, after at
most as many rounds as the line has bytes. In every round, what is pending begins in front of the
offset, the offset is in the line, no access fails, and the offset grows. -/
theorem Tokenizer.tokenize?_eq_some (k : Tokenizer) (quick : Bool) (t : Text) (c : Carry) :
    k.tokenize? quick t c = some (k.tokenize quick t c) ∧
      ∀ n, let pass : Pass := ⟨k.table, t, quick⟩
        let s := (Scan.steps pass n (Scan.start pass k.root c)).1
        let next := (Scan.steps pass (n + 1) (Scan.start pass k.root c)).1
        s.pending ≤ s.offset ∧ s.offset ≤ t.size ∧ min n t.size ≤ s.offset ∧
          (s.offset < t.size →
            s.offset < next.offset ∧
              ∃ pieces, (Loop.ofScan s).step? pass = some (Loop.ofScan next, pieces)) := by
  have hstart := Scan.safe_start ⟨k.table, t, quick⟩ k.root c
  constructor
  · let pass : Pass := ⟨k.table, t, quick⟩
    have hend : Scan.Safe t (Scan.steps pass t.size (Scan.start pass k.root c)).1 :=
      hstart.steps t.size
    have hlast := @Loop.last?_ofScan pass _ (Nat.le_trans hend.pending_le hend.offset_le)
    rw [tokenize?, Loop.start?_eq]
    simp only [Option.bind_eq_bind, Option.bind_some]
    rw [Loop.run?_ofScan t.size hstart (Nat.le_add_left _ _)]
    simp only [Option.bind_some]
    rw [hlast]
    rfl
  · intro n pass s next
    have hsafe : Scan.Safe t s := hstart.steps n
    have hoffset := Scan.le_offset_steps hstart n
    refine ⟨hsafe.pending_le, hsafe.offset_le, ?_, fun hlt => ?_⟩
    · rwa [show (Scan.start pass k.root c).offset = 0 from rfl, Nat.zero_add] at hoffset
    · have hnext : next = (s.step pass).1 := by
        show (Scan.steps pass (n + 1) _).1 = _
        rw [Scan.steps_succ_last, if_neg (Nat.not_le_of_lt hlt)]
      rw [hnext]
      exact ⟨(Scan.advances_step pass hsafe.pending_le hlt).offset_lt, _,
        Loop.step?_ofScan hsafe⟩

end Linewise
