import Linewise.Proofs.Tokenizer.Progress
import Mathlib.Data.List.Forall2

/-!
# Grammars that cannot be told apart

What a grammar does to a line depends on what its rules say and on the grammars that they open, but
not on where these grammars are kept, how they are numbered, or whether a rule owns them. Two
grammars, each with a table, are therefore compared by a *bisimulation*: a relation such that
related grammars have the same rules one by one, and the nested grammars of two such rules are
related again.

## 1.  Bisimulations

A relation may depend on the level at which a grammar is open. Since no grammar is opened at the
fifth level, nothing is asked there but that both grammars have one. A quick pass looks at which
rules are stateful, a full pass does not; so this is only asked for a quick pass.

## 2.  Scans of related grammars

Two scans are alike if they differ in the open grammars alone, and these are related level by level
(`Scan.Alike`). Each function of a scan takes alike scans to alike scans and cuts off the same
pieces.

## 3.  The whole line

`Tokenizer.tokenize_eq_of_bisimulation` and `Tokenizer.resume_of_bisimulation`: tokenizers with
related roots give the same runs, the same carries, and resume to the same carry and depth.
-/

namespace Linewise

/-! ## 1.  Bisimulations -/

section

variable (quick : Bool) (table table' : Table)

/-- Two rules say the same, and their nested grammars are related. -/
structure Rule.Alike (related : Grammar → Grammar → Prop) (r r' : Rule Grammar) : Prop where
  /-- They begin alike. -/
  enter : r'.enter = r.enter
  /-- They end alike. -/
  close : r'.close = r.close
  /-- They are kept open alike. -/
  escape : r'.escape = r.escape
  /-- They have the same first label. -/
  label : r'.label = r.label
  /-- They have the same other labels. -/
  moreLabels : r'.moreLabels = r.moreLabels
  /-- A quick pass stops behind both or behind none of them. -/
  stateful : quick = true → r'.isStateful = r.isStateful
  /-- They have related nested grammars, or none. -/
  nested : Option.Rel related (Grammar.nested? table r) (Grammar.nested? table' r')

/-- Two grammars say the same rule by rule, and the nested grammars of the rules are related. -/
structure Grammar.Alike (related : Grammar → Grammar → Prop) (g g' : Grammar) : Prop where
  /-- They have the same default label. -/
  defaultLabel : g'.defaultLabel = g.defaultLabel
  /-- They have the same symbols. -/
  symbols : g'.symbols = g.symbols
  /-- Their rules are alike, one by one. -/
  rules : List.Forall₂ (Rule.Alike quick table table' related) g.rules g'.rules

/-- Grammars that are related at a level are alike, and their nested grammars are related at the
next level, if there is one. -/
def Grammar.Bisimulation (R : Nat → Grammar → Grammar → Prop) : Prop :=
  ∀ level g g', R level g g' →
    Grammar.Alike quick table table' (fun h h' => level + 1 < maxDepth → R (level + 1) h h') g g'

end

variable {quick : Bool} {table table' : Table} {related : Grammar → Grammar → Prop}
  {R : Nat → Grammar → Grammar → Prop} {g g' : Grammar} {r r' : Rule Grammar} {t : Text}

theorem Rule.Alike.imp {related' : Grammar → Grammar → Prop}
    (h : Rule.Alike quick table table' related r r') (himp : ∀ g g', related g g' → related' g g') :
    Rule.Alike quick table table' related' r r' := by
  refine ⟨h.enter, h.close, h.escape, h.label, h.moreLabels, h.stateful, ?_⟩
  have hnested := h.nested
  generalize Grammar.nested? table r = x at hnested ⊢
  generalize Grammar.nested? table' r' = x' at hnested ⊢
  cases hnested with
  | none => exact .none
  | some hg => exact .some (himp _ _ hg)

/-- A relation that does not depend on the level. -/
theorem Grammar.bisimulation_of_forall {Q : Grammar → Grammar → Prop}
    (h : ∀ g g', Q g g' → Grammar.Alike quick table table' Q g g') :
    Grammar.Bisimulation quick table table' fun _ => Q := by
  intro level g g' hg
  obtain ⟨hlabel, hsymbols, hrules⟩ := h g g' hg
  exact ⟨hlabel, hsymbols, hrules.imp fun r r' hr => hr.imp fun _ _ hnext _ => hnext⟩

/-- The same rules are tried in a quick pass. -/
theorem Rule.statefulCount_of_alike {rules rules' : List (Rule Grammar)}
    (h : List.Forall₂ (Rule.Alike true table table' related) rules rules') :
    Rule.statefulCount rules' = Rule.statefulCount rules := by
  induction h with
  | nil => rfl
  | cons hrule _ ih => rw [Rule.statefulCount, Rule.statefulCount, ih, hrule.stateful rfl]

/-- Rules at the same index are alike. -/
theorem Rule.rel_getElem? {p : Rule Grammar → Rule Grammar → Prop}
    {rules rules' : List (Rule Grammar)} (h : List.Forall₂ p rules rules') (i : Nat) :
    Option.Rel p rules[i]? rules'[i]? := by
  induction h generalizing i with
  | nil => exact .none
  | cons hrule _ ih =>
    cases i with
    | zero => exact .some hrule
    | succ i => exact ih i

/-- A stretch of text has the same label in both grammars. -/
theorem Piece.under_of_alike (h : Grammar.Alike quick table table' related g g') (label : String)
    (start stop : Nat) : Piece.under g' label t start stop = Piece.under g label t start stop := by
  rw [Piece.under, Piece.under, Grammar.symbol?, Grammar.symbol?, h.symbols]

/-- A match is cut into the same segments. -/
theorem segments_of_alike (h : Grammar.Alike quick table table' related g g')
    (hr : Rule.Alike quick table table' related r r') (index last : Nat) (bounds : List Nat) :
    segments g' r' t index last bounds = segments g r t index last bounds := by
  induction bounds generalizing index last with
  | nil => rfl
  | cons bound bounds ih =>
    have hlabel : r'.label? index = r.label? index := by
      rw [Rule.label?, Rule.label?, Rule.labels, Rule.labels, hr.label, hr.moreLabels]
    rw [segments, segments, ih, hlabel, h.defaultLabel, Piece.under_of_alike h]

/-- Two rules enter at the same place with the same boundaries. -/
inductive EntersAlike (p : Rule Grammar → Rule Grammar → Prop) :
    Nat × Rule Grammar × List Nat → Nat × Rule Grammar × List Nat → Prop where
  /-- Rules that are alike, at the same index. -/
  | intro {index : Nat} {r r' : Rule Grammar} {bounds : List Nat} (h : p r r') :
      EntersAlike p (index, r, bounds) (index, r', bounds)

/-- The same rule enters first. -/
theorem firstMatch?_of_alike {rules rules' : List (Rule Grammar)}
    (h : List.Forall₂ (Rule.Alike quick table table' related) rules rules') (offset index : Nat) :
    Option.Rel (EntersAlike (Rule.Alike quick table table' related))
      (firstMatch? t offset index rules) (firstMatch? t offset index rules') := by
  induction h generalizing index with
  | nil => exact .none
  | cons hrule _ ih =>
    rw [firstMatch?_cons, firstMatch?_cons, hrule.enter]
    split
    · exact .some (.intro hrule)
    · exact ih (index + 1)

/-! ## 2.  Scans of related grammars -/

/-- Lists of open grammars are related level by level: the level of a grammar is the number of those
around it. -/
inductive Stack.Related (R : Nat → Grammar → Grammar → Prop) :
    List Grammar → List Grammar → Prop where
  /-- Nothing is open. -/
  | nil : Stack.Related R [] []
  /-- One grammar more is open. -/
  | cons {g g' : Grammar} {gs gs' : List Grammar} (h : R gs.length g g')
      (hrest : Stack.Related R gs gs') : Stack.Related R (g :: gs) (g' :: gs')

namespace Stack

variable {s s' : Stack} {c : Carry}

theorem Related.length_eq {gs gs' : List Grammar} (h : Related R gs gs') :
    gs'.length = gs.length := by
  induction h with
  | nil => rfl
  | cons _ _ ih => rw [List.length_cons, List.length_cons, ih]

/-- The open grammars are related level by level. -/
structure Alike (R : Nat → Grammar → Grammar → Prop) (s s' : Stack) : Prop where
  /-- The innermost ones. -/
  top : R s.depth s.top s'.top
  /-- Those around them. -/
  below : Related R s.below s'.below

theorem Alike.depth_eq (h : Alike R s s') : s'.depth = s.depth := h.below.length_eq

theorem Alike.push (h : Alike R s s') (hg : R (s.depth + 1) g g') :
    Alike R (s.push g) (s'.push g') :=
  ⟨hg, .cons h.top h.below⟩

/-- What related grammars open is related at the level above them. -/
abbrev Next (R : Nat → Grammar → Grammar → Prop) (s : Stack) (g g' : Grammar) : Prop :=
  s.depth + 1 < maxDepth → R (s.depth + 1) g g'

variable (hR : Grammar.Bisimulation quick table table' R)
include hR

theorem Alike.openRule? (h : Alike R s s') (c : Carry) :
    Option.Rel (Rule.Alike quick table table' (Next R s)) (s.openRule? c) (s'.openRule? c) := by
  rw [Stack.openRule?, Stack.openRule?, h.depth_eq]
  cases c.active? s.depth with
  | none => exact .none
  | some i => exact Rule.rel_getElem? (hR _ _ _ h.top).rules i

/-- A carry opens related grammars, and as much of it is accounted for. -/
theorem Alike.descend (h : Alike R s s') (c : Carry) (n : Nat) :
    Alike R (Stack.descend table c n s).1 (Stack.descend table' c n s').1 ∧
      (Stack.descend table' c n s').2 = (Stack.descend table c n s).2 := by
  induction n generalizing s s' with
  | zero => exact ⟨h, h.depth_eq⟩
  | succ n ih =>
    have hopen := h.openRule? hR c
    rw [Stack.descend, Stack.descend]
    generalize s.openRule? c = x, s'.openRule? c = x' at hopen
    cases hopen with
    | none => exact ⟨h, h.depth_eq⟩
    | @some r r' hr =>
      have hnested := hr.nested
      dsimp only
      rw [h.depth_eq, hr.close]
      generalize Grammar.nested? table r = y, Grammar.nested? table' r' = y' at hnested
      cases hnested with
      | none => exact ⟨h, rfl⟩
      | some hg =>
        dsimp only
        split
        · next hdepth => exact ih (h.push (hg hdepth))
        · exact ⟨h, rfl⟩

theorem resume_of_alike (hroot : R 0 g g') (c : Carry) :
    Alike R (resume table g c).1 (resume table' g' c).1 ∧
      (resume table' g' c).2 = (resume table g c).2 := by
  have hstart : Alike R (root g) (root g') := ⟨hroot, .nil⟩
  have hdescend := hstart.descend hR c maxDepth
  exact ⟨hdescend.1, congrArg c.truncate hdescend.2⟩

end Stack

namespace Scan

/-- Two scans differ in the open grammars alone, and these are related. -/
inductive Alike (R : Nat → Grammar → Grammar → Prop) : Scan → Scan → Prop where
  /-- Related stacks, and the same of everything else. -/
  | intro {stack stack' : Stack} {carry : Carry} {offset pending : Nat}
      (h : Stack.Alike R stack stack') :
      Alike R ⟨stack, carry, offset, pending⟩ ⟨stack', carry, offset, pending⟩

/-- Two scans have gone on to scans that are alike, and have cut off the same pieces. -/
inductive EndsAlike (R : Nat → Grammar → Grammar → Prop) :
    Scan × List Piece → Scan × List Piece → Prop where
  /-- Scans that are alike, and the same pieces. -/
  | intro {s s' : Scan} {pieces : List Piece} (h : Alike R s s') :
      EndsAlike R (s, pieces) (s', pieces)

variable {s s' : Scan}

section

variable (hR : Grammar.Bisimulation quick table table' R)
include hR

theorem Alike.pendingPiece (h : Alike R s s') (stop : Nat) :
    s'.pendingPiece t stop = s.pendingPiece t stop := by
  cases h with
  | @intro stack stack' carry offset pending hstack =>
    have hopen := hstack.openRule? hR carry
    have htop := hR _ _ _ hstack.top
    have hlabel : openLabel ⟨stack', carry, offset, pending⟩ =
        openLabel ⟨stack, carry, offset, pending⟩ := by
      rw [openLabel, openLabel]
      dsimp only
      generalize stack.openRule? carry = x, stack'.openRule? carry = x' at hopen
      cases hopen with
      | none => exact htop.defaultLabel
      | some hr => exact hr.label
    rw [Scan.pendingPiece, Scan.pendingPiece, hlabel]
    exact Piece.under_of_alike htop _ _ _

/-- Nested grammars are closed alike. -/
theorem Alike.closeNested? (h : Alike R s s') :
    Option.Rel (EndsAlike R) (s.closeNested? ⟨table, t, quick⟩)
      (s'.closeNested? ⟨table', t, quick⟩) := by
  have hpiece := fun stop => h.pendingPiece (t := t) hR stop
  cases h with
  | @intro stack stack' carry offset pending hstack =>
    obtain ⟨top, below⟩ := stack
    obtain ⟨top', below'⟩ := stack'
    have hbelow : Stack.Related R below below' := hstack.below
    cases hbelow with
    | nil => exact .none
    | @cons parent parent' rest rest' hparent hrest =>
      have houter : Stack.Alike R ⟨parent, rest⟩ ⟨parent', rest'⟩ := ⟨hparent, hrest⟩
      have hopen := houter.openRule? hR carry
      have hdepth : rest'.length = rest.length := houter.depth_eq
      rw [closeNested?_eq, closeNested?_eq]
      dsimp only
      generalize Stack.openRule? ⟨parent, rest⟩ carry = x,
        Stack.openRule? ⟨parent', rest'⟩ carry = x' at hopen
      cases hopen with
      | none => exact .none
      | @some r r' hr =>
        dsimp only
        rw [hr.escape, hr.close, hdepth, hpiece]
        split
        · exact .none
        · split
          · exact .none
          · rw [segments_of_alike (hR _ _ _ hparent) hr]
            exact .some (.intro (.intro houter))

theorem Alike.enter (h : Alike R s s')
    (hr : Rule.Alike quick table table' (Stack.Next R s.stack) r r') (index : Nat)
    (bounds : List Nat) :
    EndsAlike R (s.enter ⟨table, t, quick⟩ index r bounds)
      (s'.enter ⟨table', t, quick⟩ index r' bounds) := by
  cases h with
  | @intro stack stack' carry offset pending hstack =>
    have htop := hR _ _ _ hstack.top
    have hnested := hr.nested
    rw [Scan.enter, Scan.enter]
    dsimp only
    rw [segments_of_alike htop hr, Piece.under_of_alike htop, htop.defaultLabel, hr.close,
      hstack.depth_eq]
    generalize Grammar.nested? table r = y, Grammar.nested? table' r' = y' at hnested
    cases hnested with
    | none =>
      dsimp only
      split
      · exact .intro (.intro hstack)
      · exact .intro (.intro hstack)
    | some hg =>
      dsimp only
      split
      · next hdepth => exact .intro (.intro (hstack.push (hg hdepth)))
      · -- past the last level both are left closed, whatever they are
        exact .intro (.intro hstack)

/-- The same rules are tried. -/
theorem Alike.tried (h : Alike R s s') :
    List.Forall₂ (Rule.Alike quick table table' (Stack.Next R s.stack))
      (s.tried ⟨table, t, quick⟩) (s'.tried ⟨table', t, quick⟩) := by
  cases h with
  | intro hstack =>
    have htop := hR _ _ _ hstack.top
    rw [Scan.tried, Scan.tried]
    dsimp only
    cases quick with
    | false => exact htop.rules
    | true =>
      rw [if_pos rfl, if_pos rfl, Grammar.statefulCount, Grammar.statefulCount,
        Rule.statefulCount_of_alike htop.rules]
      exact List.forall₂_take _ htop.rules

theorem Alike.enterRule (h : Alike R s s') :
    EndsAlike R (s.enterRule ⟨table, t, quick⟩) (s'.enterRule ⟨table', t, quick⟩) := by
  have htried := h.tried (t := t) hR
  cases h with
  | @intro stack stack' carry offset pending hstack =>
    have hfirst := firstMatch?_of_alike (t := t) htried offset 0
    rw [enterRule_eq, enterRule_eq]
    dsimp only
    generalize Scan.tried ⟨table, t, quick⟩ _ = rules at hfirst ⊢
    generalize Scan.tried ⟨table', t, quick⟩ _ = rules' at hfirst ⊢
    generalize firstMatch? t offset 0 rules = x at hfirst ⊢
    generalize firstMatch? t offset 0 rules' = x' at hfirst ⊢
    cases hfirst with
    | none => exact .intro (.intro hstack)
    | some hmatch =>
      cases hmatch with
      | intro hr => exact Alike.enter hR (.intro hstack) hr _ _

theorem Alike.insideRegion (h : Alike R s s')
    (hr : Rule.Alike quick table table' (Stack.Next R s.stack) r r') :
    EndsAlike R (s.insideRegion ⟨table, t, quick⟩ r) (s'.insideRegion ⟨table', t, quick⟩ r') := by
  cases h with
  | @intro stack stack' carry offset pending hstack =>
    have htop := hR _ _ _ hstack.top
    rw [insideRegion_eq, insideRegion_eq]
    dsimp only
    rw [hr.escape, hr.close]
    split
    · exact .intro (.intro hstack)
    · split
      · exact .intro (.intro hstack)
      · rw [segments_of_alike htop hr, hstack.depth_eq]
        exact .intro (.intro hstack)

/-- **One step of scans that are alike ends in scans that are alike, with the same pieces.** -/
theorem Alike.step (h : Alike R s s') :
    EndsAlike R (s.step ⟨table, t, quick⟩) (s'.step ⟨table', t, quick⟩) := by
  have hnested := h.closeNested? (t := t) hR
  have henter := h.enterRule (t := t) hR
  rw [step_eq, step_eq]
  generalize s.closeNested? ⟨table, t, quick⟩ = x at hnested ⊢
  generalize s'.closeNested? ⟨table', t, quick⟩ = x' at hnested ⊢
  cases hnested with
  | some hend => exact hend
  | none =>
    cases h with
    | @intro stack stack' carry offset pending hstack =>
      dsimp only
      rw [hstack.depth_eq]
      split
      · exact henter
      · next index _ =>
        have hrule := Rule.rel_getElem? (hR _ _ _ hstack.top).rules index
        generalize stack.top.rules[index]? = y at hrule ⊢
        generalize stack'.top.rules[index]? = y' at hrule ⊢
        cases hrule with
        | none => exact .intro (.intro hstack)
        | some hr => exact Alike.insideRegion hR (.intro hstack) hr

/-- Any number of steps do so. -/
theorem Alike.steps (h : Alike R s s') (n : Nat) :
    EndsAlike R (Scan.steps ⟨table, t, quick⟩ n s) (Scan.steps ⟨table', t, quick⟩ n s') := by
  induction n generalizing s s' with
  | zero => exact .intro h
  | succ n ih =>
    have hstep := h.step (t := t) hR
    have hoffset : s'.offset = s.offset := by
      cases h
      rfl
    rcases Nat.lt_or_ge s.offset t.size with hlt | hge
    · rw [steps_succ n hlt, steps_succ n (hoffset ▸ hlt)]
      generalize s.step ⟨table, t, quick⟩ = x at hstep ⊢
      generalize s'.step ⟨table', t, quick⟩ = x' at hstep ⊢
      cases hstep with
      | @intro u u' pieces hnext =>
        have hrest := ih hnext
        generalize Scan.steps ⟨table, t, quick⟩ n u = y at hrest ⊢
        generalize Scan.steps ⟨table', t, quick⟩ n u' = y' at hrest ⊢
        cases hrest with
        | intro hend => exact .intro hend
    · rw [steps_of_size_le _ hge, steps_of_size_le _ (hoffset ▸ hge)]
      exact .intro h

/-! ## 3.  The whole line -/

theorem start_of_bisimulation (hroot : R 0 g g') (c : Carry) :
    Alike R (start ⟨table, t, quick⟩ g c) (start ⟨table', t, quick⟩ g' c) := by
  obtain ⟨hstack, hcarry⟩ := Stack.resume_of_alike hR hroot c
  rw [start, start]
  dsimp only
  rw [hcarry]
  exact .intro hstack

/-- Lines that begin with related grammars are scanned alike. -/
theorem line_of_bisimulation (hroot : R 0 g g') (c : Carry) :
    EndsAlike R (line ⟨table, t, quick⟩ g c) (line ⟨table', t, quick⟩ g' c) := by
  have hsteps := (start_of_bisimulation (t := t) hR hroot c).steps (t := t) hR t.size
  rw [line_eq, line_eq]
  dsimp only
  generalize steps ⟨table, t, quick⟩ t.size (start ⟨table, t, quick⟩ g c) = x at hsteps ⊢
  generalize steps ⟨table', t, quick⟩ t.size (start ⟨table', t, quick⟩ g' c) = x' at hsteps ⊢
  cases hsteps with
  | intro hend =>
    dsimp only
    rw [hend.pendingPiece hR]
    exact .intro hend

end

end Scan

namespace Tokenizer

variable {k k' : Tokenizer}

/-- Two tokenizers cannot be told apart. -/
structure Equivalent (k k' : Tokenizer) : Prop where
  /-- They give the same runs and the same carry. -/
  tokenize : ∀ quick t c, k'.tokenize quick t c = k.tokenize quick t c
  /-- They resume to the same carry. -/
  resume : ∀ c, (k'.resume c).2 = (k.resume c).2
  /-- They resume as many levels. -/
  depth : ∀ c, (k'.resume c).1.depth = (k.resume c).1.depth

/-- **Tokenizers with related roots give the same runs and the same carry.** -/
theorem tokenize_eq_of_bisimulation (hR : Grammar.Bisimulation quick k.table k'.table R)
    (hroot : R 0 k.root k'.root) (t : Text) (c : Carry) :
    k'.tokenize quick t c = k.tokenize quick t c := by
  have hline := Scan.line_of_bisimulation (t := t) hR hroot c
  rw [tokenize, tokenize]
  dsimp only
  generalize Scan.line ⟨k.table, t, quick⟩ k.root c = x at hline ⊢
  generalize Scan.line ⟨k'.table, t, quick⟩ k'.root c = x' at hline ⊢
  cases hline with
  | intro hend =>
    cases hend
    rfl

/-- **Tokenizers with related roots resume to the same carry and depth.** -/
theorem resume_of_bisimulation (hR : Grammar.Bisimulation quick k.table k'.table R)
    (hroot : R 0 k.root k'.root) (c : Carry) :
    (k'.resume c).2 = (k.resume c).2 ∧ (k'.resume c).1.depth = (k.resume c).1.depth := by
  obtain ⟨hstack, hcarry⟩ := Stack.resume_of_alike hR hroot c
  exact ⟨hcarry, hstack.depth_eq⟩

/-- Related roots cannot be told apart, if the relation is good for quick passes and for full ones.
-/
theorem equivalent_of_bisimulation
    (hR : ∀ quick, Grammar.Bisimulation quick k.table k'.table R)
    (hroot : R 0 k.root k'.root) : k.Equivalent k' where
  tokenize := fun quick t c => tokenize_eq_of_bisimulation (hR quick) hroot t c
  resume := fun c => (resume_of_bisimulation (hR true) hroot c).1
  depth := fun c => (resume_of_bisimulation (hR true) hroot c).2

end Tokenizer
end Linewise
