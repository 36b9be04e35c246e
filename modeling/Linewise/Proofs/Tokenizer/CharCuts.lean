import Linewise.Proofs.LuaPattern.CharBoundaries
import Linewise.Proofs.Tokenizer.Coverage
import Linewise.Proofs.Tokenizer.Resumption
import Linewise.Proofs.Tokenizer.RestOfLine

/-!
# Where runs split characters

A Lua-style pattern moves by whole characters, but a scan does not. Where no rule enters, it passes
over a single byte, and so it does inside of a region, behind an escape, and inside of a nested
grammar. So a pattern may be tried inside of a character, and if it matches there, the line is cut
inside of that character. This file says that the runs split a character nowhere else.

## 1.  Matches

The boundaries of a match lie in front of characters, except that they may be the place at which it
began (`atChar_or_eq_of_consumed?`).

## 2.  Cuts

A scan *cuts* the line where it stands (`Scan.Cuts`) if a rule enters there, if the rule around the
innermost grammar closes there, or if a region ends by a match with a boundary right there. Every
piece of a line ends in front of a character or at such a place (`Scan.stops_rest`).

## 3.  Whole lines

A cut is seen in the runs if the label changes there. So the places inside of characters at which
runs end are the cuts at which the label changes (`Tokenizer.edge_iff_cutsAt`). If no pattern
matches inside of a character, there are none (`Tokenizer.atChar_of_edge`).

The set `[é]` accepts the second byte of `ĩ`, since it is that of `é` as well
(`Tokenizer.edge_insideChar`).
-/

namespace Linewise

/-! ## 1.  Matches -/

/-- All patterns of the rule are Lua-style patterns. -/
def Rule.IsLua (r : Rule Grammar) : Prop :=
  ∀ p ∈ r.enter :: (r.close.toList ++ r.escape.toList), ∃ source, p = .lua source

theorem Rule.IsLua.enter {r : Rule Grammar} (h : r.IsLua) : ∃ source, r.enter = .lua source :=
  h _ List.mem_cons_self

theorem Rule.IsLua.close {r : Rule Grammar} (h : r.IsLua) {p : Pattern} (hp : r.close = some p) :
    ∃ source, p = .lua source :=
  h _ (List.mem_cons_of_mem _ (List.mem_append_left _ (Option.mem_toList.mpr hp)))

/-- **A match has its boundaries in front of characters**, or where it began. -/
theorem atChar_or_eq_of_consumed? {p : Pattern} {t : Text} {offset : Nat} {bounds : List Nat}
    (hp : ∃ source, p = .lua source) (hle : offset ≤ t.size)
    (h : consumed? p t offset = some bounds) : ∀ b ∈ bounds, t.AtChar b ∨ b = offset := by
  obtain ⟨source, rfl⟩ := hp
  obtain ⟨hmatch, -⟩ := consumed?_eq_some h
  intro b hb
  have hwithin := (LuaPattern.places_within t offset).boundaries
    ⟨Nat.le_refl _, hle, Or.inl rfl⟩ hmatch b hb
  rcases hwithin.place with heq | rfl | ⟨c, hc, hstart⟩
  · exact Or.inr heq
  · exact Or.inl t.atChar_size
  · refine Or.inl ⟨hwithin.le_size, fun d hd => ?_⟩
    cases hc.symm.trans hd
    exact hstart

/-- The segments of a match end where it is cut off from, or at its boundaries. -/
theorem stops_segments {P : Nat → Prop} (g : Grammar) (r : Rule Grammar) (t : Text)
    (index : Nat) {last : Nat} {bounds : List Nat} (hlast : P last) (hbounds : ∀ b ∈ bounds, P b) :
    P (segments g r t index last bounds).2 ∧
      ∀ p ∈ (segments g r t index last bounds).1, P p.stop := by
  induction bounds generalizing index last with
  | nil => exact ⟨hlast, by simp [segments]⟩
  | cons bound bounds ih =>
    obtain ⟨hbound, hbounds⟩ := List.forall_mem_cons.mp hbounds
    have hstop : P (max bound last) := by
      rcases Nat.le_total bound last with hle | hle
      · rw [Nat.max_eq_right hle]
        exact hlast
      · rw [Nat.max_eq_left hle]
        exact hbound
    obtain ⟨hfinal, hpieces⟩ := ih (index + 1) hstop hbounds
    exact ⟨hfinal, List.forall_mem_cons.mpr ⟨hstop, hpieces⟩⟩

/-- A match that is cut off as a whole, with a piece in front of it, is cut where it begins and in
front of characters. -/
theorem stops_match {P : Nat → Prop} {p : Pattern} {t : Text} {offset : Nat} {bounds : List Nat}
    (g : Grammar) (r : Rule Grammar) {before : Piece} (hchar : ∀ n, t.AtChar n → P n)
    (hp : ∃ source, p = .lua source) (hle : offset ≤ t.size)
    (hmatch : consumed? p t offset = some bounds) (hoffset : P offset)
    (hbefore : before.stop = offset) :
    P (segments g r t 0 offset bounds).2 ∧
      ∀ piece ∈ before :: (segments g r t 0 offset bounds).1, P piece.stop := by
  have hbounds : ∀ b ∈ bounds, P b := by
    intro b hb
    rcases atChar_or_eq_of_consumed? hp hle hmatch b hb with hb | rfl
    · exact hchar b hb
    · exact hoffset
  obtain ⟨hfinal, hpieces⟩ := stops_segments g r t 0 hoffset hbounds
  exact ⟨hfinal, List.forall_mem_cons.mpr ⟨hbefore ▸ hoffset, hpieces⟩⟩

/-! ## 2.  Cuts -/

namespace Scan

/-- A match that begins where the scan stands cuts the line there. -/
inductive Cuts (pass : Pass) (s : Scan) : Prop where
  /-- The rule around the innermost grammar closes. -/
  | leave (h : (s.closeNested? pass).isSome = true) : Cuts pass s
  /-- A rule enters. -/
  | enter {m : Nat × Rule Grammar × List Nat} (hnested : s.closeNested? pass = none)
      (hidle : s.carry.active? s.stack.depth = none)
      (hfirst : firstMatch? pass.text s.offset 0 (s.tried pass) = some m) : Cuts pass s
  /-- A region ends, and its first segments end here. -/
  | close {r : Rule Grammar} {p : Pattern} {bounds : List Nat}
      (hnested : s.closeNested? pass = none) (hr : s.stack.openRule? s.carry = some r)
      (hescape : r.escape.bind (fun p => p.boundariesAt? pass.text s.offset) = none)
      (hclose : r.close = some p) (hmatch : consumed? p pass.text s.offset = some bounds)
      (hmem : s.offset ∈ bounds) : Cuts pass s

/-- On the rest of the line, a scan cuts it at a place. -/
inductive CutsAt (pass : Pass) : Scan → Nat → Prop where
  /-- At once. -/
  | here {s : Scan} (hlt : s.offset < pass.text.size) (h : Cuts pass s) : CutsAt pass s s.offset
  /-- Behind a step. -/
  | later {s : Scan} {n : Nat} (hlt : s.offset < pass.text.size)
      (h : CutsAt pass (s.step pass).1 n) : CutsAt pass s n

variable {pass : Pass} {root : Grammar} {s s' : Scan} {pieces : List Piece} {P : Nat → Prop}

theorem CutsAt.lt_size {n : Nat} (h : CutsAt pass s n) : n < pass.text.size := by
  induction h with
  | here hlt _ => exact hlt
  | later _ _ ih => exact ih

section

variable (hlua : ∀ g, Grammar.Opens pass.table root g → ∀ r ∈ g.rules, r.IsLua)
  (hchar : ∀ n, pass.text.AtChar n → P n)
include hlua

theorem isLua_of_openRule? {u : Stack} {c : Carry} {r : Rule Grammar}
    (hu : Stack.Reachable pass.table root u) (hr : u.openRule? c = some r) : r.IsLua := by
  obtain ⟨i, -, hi⟩ := Option.bind_eq_some_iff.mp hr
  exact hlua _ (hu _ List.mem_cons_self) r (List.mem_of_getElem? hi)

theorem isLua_of_firstMatch? {index : Nat} {r : Rule Grammar} {bounds : List Nat}
    (hreach : Stack.Reachable pass.table root s.stack)
    (hfirst : firstMatch? pass.text s.offset 0 (s.tried pass) = some (index, r, bounds)) :
    r.IsLua := by
  obtain ⟨-, -, hi⟩ := firstMatch?_eq_some hfirst
  exact hlua _ (hreach _ List.mem_cons_self) r (List.mem_of_getElem? (getElem?_of_tried hi))

include hchar

/-- **The pieces of one step end in front of characters, where the line was cut before, or where the
scan cuts it now.** -/
theorem stops_of_goes (hreach : Stack.Reachable pass.table root s.stack)
    (hle : s.offset ≤ pass.text.size) (hpending : P s.pending) (hcuts : Cuts pass s → P s.offset)
    (h : Goes pass s s' pieces) : P s'.pending ∧ ∀ p ∈ pieces, P p.stop := by
  cases h with
  | @leave parent below r p bounds hbelow hr hescape hclose hmatch =>
    have hoffset := hcuts (.leave (isSome_closeNested? hbelow hr hescape hclose hmatch))
    have houter : Stack.Reachable pass.table root ⟨parent, below⟩ := fun g hg =>
      hreach g (List.mem_cons_of_mem _ (hbelow ▸ hg))
    have hr := isLua_of_openRule? hlua houter hr
    exact stops_match parent _ hchar (hr.close hclose) hle hmatch hoffset rfl
  | region hnested hidle hfirst _ _ =>
    have hoffset := hcuts (.enter hnested hidle hfirst)
    exact ⟨hoffset, List.forall_mem_singleton.mpr hoffset⟩
  | token hnested hidle hfirst _ =>
    have hoffset := hcuts (.enter hnested hidle hfirst)
    have hr := isLua_of_firstMatch? hlua hreach hfirst
    obtain ⟨hmatch, -⟩ := firstMatch?_eq_some hfirst
    exact stops_match s.stack.top _ hchar hr.enter hle hmatch hoffset rfl
  | descend hnested hidle hfirst _ _ =>
    have hoffset := hcuts (.enter hnested hidle hfirst)
    have hr := isLua_of_firstMatch? hlua hreach hfirst
    obtain ⟨hmatch, -⟩ := firstMatch?_eq_some hfirst
    exact stops_match s.stack.top _ hchar hr.enter hle hmatch hoffset rfl
  | @close r p bounds hnested hr hescape hclose hmatch =>
    -- the segments begin where the region does, so its end cuts only at its boundaries
    refine stops_segments s.stack.top r pass.text 0 hpending fun b hb => ?_
    have hlua := (isLua_of_openRule? hlua hreach hr).close hclose
    rcases atChar_or_eq_of_consumed? hlua hle hmatch b hb with hb | rfl
    · exact hchar b hb
    · exact hcuts (.close hnested hr hescape hclose hmatch hb)
  | skip => exact ⟨hpending, by simp⟩
  | escape => exact ⟨hpending, by simp⟩
  | stay => exact ⟨hpending, by simp⟩
  | stray => exact ⟨hpending, by simp⟩

variable (pass) in
/-- **Every piece of a line ends in front of a character or where the scan cuts the line.** The
induction is on what is left of the line. -/
theorem stops_rest (hreach : Stack.Reachable pass.table root s.stack)
    (hoffset : s.pending ≤ s.offset) (hle : s.offset ≤ pass.text.size) (hpending : P s.pending)
    (hcuts : ∀ n, CutsAt pass s n → P n) : ∀ p ∈ (rest pass s).2, P p.stop := by
  induction s, hle using ahead_induction with
  | done s hle hend =>
    rw [rest, restBy_of_size_le (Nat.le_of_eq hend.symm)]
    exact List.forall_mem_singleton.mpr (hchar _ pass.text.atChar_size)
  | step s hle hlt ih =>
    have hgoes := goes_step pass s
    have hstep := advances_step pass hoffset hlt
    obtain ⟨hpending', hpieces⟩ := stops_of_goes hlua hchar hreach hle hpending
      (fun h => hcuts _ (.here hlt h)) hgoes
    have hrest := ih (s.step pass).1 hstep.offset_le hstep.offset_lt
      (reachable_of_goes hreach hgoes) hstep.pending_le hpending'
      (fun n h => hcuts n (.later hlt h))
    rw [rest, restBy_of_step (forward_step pass) hoffset hlt, ← rest]
    exact List.forall_mem_append.mpr ⟨hpieces, hrest⟩

end

/-- A cut begins with a match that counts, of the enter or the end of some rule. -/
theorem Cuts.exists_consumed? (hreach : Stack.Reachable pass.table root s.stack)
    (h : Cuts pass s) : ∃ g, Grammar.Opens pass.table root g ∧ ∃ r ∈ g.rules,
      ∃ p ∈ r.enter :: r.close.toList, (consumed? p pass.text s.offset).isSome = true := by
  cases h with
  | leave h =>
    obtain ⟨⟨s', pieces⟩, hcloses⟩ := Option.isSome_iff_exists.mp h
    obtain ⟨parent, below, r, p, bounds, hbelow, hr, -, hclose, hmatch, -, -⟩ :=
      closeNested?_eq_some hcloses
    obtain ⟨i, -, hi⟩ := Option.bind_eq_some_iff.mp hr
    exact ⟨parent, hreach _ (List.mem_cons_of_mem _ (hbelow ▸ List.mem_cons_self)), r,
      List.mem_of_getElem? hi, p, List.mem_cons_of_mem _ (Option.mem_toList.mpr hclose),
      by rw [hmatch, Option.isSome_some]⟩
  | enter _ _ hfirst =>
    obtain ⟨hmatch, -, hi⟩ := firstMatch?_eq_some hfirst
    exact ⟨_, hreach _ List.mem_cons_self, _, List.mem_of_getElem? (getElem?_of_tried hi), _,
      List.mem_cons_self, by rw [hmatch, Option.isSome_some]⟩
  | @close r p bounds _ hr _ hclose hmatch _ =>
    obtain ⟨i, -, hi⟩ := Option.bind_eq_some_iff.mp hr
    exact ⟨_, hreach _ List.mem_cons_self, r, List.mem_of_getElem? hi, p,
      List.mem_cons_of_mem _ (Option.mem_toList.mpr hclose), by rw [hmatch, Option.isSome_some]⟩

/-- So a place at which a line is cut is one at which some rule has a match that counts. -/
theorem CutsAt.exists_consumed? {n : Nat} (hreach : Stack.Reachable pass.table root s.stack)
    (h : CutsAt pass s n) : ∃ g, Grammar.Opens pass.table root g ∧ ∃ r ∈ g.rules,
      ∃ p ∈ r.enter :: r.close.toList, (consumed? p pass.text n).isSome = true := by
  induction h with
  | here _ h => exact h.exists_consumed? hreach
  | later _ _ ih => exact ih (reachable_of_goes hreach (goes_step pass _))

end Scan

/-! ## 3.  Whole lines -/

namespace Tokenizer

/-- The labels that a full pass gives to the bytes of a line. -/
def byteLabels (k : Tokenizer) (t : Text) (c : Carry) : List String :=
  (Scan.line (k.passOn false t) k.root c).2.flatMap Piece.byteLabels

/-- On a line, a full pass cuts at a place. -/
def CutsAt (k : Tokenizer) (t : Text) (c : Carry) (n : Nat) : Prop :=
  Scan.CutsAt (k.passOn false t) (Scan.start (k.passOn false t) k.root c) n

variable {k : Tokenizer}
  (hlua : ∀ g, Grammar.Opens k.table k.root g → ∀ r ∈ g.rules, r.IsLua)
include hlua

/-- A run ends in front of a character, or where the line is cut and the label changes. -/
theorem atChar_or_cutsAt_of_edge {t : Text} (ht : t.Encoded) (c : Carry) {n : Nat}
    (hedge : Run.Edge (Run.ofPieces (Scan.line (k.passOn false t) k.root c).2) n) :
    t.AtChar n ∨
      k.CutsAt t c n ∧ (k.byteLabels t c)[n - 1]? ≠ (k.byteLabels t c)[n]? := by
  have hencodes := Run.encodes_ofPieces (Scan.line (k.passOn false t) k.root c).2
  obtain ⟨-, htile⟩ := Scan.covers_line (k.passOn false t) k.root c
  have hlength : (k.byteLabels t c).length = t.size := htile.length_byteLabels
  have hstops : ∀ p ∈ (Scan.line (k.passOn false t) k.root c).2,
      t.AtChar p.stop ∨ k.CutsAt t c p.stop := by
    rw [Scan.line_eq_rest]
    exact Scan.stops_rest (k.passOn false t) (P := fun n => t.AtChar n ∨ k.CutsAt t c n)
      hlua (fun _ => Or.inl) (Stack.fits_resume k.table k.root c).path.reachable (Nat.le_refl 0)
      (Nat.zero_le _) (Or.inl ht.atChar_zero) fun _ => Or.inr
  rcases Nat.eq_zero_or_pos n with rfl | hpos
  · exact Or.inl ht.atChar_zero
  rcases Nat.eq_or_lt_of_le (hlength ▸ hencodes.le_of_edge hedge) with rfl | hlt
  · exact Or.inl t.atChar_size
  -- inside of the line the label changes, so a piece ends
  have hne := (hencodes.edge_iff hpos (hlength ▸ hlt)).mp hedge
  by_contra hneither
  obtain ⟨hchar, hcuts⟩ := not_or.mp hneither
  refine hne (htile.getElem?_eq hpos fun p hp heq => ?_)
  exact (heq ▸ hstops p hp).elim hchar fun h => hcuts ⟨h, hne⟩

/-- **Inside of a character, a run ends exactly where the line is cut and the label changes.** -/
theorem edge_iff_cutsAt (line : String) (c : Carry) :
    ∃ runs, (k.tokenize false (Text.ofString line) c).runs = some runs ∧
      ∀ n, ¬(Text.ofString line).AtChar n →
        (Run.Edge runs n ↔
          k.CutsAt (Text.ofString line) c n ∧
            (k.byteLabels (Text.ofString line) c)[n - 1]? ≠
              (k.byteLabels (Text.ofString line) c)[n]?) := by
  have ht := Text.encoded_ofString line
  refine ⟨_, rfl, fun n hn => ⟨fun hedge => ?_, fun ⟨hcuts, hne⟩ => ?_⟩⟩
  · exact (atChar_or_cutsAt_of_edge hlua ht c hedge).resolve_left hn
  · have hencodes := Run.encodes_ofPieces
      (Scan.line (k.passOn false (Text.ofString line)) k.root c).2
    obtain ⟨-, htile⟩ := Scan.covers_line (k.passOn false (Text.ofString line)) k.root c
    have hlength : (k.byteLabels (Text.ofString line) c).length = (Text.ofString line).size :=
      htile.length_byteLabels
    have hpos : 0 < n := Nat.pos_of_ne_zero fun hzero => hn (hzero ▸ ht.atChar_zero)
    exact (hencodes.edge_iff hpos (hlength ▸ hcuts.lt_size)).mpr hne

/-- **If the rules of a grammar, and of all that it opens, find nothing inside of the characters of
a line, its runs split no character.** -/
theorem atChar_of_edge (line : String) (c : Carry)
    (hnone : ∀ g, Grammar.Opens k.table k.root g → ∀ r ∈ g.rules,
      ∀ p ∈ r.enter :: r.close.toList, ∀ n < (Text.ofString line).size,
        ¬(Text.ofString line).AtChar n → consumed? p (Text.ofString line) n = none) :
    ∃ runs, (k.tokenize false (Text.ofString line) c).runs = some runs ∧
      ∀ n, Run.Edge runs n → (Text.ofString line).AtChar n := by
  refine ⟨_, rfl, fun n hedge => ?_⟩
  by_contra hn
  obtain ⟨hcuts, -⟩ :=
    (atChar_or_cutsAt_of_edge hlua (Text.encoded_ofString line) c hedge).resolve_left hn
  obtain ⟨g, hg, r, hr, p, hp, hmatch⟩ :=
    hcuts.exists_consumed? (Stack.fits_resume k.table k.root c).path.reachable
  obtain ⟨bounds, hbounds⟩ := Option.isSome_iff_exists.mp hmatch
  cases hbounds.symm.trans (hnone g hg r hr p hp n hcuts.lt_size hn)

omit hlua

/-- A tokenizer whose only token is a set with a character of two bytes. -/
def accentTokenizer : Tokenizer where
  table := Table.empty
  root :=
    { name := none
      defaultLabel := "default"
      rules := [.token (.lua "[é]") "token"]
      symbols := .ofList [] }

theorem isLua_accentTokenizer : ∀ g, Grammar.Opens accentTokenizer.table accentTokenizer.root g →
    ∀ r ∈ g.rules, r.IsLua := by
  intro g hg r hr p hp
  rw [hg.eq_root (by simp [accentTokenizer, Rule.token, Grammar.nested?])] at hr
  rw [List.mem_singleton.mp hr] at hp
  exact ⟨_, List.mem_singleton.mp hp⟩

/-- A line that is cut inside of its only character. -/
theorem cutsAt_accents :
    (∀ g, Grammar.Opens accentTokenizer.table accentTokenizer.root g → ∀ r ∈ g.rules, r.IsLua) ∧
      ¬(Text.ofString "ĩ").AtChar 1 ∧ accentTokenizer.CutsAt (Text.ofString "ĩ") .clear 1 := by
  have hinside : ¬(Text.ofString "ĩ").AtChar 1 := fun h =>
    absurd (h.not_continuation 0xA9 (by decide)) (by decide)
  have htokenize : (accentTokenizer.tokenize false (Text.ofString "ĩ") .clear).runs =
      some [⟨"default", 1⟩, ⟨"token", 1⟩] := by
    decide +kernel
  obtain ⟨runs, hruns, hedge⟩ := edge_iff_cutsAt isLua_accentTokenizer "ĩ" .clear
  rw [htokenize] at hruns
  obtain rfl := Option.some.inj hruns
  exact ⟨isLua_accentTokenizer, hinside, ((hedge 1 hinside).mp ⟨1, rfl⟩).1⟩

/-- **The runs of `ĩ` split it.** -/
theorem edge_insideChar :
    (∀ g, Grammar.Opens accentTokenizer.table accentTokenizer.root g → ∀ r ∈ g.rules, r.IsLua) ∧
      (accentTokenizer.tokenize false (Text.ofString "ĩ") .clear).runs =
        some [⟨"default", 1⟩, ⟨"token", 1⟩] ∧
      Run.Edge [⟨"default", 1⟩, ⟨"token", 1⟩] 1 ∧ ¬(Text.ofString "ĩ").AtChar 1 := by
  refine ⟨isLua_accentTokenizer, ?_, ⟨1, rfl⟩, fun h => ?_⟩
  · decide +kernel
  · exact absurd (h.not_continuation 0xA9 (by decide)) (by decide)

end Tokenizer
end Linewise
