import Linewise.Document
import Linewise.Proofs.Tokenizer.QuickPass

/-!
# What a cache of carries can be trusted with

A cache is shared by reads, which extend it, and by edits, which outdate it. What holds all the
while is that its entries form a *chain* (`CarryCache.Chained`): each is the carry in which its line
ends, as the document reads now, if it begins in the entry before. Whether a quick or a full pass
has come to the entry is left open, since a cache holds both kinds.

## 1.  Chains

An operation only ever cuts a chain off, or adds one entry to its end. Replacing a line in place and
asking for it is the exception: if its carry is still the old one, all entries behind it stay.

## 2.  Histories

`CarryCache.Step` are the calls and edits, with what an edit has to be followed by, and
`CarryCache.History` is what they lead to from an empty cache. Every cache of a history is chained.

## 3.  Answers

Where quick and full passes end alike, a chain can only be the one that a full pass over the whole
document would leave behind (`CarryCache.Chained.carryAt_eq`). Then it does not matter what was
asked for before.
-/

namespace Linewise

namespace Document

/-- An edit keeps the lines in front of it. -/
theorem take_edit (lines : List Text) {line : Nat} (hline : line ≤ lines.length) (remove : Nat)
    (insert : List Text) : (edit lines line remove insert).take line = lines.take line := by
  have hlength : (lines.take line).length = line := List.length_take_of_le hline
  rw [edit, List.append_assoc, List.take_append_of_le_length (Nat.le_of_eq hlength.symm),
    List.take_take, Nat.min_self]

/-- Replacing a single line in place is an edit. -/
theorem edit_single (lines : List Text) {line : Nat} (hline : line < lines.length) (t : Text) :
    edit lines line 1 [t] = lines.set line t := by
  rw [edit, List.set_eq_take_append_cons_drop, if_pos hline, List.append_assoc]
  rfl

end Document

namespace CarryCache

variable {k : Tokenizer} {lines lines' : List Text} {c c' : CarryCache} {line : Nat} {t : Text}

/-! ## 1.  Chains -/

/-- Each entry is the carry in which a quick or a full pass over its line ends that begins in the
entry before. -/
def Chained (k : Tokenizer) (lines : List Text) (c : CarryCache) : Prop :=
  ∀ i carry, c.carries[i]? = some carry →
    ∃ t quick, lines[i]? = some t ∧ (k.tokenize quick t (c.carryAt i)).carry = carry

/-- The carry at the start of a line depends on the entry before it alone. -/
theorem carryAt_congr (h : ∀ i, i < line → c'.carries[i]? = c.carries[i]?) :
    c'.carryAt line = c.carryAt line := by
  cases line with
  | zero => rfl
  | succ before =>
    simp only [carryAt, List.getD_eq_getElem?_getD]
    rw [h before (Nat.lt_succ_self before)]

theorem chained_empty (k : Tokenizer) (lines : List Text) : Chained k lines empty := by
  intro i carry h
  simp [empty] at h

theorem getElem?_dropFrom {i : Nat} (c : CarryCache) (hi : i < line) :
    (c.dropFrom line).carries[i]? = c.carries[i]? := by
  simp [dropFrom, hi]

theorem size_dropFrom_le (c : CarryCache) (line : Nat) : (c.dropFrom line).size ≤ line := by
  simp only [size, CarryCache.dropFrom, List.length_take]
  exact Nat.min_le_left _ _

/-- What is cut off leaves a chain. -/
theorem Chained.dropFrom (h : Chained k lines c) (line : Nat) :
    Chained k lines (c.dropFrom line) := by
  intro i carry hentry
  have hi : i < line := by
    have hlt := (List.getElem?_eq_some_iff.mp hentry).1
    simp only [CarryCache.dropFrom, List.length_take] at hlt
    omega
  rw [getElem?_dropFrom c hi] at hentry
  obtain ⟨t, quick, hline, hcarry⟩ := h i carry hentry
  have hbefore : (c.dropFrom line).carryAt i = c.carryAt i :=
    carryAt_congr fun j hj => getElem?_dropFrom c (Nat.lt_trans hj hi)
  exact ⟨t, quick, hline, hbefore ▸ hcarry⟩

/-- A chain that does not reach a change does not notice it. -/
theorem Chained.of_take (h : Chained k lines c) (hsame : lines'.take line = lines.take line)
    (hsize : c.size ≤ line) : Chained k lines' c := by
  intro i carry hentry
  have hi : i < line := Nat.lt_of_lt_of_le (List.getElem?_eq_some_iff.mp hentry).1 hsize
  obtain ⟨t, quick, hline, hcarry⟩ := h i carry hentry
  refine ⟨t, quick, ?_, hcarry⟩
  rw [← hline, ← List.getElem?_take_of_lt hi, hsame, List.getElem?_take_of_lt hi]

/-- One more entry, derived from the last one. -/
theorem Chained.push (h : Chained k lines c) (hline : lines[c.size]? = some t) (quick : Bool) :
    Chained k lines ⟨c.carries ++ [(k.tokenize quick t (c.carryAt c.size)).carry]⟩ := by
  intro i carry hentry
  have hold : ∀ {j}, j < c.size →
      (c.carries ++ [(k.tokenize quick t (c.carryAt c.size)).carry])[j]? = c.carries[j]? :=
    fun hj => List.getElem?_append_left hj
  rcases Nat.lt_or_ge i c.size with hlt | hge
  · rw [hold hlt] at hentry
    obtain ⟨t', quick', hline', hcarry⟩ := h i carry hentry
    refine ⟨t', quick', hline', ?_⟩
    rw [← hcarry, carryAt_congr fun j hj => hold (Nat.lt_trans hj hlt)]
  · have hi : i = c.size := by
      have hlt := (List.getElem?_eq_some_iff.mp hentry).1
      simp only [List.length_append, List.length_singleton] at hlt
      exact Nat.le_antisymm (Nat.le_of_lt_succ hlt) hge
    subst hi
    have hlast : (k.tokenize quick t (c.carryAt c.size)).carry = carry := by
      simpa [size] using hentry
    refine ⟨t, quick, hline, ?_⟩
    rw [← hlast, carryAt_congr fun j hj => hold hj]

/-- The carries of consecutive lines are entries one after the other. -/
theorem Chained.append_derive {missing : List Text} (h : Chained k lines c)
    (hlines : ∀ j t, missing[j]? = some t → lines[c.size + j]? = some t) :
    Chained k lines ⟨c.carries ++ derive k (c.carryAt c.size) missing⟩ := by
  induction missing generalizing c with
  | nil =>
    rw [derive, List.append_nil]
    exact h
  | cons t missing ih =>
    have hpush := h.push (hlines 0 t rfl) true
    have hsize : size ⟨c.carries ++ [(k.tokenize true t (c.carryAt c.size)).carry]⟩ =
        c.size + 1 := by
      simp [size]
    have hnext : carryAt ⟨c.carries ++ [(k.tokenize true t (c.carryAt c.size)).carry]⟩
        (c.size + 1) = (k.tokenize true t (c.carryAt c.size)).carry := by
      simp [carryAt, size]
    have hrest := ih hpush fun j t' hj => by
      rw [hsize, Nat.add_assoc, Nat.add_comm 1]
      exact hlines (j + 1) t' hj
    rw [hsize, hnext, List.append_assoc] at hrest
    exact hrest

theorem length_derive (k : Tokenizer) (carry : Carry) (missing : List Text) :
    (derive k carry missing).length = missing.length := by
  induction missing generalizing carry with
  | nil => rfl
  | cons t missing ih => simp [derive, ih]

/-- A chain is extended by a chain. -/
theorem Chained.extend (h : Chained k lines c) (line : Nat) :
    Chained k lines (c.extend k lines line) := by
  refine h.append_derive fun j t hj => ?_
  rw [List.getElem?_drop] at hj
  have hlt : c.size + j < line := by
    have hlength := (List.getElem?_eq_some_iff.mp hj).1
    simp only [List.length_take] at hlength
    omega
  rwa [List.getElem?_take_of_lt hlt] at hj

/-- An extended cache reaches up to the line. -/
theorem le_size_extend (c : CarryCache) (k : Tokenizer) (hline : line ≤ lines.length) :
    line ≤ (c.extend k lines line).size := by
  simp only [CarryCache.extend, size, List.length_append, length_derive, List.length_drop,
    List.length_take]
  omega

/-- A cache that reaches up to the line is not extended. -/
theorem extend_of_le (hsize : line ≤ c.size) : c.extend k lines line = c := by
  have hmissing : (lines.take line).drop c.size = [] := by
    refine List.drop_eq_nil_of_le (Nat.le_trans ?_ hsize)
    rw [List.length_take]
    exact Nat.min_le_left _ _
  rw [CarryCache.extend, hmissing, derive, List.append_nil]

/-- The carry in which a line ends is remembered by a chain, if what was remembered of the line
before is a chain as well. -/
theorem chained_remember (hcut : Chained k lines (c.dropFrom line)) (hsize : line ≤ c.size)
    (hline : lines[line]? = some t) (quick : Bool)
    (hkept : c.carries[line]? = some (k.tokenize quick t (c.carryAt line)).carry →
      Chained k lines c) :
    Chained k lines (c.remember line (k.tokenize quick t (c.carryAt line)).carry) := by
  rw [CarryCache.remember]
  split
  · next hsame => exact hkept hsame
  · have hlength : (c.dropFrom line).size = line := List.length_take_of_le hsize
    have hbefore : (c.dropFrom line).carryAt line = c.carryAt line :=
      carryAt_congr fun j hj => getElem?_dropFrom c hj
    have hpush := hcut.push (by rw [hlength]; exact hline) quick
    rw [hlength, hbefore] at hpush
    exact hpush

/-- A line that is asked for is tokenized from the carry before it, which is then remembered. -/
theorem highlight_eq (c : CarryCache) (hline : lines[line]? = some t) :
    c.highlight k lines line =
      let extended := c.extend k lines line
      let result := k.tokenize false t (extended.carryAt line)
      (some result, extended.remember line result.carry) := by
  have hlt : line < lines.length := (List.getElem?_eq_some_iff.mp hline).1
  rw [CarryCache.highlight, hline]
  simp [carryBefore, Nat.min_eq_left (Nat.le_of_lt hlt)]

/-- Asking for a line leaves a chain. -/
theorem Chained.highlight (h : Chained k lines c) (line : Nat) :
    Chained k lines (c.highlight k lines line).2 := by
  cases hline : lines[line]? with
  | none =>
    rw [CarryCache.highlight, hline]
    exact h
  | some t =>
    have hle : line ≤ lines.length := Nat.le_of_lt (List.getElem?_eq_some_iff.mp hline).1
    have hextended := h.extend line
    rw [highlight_eq c hline]
    exact chained_remember (hextended.dropFrom line) (le_size_extend c k hle) hline false
      fun _ => hextended

/-- **A line that was replaced in place and is asked for** leaves a chain. If its carry is the old
one, then the entries behind it are still derived from it. -/
theorem Chained.highlight_set (h : Chained k lines c) (hline : line < lines.length) (t : Text) :
    Chained k (lines.set line t) (c.highlight k (lines.set line t) line).2 := by
  have hsame : (lines.set line t).take line = lines.take line :=
    List.take_set_of_le (Nat.le_refl line)
  rcases Nat.lt_or_ge line c.size with hlt | hge
  · have hset : (lines.set line t)[line]? = some t := by simp [hline]
    rw [highlight_eq c hset, extend_of_le (Nat.le_of_lt hlt)]
    refine chained_remember ((h.dropFrom line).of_take hsame (size_dropFrom_le c line))
      (Nat.le_of_lt hlt) hset false fun hentry i carry hi => ?_
    by_cases heq : i = line
    · subst heq
      exact ⟨t, false, hset, Option.some.inj (hentry.symm.trans hi)⟩
    · rw [List.getElem?_set_ne (Ne.symm heq)]
      exact h i carry hi
  · exact (h.of_take hsame hge).highlight line

/-! ## 2.  Histories -/

/-- A call, or an edit together with the call that has to follow it: from a document and its cache
to the next ones. -/
inductive Step (k : Tokenizer) :
    List Text → CarryCache → List Text → CarryCache → Prop where
  /-- The carry in front of a line is asked for. -/
  | carryBefore (lines : List Text) (c : CarryCache) (line : Nat) :
      Step k lines c lines (c.carryBefore k lines line).2
  /-- A line is asked for. -/
  | highlight (lines : List Text) (c : CarryCache) (line : Nat) :
      Step k lines c lines (c.highlight k lines line).2
  /-- Entries are dropped. -/
  | dropFrom (lines : List Text) (c : CarryCache) (line : Nat) :
      Step k lines c lines (c.dropFrom line)
  /-- All entries are dropped. -/
  | dropAll (lines : List Text) (c : CarryCache) : Step k lines c lines empty
  /-- The lines from `line` on are changed, and the entries from there on, or from further in front,
  are dropped. -/
  | edit {lines lines' : List Text} {line : Nat} (c : CarryCache)
      (hsame : lines'.take line = lines.take line) (first : Nat) (hfirst : first ≤ line) :
      Step k lines c lines' (c.dropFrom first)
  /-- A line is replaced in place, and asked for. -/
  | replace {lines : List Text} {line : Nat} (c : CarryCache) (hline : line < lines.length)
      (t : Text) :
      Step k lines c (lines.set line t) (c.highlight k (lines.set line t) line).2

/-- An edit of a document is a step, if it is followed by dropping the entries from its first line
on. -/
theorem step_edit (c : CarryCache) (hline : line ≤ lines.length) (remove : Nat)
    (insert : List Text) {first : Nat} (hfirst : first ≤ line) :
    Step k lines c (Document.edit lines line remove insert) (c.dropFrom first) :=
  .edit c (Document.take_edit lines hline remove insert) first hfirst

/-- An edit of a single line is a step, if it is followed by asking for that line. -/
theorem step_edit_single (c : CarryCache) (hline : line < lines.length) (t : Text) :
    Step k lines c (Document.edit lines line 1 [t])
      (c.highlight k (Document.edit lines line 1 [t]) line).2 := by
  rw [Document.edit_single lines hline]
  exact .replace c hline t

/-- What a document and its cache can have become, from an empty cache on. -/
inductive History (k : Tokenizer) : List Text → CarryCache → Prop where
  /-- A cache is empty at first. -/
  | start (lines : List Text) : History k lines empty
  /-- One step more. -/
  | step {lines lines' : List Text} {c c' : CarryCache} (h : History k lines c)
      (hstep : Step k lines c lines' c') : History k lines' c'

theorem Step.chained (hstep : Step k lines c lines' c') (h : Chained k lines c) :
    Chained k lines' c' := by
  cases hstep with
  | carryBefore _ line => exact h.extend line
  | highlight _ line => exact h.highlight line
  | dropFrom _ line => exact h.dropFrom line
  | dropAll => exact chained_empty k lines
  | edit _ hsame first hfirst =>
    exact (h.dropFrom first).of_take hsame (Nat.le_trans (size_dropFrom_le c first) hfirst)
  | replace _ hline t => exact h.highlight_set hline t

theorem History.chained (h : History k lines c) : Chained k lines c := by
  induction h with
  | start lines => exact chained_empty k lines
  | step h hstep ih => exact hstep.chained ih

/-! ## 3.  Answers -/

/-- The carry at the end of some lines, of which each was tokenized in full. -/
def carryAfter (k : Tokenizer) (lines : List Text) : Carry :=
  lines.foldl (fun carry t => (k.tokenize false t carry).carry) .clear

theorem carryAfter_take_succ {i : Nat} (hline : lines[i]? = some t) :
    carryAfter k (lines.take (i + 1)) =
      (k.tokenize false t (carryAfter k (lines.take i))).carry := by
  rw [carryAfter, List.take_add_one, hline, Option.toList_some, List.foldl_append]
  rfl

/-- **Where both passes end alike, a chain is that of the full pass.** -/
theorem Chained.carryAt_eq (h : Chained k lines c)
    (hpasses : ∀ t carry, (k.tokenize true t carry).carry = (k.tokenize false t carry).carry)
    (hline : line ≤ c.size) : c.carryAt line = carryAfter k (lines.take line) := by
  induction line with
  | zero => rfl
  | succ before ih =>
    have hentry : c.carries[before]? = some c.carries[before] := List.getElem?_eq_getElem hline
    obtain ⟨t, quick, hbefore, hcarry⟩ := h before _ hentry
    have hfull : (k.tokenize quick t (c.carryAt before)).carry =
        (k.tokenize false t (c.carryAt before)).carry := by
      cases quick with
      | true => exact hpasses t _
      | false => rfl
    rw [carryAfter_take_succ hbefore, ← ih (Nat.le_of_lt hline), ← hfull, hcarry]
    simp [carryAt, List.getD_eq_getElem?_getD, hentry]

/-- A line that is asked for is tokenized from where a full pass over the lines before it ends. -/
theorem Chained.highlight_eq_of_passes (h : Chained k lines c)
    (hpasses : ∀ t carry, (k.tokenize true t carry).carry = (k.tokenize false t carry).carry)
    (line : Nat) :
    (c.highlight k lines line).1 =
      lines[line]?.map fun t => k.tokenize false t (carryAfter k (lines.take line)) := by
  cases hline : lines[line]? with
  | none =>
    rw [CarryCache.highlight, hline]
    rfl
  | some t =>
    have hle : line ≤ lines.length := Nat.le_of_lt (List.getElem?_eq_some_iff.mp hline).1
    rw [CarryCache.highlight_eq c hline]
    simp only [Option.map_some]
    rw [(h.extend line).carryAt_eq hpasses (le_size_extend c k hle)]

/-- **Every cache of a history is a chain**: each entry belongs to a line of the document, and is
the carry in which a quick or a full pass over it ends that begins in the entry before. If quick and
full passes end alike, each entry is that of a full pass from the first line on, and every line that
is asked for is tokenized from there. -/
theorem chain_of_history (h : History k lines c) :
    (∀ i carry, c.carries[i]? = some carry → i < lines.length ∧
      ∃ t quick, lines[i]? = some t ∧ (k.tokenize quick t (c.carryAt i)).carry = carry) ∧
    ((∀ t carry, (k.tokenize true t carry).carry = (k.tokenize false t carry).carry) →
      (∀ i carry, c.carries[i]? = some carry → carry = carryAfter k (lines.take (i + 1))) ∧
      ∀ line, (c.highlight k lines line).1 =
        lines[line]?.map fun t => k.tokenize false t (carryAfter k (lines.take line))) := by
  have hchained := h.chained
  refine ⟨fun i carry hentry => ?_, fun hpasses => ⟨fun i carry hentry => ?_, ?_⟩⟩
  · obtain ⟨t, quick, hline, hcarry⟩ := hchained i carry hentry
    exact ⟨(List.getElem?_eq_some_iff.mp hline).1, t, quick, hline, hcarry⟩
  · rw [← hchained.carryAt_eq hpasses (List.getElem?_eq_some_iff.mp hentry).1]
    simp [carryAt, List.getD_eq_getElem?_getD, hentry]
  · exact hchained.highlight_eq_of_passes hpasses

/-- A tokenizer for comments between `<` and `>`. -/
def angleTokenizer : Tokenizer where
  table := Table.empty
  root :=
    { name := none
      defaultLabel := "default"
      rules := [⟨.lua "<", some (.lua ">"), none, "comment", [], none⟩]
      symbols := .ofList [] }

theorem passes_angleTokenizer (t : Text) (carry : Carry) :
    (angleTokenizer.tokenize true t carry).carry =
      (angleTokenizer.tokenize false t carry).carry := by
  have hopens : ∀ g, Grammar.Opens angleTokenizer.table angleTokenizer.root g →
      g = angleTokenizer.root := by
    intro g h
    induction h with
    | root => rfl
    | @nested g g' r _ hr hg ih =>
      subst ih
      simp only [angleTokenizer, List.mem_singleton] at hr
      subst hr
      cases hg
  refine Tokenizer.quick_eq_full_of_statefulCount angleTokenizer (fun g hg => ?_) (fun g hg => ?_)
    t carry
  · rw [hopens g hg]
    decide
  · rw [hopens g hg]
    decide

/-- A comment that went on to the next line is closed by an edit of the first one. That changes the
carry of the first line, so what was remembered of the next one is forgotten. -/
theorem chain_of_history_angles :
    History angleTokenizer [Text.ofString "<a>", Text.ofString "b"] ⟨[⟨0⟩]⟩ ∧
      (∀ t carry, (angleTokenizer.tokenize true t carry).carry =
        (angleTokenizer.tokenize false t carry).carry) ∧
      (highlight ⟨[⟨0⟩]⟩ angleTokenizer [Text.ofString "<a>", Text.ofString "b"] 1).1 =
        some (angleTokenizer.tokenize false (Text.ofString "b") ⟨0⟩) := by
  have hopened : (highlight empty angleTokenizer [Text.ofString "<a", Text.ofString "b"] 1).2 =
      ⟨[⟨1⟩, ⟨1⟩]⟩ := by
    decide +kernel
  have hclosed : (highlight ⟨[⟨1⟩, ⟨1⟩]⟩ angleTokenizer
      [Text.ofString "<a>", Text.ofString "b"] 0).2 = ⟨[⟨0⟩]⟩ := by
    decide +kernel
  have hread : History angleTokenizer [Text.ofString "<a", Text.ofString "b"] ⟨[⟨1⟩, ⟨1⟩]⟩ :=
    hopened ▸ (History.start _).step (.highlight _ _ 1)
  have hfirst : 0 < [Text.ofString "<a", Text.ofString "b"].length := Nat.two_pos
  have hedited := hread.step (.replace _ hfirst (Text.ofString "<a>"))
  rw [List.set_cons_zero, hclosed] at hedited
  have hcarry : carryAfter angleTokenizer [Text.ofString "<a>"] = ⟨0⟩ := by
    decide +kernel
  have hanswer := ((chain_of_history hedited).2 passes_angleTokenizer).2 1
  refine ⟨hedited, passes_angleTokenizer, hanswer.trans ?_⟩
  rw [← hcarry]
  rfl

end CarryCache
end Linewise
