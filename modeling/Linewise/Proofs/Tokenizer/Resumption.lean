import Linewise.Proofs.Carry
import Linewise.Proofs.Grammar.Stateful
import Linewise.Proofs.Tokenizer.Progress

/-!
# The end of a line resumes to itself

The carry at the end of a line says exactly which grammars are open there: resuming it opens the
grammars that the scan of the line had open, and drops nothing. So the carry that a host stores
beside a line stands for the whole state of the scan.

## 1.  The invariant

A stack and a carry fit together, `Stack.Fits`, if the carry leads from the root to the top of the
stack (`Stack.Path`), names at the level of the top either no rule or a region, and has nothing
above that level. The path is what `Stack.descend` walks, so a stack that fits is what the carry
resumes to (`Stack.resume_of_fits`).

## 2.  Where it comes from, and what keeps it

Resuming any word at all ends in a stack and a carry that fit (`Stack.fits_resume`), since what does
not fit is cut off. One step of a scan keeps the fit (`Scan.fits_step`): a region marks or clears
the level of the top, a nested grammar marks that level and opens the next one, and the close of a
nested grammar clears its level and everything above it, open regions included. A rule is only
marked if its index fits into a field, which is where the number of rules comes in.

Whatever the number of rules, only what can be opened from the root is ever open
(`Stack.Reachable`, `Scan.reachable_of_goes`).

## 3.  At the end of the line

`Tokenizer.resume_tokenize` puts this together and spells out, level by level, what the carry at the
end of a line says.
-/

namespace Linewise

namespace Stack

variable {table : Table} {root g : Grammar} {s : Stack} {c c' : Carry} {r : Rule Grammar} {n : Nat}

/-- The open grammars, the root first. -/
def grammars (s : Stack) : List Grammar := (s.top :: s.below).reverse

@[simp] theorem depth_root (g : Grammar) : (Stack.root g).depth = 0 := rfl

@[simp] theorem depth_push (s : Stack) (g : Grammar) : (s.push g).depth = s.depth + 1 := rfl

theorem length_grammars (s : Stack) : s.grammars.length = s.depth + 1 := by
  rw [grammars, List.length_reverse, List.length_cons, depth]

theorem grammars_push (s : Stack) (g : Grammar) : (s.push g).grammars = s.grammars ++ [g] := by
  rw [grammars, push, List.reverse_cons, grammars]

theorem grammars_top (s : Stack) : s.grammars[s.depth]? = some s.top := by
  rw [grammars, List.reverse_cons, List.getElem?_append_right]
  · simp [depth]
  · simp [depth]

/-! ## 1.  The invariant -/

/-- The carry leads from the root to the top of the stack: each grammar above the root is the nested
grammar of the rule that the carry names one level below. -/
inductive Path (table : Table) (root : Grammar) (c : Carry) : Stack → Prop where
  /-- Only the root is open. -/
  | root : Path table root c (Stack.root root)
  /-- The nested grammar of a rule is open as well. -/
  | push {s : Stack} {r : Rule Grammar} {g : Grammar} (h : Path table root c s)
      (hr : s.openRule? c = some r) (hg : Grammar.nested? table r = some g)
      (hdepth : s.depth + 1 < maxDepth) : Path table root c (s.push g)

/-- A stack and a carry fit together. -/
structure Fits (table : Table) (root : Grammar) (s : Stack) (c : Carry) : Prop where
  /-- The carry leads to the top of the stack. -/
  path : Path table root c s
  /-- What it names there is a region. -/
  region : ∀ i, c.active? s.depth = some i →
    ∃ r, s.top.rules[i]? = some r ∧ r.close.isSome = true ∧ Grammar.nested? table r = none
  /-- Nothing is open above the top. -/
  above : c.truncate (s.depth + 1) = c

theorem Path.depth_lt (h : Path table root c s) : s.depth < maxDepth := by
  cases h with
  | root => exact show 0 < 4 by decide
  | push _ _ _ hdepth => exact hdepth

/-- What a carry says about the levels below the top is all that its path depends on. -/
theorem Path.congr (h : Path table root c s) (hlevels : ∀ l < s.depth, c'.active? l = c.active? l) :
    Path table root c' s := by
  induction h with
  | root => exact .root
  | @push s r g hpath hr hg hdepth ih =>
    refine .push (ih fun l hl => hlevels l (Nat.lt_succ_of_lt hl)) ?_ hg hdepth
    rw [openRule?, hlevels s.depth (Nat.lt_succ_self _), ← openRule?]
    exact hr

/-- Everything on the stack can be opened from the root. -/
theorem Path.opens (h : Path table root c s) : Grammar.Opens table root s.top := by
  induction h with
  | root => exact .root
  | @push s r g hpath hr hg hdepth ih =>
    obtain ⟨i, -, hi⟩ := Option.bind_eq_some_iff.mp hr
    exact ih.nested (List.mem_of_getElem? hi) hg

/-- All open grammars can be opened from the root. -/
def Reachable (table : Table) (root : Grammar) (s : Stack) : Prop :=
  ∀ g ∈ s.top :: s.below, Grammar.Opens table root g

theorem Path.reachable (h : Path table root c s) : Reachable table root s := by
  induction h with
  | root => exact List.forall_mem_singleton.mpr .root
  | @push s r g hpath hr hg hdepth ih =>
    exact List.forall_mem_cons.mpr ⟨(hpath.push hr hg hdepth).opens, ih⟩

/-- Without nested grammars there is no path beyond the root. -/
theorem Path.eq_root (hroot : ∀ r ∈ root.rules, Grammar.nested? table r = none)
    (h : Path table root c s) : s = Stack.root root := by
  induction h with
  | root => rfl
  | push _ hr hg _ ih =>
    rw [ih] at hr
    obtain ⟨i, -, hi⟩ := Option.bind_eq_some_iff.mp hr
    rw [hroot _ (List.mem_of_getElem? hi)] at hg
    cases hg

/-- Descending walks along a path. -/
theorem Path.descend_eq (h : Path table root c s) (n : Nat) :
    descend table c (n + s.depth) (Stack.root root) = descend table c n s := by
  induction h generalizing n with
  | root => rfl
  | @push s r g hpath hr hg hdepth ih =>
    rw [depth_push, show n + (s.depth + 1) = n + 1 + s.depth by omega, ih (n + 1)]
    simp only [descend, hr, hg, if_pos hdepth]

/-- At the top of a stack that fits, descending ends. -/
theorem Fits.descend_eq (h : Fits table root s c) (n : Nat) :
    ∃ kept, descend table c (n + 1) s = (s, kept) ∧ c.truncate kept = c := by
  cases hactive : c.active? s.depth with
  | none =>
    have hopen : s.openRule? c = none := by
      rw [openRule?, hactive, Option.bind_none]
    refine ⟨s.depth, ?_, Carry.truncate_of_field_eq_zero h.above
      (Carry.active?_eq_none_iff.mp hactive)⟩
    simp only [descend, hopen]
  | some i =>
    obtain ⟨r, hi, hclose, hnested⟩ := h.region i hactive
    have hopen : s.openRule? c = some r := by
      rw [openRule?, hactive, Option.bind_some, hi]
    refine ⟨s.depth + 1, ?_, h.above⟩
    simp only [descend, hopen, hnested, hclose, if_true]

/-- **A stack that fits a carry is what the carry resumes to**, and nothing of the carry is
dropped. -/
theorem resume_of_fits (h : Fits table root s c) : resume table root c = (s, c) := by
  have hlt := h.path.depth_lt
  obtain ⟨kept, hdescend, hkept⟩ := h.descend_eq (maxDepth - s.depth - 1)
  have hwalk := h.path.descend_eq (maxDepth - s.depth - 1 + 1)
  rw [show maxDepth - s.depth - 1 + 1 + s.depth = maxDepth by omega, hdescend] at hwalk
  rw [resume, hwalk]
  exact congrArg (Prod.mk s) hkept

/-! ## 2.  Where it comes from, and what keeps it -/

/-- A carry that is cut off at the top of its path fits, if what is left at the top is a region. -/
theorem Path.fits_truncate (h : Path table root c s) : Fits table root s (c.truncate s.depth) where
  path := h.congr fun l hl => by rw [Carry.active?_truncate, if_pos hl]
  region := by
    intro i hi
    rw [Carry.active?_truncate, if_neg (Nat.lt_irrefl _)] at hi
    cases hi
  above := by rw [Carry.truncate_truncate, Nat.min_eq_left (Nat.le_succ _)]

/-- A carry that names a region at the top of its path fits, once it is cut off above. -/
theorem Path.fits_truncate_succ (h : Path table root c s) (hr : s.openRule? c = some r)
    (hclose : r.close.isSome = true) (hnested : Grammar.nested? table r = none) :
    Fits table root s (c.truncate (s.depth + 1)) where
  path := h.congr fun l hl => by rw [Carry.active?_truncate, if_pos (Nat.lt_succ_of_lt hl)]
  region := by
    intro i hi
    rw [Carry.active?_truncate, if_pos (Nat.lt_succ_self _)] at hi
    rw [openRule?, hi, Option.bind_some] at hr
    exact ⟨r, hr, hclose, hnested⟩
  above := by rw [Carry.truncate_truncate, Nat.min_self]

theorem Path.fits_descend (h : Path table root c s) (n : Nat) :
    Fits table root (descend table c n s).1 (c.truncate (descend table c n s).2) := by
  induction n generalizing s with
  | zero => exact h.fits_truncate
  | succ n ih =>
    rw [descend]
    split
    · exact h.fits_truncate
    · next r hr =>
      split
      · next g hg =>
        split
        · next hdepth => exact ih (h.push hr hg hdepth)
        · exact h.fits_truncate
      · next hnested =>
        by_cases hclose : r.close.isSome = true
        · rw [if_pos hclose]
          exact h.fits_truncate_succ hr hclose hnested
        · rw [if_neg hclose]
          exact h.fits_truncate

/-- **Whatever word a line begins with, what is resumed fits.** -/
theorem fits_resume (table : Table) (root : Grammar) (c : Carry) :
    Fits table root (resume table root c).1 (resume table root c).2 :=
  Path.fits_descend .root maxDepth

/-- In the clear carry, only the root is open. -/
theorem fits_clear (table : Table) (root : Grammar) : Fits table root (Stack.root root) .clear :=
  Carry.truncate_zero .clear ▸ Path.root.fits_truncate

/-- The grammars around the innermost one are a path as well. -/
theorem Path.outer {parent : Grammar} {below : List Grammar} (h : Path table root c s)
    (hbelow : s.below = parent :: below) : Path table root c ⟨parent, below⟩ := by
  cases h with
  | root => cases hbelow
  | push hpath _ _ _ =>
    cases hbelow
    exact hpath

/-- An open region at the top, marked. -/
theorem Fits.mark_region {i : Nat} (h : Fits table root s c) (hi : s.top.rules[i]? = some r)
    (hrule : i < maxRules) (hclose : r.close.isSome = true)
    (hnested : Grammar.nested? table r = none) : Fits table root s (c.mark s.depth i) where
  path := h.path.congr fun l hl => by
    rw [Carry.active?_mark c h.path.depth_lt hrule, if_neg (Nat.ne_of_lt hl)]
  region := by
    intro j hj
    rw [Carry.active?_mark c h.path.depth_lt hrule, if_pos rfl] at hj
    cases hj
    exact ⟨r, hi, hclose, hnested⟩
  above := Carry.truncate_mark (Nat.lt_succ_self _) h.above

/-- A nested grammar, marked and opened. -/
theorem Fits.mark_push {i : Nat} (h : Fits table root s c) (hi : s.top.rules[i]? = some r)
    (hrule : i < maxRules) (hg : Grammar.nested? table r = some g)
    (hdepth : s.depth + 1 < maxDepth) : Fits table root (s.push g) (c.mark s.depth i) := by
  have hactive := Carry.active?_mark c h.path.depth_lt hrule
  have hpath : Path table root (c.mark s.depth i) s :=
    h.path.congr fun l hl => by rw [hactive, if_neg (Nat.ne_of_lt hl)]
  refine ⟨hpath.push (r := r) ?_ hg hdepth, ?_, ?_⟩
  · rw [openRule?, hactive, if_pos rfl, Option.bind_some, hi]
  · -- above the level that was marked, nothing was open
    intro j hj
    have hclear : c.active? (s.depth + 1) = none := by
      rw [← h.above, Carry.active?_truncate, if_neg (Nat.lt_irrefl _)]
    rw [depth_push, hactive, if_neg (Nat.succ_ne_self _), hclear] at hj
    cases hj
  · exact Carry.truncate_mark (Nat.lt_succ_of_lt (Nat.lt_succ_self _))
      (Carry.truncate_of_le h.above (Nat.le_succ _))

end Stack

namespace Scan

variable {pass : Pass} {root : Grammar} {s s' : Scan} {pieces : List Piece}

/-- **One step keeps the fit.** -/
theorem fits_of_goes (hroot : Grammar.Numbered pass.table root)
    (h : Stack.Fits pass.table root s.stack s.carry) (hgoes : Goes pass s s' pieces) :
    Stack.Fits pass.table root s'.stack s'.carry := by
  have index_lt : ∀ {i : Nat} {r : Rule Grammar},
      s.stack.top.rules[i]? = some r → i < maxRules := by
    intro i r hi
    obtain ⟨hlt, -⟩ := List.getElem?_eq_some_iff.mp hi
    exact Nat.lt_of_lt_of_le hlt (hroot _ h.path.opens)
  cases hgoes with
  | leave hbelow _ _ _ _ =>
    exact (h.path.outer hbelow).fits_truncate
  | skip => exact h
  | region _ _ hfirst hplain hclose =>
    obtain ⟨-, -, hi⟩ := firstMatch?_eq_some hfirst
    have hrule := getElem?_of_tried hi
    exact h.mark_region hrule (index_lt hrule) hclose hplain
  | token => exact h
  | descend _ _ hfirst hg hdepth =>
    obtain ⟨-, -, hi⟩ := firstMatch?_eq_some hfirst
    have hrule := getElem?_of_tried hi
    exact h.mark_push hrule (index_lt hrule) hg hdepth
  | escape => exact h
  | close => exact h.path.fits_truncate
  | stay => exact h
  | stray => exact h

theorem fits_steps (hroot : Grammar.Numbered pass.table root) (n : Nat)
    (h : Stack.Fits pass.table root s.stack s.carry) :
    Stack.Fits pass.table root (steps pass n s).1.stack (steps pass n s).1.carry := by
  induction n generalizing s with
  | zero => exact h
  | succ n ih =>
    rcases Nat.lt_or_ge s.offset pass.text.size with hlt | hge
    · rw [steps_succ n hlt]
      exact ih (fits_of_goes hroot h (goes_step pass s))
    · rw [steps_of_size_le (n + 1) hge]
      exact h

/-- One step opens only what can be opened. -/
theorem reachable_of_goes (h : Stack.Reachable pass.table root s.stack)
    (hgoes : Goes pass s s' pieces) : Stack.Reachable pass.table root s'.stack := by
  cases hgoes with
  | leave hbelow _ _ _ _ =>
    obtain ⟨-, hbelow'⟩ := List.forall_mem_cons.mp h
    rw [hbelow] at hbelow'
    exact hbelow'
  | descend _ _ hfirst hg _ =>
    obtain ⟨-, -, hi⟩ := firstMatch?_eq_some hfirst
    have htop := h _ List.mem_cons_self
    exact List.forall_mem_cons.mpr
      ⟨htop.nested (List.mem_of_getElem? (getElem?_of_tried hi)) hg, h⟩
  | skip => exact h
  | region => exact h
  | token => exact h
  | escape => exact h
  | close => exact h
  | stay => exact h
  | stray => exact h

/-- **At the end of a line, the open grammars and the carry fit**, whatever it began with. -/
theorem fits_line (pass : Pass) (hroot : Grammar.Numbered pass.table root) (c : Carry) :
    Stack.Fits pass.table root (line pass root c).1.stack (line pass root c).1.carry :=
  fits_steps hroot pass.text.size (Stack.fits_resume pass.table root c)

end Scan

/-! ## 3.  At the end of the line -/

namespace Stack

variable {table : Table} {root : Grammar} {s : Stack} {c : Carry}

/-- Along a path, the field of each level below the top names the rule whose nested grammar is open
one level above. -/
theorem Path.link (h : Path table root c s) {l : Nat} {g g' : Grammar}
    (hg : s.grammars[l]? = some g) (hg' : s.grammars[l + 1]? = some g') :
    ∃ i r, c.active? l = some i ∧ g.rules[i]? = some r ∧ Grammar.nested? table r = some g' := by
  induction h with
  | root =>
    rw [grammars, Stack.root, List.reverse_singleton] at hg'
    cases hg'
  | @push s r top hpath hr htop hdepth ih =>
    have hlength := s.length_grammars
    rw [grammars_push] at hg hg'
    rcases Nat.lt_or_ge (l + 1) s.grammars.length with hlt | hge
    · rw [List.getElem?_append_left hlt] at hg'
      rw [List.getElem?_append_left (Nat.lt_of_succ_lt hlt)] at hg
      exact ih hg hg'
    · have hlt : l + 1 < (s.grammars ++ [top]).length := by
        obtain ⟨hlt, -⟩ := List.getElem?_eq_some_iff.mp hg'
        exact hlt
      rw [List.length_append, List.length_singleton] at hlt
      -- the last link is the one that was pushed
      have hl : l = s.depth := by omega
      subst hl
      rw [List.getElem?_append_left (by omega), grammars_top] at hg
      rw [List.getElem?_append_right hge, hlength, Nat.sub_self] at hg'
      cases hg
      cases hg'
      obtain ⟨i, hi, hrule⟩ := Option.bind_eq_some_iff.mp hr
      exact ⟨i, r, hi, hrule, htop⟩

/-- The root is at the bottom. -/
theorem Path.head?_grammars (h : Path table root c s) : s.grammars.head? = some root := by
  induction h with
  | root => rfl
  | push _ _ _ _ ih => rw [grammars_push, List.head?_append, ih, Option.some_or]

/-- What a carry says, level by level, about the grammars that are open. -/
structure Describes (table : Table) (root : Grammar) (s : Stack) (c : Carry) : Prop where
  /-- Some grammar is open. -/
  length_pos : 1 ≤ s.grammars.length
  /-- No more are open than there are levels. -/
  length_le : s.grammars.length ≤ maxDepth
  /-- The outermost one is the root. -/
  root : s.grammars.head? = some root
  /-- Below the top, a field names the rule whose nested grammar is open one level above. -/
  link : ∀ l g g', s.grammars[l]? = some g → s.grammars[l + 1]? = some g' →
    ∃ i r, c.field l = i + 1 ∧ g.rules[i]? = some r ∧ Grammar.nested? table r = some g'
  /-- At the top, a field is clear or names a region. -/
  top : c.field s.depth = 0 ∨
    ∃ i r, c.field s.depth = i + 1 ∧ s.top.rules[i]? = some r ∧ r.close.isSome = true ∧
      Grammar.nested? table r = none
  /-- Above the top, all fields are clear. -/
  above : ∀ l, s.depth < l → c.field l = 0
  /-- The upper half of the word is clear. -/
  unused : c.bits.toNat < 2 ^ 32
  /-- Every field names a rule in front of the stateful count. -/
  stateful : ∀ l g i, s.grammars[l]? = some g → c.field l = i + 1 → i < g.statefulCount

/-- **A carry that fits says all of this.** -/
theorem Fits.describes (h : Fits table root s c) : Describes table root s c := by
  have hlength := s.length_grammars
  have hlink : ∀ l g g', s.grammars[l]? = some g → s.grammars[l + 1]? = some g' →
      ∃ i r, c.field l = i + 1 ∧ g.rules[i]? = some r ∧ Grammar.nested? table r = some g' := by
    intro l g g' hg hg'
    obtain ⟨i, r, hi, hrule, hnested⟩ := h.path.link hg hg'
    exact ⟨i, r, Carry.active?_eq_some_iff.mp hi, hrule, hnested⟩
  refine ⟨?_, ?_, h.path.head?_grammars, hlink, ?_, ?_, ?_, ?_⟩
  · rw [hlength]
    exact Nat.succ_pos _
  · rw [hlength]
    exact h.path.depth_lt
  · cases hactive : c.active? s.depth with
    | none => exact Or.inl (Carry.active?_eq_none_iff.mp hactive)
    | some i =>
      obtain ⟨r, hi, hclose, hnested⟩ := h.region i hactive
      exact Or.inr ⟨i, r, Carry.active?_eq_some_iff.mp hactive, hi, hclose, hnested⟩
  · intro l hl
    rw [← h.above, Carry.field_truncate, if_neg (Nat.not_lt_of_le hl)]
  · refine Nat.lt_of_lt_of_le (Carry.toNat_bits_lt h.above) (Nat.pow_le_pow_right (by decide) ?_)
    exact Nat.mul_le_mul_left 8 (Nat.min_le_right _ maxDepth)
  · intro l g i hg hfield
    obtain ⟨hlt, -⟩ := List.getElem?_eq_some_iff.mp hg
    rcases Nat.lt_or_ge (l + 1) s.grammars.length with hbelow | htop
    · obtain ⟨j, r, hj, hrule, hnested⟩ :=
        hlink l g _ hg (List.getElem?_eq_getElem hbelow)
      have hij : i = j := by omega
      subst hij
      exact Rule.lt_statefulCount hrule (Grammar.isStateful_of_nested? hnested)
    · have hl : l = s.depth := by omega
      subst hl
      rw [grammars_top] at hg
      cases hg
      obtain ⟨r, hrule, hclose, -⟩ := h.region i (Carry.active?_eq_some_iff.mpr hfield)
      exact Rule.lt_statefulCount hrule (Rule.isStateful_of_close hclose)

end Stack

namespace Tokenizer

/-- How the scan of a line ends. -/
def scanOf (k : Tokenizer) (quick : Bool) (t : Text) (c : Carry) : Scan :=
  (Scan.line ⟨k.table, t, quick⟩ k.root c).1

/-- **The carry at the end of a line resumes to itself.** It opens the grammars that were open at
the end of the line, nothing of it is dropped, and it says level by level which rules they were
opened by. The line may begin in any word, and the pass may be quick or full. -/
theorem resume_tokenize (k : Tokenizer) (hk : Grammar.Numbered k.table k.root) (quick : Bool)
    (t : Text) (c : Carry) :
    k.resume (k.tokenize quick t c).carry =
        ((k.scanOf quick t c).stack, (k.tokenize quick t c).carry) ∧
      Stack.Describes k.table k.root (k.scanOf quick t c).stack (k.tokenize quick t c).carry := by
  have hfits : Stack.Fits k.table k.root (k.scanOf quick t c).stack (k.tokenize quick t c).carry :=
    Scan.fits_line ⟨k.table, t, quick⟩ hk c
  exact ⟨Stack.resume_of_fits hfits, hfits.describes⟩

/-- A grammar of brackets that contain the grammar itself, and of strings. -/
def bracketGrammar : Grammar where
  name := none
  defaultLabel := "text"
  rules :=
    [⟨.lua "<", some (.lua ">"), none, "bracket", [], some (.shared 0)⟩,
      ⟨.lua "\"", some (.lua "\""), none, "string", [], none⟩]
  symbols := .ofList []

/-- The tokenizer for it, whose table knows no other grammar. -/
def bracketTokenizer : Tokenizer where
  table := fun _ => some bracketGrammar
  root := bracketGrammar

/-- Two brackets and a string are left open, on three levels. -/
theorem resume_tokenize_brackets :
    Grammar.Numbered bracketTokenizer.table bracketTokenizer.root ∧
      (bracketTokenizer.tokenize false (Text.ofString "<<\"a") ⟨0xFF⟩).carry = ⟨0x020101⟩ ∧
      bracketTokenizer.resume
          (bracketTokenizer.tokenize false (Text.ofString "<<\"a") ⟨0xFF⟩).carry =
        ((bracketTokenizer.scanOf false (Text.ofString "<<\"a") ⟨0xFF⟩).stack, ⟨0x020101⟩) := by
  have hopens : ∀ g, Grammar.Opens bracketTokenizer.table bracketTokenizer.root g →
      g = bracketGrammar := by
    intro g h
    induction h with
    | root => rfl
    | @nested g g' r _ hr hg ih =>
      subst ih
      simp only [bracketGrammar, List.mem_cons, List.not_mem_nil, or_false] at hr
      rcases hr with rfl | rfl
      · exact (Option.some.inj hg).symm
      · cases hg
  have hnumbered : Grammar.Numbered bracketTokenizer.table bracketTokenizer.root := by
    intro g hg
    rw [hopens g hg]
    decide
  have hcarry : (bracketTokenizer.tokenize false (Text.ofString "<<\"a") ⟨0xFF⟩).carry =
      ⟨0x020101⟩ := by
    decide +kernel
  have hresume :=
    (resume_tokenize bracketTokenizer hnumbered false (Text.ofString "<<\"a") ⟨0xFF⟩).1
  refine ⟨hnumbered, hcarry, ?_⟩
  rw [hresume, hcarry]

end Tokenizer
end Linewise
