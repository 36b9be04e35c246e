import Linewise.Proofs.Tokenizer.Resumption

/-!
# Any word is a safe carry

A host may store a carry for as long as it likes and hand it back to a grammar that has changed
since, or hand over any other word. Resuming keeps of it what makes sense, and no more is lost than
has to be: the lowest fields of the word are kept as far as they name an *open path*
(`Stack.OpenPath`), and that path is the longest one (`Stack.openPath_le_resume`).

An open path begins in the root. Each of its fields names a rule of the grammar that is open at that
level, and all but the last of these rules open a nested grammar for the next field. The last one
either does so too, if there is a level left for its grammar, or it is a region.

`Tokenizer.resume_longest` adds that nothing else of the word has any influence. Resuming what was
kept gives the same again, and a line that begins in the word is tokenized like one that begins in
what was kept of it.
-/

namespace Linewise

namespace Stack

variable {table : Table} {root : Grammar} {s u : Stack} {c : Carry} {n level : Nat}

/-- The fields of a carry below a level name an open path, along which these grammars are open. -/
inductive OpenPath (table : Table) (root : Grammar) (c : Carry) : Nat → Stack → Prop where
  /-- Each field names a rule with a nested grammar, which is open. -/
  | nested {s : Stack} (h : Path table root c s) : OpenPath table root c s.depth s
  /-- The last field names a region of the innermost grammar. -/
  | region {s : Stack} {r : Rule Grammar} (h : Path table root c s) (hr : s.openRule? c = some r)
      (hclose : r.close.isSome = true) (hnested : Grammar.nested? table r = none) :
      OpenPath table root c (s.depth + 1) s

/-- No path is longer than there are levels. -/
theorem OpenPath.le_maxDepth (h : OpenPath table root c level s) : level ≤ maxDepth := by
  cases h with
  | nested h => exact Nat.le_of_lt h.depth_lt
  | region h _ _ _ => exact h.depth_lt

/-! ## What descending accounts for -/

/-- Descending accounts for the levels that it begins with. If it accounts for no more, it has
opened nothing. -/
theorem depth_le_descend (table : Table) (c : Carry) (n : Nat) (s : Stack) :
    s.depth ≤ (descend table c n s).2 ∧
      ((descend table c n s).2 = s.depth → (descend table c n s).1 = s) := by
  induction n generalizing s with
  | zero => exact ⟨Nat.le_refl _, fun _ => rfl⟩
  | succ n ih =>
    rw [descend]
    split
    · exact ⟨Nat.le_refl _, fun _ => rfl⟩
    · split
      · next g _ =>
        split
        · obtain ⟨hle, -⟩ := ih (s.push g)
          rw [depth_push] at hle
          exact ⟨Nat.le_of_succ_le hle, fun heq => by omega⟩
        · exact ⟨Nat.le_refl _, fun _ => rfl⟩
      · dsimp only
        split
        · exact ⟨Nat.le_succ _, fun _ => rfl⟩
        · exact ⟨Nat.le_refl _, fun _ => rfl⟩

/-- At a region, descending ends, and accounts for its level. -/
theorem descend_of_region {r : Rule Grammar} (hr : s.openRule? c = some r)
    (hclose : r.close.isSome = true) (hnested : Grammar.nested? table r = none) (n : Nat) :
    descend table c (n + 1) s = (s, s.depth + 1) := by
  simp only [descend, hr, hnested, hclose, if_true]

/-- What descending accounts for is an open path. -/
theorem Path.openPath_descend (h : Path table root c s) (n : Nat) :
    OpenPath table root c (descend table c n s).2 (descend table c n s).1 := by
  induction n generalizing s with
  | zero => exact .nested h
  | succ n ih =>
    rw [descend]
    split
    · exact .nested h
    · next r hr =>
      split
      · next g hg =>
        split
        · next hdepth => exact ih (h.push hr hg hdepth)
        · exact .nested h
      · next hnested =>
        dsimp only
        split
        · next hclose => exact .region h hr hclose hnested
        · exact .nested h

/-- The level up to which a carry is kept. -/
def kept (table : Table) (root : Grammar) (c : Carry) : Nat :=
  (descend table c maxDepth (Stack.root root)).2

theorem resume_eq (table : Table) (root : Grammar) (c : Carry) :
    resume table root c =
      ((descend table c maxDepth (Stack.root root)).1, c.truncate (kept table root c)) := rfl

/-- Whatever a path leads to, descending from the root passes there. -/
theorem Path.descend_maxDepth (h : Path table root c s) :
    descend table c maxDepth (Stack.root root) =
      descend table c (maxDepth - s.depth - 1 + 1) s := by
  have hlt := h.depth_lt
  rw [← h.descend_eq]
  exact congrArg (descend table c · (Stack.root root)) (by omega)

/-- **The path that is resumed is the longest one**, and the only one of its length. -/
theorem openPath_le_resume (h : OpenPath table root c level s) :
    level ≤ kept table root c ∧
      (level = kept table root c → s = (resume table root c).1) := by
  rw [resume_eq, kept]
  cases h with
  | nested h =>
    rw [h.descend_maxDepth]
    obtain ⟨hle, heq⟩ := depth_le_descend table c (maxDepth - s.depth - 1 + 1) s
    exact ⟨hle, fun hlevel => (heq hlevel.symm).symm⟩
  | region h hr hclose hnested =>
    rw [h.descend_maxDepth, descend_of_region hr hclose hnested]
    exact ⟨Nat.le_refl _, fun _ => rfl⟩

end Stack

namespace Tokenizer

/-- **Of any word whatever, resuming keeps the lowest fields, as far as they name an open path**,
and opens the grammars along that path. Resuming again changes nothing, and every line is tokenized
as if it had begun with what was kept. -/
theorem resume_longest (k : Tokenizer) (c : Carry) :
    ∃ level ≤ maxDepth,
      Stack.OpenPath k.table k.root c level (k.resume c).1 ∧
      (∀ level' s, Stack.OpenPath k.table k.root c level' s →
        level' ≤ level ∧ (level' = level → s = (k.resume c).1)) ∧
      (k.resume c).2 = c.truncate level ∧
      k.resume (k.resume c).2 = k.resume c ∧
      ∀ quick t, k.tokenize quick t (k.resume c).2 = k.tokenize quick t c := by
  have hpath : Stack.OpenPath k.table k.root c (Stack.kept k.table k.root c) (k.resume c).1 :=
    Stack.Path.root.openPath_descend maxDepth
  have hagain : k.resume (k.resume c).2 = k.resume c :=
    Stack.resume_of_fits (Stack.fits_resume k.table k.root c)
  refine ⟨_, hpath.le_maxDepth, hpath, fun _ _ h => Stack.openPath_le_resume h, rfl, hagain, ?_⟩
  intro quick t
  have hstart : Scan.start ⟨k.table, t, quick⟩ k.root (k.resume c).2 =
      Scan.start ⟨k.table, t, quick⟩ k.root c := by
    simp only [resume] at hagain
    simp only [Scan.start, resume, hagain]
  rw [tokenize, tokenize, Scan.line, Scan.line, hstart]

end Tokenizer
end Linewise
