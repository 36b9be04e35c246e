import Mathlib.Data.List.Destutter
import Mathlib.Order.Basic
import Linewise.Grammar.Basic

/-!
# The first pair with a text counts

A grammar is given its symbols as a list of pairs, in any order and possibly with repetitions, but
keeps them as a table that can be searched by halving. This file says that a look-up in the table is
a look-up in the list.

## 1.  The order of keys

`compareKeys` is the lexicographic comparison of lists of bytes, so it has all the laws of a total
order.

## 2.  Tables in order

A table is in order if its keys increase strictly (`Symbols.InOrder`), so that no key repeats. At
any entry of such a table, a key is looked for on one side of the entry alone
(`InOrder.lookup_split`). Inserting pairs one after another keeps the order, and a key that is there
already keeps its label (`lookup_insertNew`); so the first pair with a key counts
(`lookup_ordered`).

## 3.  Halving

Looking for a key between two places answers what the entries between them say (`findBetween_eq`).
With the length of the longest key, which no key exceeds, this gives `find?_ofList`, and for
grammars `Grammar.symbol?_of_make`.

## 4.  The same table by sorting

A table is determined by what its look-ups answer (`InOrder.eq_of_lookup`). Hence it is also what
comes of sorting the pairs by their keys, stably, and leaving out each pair that has the key of the
pair in front of it (`ordered_eq_destutter`).
-/

namespace Linewise

/-! ## 1.  The order of keys -/

theorem compareKeys_eq_compare : compareKeys = compare := by
  funext x y
  induction x generalizing y with
  | nil => cases y <;> rfl
  | cons a x ih =>
    cases y with
    | nil => rfl
    | cons b y =>
      rw [compareKeys, ih, List.compare_cons_cons]
      show _ = (compareOfLessAndEq a b).then _
      rw [compareOfLessAndEq]
      by_cases hlt : a < b
      · rw [if_pos hlt, if_pos hlt]
        rfl
      · rw [if_neg hlt, if_neg hlt]
        by_cases hgt : b < a
        · rw [if_pos hgt, if_neg fun heq : a = b => UInt8.lt_irrefl b (heq ▸ hgt)]
          rfl
        · rw [if_neg hgt, if_pos (UInt8.le_antisymm (UInt8.not_lt.mp hgt) (UInt8.not_lt.mp hlt))]
          rfl

instance : Std.TransCmp compareKeys := by
  rw [compareKeys_eq_compare]
  infer_instance

instance : Std.LawfulEqCmp compareKeys := by
  rw [compareKeys_eq_compare]
  infer_instance

theorem compareKeys_self (x : SymbolKey) : compareKeys x x = .eq := Std.ReflCmp.compare_self

theorem compareKeys_eq_iff {x y : SymbolKey} : compareKeys x y = .eq ↔ x = y :=
  Std.LawfulEqCmp.compare_eq_iff_eq

theorem compareKeys_gt_iff {x y : SymbolKey} : compareKeys x y = .gt ↔ compareKeys y x = .lt :=
  Std.OrientedCmp.gt_iff_lt

theorem compareKeys_lt_trans {x y z : SymbolKey} (h : compareKeys x y = .lt)
    (h' : compareKeys y z = .lt) : compareKeys x z = .lt :=
  Std.TransCmp.lt_trans h h'

namespace Symbols

variable {es es' as bs : List (SymbolKey × String)} {e : SymbolKey × String} {key k : SymbolKey}
  {label : String}

/-! ## 2.  Tables in order -/

/-- The keys increase strictly. -/
def InOrder (es : List (SymbolKey × String)) : Prop :=
  es.Pairwise fun e e' => compareKeys e.1 e'.1 = .lt

/-- What differs from all keys is not found. -/
theorem lookup_eq_none (h : ∀ e ∈ es, compareKeys key e.1 ≠ .eq) : es.lookup key = none := by
  refine List.lookup_eq_none_iff.mpr fun e he => bne_iff_ne.mpr fun heq => h e he ?_
  exact compareKeys_eq_iff.mpr heq

/-- What stands in front of all keys is not found. -/
theorem lookup_of_lt (h : ∀ e ∈ es, compareKeys key e.1 = .lt) : es.lookup key = none :=
  lookup_eq_none fun e he heq => by cases (h e he).symm.trans heq

/-- What stands behind all keys is not found. -/
theorem lookup_of_gt (h : ∀ e ∈ es, compareKeys e.1 key = .lt) : es.lookup key = none :=
  lookup_eq_none fun e he heq => by cases (compareKeys_gt_iff.mpr (h e he)).symm.trans heq

/-- An entry with another key is passed over. -/
theorem lookup_cons_of_ne (h : compareKeys key e.1 ≠ .eq) :
    (e :: es).lookup key = es.lookup key := by
  have hne : (key == e.1) = false :=
    beq_eq_false_iff_ne.mpr fun heq => h (compareKeys_eq_iff.mpr heq)
  rw [List.lookup_cons, hne]

/-- An entry with the key is found. -/
theorem lookup_cons_of_eq (h : compareKeys key e.1 = .eq) : (e :: es).lookup key = some e.2 := by
  rw [List.lookup_cons, beq_iff_eq.mpr (compareKeys_eq_iff.mp h)]

/-- **One entry says on which side of it a key is to be looked for.** -/
theorem InOrder.lookup_split (h : InOrder (as ++ e :: bs)) (key : SymbolKey) :
    (as ++ e :: bs).lookup key =
      match compareKeys key e.1 with
      | .lt => as.lookup key
      | .eq => some e.2
      | .gt => bs.lookup key := by
  obtain ⟨-, hright, hbefore⟩ := List.pairwise_append.mp h
  obtain ⟨hbehind, -⟩ := List.pairwise_cons.mp hright
  have hbefore (a) (ha : a ∈ as) : compareKeys a.1 e.1 = .lt := hbefore a ha e List.mem_cons_self
  rw [List.lookup_append]
  cases hcompare : compareKeys key e.1 with
  | lt =>
    have hbs : bs.lookup key = none :=
      lookup_of_lt fun b hb => compareKeys_lt_trans hcompare (hbehind b hb)
    rw [lookup_cons_of_ne (by simp [hcompare]), hbs, Option.or_none]
  | eq =>
    have has : as.lookup key = none := by
      rw [compareKeys_eq_iff.mp hcompare]
      exact lookup_of_gt hbefore
    rw [has, Option.none_or, lookup_cons_of_eq hcompare]
  | gt =>
    have has : as.lookup key = none :=
      lookup_of_gt fun a ha =>
        compareKeys_lt_trans (hbefore a ha) (compareKeys_gt_iff.mp hcompare)
    rw [has, Option.none_or, lookup_cons_of_ne (by simp [hcompare])]

theorem mem_insertNew (h : e ∈ insertNew key label es) : e = (key, label) ∨ e ∈ es := by
  induction es with
  | nil => exact Or.inl (List.mem_singleton.mp h)
  | cons e' es ih =>
    obtain ⟨k, l⟩ := e'
    rw [insertNew] at h
    cases hcompare : compareKeys key k with
    | lt =>
      rw [hcompare] at h
      exact List.mem_cons.mp h
    | eq =>
      rw [hcompare] at h
      exact Or.inr h
    | gt =>
      rw [hcompare] at h
      rcases List.mem_cons.mp h with rfl | hrest
      · exact Or.inr List.mem_cons_self
      · exact (ih hrest).imp_right (List.mem_cons_of_mem _)

/-- Inserting a pair keeps the order. -/
theorem InOrder.insertNew (h : InOrder es) (key : SymbolKey) (label : String) :
    InOrder (insertNew key label es) := by
  induction es with
  | nil => exact List.pairwise_singleton _ _
  | cons e es ih =>
    obtain ⟨k, l⟩ := e
    obtain ⟨hfirst, hrest⟩ := List.pairwise_cons.mp h
    rw [Symbols.insertNew]
    cases hcompare : compareKeys key k with
    | lt =>
      refine List.pairwise_cons.mpr ⟨fun e he => ?_, h⟩
      rcases List.mem_cons.mp he with rfl | he
      · exact hcompare
      · exact compareKeys_lt_trans hcompare (hfirst e he)
    | eq => exact h
    | gt =>
      refine List.pairwise_cons.mpr ⟨fun e he => ?_, ih hrest⟩
      rcases mem_insertNew he with rfl | he
      · exact compareKeys_gt_iff.mp hcompare
      · exact hfirst e he

/-- **A key that is there already keeps its label**, and a new one gets the label that is inserted.
-/
theorem lookup_insertNew (h : InOrder es) (key : SymbolKey) (label : String) (k : SymbolKey) :
    (insertNew key label es).lookup k = (es.lookup k).or ([(key, label)].lookup k) := by
  induction es with
  | nil => rfl
  | cons e es ih =>
    obtain ⟨k', l⟩ := e
    obtain ⟨hfirst, hrest⟩ := List.pairwise_cons.mp h
    rw [insertNew]
    cases hcompare : compareKeys key k' with
    | lt =>
      -- the new entry is in front, but no entry behind it has its key
      show ([(key, label)] ++ (k', l) :: es).lookup k = _
      rw [List.lookup_append]
      by_cases heq : k = key
      · have hnone : ((k', l) :: es).lookup k = none := by
          rw [heq]
          exact lookup_of_lt (List.forall_mem_cons.mpr
            ⟨hcompare, fun e he => compareKeys_lt_trans hcompare (hfirst e he)⟩)
        rw [hnone, Option.or_none, Option.none_or]
      · have hnone : [(key, label)].lookup k = none :=
          List.lookup_eq_none_iff.mpr (by simpa using heq)
        rw [hnone, Option.or_none, Option.none_or]
    | eq =>
      rw [compareKeys_eq_iff.mp hcompare]
      dsimp only
      rw [List.lookup_cons, List.lookup_cons]
      cases k == k' <;> simp
    | gt =>
      dsimp only
      rw [List.lookup_cons, List.lookup_cons, ih hrest]
      cases k == k' <;> rfl

/-- The pairs with the bytes of their texts. -/
def keyed (pairs : List (String × String)) : List (SymbolKey × String) :=
  pairs.map fun p => ((Text.ofString p.1).toList, p.2)

/-- Inserting pairs one after another keeps the order, and the first pair with a key counts. -/
theorem InOrder.foldl_insertNew (h : InOrder es) (pairs : List (String × String)) :
    InOrder (pairs.foldl
        (fun es p => Symbols.insertNew (Text.ofString p.1).toList p.2 es) es) ∧
      ∀ k, (pairs.foldl
          (fun es p => Symbols.insertNew (Text.ofString p.1).toList p.2 es) es).lookup k =
        (es.lookup k).or ((keyed pairs).lookup k) := by
  induction pairs generalizing es with
  | nil => exact ⟨h, fun k => Option.or_none.symm⟩
  | cons p pairs ih =>
    obtain ⟨horder, hlookup⟩ := ih (h.insertNew (Text.ofString p.1).toList p.2)
    refine ⟨horder, fun k => ?_⟩
    have hkeyed : keyed (p :: pairs) = [((Text.ofString p.1).toList, p.2)] ++ keyed pairs := rfl
    rw [hkeyed, List.lookup_append, List.foldl_cons, hlookup, lookup_insertNew h, Option.or_assoc]

/-- The table is in order. -/
theorem inOrder_ordered (pairs : List (String × String)) : InOrder (ordered pairs) :=
  (InOrder.foldl_insertNew List.Pairwise.nil pairs).1

/-- **The table answers the label of the first pair with a key.** -/
theorem lookup_ordered (pairs : List (String × String)) (k : SymbolKey) :
    (ordered pairs).lookup k = (keyed pairs).lookup k :=
  (InOrder.foldl_insertNew List.Pairwise.nil pairs).2 k

/-! ## 3.  Halving -/

/-- A list from a place on, split at a later entry. -/
theorem drop_eq_append_cons {α : Type} {l : List α} {low middle : Nat} {x : α}
    (hlow : low ≤ middle) (hx : l[middle]? = some x) :
    l.drop low = (l.take middle).drop low ++ x :: l.drop (middle + 1) := by
  obtain ⟨hlt, rfl⟩ := List.getElem?_eq_some_iff.mp hx
  have hlength : low ≤ (l.take middle).length := by
    rw [List.length_take]
    omega
  rw [← List.drop_eq_getElem_cons hlt, ← List.drop_append_of_le_length hlength,
    List.take_append_drop]

/-- **Looking for a key between two places answers what the entries between them say**, if there are
steps enough. -/
theorem findBetween_eq {entries : Array (SymbolKey × String)} (h : InOrder entries.toList)
    (key : SymbolKey) {n low high : Nat} (hhigh : high ≤ entries.size) (hn : high < low + n) :
    findBetween entries key n low high = ((entries.toList.take high).drop low).lookup key := by
  have hempty {low high : Nat} (hle : high ≤ low) :
      ((entries.toList.take high).drop low).lookup key = none := by
    rw [List.drop_eq_nil_of_le (by rw [List.length_take]; omega), List.lookup_nil]
  induction n generalizing low high with
  | zero => rw [findBetween, hempty (by omega)]
  | succ n ih =>
    rw [findBetween]
    by_cases hle : high ≤ low
    · rw [if_pos hle, hempty hle]
    · rw [if_neg hle]
      dsimp only
      generalize hmiddle : (low + high) / 2 = middle
      have hlt : middle < entries.size := by omega
      obtain ⟨e, he⟩ : ∃ e, entries[middle]? = some e :=
        ⟨_, Array.getElem?_eq_getElem hlt⟩
      have hentry : (entries.toList.take high)[middle]? = some e := by
        rw [List.getElem?_take_of_lt (by omega), Array.getElem?_toList, he]
      have hsplit := drop_eq_append_cons (show low ≤ middle by omega) hentry
      rw [List.take_take, Nat.min_eq_left (show middle ≤ high by omega)] at hsplit
      have horder : InOrder ((entries.toList.take high).drop low) :=
        h.sublist ((List.drop_sublist _ _).trans (List.take_sublist _ _))
      rw [hsplit] at horder ⊢
      rw [horder.lookup_split, he]
      obtain ⟨k, label⟩ := e
      dsimp only
      cases compareKeys key k with
      | lt => exact ih (show middle ≤ entries.size by omega) (by omega)
      | eq => rfl
      | gt => exact ih hhigh (show high < middle + 1 + n by omega)

/-- No key is longer than the longest. -/
theorem length_le_foldl_max (n : Nat) :
    n ≤ es.foldl (fun n e => max n e.1.length) n ∧
      ∀ e ∈ es, e.1.length ≤ es.foldl (fun n e => max n e.1.length) n := by
  induction es generalizing n with
  | nil => simp
  | cons e es ih =>
    obtain ⟨hfirst, hrest⟩ := ih (max n e.1.length)
    rw [List.foldl_cons]
    exact ⟨Nat.le_trans (Nat.le_max_left _ _) hfirst, List.forall_mem_cons.mpr
      ⟨Nat.le_trans (Nat.le_max_right _ _) hfirst, hrest⟩⟩

/-- A text that is longer than the longest key is no key. -/
theorem lookup_of_longest_lt {pairs : List (String × String)}
    (h : (ofList pairs).longest < key.length) : (ordered pairs).lookup key = none := by
  refine lookup_eq_none fun e he hcompare => ?_
  have hlength := (length_le_foldl_max 0).2 e he
  rw [← compareKeys_eq_iff.mp hcompare] at hlength
  exact Nat.lt_irrefl _ (Nat.lt_of_lt_of_le h hlength)

/-- **A look-up in the table answers the label of the first pair with the text.** -/
theorem find?_ofList (pairs : List (String × String)) (t : Text) :
    (ofList pairs).find? t = (keyed pairs).lookup t.toList := by
  rw [find?, ← lookup_ordered]
  by_cases hlong : (ofList pairs).longest < t.size
  · rw [if_pos hlong, lookup_of_longest_lt hlong]
  · rw [if_neg hlong]
    have horder : InOrder (ofList pairs).entries.toList := inOrder_ordered pairs
    have hsize : (ofList pairs).entries.size = (ordered pairs).length := List.size_toArray
    rw [findBetween_eq horder t.toList (Nat.le_refl _) (by omega), List.drop_zero, hsize]
    exact congrArg (List.lookup t.toList) List.take_length

/-- The texts of the pairs can be compared instead of their keys. -/
theorem lookup_keyed (pairs : List (String × String)) (t : Text) :
    (keyed pairs).lookup t.toList =
      (pairs.find? fun p => Text.ofString p.1 = t).map Prod.snd := by
  induction pairs with
  | nil => rfl
  | cons p pairs ih =>
    have hkeyed : keyed (p :: pairs) = ((Text.ofString p.1).toList, p.2) :: keyed pairs := rfl
    rw [hkeyed, List.lookup_cons, List.find?_cons]
    by_cases heq : Text.ofString p.1 = t
    · rw [beq_iff_eq.mpr (congrArg Array.toList heq.symm), decide_eq_true heq]
      rfl
    · have hne : t.toList ≠ (Text.ofString p.1).toList := fun h => heq (Array.toList_inj.mp h).symm
      rw [beq_eq_false_iff_ne.mpr hne, decide_eq_false heq]
      exact ih

end Symbols

/-- **The label of a text is that of the first pair with exactly this text**, if there is one. A
grammar with no more rules than a carry can number is always made, whatever its pairs are. -/
theorem Grammar.symbol?_of_make {rules : List (Rule Grammar)} (h : rules.length ≤ maxRules)
    (name : Option String) (label : String) (pairs : List (String × String)) :
    ∃ g, Grammar.make name label rules pairs = .ok g ∧
      ∀ t : Text, g.symbol? t = (pairs.find? fun p => Text.ofString p.1 = t).map Prod.snd := by
  refine ⟨⟨name, label, rules, .ofList pairs⟩, ?_, fun t => ?_⟩
  · rw [make, if_neg (Nat.not_lt_of_le h)]
  · exact (Symbols.find?_ofList pairs t).trans (Symbols.lookup_keyed pairs t)

/-- Keys out of order, one of them the beginning of another, one empty, and one given twice. -/
theorem Grammar.symbol?_of_make_keywords :
    ([] : List (Rule Grammar)).length ≤ maxRules ∧
      ∃ g, Grammar.make none "default" []
          [("while", "loop"), ("if", "keyword"), ("", "nothing"), ("iffy", "name"),
            ("if", "late")] = .ok g ∧
        g.symbol? (Text.ofString "if") = some "keyword" ∧ g.symbol? #[] = some "nothing" ∧
        g.symbol? (Text.ofString "iff") = none ∧ g.symbol? #[0xFF] = none := by
  obtain ⟨g, hmake, hsymbol⟩ := @Grammar.symbol?_of_make [] (Nat.zero_le maxRules) none "default"
    [("while", "loop"), ("if", "keyword"), ("", "nothing"), ("iffy", "name"), ("if", "late")]
  refine ⟨Nat.zero_le maxRules, g, hmake, ?_, ?_, ?_, ?_⟩ <;>
    rw [hsymbol] <;> decide +kernel

namespace Symbols

variable {es es' : List (SymbolKey × String)} {e e' : SymbolKey × String}

/-! ## 4.  The same table by sorting -/

/-- If two tables answer alike, the first key of one is not in front of that of the other. -/
theorem InOrder.not_lt_of_lookup (h' : InOrder (e' :: es'))
    (hlookup : ∀ k, (e :: es).lookup k = (e' :: es').lookup k) :
    compareKeys e.1 e'.1 ≠ .lt := by
  intro hlt
  obtain ⟨hfirst, -⟩ := List.pairwise_cons.mp h'
  have hfound := hlookup e.1
  rw [lookup_cons_of_eq (compareKeys_self _), lookup_of_lt (List.forall_mem_cons.mpr
    ⟨hlt, fun x hx => compareKeys_lt_trans hlt (hfirst x hx)⟩)] at hfound
  cases hfound

/-- **A table is determined by what its look-ups answer.** -/
theorem InOrder.eq_of_lookup (h : InOrder es) (h' : InOrder es')
    (hlookup : ∀ k, es.lookup k = es'.lookup k) : es = es' := by
  have found (e : SymbolKey × String) (es) : (e :: es).lookup e.1 = some e.2 :=
    lookup_cons_of_eq (compareKeys_self _)
  induction es generalizing es' with
  | nil =>
    cases es' with
    | nil => rfl
    | cons e' es' => cases (hlookup e'.1).trans (found e' es')
  | cons e es ih =>
    cases es' with
    | nil => cases (found e es).symm.trans (hlookup e.1)
    | cons e' es' =>
      obtain ⟨hfirst, hrest⟩ := List.pairwise_cons.mp h
      obtain ⟨hfirst', hrest'⟩ := List.pairwise_cons.mp h'
      have hkey : e.1 = e'.1 := by
        refine compareKeys_eq_iff.mp ?_
        cases hcompare : compareKeys e.1 e'.1 with
        | lt => exact absurd hcompare (h'.not_lt_of_lookup hlookup)
        | eq => rfl
        | gt =>
          exact absurd (compareKeys_gt_iff.mp hcompare)
            (h.not_lt_of_lookup fun k => (hlookup k).symm)
      have hlabel : some e.2 = some e'.2 := by
        rw [← found e es, hlookup, hkey, found]
      rw [Prod.ext hkey (Option.some.inj hlabel)]
      refine congrArg _ (ih hrest hrest' fun k => ?_)
      by_cases hk : k = e.1
      · have hnone : es.lookup k = none := hk ▸ lookup_of_lt hfirst
        have hnone' : es'.lookup k = none := (hk.trans hkey) ▸ lookup_of_lt hfirst'
        rw [hnone, hnone']
      · have hne : compareKeys k e.1 ≠ .eq := mt compareKeys_eq_iff.mp hk
        have hboth := hlookup k
        rwa [lookup_cons_of_ne hne, lookup_cons_of_ne (hkey ▸ hne)] at hboth

/-- Whether the key of an entry is not behind that of another. -/
def entryLE (e e' : SymbolKey × String) : Bool := (compareKeys e.1 e'.1).isLE

theorem entryLE_trans (a b c : SymbolKey × String) (hab : entryLE a b = true)
    (hbc : entryLE b c = true) : entryLE a c = true :=
  Std.TransCmp.isLE_trans hab hbc

theorem entryLE_total (a b : SymbolKey × String) : (entryLE a b || entryLE b a) = true := by
  have hswap : compareKeys b.1 a.1 = (compareKeys a.1 b.1).swap := Std.OrientedCmp.eq_swap
  rw [entryLE, entryLE, hswap]
  cases compareKeys a.1 b.1 <;> rfl

/-- A look-up finds the first of the entries with its key. -/
theorem lookup_eq_head?_filter (es : List (SymbolKey × String)) (k : SymbolKey) :
    es.lookup k = (es.filter fun e => e.1 = k).head?.map Prod.snd := by
  induction es with
  | nil => rfl
  | cons e es ih =>
    by_cases heq : e.1 = k
    · rw [lookup_cons_of_eq (compareKeys_eq_iff.mpr heq.symm),
        List.filter_cons_of_pos (by simpa using heq)]
      rfl
    · rw [lookup_cons_of_ne (mt compareKeys_eq_iff.mp fun h => heq h.symm),
        List.filter_cons_of_neg (by simpa using heq), ih]

/-- **Sorting changes no look-up**, since it keeps the order of the pairs with the same key. -/
theorem lookup_mergeSort (es : List (SymbolKey × String)) (k : SymbolKey) :
    (es.mergeSort entryLE).lookup k = es.lookup k := by
  let p : SymbolKey × String → Bool := fun e => e.1 = k
  have hsame : (es.filter p).Pairwise fun e e' => entryLE e e' = true := by
    refine List.pairwise_of_forall_mem_list fun e he e' he' => ?_
    have hkey : e.1 = e'.1 :=
      (of_decide_eq_true (List.mem_filter.mp he).2).trans
        (of_decide_eq_true (List.mem_filter.mp he').2).symm
    rw [entryLE, compareKeys_eq_iff.mpr hkey]
    rfl
  have hsublist : (es.filter p).Sublist ((es.mergeSort entryLE).filter p) := by
    have hsorted := List.sublist_mergeSort entryLE_trans entryLE_total hsame List.filter_sublist
    have hfilter := hsorted.filter p
    rwa [List.filter_filter, funext fun e => Bool.and_self (p e)] at hfilter
  have hlength := ((List.mergeSort_perm es entryLE).filter p).length_eq
  have hfilter := hsublist.eq_of_length hlength.symm
  rw [lookup_eq_head?_filter, lookup_eq_head?_filter]
  exact congrArg (fun l => l.head?.map Prod.snd) hfilter.symm

/-- Leaving out what repeats the key in front of it puts a sorted list in order, and changes no
look-up. -/
theorem inOrder_destutter (h : es.Pairwise fun e e' => entryLE e e' = true) :
    InOrder (es.destutter fun e e' => e.1 ≠ e'.1) ∧
      ∀ k, (es.destutter fun e e' => e.1 ≠ e'.1).lookup k = es.lookup k := by
  cases es with
  | nil => exact ⟨List.Pairwise.nil, fun _ => rfl⟩
  | cons e es =>
    rw [List.destutter_cons']
    induction es generalizing e with
    | nil => exact ⟨List.pairwise_singleton _ _, fun _ => rfl⟩
    | cons b es ih =>
      obtain ⟨hfirst, hrest⟩ := List.pairwise_cons.mp h
      rw [List.destutter'_cons]
      by_cases hne : e.1 ≠ b.1
      · rw [if_pos hne]
        obtain ⟨horder, hlookup⟩ := ih b hrest
        refine ⟨List.pairwise_cons.mpr ⟨fun x hx => ?_, horder⟩, fun k => ?_⟩
        · have hlt : compareKeys e.1 b.1 = .lt :=
            (Ordering.isLE_iff_eq_lt_or_eq_eq.mp (hfirst b List.mem_cons_self)).resolve_right
              fun heq => hne (compareKeys_eq_iff.mp heq)
          rcases List.mem_cons.mp ((List.destutter'_sublist es _ b).mem hx) with rfl | hx
          · exact hlt
          · exact Std.TransCmp.lt_of_lt_of_isLE hlt ((List.pairwise_cons.mp hrest).1 x hx)
        · rw [List.lookup_cons, List.lookup_cons, hlookup]
      · rw [if_neg hne]
        have hkey : e.1 = b.1 := not_ne_iff.mp hne
        obtain ⟨horder, hlookup⟩ := ih e (h.sublist (by simp))
        refine ⟨horder, fun k => ?_⟩
        rw [hlookup, List.lookup_cons, List.lookup_cons, List.lookup_cons, hkey]
        cases k == b.1 <;> rfl

/-- **The table is the sorted list of the pairs**, without those that repeat the key in front of
them. -/
theorem ordered_eq_destutter (pairs : List (String × String)) :
    ordered pairs =
      ((keyed pairs).mergeSort entryLE).destutter fun e e' => e.1 ≠ e'.1 := by
  obtain ⟨horder, hlookup⟩ := inOrder_destutter
    (List.pairwise_mergeSort entryLE_trans entryLE_total (keyed pairs))
  refine (inOrder_ordered pairs).eq_of_lookup horder fun k => ?_
  rw [hlookup, lookup_mergeSort, lookup_ordered]

end Symbols
end Linewise
