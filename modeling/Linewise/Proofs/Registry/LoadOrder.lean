import Linewise.Proofs.Registry.Closure
import Linewise.Proofs.Tokenizer.Bisimulation
import Mathlib.Data.List.Perm.Basic

/-!
# The order of loading does not matter

Grammars are built when they are first asked for, so the slots that they get, and whether a
reference is to a grammar that is finished or to one that is still being built, depend on the order
in which names are loaded. What the grammars do to a line does not.

## 1.  Registries that are up to date

As long as no name is registered twice, a registry is `Current`: the slot of every name holds what
the description of the name says. In such a registry a name is loaded if and only if all that it
leads to is registered and compiles (`isOk_load_iff`), and this depends on the descriptions alone.

## 2.  Histories

`Registry.Holds` is what remains of a sequence of calls that register each name at most once and
load names: the descriptions, in no particular order.

## 3.  Two histories

In two registries that hold the same descriptions, grammars that the same description compiles to
are related by a bisimulation, whatever their slots are (`SameSource.bisimulation`).
-/

namespace Linewise
namespace Registry

section Engine

variable [Regex.Engine] {r r' : Registry} {name k : String} {added : Named Grammar}
  {d : Description} {label : String}

/-! ## 1.  Registries that are up to date -/

/-- The slot of every name holds what the description of the name says. -/
structure Current (r : Registry) : Prop where
  /-- Every name in the index has a slot. -/
  indexed : r.Indexed
  /-- The grammar in the slot is what the description compiles to. -/
  compiled : ∀ name id, r.slot? name = some id → ∃ d g, r.descriptions.find? name = some d ∧
    r.grammar? id = some g ∧ d.CompilesTo r.slot? r.defaultLabel g

/-- A name has its slot from before, or is one of those that were added. -/
theorem Adds.slot?_cases (h : Adds r added r') {id : Nat} (hid : r'.slot? k = some id) :
    r.slot? k = some id ∨ ∃ i g, added[i]? = some (k, g) ∧ id = r.slots.size + i := by
  cases hold : r.slot? k with
  | some j => exact Or.inl ((h.keepsNumbers k j hold).symm.trans hid)
  | none =>
    have hsome : (r'.slot? k).isSome = true := by rw [hid, Option.isSome_some]
    obtain ⟨⟨_, g⟩, hx, rfl⟩ := List.mem_map.mp (h.mem_names_iff.mpr ⟨hold, hsome⟩)
    obtain ⟨i, hi⟩ := List.getElem?_of_mem hx
    exact Or.inr ⟨i, g, hi, Option.some.inj (hid.symm.trans (h.slot?_of_getElem? hi))⟩

namespace Current

/-- Loading keeps a registry up to date. -/
theorem of_adds (h : r.Current) (hadds : Adds r added r') : r'.Current where
  indexed := hadds.indexed h.indexed
  compiled := by
    intro k id hid
    rw [hadds.descriptions, hadds.defaultLabel]
    rcases hadds.slot?_cases hid with hold | ⟨i, g, hi, rfl⟩
    · obtain ⟨d, g, hd, hg, hcompiles⟩ := h.compiled k id hold
      refine ⟨d, g, hd, ?_, hcompiles.mono hadds.keepsNumbers⟩
      rw [hadds.grammar?_of_lt (lt_size_of_grammar? hg)]
      exact hg
    · obtain ⟨d, hd, hcompiles⟩ := hadds.compiled _ (List.mem_of_getElem? hi)
      exact ⟨d, g, hd, hadds.grammar?_of_getElem? hi, hcompiles⟩

theorem slot?_eq_none (h : r.Current) (hname : r.descriptions.find? name = none) :
    r.slot? name = none := by
  cases hid : r.slot? name with
  | none => rfl
  | some id =>
    obtain ⟨d, _, hd, _, _⟩ := h.compiled name id hid
    rw [hname] at hd
    cases hd

/-- Registering a new name keeps a registry up to date. -/
theorem add (h : r.Current) (hname : r.descriptions.find? name = none) (d : Description) :
    (r.add name d).Current := by
  have hslot : (r.add name d).slot? = r.slot? := by
    funext k
    rw [slot?, Registry.add, Named.find?_erase, ← slot?]
    split
    · next hk => rw [hk, h.slot?_eq_none hname]
    · rfl
  refine ⟨fun x hx => h.indexed x (List.mem_of_mem_filter hx), fun k id hid => ?_⟩
  rw [hslot] at hid ⊢
  obtain ⟨d', g, hd', hg, hcompiles⟩ := h.compiled k id hid
  have hne : k ≠ name := by
    rintro rfl
    rw [hname] at hd'
    cases hd'
  exact ⟨d', g, (Named.find?_put _ _ _ _).trans ((if_neg hne).trans hd'), hg, hcompiles⟩

/-- A name with a slot leads to names with slots only, and so it can be loaded. -/
theorem canLoad (h : r.Current) (hname : (r.slot? name).isSome = true) : r.CanLoad name := by
  have hreached : ∀ k, Relation.ReflTransGen (RefersTo r.descriptions.find?) name k →
      (r.slot? k).isSome = true := by
    intro k hk
    induction hk with
    | refl => exact hname
    | tail _ hrefers ih =>
      obtain ⟨d, hd, hm⟩ := hrefers
      obtain ⟨id, hid⟩ := Option.isSome_iff_exists.mp ih
      obtain ⟨d', g, hd', -, hcompiles⟩ := h.compiled _ id hid
      cases hd.symm.trans hd'
      exact hcompiles.isSome_of_mem hm
  intro k hk
  obtain ⟨id, hid⟩ := Option.isSome_iff_exists.mp (hreached k hk)
  obtain ⟨d, g, hd, -, hcompiles⟩ := h.compiled k id hid
  exact ⟨d, r.slot?, g, hd, hcompiles⟩

end Current

/-- **A name is loaded if and only if all that it leads to is registered and compiles.** -/
theorem isOk_load_iff (h : r.Current) : ((load name).runOn r).1.isOk = true ↔ r.CanLoad name := by
  have hmeets := meets_load name r h.indexed
  match hrun : (load name).runOn r with
  | (.ok id, r') =>
    refine iff_of_true rfl ?_
    obtain ⟨added, hadds, -, hid⟩ := hmeets.ok hrun
    have hcan : r'.CanLoad name := (h.of_adds hadds).canLoad (by rw [hid, Option.isSome_some])
    rwa [CanLoad, hadds.descriptions, hadds.defaultLabel] at hcan
  | (.error e, r') => exact iff_of_false Bool.false_ne_true (hmeets.error hrun).2.1

/-! ## 2.  Histories -/

/-- The description that a call registers. -/
def Call.description? : Call → Option Description
  | .register d => some d
  | _ => none

/-- The call registers one description, or it loads. -/
def Call.isPlain : Call → Bool
  | .register _ => true
  | .load _ => true
  | .resolve _ => true
  | .loadForPath _ => true
  | _ => false

/-- The registry has come about by registering the descriptions `ds`, with different names, and by
loading. -/
structure Holds (ds : List Description) (label : String) (r : Registry) : Prop where
  /-- It is up to date. -/
  current : r.Current
  /-- Its default label has not changed. -/
  defaultLabel : r.defaultLabel = label
  /-- It knows the descriptions by their names, and nothing else. -/
  described : ∀ name d, r.descriptions.find? name = some d ↔ d ∈ ds ∧ d.name = some name

namespace Holds

variable {ds : List Description}

theorem of_empty (label : String) : Holds [] label (empty.withDefaultLabel label) := by
  refine ⟨⟨?_, ?_⟩, rfl, ?_⟩
  · rintro x ⟨⟩
  · rintro name id ⟨⟩
  · intro name d
    refine iff_of_false ?_ fun hd => List.not_mem_nil hd.1
    rintro ⟨⟩

theorem of_adds (h : Holds ds label r) (hadds : Adds r added r') : Holds ds label r' where
  current := h.current.of_adds hadds
  defaultLabel := hadds.defaultLabel.trans h.defaultLabel
  described := by
    rw [hadds.descriptions]
    exact h.described

theorem find?_eq_none (h : Holds ds label r) (hname : name ∉ ds.filterMap Description.name) :
    r.descriptions.find? name = none := by
  cases hd : r.descriptions.find? name with
  | none => rfl
  | some d => exact absurd (List.mem_filterMap.mpr ⟨d, (h.described name d).mp hd⟩) hname

/-- One description more, under a new name. -/
theorem register (h : Holds ds label r)
    (hnames : ((ds ++ [d]).filterMap Description.name).Nodup) :
    Holds (ds ++ [d]) label ((Registry.register d).runOn r).2 := by
  rw [Registry.register]
  cases hname : d.name with
  | none =>
    -- nothing is registered, and no name is looked up as this description
    change Holds (ds ++ [d]) label r
    refine ⟨h.current, h.defaultLabel, fun name d' => (h.described name d').trans ?_⟩
    rw [List.mem_append, List.mem_singleton]
    refine and_congr_left fun hd' => (or_iff_left ?_).symm
    rintro rfl
    rw [hname] at hd'
    cases hd'
  | some name =>
    rw [List.filterMap_append, List.filterMap_cons_some hname, List.filterMap_nil] at hnames
    have hfresh : name ∉ ds.filterMap Description.name := fun hmem =>
      (List.nodup_append.mp hnames).2.2 name hmem name (List.mem_singleton_self name) rfl
    have hnone := h.find?_eq_none hfresh
    change Holds (ds ++ [d]) label (r.add name d)
    refine ⟨h.current.add hnone d, h.defaultLabel, fun k d' => ?_⟩
    change (Named.put name d r.descriptions).find? k = some d' ↔ _
    rw [Named.find?_put, List.mem_append, List.mem_singleton]
    split
    · next hk =>
      rw [hk]
      constructor
      · intro heq
        cases heq
        exact ⟨Or.inr rfl, hname⟩
      · rintro ⟨hd' | rfl, hname'⟩
        · exact absurd (List.mem_filterMap.mpr ⟨d', hd', hname'⟩) hfresh
        · rfl
    · next hk =>
      rw [h.described]
      refine and_congr_left fun hd' => (or_iff_left ?_).symm
      rintro rfl
      exact hk (Option.some.inj (hd'.symm.trans hname))

/-- **One call of a history.** -/
theorem after (h : Holds ds label r) {c : Call} (hplain : c.isPlain = true)
    (hnames : ((ds ++ c.description?.toList).filterMap Description.name).Nodup) :
    Holds (ds ++ c.description?.toList) label (c.after r) := by
  have hindexed : ∀ t, Holds ds label t → t.Indexed := fun t ht => ht.current.indexed
  have hadds : ∀ t added t', Holds ds label t → Adds t added t' → Holds ds label t' :=
    fun t added t' ht hadded => ht.of_adds hadded
  have hsame : ∀ {t}, Holds ds label t → Holds (ds ++ []) label t := fun ht =>
    (List.append_nil ds).symm ▸ ht
  cases c with
  | register d => exact h.register hnames
  | load name => exact hsame ((keeps_load hindexed hadds name).runOn h)
  | resolve name => exact hsame ((keeps_resolve hindexed hadds name).runOn h)
  | loadForPath path => exact hsame ((keeps_loadForPath hindexed hadds path).runOn h)
  | _ => cases hplain

/-- **A whole history.** -/
theorem afterAll (h : Holds ds label r) {calls : List Call}
    (hplain : ∀ c ∈ calls, c.isPlain = true)
    (hnames : ((ds ++ calls.filterMap Call.description?).filterMap Description.name).Nodup) :
    Holds (ds ++ calls.filterMap Call.description?) label (Call.afterAll r calls) := by
  induction calls generalizing ds r with
  | nil =>
    rw [List.filterMap_nil, List.append_nil]
    exact h
  | cons c calls ih =>
    have hsplit : ds ++ (c :: calls).filterMap Call.description? =
        (ds ++ c.description?.toList) ++ calls.filterMap Call.description? := by
      rw [List.append_assoc]
      cases hc : c.description? with
      | none => rw [List.filterMap_cons_none hc]; rfl
      | some d => rw [List.filterMap_cons_some hc]; rfl
    rw [hsplit] at hnames ⊢
    have hfirst := h.after (hplain c List.mem_cons_self)
      (hnames.sublist ((List.sublist_append_left _ _).filterMap _))
    exact ih hfirst (fun c' hc' => hplain c' (List.mem_cons_of_mem _ hc')) hnames

end Holds

/-! ## 3.  Two histories -/

section

variable {r₁ r₂ : Registry}

/-- The two grammars are what one description compiles to in each of the registries. -/
def SameDescription (r₁ r₂ : Registry) (g₁ g₂ : Grammar) : Prop :=
  ∃ d label, Description.CompilesTo r₁.slot? label d g₁ ∧ d.CompilesTo r₂.slot? label g₂

/-- Two registries that are up to date and have the same descriptions. -/
structure SameSource (r₁ r₂ : Registry) : Prop where
  /-- The first one is up to date. -/
  left : r₁.Current
  /-- And so is the second one. -/
  right : r₂.Current
  /-- They know the same descriptions. -/
  descriptions : r₁.descriptions.find? = r₂.descriptions.find?
  /-- They have the same default label. -/
  defaultLabel : r₁.defaultLabel = r₂.defaultLabel

theorem Holds.sameSource {ds₁ ds₂ : List Description} (h₁ : Holds ds₁ label r₁)
    (h₂ : Holds ds₂ label r₂) (hperm : ds₁.Perm ds₂) : SameSource r₁ r₂ where
  left := h₁.current
  right := h₂.current
  descriptions := by
    funext name
    refine Option.ext fun d => ?_
    rw [h₁.described, h₂.described, hperm.mem_iff]
  defaultLabel := h₁.defaultLabel.trans h₂.defaultLabel.symm

namespace SameSource

/-- The slots of a name hold grammars of the same description. -/
theorem exists_grammars (h : SameSource r₁ r₂) {id₁ id₂ : Nat} (hid₁ : r₁.slot? name = some id₁)
    (hid₂ : r₂.slot? name = some id₂) :
    ∃ g₁ g₂, r₁.grammar? id₁ = some g₁ ∧ r₂.grammar? id₂ = some g₂ ∧
      SameDescription r₁ r₂ g₁ g₂ := by
  obtain ⟨d, g₁, hd, hg₁, hcompiles₁⟩ := h.left.compiled name id₁ hid₁
  obtain ⟨d', g₂, hd', hg₂, hcompiles₂⟩ := h.right.compiled name id₂ hid₂
  rw [← h.descriptions] at hd'
  cases hd.symm.trans hd'
  rw [← h.defaultLabel] at hcompiles₂
  exact ⟨g₁, g₂, hg₁, hg₂, d, r₁.defaultLabel, hcompiles₁, hcompiles₂⟩

/-- Nested grammars that the same description compiles to are related. -/
theorem nested (h : SameSource r₁ r₂) {description : Option (NestedDescription Description)}
    {outline : Rule Grammar} {nested₁ nested₂ : Option (Nested Grammar)}
    (h₁ : NestedDescription.CompilesTo? r₁.slot? label description nested₁)
    (h₂ : NestedDescription.CompilesTo? r₂.slot? label description nested₂) :
    nested₂.isSome = nested₁.isSome ∧ Option.Rel (SameDescription r₁ r₂)
      (Grammar.nested? r₁.grammar? { outline with nested := nested₁ })
      (Grammar.nested? r₂.grammar? { outline with nested := nested₂ }) := by
  cases h₁ with
  | none =>
    cases h₂
    exact ⟨rfl, .none⟩
  | @named _ name id₁ hid₁ =>
    cases h₂ with
    | @named _ _ id₂ hid₂ =>
      obtain ⟨g₁, g₂, hg₁, hg₂, hsame⟩ := h.exists_grammars hid₁ hid₂
      refine ⟨rfl, ?_⟩
      rw [Grammar.nested?, Grammar.nested?]
      dsimp only
      rw [hg₁, hg₂]
      exact .some hsame
  | inline hd₁ =>
    cases h₂ with
    | inline hd₂ => exact ⟨rfl, .some ⟨_, _, hd₁, hd₂⟩⟩

/-- Rules that the same descriptions compile to are alike. -/
theorem rules (h : SameSource r₁ r₂) (quick : Bool) {index : Nat}
    {descriptions : List (RuleDescription Description)} {rules₁ rules₂ : List (Rule Grammar)}
    (h₁ : RuleDescription.CompileTo r₁.slot? label index descriptions rules₁)
    (h₂ : RuleDescription.CompileTo r₂.slot? label index descriptions rules₂) :
    List.Forall₂ (Rule.Alike quick r₁.grammar? r₂.grammar? (SameDescription r₁ r₂))
      rules₁ rules₂ := by
  induction descriptions generalizing index rules₁ rules₂ with
  | nil =>
    cases h₁
    cases h₂
    exact .nil
  | cons description descriptions ih =>
    cases h₁ with
    | cons houtline₁ hnested₁ hrest₁ =>
      cases h₂ with
      | cons houtline₂ hnested₂ hrest₂ =>
        cases houtline₁.symm.trans houtline₂
        obtain ⟨hsome, hrel⟩ := h.nested hnested₁ hnested₂
        refine .cons ⟨rfl, rfl, rfl, rfl, rfl, fun _ => ?_, hrel⟩ (ih hrest₁ hrest₂)
        rw [Rule.isStateful, Rule.isStateful, hsome]

/-- **Whatever their slots are, grammars of the same description cannot be told apart.** -/
theorem bisimulation (h : SameSource r₁ r₂) (quick : Bool) :
    Grammar.Bisimulation quick r₁.grammar? r₂.grammar? fun _ => SameDescription r₁ r₂ := by
  refine Grammar.bisimulation_of_forall ?_
  rintro g₁ g₂ ⟨d, label, h₁, h₂⟩
  cases h₁ with
  | intro hrules₁ _ =>
    cases h₂ with
    | intro hrules₂ _ => exact ⟨rfl, rfl, h.rules quick hrules₁ hrules₂⟩

/-- The tokenizers for a name that is loaded in both registries. -/
theorem exists_equivalent (h : SameSource r₁ r₂) {id₁ id₂ : Nat}
    (hid₁ : r₁.slot? name = some id₁) (hid₂ : r₂.slot? name = some id₂) :
    ∃ k₁ k₂, r₁.tokenizer? id₁ = some k₁ ∧ r₂.tokenizer? id₂ = some k₂ ∧ k₁.Equivalent k₂ := by
  obtain ⟨g₁, g₂, hg₁, hg₂, hsame⟩ := h.exists_grammars hid₁ hid₂
  refine ⟨⟨r₁.grammar?, g₁⟩, ⟨r₂.grammar?, g₂⟩, ?_, ?_, ?_⟩
  · rw [tokenizer?, hg₁, Option.map_some]
  · rw [tokenizer?, hg₂, Option.map_some]
  · exact Tokenizer.equivalent_of_bisimulation h.bisimulation hsame

end SameSource

end

/-- **The order of registering and loading does not matter.** Two new registries with the same
default label, in which the same descriptions with different names are registered in any order, and
between and after that any names are loaded, whether they fail or not: in both of them a name is
loaded, or in none; and if it is, the tokenizers for it cannot be told apart. -/
theorem load_order (calls₁ calls₂ : List Call) (hplain₁ : ∀ c ∈ calls₁, c.isPlain = true)
    (hplain₂ : ∀ c ∈ calls₂, c.isPlain = true)
    (hperm : (calls₁.filterMap Call.description?).Perm (calls₂.filterMap Call.description?))
    (hnames : ((calls₁.filterMap Call.description?).filterMap Description.name).Nodup)
    (label name : String) :
    let r₁ := Call.afterAll (empty.withDefaultLabel label) calls₁
    let r₂ := Call.afterAll (empty.withDefaultLabel label) calls₂
    ((load name).runOn r₁).1.isOk = ((load name).runOn r₂).1.isOk ∧
    ∀ id₁ r₁' id₂ r₂', (load name).runOn r₁ = (.ok id₁, r₁') →
      (load name).runOn r₂ = (.ok id₂, r₂') →
      ∃ k₁ k₂, r₁'.tokenizer? id₁ = some k₁ ∧ r₂'.tokenizer? id₂ = some k₂ ∧
        k₁.Equivalent k₂ := by
  intro r₁ r₂
  have h₁ : Holds (calls₁.filterMap Call.description?) label r₁ :=
    (Holds.of_empty label).afterAll hplain₁ hnames
  have h₂ : Holds (calls₂.filterMap Call.description?) label r₂ :=
    (Holds.of_empty label).afterAll hplain₂ ((hperm.filterMap _).nodup_iff.mp hnames)
  have hsource := h₁.sameSource h₂ hperm
  constructor
  · rw [Bool.eq_iff_iff, isOk_load_iff h₁.current, isOk_load_iff h₂.current, CanLoad, CanLoad,
      hsource.descriptions, hsource.defaultLabel]
  · intro id₁ r₁' id₂ r₂' hload₁ hload₂
    obtain ⟨_, hadds₁, -, hid₁⟩ := (meets_load name r₁ h₁.current.indexed).ok hload₁
    obtain ⟨_, hadds₂, -, hid₂⟩ := (meets_load name r₂ h₂.current.indexed).ok hload₂
    exact ((h₁.of_adds hadds₁).sameSource (h₂.of_adds hadds₂) hperm).exists_equivalent hid₁ hid₂

end Engine

/-- Words, and lists of words and lists in brackets. -/
def wordsAndLists : List Description :=
  let bracket (nested : String) : RuleDescription Description :=
    ⟨some (.many ["%[", "%]"]), none, some (.one "bracket"), some (.named nested)⟩
  [⟨some "word", [], none, [.lua (.one "%a+") "word"], []⟩,
    ⟨some "list", [], none, ["word", "list"].map bracket, []⟩]

/-- In the second history lists are loaded in vain before words are registered, and get the slot
that words have in the first one. -/
theorem load_order_wordsAndLists :
    let words := wordsAndLists[0]
    let lists := wordsAndLists[1]
    let r₁ := Call.afterAll (empty.withDefaultLabel "text")
      [.register words, .register lists, .load "word"]
    let r₂ := Call.afterAll (empty.withDefaultLabel "text")
      [.register lists, .load "list", .register words]
    ∃ r₁' r₂' k₁ k₂, (load "list").runOn r₁ = (.ok 1, r₁') ∧ (load "list").runOn r₂ = (.ok 0, r₂') ∧
      r₁'.tokenizer? 1 = some k₁ ∧ r₂'.tokenizer? 0 = some k₂ ∧ k₁.Equivalent k₂ := by
  intro words lists r₁ r₂
  have hok₁ : ((load "list").runOn r₁).1 = .ok 1 := by decide
  have hok₂ : ((load "list").runOn r₂).1 = .ok 0 := by decide
  have hrun₁ := Building.runOn_eq_of_fst_eq hok₁
  have hrun₂ := Building.runOn_eq_of_fst_eq hok₂
  obtain ⟨-, hsame⟩ := load_order [.register words, .register lists, .load "word"]
    [.register lists, .load "list", .register words]
    (by decide) (by decide) (.swap lists words []) (by decide) "text" "list"
  obtain ⟨k₁, k₂, hk₁, hk₂, hequivalent⟩ := hsame 1 _ 0 _ hrun₁ hrun₂
  exact ⟨_, _, k₁, k₂, hrun₁, hrun₂, hk₁, hk₂, hequivalent⟩

end Registry
end Linewise
