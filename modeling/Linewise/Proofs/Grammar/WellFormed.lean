import Linewise.Proofs.Grammar.Resolving
import Linewise.Regex.Bundled

/-!
# Well-formed descriptions

Which descriptions can be built, and what comes out, said without the building: no check comes
before another here, there are no errors and no states, and the rules are not counted from an index.

## 1.  Rules

`RuleDescription.WellFormed` lists what is asked of a rule, its nested grammar apart, and
`RuleDescription.Mirrors` says which rule comes out. A rule compiles if and only if it is
well-formed, to the rule that mirrors it (`compile_eq_ok_iff`). Which regular expressions compile,
and how many boundaries they have, is what the engine answers, and the engine can be any.

## 2.  Grammars

A description is well-formed if all its rules are, there are not too many of them, the names in
them are known, and the descriptions in them are well-formed. A grammar mirrors a description level
by level. The default label is the one thing that is handed inwards: that of the nearest description
that sets one.

## 3.  Building

`buildGrammar_wellFormed` is about resolvers that answer each name by a fixed number or do not know
it, in whatever states. With them, exactly the well-formed descriptions can be built, and what is
built mirrors the description.
-/

namespace Linewise

theorem bind_eq_ok_iff {ε α β : Type} {x : Except ε α} {f : α → Except ε β} {b : β} :
    x >>= f = .ok b ↔ ∃ a, x = .ok a ∧ f a = .ok b := by
  cases x with
  | ok a => simp [bind, Except.bind]
  | error e => simp [bind, Except.bind]

theorem map_eq_ok_iff {ε α β : Type} {x : Except ε α} {f : α → β} {b : β} :
    f <$> x = .ok b ↔ ∃ a, x = .ok a ∧ f a = b := by
  cases x with
  | ok a => simp [Functor.map, Except.map]
  | error e => simp [Functor.map, Except.map]

theorem mapError_eq_ok_iff {ε ε' α : Type} {x : Except ε α} {f : ε → ε'} {a : α} :
    x.mapError f = .ok a ↔ x = .ok a := by
  cases x with
  | ok a' =>
    show (Except.ok a' : Except ε' α) = .ok a ↔ (Except.ok a' : Except ε α) = .ok a
    simp
  | error e =>
    show (Except.error (f e) : Except ε' α) = .ok a ↔ (Except.error e : Except ε α) = .ok a
    simp

/-! ## 1.  Rules -/

namespace RuleDescription

variable {δ : Type}

/-- The flavour of the patterns, where there are patterns of one flavour only. -/
def flavour (r : RuleDescription δ) : Flavour := if r.pattern.isSome then .lua else .regex

/-- The texts of the patterns, where there are patterns of one flavour only. -/
def texts (r : RuleDescription δ) : List String :=
  ((r.pattern <|> r.regex).map OneOrMany.toList).getD []

/-- The labels that are given. -/
def labelTexts (r : RuleDescription δ) : List String := (r.label.map OneOrMany.toList).getD []

theorem sources_eq_ok_iff {r : RuleDescription δ} {flavour : Flavour} {texts : List String} :
    r.sources = .ok (flavour, texts) ↔
      r.pattern.isSome ≠ r.regex.isSome ∧ r.flavour = flavour ∧ r.texts = texts := by
  obtain ⟨pattern, regex, _, _⟩ := r
  cases pattern <;> cases regex <;> simp [sources, RuleDescription.flavour, RuleDescription.texts]

theorem labels_eq_ok_iff {r : RuleDescription δ} {label : String} {more : List String} :
    r.labels = .ok (label, more) ↔ r.labelTexts = label :: more := by
  obtain ⟨_, _, labels, _⟩ := r
  match labels with
  | none => simp [RuleDescription.labels, labelTexts]
  | some (.one _) => simp [RuleDescription.labels, labelTexts, OneOrMany.toList]
  | some (.many []) => simp [RuleDescription.labels, labelTexts, OneOrMany.toList]
  | some (.many (_ :: _)) => simp [RuleDescription.labels, labelTexts, OneOrMany.toList]

end RuleDescription

section Engine

variable [Regex.Engine]

/-- The pattern that a text makes, if it makes one. Lua-style, every text does. -/
def Flavour.pattern? : Flavour → String → Option Pattern
  | .lua, text => some (.lua text)
  | .regex, text => (Regex.compile text).toOption.map .regex

theorem Flavour.compile_eq_ok_iff {flavour : Flavour} {text : String} {p : Pattern} :
    flavour.compile text = .ok p ↔ flavour.pattern? text = some p := by
  cases flavour with
  | lua => simp [compile, pattern?]
  | regex =>
    rw [compile, pattern?]
    cases Regex.compile text with
    | ok re =>
      show (Except.ok (.regex re) : Except Error Pattern) = .ok p ↔ some (.regex re) = some p
      simp
    | error refusal =>
      show (Except.error _ : Except Error Pattern) = .ok p ↔ none = some p
      simp

namespace RuleDescription

section

variable {δ γ : Type}

/-- The pattern that enters, at `0`, or that closes, at `1`. -/
def pattern? (r : RuleDescription δ) (slot : Nat) : Option Pattern :=
  r.texts[slot]?.bind r.flavour.pattern?

/-- The greatest number of boundaries that a match of the pattern that enters or closes can have. -/
def boundaryCount (r : RuleDescription δ) : Nat :=
  max (((r.pattern? 0).map Pattern.boundaryCount).getD 0)
    (((r.pattern? 1).map Pattern.boundaryCount).getD 0)

/-- The description of a rule is well-formed, its nested grammar apart. -/
structure WellFormed (r : RuleDescription δ) : Prop where
  /-- It has patterns of exactly one flavour. -/
  oneFlavour : r.pattern.isSome ≠ r.regex.isSome
  /-- It has at least one pattern. -/
  texts_pos : 1 ≤ r.texts.length
  /-- It has no more patterns than enter, close and escape. -/
  texts_le : r.texts.length ≤ 3
  /-- The texts of enter and close make patterns. -/
  compiles : ∀ text ∈ r.texts.take 2, (r.flavour.pattern? text).isSome = true
  /-- It has a label. -/
  labels_ne : r.labelTexts ≠ []
  /-- It has one label, or not more than its patterns have boundaries. -/
  labels_le : r.labelTexts.length ≤ 1 ∨ r.labelTexts.length ≤ r.boundaryCount

/-- The rule is the one that the description describes, its nested grammar apart. -/
structure Mirrors (r : RuleDescription δ) (rule : Rule γ) : Prop where
  /-- It enters by the first pattern. -/
  enter : r.pattern? 0 = some rule.enter
  /-- It closes by the second one, if there is one. -/
  close : r.pattern? 1 = rule.close
  /-- The third one keeps it open, and is Lua-style. -/
  escape : r.texts[2]?.map .lua = rule.escape
  /-- It has the labels that are given. -/
  labels : r.labelTexts = rule.labels

/-- The parts of being well-formed can be computed. -/
instance (r : RuleDescription δ) : Decidable r.WellFormed :=
  decidable_of_iff
    (r.pattern.isSome ≠ r.regex.isSome ∧ 1 ≤ r.texts.length ∧ r.texts.length ≤ 3 ∧
      (∀ text ∈ r.texts.take 2, (r.flavour.pattern? text).isSome = true) ∧ r.labelTexts ≠ [] ∧
      (r.labelTexts.length ≤ 1 ∨ r.labelTexts.length ≤ r.boundaryCount))
    ⟨fun ⟨hone, hpos, hle, hcompiles, hlabels, hcount⟩ =>
        ⟨hone, hpos, hle, hcompiles, hlabels, hcount⟩,
      fun h => ⟨h.oneFlavour, h.texts_pos, h.texts_le, h.compiles, h.labels_ne, h.labels_le⟩⟩

/-! ### The checks, one by one -/

theorem patterns_eq_ok_iff {r : RuleDescription δ} {index : Nat} {enter : Pattern}
    {close escape : Option Pattern} :
    r.patterns index = .ok (enter, close, escape) ↔
      r.pattern.isSome ≠ r.regex.isSome ∧ r.texts.length ≤ 3 ∧
        (∀ text ∈ r.texts.take 2, (r.flavour.pattern? text).isSome = true) ∧
        r.pattern? 0 = some enter ∧ r.pattern? 1 = close ∧ r.texts[2]?.map .lua = escape := by
  simp only [patterns, bind_eq_ok_iff, mapError_eq_ok_iff, Prod.exists, sources_eq_ok_iff,
    and_assoc, exists_and_left, exists_eq_left', pattern?]
  refine and_congr_right fun _ => ?_
  generalize r.texts = texts
  generalize r.flavour = flavour
  match texts with
  | [] => simp
  | [enter] =>
    cases h : flavour.pattern? enter <;>
      simp [map_eq_ok_iff, Flavour.compile_eq_ok_iff, h]
  | [enter, close] =>
    cases h : flavour.pattern? enter <;> cases h' : flavour.pattern? close <;>
      simp [bind_eq_ok_iff, map_eq_ok_iff, Flavour.compile_eq_ok_iff, h, h']
  | [enter, close, escape] =>
    cases h : flavour.pattern? enter <;> cases h' : flavour.pattern? close <;>
      simp [bind_eq_ok_iff, map_eq_ok_iff, Flavour.compile_eq_ok_iff, h, h']
  | _ :: _ :: _ :: _ :: _ => simp

theorem boundaryCount_eq {r : RuleDescription δ} {enter : Pattern} {close : Option Pattern}
    (henter : r.pattern? 0 = some enter) (hclose : r.pattern? 1 = close) :
    r.boundaryCount = segmentLimit enter close := by
  rw [boundaryCount, henter, hclose]
  rfl

/-- Where there is a pattern that enters, there is a text. -/
theorem texts_pos_of_pattern? {r : RuleDescription δ} {enter : Pattern}
    (henter : r.pattern? 0 = some enter) : 1 ≤ r.texts.length := by
  rw [pattern?, Option.bind_eq_some_iff] at henter
  obtain ⟨text, htext, -⟩ := henter
  exact (List.getElem?_eq_some_iff.mp htext).1

/-- **Without its nested grammar, a rule compiles if and only if it is well-formed**, to the rule
that mirrors it. -/
theorem compile_eq_ok_iff {r : RuleDescription δ} {index : Nat} {rule : Rule Grammar} :
    r.compile index = .ok rule ↔ r.WellFormed ∧ r.Mirrors rule ∧ rule.nested = none := by
  simp only [compile, bind_eq_ok_iff, mapError_eq_ok_iff, Prod.exists, patterns_eq_ok_iff,
    labels_eq_ok_iff]
  constructor
  · rintro ⟨enter, close, escape, ⟨hone, hle, hcompiles, henter, hclose, hescape⟩, label, more,
      hlabels, h⟩
    split at h
    · cases h
    · next hcount =>
      cases h
      rw [← boundaryCount_eq henter hclose, Bool.and_eq_true, decide_eq_true_iff,
        decide_eq_true_iff] at hcount
      have hlength : r.labelTexts.length = more.length + 1 := by rw [hlabels, List.length_cons]
      exact ⟨⟨hone, texts_pos_of_pattern? henter, hle, hcompiles, by simp [hlabels], by omega⟩,
        ⟨henter, hclose, hescape, hlabels⟩, rfl⟩
  · rintro ⟨h, hmirrors, hnested⟩
    refine ⟨rule.enter, rule.close, rule.escape, ⟨h.oneFlavour, h.texts_le, h.compiles,
      hmirrors.enter, hmirrors.close, hmirrors.escape⟩, rule.label, rule.moreLabels,
      hmirrors.labels, ?_⟩
    have hlength : r.labelTexts.length = rule.moreLabels.length + 1 := by
      rw [hmirrors.labels, Rule.labels, List.length_cons]
    have hcount := h.labels_le
    rw [boundaryCount_eq hmirrors.enter hmirrors.close] at hcount
    rw [if_neg (by simp only [Bool.and_eq_true, decide_eq_true_iff]; omega), ← hnested]
    rfl

/-- A well-formed rule compiles. -/
theorem WellFormed.exists_compile {r : RuleDescription δ} (h : r.WellFormed) (index : Nat) :
    ∃ rule, r.compile index = .ok rule := by
  obtain ⟨text, rest, htexts⟩ := List.exists_cons_of_length_pos h.texts_pos
  have hmem : text ∈ r.texts.take 2 := by rw [htexts]; exact List.mem_cons_self
  obtain ⟨enter, henter⟩ := Option.isSome_iff_exists.mp (h.compiles text hmem)
  obtain ⟨label, more, hlabels⟩ := List.exists_cons_of_ne_nil h.labels_ne
  have henter' : r.pattern? 0 = some enter := by
    rw [pattern?, htexts, List.getElem?_cons_zero, Option.bind_some, henter]
  exact ⟨⟨enter, r.pattern? 1, r.texts[2]?.map .lua, label, more, none⟩,
    compile_eq_ok_iff.mpr ⟨h, ⟨henter', rfl, rfl, hlabels⟩, rfl⟩⟩

/-- The patterns of a Lua-style rule are its texts. -/
theorem pattern?_of_lua {r : RuleDescription δ} (h : r.pattern.isSome = true) (slot : Nat) :
    r.pattern? slot = r.texts[slot]?.map .lua := by
  rw [pattern?, flavour, if_pos h]
  cases r.texts[slot]? <;> rfl

/-- A Lua-style rule is well-formed if it has one to three patterns and a label, and not more labels
than its first pattern has boundaries. -/
theorem wellFormed_of_lua {r : RuleDescription δ} (hlua : r.pattern.isSome = true)
    (hregex : r.regex.isSome = false) (hpos : 1 ≤ r.texts.length) (hle : r.texts.length ≤ 3)
    (hlabels : r.labelTexts ≠ [])
    (hcount : r.labelTexts.length ≤
      r.texts[0]?.elim 0 fun text => (Pattern.lua text).boundaryCount) :
    r.WellFormed where
  oneFlavour := by simp [hlua, hregex]
  texts_pos := hpos
  texts_le := hle
  compiles := fun _ _ => by
    rw [flavour, if_pos hlua]
    rfl
  labels_ne := hlabels
  labels_le := by
    rw [boundaryCount, pattern?_of_lua hlua]
    cases htext : r.texts[0]? with
    | none =>
      rw [htext] at hcount
      exact Or.inl (Nat.le_trans hcount (Nat.zero_le _))
    | some text =>
      rw [htext] at hcount
      exact Or.inr (Nat.le_trans hcount (Nat.le_max_left _ _))

/-- The nested grammar of a rule does not matter. -/
theorem Mirrors.with_nested {r : RuleDescription δ} {rule : Rule γ} (h : r.Mirrors rule)
    (nested : Option (Nested γ)) : r.Mirrors { rule with nested } :=
  ⟨h.enter, h.close, h.escape, h.labels⟩

end

end RuleDescription

/-! ## 2.  Grammars -/

mutual

/-- A description is well-formed, if the names that are known are those with a number. -/
inductive Description.WellFormed (numbers : String → Option Nat) : Description → Prop where
  /-- There are not more rules than a carry can tell apart, and they are well-formed, as are their
  nested grammars. -/
  | intro {d : Description} (count : d.rules.length ≤ maxRules)
      (rules : ∀ r ∈ d.rules, r.WellFormed)
      (nested : ∀ r ∈ d.rules, NestedDescription.WellFormed? numbers r.nested) :
      Description.WellFormed numbers d

/-- The nested grammar of a rule is well-formed, if it has one. -/
inductive NestedDescription.WellFormed? (numbers : String → Option Nat) :
    Option (NestedDescription Description) → Prop where
  /-- There is none. -/
  | none : NestedDescription.WellFormed? numbers none
  /-- A name is known. -/
  | named {name : String} (hname : (numbers name).isSome = true) :
      NestedDescription.WellFormed? numbers (some (.named name))
  /-- An inline description is well-formed itself. -/
  | inline {d : Description} (hd : Description.WellFormed numbers d) :
      NestedDescription.WellFormed? numbers (some (.inline d))

end

mutual

/-- The grammar is the one that the description describes, inside of a grammar with the default
label `inherited`. -/
inductive Description.Mirrors (numbers : String → Option Nat) :
    String → Description → Grammar → Prop where
  /-- Its rules are those that are described, in the same order. Their nested grammars inherit its
  default label. -/
  | intro {inherited : String} {d : Description} {g : Grammar} (name : g.name = d.name)
      (defaultLabel : g.defaultLabel = d.defaultLabel.getD inherited)
      (symbols : g.symbols = .ofList d.symbols)
      (length : g.rules.length = d.rules.length)
      (rules : ∀ (i : Nat) (r : RuleDescription Description) (rule : Rule Grammar),
        d.rules[i]? = some r → g.rules[i]? = some rule → r.Mirrors rule)
      (nested : ∀ (i : Nat) (r : RuleDescription Description) (rule : Rule Grammar),
        d.rules[i]? = some r → g.rules[i]? = some rule →
        NestedDescription.Mirrors? numbers g.defaultLabel r.nested rule.nested) :
      Description.Mirrors numbers inherited d g

/-- The nested grammar of a rule is the one that is described, if one is. -/
inductive NestedDescription.Mirrors? (numbers : String → Option Nat) :
    String → Option (NestedDescription Description) → Option (Nested Grammar) → Prop where
  /-- There is none. -/
  | none {label : String} : NestedDescription.Mirrors? numbers label none none
  /-- A name is replaced by its number. -/
  | named {label name : String} {id : Nat} (hid : numbers name = some id) :
      NestedDescription.Mirrors? numbers label (some (.named name)) (some (.shared id))
  /-- An inline description is replaced by a grammar of its own. -/
  | inline {label : String} {d : Description} {g : Grammar}
      (hd : Description.Mirrors numbers label d g) :
      NestedDescription.Mirrors? numbers label (some (.inline d)) (some (.owned g))

end

variable {numbers : String → Option Nat}

mutual

/-- What compiles is well-formed, and is mirrored. -/
theorem Description.CompilesTo.mirrors {label : String} {d : Description} {g : Grammar}
    (h : d.CompilesTo numbers label g) : d.WellFormed numbers ∧ d.Mirrors numbers label g :=
  match h with
  | .intro hrules hcount => by
    obtain ⟨hwell, hmirrors⟩ := hrules.mirrors
    exact ⟨.intro (hrules.length_eq ▸ hcount) (fun r hr => (hwell r hr).1)
        fun r hr => (hwell r hr).2,
      .intro rfl rfl rfl hrules.length_eq (fun i r rule hr hrule => (hmirrors i r rule hr hrule).1)
        fun i r rule hr hrule => (hmirrors i r rule hr hrule).2⟩

theorem RuleDescription.CompileTo.mirrors {label : String} {index : Nat}
    {descriptions : List (RuleDescription Description)} {rules : List (Rule Grammar)}
    (h : RuleDescription.CompileTo numbers label index descriptions rules) :
    (∀ r ∈ descriptions, r.WellFormed ∧ NestedDescription.WellFormed? numbers r.nested) ∧
      ∀ (i : Nat) (r : RuleDescription Description) (rule : Rule Grammar),
        descriptions[i]? = some r → rules[i]? = some rule →
        r.Mirrors rule ∧ NestedDescription.Mirrors? numbers label r.nested rule.nested :=
  match h with
  | .nil => ⟨fun _ hr => (List.not_mem_nil hr).elim, fun _ _ _ hr => by simp at hr⟩
  | .cons houtline hnested hrest => by
    obtain ⟨hwell, hmirrors, -⟩ := RuleDescription.compile_eq_ok_iff.mp houtline
    obtain ⟨hwell_nested, hmirrors_nested⟩ := hnested.mirrors
    obtain ⟨hwell_rest, hmirrors_rest⟩ := hrest.mirrors
    refine ⟨List.forall_mem_cons.mpr ⟨⟨hwell, hwell_nested⟩, hwell_rest⟩,
      fun i r rule hr hrule => ?_⟩
    cases i with
    | zero =>
      cases hr
      cases hrule
      exact ⟨hmirrors.with_nested _, hmirrors_nested⟩
    | succ i => exact hmirrors_rest i r rule hr hrule

theorem NestedDescription.CompilesTo?.mirrors {label : String}
    {description : Option (NestedDescription Description)} {nested : Option (Nested Grammar)}
    (h : NestedDescription.CompilesTo? numbers label description nested) :
    NestedDescription.WellFormed? numbers description ∧
      NestedDescription.Mirrors? numbers label description nested :=
  match h with
  | .none => ⟨.none, .none⟩
  | .named hid => ⟨.named (Option.isSome_of_eq_some hid), .named hid⟩
  | .inline hd => ⟨.inline hd.mirrors.1, .inline hd.mirrors.2⟩

end

/-- Rules that are well-formed compile, if their nested grammars do. -/
theorem RuleDescription.exists_compileTo (label : String)
    (descriptions : List (RuleDescription Description))
    (h : ∀ r ∈ descriptions, r.WellFormed ∧
      ∃ nested, NestedDescription.CompilesTo? numbers label r.nested nested) (index : Nat) :
    ∃ rules, RuleDescription.CompileTo numbers label index descriptions rules := by
  induction descriptions generalizing index with
  | nil => exact ⟨[], .nil⟩
  | cons r rest ih =>
    obtain ⟨⟨hwell, nested, hnested⟩, hrest⟩ := List.forall_mem_cons.mp h
    obtain ⟨outline, houtline⟩ := hwell.exists_compile index
    obtain ⟨rules, hrules⟩ := ih hrest (index + 1)
    exact ⟨_, .cons houtline hnested hrules⟩

mutual

/-- What is well-formed compiles. -/
theorem Description.WellFormed.exists_compilesTo {d : Description} (h : d.WellFormed numbers)
    (label : String) : ∃ g, d.CompilesTo numbers label g :=
  match h with
  | .intro count rules nested => by
    obtain ⟨built, hbuilt⟩ := RuleDescription.exists_compileTo (d.defaultLabel.getD label) d.rules
      (fun r hr => ⟨rules r hr, (nested r hr).exists_compilesTo? _⟩) 0
    exact ⟨_, .intro hbuilt (hbuilt.length_eq ▸ count)⟩

theorem NestedDescription.WellFormed?.exists_compilesTo?
    {description : Option (NestedDescription Description)}
    (h : NestedDescription.WellFormed? numbers description) (label : String) :
    ∃ nested, NestedDescription.CompilesTo? numbers label description nested :=
  match h with
  | .none => ⟨_, .none⟩
  | .named hname => by
    obtain ⟨id, hid⟩ := Option.isSome_iff_exists.mp hname
    exact ⟨_, .named hid⟩
  | .inline hd => by
    obtain ⟨g, hg⟩ := hd.exists_compilesTo label
    exact ⟨_, .inline hg⟩

end

/-! ## 3.  Building -/

section

variable {σ : Type} {resolve : Resolver σ}

/-- A resolver that answers each name by a fixed number, or does not know it. -/
theorem serves_of_fixed (h : ∀ name s, ((resolve name).runOn s).1 = .ok (numbers name))
    (label : String) (d : Description) :
    resolve.Serves d.references (fun _ => True) (fun _ => numbers)
      fun _ _ => ¬ ∃ g, d.CompilesTo numbers label g := by
  refine ⟨fun name hname s _ => ?_, fun _ _ _ hfail => hfail⟩
  rw [Building.Meets, Building.runOn_eq_of_fst_eq (h name s)]
  cases hid : numbers name with
  | some id => exact ⟨trivial, .refl _, rfl⟩
  | none =>
    rintro - ⟨g, hg⟩
    have hsome := hg.isSome_of_mem hname
    rw [hid] at hsome
    cases hsome

/-- A well-formed description without references can be built whatever the resolver does, and the
state stays as it is. -/
theorem exists_runOn_buildGrammar {d : Description} (hnames : d.references = [])
    (hwell : d.WellFormed numbers) (label : String) (s : σ) :
    ∃ g, (buildGrammar resolve label d).runOn s = (.ok g, s) ∧ d.Mirrors numbers label g := by
  have hserves : resolve.Serves [] (· = s) (fun _ => numbers) fun _ _ => False :=
    ⟨fun _ hname => (List.not_mem_nil hname).elim, fun _ _ _ hfail => hfail⟩
  have hmeets := meets_buildGrammar hserves label d (List.subset_nil.mpr hnames) s rfl
  match hend : (buildGrammar resolve label d).runOn s with
  | (.ok g, t) =>
    obtain ⟨rfl, -, hcompiles⟩ := hmeets.ok hend
    exact ⟨g, rfl, hcompiles.mirrors.2⟩
  | (.error e, t) =>
    rcases hmeets.error hend with hfail | ⟨-, -, hnot⟩
    · exact hfail.elim
    · exact (hnot numbers (hwell.exists_compilesTo label)).elim

/-- **Exactly the well-formed descriptions can be built**, and what is built mirrors the
description. -/
theorem buildGrammar_wellFormed (h : ∀ name s, ((resolve name).runOn s).1 = .ok (numbers name))
    (label : String) (d : Description) (s : σ) :
    ((∃ g, ((buildGrammar resolve label d).runOn s).1 = .ok g) ↔ d.WellFormed numbers) ∧
      ∀ g, ((buildGrammar resolve label d).runOn s).1 = .ok g → d.Mirrors numbers label g := by
  have hmeets := meets_buildGrammar (serves_of_fixed h label d) label d
    (List.Subset.refl _) s trivial
  have hcompiles : ∀ g, ((buildGrammar resolve label d).runOn s).1 = .ok g →
      d.CompilesTo numbers label g := by
    intro g hg
    exact (hmeets.ok (Building.runOn_eq_of_fst_eq hg)).2.2
  refine ⟨⟨fun ⟨g, hg⟩ => (hcompiles g hg).mirrors.1, fun hwell => ?_⟩,
    fun g hg => (hcompiles g hg).mirrors.2⟩
  have hexists := hwell.exists_compilesTo label
  match hend : ((buildGrammar resolve label d).runOn s).1 with
  | .ok g => exact ⟨g, rfl⟩
  | .error e =>
    rcases hmeets.error (Building.runOn_eq_of_fst_eq hend) with hfail | ⟨-, -, hnot⟩
    · exact (hfail hexists).elim
    · exact (hnot numbers hexists).elim

end

end Engine

/-- A grammar that describes another one in place, which refers to a third one by its name. The
first rule has two labels, since its pattern captures a group, and the last one, a regular
expression for the bundled engine, has three. -/
theorem buildGrammar_wellFormed_inline :
    let numbers : String → Option Nat := fun name => if name = "c" then some 3 else none
    let inner : Description :=
      ⟨none, [], none, [⟨some (.one "x"), none, some (.one "b"), some (.named "c")⟩], []⟩
    let outer : Description :=
      ⟨none, [], some "text", [⟨some (.one "(a)y"), none, some (.many ["a", "b"]),
          some (.inline inner)⟩,
        ⟨none, some (.one "(fn)(\\s+)\\w+"), some (.many ["keyword", "text", "name"]), none⟩], []⟩
    (∀ name (s : Unit), ((Resolver.fixed numbers name).runOn s).1 = .ok (numbers name)) ∧
      ∃ g, ((buildGrammar (Resolver.fixed numbers) "default" outer).runOn ()).1 = .ok g ∧
        outer.Mirrors numbers "default" g := by
  intro numbers inner outer
  have hfixed : ∀ name (s : Unit),
      ((Resolver.fixed numbers name).runOn s).1 = .ok (numbers name) := fun _ _ => rfl
  have hinner : inner.WellFormed numbers := .intro (by decide)
    (List.forall_mem_singleton.mpr (by decide))
    (List.forall_mem_singleton.mpr (.named (by decide)))
  have houter : outer.WellFormed numbers := .intro (by decide)
    (List.forall_mem_cons.mpr ⟨by decide, List.forall_mem_singleton.mpr (by decide +kernel)⟩)
    (List.forall_mem_cons.mpr ⟨.inline hinner, List.forall_mem_singleton.mpr .none⟩)
  obtain ⟨hbuilds, hmirrors⟩ := buildGrammar_wellFormed hfixed "default" outer ()
  obtain ⟨g, hg⟩ := hbuilds.mpr houter
  exact ⟨hfixed, g, hg, hmirrors g hg⟩

end Linewise
