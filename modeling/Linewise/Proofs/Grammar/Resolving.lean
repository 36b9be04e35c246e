import Linewise.Proofs.Grammar.Building
import Linewise.Proofs.Grammar.References

/-!
# Building with a resolver that has a state

Building a description runs a resolver for each name in it, one after the other, and a resolver can
change its state. What building does to the state, what it answers and how it fails all come from
the resolver, by going through the description once.

## 1.  Faults

The checks of a description know nothing of the resolver. An error of theirs is a *fault*.

## 2.  How building ends

`Resolver.Serves` lists what is known of a resolver that is only asked for certain names: an
invariant of its states, the numbers that names have in a state, and what holds where it fails.
`meets_buildGrammar` concludes from it how building ends.

* If it succeeds, the description compiles to the grammar under the numbers that names have at the
  *end*: no number is taken back, so the references that were resolved first are still right.
* If it fails, then either the resolver has failed, or the description is at fault itself: it
  compiles to nothing, whatever numbers the names have.

## 3.  What building depends on

Two resolvers that do the same in every state that comes about while a description is built, build
the same (`agree_buildGrammar`).
-/

namespace Linewise

/-! ## 1.  Faults -/

/-- The error is about a description, not about what is registered. -/
def Error.IsFault : Error → Prop
  | .compile _ _ => True
  | .rule _ _ => True
  | _ => False

theorem Error.IsFault.atRule {e : Error} (h : e.IsFault) (index : Nat) :
    (e.atRule index).IsFault := by
  cases e with
  | rule => trivial
  | compile => trivial
  | _ => exact h

/-- `x` fails only with errors about a description. -/
def FailsByFault {α : Type} (x : Except Error α) : Prop := ∀ e, x = .error e → e.IsFault

section

variable {α β : Type}

theorem failsByFault_ok (a : α) : FailsByFault (Except.ok a) := by
  intro e h
  cases h

theorem failsByFault_rule (index : Nat) (fault : RuleFault) :
    FailsByFault (Except.error (.rule index fault) : Except Error α) := by
  rintro e ⟨⟩
  trivial

theorem failsByFault_mapError (index : Nat) (x : Except RuleFault α) :
    FailsByFault (x.mapError (.rule index)) := by
  cases x with
  | ok a => exact failsByFault_ok a
  | error fault => exact failsByFault_rule index fault

theorem FailsByFault.bind {x : Except Error α} {f : α → Except Error β} (hx : FailsByFault x)
    (hf : ∀ a, FailsByFault (f a)) : FailsByFault (x >>= f) := by
  cases x with
  | ok a => exact hf a
  | error e =>
    rintro e' ⟨⟩
    exact hx e rfl

end

theorem failsByFault_flavour [Regex.Engine] (flavour : Flavour) (source : String) :
    FailsByFault (flavour.compile source) := by
  cases flavour with
  | lua => exact failsByFault_ok _
  | regex =>
    intro e h
    rw [Flavour.compile, Error.ofCompile] at h
    cases hregex : Regex.compile source with
    | ok r =>
      rw [hregex] at h
      cases h
    | error refusal =>
      rw [hregex] at h
      cases h
      trivial

/-- A rule that does not compile is at fault. -/
theorem RuleDescription.failsByFault_compile [Regex.Engine] {δ : Type} (index : Nat)
    (r : RuleDescription δ) :
    FailsByFault (r.compile index) := by
  have hpatterns : FailsByFault (r.patterns index) := by
    refine (failsByFault_mapError index r.sources).bind fun ⟨flavour, sources⟩ => ?_
    have compile := failsByFault_flavour flavour
    match sources with
    | [] => exact failsByFault_rule index _
    | [enter] => exact (compile enter).bind fun _ => failsByFault_ok _
    | [enter, close] =>
      exact (compile enter).bind fun _ => (compile close).bind fun _ => failsByFault_ok _
    | [enter, close, _] =>
      exact (compile enter).bind fun _ => (compile close).bind fun _ => failsByFault_ok _
    | _ :: _ :: _ :: _ :: _ => exact failsByFault_rule index _
  refine hpatterns.bind fun ⟨enter, close, escape⟩ => ?_
  refine (failsByFault_mapError index r.labels).bind fun ⟨label, moreLabels⟩ => ?_
  dsimp only
  split
  · exact failsByFault_rule index _
  · exact failsByFault_ok _

/-! ## 2.  How building ends -/

section

variable {σ : Type}

/-- What is known of a resolver that is only asked for the names in `names`: its states keep the
invariant `inv`, names keep the numbers that they have in a state, and where it fails, or does not
know a name, `fail` holds of the error that is reported. -/
structure Resolver.Serves (resolve : Resolver σ) (names : List String) (inv : σ → Prop)
    (numbers : σ → String → Option Nat) (fail : Error → σ → Prop) : Prop where
  /-- What holds when a name has been looked up. -/
  answers : ∀ name ∈ names, ∀ s, inv s → (resolve name).Meets s
    (fun answer t => match answer with
      | some id => inv t ∧ KeepsNumbers (numbers s) (numbers t) ∧ numbers t name = some id
      | .none => ∀ index, fail (.rule index (.unresolved name)) t)
    fail
  /-- Where an error is reported does not matter. -/
  atRule : ∀ index e t, fail e t → fail (e.atRule index) t

variable {resolve : Resolver σ} {names : List String} {inv : σ → Prop}
  {numbers : σ → String → Option Nat} {fail : Error → σ → Prop}

/-- How building ends that has failed: the resolver has failed, or what was built is at fault and
does not compile, whatever numbers the names have. -/
def FailsIn (inv : σ → Prop) (fail : Error → σ → Prop) (compiles : (String → Option Nat) → Prop)
    (e : Error) (t : σ) : Prop :=
  fail e t ∨ inv t ∧ e.IsFault ∧ ∀ numbers, ¬ compiles numbers

/-- What has a part that does not compile does not compile. -/
theorem Building.Meets.bind_part {α β : Type} {x : Building σ α} {f : α → Building σ β} {s : σ}
    {middle : α → σ → Prop} {post : β → σ → Prop}
    {compiles part : (String → Option Nat) → Prop}
    (hx : x.Meets s middle (FailsIn inv fail part))
    (hpart : ∀ numbers, compiles numbers → part numbers)
    (hf : ∀ a t, middle a t → (f a).Meets t post (FailsIn inv fail compiles)) :
    (x >>= f).Meets s post (FailsIn inv fail compiles) := by
  refine (hx.imp (fun _ _ hmiddle => hmiddle) fun e t hfail => ?_).bind hf
  exact hfail.imp_right fun ⟨ht, hfault, hnot⟩ =>
    ⟨ht, hfault, fun numbers hcompiles => hnot numbers (hpart numbers hcompiles)⟩

/-- The rules of a grammar are counted when all of them have been built. -/
theorem meets_make {name : Option String} {label : String} {rules : List (Rule Grammar)}
    {symbols : List (String × String)} {post : Grammar → σ → Prop} {s : σ}
    (hok : rules.length ≤ maxRules → post ⟨name, label, rules, .ofList symbols⟩ s)
    (herror : maxRules < rules.length → fail (.rule maxRules (.ruleCount rules.length)) s) :
    (Building.lift (Grammar.make name label rules symbols)).Meets s post fail := by
  rw [Grammar.make]
  split
  · next hcount => exact herror hcount
  · next hcount => exact hok (Nat.le_of_not_lt hcount)

section Engine

variable [Regex.Engine]

mutual

/-- **How the building of a description ends.** -/
theorem meets_buildGrammar (h : resolve.Serves names inv numbers fail) (label : String)
    (d : Description) (hnames : d.references ⊆ names) (s : σ) (hs : inv s) :
    (buildGrammar resolve label d).Meets s
      (fun g t => inv t ∧ KeepsNumbers (numbers s) (numbers t) ∧ d.CompilesTo (numbers t) label g)
      (FailsIn inv fail fun numbers => ∃ g, d.CompilesTo numbers label g) :=
  match d with
  | ⟨name, extensions, defaultLabel, rules, symbols⟩ => by
    rw [buildGrammar]
    refine (meets_buildRules h (defaultLabel.getD label) 0 rules hnames s hs).bind_part ?_ ?_
    · rintro numbers ⟨g, hg⟩
      cases hg with
      | intro hrules _ => exact ⟨_, hrules⟩
    · rintro built t ⟨ht, hkept, hbuilt⟩
      refine meets_make (fun hcount => ⟨ht, hkept, .intro hbuilt hcount⟩) fun hcount => ?_
      refine Or.inr ⟨ht, trivial, ?_⟩
      rintro numbers ⟨g, hg⟩
      cases hg with
      | intro hrules hle =>
        rw [hrules.length_eq] at hle
        rw [hbuilt.length_eq] at hcount
        exact absurd hle (Nat.not_le_of_lt hcount)

theorem meets_buildRules (h : resolve.Serves names inv numbers fail) (label : String) (index : Nat)
    (rules : List (RuleDescription Description))
    (hnames : RuleDescription.allReferences rules ⊆ names) (s : σ) (hs : inv s) :
    (buildRules resolve label index rules).Meets s
      (fun built t => inv t ∧ KeepsNumbers (numbers s) (numbers t) ∧
        RuleDescription.CompileTo (numbers t) label index rules built)
      (FailsIn inv fail fun numbers =>
        ∃ built, RuleDescription.CompileTo numbers label index rules built) :=
  match rules with
  | [] => Building.meets_pure ⟨hs, .refl _, .nil⟩
  | r :: rest => by
    rw [RuleDescription.allReferences, List.append_subset] at hnames
    rw [buildRules]
    refine (meets_buildRule h label index r hnames.1 s hs).bind_part ?_ ?_
    · rintro numbers ⟨built, hbuilt⟩
      cases hbuilt with
      | cons houtline hnested _ => exact ⟨_, _, houtline, hnested⟩
    · rintro _ t ⟨ht, hkept, outline, nested, houtline, hnested, rfl⟩
      refine (meets_buildRules h label (index + 1) rest hnames.2 t ht).bind_part ?_ ?_
      · rintro numbers ⟨built, hbuilt⟩
        cases hbuilt with
        | cons _ _ hrest => exact ⟨_, hrest⟩
      · rintro built u ⟨hu, hkept', hbuilt⟩
        exact Building.meets_pure
          ⟨hu, hkept.trans hkept', .cons houtline (hnested.mono hkept') hbuilt⟩

theorem meets_buildRule (h : resolve.Serves names inv numbers fail) (label : String) (index : Nat)
    (r : RuleDescription Description) (hnames : r.references ⊆ names) (s : σ) (hs : inv s) :
    (buildRule resolve label index r).Meets s
      (fun built t => inv t ∧ KeepsNumbers (numbers s) (numbers t) ∧
        ∃ outline nested, r.compile index = .ok outline ∧
          NestedDescription.CompilesTo? (numbers t) label r.nested nested ∧
          { outline with nested } = built)
      (FailsIn inv fail fun numbers => ∃ outline nested, r.compile index = .ok outline ∧
        NestedDescription.CompilesTo? numbers label r.nested nested) :=
  match r with
  | ⟨pattern, regex, labels, nested⟩ => by
    rw [buildRule]
    have hcompile : (Building.lift ((⟨pattern, regex, labels, none⟩ :
        RuleDescription Unit).compile index)).Meets s
        (fun outline t => t = s ∧
          RuleDescription.compile index ⟨pattern, regex, labels, nested⟩ = .ok outline)
        (FailsIn inv fail fun numbers => ∃ outline built,
          RuleDescription.compile index ⟨pattern, regex, labels, nested⟩ = .ok outline ∧
            NestedDescription.CompilesTo? numbers label nested built) := by
      refine Building.meets_lift (fun outline houtline => ⟨rfl, houtline⟩) fun e he => ?_
      refine Or.inr ⟨hs, RuleDescription.failsByFault_compile index _ e he, ?_⟩
      rintro numbers ⟨outline, _, houtline, -⟩
      cases he.symm.trans houtline
    refine hcompile.bind ?_
    rintro outline t ⟨rfl, houtline⟩
    refine (meets_buildNested? h label index nested hnames t hs).bind_part ?_ ?_
    · rintro numbers ⟨_, built, -, hbuilt⟩
      exact ⟨built, hbuilt⟩
    · rintro built u ⟨hu, hkept, hbuilt⟩
      exact Building.meets_pure ⟨hu, hkept, outline, built, houtline, hbuilt, rfl⟩

theorem meets_buildNested? (h : resolve.Serves names inv numbers fail) (label : String)
    (index : Nat) (nested : Option (NestedDescription Description))
    (hnames : NestedDescription.references? nested ⊆ names) (s : σ) (hs : inv s) :
    (buildNested? resolve label index nested).Meets s
      (fun built t => inv t ∧ KeepsNumbers (numbers s) (numbers t) ∧
        NestedDescription.CompilesTo? (numbers t) label nested built)
      (FailsIn inv fail fun numbers =>
        ∃ built, NestedDescription.CompilesTo? numbers label nested built) :=
  match nested with
  | none => Building.meets_pure ⟨hs, .refl _, .none⟩
  | some nested => by
    rw [buildNested?]
    refine (meets_buildNested h label index nested hnames s hs).bind_part ?_ ?_
    · rintro numbers ⟨built, hbuilt⟩
      exact ⟨built, hbuilt⟩
    · rintro built t hpost
      exact Building.meets_pure hpost

theorem meets_buildNested (h : resolve.Serves names inv numbers fail) (label : String)
    (index : Nat) (nested : NestedDescription Description)
    (hnames : nested.references ⊆ names) (s : σ) (hs : inv s) :
    (buildNested resolve label index nested).Meets s
      (fun built t => inv t ∧ KeepsNumbers (numbers s) (numbers t) ∧
        NestedDescription.CompilesTo? (numbers t) label (some nested) (some built))
      (FailsIn inv fail fun numbers =>
        ∃ built, NestedDescription.CompilesTo? numbers label (some nested) built) :=
  match nested with
  | .named name => by
    rw [buildNested]
    refine ((h.answers name (hnames (List.mem_singleton_self name)) s hs).imp
      (fun _ _ hpost => hpost) fun e t hfail => Or.inl hfail).bind ?_
    rintro (_ | id) t hanswer
    · exact Building.meets_lift (fun _ hok => by cases hok)
        fun e he => Or.inl (by cases he; exact hanswer index)
    · obtain ⟨ht, hkept, hid⟩ := hanswer
      exact Building.meets_pure ⟨ht, hkept, .named hid⟩
  | .inline d => by
    rw [buildNested]
    refine Building.Meets.bind (Building.Meets.mapError
      ((meets_buildGrammar h label d hnames s hs).imp (fun _ _ hpost => hpost)
        fun e t hfail => ?_)) ?_
    · rcases hfail with hfail | ⟨ht, hfault, hnot⟩
      · exact Or.inl (h.atRule index e t hfail)
      · refine Or.inr ⟨ht, hfault.atRule index, ?_⟩
        rintro numbers ⟨built, hbuilt⟩
        cases hbuilt with
        | inline hd => exact hnot numbers ⟨_, hd⟩
    · rintro g t ⟨ht, hkept, hg⟩
      exact Building.meets_pure ⟨ht, hkept, .inline hg⟩

end

end Engine

/-! ## 3.  What building depends on -/

/-- Two computations end alike, and the invariant holds where they succeed. -/
def Building.Agree {α : Type} (inv : σ → Prop) (x y : Building σ α) (s : σ) : Prop :=
  x.runOn s = y.runOn s ∧ ∀ a t, x.runOn s = (.ok a, t) → inv t

namespace Building

variable {α β : Type} {x y : Building σ α} {f f' : α → Building σ β} {s : σ}

theorem Agree.refl (hx : ∀ a t, x.runOn s = (.ok a, t) → inv t) : Agree inv x x s := ⟨rfl, hx⟩

theorem Agree.bind (h : Agree inv x y s) (hf : ∀ a t, inv t → Agree inv (f a) (f' a) t) :
    Agree inv (x >>= f) (y >>= f') s := by
  obtain ⟨heq, hinv⟩ := h
  match hx : x.runOn s with
  | (.ok a, t) =>
    rw [hx] at heq
    rw [Agree, runOn_bind_of_ok hx, runOn_bind_of_ok heq.symm]
    exact hf a t (hinv a t hx)
  | (.error e, t) =>
    rw [hx] at heq
    rw [Agree, runOn_bind_of_error hx, runOn_bind_of_error heq.symm]
    refine ⟨rfl, ?_⟩
    rintro b u ⟨⟩

theorem agree_lift {z : Except Error α} (hs : inv s) : Agree inv (lift z) (lift z) s :=
  .refl fun _ _ h => by
    cases h
    exact hs

theorem agree_pure {a : α} (hs : inv s) : Agree inv (pure a) (pure a) s :=
  .refl fun _ _ h => by
    cases h
    exact hs

theorem Agree.mapError {g : Error → Error} (h : Agree inv x y s) :
    Agree inv (Building.mapError g x) (Building.mapError g y) s := by
  obtain ⟨heq, hinv⟩ := h
  rw [Agree, runOn_mapError, runOn_mapError, heq]
  refine ⟨rfl, fun a t hok => ?_⟩
  match hy : y.runOn s with
  | (.ok b, u) =>
    rw [hy] at hok
    cases hok
    exact hinv _ _ (heq.trans hy)
  | (.error e, u) =>
    rw [hy] at hok
    cases hok

end Building

variable [Regex.Engine] {resolve' : Resolver σ}

mutual

/-- **Resolvers that agree build the same.** -/
theorem agree_buildGrammar
    (h : ∀ name ∈ names, ∀ s, inv s → Building.Agree inv (resolve name) (resolve' name) s)
    (label : String) (d : Description) (hnames : d.references ⊆ names) (s : σ) (hs : inv s) :
    Building.Agree inv (buildGrammar resolve label d) (buildGrammar resolve' label d) s :=
  match d with
  | ⟨name, extensions, defaultLabel, rules, symbols⟩ => by
    rw [buildGrammar, buildGrammar]
    exact (agree_buildRules h _ 0 rules hnames s hs).bind fun _ t ht => Building.agree_lift ht

theorem agree_buildRules
    (h : ∀ name ∈ names, ∀ s, inv s → Building.Agree inv (resolve name) (resolve' name) s)
    (label : String) (index : Nat) (rules : List (RuleDescription Description))
    (hnames : RuleDescription.allReferences rules ⊆ names) (s : σ) (hs : inv s) :
    Building.Agree inv (buildRules resolve label index rules)
      (buildRules resolve' label index rules) s :=
  match rules with
  | [] => Building.agree_pure hs
  | r :: rest => by
    rw [RuleDescription.allReferences, List.append_subset] at hnames
    rw [buildRules, buildRules]
    refine (agree_buildRule h label index r hnames.1 s hs).bind fun rule t ht => ?_
    exact (agree_buildRules h label (index + 1) rest hnames.2 t ht).bind
      fun _ u hu => Building.agree_pure hu

theorem agree_buildRule
    (h : ∀ name ∈ names, ∀ s, inv s → Building.Agree inv (resolve name) (resolve' name) s)
    (label : String) (index : Nat) (r : RuleDescription Description)
    (hnames : r.references ⊆ names) (s : σ) (hs : inv s) :
    Building.Agree inv (buildRule resolve label index r) (buildRule resolve' label index r) s :=
  match r with
  | ⟨pattern, regex, labels, nested⟩ => by
    rw [buildRule, buildRule]
    refine (Building.agree_lift hs).bind fun rule t ht => ?_
    exact (agree_buildNested? h label index nested hnames t ht).bind
      fun _ u hu => Building.agree_pure hu

theorem agree_buildNested?
    (h : ∀ name ∈ names, ∀ s, inv s → Building.Agree inv (resolve name) (resolve' name) s)
    (label : String) (index : Nat) (nested : Option (NestedDescription Description))
    (hnames : NestedDescription.references? nested ⊆ names) (s : σ) (hs : inv s) :
    Building.Agree inv (buildNested? resolve label index nested)
      (buildNested? resolve' label index nested) s :=
  match nested with
  | none => Building.agree_pure hs
  | some nested => by
    rw [buildNested?, buildNested?]
    exact (agree_buildNested h label index nested hnames s hs).bind
      fun _ t ht => Building.agree_pure ht

theorem agree_buildNested
    (h : ∀ name ∈ names, ∀ s, inv s → Building.Agree inv (resolve name) (resolve' name) s)
    (label : String) (index : Nat) (nested : NestedDescription Description)
    (hnames : nested.references ⊆ names) (s : σ) (hs : inv s) :
    Building.Agree inv (buildNested resolve label index nested)
      (buildNested resolve' label index nested) s :=
  match nested with
  | .named name => by
    rw [buildNested, buildNested]
    refine (h name (hnames (List.mem_singleton_self name)) s hs).bind ?_
    rintro (_ | id) t ht
    · exact Building.agree_lift ht
    · exact Building.agree_pure ht
  | .inline d => by
    rw [buildNested, buildNested]
    exact (agree_buildGrammar h label d hnames s hs).mapError.bind
      fun _ t ht => Building.agree_pure ht

end

end

end Linewise
