import Linewise.Proofs.Grammar.WellFormed
import Linewise.Regex.Bundled

/-!
# The first fault of a description

Building stops at the first check that fails. Which check that is can be said without the building:
a description is a list of *checkpoints* in the order in which it is written, each of which stands
somewhere and asks one thing.

## 1.  Checks

A rule is checked in six ways that need the rule alone (`RuleCheck`), in this order: the flavour of
its patterns, how many there are, whether the one that enters and the one that closes compile, that
it has labels, and that it has not too many of them. A name has to be known, and a grammar must not
have too many rules. A check that fails says why, which is a fault of the description, or a regular
expression that the engine refuses, whichever engine it is (`Failure`).

## 2.  Document order

`Description.checkpoints` lists the checks of a description. The rules come in order, each with its
nested grammar right behind its own checks, so that an inline grammar comes as a whole before the
next rule around it. How many rules there are is asked behind the last one. A checkpoint stands in a
rule of the outermost grammar, in a rule of the inline grammar of that rule, and so on; where it
stands is where it is about (`Checkpoint.StandsIn`).

## 3.  Building goes through the checkpoints

The error of a failure names the outermost rule, and in its wording the rules inside of it, from the
outside in (`Failure.errorAt`). `buildGrammar_firstFault` says of every resolver that does not fail
itself, in whatever states, that building fails exactly with the error of the first checkpoint that
fails.
-/

namespace Linewise

/-! ## 1.  Checks -/

/-- Why a check fails. -/
inductive Failure where
  /-- The description is at fault. -/
  | structural (fault : RuleFault)
  /-- A regular expression does not compile. -/
  | regex (pattern : String) (refusal : Regex.Refusal)
  deriving DecidableEq, Repr

/-- What is asked of a rule, its nested grammar apart. -/
inductive RuleCheck where
  /-- Its patterns have one flavour. -/
  | flavour
  /-- There are one to three of them. -/
  | count
  /-- The one that enters compiles. -/
  | enter
  /-- The one that closes compiles. -/
  | close
  /-- It has a label. -/
  | labels
  /-- It has not more labels than its patterns have boundaries. -/
  | labelCount
  deriving DecidableEq, Repr

/-- All that is asked of a rule, in order. -/
def RuleCheck.all : List RuleCheck := [.flavour, .count, .enter, .close, .labels, .labelCount]

section Engine

variable [Regex.Engine]

/-- Why a text does not make a pattern, if it does not. Lua-style, every text does. -/
def Flavour.failure? : Flavour → String → Option Failure
  | .lua, _ => none
  | .regex, text =>
    match Regex.compile text with
    | .ok _ => none
    | .error refusal => some (.regex text refusal)

namespace RuleDescription

variable {δ : Type}

/-- The description of a rule without its nested grammar. -/
def outline (r : RuleDescription δ) : RuleDescription Unit := ⟨r.pattern, r.regex, r.label, none⟩

/-- Why a check of a rule fails, if it does. -/
def failure? (r : RuleDescription δ) : RuleCheck → Option Failure
  | .flavour =>
    match r.pattern, r.regex with
    | some _, some _ => some (.structural .bothFlavours)
    | none, none => some (.structural .noPattern)
    | _, _ => none
  | .count =>
    if r.texts.length < 1 ∨ 3 < r.texts.length then
      some (.structural (.patternCount r.texts.length))
    else none
  | .enter => r.texts[0]?.bind r.flavour.failure?
  | .close => r.texts[1]?.bind r.flavour.failure?
  | .labels =>
    match r.label with
    | none => some (.structural .noLabel)
    | some (.many []) => some (.structural .emptyLabels)
    | some _ => none
  | .labelCount =>
    if 1 < r.labelTexts.length ∧ r.boundaryCount < r.labelTexts.length then
      some (.structural (.labelCount r.labelTexts.length r.boundaryCount))
    else none

end RuleDescription

end Engine

/-! ## 2.  Document order -/

/-- What is asked. -/
inductive Check where
  /-- One of the checks of a rule. -/
  | rule (r : RuleDescription Unit) (check : RuleCheck)
  /-- The name is known. -/
  | name (name : String)
  /-- A grammar has this number of rules, and that is not too many. -/
  | ruleCount (count : Nat)

/-- A check and the place where it stands. -/
structure Checkpoint where
  /-- The index of the rule in the outermost grammar. -/
  rule : Nat
  /-- The indices of the rules inside of it, each in the inline grammar of the one before. -/
  inner : List Nat
  /-- What is asked there. -/
  check : Check

/-- A checkpoint of an inline grammar, seen from the rule that holds it. -/
def Checkpoint.inside (index : Nat) (c : Checkpoint) : Checkpoint :=
  ⟨index, c.rule :: c.inner, c.check⟩

/-- The checkpoint for a check of a rule. -/
def RuleDescription.checkpoint (index : Nat) (r : RuleDescription Unit) (check : RuleCheck) :
    Checkpoint :=
  ⟨index, [], .rule r check⟩

mutual

/-- The checkpoints of a description, in order. -/
def Description.checkpoints : Description → List Checkpoint
  | ⟨_, _, _, rules, _⟩ =>
    RuleDescription.checkpointsFrom 0 rules ++ [⟨maxRules, [], .ruleCount rules.length⟩]

/-- The checkpoints of rules, of which the first has the given index. -/
def RuleDescription.checkpointsFrom (index : Nat) :
    List (RuleDescription Description) → List Checkpoint
  | [] => []
  | r :: rules => r.checkpoints index ++ RuleDescription.checkpointsFrom (index + 1) rules

/-- The checkpoints of the rule with the given index. -/
def RuleDescription.checkpoints (index : Nat) : RuleDescription Description → List Checkpoint
  | ⟨pattern, regex, labels, nested⟩ =>
    let outline : RuleDescription Unit := ⟨pattern, regex, labels, none⟩
    RuleCheck.all.map (outline.checkpoint index) ++ NestedDescription.checkpoints? index nested

/-- The checkpoints of the nested grammar of the rule with the given index, if it has one. -/
def NestedDescription.checkpoints? (index : Nat) :
    Option (NestedDescription Description) → List Checkpoint
  | none => []
  | some nested => nested.checkpoints index

/-- The checkpoints of the nested grammar of the rule with the given index. -/
def NestedDescription.checkpoints (index : Nat) :
    NestedDescription Description → List Checkpoint
  | .named name => [⟨index, [], .name name⟩]
  | .inline d => d.checkpoints.map (Checkpoint.inside index)

end

/-! ### Where a checkpoint stands -/

/-- The grammar that is described in place in the rules with the given indices, each in the grammar
of the one before. -/
def Description.grammarAt? : List Nat → Description → Option Description
  | [], d => some d
  | index :: places, d =>
    match d.rules[index]?.bind RuleDescription.nested with
    | some (.inline d') => d'.grammarAt? places
    | _ => none

/-- A checkpoint is about the place where it stands: its last index is that of a rule in the grammar
that the others lead to, or one more than any index if that grammar has too many rules. -/
def Checkpoint.StandsIn (d : Description) (c : Checkpoint) : Prop :=
  ∃ outer index d', c.rule :: c.inner = outer ++ [index] ∧ d.grammarAt? outer = some d' ∧
    match c.check with
    | .rule r _ => ∃ r', d'.rules[index]? = some r' ∧ r'.outline = r
    | .name name => ∃ r', d'.rules[index]? = some r' ∧ r'.nested = some (.named name)
    | .ruleCount count => index = maxRules ∧ d'.rules.length = count

/-- A checkpoint stands in one of these rules, of which the first has the given index. -/
def Checkpoint.StandsFrom (index : Nat) (rules : List (RuleDescription Description))
    (c : Checkpoint) : Prop :=
  ∀ d : Description, (∀ i, d.rules[index + i]? = rules[i]?) → c.StandsIn d

/-- What stands in an inline grammar stands in the grammar around it. -/
theorem Checkpoint.StandsIn.inside {d d' : Description} {index : Nat} {c : Checkpoint}
    (h : c.StandsIn d') (hd : d.rules[index]?.bind RuleDescription.nested = some (.inline d')) :
    (c.inside index).StandsIn d := by
  obtain ⟨outer, last, d'', hplace, hgrammar, hcheck⟩ := h
  refine ⟨index :: outer, last, d'', congrArg (index :: ·) hplace, ?_, hcheck⟩
  rw [Description.grammarAt?, hd]
  exact hgrammar

mutual

/-- **Every checkpoint is about the place where it stands.** -/
theorem Description.standsIn_of_mem_checkpoints (d : Description) :
    ∀ c ∈ d.checkpoints, c.StandsIn d :=
  match d with
  | ⟨name, extensions, defaultLabel, rules, symbols⟩ => by
    intro c hc
    rw [Description.checkpoints, List.mem_append, List.mem_singleton] at hc
    rcases hc with hrules | rfl
    · exact RuleDescription.standsFrom_of_mem_checkpointsFrom 0 rules c hrules _
        fun i => by rw [Nat.zero_add]
    · exact ⟨[], maxRules, _, rfl, rfl, rfl, rfl⟩

theorem RuleDescription.standsFrom_of_mem_checkpointsFrom (index : Nat)
    (rules : List (RuleDescription Description)) :
    ∀ c ∈ RuleDescription.checkpointsFrom index rules, c.StandsFrom index rules :=
  match rules with
  | [] => fun c hc => by
    rw [RuleDescription.checkpointsFrom] at hc
    cases hc
  | r :: rest => by
    intro c hc d hd
    rw [RuleDescription.checkpointsFrom, List.mem_append] at hc
    rcases hc with hfirst | hrest
    · exact RuleDescription.standsIn_of_mem_checkpoints index r c hfirst d (hd 0)
    · refine
        RuleDescription.standsFrom_of_mem_checkpointsFrom (index + 1) rest c hrest d fun i => ?_
      rw [Nat.add_assoc, Nat.add_comm 1 i, hd (i + 1), List.getElem?_cons_succ]

theorem RuleDescription.standsIn_of_mem_checkpoints (index : Nat)
    (r : RuleDescription Description) :
    ∀ c ∈ r.checkpoints index, ∀ d : Description, d.rules[index]? = some r → c.StandsIn d :=
  match r with
  | ⟨pattern, regex, labels, nested⟩ => by
    intro c hc d hd
    rw [RuleDescription.checkpoints, List.mem_append] at hc
    rcases hc with hown | hnested
    · obtain ⟨check, -, rfl⟩ := List.mem_map.mp hown
      exact ⟨[], index, d, rfl, rfl, _, hd, rfl⟩
    · exact NestedDescription.standsIn_of_mem_checkpoints? index nested c hnested d _ hd rfl

theorem NestedDescription.standsIn_of_mem_checkpoints? (index : Nat)
    (nested : Option (NestedDescription Description)) :
    ∀ c ∈ NestedDescription.checkpoints? index nested, ∀ (d : Description)
      (r : RuleDescription Description), d.rules[index]? = some r → r.nested = nested →
      c.StandsIn d :=
  match nested with
  | none => fun c hc => by
    rw [NestedDescription.checkpoints?] at hc
    cases hc
  | some nested => by
    intro c hc d r hd hr
    rw [NestedDescription.checkpoints?] at hc
    exact NestedDescription.standsIn_of_mem_checkpoints index nested c hc d r hd hr

theorem NestedDescription.standsIn_of_mem_checkpoints (index : Nat)
    (nested : NestedDescription Description) :
    ∀ c ∈ nested.checkpoints index, ∀ (d : Description) (r : RuleDescription Description),
      d.rules[index]? = some r → r.nested = some nested → c.StandsIn d :=
  match nested with
  | .named name => by
    intro c hc d r hd hr
    rw [NestedDescription.checkpoints, List.mem_singleton] at hc
    subst hc
    exact ⟨[], index, d, rfl, rfl, r, hd, hr⟩
  | .inline d' => by
    intro c hc d r hd hr
    rw [NestedDescription.checkpoints] at hc
    obtain ⟨c', hc', rfl⟩ := List.mem_map.mp hc
    refine (Description.standsIn_of_mem_checkpoints d' c' hc').inside ?_
    rw [hd, Option.bind_some, hr]

end

/-! ## 3.  Building goes through the checkpoints -/

/-- The error of a failure at a place. A fault of the description is reported at the outermost rule,
and says in its wording where it is inside of that rule. -/
def Failure.errorAt (rule : Nat) (inner : List Nat) : Failure → Error
  | .structural fault => .rule rule (inner.foldr .inline fault)
  | .regex pattern refusal => .ofRefusal pattern refusal

/-- How a rule inside of another one is mentioned. -/
def mention (index : Nat) : String := "inline grammar rule " ++ toString index ++ ": "

theorem RuleFault.reason_inline (index : Nat) (fault : RuleFault) :
    (RuleFault.inline index fault).reason = mention index ++ fault.reason := rfl

/-- The wording of a fault is preceded by all rules that it is inside of, from the outside in. -/
theorem RuleFault.reason_foldr_inline (inner : List Nat) (fault : RuleFault) :
    (inner.foldr .inline fault).reason = String.join (inner.map mention) ++ fault.reason := by
  induction inner with
  | nil => simp
  | cons index inner ih =>
    rw [List.foldr_cons, reason_inline, ih, List.map_cons, String.join_cons, String.append_assoc]

/-- An error of an inline grammar is reported at the rule that holds it. -/
theorem Failure.atRule_errorAt (failure : Failure) (index rule : Nat) (inner : List Nat) :
    (failure.errorAt rule inner).atRule index = failure.errorAt index (rule :: inner) := by
  cases failure with
  | structural => rfl
  | regex => rfl

section

variable [Regex.Engine] {σ : Type} (resolve : Resolver σ)

/-- Why a checkpoint fails in a state, if it does. -/
def Checkpoint.failure? (c : Checkpoint) (s : σ) : Option Failure :=
  match c.check with
  | .rule r check => r.failure? check
  | .name name =>
    match ((resolve name).runOn s).1 with
    | .ok none => some (.structural (.unresolved name))
    | _ => none
  | .ruleCount count =>
    if maxRules < count then some (.structural (.ruleCount count)) else none

/-- The state behind a checkpoint. Only looking up a name changes it. -/
def Checkpoint.stateAfter (c : Checkpoint) (s : σ) : σ :=
  match c.check with
  | .name name => ((resolve name).runOn s).2
  | _ => s

/-- No checkpoint fails on the way from one state to another. -/
inductive NoneFails : σ → List Checkpoint → σ → Prop where
  /-- There is none. -/
  | nil {s : σ} : NoneFails s [] s
  /-- The first one does not fail, and none behind it does. -/
  | cons {s t : σ} {c : Checkpoint} {rest : List Checkpoint} (h : c.failure? resolve s = none)
      (hrest : NoneFails (c.stateAfter resolve s) rest t) : NoneFails s (c :: rest) t

/-- The first checkpoint that fails, and why. -/
inductive FirstFails : σ → List Checkpoint → Checkpoint → Failure → Prop where
  /-- It is the first one of all. -/
  | here {s : σ} {c : Checkpoint} {failure : Failure} {rest : List Checkpoint}
      (h : c.failure? resolve s = some failure) : FirstFails s (c :: rest) c failure
  /-- The first one of all does not fail. -/
  | later {s : σ} {c c' : Checkpoint} {failure : Failure} {rest : List Checkpoint}
      (h : c.failure? resolve s = none)
      (hrest : FirstFails (c.stateAfter resolve s) rest c' failure) :
      FirstFails s (c :: rest) c' failure

variable {resolve} {s t : σ} {c c' : Checkpoint} {failure failure' : Failure}
  {checks checks' : List Checkpoint}

theorem noneFails_singleton (h : c.failure? resolve s = none) :
    NoneFails resolve s [c] (c.stateAfter resolve s) := .cons h .nil

theorem NoneFails.append {u : σ} (h : NoneFails resolve s checks t)
    (h' : NoneFails resolve t checks' u) : NoneFails resolve s (checks ++ checks') u := by
  induction h with
  | nil => exact h'
  | cons hc _ ih => exact .cons hc (ih h')

theorem NoneFails.firstFails_append (h : NoneFails resolve s checks t)
    (h' : FirstFails resolve t checks' c failure) :
    FirstFails resolve s (checks ++ checks') c failure := by
  induction h with
  | nil => exact h'
  | cons hc _ ih => exact .later hc (ih h')

theorem FirstFails.append (h : FirstFails resolve s checks c failure)
    (checks' : List Checkpoint) : FirstFails resolve s (checks ++ checks') c failure := by
  induction h with
  | here hc => exact .here hc
  | later hc _ ih => exact .later hc ih

theorem FirstFails.mem (h : FirstFails resolve s checks c failure) : c ∈ checks := by
  induction h with
  | here => exact List.mem_cons_self
  | later _ _ ih => exact List.mem_cons_of_mem _ ih

/-- Where one fails, it is not so that none does. -/
theorem FirstFails.not_noneFails (h : FirstFails resolve s checks c failure) :
    ¬ NoneFails resolve s checks t := by
  induction h with
  | here hc =>
    rintro (_ | ⟨hnone, -⟩)
    cases hc.symm.trans hnone
  | later _ _ ih =>
    rintro (_ | ⟨-, hrest⟩)
    exact ih hrest

/-- There is one first checkpoint that fails, and one reason. -/
theorem FirstFails.unique (h : FirstFails resolve s checks c failure)
    (h' : FirstFails resolve s checks c' failure') : c = c' ∧ failure = failure' := by
  induction h with
  | here hc =>
    cases h' with
    | here hc' => exact ⟨rfl, Option.some.inj (hc.symm.trans hc')⟩
    | later hnone _ => cases hc.symm.trans hnone
  | later hnone _ ih =>
    cases h' with
    | here hc' => cases hc'.symm.trans hnone
    | later _ hrest => exact ih hrest

/-! ### Inside of a rule -/

theorem NoneFails.inside (h : NoneFails resolve s checks t) (index : Nat) :
    NoneFails resolve s (checks.map (Checkpoint.inside index)) t := by
  induction h with
  | nil => exact .nil
  | cons hc _ ih => exact .cons hc ih

theorem FirstFails.inside (h : FirstFails resolve s checks c failure) (index : Nat) :
    FirstFails resolve s (checks.map (Checkpoint.inside index)) (c.inside index) failure := by
  induction h with
  | here hc => exact .here hc
  | later hc _ ih => exact .later hc ih

/-! ### What goes through checkpoints -/

/-- A computation that begins in `s` goes through the given checkpoints: it succeeds if none fails,
with a value for which `post` holds, and fails with the error of the first one that does. -/
def Building.GoesThrough {α : Type} (resolve : Resolver σ) (checks : List Checkpoint)
    (post : α → Prop) (x : Building σ α) (s : σ) : Prop :=
  x.Meets s (fun a t => post a ∧ NoneFails resolve s checks t)
    fun e _ => ∃ c failure, FirstFails resolve s checks c failure ∧
      failure.errorAt c.rule c.inner = e

namespace Building

variable {α β : Type} {x : Building σ α} {f : α → Building σ β} {post : α → Prop}
  {post' : β → Prop}

theorem goesThrough_pure {a : α} (h : post a) :
    (pure a : Building σ α).GoesThrough resolve [] post s :=
  meets_pure ⟨h, .nil⟩

/-- A checkpoint fails at once. -/
theorem goesThrough_error (h : c.failure? resolve s = some failure) :
    (lift (.error (failure.errorAt c.rule c.inner)) : Building σ α).GoesThrough resolve
      (c :: checks) post s :=
  meets_throw ⟨c, failure, .here h, rfl⟩

theorem GoesThrough.bind (hx : x.GoesThrough resolve checks post s) (checks' : List Checkpoint)
    (hf : ∀ a t, post a → (f a).GoesThrough resolve checks' post' t) :
    (x >>= f).GoesThrough resolve (checks ++ checks') post' s := by
  refine Meets.bind (Meets.imp hx (fun _ _ h => h) fun e t ⟨c, failure, hfirst, he⟩ =>
    ⟨c, failure, hfirst.append checks', he⟩) fun a t ⟨ha, hnone⟩ => ?_
  exact (hf a t ha).imp (fun b u ⟨hb, hnone'⟩ => ⟨hb, hnone.append hnone'⟩)
    fun e u ⟨c, failure, hfirst, he⟩ => ⟨c, failure, hnone.firstFails_append hfirst, he⟩

/-- What comes behind asks nothing. -/
theorem GoesThrough.bind_pure {g : α → β} (hx : x.GoesThrough resolve checks post s)
    (hg : ∀ a, post a → post' (g a)) :
    (x >>= fun a => pure (g a)).GoesThrough resolve checks post' s := by
  rw [← List.append_nil checks]
  exact hx.bind [] fun a t ha => goesThrough_pure (hg a ha)

/-- An inline grammar goes through its checkpoints, seen from the rule that holds it. -/
theorem GoesThrough.atRule (hx : x.GoesThrough resolve checks post s) (index : Nat) :
    (x.mapError (.atRule index)).GoesThrough resolve (checks.map (Checkpoint.inside index)) post
      s := by
  refine Meets.mapError (Meets.imp hx (fun a t ⟨ha, hnone⟩ => ⟨ha, hnone.inside index⟩) ?_)
  rintro e t ⟨c, failure, hfirst, rfl⟩
  exact ⟨c.inside index, failure, hfirst.inside index,
    (failure.atRule_errorAt index c.rule c.inner).symm⟩

section

variable {index : Nat} {r : RuleDescription Unit} {check : RuleCheck}

/-- A check of a rule that does not fail. -/
theorem GoesThrough.cons_rule (h : r.failure? check = none)
    (hx : x.GoesThrough resolve checks post s) :
    x.GoesThrough resolve (r.checkpoint index check :: checks) post s :=
  Meets.imp hx (fun _ _ ⟨ha, hnone⟩ => ⟨ha, .cons h hnone⟩)
    fun _ _ ⟨c, failure, hfirst, he⟩ => ⟨c, failure, .later h hfirst, he⟩

/-- A computation without a state that fails if and only if a check of a rule does. -/
theorem goesThrough_rule {y : Except Error α}
    (hok : ∀ a, y = .ok a → post a ∧ r.failure? check = none)
    (herror : ∀ e, y = .error e →
      ∃ failure, r.failure? check = some failure ∧ failure.errorAt index [] = e) :
    (lift y).GoesThrough resolve [r.checkpoint index check] post s := by
  refine meets_lift (fun a ha => ?_) fun e he => ?_
  · obtain ⟨hpost, hnone⟩ := hok a ha
    exact ⟨hpost, noneFails_singleton (c := r.checkpoint index check) hnone⟩
  · obtain ⟨failure, hfails, herrorAt⟩ := herror e he
    exact ⟨_, failure, .here (c := r.checkpoint index check) hfails, herrorAt⟩

end

end Building

/-! ### A rule -/

open Building

section

variable {index : Nat} {r : RuleDescription Unit}

theorem goesThrough_sources :
    (lift (r.sources.mapError (.rule index))).GoesThrough resolve [r.checkpoint index .flavour]
      (fun p => r.flavour = p.1 ∧ r.texts = p.2) s := by
  obtain ⟨pattern, regex, labels, nested⟩ := r
  refine goesThrough_rule (fun p hp => ?_) fun e he => ?_
  · cases pattern <;> cases regex <;> cases hp <;> exact ⟨⟨rfl, rfl⟩, rfl⟩
  · cases pattern <;> cases regex <;> cases he <;> exact ⟨_, rfl, rfl⟩

/-- A text is compiled where it is asked whether it compiles. -/
theorem goesThrough_compile {flavour : Flavour} {text : String} {check : RuleCheck}
    (h : r.failure? check = flavour.failure? text) :
    (lift (flavour.compile text)).GoesThrough resolve [r.checkpoint index check]
      (fun p => flavour.pattern? text = some p) s := by
  refine goesThrough_rule (fun p hp => ⟨Flavour.compile_eq_ok_iff.mp hp, ?_⟩) fun e he => ?_
  · rw [h]
    cases flavour with
    | lua => rfl
    | regex =>
      rw [Flavour.compile] at hp
      rw [Flavour.failure?]
      cases hregex : Regex.compile text with
      | ok re => rfl
      | error refusal =>
        rw [hregex] at hp
        cases hp
  · rw [h]
    cases flavour with
    | lua => cases he
    | regex =>
      rw [Flavour.compile] at he
      rw [Flavour.failure?]
      cases hregex : Regex.compile text with
      | ok re =>
        rw [hregex] at he
        cases he
      | error refusal =>
        rw [hregex] at he
        cases he
        exact ⟨_, rfl, rfl⟩

/-- The patterns go through the first four checks of the rule. -/
theorem goesThrough_patterns :
    (lift (r.patterns index)).GoesThrough resolve
      [r.checkpoint index .flavour, r.checkpoint index .count, r.checkpoint index .enter,
        r.checkpoint index .close]
      (fun p => r.pattern? 0 = some p.1 ∧ r.pattern? 1 = p.2.1) s := by
  rw [RuleDescription.patterns, lift_bind]
  refine goesThrough_sources.bind [_, _, _] ?_
  rintro ⟨flavour, texts⟩ t ⟨rfl, htexts⟩
  dsimp only at htexts ⊢
  have hslot : ∀ slot, r.pattern? slot = texts[slot]?.bind r.flavour.pattern? := fun slot => by
    rw [RuleDescription.pattern?, htexts]
  have hcount : 1 ≤ texts.length → texts.length ≤ 3 → r.failure? .count = none := by
    intro hpos hle
    rw [RuleDescription.failure?, htexts, if_neg (by omega)]
  have hfails : texts.length < 1 ∨ 3 < texts.length →
      (r.checkpoint index .count).failure? resolve t =
        some (.structural (.patternCount texts.length)) := by
    intro hbad
    show r.failure? .count = _
    rw [RuleDescription.failure?, htexts, if_pos hbad]
  have henter : r.failure? .enter = texts[0]?.bind r.flavour.failure? := by
    rw [RuleDescription.failure?, htexts]
  have hclose : r.failure? .close = texts[1]?.bind r.flavour.failure? := by
    rw [RuleDescription.failure?, htexts]
  rcases texts with _ | ⟨enter, _ | ⟨close, _ | ⟨last, _ | ⟨_, _⟩⟩⟩⟩
  · exact goesThrough_error (hfails (Or.inl Nat.zero_lt_one))
  · refine .cons_rule (hcount (by simp) (by simp)) ?_
    rw [lift_bind]
    refine (goesThrough_compile henter).bind [_] fun p t hp => ?_
    exact .cons_rule hclose (goesThrough_pure ⟨(hslot 0).trans hp, hslot 1⟩)
  · refine .cons_rule (hcount (by simp) (by simp)) ?_
    rw [lift_bind]
    refine (goesThrough_compile henter).bind [_] fun p t hp => ?_
    rw [lift_bind]
    exact (goesThrough_compile hclose).bind_pure
      fun q hq => ⟨(hslot 0).trans hp, (hslot 1).trans hq⟩
  · refine .cons_rule (hcount (by simp) (by simp)) ?_
    rw [lift_bind]
    refine (goesThrough_compile henter).bind [_] fun p t hp => ?_
    rw [lift_bind]
    exact (goesThrough_compile hclose).bind_pure
      fun q hq => ⟨(hslot 0).trans hp, (hslot 1).trans hq⟩
  · exact goesThrough_error (hfails (Or.inr (by simp)))

theorem goesThrough_labels :
    (lift (r.labels.mapError (.rule index))).GoesThrough resolve [r.checkpoint index .labels]
      (fun p => r.labelTexts = p.1 :: p.2) s := by
  refine goesThrough_rule (fun p hp => ?_) fun e he => ?_
  · rw [mapError_eq_ok_iff] at hp
    refine ⟨RuleDescription.labels_eq_ok_iff.mp hp, ?_⟩
    obtain ⟨pattern, regex, label, nested⟩ := r
    match label with
    | none => cases hp
    | some (.one _) => rfl
    | some (.many []) => cases hp
    | some (.many (_ :: _)) => rfl
  · obtain ⟨pattern, regex, label, nested⟩ := r
    match label with
    | none =>
      cases he
      exact ⟨_, rfl, rfl⟩
    | some (.one _) => cases he
    | some (.many []) =>
      cases he
      exact ⟨_, rfl, rfl⟩
    | some (.many (_ :: _)) => cases he

/-- **A rule goes through its own checks.** -/
theorem goesThrough_compileRule :
    (lift (r.compile index)).GoesThrough resolve (RuleCheck.all.map (r.checkpoint index))
      (fun _ => True) s := by
  rw [RuleDescription.compile, lift_bind]
  refine goesThrough_patterns.bind [_, _] ?_
  rintro ⟨enter, close, escape⟩ t ⟨henter, hclose⟩
  rw [lift_bind]
  refine goesThrough_labels.bind [_] ?_
  rintro ⟨label, more⟩ u hlabels
  have hlength : r.labelTexts.length = more.length + 1 := by rw [hlabels, List.length_cons]
  have hlimit := RuleDescription.boundaryCount_eq henter hclose
  dsimp only
  split
  · next hbad =>
    rw [Bool.and_eq_true, decide_eq_true_iff, decide_eq_true_iff] at hbad
    have hfails : (r.checkpoint index .labelCount).failure? resolve u = some (.structural
        (.labelCount (more.length + 1) (RuleDescription.segmentLimit enter close))) := by
      show r.failure? .labelCount = _
      rw [RuleDescription.failure?, hlength, hlimit, if_pos hbad]
    exact goesThrough_error hfails
  · next hgood =>
    rw [Bool.and_eq_true, decide_eq_true_iff, decide_eq_true_iff] at hgood
    refine .cons_rule ?_ (goesThrough_pure trivial)
    rw [RuleDescription.failure?, hlength, hlimit, if_neg hgood]

end

/-! ### All of a description -/

mutual

/-- **Building goes through the checkpoints**, if the resolver does not fail itself. -/
theorem goesThrough_buildGrammar
    (h : ∀ name s, ∃ answer, ((resolve name).runOn s).1 = .ok answer) (label : String)
    (d : Description) (s : σ) :
    (buildGrammar resolve label d).GoesThrough resolve d.checkpoints (fun _ => True) s :=
  match d with
  | ⟨name, extensions, defaultLabel, rules, symbols⟩ => by
    rw [buildGrammar, Description.checkpoints]
    refine (goesThrough_buildRules h _ 0 rules s).bind _ fun built t hbuilt => ?_
    have hfailure : (Checkpoint.mk maxRules [] (.ruleCount rules.length)).failure? resolve t =
        if maxRules < rules.length then some (.structural (.ruleCount rules.length)) else none :=
      rfl
    rw [Grammar.make, hbuilt]
    split
    · next hcount =>
      exact goesThrough_error (hfailure.trans (if_pos hcount))
    · next hcount =>
      exact meets_pure ⟨trivial, noneFails_singleton (hfailure.trans (if_neg hcount))⟩

theorem goesThrough_buildRules
    (h : ∀ name s, ∃ answer, ((resolve name).runOn s).1 = .ok answer) (label : String)
    (index : Nat) (rules : List (RuleDescription Description)) (s : σ) :
    (buildRules resolve label index rules).GoesThrough resolve
      (RuleDescription.checkpointsFrom index rules) (fun built => built.length = rules.length) s :=
  match rules with
  | [] => goesThrough_pure rfl
  | r :: rest => by
    rw [buildRules, RuleDescription.checkpointsFrom]
    refine (goesThrough_buildRule h label index r s).bind _ fun rule t _ => ?_
    exact (goesThrough_buildRules h label (index + 1) rest t).bind_pure
      fun built hbuilt => congrArg Nat.succ hbuilt

theorem goesThrough_buildRule
    (h : ∀ name s, ∃ answer, ((resolve name).runOn s).1 = .ok answer) (label : String)
    (index : Nat) (r : RuleDescription Description) (s : σ) :
    (buildRule resolve label index r).GoesThrough resolve (r.checkpoints index) (fun _ => True) s :=
  match r with
  | ⟨pattern, regex, labels, nested⟩ => by
    rw [buildRule, RuleDescription.checkpoints]
    refine goesThrough_compileRule.bind _ fun rule t _ => ?_
    exact (goesThrough_buildNested? h label index nested t).bind_pure fun _ _ => trivial

theorem goesThrough_buildNested?
    (h : ∀ name s, ∃ answer, ((resolve name).runOn s).1 = .ok answer) (label : String)
    (index : Nat) (nested : Option (NestedDescription Description)) (s : σ) :
    (buildNested? resolve label index nested).GoesThrough resolve
      (NestedDescription.checkpoints? index nested) (fun _ => True) s :=
  match nested with
  | none => goesThrough_pure trivial
  | some nested => by
    rw [buildNested?, NestedDescription.checkpoints?]
    exact (goesThrough_buildNested h label index nested s).bind_pure fun _ _ => trivial

theorem goesThrough_buildNested
    (h : ∀ name s, ∃ answer, ((resolve name).runOn s).1 = .ok answer) (label : String)
    (index : Nat) (nested : NestedDescription Description) (s : σ) :
    (buildNested resolve label index nested).GoesThrough resolve (nested.checkpoints index)
      (fun _ => True) s :=
  match nested with
  | .named name => by
    rw [buildNested, NestedDescription.checkpoints]
    obtain ⟨answer, hanswer⟩ := h name s
    rw [GoesThrough, Meets, runOn_bind_of_ok (runOn_eq_of_fst_eq hanswer)]
    have hfailure : (Checkpoint.mk index [] (.name name)).failure? resolve s =
        match answer with
        | none => some (.structural (.unresolved name))
        | some _ => none := by
      simp only [Checkpoint.failure?, hanswer]
      cases answer <;> rfl
    cases answer with
    | none => exact ⟨_, _, .here hfailure, rfl⟩
    | some id => exact ⟨trivial, noneFails_singleton hfailure⟩
  | .inline d => by
    rw [buildNested, NestedDescription.checkpoints]
    exact ((goesThrough_buildGrammar h label d s).atRule index).bind_pure fun _ _ => trivial

end

/-- **The first check that fails is the one that building reports.** With a resolver that does not
fail itself, a description fails to build exactly if one of its checkpoints fails, and the error is
that of the first one. It is about the place where it stands: a fault of the description is reported
at the outermost rule and mentions the rules inside of it in order, and a regular expression that
does not compile is reported alone. -/
theorem buildGrammar_firstFault
    (h : ∀ name s, ∃ answer, ((resolve name).runOn s).1 = .ok answer) (label : String)
    (d : Description) (s : σ) :
    (∀ e, ((buildGrammar resolve label d).runOn s).1 = .error e ↔
      ∃ c failure, FirstFails resolve s d.checkpoints c failure ∧
        failure.errorAt c.rule c.inner = e) ∧
      ∀ c failure, FirstFails resolve s d.checkpoints c failure → c.StandsIn d ∧
        match failure with
        | .structural fault => ∃ fault', failure.errorAt c.rule c.inner = .rule c.rule fault' ∧
            fault'.reason = String.join (c.inner.map mention) ++ fault.reason
        | .regex pattern refusal => failure.errorAt c.rule c.inner =
            @Error.compile refusal.message pattern refusal.offset := by
  have hgoes := goesThrough_buildGrammar h label d s
  refine ⟨fun e => ⟨fun he => ?_, ?_⟩, fun c failure hfirst => ⟨?_, ?_⟩⟩
  · exact hgoes.error (runOn_eq_of_fst_eq he)
  · rintro ⟨c, failure, hfirst, rfl⟩
    match hend : ((buildGrammar resolve label d).runOn s).1 with
    | .ok g =>
      obtain ⟨-, hnone⟩ := hgoes.ok (runOn_eq_of_fst_eq hend)
      exact absurd hnone hfirst.not_noneFails
    | .error e =>
      obtain ⟨c', failure', hfirst', rfl⟩ := hgoes.error (runOn_eq_of_fst_eq hend)
      obtain ⟨rfl, rfl⟩ := hfirst.unique hfirst'
      rfl
  · exact d.standsIn_of_mem_checkpoints c hfirst.mem
  · cases failure with
    | structural fault => exact ⟨_, rfl, RuleFault.reason_foldr_inline c.inner fault⟩
    | regex pattern refusal => rfl

end

/-- A rule without a label, in the inline grammar of rule `1` of the inline grammar of rule `1`;
what is wrong with rule `2` does not matter. And, with the bundled engine, an expression that does
not compile, in the inline grammar of a rule. -/
theorem buildGrammar_firstFault_nested :
    let numbers : String → Option Nat := fun name => if name = "c" then some 3 else none
    let innermost : Description := ⟨none, [], none, [⟨some (.one "a"), none, none, none⟩], []⟩
    let inner : Description :=
      ⟨none, [], none, [.lua (.one "b") "b",
        ⟨some (.many ["<", ">"]), none, some (.one "c"), some (.inline innermost)⟩], []⟩
    let outer : Description :=
      ⟨none, [], none, [⟨some (.one "x"), none, some (.one "x"), some (.named "c")⟩,
        ⟨some (.many ["(", ")"]), none, some (.one "y"), some (.inline inner)⟩,
        ⟨none, none, none, none⟩], []⟩
    let broken : Description := ⟨none, [], none, [⟨none, some (.one "ab(c"), none, none⟩], []⟩
    let around : Description :=
      ⟨none, [], none, [⟨some (.many ["(", ")"]), none, some (.one "y"), some (.inline broken)⟩,
        ⟨none, none, none, none⟩], []⟩
    let error : Error := .rule 1 (.inline 1 (.inline 0 .noLabel))
    let refused : Error := @Error.compile compileDetail "ab(c" 2
    (∀ name (s : Unit), ∃ answer, ((Resolver.fixed numbers name).runOn s).1 = .ok answer) ∧
      ((buildGrammar (Resolver.fixed numbers) "default" outer).runOn ()).1 = .error error ∧
      error.message? = some
        "rule 1: inline grammar rule 1: inline grammar rule 0: no `type` given" ∧
      (∃ c failure, FirstFails (Resolver.fixed numbers) () outer.checkpoints c failure ∧
        failure.errorAt c.rule c.inner = error) ∧
      ((buildGrammar (Resolver.fixed numbers) "default" around).runOn ()).1 = .error refused ∧
      ∃ c failure, FirstFails (Resolver.fixed numbers) () around.checkpoints c failure ∧
        failure.errorAt c.rule c.inner = refused := by
  intro numbers innermost inner outer broken around error refused
  have hanswers : ∀ name (s : Unit),
      ∃ answer, ((Resolver.fixed numbers name).runOn s).1 = .ok answer := fun _ _ => ⟨_, rfl⟩
  have herror : ((buildGrammar (Resolver.fixed numbers) "default" outer).runOn ()).1 =
      .error error := rfl
  have hrefused : ((buildGrammar (Resolver.fixed numbers) "default" around).runOn ()).1 =
      .error refused := rfl
  exact ⟨hanswers, herror, by decide,
    ((buildGrammar_firstFault hanswers "default" outer ()).1 error).mp herror, hrefused,
    ((buildGrammar_firstFault hanswers "default" around ()).1 refused).mp hrefused⟩

end Linewise
