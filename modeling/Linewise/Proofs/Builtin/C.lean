import Linewise.Builtin.C
import Linewise.Proofs.Builtin.CTracking
import Linewise.Proofs.Grammar.WellFormed
import Linewise.Proofs.LuaPattern.Literal

/-!
# The grammar of C

The rules of C are written for their order: none of those behind the rules of comments, strings and
character constants takes the beginning of one, so that a quick pass, which leaves them out, ends in
the same carry as a full one. Here this is proved, and with it what the carry is: that of the mode
to which the bytes of the line lead (`carry_tokenize_c`).

## 1.  The patterns by their parts

`cTemplates` lists the patterns of all rules by their parts, and `texts_cRules` checks that these
are the patterns of the description.

## 2.  Reading rules as templates

Building turns each rule of the description into a rule that matches as its templates do
(`exists_readsAs`).

## 3.  Comments, strings and character constants

These are regions between fixed bytes. Their patterns are read exactly, also inside of a character,
where a quick pass may try them.

## 4.  Tokens

The patterns of tokens are not read exactly. That would be long, since some of them return to
earlier points. A match takes only what its elements accept (`Template.passed`), and no element
accepts a slash or a quote, except the one of the operators, which is all of its pattern.

## 5.  The grammar that is built

So what is built is a grammar of C (`nonempty_cView`), and a scan of it tracks the modes.
-/

namespace Linewise
namespace Builtin

open LuaPattern

/-! ## 1.  The patterns by their parts -/

/-- A pattern that is not anchored. -/
def floating (items : List Item)
    (h : (items.map Item.source).getLast? ≠ some [percent, dollar]) : Template :=
  ⟨false, items, false, fun _ => h⟩

/-- `%a` or `_`, with which names begin. -/
def nameStart : Atom :=
  .set ⟨false, [.escape 0x61 rfl, .byte 0x5F rfl], by simp, by decide, by decide⟩

/-- `%w` or `_`, with which names go on. -/
def namePart : Atom :=
  .set ⟨false, [.escape 0x77 rfl, .byte 0x5F rfl], by simp, by decide, by decide⟩

/-- A name. -/
def nameItems : List Item := [.element nameStart .once, .element namePart .many]

/-- A byte that stands for itself. -/
def single (b : UInt8) (h : LuaPattern.isPlain b = true) : Template :=
  floating (literally [.byte b h])
    (by simp [literally, Item.source, Atom.source, Quantifier.source])

/-- `//.*` -/
def lineComment : Template :=
  floating (literally [.byte slash rfl, .byte slash rfl] ++ [.element .any .many]) (by decide)

/-- `/%*` -/
def commentOpener : Template :=
  floating (literally [.byte slash rfl, .escape asterisk rfl]) (by decide)

/-- `%*/` -/
def commentCloser : Template :=
  floating (literally [.escape asterisk rfl, .byte slash rfl]) (by decide)

/-- The patterns of line comments, of block comments, of strings, and of character constants. -/
def cRegions : List (List Template) :=
  [ [lineComment],
    [commentOpener, commentCloser],
    [single doubleQuote rfl, single doubleQuote rfl, single backslash rfl],
    [single apostrophe rfl, single apostrophe rfl, single backslash rfl] ]

/-- An opening parenthesis. -/
def parenthesis : Bracket := ⟨false, [.byte 0x28 rfl], by simp, by decide, by decide⟩

/-- The sign of an operator. -/
def operatorSign : Atom :=
  .set ⟨false,
    [.escape 0x2B rfl, .escape 0x2D rfl, .byte 0x3D rfl, .byte slash rfl, .escape asterisk rfl,
      .escape 0x5E rfl, .escape 0x25 rfl, .byte 0x3C rfl, .byte 0x3E rfl, .byte 0x21 rfl,
      .byte 0x7E rfl, .byte 0x7C rfl, .byte 0x26 rfl],
    by simp, by decide, by decide⟩

/-- The patterns of tokens. -/
def cTokens : List Template :=
  [ floating (literally [.byte 0x30 rfl, .byte 0x78 rfl] ++ [.element (.escape 0x78 rfl) .several])
      (by decide),
    floating
      [.element (.escape 0x64 rfl) .several,
        .element (.set ⟨false, [.escape 0x64 rfl, .escape 0x2E rfl, .byte 0x65 rfl, .byte 0x45 rfl],
          by simp, by decide, by decide⟩) .many,
        .element (.byte 0x66 rfl) .optional]
      (by decide),
    floating
      [.element (.escape 0x2E rfl) .optional, .element (.escape 0x64 rfl) .several,
        .element (.byte 0x66 rfl) .optional]
      (by decide),
    floating [.element operatorSign .once] (by decide),
    floating (literally [.byte 0x23 rfl, .byte 0x23 rfl]) (by decide),
    floating
      (literally [.byte 0x73 rfl, .byte 0x74 rfl, .byte 0x72 rfl, .byte 0x75 rfl, .byte 0x63 rfl,
        .byte 0x74 rfl, .escape 0x73 rfl] ++ [.openGroup, .closeGroup] ++ nameItems)
      (by decide),
    floating
      (literally [.byte 0x75 rfl, .byte 0x6E rfl, .byte 0x69 rfl, .byte 0x6F rfl, .byte 0x6E rfl,
        .escape 0x73 rfl] ++ [.openGroup, .closeGroup] ++ nameItems)
      (by decide),
    floating (nameItems ++ [.frontier parenthesis]) (by decide),
    floating (literally [.byte 0x23 rfl] ++ [.element (.escape 0x73 rfl) .many] ++ nameItems)
      (by decide),
    floating nameItems (by decide) ]

/-- The patterns of all rules. -/
def cTemplates : List (List Template) := cRegions ++ cTokens.map ([·])

/-- **These are the patterns of the rules.** -/
theorem texts_cRules :
    cRules.map (fun d => d.texts.map Pattern.luaBytes) =
      cTemplates.map (·.map Template.source) := by
  decide +kernel

/-- All rules are written as Lua-style patterns, without nested grammars. -/
theorem plain_cRules : ∀ d ∈ cRules, d.pattern.isSome = true ∧ d.regex.isSome = false ∧
    d.nested.isNone = true := by
  decide

/-- No rule has too few or too many patterns or labels. -/
theorem counts_cRules : ∀ d ∈ cRules, 1 ≤ d.texts.length ∧ d.texts.length ≤ 3 ∧
    d.labelTexts ≠ [] ∧ d.labelTexts.length ≤
      d.texts[0]?.elim 0 fun text => (Pattern.lua text).boundaryCount := by
  decide +kernel

theorem wellFormed_c [Regex.Engine] (numbers : String → Option Nat) : c.WellFormed numbers := by
  refine .intro (by decide) (fun d hd => ?_) fun d hd => ?_
  · obtain ⟨hlua, hregex, -⟩ := plain_cRules d hd
    obtain ⟨hpos, hle, hlabels, hcount⟩ := counts_cRules d hd
    exact RuleDescription.wellFormed_of_lua hlua hregex hpos hle hlabels hcount
  · obtain ⟨-, -, hnested⟩ := plain_cRules d hd
    rw [Option.isNone_iff_eq_none.mp hnested]
    exact .none

/-! ## 2.  Reading rules as templates -/

/-- A pattern matches as a template does. -/
def Reads (p : Pattern) (w : Template) : Prop :=
  ∀ t offset, p.boundariesAt? t offset = boundariesAt? w.source t offset

/-- The patterns of a rule match as templates do, and nothing is nested in it. -/
structure ReadsAs (r : Rule Grammar) (ws : List Template) : Prop where
  /-- The first template enters. -/
  enter : Option.Rel Reads (some r.enter) ws[0]?
  /-- The second one closes. -/
  close : Option.Rel Reads r.close ws[1]?
  /-- The third one escapes. -/
  escape : Option.Rel Reads r.escape ws[2]?
  /-- Nothing is nested. -/
  nested : r.nested = none

theorem rel_reads {texts : List String} {ws : List Template}
    (h : texts.map Pattern.luaBytes = ws.map Template.source) (i : Nat) :
    Option.Rel Reads (texts[i]?.map .lua) ws[i]? := by
  have hi := congrArg (·[i]?) h
  simp only [List.getElem?_map] at hi
  cases htext : texts[i]? with
  | none =>
    cases hw : ws[i]? with
    | none => exact .none
    | some w => simp [htext, hw] at hi
  | some text =>
    cases hw : ws[i]? with
    | none => simp [htext, hw] at hi
    | some w =>
      refine .some fun t offset => ?_
      have hbytes : Pattern.luaBytes text = w.source := by simpa [htext, hw] using hi
      rw [Pattern.boundariesAt?, hbytes]

variable {g : Grammar} {numbers : String → Option Nat} {label : String} {r : Rule Grammar}

/-- **The rules that are built read as the templates.** -/
theorem exists_readsAs [Regex.Engine] (h : c.Mirrors numbers label g) {i : Nat}
    (hi : g.rules[i]? = some r) : ∃ ws, cTemplates[i]? = some ws ∧ ReadsAs r ws := by
  cases h with
  | intro _ _ _ hlength hrules hnested =>
    have hlt : i < cRules.length := by
      rw [show cRules.length = g.rules.length from hlength.symm]
      exact (List.getElem?_eq_some_iff.mp hi).1
    obtain ⟨d, hd⟩ : ∃ d, cRules[i]? = some d := ⟨_, List.getElem?_eq_getElem hlt⟩
    have htexts := congrArg (·[i]?) texts_cRules
    simp only [List.getElem?_map, hd, Option.map_some] at htexts
    obtain ⟨ws, hws, hsources⟩ := Option.map_eq_some_iff.mp htexts.symm
    obtain ⟨hlua, -, hnone⟩ := plain_cRules d (List.mem_of_getElem? hd)
    have hmirrors := hrules i d r hd hi
    have hpattern := d.pattern?_of_lua hlua
    refine ⟨ws, hws, ?_, ?_, ?_, ?_⟩
    · rw [← hmirrors.enter, hpattern]
      exact rel_reads hsources.symm 0
    · rw [← hmirrors.close, hpattern]
      exact rel_reads hsources.symm 1
    · rw [← hmirrors.escape]
      exact rel_reads hsources.symm 2
    · have hsame := hnested i d r hd hi
      rw [Option.isNone_iff_eq_none.mp hnone] at hsame
      generalize r.nested = nested at hsame
      cases hsame
      rfl

theorem exists_reads {p? : Option Pattern} {w : Template} (h : Option.Rel Reads p? (some w)) :
    ∃ p, p? = some p ∧ Reads p w := by
  cases h with
  | some hreads => exact ⟨_, rfl, hreads⟩

theorem eq_none_of_reads {p? : Option Pattern} (h : Option.Rel Reads p? none) : p? = none := by
  cases h
  rfl

/-! ## 3.  Comments, strings and character constants -/

theorem only_asterisk : (Atom.escape asterisk rfl).Only asterisk := by
  rintro ⟨c⟩
  revert c
  decide

/-- A pattern of fixed bytes finds them. -/
theorem finds_literally {p : Pattern} {atoms : List Atom} {bytes : List UInt8} {h}
    (hp : Reads p (floating (literally atoms) h)) (hatoms : List.Forall₂ Atom.Only atoms bytes)
    (hne : bytes ≠ []) (hascii : Ascii.All bytes) : p.Finds bytes := by
  intro t offset ht hlt
  have hitems : (floating (literally atoms) h).items = literally atoms ++ [] :=
    (List.append_nil _).symm
  rw [hp, Template.boundariesAt?_literally _ ht rfl hitems hatoms hne hascii trivial offset hlt]
  rfl

theorem finds_single {p : Pattern} {b : UInt8} {h : LuaPattern.isPlain b = true}
    (hp : Reads p (single b h)) : p.Finds [b] :=
  finds_literally hp (.cons (only_byte b h) .nil) (by simp)
    (List.forall_mem_singleton.mpr (lt_of_isPlain h))

/-- **The rule of block comments is as it has to be.** -/
theorem ReadsAs.isRegion_comment (h : ReadsAs r [commentOpener, commentCloser]) :
    IsRegion r [slash, asterisk] [asterisk, slash] false where
  enter := by
    obtain ⟨p, hp, hreads⟩ := exists_reads h.enter
    cases hp
    exact finds_literally hreads (.cons (only_byte _ _) (.cons only_asterisk .nil)) (by simp)
      (by decide)
  close := by
    obtain ⟨p, hp, hreads⟩ := exists_reads h.close
    exact ⟨p, hp, finds_literally hreads (.cons only_asterisk (.cons (only_byte _ _) .nil))
      (by simp) (by decide)⟩
  escape := by
    rw [eq_none_of_reads h.escape]
    exact .none
  nested := h.nested

/-- **So are the rules of strings and of character constants.** -/
theorem ReadsAs.isRegion_quoted {quote : UInt8} {hquote : LuaPattern.isPlain quote = true}
    (h : ReadsAs r [single quote hquote, single quote hquote, single backslash rfl]) :
    IsRegion r [quote] [quote] true where
  enter := by
    obtain ⟨p, hp, hreads⟩ := exists_reads h.enter
    cases hp
    exact finds_single hreads
  close := by
    obtain ⟨p, hp, hreads⟩ := exists_reads h.close
    exact ⟨p, hp, finds_single hreads⟩
  escape := by
    obtain ⟨p, hp, hreads⟩ := exists_reads h.escape
    rw [hp]
    exact .some (finds_single hreads)
  nested := h.nested

/-- **A line comment takes the rest of the line.** -/
theorem boundariesAt?_lineComment {p : Pattern} (hp : Reads p lineComment) {t : Text}
    (ht : t.Encoded) {offset : Nat} (hlt : offset < t.size) : p.boundariesAt? t offset =
      if [slash, slash] <+: t.toList.drop offset then some [t.size] else none := by
  have hrest : Deterministic [.element .any .many] := ⟨fun _ _ _ => rfl, trivial⟩
  rw [hp, lineComment.boundariesAt?_literally ht rfl rfl
    (.cons (only_byte slash rfl) (.cons (only_byte slash rfl) .nil)) (by simp) (by decide) hrest
    offset hlt]
  split
  · next hahead =>
    have hlength := hahead.length_le
    rw [List.length_drop, Array.length_toList] at hlength
    show some [Atom.any.reach t t.size (offset + 2)] = some [t.size]
    rw [reach_any t.size (by simp at hlength; omega) (by omega)]
  · rfl

/-! ## 4.  Tokens -/

/-- Whether a part takes a byte. -/
def takes (w : Template) (b : UInt8) : Bool := w.items.any (·.takes b)

/-- Where a pattern has several parts, none takes a slash or a quote. -/
theorem takes_eq_false : ∀ w ∈ cTokens, w.items.length ≠ 1 →
    takes w slash = false ∧ takes w doubleQuote = false ∧ takes w apostrophe = false := by
  decide

/-- What they take is plain. -/
theorem isPlain_of_takes {w : Template} (hw : w ∈ cTokens) (hlength : w.items.length ≠ 1)
    {b : UInt8} (htakes : takes w b = true) : CMode.isPlain b = true := by
  obtain ⟨hslash, hdouble, hsingle⟩ := takes_eq_false w hw hlength
  have hne : ∀ {other : UInt8}, takes w other = false → b ≠ other := by
    rintro other hother rfl
    rw [htakes] at hother
    cases hother
  simpa [CMode.isPlain] using ⟨⟨hne hslash, hne hdouble⟩, hne hsingle⟩

theorem items_eq_of_length : ∀ w ∈ cTokens, w.items.length = 1 →
    w.anchored = false ∧ w.items = [.element operatorSign .once] := by
  simp [cTokens, floating, literally, nameItems]

/-- **The rules of tokens are as they have to be.** -/
theorem ReadsAs.isToken {w : Template} (h : ReadsAs r [w]) (hw : w ∈ cTokens) : IsToken r := by
  refine ⟨eq_none_of_reads h.close, h.nested, fun t offset bounds _ hchar hmatch b hb => ?_⟩
  have hreads : boundariesAt? w.source t offset = some bounds := by
    cases h.enter with
    | some henter => rw [← henter, hmatch]
  refine ⟨atChar_of_boundariesAt? hchar hreads b hb, fun j d hj hlt hd => ?_⟩
  by_cases hlength : w.items.length = 1
  · obtain ⟨hanchor, hitems⟩ := items_eq_of_length w hw hlength
    rw [eq_of_boundariesAt?_once w hanchor hitems hchar hreads b hb] at hlt
    exact CMode.isPlain_of_isContinuation (Text.isContinuation_of_lt_charStart hj hlt hd)
  · rcases w.passed hchar hreads b hb j d (Nat.le_of_lt hj) hlt hd with hcontinuation | htakes
    · exact CMode.isPlain_of_isContinuation hcontinuation
    · exact isPlain_of_takes hw hlength htakes

/-- A name begins with every character of more than one byte. -/
theorem accepts_nameStart {b : UInt8} (h : 0x80 ≤ b) : nameStart.accepts b = true := by
  obtain ⟨b⟩ := b
  revert b
  decide

/-- So the rule of names, the last one, takes it. -/
theorem consumed?_name {p : Pattern} (hp : Reads p (floating nameItems (by decide))) {t : Text}
    {offset : Nat} {b : UInt8} (hchar : t.AtChar offset) (hb : t[offset]? = some b)
    (hwide : 0x80 ≤ b) : consumed? p t offset ≠ none := by
  have hcounts : offset < namePart.reach t t.size (t.charStart (offset + 1)) :=
    Nat.le_trans (t.le_charStart (offset + 1)) (namePart.le_reach t t.size _)
  have hfirst :
      (Item.element nameStart .once).stop? t offset = some (t.charStart (offset + 1)) := by
    rw [stop?_once, hb, Option.any_some, accepts_nameStart hwide, if_pos rfl]
  have hdeterministic : Deterministic nameItems :=
    ⟨fun hmost => absurd hmost (by decide), fun _ _ _ => rfl, trivial⟩
  have hmatch : p.boundariesAt? t offset =
      some [namePart.reach t t.size (t.charStart (offset + 1))] := by
    rw [hp, Template.boundariesAt?_of_never _ hchar (hdeterministic.orderly t offset)]
    show possessive t false nameItems offset = _
    rw [nameItems, possessive_cons, hfirst]
    rfl
  simp [consumed?_eq_filter, hmatch, hcounts]

/-! ## 5.  The grammar that is built -/

/-- **What is built is a grammar of C.** -/
theorem nonempty_cView [Regex.Engine] (h : c.Mirrors numbers label g) : Nonempty (CView g) := by
  have hlength : g.rules.length = 14 := by
    cases h with
    | intro _ _ _ hlength => exact hlength
  obtain ⟨lineComment, comment, string, char, tokens, hrules⟩ :
      ∃ r₀ r₁ r₂ r₃ tokens, g.rules = r₀ :: r₁ :: r₂ :: r₃ :: tokens := by
    match hrules : g.rules with
    | r₀ :: r₁ :: r₂ :: r₃ :: tokens => exact ⟨r₀, r₁, r₂, r₃, tokens, rfl⟩
    | [] | [_] | [_, _] | [_, _, _] => rw [hrules] at hlength; cases hlength
  have hrule : ∀ (i : Nat) (r : Rule Grammar), g.rules[i]? = some r →
      ∃ ws, cTemplates[i]? = some ws ∧ ReadsAs r ws := fun _ _ hi => exists_readsAs h hi
  rw [hrules] at hrule hlength
  obtain ⟨_, ⟨⟩, h₀⟩ := hrule 0 _ rfl
  obtain ⟨_, ⟨⟩, h₁⟩ := hrule 1 _ rfl
  obtain ⟨_, ⟨⟩, h₂⟩ := hrule 2 _ rfl
  obtain ⟨_, ⟨⟩, h₃⟩ := hrule 3 _ rfl
  have htoken : ∀ (i : Nat) (r : Rule Grammar), tokens[i]? = some r →
      ∃ w, cTokens[i]? = some w ∧ ReadsAs r [w] := by
    intro i r hi
    obtain ⟨ws, hws, hr⟩ := hrule (i + 4) r hi
    have hws' : (cTokens.map ([·]))[i]? = some ws := hws
    rw [List.getElem?_map, Option.map_eq_some_iff] at hws'
    obtain ⟨w, hw, rfl⟩ := hws'
    exact ⟨w, hw, hr⟩
  refine ⟨⟨lineComment, comment, string, char, tokens, hrules, ?_, eq_none_of_reads h₀.close,
    h₀.nested, h₁.isRegion_comment, h₂.isRegion_quoted, h₃.isRegion_quoted, ?_, ?_⟩⟩
  · obtain ⟨p, hp, hreads⟩ := exists_reads h₀.enter
    cases hp
    exact fun t offset ht hlt => boundariesAt?_lineComment hreads ht hlt
  · intro r hr
    obtain ⟨i, hi⟩ := List.getElem?_of_mem hr
    obtain ⟨w, hw, hreads⟩ := htoken i r hi
    exact hreads.isToken (List.mem_of_getElem? hw)
  · intro t offset b hchar hb hwide
    have hten : tokens.length = 10 := by simpa using hlength
    obtain ⟨r, hr⟩ : ∃ r, tokens[9]? = some r := ⟨_, List.getElem?_eq_getElem (by omega)⟩
    obtain ⟨_, ⟨⟩, hreads⟩ := htoken 9 r hr
    obtain ⟨p, hp, hname⟩ := exists_reads hreads.enter
    cases hp
    exact ⟨r, List.mem_of_getElem? hr, consumed?_name hname hchar hb hwide⟩

/-- **A line of C ends in the carry to which its comments, strings and character constants lead**,
in a full pass and in a quick one, from whatever carry it begins in. The grammar is the one that is
built from the description, by whatever resolver. -/
theorem carry_tokenize_c [Regex.Engine] {σ : Type} (resolve : Resolver σ) (label : String) (s : σ) :
    ∃ g, (buildGrammar resolve label c).runOn s = (.ok g, s) ∧
      ∀ (table : Table) (carry : Carry), ∃ m : CMode,
        (Tokenizer.mk table g).resume carry = (.root g, m.carry) ∧
        ∀ (quick : Bool) (line : String),
          ((Tokenizer.mk table g).tokenize quick (Text.ofString line) carry).carry =
            (m.after (Text.ofString line).toList).carry := by
  have hbuilds : ∃ g, (buildGrammar resolve label c).runOn s = (.ok g, s) ∧
      c.Mirrors (fun _ => none) label g :=
    exists_runOn_buildGrammar rfl (wellFormed_c _) label s
  obtain ⟨g, hbuilt, hmirrors⟩ := hbuilds
  obtain ⟨k⟩ := nonempty_cView hmirrors
  refine ⟨g, hbuilt, fun table carry => ?_⟩
  obtain ⟨m, hresume⟩ := k.exists_resume table carry
  exact ⟨m, hresume, fun quick line =>
    k.carry_line ⟨table, Text.ofString line, quick⟩ (Text.encoded_ofString line) hresume⟩

end Builtin
end Linewise
