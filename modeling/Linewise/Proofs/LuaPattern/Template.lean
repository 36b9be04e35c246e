import Linewise.LuaPattern.Machine

/-!
# Patterns by their parts

A pattern is a sequence of bytes, and the machine never looks at more than two of them at once. Who
writes a pattern thinks in larger parts: an *atom* that accepts single characters, with a
*quantifier* behind it, marks around captures, and frontiers. A `Template` is such a pattern by its
parts, and `Template.source` are its bytes.

## 1.  Atoms

A byte that has no meaning of its own, any character (`.`), a class or an escaped byte (`%a`, `%.`),
or a set in brackets. `Atom.accepts` says which characters an atom accepts; as everywhere in a
pattern, a character is judged by its first byte.

## 2.  Templates

The well-formedness of the parts is part of their types: every template has bytes in which each part
is read as what it is. Four things are left out, since the bytes would be read as something else:

* a `%` as the last member of a set: the machine takes the `]` behind a `%%` for an escaped one;
* a `.` as the member of a set, which accepts everything;
* a `^` as the first member of a set that is not inverted, which would invert it;
* an escaped `$` at the end of the pattern, which is taken for an anchor (`EndsPlain`).

A lazy quantifier is not a part of a template either.
-/

namespace Linewise
namespace LuaPattern

/-! ## 1.  Atoms -/

/-- A printable byte. -/
def isPrintable (b : UInt8) : Bool := 0x20 ≤ b && b ≤ 0x7E

/-- The bytes that carry a meaning outside of sets. -/
def magicBytes : List UInt8 :=
  [caret, dollar, openGroup, closeGroup, percent, dot, openSet, closeSet, star, plus, minus,
    question]

/-- The letters that name a class behind a `%`: `a w l u d g c p s x z`. -/
def classLetters : List UInt8 :=
  [0x61, 0x77, 0x6C, 0x75, 0x64, 0x67, 0x63, 0x70, 0x73, 0x78, 0x7A]

/-- A byte that stands for itself outside of sets. -/
def isPlain (b : UInt8) : Bool := isPrintable b && !magicBytes.contains b

/-- A byte that may follow a `%`: the letter of a class, in either case, or punctuation. -/
def isEscape (kind : UInt8) : Bool :=
  classLetters.contains (Ascii.toLower kind) || Ascii.isPunct kind

/-- A byte that stands for itself in a set. -/
def isPlainMember (b : UInt8) : Bool :=
  isPrintable b && b != percent && b != closeSet && b != dot

/-- A member of a set. -/
inductive Member where
  /-- A byte that stands for itself. -/
  | byte (b : UInt8) (plain : isPlainMember b = true)
  /-- A class or an escaped byte. -/
  | escape (kind : UInt8) (known : isEscape kind = true)

namespace Member

/-- The bytes of a member. -/
def source : Member → Source
  | byte b _ => [b]
  | escape kind _ => [percent, kind]

/-- Whether a member accepts a character. -/
def accepts : Member → UInt8 → Bool
  | byte b _, c => b == c
  | escape kind _, c => classAccepts kind c

end Member

/-- The bytes of consecutive members. -/
def membersSource (members : List Member) : Source := members.flatMap Member.source

@[simp] theorem membersSource_nil : membersSource [] = [] := rfl

@[simp] theorem membersSource_cons (m : Member) (members : List Member) :
    membersSource (m :: members) = m.source ++ membersSource members := by
  simp [membersSource]

/-- The bytes of a set with some members. -/
def setSource (inverted : Bool) (members : List Member) : Source :=
  openSet :: (if inverted then [caret] else []) ++ membersSource members ++ [closeSet]

/-- A set in brackets. -/
structure Bracket where
  /-- Whether it accepts what none of its members accepts. -/
  inverted : Bool
  /-- Its members. -/
  members : List Member
  /-- There is one. -/
  nonempty : members ≠ []
  /-- The first one does not invert the set. -/
  head_ne : inverted = false → members.head?.map Member.source ≠ some [caret]
  /-- The last one does not escape the closing bracket. -/
  last_ne : members.getLast?.map Member.source ≠ some [percent, percent]

namespace Bracket

/-- The bytes of a set. -/
def source (s : Bracket) : Source :=
  openSet :: (if s.inverted then [caret] else []) ++ membersSource s.members ++ [closeSet]

theorem source_eq (s : Bracket) : s.source = setSource s.inverted s.members := rfl

/-- Whether a set accepts a character. -/
def accepts (s : Bracket) (c : UInt8) : Bool :=
  if s.inverted then !s.members.any (·.accepts c) else s.members.any (·.accepts c)

end Bracket

/-- What accepts a single character. -/
inductive Atom where
  /-- A byte that stands for itself. -/
  | byte (b : UInt8) (plain : isPlain b = true)
  /-- Any character. -/
  | any
  /-- A class or an escaped byte. -/
  | escape (kind : UInt8) (known : isEscape kind = true)
  /-- A set. -/
  | set (s : Bracket)

namespace Atom

/-- The bytes of an atom. -/
def source : Atom → Source
  | byte b _ => [b]
  | any => [dot]
  | escape kind _ => [percent, kind]
  | set s => s.source

/-- Whether an atom accepts a character. -/
def accepts : Atom → UInt8 → Bool
  | byte b _, c => b == c
  | any, _ => true
  | escape kind _, c => classAccepts kind c
  | set s, c => s.accepts c

/-- Whether an atom is an inverted set. -/
def inverted : Atom → Bool
  | set s => s.inverted
  | _ => false

end Atom

/-! ## 2.  Templates -/

/-- How many characters in a row an atom takes. -/
inductive Quantifier where
  /-- One. -/
  | once
  /-- One or none: `?`. -/
  | optional
  /-- Any number: `*`. -/
  | many
  /-- At least one: `+`. -/
  | several
  deriving DecidableEq, Repr

namespace Quantifier

/-- The bytes of a quantifier. -/
def source : Quantifier → Source
  | once => []
  | optional => [question]
  | many => [star]
  | several => [plus]

/-- The least number of characters. -/
def least : Quantifier → Nat
  | once | several => 1
  | optional | many => 0

/-- The greatest number of characters; nothing means no limit. -/
def most : Quantifier → Option Nat
  | once | optional => some 1
  | many | several => none

/-- The numbers of characters that a quantifier allows. -/
def Allows : Quantifier → Nat → Prop
  | once, n => n = 1
  | optional, n => n ≤ 1
  | many, _ => True
  | several, n => 1 ≤ n

end Quantifier

/-- A part of a template. -/
inductive Item where
  /-- A capture begins. -/
  | openGroup
  /-- A capture ends. -/
  | closeGroup
  /-- A frontier: outside of the set before, inside of it behind. -/
  | frontier (s : Bracket)
  /-- An atom and how many characters it takes. -/
  | element (a : Atom) (q : Quantifier)

namespace Item

/-- The bytes of a part. -/
def source : Item → Source
  | openGroup => [LuaPattern.openGroup]
  | closeGroup => [LuaPattern.closeGroup]
  | frontier s => percent :: frontierLetter :: s.source
  | element a q => a.source ++ q.source

end Item

/-- The bytes of consecutive parts. -/
def sourceOf (items : List Item) : Source := items.flatMap Item.source

/-- What stands behind the last part: the anchor at the end, if there is one. -/
def anchorTail (toEnd : Bool) : Source := if toEnd then [dollar] else []

/-- The last part is not an escaped `$` that would be taken for the anchor. -/
def EndsPlain (toEnd : Bool) (items : List Item) : Prop :=
  toEnd = false → (items.map Item.source).getLast? ≠ some [percent, dollar]

/-- A pattern by its parts. -/
structure Template where
  /-- Whether it holds at the start of the text alone. -/
  anchored : Bool
  /-- Its parts. -/
  items : List Item
  /-- Whether a match has to end with the text. -/
  toEnd : Bool
  /-- No part is taken for the anchor at the end. -/
  endsPlain : EndsPlain toEnd items

/-- The bytes of a template. -/
def Template.source (p : Template) : Source :=
  (if p.anchored then [caret] else []) ++ sourceOf p.items ++ anchorTail p.toEnd

/-! ## 3.  Bytes of the parts -/

@[simp] theorem sourceOf_nil : sourceOf [] = [] := rfl

@[simp] theorem sourceOf_cons (i : Item) (rest : List Item) :
    sourceOf (i :: rest) = i.source ++ sourceOf rest := by
  simp [sourceOf]

theorem EndsPlain.tail {toEnd : Bool} {i : Item} {rest : List Item}
    (h : EndsPlain toEnd (i :: rest)) : EndsPlain toEnd rest := by
  intro hend hlast
  refine h hend ?_
  rw [List.map_cons, List.getLast?_cons, hlast]
  rfl

/-- A byte that stands for itself is none of those that carry a meaning. -/
theorem ne_of_isPlain {b magic : UInt8} (h : isPlain b = true) (hmagic : magic ∈ magicBytes) :
    b ≠ magic := by
  rintro rfl
  simp [isPlain, hmagic] at h

theorem ne_zero_of_isPlain {b : UInt8} (h : isPlain b = true) : b ≠ 0 := by
  rintro rfl
  exact absurd h (by decide)

theorem ne_zero_of_isPlainMember {b : UInt8} (h : isPlainMember b = true) : b ≠ 0 := by
  rintro rfl
  exact absurd h (by decide)

theorem ne_of_isPlainMember {b : UInt8} (h : isPlainMember b = true) :
    b ≠ percent ∧ b ≠ closeSet ∧ b ≠ dot := by
  simp only [isPlainMember, Bool.and_eq_true, bne_iff_ne] at h
  obtain ⟨⟨⟨-, hpercent⟩, hclose⟩, hdot⟩ := h
  exact ⟨hpercent, hclose, hdot⟩

theorem ne_zero_of_isEscape {kind : UInt8} (h : isEscape kind = true) : kind ≠ 0 := by
  rintro rfl
  exact absurd h (by decide)

/-- The letter of a frontier names no class. -/
theorem toLower_ne_of_isEscape {kind : UInt8} (h : isEscape kind = true) :
    Ascii.toLower kind ≠ frontierLetter := by
  intro hletter
  have hkind : kind = 0x46 ∨ kind = 0x66 := by
    rw [Ascii.toLower] at hletter
    split at hletter
    · exact Or.inl (UInt8.eq_sub_iff_add_eq.mpr hletter)
    · exact Or.inr hletter
  rcases hkind with rfl | rfl <;> exact absurd h (by decide)

/-- A byte with which a part can begin: neither an anchor nor a quantifier. -/
def begins (b : UInt8) : Bool := b != caret && !Source.isQuantifier b

theorem begins_of_isPlain {b : UInt8} (h : isPlain b = true) : begins b = true := by
  have hne : ∀ {magic}, magic ∈ magicBytes → b ≠ magic := ne_of_isPlain h
  have hcaret : b ≠ caret := hne (by decide)
  have hminus : b ≠ minus := hne (by decide)
  have hstar : b ≠ star := hne (by decide)
  have hplus : b ≠ plus := hne (by decide)
  have hquestion : b ≠ question := hne (by decide)
  simp [begins, Source.isQuantifier, Source.isOptional, *]

/-- A part has a first byte. -/
theorem Item.exists_source_eq_cons (i : Item) :
    ∃ b more, i.source = b :: more ∧ begins b = true := by
  cases i with
  | openGroup => exact ⟨_, _, rfl, by decide⟩
  | closeGroup => exact ⟨_, _, rfl, by decide⟩
  | frontier s => exact ⟨_, _, rfl, by decide⟩
  | element a q =>
    cases a with
    | byte b plain => exact ⟨b, _, rfl, begins_of_isPlain plain⟩
    | any => exact ⟨_, _, rfl, by decide⟩
    | escape kind known => exact ⟨_, _, rfl, by decide⟩
    | set s => exact ⟨_, _, rfl, by decide⟩

theorem Item.length_source_pos (i : Item) : 0 < i.source.length := by
  obtain ⟨b, more, h, -⟩ := i.exists_source_eq_cons
  simp [h]

/-- What stands at the beginning of consecutive parts is no anchor, and no quantifier either. -/
theorem begins_or_eq_dollar_of_drop {p : Source} {i : Nat} {items : List Item} {toEnd : Bool}
    (h : p.drop i = sourceOf items ++ anchorTail toEnd) :
    p.byteAt i = 0 ∨ p.byteAt i = dollar ∨ begins (p.byteAt i) = true := by
  have hget : p.byteAt i = (sourceOf items ++ anchorTail toEnd).head?.getD 0 := by
    rw [← h, List.head?_drop, Source.byteAt, List.getD_eq_getElem?_getD]
  rw [hget]
  cases items with
  | nil => cases toEnd <;> simp [anchorTail]
  | cons i rest =>
    obtain ⟨b, more, hi, hb⟩ := i.exists_source_eq_cons
    exact Or.inr (Or.inr (by simpa [hi] using hb))

/-- A part that ends in a `$` is an escaped `$`. -/
theorem Item.source_eq_of_getLast? {i : Item} (h : i.source.getLast? = some dollar) :
    i.source = [percent, dollar] := by
  have hbracket : ∀ s : Bracket, s.source.getLast? = some closeSet := by
    intro s
    rw [Bracket.source, List.getLast?_append]
    rfl
  cases i with
  | openGroup => exact absurd h (by decide)
  | closeGroup => exact absurd h (by decide)
  | frontier s =>
    have hlast : (Item.frontier s).source.getLast? = some closeSet := by
      simp [Item.source, List.getLast?_cons, hbracket s]
    rw [hlast] at h
    exact absurd h (by decide)
  | element a q =>
    cases q with
    | once =>
      cases a with
      | byte b plain =>
        have hb : b = dollar := by simpa [Item.source, Atom.source, Quantifier.source] using h
        exact absurd hb (ne_of_isPlain plain (by decide))
      | any => exact absurd h (by decide)
      | escape kind known =>
        have hkind : kind = dollar := by
          simpa [Item.source, Atom.source, Quantifier.source] using h
        simp [Item.source, Atom.source, Quantifier.source, hkind]
      | set s =>
        have hlast : (Item.element (.set s) .once).source.getLast? = some closeSet := by
          simp [Item.source, Atom.source, Quantifier.source, hbracket s]
        rw [hlast] at h
        exact absurd h (by decide)
    | optional => exact absurd h (by simp [Item.source, Quantifier.source, question, dollar])
    | many => exact absurd h (by simp [Item.source, Quantifier.source, star, dollar])
    | several => exact absurd h (by simp [Item.source, Quantifier.source, plus, dollar])

theorem getLast?_sourceOf {items : List Item} (h : (sourceOf items).getLast? = some dollar) :
    (items.map Item.source).getLast? = some [percent, dollar] := by
  induction items with
  | nil => exact absurd h (by simp)
  | cons i rest ih =>
    cases rest with
    | nil =>
      have hi : i.source.getLast? = some dollar := by simpa using h
      simp [Item.source_eq_of_getLast? hi]
    | cons j rest =>
      have hne : sourceOf (j :: rest) ≠ [] := by
        have hpos := j.length_source_pos
        rw [sourceOf_cons]
        intro hnil
        simp [List.append_eq_nil_iff.mp hnil] at hpos
      obtain ⟨last, hlast⟩ := Option.isSome_iff_exists.mp (List.getLast?_isSome.mpr hne)
      rw [sourceOf_cons, List.getLast?_append, hlast, Option.some_or, ← hlast] at h
      rw [List.map_cons, List.getLast?_cons, ih h]
      rfl

end LuaPattern
end Linewise
