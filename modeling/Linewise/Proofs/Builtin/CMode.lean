import Linewise.Carry
import Linewise.Proofs.Text.CharStart
import Linewise.Text.Ascii

/-!
# Where comments and strings of C begin and end

Read byte by byte, a line of C is in one of four modes: in code, in a block comment, in a string or
in a character constant. `CMode.turn` says what the bytes ahead do to a mode, and `CMode.after` in
which mode a whole line ends. Each mode is one carry (`CMode.carry`). Nothing here knows of rules,
patterns or passes.
-/

namespace Linewise
namespace Builtin

/-- The byte `/`. -/
abbrev slash : UInt8 := 0x2F
/-- The byte `*`. -/
abbrev asterisk : UInt8 := 0x2A
/-- The byte `"`. -/
abbrev doubleQuote : UInt8 := 0x22
/-- The byte `'`. -/
abbrev apostrophe : UInt8 := 0x27
/-- The byte `\`. -/
abbrev backslash : UInt8 := 0x5C

/-- What a place in a text of C is part of. -/
inductive CMode where
  /-- Anything else. -/
  | code
  /-- A comment that can go on over lines. -/
  | comment
  /-- A string. -/
  | string
  /-- A character constant. -/
  | char
  deriving DecidableEq, Repr

namespace CMode

/-- The carry of a line that ends in a mode. -/
def carry : CMode → Carry
  | code => ⟨0x0⟩
  | comment => ⟨0x2⟩
  | string => ⟨0x3⟩
  | char => ⟨0x4⟩

/-- The index of the rule that is open in a mode. -/
def index? : CMode → Option Nat
  | code => none
  | comment => some 1
  | string => some 2
  | char => some 3

/-- Inside of what `closer` ends: a backslash takes the byte behind it along, if there are escapes,
and the closer goes back to code. -/
def inside (m : CMode) (closer : List UInt8) (escapes : Bool) (bytes : List UInt8) :
    Option (Nat × CMode) :=
  if escapes = true ∧ [backslash] <+: bytes then some (1, m)
  else if closer <+: bytes then some (closer.length - 1, code)
  else some (0, m)

/-- What the bytes ahead do to a mode: how many bytes are taken behind the first one, and the mode
behind them. Nothing if all that is left of the line is a comment. -/
def turn : CMode → List UInt8 → Option (Nat × CMode)
  | code, bytes =>
    if [slash, slash] <+: bytes then none
    else if [slash, asterisk] <+: bytes then some (1, comment)
    else if [doubleQuote] <+: bytes then some (0, string)
    else if [apostrophe] <+: bytes then some (0, char)
    else some (0, code)
  | comment, bytes => inside comment [asterisk, slash] false bytes
  | string, bytes => inside string [doubleQuote] true bytes
  | char, bytes => inside char [apostrophe] true bytes

/-- The mode at the end of a line of which `n` bytes are still to be passed over. -/
def afterTaking (m : CMode) : Nat → List UInt8 → CMode
  | _, [] => m
  | n + 1, _ :: rest => m.afterTaking n rest
  | 0, b :: rest =>
    match m.turn (b :: rest) with
    | none => code
    | some (n, m') => m'.afterTaking n rest

/-- The mode at the end of a line that begins in a mode. -/
def after (m : CMode) (bytes : List UInt8) : CMode := m.afterTaking 0 bytes

variable {m m' : CMode} {b : UInt8} {bytes rest : List UInt8} {n i : Nat}

/-! ## Carries -/

theorem active?_carry (m : CMode) : m.carry.active? 0 = m.index? := by
  cases m <;> decide

theorem truncate_carry (m : CMode) : m.carry.truncate 0 = code.carry := by
  cases m <;> decide

theorem truncate_carry_one (m : CMode) : m.carry.truncate 1 = m.carry := by
  cases m <;> decide

theorem mark_carry (hi : m.index? = some i) : code.carry.mark 0 i = m.carry := by
  cases m <;> cases hi <;> decide

/-! ## Turn after turn -/

@[simp] theorem after_nil (m : CMode) : m.after [] = m := by rw [after, afterTaking]

theorem afterTaking_eq_after (m : CMode) (n : Nat) (bytes : List UInt8) :
    m.afterTaking n bytes = m.after (bytes.drop n) := by
  induction bytes generalizing n with
  | nil => rw [List.drop_nil, after_nil, afterTaking]
  | cons b rest ih =>
    cases n with
    | zero => rfl
    | succ n => rw [afterTaking, ih, List.drop_succ_cons]

theorem after_of_turn_eq_none (h : m.turn (b :: rest) = none) : m.after (b :: rest) = code := by
  rw [after, afterTaking, h]

/-- Behind the bytes of a turn, the line goes on in the new mode. -/
theorem after_of_turn (h : m.turn (b :: rest) = some (n, m')) :
    m.after (b :: rest) = m'.after (rest.drop n) := by
  rw [after, afterTaking, h]
  exact afterTaking_eq_after m' n rest

/-- In `"\"/*`, the second quote is escaped, and no comment begins. -/
example : code.after [doubleQuote, backslash, doubleQuote, slash, asterisk] = string := by decide

/-- In a text, these are the bytes behind a place. -/
theorem after_drop_of_turn {t : Text} {p : Nat} (hlt : p < t.size)
    (h : m.turn (t.toList.drop p) = some (n, m')) :
    m.after (t.toList.drop p) = m'.after (t.toList.drop (p + 1 + n)) := by
  rw [Text.drop_toList_of_getElem? (Array.getElem?_eq_getElem hlt)] at h ⊢
  rw [after_of_turn h, List.drop_drop]

theorem after_drop_of_turn_eq_none {t : Text} {p : Nat} (hlt : p < t.size)
    (h : m.turn (t.toList.drop p) = none) : m.after (t.toList.drop p) = code := by
  rw [Text.drop_toList_of_getElem? (Array.getElem?_eq_getElem hlt)] at h ⊢
  exact after_of_turn_eq_none h

/-! ## Plain code -/

/-- A byte that is not one of those with which comments, strings and character constants begin. -/
def isPlain (b : UInt8) : Bool := b != slash && b != doubleQuote && b != apostrophe

theorem isPlain_of_isAlnum {b : UInt8} (h : Ascii.isAlnum b = true) : isPlain b = true := by
  obtain ⟨b⟩ := b
  revert b
  decide

theorem isPlain_of_isContinuation {b : UInt8} (h : Text.isContinuation b = true) :
    isPlain b = true := by
  obtain ⟨b⟩ := b
  revert b
  decide

/-- Bytes with which nothing begins leave the mode at code. -/
theorem turn_code_of_isPlain (h : isPlain b = true) (rest : List UInt8) :
    turn code (b :: rest) = some (0, code) := by
  simp only [isPlain, Bool.and_eq_true, bne_iff_ne] at h
  obtain ⟨⟨hslash, hdouble⟩, hsingle⟩ := h
  simp [turn, Ne.symm hslash, Ne.symm hdouble, Ne.symm hsingle]

/-- They can be passed over together. -/
theorem after_code_drop {t : Text} {p q : Nat} (hle : p ≤ q)
    (h : ∀ j c, p ≤ j → j < q → t[j]? = some c → isPlain c = true) :
    code.after (t.toList.drop p) = code.after (t.toList.drop q) := by
  obtain ⟨n, rfl⟩ := Nat.exists_eq_add_of_le hle
  clear hle
  induction n with
  | zero => rfl
  | succ n ih =>
    rw [ih fun j c hj hlt => h j c hj (Nat.lt_succ_of_lt hlt), ← Nat.add_assoc]
    cases hc : t[p + n]? with
    | none =>
      have hsize : t.size ≤ p + n := Array.getElem?_eq_none_iff.mp hc
      rw [Text.drop_toList_of_size_le hsize,
        Text.drop_toList_of_size_le (Nat.le_succ_of_le hsize)]
    | some c =>
      have hplain : isPlain c = true :=
        h (p + n) c (Nat.le_add_right p n) (Nat.lt_succ_self (p + n)) hc
      rw [Text.drop_toList_of_getElem? hc, after_of_turn (turn_code_of_isPlain hplain _),
        List.drop_zero]

/-- So can a byte with which nothing begins here, and plain bytes behind it. -/
theorem after_code_drop_of_turn {t : Text} {p q : Nat} (hp : p < t.size)
    (hturn : code.turn (t.toList.drop p) = some (0, code)) (hlt : p < q)
    (h : ∀ j c, p < j → j < q → t[j]? = some c → isPlain c = true) :
    code.after (t.toList.drop p) = code.after (t.toList.drop q) :=
  (after_drop_of_turn hp hturn).trans (after_code_drop hlt h)

end CMode
end Builtin
end Linewise
