/-!
# Texts

A text is a sequence of bytes. Nothing here assumes that the bytes are valid UTF-8: lines come from
files, and a line that was cut or damaged still has to be labelled. What UTF-8 contributes is the
notion of a *character start*: a byte that is not a continuation byte, that is, not of the form
`10xxxxxx`. `charStart` moves a position forward to the next such byte, and every matcher that
advances by characters advances with it.
-/

namespace Linewise

/-- A text: any sequence of bytes, whether or not it is valid UTF-8. -/
abbrev Text := Array UInt8

namespace Text

/-- The UTF-8 bytes of a string. -/
def ofString (s : String) : Text := s.toUTF8.data

/-- The string whose UTF-8 bytes these are, when they are valid UTF-8. -/
def toString? (t : Text) : Option String := String.fromUTF8? ⟨t⟩

/-- A byte of the form `10xxxxxx`: inside a character, never at its start. -/
def isContinuation (b : UInt8) : Bool := b &&& 0xC0 == 0x80

/-- Moves over at most `n` continuation bytes, starting at position `i`. -/
def skipContinuation (t : Text) : Nat → Nat → Nat
  | 0, i => i
  | n + 1, i => if isContinuation (t.getD i 0) then skipContinuation t n (i + 1) else i

/-- The first character start at or after `i`, or the end of the text if there is none. A position
at or past the end stays where it is. -/
def charStart (t : Text) (i : Nat) : Nat := skipContinuation t (t.size - i) i

/-- The bytes from position `i` up to, but not including, position `j`. -/
def slice (t : Text) (i j : Nat) : Text := t.extract i j

/-- How many bytes in a row, from position `i` on and at most `n`, satisfy `p`. -/
def countWhile (t : Text) (p : UInt8 → Bool) : Nat → Nat → Nat
  | 0, _ => 0
  | n + 1, i => if p (t.getD i 0) then countWhile t p n (i + 1) + 1 else 0

end Text
end Linewise
