import Linewise.Text.Basic

/-!
# Reading one character

A regular expression in its default mode moves by whole characters, so it has to read the character
that starts at a position, and, for word boundaries, the one that ends there. Both readings answer
nothing where the bytes are not a well-formed character: an overlong form, a surrogate, a value past
`0x10FFFF`, a character cut short, or a continuation byte on its own.

The permitted range of the second byte depends on the first one; that is the whole of
well-formedness beyond "the right number of continuation bytes", and `secondBounds` states it.
-/

namespace Linewise
namespace Text

/-- The length that a lead byte announces, or nothing for a byte that starts no character. -/
def leadLength? (b : UInt8) : Option Nat :=
  if b < 0x80 then some 1
  else if b < 0xC2 then none
  else if b < 0xE0 then some 2
  else if b < 0xF0 then some 3
  else if b < 0xF5 then some 4
  else none

/-- The least and the greatest second byte after the lead `b`. The four narrowed leads exclude
overlong forms, surrogates and values past the last code point. -/
def secondBounds (b : UInt8) : UInt8 × UInt8 :=
  if b == 0xE0 then (0xA0, 0xBF)
  else if b == 0xED then (0x80, 0x9F)
  else if b == 0xF0 then (0x90, 0xBF)
  else if b == 0xF4 then (0x80, 0x8F)
  else (0x80, 0xBF)

/-- The payload of a continuation byte, appended to the value read so far. -/
def shiftIn (value : Nat) (b : UInt8) : Nat := value * 64 + (b &&& 0x3F).toNat

/-- The character that starts at `i` and ends at or before `stop`: its code point and its length. -/
def charWithin? (t : Text) (stop i : Nat) : Option (Nat × Nat) :=
  if stop ≤ i then none
  else
    let lead := t.getD i 0
    match leadLength? lead with
    | none => none
    | some 1 => some (lead.toNat, 1)
    | some n =>
      if stop < i + n then none
      else
        let second := t.getD (i + 1) 0
        let (least, most) := secondBounds lead
        if second < least || most < second then none
        else if n = 2 then some (shiftIn (lead &&& 0x1F).toNat second, 2)
        else
          let third := t.getD (i + 2) 0
          if !isContinuation third then none
          else if n = 3 then some (shiftIn (shiftIn (lead &&& 0x0F).toNat second) third, 3)
          else
            let fourth := t.getD (i + 3) 0
            if !isContinuation fourth then none
            else some (shiftIn (shiftIn (shiftIn (lead &&& 0x07).toNat second) third) fourth, 4)

/-- The character that starts at `i`. -/
def charAt? (t : Text) (i : Nat) : Option (Nat × Nat) := charWithin? t t.size i

/-- Where to look for the start of the character that ends at `i`: back over at most `n` bytes as
long as they are continuation bytes. -/
def backToLead (t : Text) : Nat → Nat → Nat
  | 0, i => i
  | n + 1, i => if i ≠ 0 && isContinuation (t.getD i 0) then backToLead t n (i - 1) else i

/-- The code point of the character before position `i`. A character has at most four bytes, so the
search for its start goes back by at most three continuation bytes; it reads nothing at or after
`i`. -/
def charBefore? (t : Text) (i : Nat) : Option Nat :=
  if i = 0 then none
  else (charWithin? t i (backToLead t 3 (i - 1))).map Prod.fst

end Text
end Linewise
