import Linewise.Unicode.Letters
import Linewise.Unicode.Marks
import Linewise.Unicode.Numbers

/-!
# The classes that patterns name

A word character is a letter, a mark, a decimal digit, a connector such as the underscore, or one of
the two joiners. A space is any code point with the property `White_Space`. The classes extend the
ASCII ones: on code points below `0x80` they hold the letters, digits and the underscore, the
digits, and the six usual blanks.
-/

namespace Linewise
namespace Unicode

/-- The code points of the category `Pc`. -/
def connectors : Ranges :=
  [(0x5F, 0x5F), (0x203F, 0x2040), (0x2054, 0x2054), (0xFE33, 0xFE34), (0xFE4D, 0xFE4F),
    (0xFF3F, 0xFF3F)]

/-- The zero-width joiner and non-joiner. -/
def joiners : Ranges := [(0x200C, 0x200D)]

/-- The code points with the property `White_Space`. -/
def spaces : Ranges :=
  [(0x9, 0xD), (0x20, 0x20), (0x85, 0x85), (0xA0, 0xA0), (0x1680, 0x1680), (0x2000, 0x200A),
    (0x2028, 0x2029), (0x202F, 0x202F), (0x205F, 0x205F), (0x3000, 0x3000)]

/-- A letter. -/
def isAlphabetic (c : Nat) : Bool := alphabetic.contains c

/-- A letter or a number of any kind. -/
def isAlphanumeric (c : Nat) : Bool :=
  alphabetic.contains c || decimalDigits.contains c || otherNumbers.contains c

/-- A decimal digit of any script. -/
def isDigit (c : Nat) : Bool := decimalDigits.contains c

/-- A blank. -/
def isSpace (c : Nat) : Bool := spaces.contains c

/-- A character that words consist of. -/
def isWord (c : Nat) : Bool :=
  alphabetic.contains c || decimalDigits.contains c || connectors.contains c || marks.contains c ||
    joiners.contains c

end Unicode
end Linewise
