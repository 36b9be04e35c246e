/-!
# Byte classes

The classes of bytes that patterns and the tokenizer speak of. They are about single bytes: a byte
at or above `0x80` belongs to none of them, and where a rule treats such bytes as letters it says so
itself.
-/

namespace Linewise
namespace Ascii

/-- One of `a` to `z`. -/
def isLower (b : UInt8) : Bool := 0x61 ≤ b && b ≤ 0x7A

/-- One of `A` to `Z`. -/
def isUpper (b : UInt8) : Bool := 0x41 ≤ b && b ≤ 0x5A

/-- An ASCII letter. -/
def isAlpha (b : UInt8) : Bool := isLower b || isUpper b

/-- One of `0` to `9`. -/
def isDigit (b : UInt8) : Bool := 0x30 ≤ b && b ≤ 0x39

/-- An ASCII letter or digit. -/
def isAlnum (b : UInt8) : Bool := isAlpha b || isDigit b

/-- A hexadecimal digit in either case. -/
def isHexDigit (b : UInt8) : Bool :=
  isDigit b || (0x41 ≤ b && b ≤ 0x46) || (0x61 ≤ b && b ≤ 0x66)

/-- A control byte: below the space, or `0x7F`. -/
def isControl (b : UInt8) : Bool := b < 0x20 || b == 0x7F

/-- A byte with a visible glyph: `!` to `~`. -/
def isGraphic (b : UInt8) : Bool := 0x21 ≤ b && b ≤ 0x7E

/-- A visible byte that is neither a letter nor a digit. -/
def isPunct (b : UInt8) : Bool := isGraphic b && !isAlnum b

/-- The space and the control bytes from tab to carriage return. -/
def isSpace (b : UInt8) : Bool := b == 0x20 || (0x09 ≤ b && b ≤ 0x0D)

/-- A byte of an identifier: a letter, a digit or the underscore. -/
def isWord (b : UInt8) : Bool := isAlnum b || b == 0x5F

/-- The lower-case form of an ASCII letter; any other byte is unchanged. -/
def toLower (b : UInt8) : UInt8 := if isUpper b then b + 0x20 else b

end Ascii
end Linewise
