import Linewise.Toml.Quoted

/-!
# Numbers and dates

A number is decimal with an optional sign, or hexadecimal, octal or binary without one. Digits may
be separated by single underscores, and a decimal integer does not begin with a needless zero. An
integer has to fit into 64 bits with a sign. A number with a fraction or an exponent must not
overflow to positive infinity.

A date has to exist in the calendar, and a time on the clock, where second `60` is allowed as a leap
second. A date may be followed by a time, behind a `T` or a single blank, and the two by an offset.
-/

namespace Linewise
namespace Toml

/-- Reads digits that may be separated by single underscores. The first one must be a digit. -/
def readDigits (base : Nat) : (afterDigit : Bool) → List Char → Option (List Nat × List Char)
  | afterDigit, [] => if afterDigit then some ([], []) else none
  | afterDigit, c :: cs =>
    match digit? base c with
    | some d => (readDigits base true cs).map fun (ds, rest) => (d :: ds, rest)
    | none =>
      if !afterDigit then none
      else if c = '_' then readDigits base false cs
      else some ([], c :: cs)

/-- The number that digits write in a base. -/
def ofDigits (base : Nat) (digits : List Nat) : Nat := digits.foldl (fun n d => n * base + d) 0

/-- The least magnitude that an integer of 64 bits does not have. -/
def integerLimit : Nat := 0x8000000000000000

/-- Reads an integer in the base that a letter after a zero names. -/
def readBased (base : Nat) (cs : List Char) : Parsed Value :=
  (readDigits base false cs).bind fun (digits, rest) =>
    let n := ofDigits base digits
    if n < integerLimit then some (.integer n, rest) else none

/-- Removes a sign: whether it is a minus, and what follows. -/
def readSign : List Char → Bool × List Char
  | '-' :: cs => (true, cs)
  | '+' :: cs => (false, cs)
  | cs => (false, cs)

/-- Reads the digits of a decimal number before its point: a zero alone, or digits that begin with
another one. -/
def readWhole (cs : List Char) : Option (List Nat × List Char) :=
  match cs with
  | '0' :: rest => some ([0], rest)
  | _ => readDigits 10 false cs

/-- Whether `digits` with the decimal point moved right by `exponent` places, or left if it is
negative, is so great that it rounds to infinity. -/
def overflows (digits : List Nat) (exponent : Int) : Bool :=
  let m := ofDigits 10 digits
  if m = 0 then false
  else if 400 < exponent + Int.ofNat digits.length then
    309 < exponent + Int.ofNat (toString m).length
  else
    let limit := Nat.pow 2 1024 - Nat.pow 2 970
    if 0 ≤ exponent then limit ≤ m * Nat.pow 10 exponent.toNat
    else limit * Nat.pow 10 (-exponent).toNat ≤ m

/-- Reads the exponent of a number. -/
def readExponent (cs : List Char) : Parsed Int :=
  let (negative, cs) := readSign cs
  (readDigits 10 false cs).map fun (digits, rest) =>
    let n := Int.ofNat (ofDigits 10 digits)
    (if negative then -n else n, rest)

/-- Finishes a number with a fraction or an exponent. -/
def finishFloat (negative : Bool) (digits : List Nat) (exponent : Int) (rest : List Char) :
    Parsed Value :=
  if !negative && overflows digits exponent then none else some (.float, rest)

/-- Reads the exponent that may follow the digits of a number. -/
def readScaled (negative : Bool) (digits : List Nat) (places : Nat) (cs : List Char) :
    Parsed Value :=
  match cs with
  | c :: rest =>
    if c = 'e' || c = 'E' then
      (readExponent rest).bind fun (e, rest) =>
        finishFloat negative digits (e - Int.ofNat places) rest
    else finishFloat negative digits (-Int.ofNat places) cs
  | [] => finishFloat negative digits (-Int.ofNat places) []

/-- Finishes an integer. -/
def finishInteger (negative : Bool) (digits : List Nat) (rest : List Char) : Parsed Value :=
  let n := ofDigits 10 digits
  if negative then if n ≤ integerLimit then some (.integer (-Int.ofNat n), rest) else none
  else if n < integerLimit then some (.integer n, rest) else none

/-- Reads a decimal number behind its sign. -/
def readDecimal (negative : Bool) (cs : List Char) : Parsed Value :=
  (readWhole cs).bind fun (whole, rest) =>
    match rest with
    | '.' :: more =>
      (readDigits 10 false more).bind fun (fraction, rest) =>
        readScaled negative (whole ++ fraction) fraction.length rest
    | c :: _ =>
      if c = 'e' || c = 'E' then readScaled negative whole 0 rest
      else finishInteger negative whole rest
    | [] => finishInteger negative whole rest

/-- Reads a number. -/
def readNumber (cs : List Char) : Parsed Value :=
  match cs with
  | '0' :: 'x' :: rest => readBased 16 rest
  | '0' :: 'o' :: rest => readBased 8 rest
  | '0' :: 'b' :: rest => readBased 2 rest
  | _ =>
    let (negative, rest) := readSign cs
    match rest with
    | 'i' :: 'n' :: 'f' :: rest => some (.float, rest)
    | 'n' :: 'a' :: 'n' :: rest => some (.float, rest)
    | _ => readDecimal negative rest

/-! ## Dates and times -/

/-- Reads exactly `n` decimal digits. -/
def readFixed : Nat → (value : Nat) → List Char → Parsed Nat
  | 0, value, cs => some (value, cs)
  | _ + 1, _, [] => none
  | n + 1, value, c :: cs => (digit? 10 c).bind fun d => readFixed n (value * 10 + d) cs

/-- Reads two digits of a value between two bounds. -/
def readPart (least most : Nat) (cs : List Char) : Parsed Nat :=
  (readFixed 2 0 cs).filter fun (value, _) => least ≤ value && value ≤ most

/-- The number of days of a month. -/
def daysOf (year month : Nat) : Nat :=
  if month = 2 then
    if year % 4 = 0 && (year % 100 ≠ 0 || year % 400 = 0) then 29 else 28
  else if month = 4 || month = 6 || month = 9 || month = 11 then 30
  else 31

/-- Removes the given character. -/
def expect (c : Char) : List Char → Option (List Char)
  | d :: rest => if d = c then some rest else none
  | [] => none

/-- Reads a date. -/
def readDate (cs : List Char) : Option (List Char) := do
  let (year, cs) ← readFixed 4 0 cs
  let (month, cs) ← readPart 1 12 (← expect '-' cs)
  let (_, cs) ← readPart 1 (daysOf year month) (← expect '-' cs)
  return cs

/-- Reads a time of day. -/
def readTime (cs : List Char) : Option (List Char) := do
  let (_, cs) ← readPart 0 23 cs
  let (_, cs) ← readPart 0 59 (← expect ':' cs)
  let (_, cs) ← readPart 0 60 (← expect ':' cs)
  match cs with
  | '.' :: fraction =>
    if (fraction.takeWhile Char.isDigit).isEmpty then none
    else return fraction.dropWhile Char.isDigit
  | _ => return cs

/-- Reads the offset from universal time, if there is one. -/
def readOffset (cs : List Char) : Option (List Char) :=
  match cs with
  | c :: rest =>
    if c = 'Z' || c = 'z' then some rest
    else if c = '+' || c = '-' then do
      let (_, cs) ← readPart 0 23 rest
      let (_, cs) ← readPart 0 59 (← expect ':' cs)
      return cs
    else some cs
  | [] => some []

/-- Whether a date begins here: four digits and a hyphen. -/
def looksLikeDate (cs : List Char) : Bool :=
  match readFixed 4 0 cs with
  | some (_, '-' :: _) => true
  | _ => false

/-- Whether a time begins here: two digits and a colon. -/
def looksLikeTime (cs : List Char) : Bool :=
  match readFixed 2 0 cs with
  | some (_, ':' :: _) => true
  | _ => false

/-- Reads the time that may follow a date. A blank behind a date belongs to it only if a time does
follow. -/
def readTimeOfDate (cs : List Char) : Option (List Char) :=
  match cs with
  | c :: rest =>
    if (c = 'T' || c = 't' || c = ' ') && looksLikeTime rest then (readTime rest).bind readOffset
    else some cs
  | [] => some []

/-- Reads a number, a date or a time. -/
def readNumberOrMoment (cs : List Char) : Parsed Value :=
  if looksLikeDate cs then
    ((readDate cs).bind readTimeOfDate).map fun rest => (.moment, rest)
  else if looksLikeTime cs then (readTime cs).map fun rest => (.moment, rest)
  else readNumber cs

end Toml
end Linewise
