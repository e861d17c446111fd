import RuleTree.Decimal.Double
import RuleTree.Error
import RuleTree.Text.Numeral

/-!
# Reading and writing numbers

* `Double.read`: decimal text as a double precision number;
* `readInteger`, `writeInteger`: integers from and to decimal text;
* `maxDigits`: how long an integer may be to be read or written.

Blanks may stand around a number, single underscores between its digits, and the digits may be those
of any script.
-/

namespace RuleTree

/-- The characters of a number in text, without blanks around them and underscores among them. -/
def numberChars? (text : String) : Option (List Char) :=
  (Text.numeral? text).bind (Text.dropSeparators? false)

/-- A leading sign, and what follows it. -/
def splitSign : List Char → Bool × List Char
  | '-' :: rest => (true, rest)
  | '+' :: rest => (false, rest)
  | cs => (false, cs)

/-- The longest prefix of decimal digits, and what follows it. -/
def splitDigits (cs : List Char) : List Char × List Char :=
  (cs.takeWhile Char.isDigit, cs.dropWhile Char.isDigit)

/-- The value of a list of decimal digits. -/
def digitsValue (cs : List Char) : Nat :=
  cs.foldl (fun n c => 10 * n + (c.toNat - '0'.toNat)) 0

/-- A power of ten after `e` or `E`; nothing stands for `e0`. -/
def parseExponent? : List Char → Option Int
  | [] => some 0
  | c :: cs =>
    if c = 'e' ∨ c = 'E' then
      let (negative, cs) := splitSign cs
      let (digits, rest) := splitDigits cs
      if digits.isEmpty ∨ !rest.isEmpty then none
      else some ((if negative then -1 else 1) * (digitsValue digits : Nat))
    else none

/-- The fraction digits after a point; there need be neither. -/
def splitFraction : List Char → List Char × List Char
  | '.' :: rest => splitDigits rest
  | cs => ([], cs)

/-- The greatest number of digits that an integer is read or written with. -/
def maxDigits : Nat := 4300

/-- Decimal text as an integer: a sign and digits, not too many of them. -/
def readInteger (text : String) : Except Error Int :=
  match (numberChars? text).map splitSign with
  | none => .error .notNumeral
  | some (negative, digits) =>
    if digits.isEmpty || !digits.all Char.isDigit then .error .notNumeral
    else if maxDigits < digits.length then .error .tooManyDigits
    else .ok ((if negative then -1 else 1) * (digitsValue digits : Nat))

/-- An integer in decimal digits, unless it has too many. -/
def writeInteger (n : Int) : Except Error String :=
  if n.natAbs < Nat.pow 10 maxDigits then .ok (toString n) else .error .tooManyDigits

/-- The number that decimal text stands for, if it stands for any. -/
def Double.read? (text : String) : Option Double := do
  let (negative, cs) := splitSign (← numberChars? text)
  let word := String.ofList (cs.map Char.toLower)
  if word = "inf" ∨ word = "infinity" then some (.infinite negative)
  else if word = "nan" then some .notNumber
  else
    let (whole, rest) := splitDigits cs
    let (fraction, rest) := splitFraction rest
    if whole.isEmpty ∧ fraction.isEmpty then none
    else (parseExponent? rest).map fun e =>
      .ofDecimal negative (digitsValue (whole ++ fraction)) (e - fraction.length)

/-- Decimal text as a double precision number: a sign, then `inf`, `infinity`, `nan`, or digits with
an optional fraction and an optional power of ten. -/
def Double.read (text : String) : Except Error Double :=
  match Double.read? text with
  | some x => .ok x
  | none => .error .notNumeral

end RuleTree
