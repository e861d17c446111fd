/-!
# Numerals

What is common to all numbers that are written as text.

* `digitZeros`, `digitOf?`: the decimal digits of all scripts;
* `isPlainBlank`, `isWideBlank`: the characters that may surround a number;
* `numeral?`: a text without the blanks around it and with digits of one script only;
* `dropSeparators?`: a numeral without the underscores between its digits.
-/

namespace RuleTree.Text

/-- The digits for zero; the other nine follow each of them. -/
def digitZeros : List Nat := [
  0x30, 0x660, 0x6f0, 0x7c0, 0x966, 0x9e6, 0xa66, 0xae6, 0xb66, 0xbe6, 0xc66, 0xce6, 0xd66, 0xde6,
  0xe50, 0xed0, 0xf20, 0x1040, 0x1090, 0x17e0, 0x1810, 0x1946, 0x19d0, 0x1a80, 0x1a90, 0x1b50,
  0x1bb0, 0x1c40, 0x1c50, 0xa620, 0xa8d0, 0xa900, 0xa9d0, 0xa9f0, 0xaa50, 0xabf0, 0xff10, 0x104a0,
  0x10d30, 0x11066, 0x110f0, 0x11136, 0x111d0, 0x112f0, 0x11450, 0x114d0, 0x11650, 0x116c0,
  0x11730, 0x118e0, 0x11950, 0x11c50, 0x11d50, 0x11da0, 0x16a60, 0x16ac0, 0x16b50, 0x1d7ce,
  0x1d7d8, 0x1d7e2, 0x1d7ec, 0x1d7f6, 0x1e140, 0x1e2f0, 0x1e950, 0x1fbf0]

/-- The decimal digit that a character stands for. -/
def digitOf? (c : Char) : Option Nat :=
  (digitZeros.find? fun n => n ≤ c.toNat && c.toNat < n + 10).map (c.toNat - ·)

/-- Whether a character is one of the blanks of the basic alphabet. -/
def isPlainBlank (c : Char) : Bool := [0x9, 0xa, 0xb, 0xc, 0xd, 0x20].contains c.toNat

/-- Whether a character is one of the blanks outside of the basic alphabet. -/
def isWideBlank (c : Char) : Bool :=
  [0x85, 0xa0, 0x1680, 0x2028, 0x2029, 0x202f, 0x205f, 0x3000].contains c.toNat
    || (0x2000 ≤ c.toNat && c.toNat ≤ 0x200a)

/-- A character of a numeral in the basic alphabet, blanks as spaces. -/
def plainChar? (c : Char) : Option Char :=
  if c.toNat < 0x80 then some c
  else if isWideBlank c then some ' '
  else (digitOf? c).map fun digit => Char.ofNat ('0'.toNat + digit)

/-- A text in the basic alphabet, without the blanks around it. -/
def numeral? (text : String) : Option (List Char) :=
  (text.toList.mapM plainChar?).map fun cs =>
    ((cs.dropWhile isPlainBlank).reverse.dropWhile isPlainBlank).reverse

/-- A numeral without its underscores, each of which must stand between two digits. -/
def dropSeparators? (afterDigit : Bool) : List Char → Option (List Char)
  | [] => some []
  | '_' :: c :: rest =>
    if afterDigit && c.isDigit then (dropSeparators? true rest).map (c :: ·) else none
  | c :: rest => if c = '_' then none else (dropSeparators? c.isDigit rest).map (c :: ·)

end RuleTree.Text
