import RuleTree.Text.Printable

/-!
# Quoted text

Text between quotes on one line, as diagnostics show it.

* `quoteMark`: a single quote, unless the text holds single quotes and no double ones;
* `escapeChar`: a backslash before a backslash and before the quote in use, short forms for line
  feed, carriage return and tab, hexadecimal forms for other characters that are not printable;
* `quoted`: the text between its quotes.
-/

namespace RuleTree.Text

/-- The lower case hexadecimal digits of a number, padded with zeros to a width. -/
def hexDigits (width n : Nat) : List Char :=
  let digits := Nat.toDigits 16 n
  List.replicate (width - digits.length) '0' ++ digits

/-- The hexadecimal form of a character, as wide as its code point needs. -/
def hexEscape (c : Char) : List Char :=
  if c.toNat ≤ 0xff then '\\' :: 'x' :: hexDigits 2 c.toNat
  else if c.toNat ≤ 0xffff then '\\' :: 'u' :: hexDigits 4 c.toNat
  else '\\' :: 'U' :: hexDigits 8 c.toNat

/-- The quote put around a text. -/
def quoteMark (cs : List Char) : Char :=
  if '\'' ∈ cs ∧ '"' ∉ cs then '"' else '\''

/-- A character inside the given quotes. -/
def escapeChar (mark c : Char) : List Char :=
  if c = mark ∨ c = '\\' then ['\\', c]
  else if c = '\n' then ['\\', 'n']
  else if c = '\r' then ['\\', 'r']
  else if c = '\t' then ['\\', 't']
  else if isPrintable c then [c]
  else hexEscape c

/-- The text between quotes, on one line. -/
def quoted (text : String) : String :=
  let cs := text.toList
  let mark := quoteMark cs
  String.ofList (mark :: (cs.flatMap (escapeChar mark) ++ [mark]))

end RuleTree.Text
