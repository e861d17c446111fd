import RuleTree.Decimal.Double

/-!
# Shortest decimal text

The text of a double precision number has the fewest digits that read back to the number.

* `Decimal`: significant digits and the power of ten of the first of them;
* `Decimal.shortest`: the shortest decimal in the interval of reals that round to `m · 2 ^ q`, and
  of these the one nearest to it;
* `DecimalLayout`: where positional writing ends and how wide exponents are;
* `Double.text`: the text of a number under a layout.
-/

namespace RuleTree

/-- Significant decimal digits without trailing zeros; the first counts `10 ^ exponent`. -/
structure Decimal where
  digits : List Char
  exponent : Int
  deriving DecidableEq

namespace Decimal

/-- The decimal `n · 10 ^ scale`. -/
def ofScaled (n : Nat) (scale : Int) : Decimal :=
  let digits := Nat.toDigits 10 n
  { digits := (digits.reverse.dropWhile (· = '0')).reverse
    exponent := scale + digits.length - 1 }

/-- The reals that round to one number, as multiples of `1 / den`: the number itself, the two
ends, and whether the ends belong to it. -/
structure Interval where
  low : Nat
  value : Nat
  high : Nat
  den : Nat
  closed : Bool

/-- The interval of `m · 2 ^ q`. Below a power of two the gap to the neighbour is half as wide. -/
def Interval.of (m : Nat) (q : Int) : Interval :=
  let scale := Nat.pow 2 (q - 2).toNat
  let gap := if m = Nat.pow 2 52 ∧ Double.minExponent < q then 1 else 2
  { low := (4 * m - gap) * scale
    value := 4 * m * scale
    high := (4 * m + 2) * scale
    den := Nat.pow 2 (2 - q).toNat
    closed := m % 2 == 0 }

/-- Whether `n · 10 ^ k` lies in the interval. -/
def Interval.holds (i : Interval) (n : Nat) (k : Int) : Bool :=
  let point := n * i.den * Nat.pow 10 k.toNat
  let unit := Nat.pow 10 (-k).toNat
  if i.closed then i.low * unit ≤ point && point ≤ i.high * unit
  else i.low * unit < point && point < i.high * unit

/-- The power of ten of the value's first digit. -/
def Interval.magnitude (i : Interval) : Int :=
  let whole := i.value / i.den
  if 0 < whole then (Nat.toDigits 10 whole).length - 1
  else
    let inverse := (i.den + i.value - 1) / i.value
    Int.negOfNat (Nat.toDigits 10 (inverse - 1)).length

/-- The nearest multiple of `10 ^ k` that lies in the interval; of two equally near the even one. -/
def Interval.nearest? (i : Interval) (k : Int) : Option Nat :=
  let scaled := i.value * Nat.pow 10 (-k).toNat
  let unit := i.den * Nat.pow 10 k.toNat
  let below := scaled / unit
  match i.holds below k, i.holds (below + 1) k with
  | true, false => some below
  | false, true => some (below + 1)
  | false, false => none
  | true, true =>
    let middle := (2 * below + 1) * unit
    if 2 * scaled < middle then some below
    else if middle < 2 * scaled then some (below + 1)
    else some (below + below % 2)

/-- The decimal with the fewest digits in the interval of `m · 2 ^ q`. Seventeen digits always
suffice; the exact value stands behind them. -/
def shortest (m : Nat) (q : Int) : Decimal :=
  let i := Interval.of m q
  let found := (List.range 17).findSome? fun (n : Nat) =>
    let k := i.magnitude - n
    (i.nearest? k).map (ofScaled · k)
  match found with
  | some d => d
  | none =>
    if 0 ≤ q then ofScaled (m * Nat.pow 2 q.toNat) 0 else ofScaled (m * Nat.pow 5 (-q).toNat) q

end Decimal

/-- How a decimal is laid out: the exponents from `leastPositional` up to `firstScientific`, the
latter excluded, are written positionally, all others with an exponent of at least
`exponentWidth` digits. -/
structure DecimalLayout where
  leastPositional : Int
  firstScientific : Int
  exponentWidth : Nat

namespace DecimalLayout

/-- Digits padded with zeros on the left. -/
def padLeft (width : Nat) (digits : List Char) : List Char :=
  List.replicate (width - digits.length) '0' ++ digits

/-- Positional text; there is a digit on both sides of the point. -/
def positional (d : Decimal) : List Char :=
  if d.exponent < 0 then
    '0' :: '.' :: (List.replicate (-d.exponent - 1).toNat '0' ++ d.digits)
  else
    let places := d.exponent.toNat + 1
    let whole := d.digits.take places
    let fraction := d.digits.drop places
    whole ++ List.replicate (places - whole.length) '0' ++
      '.' :: (if fraction.isEmpty then ['0'] else fraction)

/-- Scientific text; the point is written only before further digits. -/
def scientific (layout : DecimalLayout) (d : Decimal) : List Char :=
  let mantissa := match d.digits with
    | [] => ['0']
    | [c] => [c]
    | c :: cs => c :: '.' :: cs
  let sign := if d.exponent < 0 then '-' else '+'
  mantissa ++ 'e' :: sign :: padLeft layout.exponentWidth (Nat.toDigits 10 d.exponent.natAbs)

/-- The text of a decimal. -/
def render (layout : DecimalLayout) (d : Decimal) : List Char :=
  if layout.leastPositional ≤ d.exponent ∧ d.exponent < layout.firstScientific then positional d
  else layout.scientific d

end DecimalLayout

/-- The text of a number. Zero keeps its sign. -/
def Double.text (layout : DecimalLayout) : Double → String
  | .notNumber => "nan"
  | .infinite negative => if negative then "-inf" else "inf"
  | .finite negative m q =>
    let digits :=
      if m = 0 then ['0', '.', '0'] else layout.render (Decimal.shortest m q)
    String.ofList (if negative then '-' :: digits else digits)

end RuleTree
