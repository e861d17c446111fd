/-!
# Double precision numbers

Binary floating-point numbers of 53 significant bits, held as exact integers.

* `Double`: a finite number `± significand · 2 ^ exponent`, an infinity, or no number at all;
* `Double.round`: the number nearest to a quotient of naturals, a tie going to the even significand;
* `Double.ofInt?`, `Double.ofDecimal`: integers and decimals as numbers;
* `Double.add`, `Double.toInt?`: the exact sum rounded once, and the integral value if there is one.

Finite numbers made here are in normal form: the significand is below `2 ^ 53`, and it is at least
`2 ^ 52` unless the exponent is the least one, `-1074`.
-/

namespace RuleTree

/-- A double precision number. -/
inductive Double
  | finite (negative : Bool) (significand : Nat) (exponent : Int)
  | infinite (negative : Bool)
  | notNumber
  deriving DecidableEq

namespace Double

/-- The least exponent of a finite number. -/
def minExponent : Int := -1074

/-- The greatest exponent of a finite number. -/
def maxExponent : Int := 971

/-- The quotient to the nearest natural, a half going to the even neighbour. -/
def roundQuotient (num den : Nat) : Nat :=
  let q := num / den
  let r := num % den
  if 2 * r < den then q else if den < 2 * r then q + 1 else q + q % 2

/-- The greatest `e` with `2 ^ e ≤ num / den`, for positive `num` and `den`. -/
def binaryExponent (num den : Nat) : Int :=
  let e : Int := num.log2 - den.log2
  if num * Nat.pow 2 (-e).toNat < den * Nat.pow 2 e.toNat then e - 1 else e

/-- The number nearest to `± num / den`. -/
def round (negative : Bool) (num den : Nat) : Double :=
  if num = 0 then .finite negative 0 minExponent
  else
    let q := max (binaryExponent num den - 52) minExponent
    let m := roundQuotient (num * Nat.pow 2 (-q).toNat) (den * Nat.pow 2 q.toNat)
    let (m, q) := if m = Nat.pow 2 53 then (Nat.pow 2 52, q + 1) else (m, q)
    if maxExponent < q then .infinite negative else .finite negative m q

/-- Whether a number is finite. -/
def isFinite : Double → Bool
  | .finite _ _ _ => true
  | _ => false

/-- The number nearest to an integer, which must not lie beyond all finite numbers. -/
def ofInt? (n : Int) : Option Double :=
  let x := round (decide (n < 0)) n.natAbs 1
  if x.isFinite then some x else none

/-- The number nearest to `± digits · 10 ^ exponent`. Far outside the range of finite numbers the
power of ten is not computed. -/
def ofDecimal (negative : Bool) (digits : Nat) (exponent : Int) : Double :=
  let magnitude : Int := (Nat.toDigits 10 digits).length + exponent
  if digits = 0 ∨ magnitude < -400 then .finite negative 0 minExponent
  else if 400 < magnitude then .infinite negative
  else round negative (digits * Nat.pow 10 exponent.toNat) (Nat.pow 10 (-exponent).toNat)

/-- Whether a number is zero, of either sign. -/
def isZero : Double → Bool
  | .finite _ m _ => m == 0
  | _ => false

/-- The integer that a number is equal to. -/
def toInt? : Double → Option Int
  | .finite negative m q =>
    let sign : Int := if negative then -1 else 1
    if 0 ≤ q then some (sign * (m * Nat.pow 2 q.toNat : Nat))
    else if m % Nat.pow 2 (-q).toNat = 0 then some (sign * (m / Nat.pow 2 (-q).toNat : Nat))
    else none
  | _ => none

/-- The sum, exact and then rounded once. -/
def add : Double → Double → Double
  | .notNumber, _ => .notNumber
  | _, .notNumber => .notNumber
  | .infinite a, .infinite b => if a = b then .infinite a else .notNumber
  | .infinite a, _ => .infinite a
  | _, .infinite b => .infinite b
  | .finite a m p, .finite b n q =>
    let low := min p q
    let x : Int := (if a then -1 else 1) * (m * Nat.pow 2 (p - low).toNat : Nat)
    let y : Int := (if b then -1 else 1) * (n * Nat.pow 2 (q - low).toNat : Nat)
    let sum := x + y
    let negative := if sum = 0 then a && b else decide (sum < 0)
    round negative (sum.natAbs * Nat.pow 2 low.toNat) (Nat.pow 2 (-low).toNat)

end Double

end RuleTree
