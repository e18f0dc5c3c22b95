/-!
Doubles as exact numbers, and the fewest decimal digits that identify one.

The magnitude of a finite double is `significand * 2 ^ exponent`, and a double that is a whole
number is that number. The real numbers that round to a double form an interval, ends included
exactly when the significand is even. `shortest` looks for the coarsest decimal grid with a point in
that interval and takes the point nearest to the double. All comparisons are between fractions of
natural numbers.
-/

namespace MailRules.Decimal

/-- The magnitude of a finite double. -/
structure Binary where
  significand : Nat
  exponent : Int
  /-- The gap to the double below is half the gap to the one above. -/
  narrow : Bool

/-- The magnitude with the given bits. Infinities and NaN are no magnitudes. -/
def Binary.ofBits (bits : UInt64) : Binary :=
  let e := ((bits >>> 52) &&& 0x7FF).toNat
  let f := (bits &&& 0xFFFFFFFFFFFFF).toNat
  if e = 0 then ⟨f, -1074, false⟩ else ⟨0x10000000000000 + f, (e : Int) - 1075, f = 0 ∧ 1 < e⟩

def isNegative (x : Float) : Bool := x.toBits >>> 63 = 1

/-- The magnitude rounded to a whole number, a half to the even neighbour. -/
def Binary.rounded (b : Binary) : Nat :=
  if 0 ≤ b.exponent then b.significand * Nat.pow 2 b.exponent.toNat
  else
    let unit := Nat.pow 2 (-b.exponent).toNat
    let whole := b.significand / unit
    let rest := 2 * (b.significand % unit)
    if rest < unit ∨ (rest = unit ∧ whole % 2 = 0) then whole else whole + 1

/-- The magnitude as a whole number, if it is one. -/
def Binary.whole? (b : Binary) : Option Nat :=
  if 0 ≤ b.exponent then some (b.significand * Nat.pow 2 b.exponent.toNat)
  else
    let unit := Nat.pow 2 (-b.exponent).toNat
    if b.significand % unit = 0 then some (b.significand / unit) else none

def signed (x : Float) (n : Nat) : Int := if isNegative x then -(n : Int) else n

/-- The whole number that a finite double is. -/
def whole? (x : Float) : Option Int := (Binary.ofBits x.toBits).whole?.map (signed x)

/-- A finite double rounded to a whole number, a half to the even neighbour. -/
def roundedHalfEven (x : Float) : Int := signed x (Binary.ofBits x.toBits).rounded

/-- The double `m * 10 ^ e`. Beyond the range of doubles the power is not worked out. -/
def toDouble (m : Nat) (e : Int) : Float :=
  let places := ((Nat.toDigits 10 m).length : Int) + e
  if m = 0 ∨ places < -400 then 0
  else if 400 < places then 1 / 0
  else Float.ofScientific m (e < 0) e.natAbs

/-! ## The shortest digits -/

structure Fraction where
  num : Nat
  den : Nat

namespace Fraction

/-- `n * base ^ e`. -/
def scaled (n base : Nat) (e : Int) : Fraction :=
  if 0 ≤ e then ⟨n * Nat.pow base e.toNat, 1⟩ else ⟨n, Nat.pow base (-e).toNat⟩

def below (a b : Fraction) : Bool := a.num * b.den < b.num * a.den

def same (a b : Fraction) : Bool := a.num * b.den == b.num * a.den

/-- The fraction divided by `base ^ e`, rounded down. -/
def floorDiv (a : Fraction) (base : Nat) (e : Int) : Nat :=
  if 0 ≤ e then a.num / (a.den * Nat.pow base e.toNat)
  else a.num * Nat.pow base (-e).toNat / a.den

end Fraction

def Binary.value (b : Binary) : Fraction := .scaled b.significand 2 b.exponent

/-- Whether a number rounds to the double. -/
def Binary.reads (b : Binary) (x : Fraction) : Bool :=
  let low := Fraction.scaled (4 * b.significand - if b.narrow then 1 else 2) 2 (b.exponent - 2)
  let high := Fraction.scaled (4 * b.significand + 2) 2 (b.exponent - 2)
  let ends := b.significand % 2 = 0
  (low.below x || (ends && low.same x)) && (x.below high || (ends && x.same high))

/-- A decimal number `digits * 10 ^ exponent`. -/
structure Numeral where
  digits : Nat
  exponent : Int

def Numeral.value (d : Numeral) : Fraction := .scaled d.digits 10 d.exponent

/-- The number of digits before the point: the least `k` with the value below `10 ^ k`. -/
def Binary.magnitude (b : Binary) : Int :=
  let guess := Int.fdiv (((Nat.log2 b.significand : Nat) + b.exponent) * 30103) 100000
  let tries := [guess - 1, guess, guess + 1, guess + 2]
  (tries.find? fun k => b.value.below (.scaled 1 10 k)).getD (guess + 3)

/-- The point of the grid `10 ^ e` that reads back as the double, the nearest if two do, and the
even one if both are equally near. -/
def Binary.onGrid? (b : Binary) (e : Int) : Option Numeral :=
  let d := b.value.floorDiv 10 e
  let lower : Numeral := ⟨d, e⟩
  let upper : Numeral := ⟨d + 1, e⟩
  match b.reads lower.value, b.reads upper.value with
  | true, false => some lower
  | false, true => some upper
  | false, false => none
  | true, true =>
    let middle := Fraction.scaled (2 * d + 1) 10 e
    let twice := Fraction.scaled (2 * b.significand) 2 b.exponent
    if twice.below middle then some lower
    else if twice.same middle && d % 2 == 0 then some lower
    else some upper

/-- The decimal with the fewest digits that reads back as the double; seventeen are always
enough. -/
def Binary.shortest (b : Binary) : Numeral :=
  let k := b.magnitude
  ((List.range 17).findSome? fun n => b.onGrid? (k - (n + 1 : Nat))).getD
    ⟨b.value.floorDiv 10 (k - 17), k - 17⟩

def digitsOf (n : Nat) : List Char := Nat.toDigits 10 n

structure Notation where
  /-- The least and the greatest number of digits before the point that are written positionally. -/
  leastPlaces : Int
  mostPlaces : Int
  /-- The least number of digits of an exponent. -/
  exponentWidth : Nat
  /-- The texts of what is no number and of infinity. -/
  noNumber : String
  infinity : String

/-- A text of at least the given width, with zeros in front. -/
def padded (width : Nat) (digits : List Char) : List Char :=
  List.replicate (width - digits.length) '0' ++ digits

/-- A list of digits with a point after the first `places`, and a digit on either side of it. -/
def positional (digits : List Char) (places : Int) : List Char :=
  if places ≤ 0 then '0' :: '.' :: (List.replicate (-places).toNat '0' ++ digits)
  else
    let n := places.toNat
    if digits.length ≤ n then digits ++ List.replicate (n - digits.length) '0' ++ ['.', '0']
    else digits.take n ++ '.' :: digits.drop n

/-- A list of digits with a point after the first, followed by an exponent. -/
def scientific (width : Nat) (digits : List Char) (exponent : Int) : List Char :=
  let head := match digits with
    | [] => []
    | [d] => [d]
    | d :: ds => d :: '.' :: ds
  let sign := if exponent < 0 then '-' else '+'
  head ++ 'e' :: sign :: padded width (digitsOf exponent.natAbs)

/-- The digits of a decimal without the zeros at its end, and the number of them before the
point. -/
def significant (d : Numeral) : List Char × Int :=
  let all := digitsOf d.digits
  ((all.reverse.dropWhile (· = '0')).reverse, d.exponent + all.length)

def textOf (layout : Notation) (x : Float) : String :=
  if x.isNaN then layout.noNumber
  else
    let sign := if isNegative x then ['-'] else []
    if x.isInf then String.ofList (sign ++ layout.infinity.toList)
    else
      let b := Binary.ofBits x.toBits
      if b.significand = 0 then String.ofList (sign ++ ['0', '.', '0'])
      else
        let (digits, places) := significant b.shortest
        let body :=
          if layout.leastPlaces ≤ places ∧ places ≤ layout.mostPlaces then positional digits places
          else scientific layout.exponentWidth digits (places - 1)
        String.ofList (sign ++ body)

end MailRules.Decimal
