/-!
Floating-point numbers of 64 bits, kept as their bits. A finite one is `mantissa * 2 ^ exponent` with
a sign. Its decimal is the shortest that rounds back to it, and of those the nearest; each step of
arithmetic rounds to the nearest number, a tie to the even mantissa.
-/

namespace LedgerWire

structure Binary64 where
  bits : UInt64
  deriving DecidableEq, Repr

namespace Binary64

def signBit : Nat := Nat.pow 2 63

def fractionSize : Nat := Nat.pow 2 52

def isNegative (number : Binary64) : Bool := signBit ≤ number.bits.toNat

def exponentField (number : Binary64) : Nat := number.bits.toNat / fractionSize % 2048

def fraction (number : Binary64) : Nat := number.bits.toNat % fractionSize

def isFinite (number : Binary64) : Bool := number.exponentField != 2047

def mantissa (number : Binary64) : Nat :=
  if number.exponentField = 0 then number.fraction else fractionSize + number.fraction

def exponent (number : Binary64) : Int :=
  if number.exponentField = 0 then -1074 else number.exponentField - 1075

/-- The digits `0.d₁d₂d₃…` times a power of ten, without zeros at either end. -/
structure Decimal where
  digits : List Nat
  point : Int
  deriving DecidableEq, Repr

def ratio (base : Nat) (exponent : Int) : Nat × Nat :=
  (Nat.pow base exponent.toNat, Nat.pow base (-exponent).toNat)

/-- A magnitude in quarters of its last place, with the ends of the interval that rounds to it. -/
structure Interval where
  low : Nat
  middle : Nat
  high : Nat
  closed : Bool
  exponent : Int

def interval (number : Binary64) : Interval :=
  let quarters := 4 * number.mantissa
  let below := if number.fraction = 0 ∧ 1 < number.exponentField then 1 else 2
  { low := quarters - below
    middle := quarters
    high := quarters + 2
    closed := number.mantissa % 2 = 0
    exponent := number.exponent - 2 }

def pointOf (interval : Interval) : Int :=
  let (up, down) := ratio 2 interval.exponent
  (Nat.toDigits 10 (interval.middle * up * Nat.pow 10 400 / down)).length - 400

/-- The multiple of `10 ^ place` in the interval that is nearest to its middle, if there is one: one
of the two neighbours of the middle on that grid. -/
def nearestOnGrid? (interval : Interval) (place : Int) : Option Nat :=
  let (up, down) := ratio 2 interval.exponent
  let (gridUp, gridDown) := ratio 10 place
  let unit := gridUp * down
  let scale := up * gridDown
  let inside (multiple : Nat) : Bool :=
    if interval.closed then
      interval.low * scale ≤ multiple * unit && multiple * unit ≤ interval.high * scale
    else interval.low * scale < multiple * unit && multiple * unit < interval.high * scale
  let below := interval.middle * scale / unit
  let excess := interval.middle * scale % unit
  match inside below, inside (below + 1) with
  | true, true =>
      if 2 * excess < unit ∨ (2 * excess = unit ∧ below % 2 = 0) then some below
      else some (below + 1)
  | true, false => some below
  | false, true => some (below + 1)
  | false, false => none

def digitsOf (value : Nat) : List Nat := (Nat.toDigits 10 value).map fun c => c.toNat - 48

def shortest (number : Binary64) : Decimal :=
  let interval := number.interval
  let point := pointOf interval
  let found := (List.range 17).findSome? fun (count : Nat) =>
    let place := point - (count + 1 : Nat)
    (nearestOnGrid? interval place).map fun multiple => (digitsOf multiple, place)
  match found with
  | some (digits, place) =>
      ⟨(digits.reverse.dropWhile (· == 0)).reverse, digits.length + place⟩
  | none => ⟨[], 0⟩

def digitText (digits : List Nat) : String := String.ofList (digits.map fun d => Char.ofNat (48 + d))

def zeros (count : Nat) : List Nat := List.replicate count 0

def plainText (decimal : Decimal) : String :=
  let size := decimal.digits.length
  if decimal.point ≤ 0 then
    "0." ++ digitText (zeros (-decimal.point).toNat ++ decimal.digits)
  else
    let before := decimal.point.toNat
    if size ≤ before then digitText (decimal.digits ++ zeros (before - size)) ++ ".0"
    else digitText (decimal.digits.take before) ++ "." ++ digitText (decimal.digits.drop before)

def scientificText (decimal : Decimal) : String :=
  let exponent := decimal.point - 1
  let sign := if exponent < 0 then "e-" else "e+"
  let lead := digitText (decimal.digits.take 1)
  let tail := decimal.digits.drop 1
  let fraction := if tail.isEmpty then "" else "." ++ digitText tail
  lead ++ fraction ++ sign ++ toString exponent.natAbs

def text (number : Binary64) : String :=
  let sign := if number.isNegative then "-" else ""
  if number.mantissa = 0 then sign ++ "0.0"
  else
    let decimal := number.shortest
    if -4 ≤ decimal.point ∧ decimal.point ≤ 16 then sign ++ plainText decimal
    else sign ++ scientificText decimal

def roundQuotient (numerator denominator : Nat) : Nat :=
  let below := numerator / denominator
  let excess := numerator % denominator
  if 2 * excess < denominator ∨ (2 * excess = denominator ∧ below % 2 = 0) then below
  else below + 1

def ofParts (negative : Bool) (magnitude : Nat) : Binary64 :=
  ⟨UInt64.ofNat (magnitude + if negative then signBit else 0)⟩

def nearest? (negative : Bool) (numerator denominator : Nat) : Option Binary64 :=
  if numerator = 0 then some (ofParts negative 0)
  else
    let guess : Int := (numerator.log2 : Int) - denominator.log2
    let (guessUp, guessDown) := ratio 2 guess
    let binade := if numerator * guessDown < denominator * guessUp then guess - 1 else guess
    let place := max (binade - 52) (-1074)
    let (placeUp, placeDown) := ratio 2 place
    let rounded := roundQuotient (numerator * placeDown) (denominator * placeUp)
    let magnitude := rounded + (place + 1074).toNat * fractionSize
    if magnitude < 2047 * fractionSize then some (ofParts negative magnitude) else none

def quotient (number : Binary64) : Nat × Nat :=
  let (up, down) := ratio 2 number.exponent
  (number.mantissa * up, down)

def times? (left right : Binary64) : Option Binary64 :=
  let (leftUp, leftDown) := left.quotient
  let (rightUp, rightDown) := right.quotient
  nearest? (left.isNegative != right.isNegative) (leftUp * rightUp) (leftDown * rightDown)

def over? (left right : Binary64) : Option Binary64 :=
  let (leftUp, leftDown) := left.quotient
  let (rightUp, rightDown) := right.quotient
  nearest? (left.isNegative != right.isNegative) (leftUp * rightDown) (leftDown * rightUp)

def maxPower : Nat := 308

def powerOfTen (exponent : Nat) : Binary64 := (nearest? false (Nat.pow 10 exponent) 1).getD ⟨0⟩

def shrunk? (number : Binary64) : Nat → Option Binary64
  | 0 => some number
  | steps + 1 =>
      if number.mantissa = 0 then some number
      else
        match number.over? (powerOfTen maxPower) with
        | some smaller => shrunk? smaller steps
        | none => none

def scaled? (number : Binary64) (exponent : Int) : Option Binary64 :=
  if number.mantissa = 0 then some number
  else if 0 ≤ exponent then
    if exponent ≤ maxPower then number.times? (powerOfTen exponent.toNat) else none
  else
    let size := exponent.natAbs
    let steps := (size - 1) / maxPower
    match shrunk? number steps with
    | some smaller => smaller.over? (powerOfTen (size - steps * maxPower))
    | none => none

/-- The number that stands for `significand * 10 ^ exponent`, unless it is too large. The significand
is rounded first and scaled then, so long decimals may miss the nearest number by a little. -/
def ofDecimal? (negative : Bool) (significand : Nat) (exponent : Int) : Option Binary64 := do
  scaled? (← nearest? negative significand 1) exponent

end Binary64

end LedgerWire
