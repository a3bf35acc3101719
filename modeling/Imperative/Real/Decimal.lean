import Imperative.Real.Binary

/-!
# Reals as decimals

`ofDecimal` reads a decimal: the double nearest to `digits * 10 ^ exponent`.
`shortest` writes one: among all decimals that read back as a given double it
takes those with the fewest digits, and among these the nearest.  `Layout` says how
such a decimal is set: positionally in a middle range of sizes, and with an
exponent outside it.
-/

namespace Imperative.Real

/-- The decimal `digits * 10 ^ exponent`. -/
structure Decimal where
  digits : Nat
  exponent : Int

def digitCount (number : Nat) : Nat :=
  if number = 0 then 0 else (Nat.toDigits 10 number).length

/--
The double nearest to a decimal.  A decimal of `10 ^ 310` and more is infinite and
one below `10 ^ -330` is zero, whatever its digits.
-/
def ofDecimal (decimal : Decimal) : Float :=
  let size := (digitCount decimal.digits : Int) + decimal.exponent
  if decimal.digits = 0 ∨ size < -330 then
    0.0
  else if 310 < size then
    Float.ofBits 0x7ff0000000000000
  else
    Float.ofScientific decimal.digits (decide (decimal.exponent < 0)) decimal.exponent.natAbs

/-! ## The fewest digits -/

/--
The decimals that read back as one double: those between `low` and `high`, in units
of `1 / unit`, with the ends if `closed`; `value` is the double itself.
-/
structure Interval where
  low : Nat
  value : Nat
  high : Nat
  unit : Nat
  closed : Bool

/--
The interval of a positive finite double.  Its ends lie halfway to the neighbouring
doubles; the one below a power of two is only half as far away.
-/
def interval (bits : UInt64) : Interval :=
  let whole := magnitude bits
  let narrow := fraction bits = 0 ∧ 1 < biasedExponent bits
  -- Everything is counted in quarters of the last place.
  let grow := Nat.pow 2 (whole.exponent - 2).toNat
  { low := (4 * whole.significand - if narrow then 1 else 2) * grow
    value := 4 * whole.significand * grow
    high := (4 * whole.significand + 2) * grow
    unit := Nat.pow 2 (2 - whole.exponent).toNat
    closed := whole.significand % 2 = 0 }

/-- The grid of multiples of `10 ^ exponent`: `point` is scaled to compare with `scale`. -/
structure Grid where
  point : Nat
  scale : Nat

def grid (unit : Nat) (exponent : Int) : Grid :=
  { point := unit * Nat.pow 10 exponent.toNat, scale := Nat.pow 10 (-exponent).toNat }

def Interval.holds (range : Interval) (steps : Grid) (count : Nat) : Bool :=
  let reached := count * steps.point
  if range.closed then
    decide (range.low * steps.scale ≤ reached) && decide (reached ≤ range.high * steps.scale)
  else
    decide (range.low * steps.scale < reached) && decide (reached < range.high * steps.scale)

/--
The decimal on the grid of `10 ^ exponent` that is nearest to the double, if one of the
two neighbours on the grid reads back; a tie goes to the greater one.
-/
def Interval.nearest (range : Interval) (exponent : Int) : Option Decimal :=
  let steps := grid range.unit exponent
  let target := range.value * steps.scale
  let below := target / steps.point
  let above := below + 1
  let toBelow := target - below * steps.point
  let toAbove := above * steps.point - target
  match range.holds steps below, range.holds steps above with
  | true, true => some { digits := if toBelow < toAbove then below else above, exponent }
  | true, false => some { digits := below, exponent }
  | false, true => some { digits := above, exponent }
  | false, false => none

/-- The least `exponent` with `number < 10 ^ exponent * unit`, looked for from `-candidates`. -/
def leastPower (number unit : Nat) : Nat → Int
  | 0 => 0
  | candidates + 1 =>
    if number * Nat.pow 10 candidates < unit then -(candidates : Int)
    else leastPower number unit candidates

def Interval.size (range : Interval) : Int :=
  if range.unit ≤ range.value then digitCount (range.value / range.unit)
  else leastPower range.value range.unit 330

def Interval.search (range : Interval) (size : Int) : List Nat → Option Decimal
  | [] => none
  | count :: counts =>
    match range.nearest (size - count) with
    | some decimal => some decimal
    | none => range.search size counts

def Decimal.trim (decimal : Decimal) : Nat → Decimal
  | 0 => decimal
  | fuel + 1 =>
    if decimal.digits % 10 = 0 then
      Decimal.trim { digits := decimal.digits / 10, exponent := decimal.exponent + 1 } fuel
    else decimal

/--
The decimal with the fewest digits that reads back as the magnitude of a finite
double, the nearest one of these.
-/
def shortest (bits : UInt64) : Decimal :=
  if (magnitude bits).significand = 0 then { digits := 0, exponent := 0 }
  else
    let range := interval bits
    match range.search range.size ((List.range 17).map (· + 1)) with
    | some decimal => decimal.trim 18
    | none => { digits := range.value, exponent := 0 }

/-! ## Layout -/

/--
How decimals are set.  A decimal in `[10 ^ positionalFrom, 10 ^ positionalBelow)`, and
zero, is written positionally with at least one decimal place; any other is written
with one digit before the point and an exponent.
-/
structure Layout where
  positionalFrom : Int
  positionalBelow : Int
  exponentMark : String
  notANumber : String
  infinity : String

def zeros (count : Nat) : String :=
  String.ofList (List.replicate count '0')

def Decimal.positional (decimal : Decimal) : String :=
  let text := Nat.repr decimal.digits
  if 0 ≤ decimal.exponent then
    text ++ zeros decimal.exponent.toNat ++ ".0"
  else
    let places := (-decimal.exponent).toNat
    let padded := zeros (places + 1 - text.length) ++ text
    let whole := padded.toList.take (padded.length - places)
    let part := padded.toList.drop (padded.length - places)
    String.ofList whole ++ "." ++ String.ofList part

def Decimal.scientific (decimal : Decimal) (mark : String) : String :=
  let text := (Nat.repr decimal.digits).toList
  let exponent := decimal.exponent + (text.length : Int) - 1
  let part := text.drop 1
  String.ofList (text.take 1) ++ (if part.isEmpty then "" else "." ++ String.ofList part) ++
    mark ++ toString exponent

/-- A double as text: the fewest digits that read back, set by the layout. -/
def Layout.write (layout : Layout) (value : Float) : String :=
  if value.isNaN then layout.notANumber
  else
    let bits := value.toBits
    let sign := if isNegative bits then "-" else ""
    if value.isInf then sign ++ layout.infinity
    else
      let decimal := shortest bits
      let size := (digitCount decimal.digits : Int) + decimal.exponent
      if decimal.digits = 0 ∨ (layout.positionalFrom < size ∧ size ≤ layout.positionalBelow) then
        sign ++ decimal.positional
      else
        sign ++ decimal.scientific layout.exponentMark

end Imperative.Real
