/-!
The shortest decimal text of a 64-bit float.

A float stands for an interval of reals: those that are nearer to it than to any other float. The
text is the point of the coarsest decimal grid that lies in the interval, and of two such points
the nearer; a half goes up. It is written without an exponent.
-/
namespace TypeCatalog.Decimal

/-- The reals `low / den` to `high / den` that round to the float `value / den`. -/
structure Interval where
  low : Nat
  value : Nat
  high : Nat
  den : Nat
  /-- Whether the two ends round to the float as well. -/
  closed : Bool

namespace Interval

/-- The interval of the float `mantissa * 2 ^ exponent`. At a power of two the next float below
is half as far away as the next above. -/
def ofFloat (mantissa : Nat) (exponent : Int) (lowerGapHalved : Bool) : Interval :=
  let up := (exponent - 2).toNat
  { low := (4 * mantissa - if lowerGapHalved then 1 else 2) <<< up
    value := (4 * mantissa) <<< up
    high := (4 * mantissa + 2) <<< up
    den := 1 <<< (2 - exponent).toNat
    closed := mantissa % 2 == 0 }

def contains (i : Interval) (point : Nat) : Bool :=
  if i.closed then i.low ≤ point && point ≤ i.high else i.low < point && point < i.high

def inUnits (i : Interval) (exponent : Int) : Interval :=
  let down := Nat.pow 10 (-exponent).toNat
  { low := i.low * down
    value := i.value * down
    high := i.high * down
    den := i.den * Nat.pow 10 exponent.toNat
    closed := i.closed }

/-- The whole number in the interval that is nearest to its float. -/
def nearestWhole? (i : Interval) : Option Nat :=
  let below := i.value / i.den
  match i.contains (below * i.den), i.contains ((below + 1) * i.den) with
  | true, true => some (if 2 * (i.value % i.den) < i.den then below else below + 1)
  | true, false => some below
  | false, true => some (below + 1)
  | false, false => none

end Interval

structure Scaled where
  coefficient : Nat
  exponent : Int

/-- The exponents of the decimal grids to try, coarsest first. -/
def gridExponents : List Int := (List.range 651).map fun k : Nat => 308 - (k : Int)

def Interval.shortest? (i : Interval) : Option Scaled :=
  gridExponents.findSome? fun exponent =>
    (i.inUnits exponent).nearestWhole?.map fun coefficient => ⟨coefficient, exponent⟩

def Scaled.text (d : Scaled) : String :=
  let digits := Nat.toDigits 10 d.coefficient
  let places := (-d.exponent).toNat
  if places = 0 then String.ofList (digits ++ List.replicate d.exponent.toNat '0')
  else
    let padded := List.replicate (places + 1 - digits.length) '0' ++ digits
    let whole := padded.length - places
    String.ofList (padded.take whole ++ '.' :: padded.drop whole)

def doubleText (bits : UInt64) : String :=
  let fraction := (bits &&& 0xfffffffffffff).toNat
  let exponent := ((bits >>> 52) &&& 0x7ff).toNat
  let sign := if bits >>> 63 = 0 then "" else "-"
  if exponent = 0x7ff then
    if fraction = 0 then sign ++ "inf" else "NaN"
  else if exponent = 0 ∧ fraction = 0 then sign ++ "0"
  else
    let mantissa := if exponent = 0 then fraction else fraction + 0x10000000000000
    let interval :=
      Interval.ofFloat mantissa ((max exponent 1 : Nat) - 1075 : Int)
        (fraction = 0 && 1 < exponent)
    match interval.shortest? with
    | some decimal => sign ++ decimal.text
    | none => sign ++ "0"

end TypeCatalog.Decimal
