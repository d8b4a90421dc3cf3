import TypeCatalog.Primitive

/-!
The cost of passing an argument of one type to a parameter of another. Only equal types and
conversions between numeric built-in types are possible; a cheaper rank is closer to the
declared type.
-/
namespace TypeCatalog

/-- What it costs to pass one argument. A narrowing conversion may lose range or precision. -/
structure ParamRank where
  cost : Nat
  narrowing : Bool
deriving DecidableEq

namespace ParamRank

def exactCost : Nat := 0
/-- The same class and a wider type. -/
def promotionCost : Nat := 1
/-- The same class and width under another name, or an integer to a float. -/
def conversionCost : Nat := 3
/-- A narrower type of the same class, or a change of signedness. -/
def signOrNarrowingCost : Nat := 4
def floatToIntegerCost : Nat := 5
def notViableCost : Nat := 1000

def exact : ParamRank := ⟨exactCost, false⟩
def notViable : ParamRank := ⟨notViableCost, false⟩

def isExact (r : ParamRank) : Bool := r.cost == exactCost
def isViable (r : ParamRank) : Bool := r.cost < notViableCost

/-- The rank between two different numeric types of these classes and byte widths. -/
def ofClasses (source target : NumericClass) (sourceBytes targetBytes : Nat) : ParamRank :=
  if source = target then
    if sourceBytes < targetBytes then ⟨promotionCost, false⟩
    else if targetBytes = sourceBytes then ⟨conversionCost, false⟩
    else ⟨signOrNarrowingCost, true⟩
  else match source, target with
    | _, .float => ⟨conversionCost, false⟩
    | .float, _ => ⟨floatToIntegerCost, true⟩
    | _, _ => ⟨signOrNarrowingCost, targetBytes < sourceBytes⟩

def ofPrimitives (source target : PrimitiveKind) : ParamRank :=
  if source = target then exact
  else match source.numericClass?, target.numericClass? with
    | some s, some t => ofClasses s t source.rank target.rank
    | _, _ => notViable

end ParamRank

/-- The rank of passing a value of type `source` to a parameter of type `target`. -/
def rank (source target : TypeHash) : ParamRank :=
  if source = target then .exact
  else match PrimitiveKind.ofHash? source, PrimitiveKind.ofHash? target with
    | some s, some t => .ofPrimitives s t
    | _, _ => .notViable

end TypeCatalog
