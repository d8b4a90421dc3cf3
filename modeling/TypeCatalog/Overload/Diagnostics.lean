/-!
What an overload resolution found out about each candidate, and the one that came closest.
-/
namespace TypeCatalog

inductive DiagnosticCode where
  | ok
  | arityMismatch
  | notConvertible
deriving DecidableEq, Inhabited

def DiagnosticCode.name : DiagnosticCode → String
  | .ok => "Ok"
  | .arityMismatch => "ArityMismatch"
  | .notConvertible => "NotConvertible"

/-- Why a candidate can or cannot take the arguments; `argument` is the first that fails. -/
structure CandidateDiagnostic where
  candidate : Nat
  code : DiagnosticCode
  argument : Option Nat
  arity : Nat
  cost : Nat
deriving DecidableEq, Inhabited

def CandidateDiagnostic.text (d : CandidateDiagnostic) : String :=
  let verdict := match d.code, d.argument with
    | .ok, _ => s!"viable (cost {d.cost})"
    | .arityMismatch, _ => s!"expects {d.arity} argument(s)"
    | .notConvertible, some index => s!"argument {index} is not convertible"
    | .notConvertible, none => "arguments are not convertible"
  s!"candidate #{d.candidate}: {verdict}"

/-- One diagnostic per candidate, and the position among them of the closest. -/
structure OverloadDiagnostics where
  candidates : List CandidateDiagnostic
  closest : Option Nat
deriving DecidableEq, Inhabited

namespace OverloadDiagnostics

def closestCandidate? (d : OverloadDiagnostics) : Option CandidateDiagnostic :=
  d.closest.bind (d.candidates[·]?)

def isEmpty (d : OverloadDiagnostics) : Bool := d.candidates.isEmpty

def text (d : OverloadDiagnostics) : String :=
  if d.isEmpty then "no candidates"
  else
    let closest := match d.closestCandidate? with
      | some c => s!" (closest: #{c.candidate})"
      | none => ""
    "; ".intercalate (d.candidates.map CandidateDiagnostic.text) ++ closest

end OverloadDiagnostics

end TypeCatalog
