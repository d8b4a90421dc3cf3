import TypeCatalog.Overload.Rank
import TypeCatalog.Overload.Diagnostics

/-!
Choosing among overloads. A candidate is viable when it has the arity of the call and every
argument can be passed to its parameter. Among the viable ones the least score wins: total cost,
then the number of narrowing conversions, then of conversions, then the order of declaration.
-/
namespace TypeCatalog

structure Score where
  cost : Nat
  narrowing : Nat
  conversions : Nat
  index : Nat
deriving DecidableEq

/-- The lexicographic order of scores; a smaller one is better. -/
def Score.Better (a b : Score) : Prop :=
  a.cost < b.cost ∨ a.cost = b.cost ∧
    (a.narrowing < b.narrowing ∨ a.narrowing = b.narrowing ∧
      (a.conversions < b.conversions ∨ a.conversions = b.conversions ∧ a.index < b.index))

instance (a b : Score) : Decidable (a.Better b) := by unfold Score.Better; infer_instance

/-- How an argument reaches its parameter: as it is, or converted on the way. -/
inductive ArgBinding where
  | exact
  | convert
deriving DecidableEq

def ArgBinding.name : ArgBinding → String
  | .exact => "Exact"
  | .convert => "Convert"

inductive Evaluation where
  | viable (score : Score) (bindings : List ArgBinding)
  | arityMismatch
  /-- The first argument that fails, how many fail, and the cost of those that do not. -/
  | notConvertible (first failed viableCost : Nat)

namespace Evaluation

def ofRanks (index : Nat) (ranks : List ParamRank) : Evaluation :=
  let possible := ranks.filter ParamRank.isViable
  let cost := possible.foldr (fun r total => r.cost + total) 0
  match ranks.findIdx? (!·.isViable) with
  | some first => .notConvertible first (ranks.countP (!·.isViable)) cost
  | none =>
    .viable
      ⟨cost, possible.countP ParamRank.narrowing, possible.countP (!·.isExact), index⟩
      (ranks.map fun r => if r.isExact then .exact else .convert)

/-- Ranks the arguments of a call against the parameters of the candidate at `index`. -/
def ofCall (index : Nat) (params args : List TypeHash) : Evaluation :=
  if params.length = args.length then ofRanks index (List.zipWith rank args params)
  else .arityMismatch

def score? : Evaluation → Option (Score × List ArgBinding)
  | .viable score bindings => some (score, bindings)
  | _ => none

/-- How far a candidate is from being callable, only to name the closest one. -/
def distance (params args : List TypeHash) : Evaluation → Nat
  | .viable score _ => score.cost
  | .arityMismatch =>
    10000 + 1000 * ((params.length - args.length) + (args.length - params.length))
  | .notConvertible _ failed viableCost => 1000 * failed + viableCost

def diagnostic (index : Nat) (params : List TypeHash) : Evaluation → CandidateDiagnostic
  | .viable score _ => ⟨index, .ok, none, params.length, score.cost⟩
  | .arityMismatch => ⟨index, .arityMismatch, none, params.length, ParamRank.notViableCost⟩
  | .notConvertible first _ _ =>
    ⟨index, .notConvertible, some first, params.length, ParamRank.notViableCost⟩

end Evaluation

structure Resolution where
  index : Nat
  score : Score
  bindings : List ArgBinding
  diagnostics : OverloadDiagnostics

/-- Whether a call with these bindings needs no conversion. -/
def allExact (bindings : List ArgBinding) : Bool := bindings.all (· = .exact)

def Resolution.isExact (r : Resolution) : Bool := allExact r.bindings

/-- The better of the best score so far and a new one; the earlier wins a tie. -/
def keepBetter (best : Option (Score × List ArgBinding)) (next : Score × List ArgBinding) :
    Option (Score × List ArgBinding) :=
  match best with
  | none => some next
  | some b => if next.1.Better b.1 then some next else some b

/-- The position of the first least number. -/
def firstLeast? (distances : List Nat) : Option Nat :=
  distances.min?.bind fun least => distances.findIdx? (· = least)

/-- Selects the candidate that best takes arguments of the types `args`, or tells why none can. -/
def resolve (candidates : List (List TypeHash)) (args : List TypeHash) :
    Except OverloadDiagnostics Resolution :=
  let evaluated := candidates.zipIdx.map fun (params, index) =>
    (index, params, Evaluation.ofCall index params args)
  let diagnostics : OverloadDiagnostics :=
    { candidates := evaluated.map fun (index, params, e) => e.diagnostic index params
      closest := firstLeast? (evaluated.map fun (_, params, e) => e.distance params args) }
  let best := (evaluated.filterMap fun (_, _, e) => e.score?).foldl keepBetter none
  match best with
  | some (score, bindings) => .ok ⟨score.index, score, bindings, diagnostics⟩
  | none => .error diagnostics

end TypeCatalog
