import Mathlib.Algebra.Group.Action.Defs
import Mathlib.Algebra.Order.BigOperators.Group.List
import Mathlib.Algebra.Order.Ring.Nat
import Mathlib.Data.Prod.Lex
import TypeCatalog.Proofs.Conversions

/-!
Which of several overloads is chosen. A call is evaluated against each candidate in one of three
ways: the arity differs, an argument is the first without a viable rank, or all arguments are taken
at a score. The candidate of the least score is chosen; scores end in the order of declaration, so no
two are equal. Costs are numbers of 32 bits, which calls of fewer than 2 ^ 29 arguments stay within.
-/
namespace TypeCatalog

theorem ParamRank.cost_ofClasses (source target : NumericClass) (sourceBytes targetBytes : Nat) :
    0 < (ofClasses source target sourceBytes targetBytes).cost ∧
      (ofClasses source target sourceBytes targetBytes).cost ≤ 5 := by
  unfold ofClasses
  split
  · split
    · decide
    · split <;> decide
  · split <;> simp [conversionCost, floatToIntegerCost, signOrNarrowingCost]

/-- Passing an argument is for nothing, at a small cost, or not viable. -/
theorem rank_cases (source target : TypeHash) :
    source = target ∧ rank source target = .exact ∨
      source ≠ target ∧
        (0 < (rank source target).cost ∧ (rank source target).cost ≤ 5 ∨
          rank source target = .notViable) := by
  rcases rank_forms source target with
    equal | ⟨differs, ⟨s, t, first, second, -, -, -, -, ranked⟩ | refused⟩
  · exact .inl equal
  · exact .inr ⟨differs, .inl (ranked ▸ ParamRank.cost_ofClasses first second s.rank t.rank)⟩
  · exact .inr ⟨differs, .inr refused⟩

theorem cost_le_of_isViable {source target : TypeHash}
    (viable : (rank source target).isViable = true) : (rank source target).cost ≤ 5 := by
  rcases rank_cases source target with ⟨-, free⟩ | ⟨-, small | refused⟩
  · simp [free, ParamRank.exact, ParamRank.exactCost]
  · exact small.2
  · rw [refused] at viable
    cases viable

/-- Only equal types are passed for nothing. -/
theorem rank_isExact_iff {source target : TypeHash} :
    (rank source target).isExact = true ↔ source = target := by
  rcases rank_cases source target with ⟨same, free⟩ | ⟨differs, small | refused⟩
  · exact iff_of_true (by rw [free]; rfl) same
  · have costly : (rank source target).cost ≠ 0 := Nat.ne_of_gt small.1
    simp [differs, ParamRank.isExact, ParamRank.exactCost, costly]
  · simp only [refused, differs, iff_false]
    decide

/-- The parts of a score, to be compared one after the other. -/
def Score.key (s : Score) : ℕ ×ₗ ℕ ×ₗ ℕ ×ₗ ℕ :=
  toLex (s.cost, toLex (s.narrowing, toLex (s.conversions, s.index)))

theorem Score.better_iff {a b : Score} : a.Better b ↔ a.key < b.key := by
  simp [Better, key, Prod.Lex.lt_iff]

theorem Score.key_injective : Function.Injective Score.key := by
  intro a b same
  cases a
  cases b
  simpa [key] using same

theorem isSome_foldl_keepBetter (best : Option (Score × List ArgBinding))
    (items : List (Score × List ArgBinding)) :
    (items.foldl keepBetter best).isSome = true ↔ best.isSome = true ∨ items ≠ [] := by
  induction items generalizing best with
  | nil => simp
  | cons next rest ih =>
    have kept : (keepBetter best next).isSome = true := by
      unfold keepBetter
      split
      · rfl
      · split <;> rfl
    simp [ih, kept]

/-- Nothing that has been seen has a smaller score than what is kept. -/
theorem foldl_keepBetter_le {best : Option (Score × List ArgBinding)}
    {items : List (Score × List ArgBinding)} {chosen : Score × List ArgBinding}
    (kept : items.foldl keepBetter best = some chosen) :
    ∀ other, best = some other ∨ other ∈ items → chosen.1.key ≤ other.1.key := by
  induction items generalizing best with
  | nil =>
    intro other seen
    cases seen with
    | inl here =>
      cases Option.some.inj (kept.symm.trans here)
      exact le_rfl
    | inr listed => cases listed
  | cons next rest ih =>
    have later := ih kept
    intro other seen
    cases best with
    | none =>
      rcases seen with here | listed
      · cases here
      · rcases List.mem_cons.mp listed with rfl | listed
        · exact later _ (.inl rfl)
        · exact later other (.inr listed)
    | some first =>
      by_cases better : next.1.Better first.1
      · have now : keepBetter (some first) next = some next := by simp [keepBetter, better]
        have least := later next (.inl now)
        have smaller := Score.better_iff.mp better
        rcases seen with here | listed
        · cases here
          exact least.trans smaller.le
        · rcases List.mem_cons.mp listed with rfl | listed
          · exact least
          · exact later other (.inr listed)
      · have now : keepBetter (some first) next = some first := by simp [keepBetter, better]
        have least := later first (.inl now)
        have smaller := not_lt.mp (better ∘ Score.better_iff.mpr)
        rcases seen with here | listed
        · cases here
          exact least
        · rcases List.mem_cons.mp listed with rfl | listed
          · exact least.trans smaller
          · exact later other (.inr listed)

/-- Whether a candidate takes arguments: it has their arity, and each of them has a viable rank. -/
def Takes (params args : List TypeHash) : Prop :=
  List.Forall₂ (fun a p => (rank a p).isViable = true) args params

def callRanks (params args : List TypeHash) : List ParamRank := List.zipWith rank args params

/-- The score of a candidate that takes the arguments. -/
def callScore (index : Nat) (params args : List TypeHash) : Score :=
  let ranks := callRanks params args
  ⟨(ranks.map ParamRank.cost).sum, ranks.countP ParamRank.narrowing, ranks.countP (!·.isExact),
    index⟩

/-- How many arguments have no viable rank. -/
def failures (params args : List TypeHash) : Nat := (callRanks params args).countP (!·.isViable)

/-- What the arguments that have a viable rank cost, whether or not all of them have one. -/
def viableCost (params args : List TypeHash) : Nat :=
  (((callRanks params args).filter ParamRank.isViable).map ParamRank.cost).sum

/-- Whether the arity is right and the argument of this position is the first without a viable
rank. -/
def FirstRefused (params args : List TypeHash) (position : Nat) : Prop :=
  params.length = args.length ∧
    (∃ a p, args[position]? = some a ∧ params[position]? = some p ∧ (rank a p).isViable = false) ∧
    ∀ earlier < position, ∀ a p, args[earlier]? = some a → params[earlier]? = some p →
      (rank a p).isViable = true

section

variable {params args : List TypeHash}

theorem getElem?_callRanks {position : Nat} {r : ParamRank} :
    (callRanks params args)[position]? = some r ↔
      ∃ a p, args[position]? = some a ∧ params[position]? = some p ∧ rank a p = r := by
  simp [callRanks, List.getElem?_zipWith_eq_some]

theorem takes_iff : Takes params args ↔
    params.length = args.length ∧ ∀ r ∈ callRanks params args, r.isViable = true := by
  rw [Takes, List.forall₂_iff_get, eq_comm]
  refine and_congr_right fun same => ?_
  constructor
  · intro all r listed
    obtain ⟨position, here⟩ := List.mem_iff_getElem?.mp listed
    obtain ⟨a, p, arg, param, rfl⟩ := getElem?_callRanks.mp here
    obtain ⟨less, rfl⟩ := List.getElem?_eq_some_iff.mp arg
    obtain ⟨less', rfl⟩ := List.getElem?_eq_some_iff.mp param
    exact all position less less'
  · intro all position less less'
    exact all _ (List.mem_iff_getElem?.mpr ⟨position, getElem?_callRanks.mpr
      ⟨_, _, List.getElem?_eq_getElem less, List.getElem?_eq_getElem less', rfl⟩⟩)

theorem viableCost_le (params args : List TypeHash) : viableCost params args ≤ 5 * args.length := by
  have each : ∀ cost ∈ ((callRanks params args).filter ParamRank.isViable).map ParamRank.cost,
      cost ≤ 5 := by
    intro cost listed
    obtain ⟨r, member, rfl⟩ := List.mem_map.mp listed
    obtain ⟨there, viable⟩ := List.mem_filter.mp member
    obtain ⟨position, here⟩ := List.mem_iff_getElem?.mp there
    obtain ⟨a, p, -, -, rfl⟩ := getElem?_callRanks.mp here
    exact cost_le_of_isViable viable
  have total := List.sum_le_card_nsmul _ 5 each
  have fewer := List.length_filter_le ParamRank.isViable (callRanks params args)
  have ranks : (callRanks params args).length ≤ args.length := by simp [callRanks]
  rw [List.length_map, smul_eq_mul] at total
  unfold viableCost
  omega

theorem Takes.viableCost_eq (takes : Takes params args) (index : Nat) :
    viableCost params args = (callScore index params args).cost := by
  unfold viableCost callScore
  rw [List.filter_eq_self.mpr (takes_iff.mp takes).2]

namespace Evaluation

theorem ofRanks_of_viable {index : Nat} {ranks : List ParamRank}
    (viable : ∀ r ∈ ranks, r.isViable = true) :
    ofRanks index ranks = .viable
      ⟨(ranks.map ParamRank.cost).sum, ranks.countP ParamRank.narrowing,
        ranks.countP (!·.isExact), index⟩
      (ranks.map fun r => if r.isExact then .exact else .convert) := by
  have none : ranks.findIdx? (!·.isViable) = none := by simpa using viable
  have all : ranks.filter ParamRank.isViable = ranks := List.filter_eq_self.mpr viable
  simp only [ofRanks, none, all, List.sum_eq_foldr, List.foldr_map]

theorem ofRanks_of_refused {index first : Nat} {ranks : List ParamRank}
    (refused : ranks.findIdx? (!·.isViable) = some first) :
    ofRanks index ranks = .notConvertible first (ranks.countP (!·.isViable))
      ((ranks.filter ParamRank.isViable).map ParamRank.cost).sum := by
  simp only [ofRanks, refused, List.sum_eq_foldr, List.foldr_map]

end Evaluation

/-- How the arguments reach the parameters of a candidate that takes them. -/
def callBindings (params args : List TypeHash) : List ArgBinding :=
  (callRanks params args).map fun r => if r.isExact then .exact else .convert

theorem firstRefused_of_findIdx? {first : Nat} (same : params.length = args.length)
    (refused : (callRanks params args).findIdx? (!·.isViable) = some first) :
    FirstRefused params args first := by
  obtain ⟨within, fails, before⟩ := List.findIdx?_eq_some_iff_getElem.mp refused
  refine ⟨same, ?_, fun earlier less a p arg param => ?_⟩
  · obtain ⟨a, p, arg, param, own⟩ := getElem?_callRanks.mp (List.getElem?_eq_getElem within)
    exact ⟨a, p, arg, param, by simpa [own] using fails⟩
  · have here := getElem?_callRanks.mpr ⟨a, p, arg, param, rfl⟩
    obtain ⟨less', own⟩ := List.getElem?_eq_some_iff.mp here
    simpa [own] using before earlier less

/-- The three ways in which a call is evaluated. -/
theorem Evaluation.ofCall_cases (index : Nat) (params args : List TypeHash) :
    params.length ≠ args.length ∧ ofCall index params args = .arityMismatch ∨
      (∃ first, FirstRefused params args first ∧ ofCall index params args =
        .notConvertible first (failures params args) (viableCost params args)) ∨
      Takes params args ∧ ofCall index params args =
        .viable (callScore index params args) (callBindings params args) := by
  unfold ofCall
  split
  · rename_i same
    right
    cases refused : (callRanks params args).findIdx? (!·.isViable) with
    | some first =>
      exact .inl ⟨first, firstRefused_of_findIdx? same refused, ofRanks_of_refused refused⟩
    | none =>
      have viable : ∀ r ∈ callRanks params args, r.isViable = true := by simpa using refused
      exact .inr ⟨takes_iff.mpr ⟨same, viable⟩, ofRanks_of_viable viable⟩
  · rename_i differs
    exact .inl ⟨differs, rfl⟩

end

/-- The scores of the candidates that take the arguments. -/
def offers (candidates : List (List TypeHash)) (args : List TypeHash) :
    List (Score × List ArgBinding) :=
  candidates.zipIdx.filterMap fun (params, index) => (Evaluation.ofCall index params args).score?

/-- How far each candidate is from taking the arguments. -/
def distances (candidates : List (List TypeHash)) (args : List TypeHash) : List Nat :=
  candidates.zipIdx.map fun (params, index) =>
    (Evaluation.ofCall index params args).distance params args

/-- What is told of the candidates, whether or not one of them is chosen. -/
def diagnose (candidates : List (List TypeHash)) (args : List TypeHash) : OverloadDiagnostics where
  candidates := candidates.zipIdx.map fun (params, index) =>
    (Evaluation.ofCall index params args).diagnostic index params
  closest := firstLeast? (distances candidates args)

section

variable {candidates : List (List TypeHash)} {args : List TypeHash}

theorem resolve_eq (candidates : List (List TypeHash)) (args : List TypeHash) :
    resolve candidates args =
      match (offers candidates args).foldl keepBetter none with
      | some (score, bindings) => .ok ⟨score.index, score, bindings, diagnose candidates args⟩
      | none => .error (diagnose candidates args) := by
  simp only [resolve, offers, diagnose, distances, List.map_map, List.filterMap_map]
  rfl

theorem mem_offers {offer : Score × List ArgBinding} :
    offer ∈ offers candidates args ↔ ∃ index params, candidates[index]? = some params ∧
      Takes params args ∧ offer = (callScore index params args, callBindings params args) := by
  simp only [offers, List.mem_filterMap, Prod.exists, List.mem_zipIdx_iff_getElem?]
  constructor
  · rintro ⟨params, index, listed, scored⟩
    rcases Evaluation.ofCall_cases index params args with
      ⟨-, evaluated⟩ | ⟨first, -, evaluated⟩ | ⟨takes, evaluated⟩
    · rw [evaluated] at scored
      cases scored
    · rw [evaluated] at scored
      cases scored
    · rw [evaluated] at scored
      exact ⟨index, params, listed, takes, (Option.some.inj scored).symm⟩
  · rintro ⟨index, params, listed, takes, rfl⟩
    refine ⟨params, index, listed, ?_⟩
    rcases Evaluation.ofCall_cases index params args with
      ⟨differs, -⟩ | ⟨first, refused, -⟩ | ⟨-, evaluated⟩
    · exact absurd (takes_iff.mp takes).1 differs
    · obtain ⟨a, p, arg, param, fails⟩ := refused.2.1
      have viable := (takes_iff.mp takes).2 _
        (List.mem_iff_getElem?.mpr ⟨first, getElem?_callRanks.mpr ⟨a, p, arg, param, rfl⟩⟩)
      rw [fails] at viable
      cases viable
    · rw [evaluated]
      rfl

theorem getElem?_callBindings {params : List TypeHash} (takes : Takes params args) :
    (callBindings params args).length = args.length ∧
      ∀ (position : Nat) (a p : TypeHash), args[position]? = some a → params[position]? = some p →
        ((callBindings params args)[position]? = some ArgBinding.exact ↔ a = p) := by
  have same := (takes_iff.mp takes).1
  refine ⟨by simp [callBindings, callRanks, same], fun position a p arg param => ?_⟩
  have here := getElem?_callRanks.mpr ⟨a, p, arg, param, rfl⟩
  rw [callBindings, List.getElem?_map, here, ← rank_isExact_iff]
  by_cases free : (rank a p).isExact = true <;> simp [free]

/-- What is told of a candidate: its arity is not that of the call, or an argument is the first
without a viable rank, or it takes the arguments at some cost. -/
inductive Diagnosed (params args : List TypeHash) (index : Nat) : CandidateDiagnostic → Prop where
  | arity (differs : params.length ≠ args.length) :
      Diagnosed params args index
        ⟨index, .arityMismatch, none, params.length, ParamRank.notViableCost⟩
  | refused {first : Nat} (refused : FirstRefused params args first) :
      Diagnosed params args index
        ⟨index, .notConvertible, some first, params.length, ParamRank.notViableCost⟩
  | taken (takes : Takes params args) :
      Diagnosed params args index
        ⟨index, .ok, none, params.length, (callScore index params args).cost⟩

theorem diagnose_candidates (candidates : List (List TypeHash)) (args : List TypeHash) :
    (diagnose candidates args).candidates.length = candidates.length ∧
      ∀ index params, candidates[index]? = some params →
        ∃ d, (diagnose candidates args).candidates[index]? = some d ∧
          Diagnosed params args index d := by
  refine ⟨by simp [diagnose], fun index params listed => ?_⟩
  refine ⟨(Evaluation.ofCall index params args).diagnostic index params, ?_, ?_⟩
  · simp [diagnose, List.getElem?_zipIdx, listed]
  · rcases Evaluation.ofCall_cases index params args with
      ⟨differs, evaluated⟩ | ⟨first, refused, evaluated⟩ | ⟨takes, evaluated⟩
    · rw [evaluated]
      exact .arity differs
    · rw [evaluated]
      exact .refused refused
    · rw [evaluated]
      exact .taken takes

/-- What a resolution tells of the candidates. -/
def diagnosticsOf : Except OverloadDiagnostics Resolution → OverloadDiagnostics
  | .ok chosen => chosen.diagnostics
  | .error diagnostics => diagnostics

theorem diagnosticsOf_resolve (candidates : List (List TypeHash)) (args : List TypeHash) :
    diagnosticsOf (resolve candidates args) = diagnose candidates args := by
  rw [resolve_eq]
  split <;> rfl

theorem resolve_isOk_iff :
    (∃ chosen, resolve candidates args = .ok chosen) ↔ ∃ params ∈ candidates, Takes params args := by
  have offered : offers candidates args ≠ [] ↔ ∃ params ∈ candidates, Takes params args := by
    constructor
    · intro some
      obtain ⟨offer, listed⟩ := List.exists_mem_of_ne_nil _ some
      obtain ⟨index, params, there, takes, -⟩ := mem_offers.mp listed
      exact ⟨params, List.mem_of_getElem? there, takes⟩
    · rintro ⟨params, listed, takes⟩
      obtain ⟨index, there⟩ := List.mem_iff_getElem?.mp listed
      exact List.ne_nil_of_mem (mem_offers.mpr ⟨index, params, there, takes, rfl⟩)
  have kept := isSome_foldl_keepBetter none (offers candidates args)
  rw [← offered, resolve_eq]
  cases chosen : (offers candidates args).foldl keepBetter none with
  | none => simpa [chosen] using kept
  | some best => simpa [chosen] using kept

theorem resolve_least {chosen : Resolution} (resolved : resolve candidates args = .ok chosen) :
    ∃ params, candidates[chosen.index]? = some params ∧ Takes params args ∧
      chosen.score = callScore chosen.index params args ∧
      chosen.bindings = callBindings params args ∧
      ∀ index other, candidates[index]? = some other → Takes other args → index ≠ chosen.index →
        chosen.score.key < (callScore index other args).key := by
  rw [resolve_eq] at resolved
  split at resolved
  · rename_i score bindings kept
    cases resolved
    have listed := (foldl_keepBetter kept).resolve_left (by simp)
    obtain ⟨own, params, there, takes, offered⟩ := mem_offers.mp listed
    cases offered
    refine ⟨params, there, takes, rfl, rfl, fun index other listed' takes' differs => ?_⟩
    refine lt_of_le_of_ne ?_ fun same => differs ?_
    · exact foldl_keepBetter_le kept (_, callBindings other args)
        (.inr (mem_offers.mpr ⟨index, other, listed', takes', rfl⟩))
    · exact congrArg Score.index (Score.key_injective same).symm
  · cases resolved

end

/-- Resolution chooses the optimum. It succeeds exactly when some candidate takes the arguments, and
then chooses the one candidate whose score is the least of all that take them: the cost, then the
narrowing conversions, then all conversions, then the order of declaration. The bindings say which
arguments already have the types of the parameters, and each candidate has a diagnostic in its place.
No cost that is added up on the way leaves 32 bits. -/
theorem best_overload_chosen (candidates : List (List TypeHash)) {args : List TypeHash}
    (few : args.length < 2 ^ 29) :
    ((∃ chosen, resolve candidates args = .ok chosen) ↔ ∃ params ∈ candidates, Takes params args) ∧
    (∀ chosen, resolve candidates args = .ok chosen →
      ∃ params, candidates[chosen.index]? = some params ∧ Takes params args ∧
        chosen.score = callScore chosen.index params args ∧
        (∀ index other, candidates[index]? = some other → Takes other args →
          index ≠ chosen.index → chosen.score.key < (callScore index other args).key) ∧
        chosen.bindings.length = args.length ∧
        ∀ (position : Nat) (a p : TypeHash), args[position]? = some a → params[position]? = some p →
          (chosen.bindings[position]? = some ArgBinding.exact ↔ a = p)) ∧
    (let told := (diagnosticsOf (resolve candidates args)).candidates
     told.length = candidates.length ∧ ∀ index params, candidates[index]? = some params →
        ∃ d, told[index]? = some d ∧ Diagnosed params args index d) ∧
    ∀ params ∈ candidates, viableCost params args < 2 ^ 32 := by
  refine ⟨resolve_isOk_iff, ?_, ?_, ?_⟩
  · intro chosen resolved
    obtain ⟨params, listed, takes, score, bindings, least⟩ := resolve_least resolved
    obtain ⟨length, exact_⟩ := getElem?_callBindings takes
    rw [bindings]
    exact ⟨params, listed, takes, score, least, length, exact_⟩
  · rw [diagnosticsOf_resolve]
    exact diagnose_candidates candidates args
  · intro params _
    have bound := viableCost_le params args
    omega

/-- Two overloads that cost the same: the one declared first is chosen. -/
theorem first_of_equal_overloads_chosen :
    let i16 := (PrimitiveKind.integer ⟨true, .w16⟩).typeHash
    let i32 := (PrimitiveKind.integer ⟨true, .w32⟩).typeHash
    let i64 := (PrimitiveKind.integer ⟨true, .w64⟩).typeHash
    let candidates := [[PrimitiveKind.string.typeHash], [i64], [i32], [i16, i16]]
    [i16].length < 2 ^ 29 ∧ ∃ chosen, resolve candidates [i16] = .ok chosen ∧ chosen.index = 1 ∧
      chosen.score.key < (callScore 2 [i32] [i16]).key ∧ chosen.bindings.length = 1 := by
  intro i16 i32 i64 candidates
  have few : [i16].length < 2 ^ 29 := by simp
  have both : (rank i16 i64).isViable = true ∧ (rank i16 i32).isViable = true := by decide +kernel
  have index : (resolve candidates [i16]).toOption.map Resolution.index = some 1 := by
    decide +kernel
  obtain ⟨succeeds, best, -, -⟩ := best_overload_chosen candidates few
  obtain ⟨chosen, resolved⟩ := succeeds.mpr ⟨[i64], by simp [candidates], .cons both.1 .nil⟩
  rw [resolved] at index
  have first : chosen.index = 1 := Option.some.inj index
  obtain ⟨params, -, -, -, least, length, -⟩ := best chosen resolved
  refine ⟨few, chosen, resolved, first, ?_, length⟩
  exact least 2 [i32] rfl (.cons both.2 .nil) (by simp [first])

end TypeCatalog
