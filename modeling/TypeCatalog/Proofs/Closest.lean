import TypeCatalog.Proofs.Selection

/-!
Which candidate is told to be the closest when none takes the arguments. Every candidate has a
distance, and the first of the least distance is named. Distances count arguments that fail with the
same weight as arguments that are missing, so a candidate of the right arity is named as long as few
arguments fail, but not if a candidate of another arity comes at least as near.
-/
namespace TypeCatalog

theorem firstLeast?_eq_some_iff {numbers : List Nat} {k : Nat} :
    firstLeast? numbers = some k ↔
      ∃ x, numbers[k]? = some x ∧ ∀ j y, numbers[j]? = some y → x < y ∨ x = y ∧ k ≤ j := by
  simp only [firstLeast?, Option.bind_eq_some_iff, List.min?_eq_some_iff,
    List.findIdx?_eq_some_iff_getElem, decide_eq_true_eq]
  constructor
  · rintro ⟨x, ⟨-, least⟩, within, own, before⟩
    refine ⟨x, List.getElem?_eq_some_iff.mpr ⟨within, own⟩, fun j y there => ?_⟩
    obtain ⟨less, here⟩ := List.getElem?_eq_some_iff.mp there
    rcases Nat.lt_or_eq_of_le (least y (List.mem_of_getElem? there)) with smaller | same
    · exact .inl smaller
    · refine .inr ⟨same, Nat.le_of_not_lt fun earlier => before j earlier ?_⟩
      exact here.trans same.symm
  · rintro ⟨x, there, least⟩
    obtain ⟨within, own⟩ := List.getElem?_eq_some_iff.mp there
    refine ⟨x, ⟨List.mem_of_getElem? there, fun y listed => ?_⟩, within, own, ?_⟩
    · obtain ⟨j, here⟩ := List.mem_iff_getElem?.mp listed
      rcases least j y here with smaller | same
      · exact Nat.le_of_lt smaller
      · exact Nat.le_of_eq same.1
    · intro j earlier same
      have here := List.getElem?_eq_some_iff.mpr ⟨Nat.lt_trans earlier within, same⟩
      have := least j x here
      omega

theorem exists_firstLeast? {numbers : List Nat} (filled : numbers ≠ []) :
    ∃ k, firstLeast? numbers = some k := by
  obtain ⟨least, found⟩ := Option.isSome_iff_exists.mp (List.isSome_min?_of_ne_nil filled)
  have listed := (List.min?_eq_some_iff.mp found).1
  have met : (numbers.findIdx? (· = least)).isSome = true := by simpa using listed
  obtain ⟨k, first⟩ := Option.isSome_iff_exists.mp met
  exact ⟨k, by rw [firstLeast?, found]; exact first⟩

/-- How far a candidate is from taking arguments: a thousand for each argument that fails and the
cost of the others, or, if the arity differs, a thousand for each argument that is missing or too
many, above ten thousand. -/
def candidateDistance (params args : List TypeHash) : Nat :=
  if params.length = args.length then 1000 * failures params args + viableCost params args
  else 10000 + 1000 * ((params.length - args.length) + (args.length - params.length))

section

variable {candidates : List (List TypeHash)} {args : List TypeHash}

theorem distance_ofCall (index : Nat) (params args : List TypeHash) :
    (Evaluation.ofCall index params args).distance params args = candidateDistance params args := by
  unfold candidateDistance
  rcases Evaluation.ofCall_cases index params args with
    ⟨differs, evaluated⟩ | ⟨first, refused, evaluated⟩ | ⟨takes, evaluated⟩
  · rw [evaluated, if_neg differs]
    rfl
  · rw [evaluated, if_pos refused.1]
    rfl
  · obtain ⟨same, viable⟩ := takes_iff.mp takes
    have none : failures params args = 0 := by simpa [failures] using viable
    rw [evaluated, if_pos same, none, takes.viableCost_eq index]
    simp [Evaluation.distance]

theorem getElem?_distances {index : Nat} {distance : Nat} :
    (distances candidates args)[index]? = some distance ↔
      ∃ params, candidates[index]? = some params ∧ candidateDistance params args = distance := by
  simp [distances, List.getElem?_zipIdx, distance_ofCall]

/-- What is named when no candidate takes the arguments: the first candidate of the least
distance. -/
theorem closest_least {diagnostics : OverloadDiagnostics}
    (failed : resolve candidates args = .error diagnostics) (filled : candidates ≠ []) :
    ∃ k params told, candidates[k]? = some params ∧
      diagnostics.closestCandidate? = some told ∧ told.candidate = k ∧
      ∀ (j : Nat) other, candidates[j]? = some other →
        candidateDistance params args < candidateDistance other args ∨
          candidateDistance params args = candidateDistance other args ∧ k ≤ j := by
  have own := diagnosticsOf_resolve candidates args
  rw [failed] at own
  obtain rfl : diagnostics = diagnose candidates args := own
  have measured : distances candidates args ≠ [] := by simpa [distances] using filled
  obtain ⟨k, named⟩ := exists_firstLeast? measured
  obtain ⟨x, there, least⟩ := firstLeast?_eq_some_iff.mp named
  obtain ⟨params, listed, rfl⟩ := getElem?_distances.mp there
  obtain ⟨told, placed, diagnosed⟩ := (diagnose_candidates candidates args).2 k params listed
  refine ⟨k, params, told, listed, ?_, ?_, fun j other listed' => ?_⟩
  · rw [OverloadDiagnostics.closestCandidate?]
    show (firstLeast? (distances candidates args)).bind _ = some told
    rw [named]
    exact placed
  · cases diagnosed <;> rfl
  · exact least j _ (getElem?_distances.mpr ⟨other, listed', rfl⟩)

/-- The distance of a candidate of the right arity, while there are at most ten arguments. -/
theorem candidateDistance_lt {params : List TypeHash} (same : params.length = args.length)
    (few : args.length ≤ 10) : candidateDistance params args < 11000 := by
  have ranks : (callRanks params args).length ≤ args.length := by simp [callRanks]
  have cost := viableCost_le params args
  have fails : failures params args ≤ 10 := by
    unfold failures
    have := List.countP_le_length (p := (!·.isViable)) (l := callRanks params args)
    omega
  rw [candidateDistance, if_pos same]
  omega

theorem le_candidateDistance {params : List TypeHash} (differs : params.length ≠ args.length) :
    11000 ≤ candidateDistance params args := by
  rw [candidateDistance, if_neg differs]
  omega

/-- Whether the candidate that is named as the closest has the arity of the call. -/
def ClosestFits (candidates : List (List TypeHash)) (args : List TypeHash)
    (diagnostics : OverloadDiagnostics) : Prop :=
  ∃ told params, diagnostics.closestCandidate? = some told ∧
    candidates[told.candidate]? = some params ∧ params.length = args.length

/-- Whether a candidate is nearer than all those of another arity, or as near and declared before
them. -/
def NearerThanOthers (candidates : List (List TypeHash)) (args : List TypeHash) (index : Nat)
    (params : List TypeHash) : Prop :=
  ∀ (j : Nat) (other : List TypeHash), candidates[j]? = some other → other.length ≠ args.length →
    candidateDistance params args < candidateDistance other args ∨
      candidateDistance params args = candidateDistance other args ∧ index < j

theorem closestFits_iff {diagnostics : OverloadDiagnostics}
    (failed : resolve candidates args = .error diagnostics) :
    ClosestFits candidates args diagnostics ↔ ∃ (i : Nat) (params : List TypeHash),
      candidates[i]? = some params ∧ params.length = args.length ∧
        NearerThanOthers candidates args i params := by
  by_cases filled : candidates = []
  · simp [filled, ClosestFits]
  · obtain ⟨k, params, told, listed, named, rfl, least⟩ := closest_least failed filled
    constructor
    · rintro ⟨told', params', named', listed', same⟩
      cases Option.some.inj (named.symm.trans named')
      cases Option.some.inj (listed.symm.trans listed')
      refine ⟨told.candidate, params, listed, same, fun j other there differs => ?_⟩
      rcases least j other there with nearer | ⟨equal, before⟩
      · exact .inl nearer
      · refine .inr ⟨equal, Nat.lt_of_le_of_ne before fun here => differs ?_⟩
        cases Option.some.inj (listed.symm.trans (here ▸ there))
        exact same
    · rintro ⟨i, other, there, same, nearest⟩
      refine ⟨told, params, named, listed, Classical.byContradiction fun differs => ?_⟩
      have first := nearest told.candidate params listed differs
      have second := least i other there
      omega

end

/-- Where no candidate takes the arguments, the one that is named as the closest has the arity of the
call exactly if some candidate of that arity comes nearer than all those of another arity, or as near
and is declared before them. With at most ten arguments it always has, if there is a candidate of that
arity at all. -/
theorem closest_has_arity {candidates : List (List TypeHash)} {args : List TypeHash}
    {diagnostics : OverloadDiagnostics} (failed : resolve candidates args = .error diagnostics) :
    (ClosestFits candidates args diagnostics ↔ ∃ (i : Nat) (params : List TypeHash),
      candidates[i]? = some params ∧ params.length = args.length ∧
        NearerThanOthers candidates args i params) ∧
    (args.length ≤ 10 → (∃ params ∈ candidates, params.length = args.length) →
      ClosestFits candidates args diagnostics) := by
  refine ⟨closestFits_iff failed, fun few ⟨params, member, same⟩ => ?_⟩
  obtain ⟨i, listed⟩ := List.mem_iff_getElem?.mp member
  refine (closestFits_iff failed).mpr ⟨i, params, listed, same, fun j other _ differs => .inl ?_⟩
  exact Nat.lt_of_lt_of_le (candidateDistance_lt same few) (le_candidateDistance differs)

/-- Whether a resolution fails and names this candidate as the closest. -/
def failsNaming (index : Nat) : Except OverloadDiagnostics Resolution → Bool
  | .ok _ => false
  | .error diagnostics => diagnostics.closestCandidate?.map (·.candidate) = some index

theorem eq_error_of_failsNaming {index : Nat} {resolved : Except OverloadDiagnostics Resolution}
    (fails : failsNaming index resolved = true) : ∃ diagnostics, resolved = .error diagnostics ∧
      diagnostics.closestCandidate?.map (·.candidate) = some index := by
  cases resolved with
  | ok chosen => cases fails
  | error diagnostics => exact ⟨diagnostics, rfl, of_decide_eq_true fails⟩

/-- Two arguments that fail are nearer than a third that is missing. -/
theorem failing_candidate_closest :
    let i32 := (PrimitiveKind.integer ⟨true, .w32⟩).typeHash
    let u8 := (PrimitiveKind.integer ⟨false, .w8⟩).typeHash
    let text := PrimitiveKind.string.typeHash
    let candidates := [[i32, i32, i32], [text, text]]
    ∃ diagnostics, resolve candidates [u8, u8] = .error diagnostics ∧
      ClosestFits candidates [u8, u8] diagnostics := by
  intro i32 u8 text candidates
  have fails : failsNaming 1 (resolve candidates [u8, u8]) = true := by decide +kernel
  obtain ⟨diagnostics, failed, -⟩ := eq_error_of_failsNaming fails
  have same : ∃ params ∈ candidates, params.length = [u8, u8].length :=
    ⟨[text, text], List.mem_cons_of_mem _ List.mem_cons_self, by simp⟩
  exact ⟨diagnostics, failed, (closest_has_arity failed).2 (by simp) same⟩

/-- Twelve arguments that fail are farther than one that is too many: the candidate that is named as
the closest takes eleven arguments, though another one takes twelve. -/
theorem other_arity_named_closest :
    let u8 := (PrimitiveKind.integer ⟨false, .w8⟩).typeHash
    let text := PrimitiveKind.string.typeHash
    let args := List.replicate 12 u8
    let candidates := [List.replicate 12 text, List.replicate 11 text]
    (∃ params ∈ candidates, params.length = args.length) ∧
      ∃ diagnostics, resolve candidates args = .error diagnostics ∧
        ¬ ClosestFits candidates args diagnostics := by
  intro u8 text args candidates
  have fails : failsNaming 1 (resolve candidates args) = true := by decide +kernel
  obtain ⟨diagnostics, failed, named⟩ := eq_error_of_failsNaming fails
  have twelve : (List.replicate 12 text).length = args.length := by simp [args]
  refine ⟨⟨_, List.mem_cons_self, twelve⟩, diagnostics, failed, ?_⟩
  rintro ⟨told, params, closest, listed, same⟩
  rw [closest] at named
  have second : told.candidate = 1 := Option.some.inj named
  rw [second] at listed
  have eleven : List.replicate 11 text = params := Option.some.inj listed
  simp [← eleven, args] at same

end TypeCatalog
