import Mathlib.Data.List.Forall2
import Mathlib.Data.Set.Function
import TypeCatalog.Member.Callable
import TypeCatalog.Overload.Resolve

/-!
Arguments at resolution and at the call. Resolution ranks the hashes of the arguments' types; the
call takes the arguments themselves. Among types of different hashes the two agree: an argument that
has a viable rank is taken, and the callable is given a datum of the parameter's type. The void value
is the exception, since it has a type but is a datum of none.
-/
namespace TypeCatalog

/-- The types and the values that there are. The built-in types are among them, and no two types
have one hash. -/
structure Program where
  facts : Universe
  types : Set TypeKey
  values : Set Value
  builtIn : ∀ kind, .primitive kind ∈ types
  distinct : Set.InjOn facts.hash types
  typed : ∀ v ∈ values, v.typeOf ∈ types

theorem PrimitiveKind.typeHash_of_ofHash? {hash : TypeHash} {kind : PrimitiveKind}
    (found : ofHash? hash = some kind) : kind.typeHash = hash := by
  obtain ⟨⟨own, other⟩, here, rfl⟩ := Option.map_eq_some_iff.mp found
  have same := List.find?_some here
  obtain ⟨_, _, pair⟩ := List.mem_map.mp (List.mem_of_find?_eq_some here)
  cases pair
  simpa using same

theorem PrimitiveKind.ofHash?_typeHash (kind : PrimitiveKind) :
    ofHash? kind.typeHash = some kind := by
  have each : ∀ kind ∈ all, ofHash? kind.typeHash = some kind := by decide +kernel
  exact each kind (mem_all kind)

theorem rank_typeHash (source target : PrimitiveKind) :
    rank source.typeHash target.typeHash = .ofPrimitives source target := by
  unfold rank
  split
  · rename_i same
    have one := source.ofHash?_typeHash
    rw [same, target.ofHash?_typeHash] at one
    cases one
    rw [ParamRank.ofPrimitives, if_pos rfl]
  · rw [source.ofHash?_typeHash, target.ofHash?_typeHash]

/-- A rank is that of equal types, comes from the classes of two numeric built-in types, or is not
viable. -/
theorem rank_forms (source target : TypeHash) :
    source = target ∧ rank source target = .exact ∨
      source ≠ target ∧
        ((∃ s t first second, PrimitiveKind.ofHash? source = some s ∧
            PrimitiveKind.ofHash? target = some t ∧ s.numericClass? = some first ∧
            t.numericClass? = some second ∧
            rank source target = .ofClasses first second s.rank t.rank) ∨
          rank source target = .notViable) := by
  unfold rank
  split
  · rename_i same
    exact .inl ⟨same, rfl⟩
  · rename_i differs
    refine .inr ⟨differs, ?_⟩
    split
    · rename_i s t found found'
      have apart : s ≠ t := by
        rintro rfl
        exact differs ((PrimitiveKind.typeHash_of_ofHash? found).symm.trans
          (PrimitiveKind.typeHash_of_ofHash? found'))
      rw [ParamRank.ofPrimitives, if_neg apart]
      split
      · rename_i first second own own'
        exact .inl ⟨s, t, first, second, found, found', own, own', rfl⟩
      · exact .inr rfl
    · exact .inr rfl

/-- Only equal types and numeric built-in types have a viable rank. -/
theorem rank_viable {source target : TypeHash} (viable : (rank source target).isViable = true) :
    source = target ∨ ∃ s t, PrimitiveKind.ofHash? source = some s ∧
      PrimitiveKind.ofHash? target = some t ∧ s.isNumeric = true ∧ t.isNumeric = true := by
  rcases rank_forms source target with
    ⟨same, -⟩ | ⟨-, ⟨s, t, first, second, found, found', numeric, numeric', -⟩ | refused⟩
  · exact .inl same
  · exact .inr ⟨s, t, found, found', by rw [PrimitiveKind.isNumeric, numeric]; rfl,
      by rw [PrimitiveKind.isNumeric, numeric']; rfl⟩
  · rw [refused] at viable
    cases viable

theorem foldl_keepBetter {best : Option (Score × List ArgBinding)}
    {items : List (Score × List ArgBinding)} {chosen : Score × List ArgBinding}
    (kept : items.foldl keepBetter best = some chosen) : best = some chosen ∨ chosen ∈ items := by
  induction items generalizing best with
  | nil => exact .inl kept
  | cons next rest ih =>
    rcases ih kept with early | late
    · have one : keepBetter best next = some next ∨ keepBetter best next = best := by
        unfold keepBetter
        split
        · exact .inl rfl
        · split
          · exact .inl rfl
          · exact .inr rfl
      rcases one with first | same
      · rw [first] at early
        cases early
        exact .inr List.mem_cons_self
      · exact .inl (same ▸ early)
    · exact .inr (List.mem_cons_of_mem _ late)

namespace Evaluation

theorem ofRanks_viable {index : Nat} {ranks : List ParamRank} {score : Score}
    {bindings : List ArgBinding} (viable : ofRanks index ranks = .viable score bindings) :
    score.index = index ∧ ∀ rank ∈ ranks, rank.isViable = true := by
  unfold ofRanks at viable
  dsimp only at viable
  split at viable
  · cases viable
  · rename_i all
    cases viable
    exact ⟨rfl, by simpa using all⟩

theorem ofCall_viable {index : Nat} {params args : List TypeHash} {score : Score}
    {bindings : List ArgBinding} (viable : ofCall index params args = .viable score bindings) :
    score.index = index ∧ List.Forall₂ (fun a p => (rank a p).isViable = true) args params := by
  unfold ofCall at viable
  split at viable
  · rename_i length
    obtain ⟨own, all⟩ := ofRanks_viable viable
    refine ⟨own, List.forall₂_iff_zip.mpr ⟨length.symm, fun {a p} paired => all _ ?_⟩⟩
    rw [← List.map_uncurry_zip_eq_zipWith]
    exact List.mem_map_of_mem (f := Function.uncurry rank) paired
  · cases viable

end Evaluation

/-- The candidate that is chosen takes the arguments: each of them has a viable rank. -/
theorem resolve_viable {candidates : List (List TypeHash)} {args : List TypeHash}
    {resolution : Resolution} (resolved : resolve candidates args = .ok resolution) :
    ∃ params, candidates[resolution.index]? = some params ∧
      List.Forall₂ (fun a p => (rank a p).isViable = true) args params := by
  unfold resolve at resolved
  dsimp only at resolved
  split at resolved
  · rename_i score bindings best
    cases resolved
    obtain ⟨⟨index, params, evaluation⟩, evaluated, scored⟩ :=
      List.mem_filterMap.mp ((foldl_keepBetter best).resolve_left (by simp))
    obtain ⟨⟨own, position⟩, listed, same⟩ := List.mem_map.mp evaluated
    cases same
    have viable : Evaluation.ofCall position own args = .viable score bindings := by
      revert scored
      cases Evaluation.ofCall position own args <;> simp [Evaluation.score?]
    obtain ⟨here, all⟩ := Evaluation.ofCall_viable viable
    refine ⟨own, ?_, all⟩
    rw [here]
    exact List.mem_zipIdx_iff_getElem?.mp listed
  · cases resolved

namespace Value

variable {v : Value} {type : TypeKey}

theorem get?_of_typeOf (own : v.typeOf = type) (present : v.isVoid = false) :
    v.get? type = some v := by
  simp [get?, is, own, present]

theorem typeOf_of_get? {datum : Value} (got : v.get? type = some datum) : datum.typeOf = type := by
  unfold get? is at got
  split at got
  · rename_i own
    cases got
    simp only [Bool.and_eq_true, decide_eq_true_eq] at own
    exact own.2
  · cases got

end Value

theorem Numeric.ofValue?_of_numeric {v : Value} {kind : PrimitiveKind}
    (own : v.typeOf = .primitive kind) (numeric : kind.isNumeric = true) :
    ∃ n, ofValue? v = some n := by
  cases v <;> cases own
  case integer | single | double => exact ⟨_, rfl⟩
  case void | bool | char | string => cases numeric

/-- Every numeric datum converts to every numeric type. -/
theorem convertNumeric_of_numeric {v : Value} {source target : PrimitiveKind}
    (own : v.typeOf = .primitive source) (numeric : source.isNumeric = true)
    (accepts : target.isNumeric = true) :
    ∃ w, convertNumeric v target = some w ∧ w.typeOf = .primitive target ∧ w.isVoid = false := by
  obtain ⟨n, found⟩ := Numeric.ofValue?_of_numeric own numeric
  cases target with
  | integer kind =>
    refine ⟨n.toInteger kind, by rw [convertNumeric, found]; rfl, ?_⟩
    cases n <;> exact ⟨rfl, rfl⟩
  | float kind =>
    refine ⟨n.toFloat kind, by rw [convertNumeric, found]; rfl, ?_⟩
    cases kind <;> cases n <;> exact ⟨rfl, rfl⟩
  | void | bool | char | string => cases accepts

theorem typeOf_coerce {u : Universe} {v datum : Value} {target : TypeKey}
    (taken : coerce u v target = some datum) : datum.typeOf = target := by
  unfold coerce at taken
  split at taken
  · rename_i got
    cases taken
    exact Value.typeOf_of_get? got
  · simp only [Option.bind_eq_bind, Option.bind_eq_some_iff] at taken
    obtain ⟨_, _, _, _, got⟩ := taken
    exact Value.typeOf_of_get? got

namespace Callable

theorem typeOf_takeArgument {u : Universe} {mode : ArgMode} {position : Nat} {param : TypeKey}
    {v datum : Value} (taken : takeArgument u mode position param v = .ok datum) :
    datum.typeOf = param := by
  unfold takeArgument at taken
  split at taken
  · rename_i got
    cases taken
    exact Value.typeOf_of_get? got
  · cases taken
  · split at taken
    · rename_i converted
      cases taken
      exact typeOf_coerce converted
    · cases taken

/-- The void value is not taken as a datum, not even by a parameter of its own type. -/
theorem takeArgument_void (u : Universe) (mode : ArgMode) (position : Nat) (param : TypeKey) :
    ∃ e, takeArgument u mode position param .void = .error e := by
  have nothing : ∀ type, Value.void.get? type = none := fun _ => rfl
  have unchanged : ∀ kind, convertNumeric .void kind = none := by
    intro kind
    cases kind <;> rfl
  have refused : coerce u .void param = none := by
    unfold coerce
    simp [nothing, unchanged]
  unfold takeArgument
  rw [nothing]
  cases mode with
  | exact => exact ⟨_, rfl⟩
  | convert =>
    dsimp only
    rw [refused]
    exact ⟨_, rfl⟩

end Callable

namespace Program

variable (P : Program)

/-- Whether a registry shows a callable as it is: with the hashes of its parameters' types, and with
this access to an object. -/
structure Shows (access : Access) (callable : Callable) (params : List TypeHash) : Prop where
  access : callable.access = access
  params : params = callable.params.map P.facts.hash
  known : ∀ type ∈ callable.params, type ∈ P.types

variable {P}

theorem eq_primitive {type : TypeKey} (known : type ∈ P.types) {kind : PrimitiveKind}
    (found : PrimitiveKind.ofHash? (P.facts.hash type) = some kind) : type = .primitive kind :=
  P.distinct known (P.builtIn kind) (PrimitiveKind.typeHash_of_ofHash? found).symm

variable {v : Value} {param : TypeKey}

/-- What has a viable rank converts. -/
theorem coerce_of_viable (known : v.typeOf ∈ P.types) (accepted : param ∈ P.types)
    (present : v.isVoid = false)
    (viable : (rank (v.typeHash P.facts) (P.facts.hash param)).isViable = true) :
    ∃ datum, coerce P.facts v param = some datum := by
  unfold coerce
  split
  · exact ⟨_, rfl⟩
  · rename_i other
    rcases rank_viable viable with same | ⟨s, t, source, target, numeric, accepts⟩
    · rw [Value.get?_of_typeOf (P.distinct known accepted same) present] at other
      cases other
    · obtain ⟨w, converted, own, full⟩ :=
        convertNumeric_of_numeric (eq_primitive known source) numeric accepts
      have type := eq_primitive accepted target
      refine ⟨w, ?_⟩
      rw [target]
      show (convertNumeric v t).bind _ = _
      rw [converted, Option.bind_some]
      exact Value.get?_of_typeOf (own.trans type.symm) full

theorem takeArgument_ok {mode : ArgMode} (position : Nat) (known : v.typeOf ∈ P.types)
    (accepted : param ∈ P.types) (present : v.isVoid = false)
    (viable : (rank (v.typeHash P.facts) (P.facts.hash param)).isViable = true)
    (fits : mode = .exact → v.typeHash P.facts = P.facts.hash param) :
    ∃ datum, Callable.takeArgument P.facts mode position param v = .ok datum := by
  obtain ⟨datum, converted⟩ := coerce_of_viable known accepted present viable
  unfold Callable.takeArgument
  split
  · exact ⟨_, rfl⟩
  · rename_i other
    rw [Value.get?_of_typeOf (P.distinct known accepted (fits rfl)) present] at other
    cases other
  · rw [converted]
    exact ⟨datum, rfl⟩

/-- A call whose arguments all have viable ranks takes them, each as a datum of its parameter's
type. -/
theorem takeArguments_ok {mode : ArgMode} {params : List TypeKey} {args : List Value}
    (viable : List.Forall₂
      (fun v p => (rank (Value.typeHash P.facts v) (P.facts.hash p)).isViable = true) args params)
    (known : ∀ v ∈ args, v.typeOf ∈ P.types) (accepted : ∀ p ∈ params, p ∈ P.types)
    (present : ∀ v ∈ args, v.isVoid = false)
    (fits : mode = .exact → args.map (Value.typeHash P.facts) = params.map P.facts.hash)
    (position : Nat) :
    ∃ taken, Callable.takeArguments P.facts mode position params args = .ok taken ∧
      taken.map Value.typeOf = params := by
  induction viable generalizing position with
  | nil => exact ⟨[], rfl, rfl⟩
  | @cons v param args params first _ ih =>
    have heads := fun exact => (List.cons.inj (fits exact)).1
    have tails := fun exact => (List.cons.inj (fits exact)).2
    obtain ⟨datum, one⟩ := takeArgument_ok position (known v List.mem_cons_self)
      (accepted param List.mem_cons_self) (present v List.mem_cons_self) first heads
    obtain ⟨rest, others, types⟩ := ih (fun w listed => known w (List.mem_cons_of_mem v listed))
      (fun p listed => accepted p (List.mem_cons_of_mem param listed))
      (fun w listed => present w (List.mem_cons_of_mem v listed)) tails (position + 1)
    refine ⟨datum :: rest, ?_, ?_⟩
    · rw [Callable.takeArguments, one, others]
      rfl
    · rw [List.map_cons, Callable.typeOf_takeArgument one, types]

end Program

end TypeCatalog
