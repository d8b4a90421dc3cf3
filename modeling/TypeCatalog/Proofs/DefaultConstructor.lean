import TypeCatalog.Image.Export
import TypeCatalog.Image.Merge
import TypeCatalog.Proofs.Resolution
import TypeCatalog.Proofs.Selection

/-!
Construction without arguments. The first constructor without parameters is taken, and the others are
not looked at. Among candidates for no arguments all that can be taken cost nothing, and the order of
declaration decides between them; so comparing all constructors leads to the same one, or to no other
outcome if each of them has a parameter.
-/
namespace TypeCatalog

section

variable {candidates : List (List TypeHash)} {params : List TypeHash}

theorem takes_nil_iff : Takes params [] ↔ params = [] := by
  cases params with
  | nil => exact iff_of_true .nil rfl
  | cons param rest => exact iff_of_false nofun nofun

theorem callScore_nil (index : Nat) (params : List TypeHash) :
    callScore index params [] = ⟨0, 0, 0, index⟩ := by
  simp [callScore, callRanks]

/-- Of the candidates without parameters, the one declared first is chosen. -/
theorem first_of_resolve_nil {chosen : Resolution} (resolved : resolve candidates [] = .ok chosen) :
    candidates[chosen.index]? = some [] ∧ chosen.bindings = [] ∧
      ∀ earlier < chosen.index, candidates[earlier]? ≠ some [] := by
  obtain ⟨params, listed, takes, score, bindings, least⟩ := resolve_least resolved
  obtain rfl := takes_nil_iff.mp takes
  refine ⟨listed, by rw [bindings]; rfl, fun earlier less there => ?_⟩
  have better := Score.better_iff.mpr (least earlier [] there .nil (Nat.ne_of_lt less))
  rw [score, callScore_nil, callScore_nil] at better
  simp only [Score.Better] at better
  omega

theorem no_bare_of_resolve_nil {diagnostics : OverloadDiagnostics}
    (failed : resolve candidates [] = .error diagnostics) : [] ∉ candidates := by
  intro listed
  obtain ⟨chosen, resolved⟩ := resolve_isOk_iff.mpr ⟨[], listed, .nil⟩
  rw [failed] at resolved
  cases resolved

end

/-- The shortcut and the scores lead to one position. -/
theorem Row.defaultConstructor?_eq (row : Row) : row.defaultConstructor? =
    (resolve (row.constructors.map Constructor.params) []).toOption.map Resolution.index := by
  cases resolved : resolve (row.constructors.map Constructor.params) [] with
  | ok chosen =>
    obtain ⟨listed, -, before⟩ := first_of_resolve_nil resolved
    rw [List.getElem?_map, Option.map_eq_some_iff] at listed
    obtain ⟨c, there, bare⟩ := listed
    obtain ⟨within, own⟩ := List.getElem?_eq_some_iff.mp there
    refine List.findIdx?_eq_some_iff_getElem.mpr ⟨within, by simp [own, bare], ?_⟩
    intro earlier less
    have filled := before earlier less
    rw [List.getElem?_map, List.getElem?_eq_getElem (Nat.lt_trans less within)] at filled
    simpa using filled
  | error diagnostics =>
    have none := no_bare_of_resolve_nil resolved
    refine List.findIdx?_eq_none_iff.mpr fun c listed => ?_
    rw [List.isEmpty_eq_false_iff]
    exact fun bare => none (List.mem_map.mpr ⟨c, listed, bare⟩)

namespace Registry

variable {r : Registry} {type : TypeHandle} {row : Row}

/-- Resolves a constructor by comparing all of them, whatever the arguments are. -/
def compareConstructors (r : Registry) (type : TypeHandle) (args : List TypeHash) :
    Except QueryError ResolvedCall := do
  let row ← orStale (r.row? type)
  if row.constructors.isEmpty then .error .notConstructible
  else
    let candidates := row.constructors.map Constructor.params
    let resolution ← chooseOverload row.name.text candidates args
    r.constructorAt type resolution.index resolution.bindings

/-- Nobody can tell that constructors are not compared where there are no arguments. -/
theorem resolveConstructor_eq_compare (r : Registry) (type : TypeHandle) (args : List TypeHash) :
    r.resolveConstructor type args = r.compareConstructors type args := by
  unfold resolveConstructor compareConstructors
  refine bind_congr fun row => ?_
  split
  · rfl
  · split
    · rename_i position default
      rw [Row.defaultConstructor?_eq] at default
      cases resolved : resolve (row.constructors.map Constructor.params) [] with
      | ok chosen =>
        rw [resolved] at default
        cases Option.some.inj default
        simp only [chooseOverload, resolved]
        rw [← (first_of_resolve_nil resolved).2.1]
        rfl
      | error diagnostics =>
        rw [resolved] at default
        cases default
    · rfl

/-- The call of a constructor of a row. -/
theorem constructorAt_eq (live : r.row? type = some row) {position : Nat} {c : Constructor}
    (there : row.constructors[position]? = some c) (bindings : List ArgBinding) :
    r.constructorAt type position bindings = .ok
      { target := .constructor (type.member position)
        name := row.name.text
        params := c.params
        returnType := row.typeHash
        bindings
        callable := c.callable
        upcasts := []
        path := [] } := by
  rw [constructorAt, live]
  show (orStale row.constructors[position]? >>= _) = _
  rw [there]
  rfl

theorem resolveConstructor_of_filled (live : r.row? type = some row)
    (filled : row.constructors ≠ []) (args : List TypeHash) : r.resolveConstructor type args =
      chooseOverload row.name.text (row.constructors.map Constructor.params) args >>=
        fun chosen => r.constructorAt type chosen.index chosen.bindings := by
  have present : row.constructors.isEmpty = false := List.isEmpty_eq_false_iff.mpr filled
  rw [resolveConstructor_eq_compare, compareConstructors, live]
  show (if row.constructors.isEmpty = true then _ else _) = _
  rw [present]
  rfl

/-- A type can be constructed without arguments if it has a constructor without parameters. -/
theorem resolveConstructor_default_iff (live : r.row? type = some row) :
    (∃ call, r.resolveConstructor type [] = .ok call) ↔
      ∃ c ∈ row.constructors, c.params = [] := by
  constructor
  · rintro ⟨call, resolved⟩
    obtain ⟨own, position, bindings, there, made, viable⟩ := resolveConstructor_eq_ok resolved
    cases Option.some.inj (live.symm.trans there)
    obtain ⟨same, c, there, present, -⟩ := constructorAt_eq_ok made
    cases Option.some.inj (live.symm.trans there)
    exact ⟨c, List.mem_of_getElem? present, takes_nil_iff.mp (viable c present)⟩
  · rintro ⟨c, listed, bare⟩
    obtain ⟨chosen, resolved⟩ :=
      resolve_isOk_iff.mpr ⟨[], List.mem_map.mpr ⟨c, listed, bare⟩, .nil⟩
    have first := (first_of_resolve_nil resolved).1
    rw [List.getElem?_map, Option.map_eq_some_iff] at first
    obtain ⟨d, there, -⟩ := first
    rw [resolveConstructor_of_filled live (List.ne_nil_of_mem listed), chooseOverload, resolved]
    exact ⟨_, constructorAt_eq live there chosen.bindings⟩

/-- Without arguments, a type with constructors is constructed as if all of them had been compared:
by the first of those that have no parameters, which is what comparing chooses, and with no binding;
or, if each has a parameter, not at all, for the reasons that comparing tells. -/
theorem default_constructor_as_compared (live : r.row? type = some row)
    (filled : row.constructors ≠ []) :
    match resolve (row.constructors.map Constructor.params) [] with
    | .ok chosen => ∃ c, row.constructors[chosen.index]? = some c ∧ c.params = [] ∧
        chosen.bindings = [] ∧
        (∀ earlier < chosen.index, ∀ d, row.constructors[earlier]? = some d → d.params ≠ []) ∧
        r.resolveConstructor type [] = .ok
          { target := .constructor (type.member chosen.index)
            name := row.name.text
            params := []
            returnType := row.typeHash
            bindings := []
            callable := c.callable
            upcasts := []
            path := [] }
    | .error diagnostics => (∀ c ∈ row.constructors, c.params ≠ []) ∧
        r.resolveConstructor type [] = .error (.noViableOverload row.name.text diagnostics) := by
  have compared := resolveConstructor_of_filled live filled []
  cases resolved : resolve (row.constructors.map Constructor.params) [] with
  | ok chosen =>
    obtain ⟨listed, bindings, before⟩ := first_of_resolve_nil resolved
    rw [List.getElem?_map, Option.map_eq_some_iff] at listed
    obtain ⟨c, there, bare⟩ := listed
    refine ⟨c, there, bare, bindings, fun earlier less d found bare' => ?_, ?_⟩
    · exact before earlier less (by rw [List.getElem?_map, found, ← bare']; rfl)
    · rw [compared, chooseOverload, resolved, ← bare, ← bindings]
      exact constructorAt_eq live there chosen.bindings
  | error diagnostics =>
    refine ⟨fun c listed bare => ?_, ?_⟩
    · exact no_bare_of_resolve_nil resolved (List.mem_map.mpr ⟨c, listed, bare⟩)
    · rw [compared, chooseOverload, resolved]
      rfl

def i32Hash : TypeHash := (PrimitiveKind.integer ⟨true, .w32⟩).typeHash

def maker (number : Nat) (params : List TypeKey) : Callable where
  number := number
  access := .none
  params := params
  body object _ := ⟨.variant "T" "", object⟩

def makers : ExportTable :=
  ⟨[.callable (maker 0 [.primitive (.integer ⟨true, .w32⟩)]), .callable (maker 1 [])]⟩

/-- The image of a type with two constructors without parameters, which no description can declare. -/
def severalConstructors : Image.Sections where
  texts := (Image.TextTable.add {} "T").2
  types := [⟨⟨0, 1⟩, 7, 0, 1, 1, 4, ⟨0, 0⟩, ⟨0, 0⟩, ⟨0, 3⟩, ⟨0, 0⟩⟩]
  constructors := [⟨1, ⟨0, 1⟩, ⟨0, 0⟩⟩, ⟨2, ⟨0, 0⟩, ⟨0, 0⟩⟩, ⟨3, ⟨0, 0⟩, ⟨0, 0⟩⟩]
  params := [i32Hash.value]
  constructorSlots := [0, 1, 1]
  exports := makers

def mergedConstructors : Registry :=
  (({} : Registry).merge makers severalConstructors.image {}).2

/-- The second of three constructors is taken, and the third, which has no parameters either, not. -/
theorem first_of_merged_constructors_taken :
    ∃ row, mergedConstructors.row? ⟨⟨0, 0⟩⟩ = some row ∧
      row.constructors.map Constructor.params = [[i32Hash], [], []] ∧
      ∃ call, mergedConstructors.resolveConstructor ⟨⟨0, 0⟩⟩ [] = .ok call ∧
        call.target = .constructor (TypeHandle.member ⟨⟨0, 0⟩⟩ 1) ∧ call.bindings = [] := by
  have merged : (mergedConstructors.row? ⟨⟨0, 0⟩⟩).any (fun row =>
      row.constructors.map Constructor.params = [[i32Hash], [], []]) = true := by
    decide +kernel
  have index : (resolve [[i32Hash], [], []] []).toOption.map Resolution.index = some 1 := by
    decide +kernel
  obtain ⟨row, live, params⟩ := (Option.any_eq_true _ _).mp merged
  rw [decide_eq_true_eq] at params
  have filled : row.constructors ≠ [] := by
    rintro none
    simp [none] at params
  have compared := default_constructor_as_compared live filled
  rw [params] at compared
  cases resolved : resolve [[i32Hash], [], []] [] with
  | ok chosen =>
    rw [resolved] at compared index
    obtain ⟨c, -, -, -, -, taken⟩ := compared
    have second : chosen.index = 1 := Option.some.inj index
    rw [second] at taken
    exact ⟨row, live, params, _, taken, rfl, rfl⟩
  | error diagnostics =>
    rw [resolved] at index
    cases index

end Registry

end TypeCatalog
