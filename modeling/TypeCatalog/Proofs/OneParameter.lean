import TypeCatalog.Proofs.Extending
import TypeCatalog.Proofs.OverloadOrder
import TypeCatalog.Proofs.Signatures

/-!
Overloads that differ in the type of one parameter. A signature takes in the parameters one after
another, and each step can be undone both in what has been taken in before and in the parameter; so
wherever a parameter stands, and whatever stands before and behind it, another type in its place makes
another signature. Such overloads are never taken for each other: a type gets all of them, and a
function is registered as though the others were not there.
-/
namespace TypeCatalog

namespace TypeHash

variable {params others : List TypeHash}

/-- The type at a position is told, whatever the position. -/
theorem foldParams_set_eq_iff {i : Nat} (within : i < params.length) (position : Nat)
    (hash : UInt64) (type : TypeHash) :
    foldParams position hash (params.set i type) = foldParams position hash params ↔
      type = params[i] := by
  induction params generalizing i position hash with
  | nil => exact absurd within (Nat.not_lt_zero i)
  | cons param params ih =>
    cases i with
    | zero =>
      rw [List.set_cons_zero, foldParams, foldParams, foldParams_inj, UInt64.add_right_inj,
        UInt64.xor_right_inj, List.getElem_cons_zero]
      exact ⟨fun same => congrArg TypeHash.mk same, congrArg TypeHash.value⟩
    | succ i => exact ih (Nat.lt_of_succ_lt_succ within) _ _

/-- Whether parameters are as many as others and differ from them at one position only. -/
def OneApart (params others : List TypeHash) : Prop :=
  ∃ i type, ∃ within : i < params.length, type ≠ params[i] ∧ others = params.set i type

theorem OneApart.foldParams_ne (apart : OneApart params others) (hash : UInt64) :
    foldParams 0 hash others ≠ foldParams 0 hash params := by
  obtain ⟨i, type, within, differs, rfl⟩ := apart
  exact mt (foldParams_set_eq_iff within 0 hash type).mp differs

theorem OneApart.ofFunction_ne (apart : OneApart params others) (name : String) :
    ofFunction name others ≠ ofFunction name params :=
  fun same => apart.foldParams_ne _ (congrArg value same)

theorem OneApart.ofMethod_ne (apart : OneApart params others) (owner : TypeHash) (name : String) :
    ofMethod owner name others ≠ ofMethod owner name params :=
  fun same => apart.foldParams_ne _ (congrArg value same)

theorem OneApart.ofConstructor_ne (apart : OneApart params others) (owner : TypeHash) :
    ofConstructor owner others ≠ ofConstructor owner params :=
  fun same => apart.foldParams_ne _ (congrArg value same)

end TypeHash

/-- Items of different keys are only left out where their keys are taken. -/
theorem unseen_of_pairwise {α κ : Type} [DecidableEq κ] {key : α → κ} {items : List α}
    (different : items.Pairwise fun a b => key b ≠ key a) (taken : List κ) :
    unseen key taken items = items.filter (key · ∉ taken) := by
  induction items generalizing taken with
  | nil => rfl
  | cons a rest ih =>
    obtain ⟨first, others⟩ := List.pairwise_cons.mp different
    rw [unseen, List.filter_cons]
    by_cases known : key a ∈ taken
    · rw [if_pos known, if_neg (by simpa using known), ih others]
    · rw [if_neg known, if_pos (by simpa using known), ih others]
      congr 1
      apply List.filter_congr
      intro b listed
      simp [first b listed]

/-- Whether the signature of a method is that of its owner, its name and its parameters. -/
def Method.SignedFor (owner : TypeHash) (m : Method) : Prop :=
  m.signature = .ofMethod owner m.name.text m.params

def Constructor.SignedFor (owner : TypeHash) (c : Constructor) : Prop :=
  c.signature = .ofConstructor owner c.params

namespace Row

theorem methods_foldl (row : Row) (methods : List Method) :
    (methods.foldl addMethod row).methods =
      row.methods ++ unseen Method.signature (row.methods.map Method.signature) methods :=
  foldl_unseen Method.signature addMethod Row.methods id (fun _ methods => methods)
    (fun _ _ => rfl) (fun _ _ _ => rfl) (fun _ => rfl) (fun _ _ => apply_ite Row.methods _ _ _)
    methods row

theorem constructors_foldl (row : Row) (constructors : List Constructor) :
    (constructors.foldl addConstructor row).constructors = row.constructors ++
      unseen Constructor.signature (row.constructors.map Constructor.signature) constructors :=
  foldl_unseen Constructor.signature addConstructor Row.constructors id
    (fun _ constructors => constructors) (fun _ _ => rfl) (fun _ _ _ => rfl) (fun _ => rfl)
    (fun _ _ => apply_ite Row.constructors _ _ _) constructors row

/-- Of overloads of one name that are one parameter apart none is left out for another. -/
theorem methods_apart {owner : TypeHash} {name : String} {methods : List Method}
    (signed : ∀ m ∈ methods, m.SignedFor owner ∧ m.name.text = name)
    (apart : methods.Pairwise fun m n => TypeHash.OneApart m.params n.params) (row : Row) :
    (methods.foldl addMethod row).methods =
      row.methods ++ methods.filter (·.signature ∉ row.methods.map Method.signature) := by
  rw [methods_foldl, unseen_of_pairwise]
  refine apart.imp_of_mem fun {m n} first second differ => ?_
  obtain ⟨own, rfl⟩ := signed m first
  obtain ⟨other, named⟩ := signed n second
  rw [own, other, named]
  exact differ.ofMethod_ne owner m.name.text

theorem constructors_apart {owner : TypeHash} {constructors : List Constructor}
    (signed : ∀ c ∈ constructors, c.SignedFor owner)
    (apart : constructors.Pairwise fun c d => TypeHash.OneApart c.params d.params) (row : Row) :
    (constructors.foldl addConstructor row).constructors = row.constructors ++
      constructors.filter (·.signature ∉ row.constructors.map Constructor.signature) := by
  rw [constructors_foldl, unseen_of_pairwise]
  refine apart.imp_of_mem fun {c d} first second differ => ?_
  rw [signed c first, signed d second]
  exact differ.ofConstructor_ne owner

end Row

namespace Script

open Play

theorem signed_sketch (u : Universe) (type : TypeKey) (decls : List Decl) :
    let declared := decls.foldl (Decl.sketch u type) {}
    (∀ m ∈ declared.methods, m.SignedFor (u.hash type)) ∧
      ∀ c ∈ declared.constructors, c.SignedFor (u.hash type) := by
  refine List.foldlRecOn decls (Decl.sketch u type) (motive := fun d =>
    (∀ m ∈ d.methods, m.SignedFor (u.hash type)) ∧
      ∀ c ∈ d.constructors, c.SignedFor (u.hash type)) ?_ ?_
  · constructor
    · simp
    · simp
  intro d signed decl _
  cases decl with
  | method => exact ⟨forall_mem_push.mpr ⟨signed.1, rfl⟩, signed.2⟩
  | constructor => exact ⟨signed.1, forall_mem_push.mpr ⟨signed.2, rfl⟩⟩
  | _ => exact signed

/-- All that a pass over a type declares is signed for the type. -/
theorem signed_declared {w : World} {depth : Nat} {p : Pass} {decls : List Decl} {s t : Session}
    {draft : Draft}
    (declared : (decls.foldlM (declare w depth p) {}).outcome s = (.ok draft, t)) :
    (∀ m ∈ draft.methods, m.SignedFor (w.types.hash p.type)) ∧
      ∀ c ∈ draft.constructors, c.SignedFor (w.types.hash p.type) := by
  have sketched := answers_sketches w depth p decls {} s draft t declared
  obtain ⟨methods, constructors⟩ := signed_sketch w.types p.type decls
  rw [show Draft.unnumbered {} = {} from rfl] at sketched
  rw [← sketched] at methods constructors
  exact ⟨fun m listed => methods m.unnumbered (List.mem_map_of_mem listed),
    fun c listed => constructors c.unnumbered (List.mem_map_of_mem listed)⟩

end Script

namespace Registry

variable {r : Registry} {params others : List TypeHash} {name : String} {owner by_ : ModuleId}
  {result : TypeHash} {callable : Callable}

/-- The handle that is answered is that of a function with the signature that has been asked for. -/
theorem signature_of_addFunction {s : Registry} {h : FunctionHandle} (held : r.FunctionsHeld)
    (added : r.addFunction owner name params result callable = (.ok h, s)) :
    ∃ row, s.functionRow? h = some row ∧ row.signature = .ofFunction name params := by
  by_cases taken : ∃ k row, r.functionRow? k = some row ∧ row.signature = .ofFunction name params
  · obtain ⟨k, row, alive, same⟩ := taken
    rw [addFunction_found held alive same] at added
    split at added
    · cases added
      exact ⟨row, alive, same⟩
    · cases added
  · obtain ⟨k, t, entered, appends⟩ := addFunction_appends held owner name params result callable
      fun k row alive same => taken ⟨k, row, alive, same⟩
    rw [entered] at added
    cases added
    exact ⟨_, by rw [appends.rows, if_pos rfl], rfl⟩

/-- A function that has been added is not found by the signature of an overload one parameter apart
from it. -/
theorem functionBySignature?_apart (held : r.FunctionsHeld)
    (apart : TypeHash.OneApart params others) :
    (r.addFunction owner name params result callable).2.functionBySignature?
        (.ofFunction name others) = r.functionBySignature? (.ofFunction name others) := by
  by_cases taken : ∃ h row, r.functionRow? h = some row ∧ row.signature = .ofFunction name params
  · obtain ⟨h, row, alive, same⟩ := taken
    rw [addFunction_found held alive same]
  · obtain ⟨h, s, added, appends⟩ := addFunction_appends held owner name params result callable
      fun h row alive same => taken ⟨h, row, alive, same⟩
    have later := addFunction_held held owner name params result callable
    rw [added] at later ⊢
    ext ⟨k, row⟩
    rw [later.functionBySignature?_iff, held.functionBySignature?_iff, appends.rows]
    by_cases own : k = h
    · subst own
      rw [if_pos rfl, appends.new]
      refine ⟨fun ⟨new, same⟩ => ?_, fun ⟨old, _⟩ => nomatch old⟩
      cases new
      exact absurd same.symm (apart.ofFunction_ne name)
    · rw [if_neg own]

/-- An overload of a function that is one parameter apart from one just added: what has its signature
already is another function, and otherwise it is entered as a function of its own. -/
theorem addFunction_apart (held : r.FunctionsHeld) (apart : TypeHash.OneApart params others)
    (otherResult : TypeHash) (otherCallable : Callable) :
    let first := r.addFunction owner name params result callable
    let second := first.2.addFunction by_ name others otherResult otherCallable
    (∀ k row, r.functionRow? k = some row → row.signature = .ofFunction name others →
      first.1 ≠ .ok k ∧ second = (if row.owner = by_ then .ok k
        else .error (.duplicateRegistration name "function"), first.2)) ∧
    ((∀ k row, r.functionRow? k = some row → row.signature ≠ .ofFunction name others) →
      ∃ k, second.1 = .ok k ∧ first.2.Appends second.2 k
        ⟨(first.2.intern name by_).1, by_, others, otherResult, .ofFunction name others,
          otherCallable⟩) := by
  intro first second
  have later : first.2.FunctionsHeld := addFunction_held held owner name params result callable
  have same : first.2.functionBySignature? (.ofFunction name others) =
      r.functionBySignature? (.ofFunction name others) := functionBySignature?_apart held apart
  constructor
  · intro k row alive signature
    have there := held.functionBySignature?_iff.mpr ⟨alive, signature⟩
    obtain ⟨after, -⟩ := later.functionBySignature?_iff.mp (same.trans there)
    refine ⟨fun answered => ?_, addFunction_found later after signature by_ _ _⟩
    obtain ⟨own, here, asked⟩ := signature_of_addFunction held (Prod.ext answered rfl)
    cases here.symm.trans after
    exact apart.ofFunction_ne name (signature.symm.trans asked)
  · intro absent
    obtain ⟨k, s, added, appends⟩ := addFunction_appends later by_ name others otherResult
      otherCallable fun k row alive signature => by
        have there := later.functionBySignature?_iff.mpr ⟨alive, signature⟩
        obtain ⟨before, -⟩ := held.functionBySignature?_iff.mp (same.symm.trans there)
        exact absent k row before signature
    exact ⟨k, congrArg Prod.fst added, by rwa [show second.2 = s from congrArg Prod.snd added]⟩

end Registry

namespace Script

open Catalog TypeHash in
/-- Another type at any one position of any list of parameters makes another signature of a method, of
a function and of a constructor. What a pass over a type declares is signed for the type; and of
methods of one name that are signed for one owner, and differ pairwise in the type of one parameter,
every row gets all in their order, but for such as have the signature of a method that the row had
before: none is left out for another of them. Constructors likewise. In every registry that can be
reached, a function that differs in the type of one parameter from one added before it is never
answered with that one's handle, and is not refused for it: if no other function has its signature,
it is entered and comes last among those of its name. -/
theorem overloads_told_by_one_parameter :
    (∀ (params : List TypeHash) i (within : i < params.length) type, type ≠ params[i] →
      (∀ owner name, ofMethod owner name (params.set i type) ≠ ofMethod owner name params) ∧
      (∀ name, ofFunction name (params.set i type) ≠ ofFunction name params) ∧
      ∀ owner, ofConstructor owner (params.set i type) ≠ ofConstructor owner params) ∧
    (∀ (w : World) depth p (decls : List Decl) s (draft : Draft) t,
      Play.outcome (decls.foldlM (declare w depth p) {}) s = (.ok draft, t) →
      (∀ m ∈ draft.methods, m.SignedFor (w.types.hash p.type)) ∧
        ∀ c ∈ draft.constructors, c.SignedFor (w.types.hash p.type)) ∧
    (∀ owner name (methods : List Method),
      (∀ m ∈ methods, m.SignedFor owner ∧ m.name.text = name) →
      (methods.Pairwise fun m n => OneApart m.params n.params) → ∀ row : Row,
        (methods.foldl Row.addMethod row).methods =
          row.methods ++ methods.filter (·.signature ∉ row.methods.map Method.signature)) ∧
    (∀ owner (constructors : List Constructor), (∀ c ∈ constructors, c.SignedFor owner) →
      (constructors.Pairwise fun c d => OneApart c.params d.params) → ∀ row : Row,
        (constructors.foldl Row.addConstructor row).constructors = row.constructors ++
          constructors.filter (·.signature ∉ row.constructors.map Constructor.signature)) ∧
    ∀ u c, Reachable u c → ∀ n owner by_ name params others result otherResult callable
      otherCallable, OneApart params others →
      let r := c.registry n
      let first := r.addFunction owner name params result callable
      let second := first.2.addFunction by_ name others otherResult otherCallable
      (∀ k row, r.functionRow? k = some row → row.signature = ofFunction name others →
        first.1 ≠ .ok k ∧ second = (if row.owner = by_ then .ok k
          else .error (.duplicateRegistration name "function"), first.2)) ∧
      ((∀ k row, r.functionRow? k = some row → row.signature ≠ ofFunction name others) →
        ∃ k, second.1 = .ok k ∧ first.2.Appends second.2 k
          ⟨(first.2.intern name by_).1, by_, others, otherResult, ofFunction name others,
            otherCallable⟩) := by
  refine ⟨fun params i within type differs => ?_, fun w depth p decls s draft t => signed_declared,
    fun owner name methods signed apart row => Row.methods_apart signed apart row,
    fun owner constructors signed apart row => Row.constructors_apart signed apart row, ?_⟩
  · have apart : OneApart params (params.set i type) := ⟨i, type, within, differs, rfl⟩
    exact ⟨apart.ofMethod_ne, apart.ofFunction_ne, apart.ofConstructor_ne⟩
  · intro u c reachable n owner by_ name params others result otherResult callable otherCallable
      apart
    exact Registry.addFunction_apart (reachable.functionsHeld n) apart otherResult otherCallable

/-- A description of two methods that differ in their second parameter, of which a type gets both; and
two functions of one name. -/
theorem overloads_of_both_types_kept :
    let i32 := Gallery.knownTypes.hash Gallery.i32
    let f64 := Gallery.knownTypes.hash Gallery.f64
    let mul (param : TypeKey) : Decl := .method .shared "mul" [Gallery.i32, param] Gallery.string
      (fun object _ => ⟨.void, object⟩) []
    let drafted := Play.outcome ([mul Gallery.i32, mul Gallery.f64].foldlM
      (declare (describing []) 8 ⟨0, .user "B", ⟨⟨0, 0⟩⟩, .host⟩) {}) oneRegistry
    let add (r : Registry) (by_ : ModuleId) (params : List TypeHash) :=
      r.addFunction by_ "f" params i32 ⟨0, .none, [], fun object _ => ⟨.void, object⟩⟩
    TypeHash.ofConstructor i32 [i32, f64] ≠ .ofConstructor i32 [i32, i32] ∧
    (∃ draft, drafted.1 = .ok draft ∧ ∀ row : Row, row.methods = [] →
      (draft.methods.foldl Row.addMethod row).methods.map Method.params =
        [[i32, i32], [i32, f64]]) ∧
    ∃ k, (add (add (oneFunction.registry 0) (.ofName "one") [i32]).2 (.ofName "two") [f64]).1 =
      .ok k := by
  intro i32 f64 mul drafted add
  have differs : f64 ≠ i32 := by decide +kernel
  obtain ⟨hashes, declared, methods, -, functions⟩ := overloads_told_by_one_parameter
  refine ⟨(hashes [i32, i32] 1 (by decide) f64 differs).2.2 i32, ?_, ?_⟩
  · have shown : drafted.1.toOption.map (fun d => d.methods.map fun m => (m.name.text, m.params)) =
        some [("mul", [i32, i32]), ("mul", [i32, f64])] := by
      decide +kernel
    rcases ran : drafted with ⟨answer, t⟩
    rw [ran] at shown
    cases answer with
    | error => cases shown
    | ok draft =>
      have told : draft.methods.map (fun m => (m.name.text, m.params)) = _ := Option.some.inj shown
      have lists : draft.methods.map Method.params = [[i32, i32], [i32, f64]] := by
        have seconds := congrArg (List.map Prod.snd) told
        rwa [List.map_map] at seconds
      have named : ∀ m ∈ draft.methods, m.name.text = "mul" := by
        intro m listed
        have there := List.mem_map_of_mem (f := fun m => (m.name.text, m.params)) listed
        rw [told] at there
        rcases List.mem_pair.mp there with same | same <;> exact congrArg Prod.fst same
      have apart : draft.methods.Pairwise fun m n => TypeHash.OneApart m.params n.params := by
        have pair : [[i32, i32], [i32, f64]].Pairwise TypeHash.OneApart :=
          List.pairwise_pair.mpr ⟨1, f64, by decide, differs, rfl⟩
        exact List.pairwise_map.mp (lists ▸ pair)
      have signed := (declared _ _ _ _ _ draft t ran).1
      refine ⟨draft, rfl, fun row bare => ?_⟩
      rw [methods _ "mul" draft.methods (fun m listed => ⟨signed m listed, named m listed⟩) apart,
        bare]
      simpa using lists
  · have absent : (oneFunction.registry 0).functionRows.all
        (fun entry => entry.2.signature ≠ .ofFunction "f" [f64]) = true := by
      decide +kernel
    obtain ⟨k, entered, -⟩ := (functions _ _ oneFunction_ready.1 0 (.ofName "one") (.ofName "two") "f"
      [i32] [f64] i32 i32 _ _ ⟨0, f64, Nat.one_pos, differs, rfl⟩).2 fun h row alive =>
        of_decide_eq_true (List.all_eq_true.mp absent _ (Registry.mem_functionRows.mpr alive))
    exact ⟨k, entered⟩

end Script

end TypeCatalog
