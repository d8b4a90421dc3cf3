import TypeCatalog.Proofs.Refusals
import TypeCatalog.Proofs.Removal

/-!
The order of overloads. The functions of a name are listed in the order in which they have been
registered, each once, whatever has been removed in between and whichever slots have been used again.
A further function of a signature is never entered: the module that has it gets its handle, and any
other module is refused.
-/
namespace TypeCatalog

namespace Registry

variable {r s : Registry} {h k : FunctionHandle} {row : FunctionRow} {order : List FunctionHandle}

theorem isFunctionAlive_iff : r.isFunctionAlive h = true ↔ ∃ row, r.functionRow? h = some row :=
  Option.isSome_iff_exists

theorem mem_functionRows : (h, row) ∈ r.functionRows ↔ r.functionRow? h = some row := by
  rw [functionRows, List.mem_map, functionRow?, ← SlotTable.mem_rows]
  constructor
  · rintro ⟨entry, listed, same⟩
    cases same
    exact listed
  · intro listed
    exact ⟨_, listed, rfl⟩

theorem nodup_functionRows (r : Registry) : (r.functionRows.map (·.1)).Nodup := by
  have slots : (r.functions.rows.map (·.1.index)).Nodup :=
    (SlotTable.pairwise_index_rows _).imp Nat.ne_of_lt
  have same : (r.functionRows.map (·.1)).map (·.slot.index) = r.functions.rows.map (·.1.index) := by
    simp [functionRows, Function.comp_def]
  exact List.Nodup.of_map _ (same ▸ slots)

/-- What the registration of a function behind the handle `h` makes of the registry `r`. -/
structure Appends (r s : Registry) (h : FunctionHandle) (row : FunctionRow) : Prop where
  new : r.functionRow? h = none
  rows : ∀ k, s.functionRow? k = if k = h then some row else r.functionRow? k
  named : ∀ text, s.functionsNamed text =
    r.functionsNamed text ++ if text = row.name.text then [h] else []

theorem functionRow?_insertFunction (free : r.functions.FreeExact) (row : FunctionRow)
    (k : FunctionHandle) : (r.insertFunction row).2.functionRow? k =
      if k = (r.insertFunction row).1 then some row else r.functionRow? k := by
  have same : k = ⟨(r.functions.insert row).1⟩ ↔ k.slot = (r.functions.insert row).1 :=
    ⟨fun equal => equal ▸ rfl, fun equal => equal ▸ rfl⟩
  show (r.functions.insert row).2.get? k.slot = if k = ⟨(r.functions.insert row).1⟩ then _ else _
  simp only [same]
  exact SlotTable.get?_insert free row k.slot

theorem functionsNamed_insertFunction (held : r.FunctionsHeld) {user : ModuleId}
    (own : r.names.Holds user row.name) (text : String) :
    (r.insertFunction row).2.functionsNamed text =
      r.functionsNamed text ++ if text = row.name.text then [(r.insertFunction row).1] else [] := by
  have functions : (r.insertFunction row).2.functions = (r.functions.insert row).2 := rfl
  have names : (r.insertFunction row).2.names = r.names := rfl
  have handle : (r.insertFunction row).1 = ⟨(r.functions.insert row).1⟩ := rfl
  have lists := overloads_insertFunction r row
  have refs := SlotTable.refAt?_insert held.free row
  have unused := SlotTable.rowAt?_insert_index held.free row
  rw [functionsNamed_eq, functionsNamed_eq, functions, names, handle]
  generalize r.functions.insert row = inserted at lists refs unused ⊢
  obtain ⟨ref, table⟩ := inserted
  dsimp only at lists refs unused ⊢
  have last : table.refAt? ref.index = some ref := by rw [refs, if_pos rfl]
  have old : ∀ name, (r.overloads name).filterMap table.refAt? =
      (r.overloads name).filterMap r.functions.refAt? := by
    intro name
    apply List.filterMap_congr
    intro slot listed
    rw [refs, if_neg]
    rintro rfl
    obtain ⟨other, present, _⟩ := (held.listed name _).mp listed
    simp [unused] at present
  have known : r.names.find? text = some row.name.id ↔ text = row.name.text :=
    own.find?_iff
  cases found : r.names.find? text with
  | none =>
    have other : text ≠ row.name.text := fun same => by simp [known.mpr same] at found
    simp [other]
  | some id =>
    rw [found, Option.some.injEq] at known
    by_cases same : text = row.name.text
    · simp [lists, old, last, same, known.mpr same]
    · simp [lists, old, same, mt known.mp same]

/-- The function that is entered where no function has its signature. -/
theorem addFunction_appends (held : r.FunctionsHeld) (owner : ModuleId) (name : String)
    (params : List TypeHash) (returnType : TypeHash) (callable : Callable)
    (absent : ∀ h row, r.functionRow? h = some row → row.signature ≠ .ofFunction name params) :
    ∃ h s, r.addFunction owner name params returnType callable = (.ok h, s) ∧
      r.Appends s h ⟨(r.intern name owner).1, owner, params, returnType, .ofFunction name params,
        callable⟩ := by
  have unknown : r.functionBySignature? (.ofFunction name params) = none := by
    rw [Option.eq_none_iff_forall_not_mem]
    rintro ⟨h, row⟩ found
    obtain ⟨alive, same⟩ := held.functionBySignature?_iff.mp found
    exact absent h row alive same
  have entered : r.names.Entered owner (r.intern name owner).2.names := .intern .none name
  have later : (r.intern name owner).2.FunctionsHeld := held.of_tables rfl entered.keeps
  have own : (r.intern name owner).2.names.Holds owner (r.intern name owner).1 :=
    Interner.holds_intern r.names name owner
  have before := held.functionsNamed_of_tables (s := (r.intern name owner).2) rfl entered.keeps
  refine ⟨_, _, by rw [addFunction, unknown], ?_⟩
  constructor
  · exact SlotTable.get?_of_rowAt?_none (SlotTable.rowAt?_insert_index held.free _)
  · exact functionRow?_insertFunction later.free _
  · intro text
    rw [← before]
    exact functionsNamed_insertFunction later own text

/-- A signature that a function has already is not entered again. -/
theorem addFunction_found (held : r.FunctionsHeld) (alive : r.functionRow? h = some row)
    {name : String} {params : List TypeHash} (same : row.signature = .ofFunction name params)
    (owner : ModuleId) (returnType : TypeHash) (callable : Callable) :
    r.addFunction owner name params returnType callable =
      (if row.owner = owner then .ok h else .error (.duplicateRegistration name "function"), r) := by
  rw [addFunction, held.functionBySignature?_iff.mpr ⟨alive, same⟩]

/-- The functions of `s` which `r` does not have. -/
def entered (r s : Registry) : List FunctionHandle :=
  (s.functionRows.map (·.1)).filter fun h => !r.isFunctionAlive h

/-- The order in which the functions of `s` have been registered, where `r` was the registry before
and its functions had been registered in this order. -/
def laterOrder (r s : Registry) (order : List FunctionHandle) : List FunctionHandle :=
  order.filter s.isFunctionAlive ++ r.entered s

def isNamed (r : Registry) (text : String) (h : FunctionHandle) : Bool :=
  (r.functionRow? h).any (·.name.text = text)

/-- Whether this is the order of all functions of a registry, and of those of each name. -/
structure InOrder (r : Registry) (order : List FunctionHandle) : Prop where
  alive : ∀ h, h ∈ order ↔ r.isFunctionAlive h = true
  nodup : order.Nodup
  named : ∀ text, r.functionsNamed text = order.filter (r.isNamed text)

theorem empty_inOrder (config : RegistryConfig) : InOrder { config } [] where
  alive h := by simp [isFunctionAlive, functionRow?, SlotTable.get?, SlotTable.empty]
  nodup := .nil
  named text := rfl

theorem mem_entered : h ∈ r.entered s ↔ s.isFunctionAlive h = true ∧ r.isFunctionAlive h = false := by
  simp [entered, isFunctionAlive_iff, mem_functionRows]

theorem nodup_entered (r s : Registry) : (r.entered s).Nodup := (nodup_functionRows s).filter _

theorem Appends.entered (appends : r.Appends s h row) : r.entered s = [h] := by
  apply List.perm_singleton.mp
  apply (List.perm_ext_iff_of_nodup (nodup_entered r s) (List.nodup_singleton h)).mpr
  intro k
  rw [mem_entered, List.mem_singleton, isFunctionAlive, isFunctionAlive, appends.rows]
  by_cases same : k = h
  · simp [same, appends.new]
  · rw [if_neg same]
    cases r.functionRow? k <;> simp [same]

theorem Appends.inOrder (appends : r.Appends s h row) (inOrder : r.InOrder order) :
    s.InOrder (r.laterOrder s order) := by
  have others : ∀ k ∈ order, k ≠ h ∧ s.functionRow? k = r.functionRow? k := by
    intro k listed
    have differs : k ≠ h := by
      rintro rfl
      simpa [isFunctionAlive, appends.new] using (inOrder.alive k).mp listed
    exact ⟨differs, by rw [appends.rows, if_neg differs]⟩
  have kept : order.filter s.isFunctionAlive = order := by
    apply List.filter_eq_self.mpr
    intro k listed
    rw [isFunctionAlive, (others k listed).2]
    exact (inOrder.alive k).mp listed
  rw [laterOrder, kept, appends.entered]
  constructor
  · intro k
    rw [List.mem_append, inOrder.alive, List.mem_singleton, isFunctionAlive, isFunctionAlive,
      appends.rows]
    by_cases same : k = h <;> simp [same]
  · apply inOrder.nodup.append (List.nodup_singleton h)
    intro k listed last
    exact (others k listed).1 (List.mem_singleton.mp last)
  · intro text
    have old : order.filter (s.isNamed text) = order.filter (r.isNamed text) := by
      apply List.filter_congr
      intro k listed
      rw [isNamed, isNamed, (others k listed).2]
    have own : s.isNamed text h = decide (row.name.text = text) := by
      rw [isNamed, appends.rows, if_pos rfl, Option.any_some]
    rw [appends.named, inOrder.named, List.filter_append, old, List.filter_singleton, own]
    by_cases same : text = row.name.text <;> simp [same, eq_comm]

/-- What a change that registers no function makes of the registry `r`. -/
structure Thins (r s : Registry) : Prop where
  rows : ∀ h row, s.functionRow? h = some row → r.functionRow? h = some row
  named : ∀ text, s.functionsNamed text = (r.functionsNamed text).filter s.isFunctionAlive

theorem isFunctionAlive_of_named {text : String} (listed : h ∈ r.functionsNamed text) :
    r.isFunctionAlive h = true := by
  rw [functionsNamed_eq] at listed
  obtain ⟨ref, there, rfl⟩ := List.mem_map.mp listed
  obtain ⟨slot, -, found⟩ := List.mem_filterMap.mp there
  rw [SlotTable.refAt?_eq] at found
  obtain ⟨row, present, rfl⟩ := Option.map_eq_some_iff.mp found
  exact isFunctionAlive_iff.mpr ⟨row, SlotTable.get?_eq_some_iff.mpr ⟨present, rfl⟩⟩

theorem FunctionsHeld.thins_of_tables (held : r.FunctionsHeld)
    (tables : s.functionTables = r.functionTables) (keeps : r.names.Keeps s.names) :
    r.Thins s := by
  have functions : s.functions = r.functions := congrArg Prod.fst tables
  have rows : ∀ h, s.functionRow? h = r.functionRow? h := fun h => by
    rw [functionRow?, functionRow?, functions]
  constructor
  · intro h row there
    rwa [← rows]
  · intro text
    rw [held.functionsNamed_of_tables tables keeps, eq_comm, List.filter_eq_self]
    intro h listed
    rw [isFunctionAlive, rows]
    exact isFunctionAlive_of_named listed

theorem unregisterModule_thins (held : r.FunctionsHeld) (m : ModuleId) :
    r.Thins (r.unregisterModule m).2 where
  rows _ _ there := (functionRow?_unregisterModule.mp there).1
  named := functionsNamed_unregisterModule held m

theorem Thins.alive (thins : r.Thins s) (left : s.isFunctionAlive h = true) :
    r.isFunctionAlive h = true := by
  obtain ⟨row, there⟩ := isFunctionAlive_iff.mp left
  exact isFunctionAlive_iff.mpr ⟨row, thins.rows h row there⟩

theorem Thins.entered (thins : r.Thins s) : r.entered s = [] := by
  apply List.eq_nil_iff_forall_not_mem.mpr
  intro h new
  obtain ⟨left, gone⟩ := mem_entered.mp new
  simp [thins.alive left] at gone

theorem Thins.inOrder (thins : r.Thins s) (inOrder : r.InOrder order) :
    s.InOrder (r.laterOrder s order) := by
  rw [laterOrder, thins.entered, List.append_nil]
  constructor
  · intro h
    rw [List.mem_filter, inOrder.alive]
    exact ⟨And.right, fun left => ⟨thins.alive left, left⟩⟩
  · exact inOrder.nodup.filter _
  · intro text
    rw [thins.named, inOrder.named, List.filter_comm]
    apply List.filter_congr
    intro h listed
    obtain ⟨row, there⟩ := isFunctionAlive_iff.mp (List.mem_filter.mp listed).2
    rw [isNamed, isNamed, there, thins.rows h row there]

end Registry

/-- Whatever is done to a registry, at most one function is new, and it comes last. -/
theorem Operation.run_overloads {r : Registry} (consistent : r.Consistent) (held : r.FunctionsHeld)
    (op : Operation) : r.Thins (op.run r) ∨ ∃ h row, r.Appends (op.run r) h row := by
  rcases functionTables_run consistent op with
    tables | ⟨owner, name, params, returnType, callable, rfl⟩ | ⟨m, rfl⟩
  · by_cases removed : ∃ m, op = .unregister m
    · obtain ⟨m, rfl⟩ := removed
      exact .inl (Registry.unregisterModule_thins held m)
    · exact .inl (held.thins_of_tables tables (keeps_run consistent fun m same => removed ⟨m, same⟩))
  · rw [run]
    by_cases taken : ∃ h row, r.functionRow? h = some row ∧ row.signature = .ofFunction name params
    · obtain ⟨h, row, alive, same⟩ := taken
      rw [Registry.addFunction_found held alive same]
      exact .inl (held.thins_of_tables rfl (.refl _))
    · obtain ⟨h, s, added, appends⟩ := Registry.addFunction_appends held owner name params
        returnType callable fun h row alive same => taken ⟨h, row, alive, same⟩
      rw [added]
      exact .inr ⟨h, _, appends⟩
  · exact .inl (Registry.unregisterModule_thins held m)

namespace Catalog

variable {u : Universe} {c d : Catalog} {order : Nat → List FunctionHandle}

theorem Step.overloads (step : Step u c d) (reachable : Reachable u c) (n : Nat) :
    (c.registry n).Thins (d.registry n) ∨
      ∃ h row, (c.registry n).Appends (d.registry n) h row := by
  have held := reachable.functionsHeld n
  rcases step.changed n with same | ⟨op, _, _, after⟩
  · rw [same]
    exact .inl (held.thins_of_tables rfl (.refl _))
  · rw [after]
    exact op.run_overloads (reachable.allConsistent n) held

/-- The states that can be reached, with the functions of each registry in the order of their
registration. -/
inductive Chronicle (u : Universe) : Catalog → (Nat → List FunctionHandle) → Prop where
  | start : Chronicle u {} fun _ => []
  | next {c d : Catalog} {order : Nat → List FunctionHandle} (before : Chronicle u c order)
      (step : Step u c d) :
      Chronicle u d fun n => (c.registry n).laterOrder (d.registry n) (order n)

theorem Chronicle.reachable (chronicle : Chronicle u c order) : Reachable u c := by
  induction chronicle with
  | start => exact .refl
  | next _ step ih => exact ih.tail step

theorem Reachable.chronicle (reachable : Reachable u c) : ∃ order, Chronicle u c order := by
  induction reachable with
  | refl => exact ⟨_, .start⟩
  | tail _ step ih =>
    obtain ⟨order, before⟩ := ih
    exact ⟨_, before.next step⟩

theorem Chronicle.inOrder (chronicle : Chronicle u c order) (n : Nat) :
    (c.registry n).InOrder (order n) := by
  induction chronicle generalizing n with
  | start => exact Registry.empty_inOrder {}
  | next before step ih =>
    rcases step.overloads before.reachable n with thins | ⟨h, row, appends⟩
    · exact thins.inOrder (ih n)
    · exact appends.inOrder (ih n)

end Catalog

namespace Script

open Play

variable {w : World} {depth n : Nat} {owner : ModuleId} {source : FunctionSource} {s t : Session}

/-- The row that a function gets, with its number among all callables. -/
def FunctionSource.row (source : FunctionSource) (u : Universe) (name : Name) (owner : ModuleId)
    (number : Nat) : FunctionRow :=
  let params := source.params.map u.hash
  ⟨name, owner, params, u.hash source.result, .ofFunction source.name params,
    source.callable number⟩

theorem outcome_signing_known
    (known : ∀ type ∈ source.types, (s.registry n).Knows (w.types.hash type))
    (ends : ((signing w depth n owner source).outcome s).1 = .ok ()) :
    (signing w depth n owner source).outcome s = (.ok (), s) := by
  rcases done : (signing w depth n owner source).outcome s with ⟨answer, t⟩
  rw [done] at ends
  subst ends
  rw [session_of_signing known done]

/-- The module of a function gets its handle again, and any other module is refused. -/
theorem outcome_entering_found {h : FunctionHandle} {row : FunctionRow}
    (held : (t.registry n).FunctionsHeld) (alive : (t.registry n).functionRow? h = some row)
    (same : row.signature = .ofFunction source.name (source.params.map w.types.hash)) :
    (entering w n owner source).outcome t =
      (if row.owner = owner then .ok h
        else .error (.failed (.registration (.duplicateRegistration source.name "function"))),
      { t with nextNumber := t.nextNumber + 1 }) := by
  have found := Registry.addFunction_found held alive same owner (w.types.hash source.result)
    (source.callable t.nextNumber)
  rw [outcome_entering found, registries_set_registry]
  split <;> rfl

theorem outcome_entering_new (held : (t.registry n).FunctionsHeld) (within : n < t.registries.length)
    (absent : ∀ h row, (t.registry n).functionRow? h = some row →
      row.signature ≠ .ofFunction source.name (source.params.map w.types.hash)) :
    let done := (entering w n owner source).outcome t
    ∃ h name, name.text = source.name ∧
      (t.registry n).Appends (done.2.registry n) h
        (source.row w.types name owner t.nextNumber) ∧
      done = (.ok h, { t with
        nextNumber := t.nextNumber + 1
        registries := t.registries.set n (done.2.registry n) }) := by
  intro done
  obtain ⟨h, r, added, appends⟩ := Registry.addFunction_appends held owner source.name
    (source.params.map w.types.hash) (w.types.hash source.result) (source.callable t.nextNumber)
    absent
  have after := outcome_entering added
  have here : done.2.registry n = r := by
    simp only [done, after]
    exact registry_set within r _ _
  rw [here]
  exact ⟨h, _, Interner.intern_text _ _ _, appends, after⟩

open Catalog in
/-- The overloads of every name are exactly the live functions of this name, each once, in the order
of their registration, whatever slots have been freed and used again in between. No two live
functions have one signature. And once the types of its signature are registered, a function is
entered only if no live function has its signature: if one has, its module gets its handle and
every other module is refused, and the registry stays as it is; if none has, exactly one function is
new, which comes last among those of its name. -/
theorem overload_sets_are_exact {passes : List OpenPass}
    (reachable : Reachable w.types (t.catalog passes)) (n : Nat) :
    let c := t.catalog passes
    let r := t.registry n
    ((∃ order, Chronicle w.types c order) ∧ ∀ order, Chronicle w.types c order → ∀ text,
      r.functionsNamed text = (order n).filter (r.isNamed text)) ∧
    (∀ d, Catalog.Step w.types c d → (r.entered (d.registry n)).length ≤ 1) ∧
    (∀ text, (r.functionsNamed text).Nodup ∧ ∀ h, h ∈ r.functionsNamed text ↔
      ∃ row, r.functionRow? h = some row ∧ row.name.text = text) ∧
    (∀ h k row other, r.functionRow? h = some row → r.functionRow? k = some other →
      row.signature = other.signature → h = k) ∧
    ∀ depth owner source s, n < t.registries.length →
      (signing w depth n owner source).outcome s = (.ok (), t) →
      let signature := TypeHash.ofFunction source.name (source.params.map w.types.hash)
      let done := (addFunction w (depth + 1) n owner source).outcome s
      let counted := { t with nextNumber := t.nextNumber + 1 }
      (∀ h row, r.functionRow? h = some row → row.signature = signature →
        (row.owner = owner → done = (.ok h, counted)) ∧
        (row.owner ≠ owner → done =
          (.error (.failed (.registration (.duplicateRegistration source.name "function"))),
            counted))) ∧
      ((∀ h row, r.functionRow? h = some row → row.signature ≠ signature) →
        ∃ h name, name.text = source.name ∧
          r.Appends (done.2.registry n) h (source.row w.types name owner t.nextNumber) ∧
          done = (.ok h,
            { counted with registries := t.registries.set n (done.2.registry n) })) := by
  intro c r
  have held : r.FunctionsHeld := reachable.functionsHeld n
  obtain ⟨order, chronicle⟩ := reachable.chronicle
  have inOrder : r.InOrder (order n) := chronicle.inOrder n
  refine ⟨⟨⟨order, chronicle⟩, fun other told => (told.inOrder n).named⟩, fun d step => ?_,
    fun text => ⟨?_, fun h => ?_⟩, fun h k row other first second same => ?_,
    fun depth owner source s within signed => ?_⟩
  · rcases step.overloads reachable n with thins | ⟨h, row, appends⟩
    · simp [show r.entered (d.registry n) = [] from thins.entered]
    · simp [show r.entered (d.registry n) = [h] from appends.entered]
  · rw [inOrder.named]
    exact inOrder.nodup.filter _
  · rw [inOrder.named, List.mem_filter, inOrder.alive, Registry.isFunctionAlive, Registry.isNamed]
    cases r.functionRow? h <;> simp
  · have leads := held.found_by_signature first
    rw [same, held.found_by_signature second] at leads
    cases Option.some.inj leads
    rfl
  · intro signature done counted
    have entered : done = (entering w n owner source).outcome t := by
      simp only [done]
      rw [addFunction_eq, outcome_bind_ok signed]
    rw [entered]
    constructor
    · intro h row alive same
      rw [outcome_entering_found held alive same]
      exact ⟨fun own => by rw [if_pos own], fun other => by rw [if_neg other]⟩
    · exact outcome_entering_new held within

/-- A function that its module has registered is found again, and one of other parameters comes after
it. -/
theorem overload_listed_last :
    let t := oneFunction
    let w := describing []
    let first := ofNumber (.primitive .string)
    let second : FunctionSource := ⟨"f", [], .primitive .string, fun _ => .void⟩
    let again := (addFunction w 9 0 (.ofName "one") first).outcome t
    let added := (addFunction w 9 0 (.ofName "two") second).outcome t
    again = (.ok ⟨⟨0, 0⟩⟩, { t with nextNumber := t.nextNumber + 1 }) ∧
      ∃ h, added.1 = .ok h ∧ (added.2.registry 0).functionsNamed "f" = [⟨⟨0, 0⟩⟩, h] := by
  intro t w first second again added
  obtain ⟨reachable, -, within⟩ := oneFunction_ready
  obtain ⟨-, -, -, -, registers⟩ := overload_sets_are_exact reachable 0
  have known : ∀ type ∈ first.types, (t.registry 0).Knows (w.types.hash type) := by
    have found : first.types.all
        (fun type => ((t.registry 0).anyByHash? (w.types.hash type)).isSome) = true := by
      decide +kernel
    exact fun type listed => Option.isSome_iff_exists.mp (List.all_eq_true.mp found type listed)
  constructor
  · have present : ((t.registry 0).functionRow? ⟨⟨0, 0⟩⟩).any (fun row => row.owner = .ofName "one" ∧
        row.signature = .ofFunction first.name (first.params.map w.types.hash)) = true := by
      decide +kernel
    obtain ⟨row, alive, own⟩ := (Option.any_eq_true _ _).mp present
    obtain ⟨own, same⟩ := of_decide_eq_true own
    have ends : ((signing w 8 0 (.ofName "one") first).outcome t).1 = .ok () := by
      decide +kernel
    have signed := outcome_signing_known known ends
    exact ((registers 8 (.ofName "one") first t within signed).1 _ row alive same).1 own
  · have absent : (t.registry 0).functionRows.all (fun entry => entry.2.signature ≠
        .ofFunction second.name (second.params.map w.types.hash)) = true := by
      decide +kernel
    have named : (t.registry 0).functionsNamed "f" = [⟨⟨0, 0⟩⟩] := by
      decide +kernel
    have ends : ((signing w 8 0 (.ofName "two") second).outcome t).1 = .ok () := by
      decide +kernel
    have answered : ∀ type ∈ second.types, (t.registry 0).Knows (w.types.hash type) :=
      fun type listed => known type (List.mem_cons_of_mem _ listed)
    have signed := outcome_signing_known answered ends
    obtain ⟨h, name, text, appends, after⟩ :=
      (registers 8 (.ofName "two") second t within signed).2 fun h row alive =>
        of_decide_eq_true (List.all_eq_true.mp absent _ (Registry.mem_functionRows.mpr alive))
    refine ⟨h, congrArg Prod.fst after, ?_⟩
    rw [appends.named, named]
    exact congrArg _ (if_pos text.symm)

end Script

end TypeCatalog
